import Natsmqtt5.Away.Outcome
import Natsmqtt5.Line

/-!
# Where a message waits

Read in the order held, unsent, taken off the queue, queued, and then the session's buffer, what
waits in the connection that attached last and in the session is one `Line`: messages join it at the
end, `prepare` takes from the front, and every other step leaves it as it is or drops from it. The
steps that lose a message or break the order are those that `Sound` leaves out:

* a successor attaches while another connection of the session still has messages waiting, or a
  handler on its way to it: they reach the buffer after `attach` has emptied it;
* a write fails while the burst holds deliveries that are not prepared: `deliverBurst` returns
  without `keepUnsent`.

Results:
* `Placed`: the waiting messages form a line, no connection but the last has any, and the buffer is
  empty while a connection that is not sealed is attached.
-/

namespace Natsmqtt5.Away

/-! ## The line -/

variable {l : Loop}

theorem Loop.ne_stopped (h : l.running) : l ≠ .stopped := by
  rintro rfl
  simp at h

theorem Loop.ne_offline (h : l.running) : l ≠ .offline := by
  rintro rfl
  simp at h

section

variable {κ : Type} {k : Conn} {limit d : Nat} {s s' : State κ} {c : κ}
  {i e queue ds ready : List Nat}

/-- What waits in the connection that attached last, and then in the session. -/
def State.waiting (s : State κ) : List Nat :=
  (s.last.elim [] fun c => (s.conns c).waiting) ++ s.away

def State.line (s : State κ) : Line where
  next := s.next
  served := s.tracked
  dropped := s.dropped
  waiting := s.waiting

/-! ## The invariant -/

/-- What the flags of a connection say about it. -/
structure Conn.Ok (k : Conn) : Prop where
  unsealed : k.sealed = false → k.held = [] ∧ k.finished = false
  isSealed : k.sealed = true → k.loop = .stopped ∧ k.unsent = [] ∧ k.queue = []
  finished : k.finished = true → k.held = []
  kept : k.closed = false → k.unsent = []

/-- The goroutine of a sealed connection has stopped. -/
theorem Conn.Ok.open (h : k.Ok) (hne : k.loop ≠ .stopped) : k.sealed = false := by
  by_contra hs
  exact hne (h.isSealed (by simpa using hs)).1

/-- A connection that stays open has only to keep what it has not sent. -/
theorem Conn.Ok.of_open {k' : Conn} (h : k.Ok) (hne : k.loop ≠ .stopped)
    (hs : k'.sealed = k.sealed) (hh : k'.held = k.held) (hf : k'.finished = k.finished)
    (hk : k'.closed = false → k'.unsent = []) : k'.Ok := by
  have hopen := h.open hne
  have hheld := h.unsealed hopen
  refine ⟨fun _ => by rw [hh, hf]; exact hheld, fun ht => ?_, fun _ => by rw [hh]; exact hheld.1,
    hk⟩
  exact absurd (ht.symm.trans (hs.trans hopen)) (by simp)

structure Placed (limit : Nat) (s : State κ) : Prop where
  line : s.line.Ok
  room : s.next ≤ limit ∧ s.next ≤ deliveryQueueDepth
  conns : ∀ c, (s.conns c).Ok
  lone : ∀ c, s.last ≠ some c → (s.conns c).waiting = [] ∧ (s.conns c).routing = 0
  attached : ∀ c, s.conn = some c → s.last = some c
  serving : ∀ c, s.last = some c → (s.conns c).sealed = false → s.away = [] ∧ s.conn = some c
  notLost : s.awayLost = false
  offline : ∀ c, (s.conns c).loop = .offline → s.last ≠ some c

theorem Placed.init (limit : Nat) : Placed limit ({} : State κ) where
  line := Line.Ok.empty
  room := ⟨Nat.zero_le _, Nat.zero_le _⟩
  conns _ := ⟨fun _ => ⟨rfl, rfl⟩, fun h => absurd h (by simp), fun _ => rfl, fun _ => rfl⟩
  lone _ _ := ⟨rfl, rfl⟩
  attached _ h := absurd h (by simp)
  serving _ h := absurd h (by simp)
  notLost := rfl
  offline _ _ := by simp

/-- A connection with a message waiting attached last. -/
theorem Placed.last_of_waiting (h : Placed limit s) (hw : (s.conns c).waiting ≠ []) :
    s.last = some c := by
  by_contra hl
  exact hw (h.lone c hl).1

theorem Placed.last_of_routing (h : Placed limit s) (hr : (s.conns c).routing ≠ 0) :
    s.last = some c := by
  by_contra hl
  exact hr (h.lone c hl).2

theorem waiting_of_last (hl : s.last = some c) : s.waiting = (s.conns c).waiting ++ s.away := by
  simp [State.waiting, hl]

theorem Placed.length_waiting_le (h : Placed limit s) :
    s.tracked.length + s.waiting.length ≤ s.next := by
  have := h.line.length_eq
  simp only [State.line] at this
  omega

variable [DecidableEq κ]

@[simp] theorem setConn_same (k : Conn) : (s.setConn c k).conns c = k := by
  simp [State.setConn]

@[simp] theorem setConn_other {d : κ} (k : Conn) (hd : d ≠ c) :
    (s.setConn c k).conns d = s.conns d := by
  simp [State.setConn, hd]

/-- What waits after a connection changed: its own part, if it attached last, and else
what waited. -/
theorem waiting_setConn (k : Conn) :
    (s.setConn c k).waiting = if s.last = some c then k.waiting ++ s.away else s.waiting := by
  cases hl : s.last with
  | none => simp [State.waiting, State.setConn, hl]
  | some d =>
    by_cases hd : d = c
    · simp [State.waiting, State.setConn, hl, hd]
    · simp [State.waiting, State.setConn, hl, hd]

/-- One connection changes, and what became of the messages is still a line. -/
theorem Placed.move (h : Placed limit s) {t d : List Nat}
    (hline : Line.Ok ⟨s.next, t, d, (s.setConn c k).waiting⟩)
    (hlone : s.last ≠ some c → k.waiting = [] ∧ k.routing = 0) (hok : k.Ok)
    (hseal : k.sealed = false → (s.conns c).sealed = false)
    (hoff : k.loop = .offline → (s.conns c).loop = .offline) :
    Placed limit { s.setConn c k with tracked := t, dropped := d, inflight := i, sent := e } :=
  { h with
    line := hline
    conns x := by
      by_cases hx : x = c
      · subst hx; simpa using hok
      · simpa [hx] using h.conns x
    lone x hl := by
      by_cases hx : x = c
      · subst hx; simpa using hlone hl
      · simpa [hx] using h.lone x hl
    serving x hl hs := by
      by_cases hx : x = c
      · subst hx; exact h.serving x hl (hseal (by simpa using hs))
      · exact h.serving x hl (by simpa [hx] using hs)
    offline x hx := by
      by_cases hc : x = c
      · subst hc; exact h.offline x (hoff (by simpa using hx))
      · exact h.offline x (by simpa [hc] using hx) }

/-- One connection changes and the same messages wait in it. -/
theorem Placed.quiet (h : Placed limit s) (hw : k.waiting = (s.conns c).waiting)
    (hr : s.last ≠ some c → k.routing = 0) (hok : k.Ok)
    (hseal : k.sealed = false → (s.conns c).sealed = false)
    (hoff : k.loop = .offline → (s.conns c).loop = .offline) :
    Placed limit { s.setConn c k with inflight := i, sent := e } := by
  refine h.move ?_ (fun hl => ⟨hw.trans (h.lone c hl).1, hr hl⟩) hok hseal hoff
  rw [waiting_setConn, hw]
  by_cases hl : s.last = some c
  · rw [if_pos hl, ← waiting_of_last hl]; exact h.line
  · rw [if_neg hl]; exact h.line

/-- A step of the delivery goroutine that leaves what waits as it is: the goroutine of a connection
that is not sealed. -/
theorem Placed.loop (h : Placed limit s) {unsent : List Nat} {closed : Bool}
    (hne : (s.conns c).loop ≠ .stopped) (hl : l ≠ .offline) (hk : closed = false → unsent = [])
    (hw : (s.conns c).held ++ unsent ++ l.taken ++ queue = (s.conns c).waiting) :
    Placed limit { s.setConn c
        { s.conns c with closed := closed, loop := l, queue := queue, unsent := unsent } with
      inflight := i, sent := e } :=
  h.quiet hw (fun hc => (h.lone c hc).2) ((h.conns c).of_open hne rfl rfl rfl hk) (fun hs => hs)
    (fun ho => absurd ho hl)

/-- Messages leave the line of the last connection for good. -/
theorem Placed.drop (h : Placed limit s) (hlast : s.last = some c) {gone : List Nat}
    (hp : (s.conns c).waiting.Perm (gone ++ k.waiting))
    (hsub : k.waiting.Sublist (s.conns c).waiting) (hok : k.Ok)
    (hseal : k.sealed = false → (s.conns c).sealed = false)
    (hoff : k.loop = .offline → (s.conns c).loop = .offline) :
    Placed limit { s.setConn c k with dropped := s.dropped ++ gone } := by
  refine h.move ?_ (fun hl => absurd hlast hl) hok hseal hoff
  rw [waiting_setConn, if_pos hlast]
  refine h.line.drop ?_ ?_
  · simp only [State.line, waiting_of_last hlast]
    rw [← List.append_assoc]
    exact hp.append_right _
  · simp only [State.line, waiting_of_last hlast]
    exact hsub.append_right _

/-! ## The steps -/

theorem Placed.setClosed (h : Placed limit s) :
    Placed limit (s.setConn c { s.conns c with closed := true }) :=
  h.quiet rfl (fun hc => (h.lone c hc).2)
    { (h.conns c) with kept := fun hs => absurd hs (by simp) }
    (fun hs => hs) (fun ho => ho)

/-- A connection that has nothing taken off its queue stops. -/
theorem Placed.fail (h : Placed limit s) (hne : (s.conns c).loop ≠ .stopped)
    (ht : (s.conns c).loop.taken = []) : Placed limit (s.fail c) :=
  h.loop hne (by simp) (fun hs => absurd hs (by simp)) (by rw [Conn.waiting, ht]; rfl)

/-- A goroutine moves on with the same deliveries in hand. -/
theorem Placed.goto (h : Placed limit s) (hne : (s.conns c).loop ≠ .stopped) (hl : l ≠ .offline)
    (ht : l.taken = (s.conns c).loop.taken) :
    Placed limit { s.goto c l with inflight := i, sent := e } :=
  h.loop hne hl (h.conns c).kept (by simp [Conn.waiting, ht, -Loop.taken])

theorem Placed.keepUnsent (h : Placed limit s)
    (hne : (s.conns c).loop ≠ .stopped) (hl : l ≠ .offline) (hclosed : (s.conns c).closed = true)
    (ht : (s.conns c).loop.taken = ds) (hn : l.taken = []) : Placed limit (s.keepUnsent c ds l) :=
  h.loop hne hl (fun hs => absurd (hclosed.symm.trans hs) (by simp))
    (by simp [Conn.waiting, ht, hn, -Loop.taken])

/-- `routeAway` sends a handler to the connection, or holds the message. -/
theorem Placed.route (h : Placed limit s) (hroom : s.next < limit ∧ s.next < deliveryQueueDepth) :
    Placed limit (routeAway limit s) := by
  unfold routeAway
  split
  · rename_i d hd
    obtain ⟨hconn, -⟩ := Option.filter_eq_some_iff.mp hd
    have hlast := h.attached d hconn
    exact h.quiet rfl (fun hn => absurd hlast hn)
      { (h.conns d) with }
      (fun hs => hs) (fun ho => ho)
  · rename_i hnone
    have hlen := h.length_waiting_le
    have haway : s.away.length ≤ s.waiting.length := by simp [State.waiting]
    rw [if_neg (by simp [h.notLost]), if_neg (by omega)]
    refine { h with line := ?_, room := ⟨hroom.1, hroom.2⟩, serving := fun d hl hs => ?_ }
    · have := h.line.arrive
      simpa [State.line, State.waiting] using this
    · -- a last connection that is not sealed would have been given the message
      have hconn := (h.serving d hl hs).2
      have hsealed : (s.conns d).sealed = true := by simpa [hconn] using hnone
      exact absurd (hsealed.symm.trans hs) (by simp)

theorem Placed.enqueue (h : Placed limit s) (hroom : s.next < limit ∧ s.next < deliveryQueueDepth)
    (hs : step limit s (.enqueue c) = some s') : Placed limit s' := by
  simp only [step] at hs
  split at hs
  · cases hs
  · rename_i hr
    have hlast := h.last_of_routing hr
    have hless : Placed limit (s.setConn c { s.conns c with routing := (s.conns c).routing - 1 }) :=
      h.quiet rfl (fun hn => absurd hlast hn)
        { (h.conns c) with }
        (fun hs => hs) (fun ho => ho)
    split at hs
    · cases hs
      exact hless.route hroom
    · rename_i hopen
      have hopen : (s.conns c).sealed = false := by simpa using hopen
      have haway := (h.serving c hlast hopen).1
      have hqueue : (s.conns c).queue.length < deliveryQueueDepth := by
        have hlen := h.length_waiting_le
        have : (s.conns c).queue.length ≤ s.waiting.length := by
          rw [waiting_of_last hlast]
          simp only [Conn.waiting, List.length_append]
          omega
        omega
      rw [if_pos hqueue] at hs
      cases hs
      have hline := h.line.arrive
      refine ⟨?_, ⟨hroom.1, hroom.2⟩, fun d => ?_, fun d hl => ?_, h.attached, fun d hl hs => ?_,
        h.notLost, fun d ho => ?_⟩
      · simpa [State.line, State.waiting, State.setConn, hlast, haway, Conn.waiting] using hline
      · by_cases hd : d = c
        · subst hd
          simp only [setConn_same]
          exact { (h.conns d) with isSealed := fun hs => absurd hs (by simp [hopen]) }
        · simpa [hd] using h.conns d
      · have hd : d ≠ c := fun hd => hl (hd ▸ hlast)
        simpa [hd] using h.lone d hl
      · by_cases hd : d = c
        · subst hd; exact h.serving d hl hopen
        · exact h.serving d hl (by simpa [hd] using hs)
      · by_cases hd : d = c
        · subst hd; exact h.offline d (by simpa using ho)
        · exact h.offline d (by simpa [hd] using ho)

/-- What waited in the session waits in the connection that attaches. -/
theorem Placed.attach (h : Placed limit s) (hoff : (s.conns c).loop = .offline)
    (hothers : ∀ d, d ≠ c → (s.conns d).waiting = [] ∧ (s.conns d).routing = 0) :
    Placed limit { s.setConn c
        { s.conns c with loop := .starting, queue := (s.conns c).queue ++ s.away } with
      conn := some c, last := some c, away := [] } := by
  have hnot := h.offline c hoff
  have hempty := (h.lone c hnot).1
  have hne : (s.conns c).loop ≠ .stopped := by simp [hoff]
  have hwait : s.waiting = s.away := by
    cases hl : s.last with
    | none => simp [State.waiting, hl]
    | some d =>
      have hd : d ≠ c := fun hd => hnot (hd ▸ hl)
      simp [waiting_of_last hl, (hothers d hd).1]
  refine ⟨?_, h.room, fun d => ?_, fun d hl => ?_, fun d hd => hd, fun d hl hs => ⟨rfl, hl⟩,
    h.notLost, fun d ho => ?_⟩
  · have hline : Line.Ok ⟨s.next, s.tracked, s.dropped, s.away⟩ := by
      rw [← hwait]
      exact h.line
    simp only [Conn.waiting, List.append_eq_nil_iff] at hempty
    simpa [State.line, State.waiting, State.setConn, Conn.waiting, Loop.taken, hempty] using hline
  · by_cases hd : d = c
    · subst hd
      simp only [setConn_same]
      exact (h.conns d).of_open hne rfl rfl rfl (h.conns d).kept
    · simpa [hd] using h.conns d
  · have hd : d ≠ c := fun hd => hl (by rw [hd])
    simpa [hd] using hothers d hd
  · have hd : d ≠ c := by
      rintro rfl
      simp at ho
    intro hl
    exact hd (Option.some.inj hl).symm

/-- A delivery leaves the queue and is not wanted. -/
theorem Placed.unwanted (h : Placed limit s)
    (hrun : (s.conns c).loop.running) (hq : (s.conns c).queue = d :: queue) : Placed limit
      { s.setConn c { s.conns c with queue := queue } with dropped := s.dropped ++ [d] } := by
  refine h.drop (h.last_of_waiting (by simp [Conn.waiting, hq])) ?_ ?_
    ((h.conns c).of_open (Loop.ne_stopped hrun) rfl rfl rfl (h.conns c).kept) (fun hs => hs)
    (fun ho => ho)
  · simp only [Conn.waiting, hq]
    exact List.perm_middle
  · simp only [Conn.waiting, hq]
    exact (List.sublist_cons_self d queue).append_left _

section

variable (h : Placed limit s) (hl : (s.conns c).loop = .preparing (d :: ds) ready)
  (hopen : (s.conns c).closed = false)
include h hl hopen

omit [DecidableEq κ] in
/-- While the connection is open, the delivery to be prepared is the front of the line. -/
theorem Placed.front : s.last = some c ∧ (s.conns c).waiting = d :: (ds ++ (s.conns c).queue) ∧
      ∀ l : Loop, l.taken = ds →
        Conn.waiting { s.conns c with loop := l } = ds ++ (s.conns c).queue := by
  have hne : (s.conns c).loop ≠ .stopped := by simp [hl]
  have hheld := ((h.conns c).unsealed ((h.conns c).open hne)).1
  have hkept := (h.conns c).kept hopen
  have hwait : (s.conns c).waiting = d :: (ds ++ (s.conns c).queue) := by
    simp [Conn.waiting, hheld, hkept, hl]
  refine ⟨h.last_of_waiting (by simp [hwait]), hwait, fun l ht => ?_⟩
  simp [Conn.waiting, hheld, hkept, ht, -Loop.taken]

theorem Placed.track :
    Placed limit ({ s with inflight := s.inflight ++ [d], tracked := s.tracked ++ [d] }.goto c
      (.preparing ds (ready ++ [d]))) := by
  obtain ⟨hlast, hwait, hrest⟩ := h.front hl hopen
  refine h.move ?_ (fun hn => absurd hlast hn)
    ((h.conns c).of_open (by simp [hl]) rfl rfl rfl (h.conns c).kept) (fun hs => hs)
    (fun ho => by simp at ho)
  rw [waiting_setConn, if_pos hlast]
  have hline : s.line.waiting = d :: (ds ++ (s.conns c).queue ++ s.away) := by
    simp [State.line, waiting_of_last hlast, hwait]
  have hserved := h.line.serve hline
  rwa [← hrest (.preparing ds (ready ++ [d])) rfl] at hserved

theorem Placed.expire :
    Placed limit ({ s with dropped := s.dropped ++ [d] }.goto c (.preparing ds ready)) := by
  obtain ⟨hlast, hwait, hrest⟩ := h.front hl hopen
  refine h.drop hlast ?_ ?_ ((h.conns c).of_open (by simp [hl]) rfl rfl rfl (h.conns c).kept)
    (fun hs => hs) (fun ho => by simp at ho)
  · rw [hrest (.preparing ds ready) rfl, hwait]
    exact .refl _
  · rw [hrest (.preparing ds ready) rfl, hwait]
    exact List.sublist_cons_self d _

end

theorem Placed.sealQueue (h : Placed limit s) (hstop : (s.conns c).loop = .stopped)
    (hopen : (s.conns c).sealed = false) :
    Placed limit (s.setConn c
      { s.conns c with sealed := true, held := (s.conns c).unsent ++ (s.conns c).queue,
                       unsent := [],
                       queue := [] }) := by
  obtain ⟨hheld, hfin⟩ := (h.conns c).unsealed hopen
  refine h.quiet ?_ (fun hl => (h.lone c hl).2) ⟨fun hs => absurd hs (by simp), fun _ => ?_,
    fun hf => ?_, fun _ => rfl⟩ (fun hs => absurd hs (by simp)) (fun ho => ho)
  · simp [Conn.waiting, hheld, hstop]
  · exact ⟨hstop, rfl, rfl⟩
  · exact absurd (hfin.symm.trans hf) (by simp)

omit [DecidableEq κ] in
/-- With room, `holdAway` puts the older messages in front. -/
theorem holdAway_eq {t : State κ} {older : List Nat} (hlost : t.awayLost = false)
    (hlen : older.length + t.away.length ≤ limit) :
    holdAway limit t older = { t with away := older ++ t.away } := by
  unfold holdAway
  split
  · rename_i hnil
    simp [hnil]
  · rw [if_neg (by simp [hlost]), if_neg (by omega)]

/-- What a sealed connection holds goes to the front of the buffer. -/
theorem Placed.hold (h : Placed limit s) (unwanted : List Nat) (hseal : (s.conns c).sealed = true) :
    Placed limit (holdAway limit
      { s.setConn c { s.conns c with held := [], finished := true } with
        dropped := s.dropped ++ (s.conns c).held.filter (· ∈ unwanted) }
      ((s.conns c).held.filter (· ∉ unwanted))) := by
  obtain ⟨hstop, hunsent, hqueue⟩ := (h.conns c).isSealed hseal
  have hwait : (s.conns c).waiting = (s.conns c).held := by
    simp [Conn.waiting, hstop, hunsent, hqueue]
  have hempty : Conn.waiting { s.conns c with held := [], finished := true } = [] := by
    simp [Conn.waiting, hstop, hunsent, hqueue]
  have hok : Conn.Ok { s.conns c with held := [], finished := true } :=
    ⟨fun hs => absurd (hseal.symm.trans hs) (by simp), fun _ => ⟨hstop, hunsent, hqueue⟩,
      fun _ => rfl, (h.conns c).kept⟩
  by_cases hlast : s.last = some c
  · have hsub : ((s.conns c).held.filter (· ∉ unwanted)).Sublist (s.conns c).held :=
      List.filter_sublist
    have hsplit : (s.conns c).held.Perm ((s.conns c).held.filter (· ∈ unwanted) ++
        (s.conns c).held.filter (· ∉ unwanted)) := by
      simpa using (List.filter_append_perm (· ∈ unwanted) (s.conns c).held).symm
    have hline : s.line.waiting = (s.conns c).held ++ s.away := by
      simp only [State.line, waiting_of_last hlast, hwait]
    have hlen := h.length_waiting_le
    rw [show s.waiting = _ from hline, List.length_append] at hlen
    have hfits := (Nat.add_le_add_right hsub.length_le s.away.length).trans
      ((Nat.le_add_left _ _).trans (hlen.trans h.room.1))
    rw [holdAway_eq (by exact h.notLost) (by exact hfits)]
    refine ⟨?_, h.room, fun d => ?_, fun d hl => ?_, h.attached, fun d hl hs => ?_, h.notLost,
      fun d ho => ?_⟩
    · have := h.line.drop (by rw [hline, ← List.append_assoc]; exact hsplit.append_right _)
        (by rw [hline]; exact hsub.append_right _)
      simpa [State.line, State.waiting, hlast, State.setConn, hempty] using this
    · by_cases hd : d = c
      · subst hd; simpa using hok
      · simpa [hd] using h.conns d
    · have hd : d ≠ c := fun hd => hl (hd ▸ hlast)
      simpa [hd] using h.lone d hl
    · -- the last connection is the one that is sealed
      obtain rfl : c = d := Option.some.inj (hlast.symm.trans hl)
      exact absurd (hseal.symm.trans (by simpa using hs)) (by simp)
    · by_cases hd : d = c
      · subst hd; exact h.offline d (by simpa using ho)
      · exact h.offline d (by simpa [hd] using ho)
  · have hheld : (s.conns c).held = [] := hwait.symm.trans (h.lone c hlast).1
    have := h.quiet (c := c) (i := s.inflight) (e := s.sent) (hempty.trans (h.lone c hlast).1.symm)
      (fun hn => (h.lone c hn).2) hok (fun hs => hs) (fun ho => ho)
    simp only [hheld, List.filter_nil, List.append_nil, holdAway, if_true]
    exact this

omit [DecidableEq κ] in
theorem Placed.detach (h : Placed limit s) (hfin : (s.conns c).finished = true)
    (hconn : s.conn = some c) : Placed limit { s with conn := none } := by
  refine { h with attached := fun d hd => absurd hd (by simp), serving := fun d hl hs => ?_ }
  -- the attached connection is the last one, and it is sealed
  obtain rfl : c = d := Option.some.inj ((h.attached c hconn).symm.trans hl)
  have := ((h.conns c).unsealed hs).2
  exact absurd (hfin.symm.trans this) (by simp)

omit [DecidableEq κ] in
/-- Fewer messages were tracked than there are Packet Identifiers. -/
theorem Placed.not_exhausted (h : Placed limit s) : s.tracked.length < 65535 := by
  have hlen := h.length_waiting_le
  have hroom := h.room.2
  simp only [deliveryQueueDepth] at hroom
  omega

/-- Every step that `Sound` allows keeps the line. -/
theorem Placed.step (h : Placed limit s) {a : Act κ} (hok : Sound limit s a)
    (hs : step limit s a = some s') : Placed limit s' := by
  cases Outcome.of_step hs with
  | route => exact h.route hok
  | enqueue hs => exact h.enqueue hok hs
  | attach hl => exact h.attach hl hok
  | close => exact h.setClosed
  | snapshot hl | skip hl hn => exact h.goto (by simp [hl]) (by simp) (by simp [hl])
  | fail hrun htaken => exact h.fail (Loop.ne_stopped hrun) (htaken hok)
  | exhausted hlen => exact absurd hlen (Nat.not_le_of_lt h.not_exhausted)
  | write hrun hrun' _ htaken | goto hrun hrun' _ htaken =>
    exact h.goto (Loop.ne_stopped hrun) (Loop.ne_offline hrun') htaken
  | take hrun hrun' hq _ htaken =>
    exact h.loop (Loop.ne_stopped hrun) (Loop.ne_offline hrun') (h.conns _).kept
      (by simp [Conn.waiting, hq, htaken, -Loop.taken])
  | unwanted hrun hq => exact h.unwanted hrun hq
  | track hl hopen => exact h.track hl hopen
  | expire hl hopen => exact h.expire hl hopen
  | keep hrun hclosed htaken hl =>
    obtain rfl | rfl := hl
    · exact h.keepUnsent (Loop.ne_stopped hrun) (by simp) hclosed htaken rfl
    · exact h.keepUnsent (Loop.ne_stopped hrun) (by simp) hclosed htaken rfl
  | stop hne htaken => exact h.goto hne (by simp) htaken.symm
  | sealQueue hstop hopen => exact h.sealQueue hstop hopen
  | hold hsealed => exact h.hold _ hsealed
  | detach hfin hconn => exact h.detach hfin hconn
  | ack _ => exact { h with }

end

end Natsmqtt5.Away
