import Natsmqtt5.Away.Placed

/-!
# Without a queue, nothing is stranded

`README.md` says that a broker with no offline queue holds the messages of a client that is away and
delivers them in publish order when the client resumes, ahead of anything newer. That is so in every
run that `Sound` allows. Two kinds of steps break it, and `Sound` leaves out only those:

* `attach` while the predecessor still has messages waiting. `sealAndHold` then fills the buffer
  after `attach` has emptied it, and nothing empties it until the next connection (`stranded`).
* a write that fails while `deliverBurst` holds deliveries it has not prepared. It returns the error
  without `keepUnsent`, which its other exits call, and they are gone (`lost_burst`).

Results:
* `Sending`: what is in flight and not yet written is ahead of every goroutine that could write
  anything later.
* **`nothing_stranded`**: every message is in flight, sent, dropped, or waits in exactly one place;
  the buffer is empty while a connection is attached; messages are first sent in the order of
  arrival.
-/

namespace Natsmqtt5.Away

/-- A message that is sent for the first time came after all that were sent before it. -/
def InOrder : List Nat → Prop
  | [] => True
  | n :: sent => (n ∉ sent → ∀ m ∈ sent, m < n) ∧ InOrder sent

section

variable {κ : Type} {limit n : Nat} {s s' : State κ} {c : κ}

structure Sending (s : State κ) : Prop where
  sent_tracked : ∀ n ∈ s.sent, n ∈ s.tracked
  inflight : s.inflight.Sublist s.tracked
  unsent : ∀ n ∈ s.tracked, n ∉ s.sent → n ∈ s.inflight
  ready : ∀ c, (s.conns c).loop.ready.Sublist s.tracked
  /-- What a goroutine has to write comes with everything unsent that is older. -/
  early : ∀ c, ∀ n ∈ s.tracked, n ∉ s.sent → ∀ x ∈ (s.conns c).loop.ready, n < x →
    n ∈ (s.conns c).loop.ready
  /-- The last connection has everything unsent to write. -/
  current : ∀ c, s.last = some c → (s.conns c).loop.running → ∀ n ∈ s.tracked, n ∉ s.sent →
    n ∈ (s.conns c).loop.ready
  older_sent : ∀ n ∈ s.tracked, ∀ x ∈ s.sent, n < x → n ∈ s.sent
  order : InOrder s.sent

theorem Sending.init : Sending ({} : State κ) where
  sent_tracked _ h := h
  inflight := .refl _
  unsent _ h _ := h
  ready _ := .refl _
  early _ _ h := absurd h (by simp)
  current _ h := absurd h (by simp)
  older_sent _ h := absurd h (by simp)
  order := trivial

/-- Only a running goroutine has something to write. -/
theorem Loop.running_of_ready {l : Loop} {x : Nat} (hx : x ∈ l.ready) : l.running := by
  cases l with
  | resending | preparing | flushing => rfl
  | _ => simp at hx

/-- Goroutines stop, start, or move past messages that were sent. -/
theorem Sending.shed (h : Sending s) (ht : s'.tracked = s.tracked) (hs : s'.sent = s.sent)
    (hi : s'.inflight = s.inflight)
    (hready : ∀ c, (s'.conns c).loop.ready.Sublist (s.conns c).loop.ready)
    (hshed : ∀ c, (s'.conns c).loop.running → (s.conns c).loop.running ∧
      ∀ n ∈ (s.conns c).loop.ready, n ∈ (s'.conns c).loop.ready ∨ n ∈ s.sent)
    (hlast : ∀ c, s'.last = some c → (s'.conns c).loop.running → s.last = some c) :
    Sending s' where
  sent_tracked := by rw [hs, ht]; exact h.sent_tracked
  inflight := by rw [hi, ht]; exact h.inflight
  unsent := by rw [hs, ht, hi]; exact h.unsent
  ready c := by rw [ht]; exact (hready c).trans (h.ready c)
  early c n hn hun x hx hlt := by
    rw [ht] at hn
    rw [hs] at hun
    have hmem := h.early c n hn hun x ((hready c).subset hx) hlt
    exact ((hshed c (Loop.running_of_ready hx)).2 n hmem).resolve_right hun
  current c hl hrun n hn hun := by
    rw [ht] at hn
    rw [hs] at hun
    obtain ⟨hran, hkeep⟩ := hshed c hrun
    exact (hkeep n (h.current c (hlast c hl hrun) hran n hn hun)).resolve_right hun
  older_sent := by rw [hs, ht]; exact h.older_sent
  order := by rw [hs]; exact h.order

/-- No goroutine moves. -/
theorem Sending.same (h : Sending s) (ht : s'.tracked = s.tracked) (hs : s'.sent = s.sent)
    (hi : s'.inflight = s.inflight) (hl : ∀ c, (s'.conns c).loop = (s.conns c).loop)
    (hlast : s'.last = s.last) : Sending s' := by
  refine h.shed ht hs hi (fun c => by rw [hl]) (fun c hrun => ?_) (fun c hl _ => by rwa [← hlast])
  rw [hl] at hrun ⊢
  exact ⟨hrun, fun n hn => .inl hn⟩

variable [DecidableEq κ] {k : Conn} {dropped : List Nat}

/-- The goroutine of one connection moves. -/
theorem Sending.setConn (h : Sending s) {last : Option κ}
    {conn : Option κ} (hready : k.loop.ready.Sublist (s.conns c).loop.ready)
    (hshed : k.loop.running → (s.conns c).loop.running ∧
      ∀ n ∈ (s.conns c).loop.ready, n ∈ k.loop.ready ∨ n ∈ s.sent)
    (hlast : ∀ d, last = some d → s.last = some d ∨ d = c ∧ ¬ k.loop.running) :
    Sending { s.setConn c k with away := away, dropped := dropped, last := last,
                                 conn := conn } := by
  refine h.shed rfl rfl rfl (fun d => ?_) (fun d hrun => ?_) (fun d hl hrun => ?_)
  · by_cases hd : d = c
    · subst hd; simpa using hready
    · simp [hd]
  · by_cases hd : d = c
    · subst hd; simpa using hshed (by simpa using hrun)
    · simp only [setConn_other k hd] at hrun ⊢
      exact ⟨hrun, fun n hn => .inl hn⟩
  · obtain hl | ⟨rfl, hnot⟩ := hlast d hl
    · exact hl
    · exact absurd (by simpa using hrun) hnot

/-- A goroutine stops. -/
theorem Sending.stop (h : Sending s) (hk : k.loop = .stopped) : Sending (s.setConn c k) :=
  h.setConn (by simp [hk]) (fun hrun => by simp [hk] at hrun)
    (fun _ hl => .inl hl)

/-- A goroutine moves on with the same messages to write. -/
theorem Sending.move (h : Sending s) (hready : k.loop.ready = (s.conns c).loop.ready)
    (hrun : k.loop.running → (s.conns c).loop.running) :
    Sending { s.setConn c k with away := away, dropped := dropped } :=
  h.setConn (by rw [hready]) (fun hr => ⟨hrun hr, fun n hn => .inl (by rwa [hready])⟩)
    (fun _ hl => .inl hl)

theorem Sending.routeAway (h : Sending s) : Sending (routeAway limit s) := by
  unfold Away.routeAway
  split
  · exact h.move rfl fun hrun => hrun
  · split
    · exact h.same rfl rfl rfl (fun _ => rfl) rfl
    · split
      · exact h.same rfl rfl rfl (fun _ => rfl) rfl
      · exact h.same rfl rfl rfl (fun _ => rfl) rfl

theorem Sending.enqueue (h : Sending s) (hs : step limit s (.enqueue c) = some s') :
    Sending s' := by
  simp only [step] at hs
  split at hs
  · cases hs
  · have hless : Sending (s.setConn c { s.conns c with routing := (s.conns c).routing - 1 }) :=
      h.move rfl fun hrun => hrun
    split at hs
    · cases hs
      exact hless.routeAway
    · split at hs <;> cases hs
      · refine hless.same rfl rfl rfl (fun d => ?_) rfl
        by_cases hd : d = c
        · subst hd; simp
        · simp [hd]
      · exact hless.same rfl rfl rfl (fun _ => rfl) rfl

theorem Sending.hold (h : Sending s) {older : List Nat} (hk : k.loop = (s.conns c).loop) :
    Sending (holdAway limit { s.setConn c k with dropped := dropped } older) := by
  have hmoved : ∀ away, Sending { s.setConn c k with away := away, dropped := dropped } :=
    fun _ => h.move (by rw [hk]) (by rw [hk]; exact fun hrun => hrun)
  unfold holdAway
  split
  · exact hmoved s.away
  · split
    · exact hmoved s.away
    · split
      · exact (hmoved []).same rfl rfl rfl (fun _ => rfl) rfl
      · exact hmoved (older ++ s.away)

/-- A new goroutine begins with everything in flight. -/
theorem Sending.snapshot (h : Sending s) : Sending (s.goto c (.resending s.inflight)) :=
  { h with
    ready d := by
      by_cases hd : d = c
      · subst hd
        simp only [State.goto, setConn_same]
        exact h.inflight
      · simp only [State.goto, setConn_other _ hd]
        exact h.ready d
    early d n hn hun x hx hlt := by
      by_cases hd : d = c
      · subst hd
        simp only [State.goto, setConn_same]
        exact h.unsent n hn hun
      · simp only [State.goto, setConn_other _ hd] at hx ⊢
        exact h.early d n hn hun x hx hlt
    current d hl hrun n hn hun := by
      by_cases hd : d = c
      · subst hd
        simp only [State.goto, setConn_same]
        exact h.unsent n hn hun
      · simp only [State.goto, setConn_other _ hd] at hrun ⊢
        exact h.current d hl hrun n hn hun }

omit [DecidableEq κ] in
/-- The head of what a goroutine has to write is written. -/
theorem Sending.write (h : Sending s) (hsort : s.tracked.Pairwise (· < ·)) {w : Write}
    {rest : List Nat} (hr : (s.conns c).loop.ready = n :: rest) : Sending (s.write n w) := by
  have hready := hr ▸ h.ready c
  have hn : n ∈ s.tracked := hready.subset (List.mem_cons_self ..)
  have hhead : ∀ m ∈ rest, n < m := (List.pairwise_cons.mp (hsort.sublist hready)).1
  -- everything older has been sent: it would be ahead of `n` on this connection
  have holder : ∀ m ∈ s.tracked, m < n → m ∈ s.sent := by
    intro m hm hlt
    by_contra hun
    have hmem := h.early c m hm hun n (by rw [hr]; exact List.mem_cons_self ..) hlt
    rw [hr, List.mem_cons] at hmem
    obtain rfl | hmem := hmem
    · exact absurd hlt (Nat.lt_irrefl _)
    · exact absurd (hhead m hmem) (Nat.lt_asymm hlt)
  refine ⟨fun m hm => ?_, ?_, fun m hm hun => ?_, h.ready, fun d m hm hun => ?_,
    fun d hl hrun m hm hun => ?_, fun m hm x hx hlt => ?_, fun hnew m hm => ?_, h.order⟩
  · obtain rfl | hm := List.mem_cons.mp hm
    · exact hn
    · exact h.sent_tracked m hm
  · simp only [State.write]
    split
    · exact (List.erase_sublist).trans h.inflight
    · exact h.inflight
  · have hun : m ≠ n ∧ m ∉ s.sent := by simpa [State.write] using hun
    have hmem := h.unsent m hm hun.2
    simp only [State.write]
    split
    · exact (List.mem_erase_of_ne hun.1).mpr hmem
    · exact hmem
  · exact h.early d m hm fun hm => hun (List.mem_cons_of_mem _ hm)
  · exact h.current d hl hrun m hm fun hm => hun (List.mem_cons_of_mem _ hm)
  · obtain rfl | hx := List.mem_cons.mp hx
    · exact List.mem_cons_of_mem _ (holder m hm hlt)
    · exact List.mem_cons_of_mem _ (h.older_sent m hm x hx hlt)
  · obtain hlt | rfl | hlt := Nat.lt_trichotomy m n
    · exact hlt
    · exact absurd hm hnew
    · exact absurd (h.older_sent n hn m hm hlt) hnew

/-- The front of the line is put in flight by the last connection. -/
theorem Sending.track (h : Sending s) (hp : Placed limit s) {d : Nat} {ds ready : List Nat}
    (hl : (s.conns c).loop = .preparing (d :: ds) ready) (hopen : (s.conns c).closed = false) :
    Sending ({ s with inflight := s.inflight ++ [d], tracked := s.tracked ++ [d] }.goto c
      (.preparing ds (ready ++ [d]))) := by
  obtain ⟨hlast, hwait, -⟩ := hp.front hl hopen
  have hready : (s.conns c).loop.ready = ready := by simp [hl]
  have hnewer : ∀ n ∈ s.tracked, n < d := by
    intro n hn
    have hsort := hp.line.sorted
    simp only [State.line, waiting_of_last hlast, hwait] at hsort
    exact (List.pairwise_append.mp hsort).2.2 n hn d (by simp)
  have hunsent : d ∉ s.sent := fun hd => absurd (hnewer d (h.sent_tracked d hd)) (Nat.lt_irrefl _)
  have hcurrent : ∀ n ∈ s.tracked, n ∉ s.sent → n ∈ ready := by
    intro n hn hun
    rw [← hready]
    exact h.current c hlast (by simp [hl]) n hn hun
  have hsub : ready.Sublist s.tracked := hready ▸ h.ready c
  refine ⟨fun n hn => List.mem_append_left _ (h.sent_tracked n hn), h.inflight.append_right _,
    fun n hn hun => ?_, fun x => ?_, fun x n hn hun y hy hlt => ?_, fun x hlx hrun n hn hun => ?_,
    fun n hn x hx hlt => ?_, h.order⟩
  · obtain hn | hn := List.mem_append.mp hn
    · exact List.mem_append_left _ (h.unsent n hn hun)
    · exact List.mem_append_right _ hn
  · by_cases hx : x = c
    · subst hx
      simp only [State.goto, setConn_same]
      exact hsub.append_right [d]
    · simp only [State.goto, setConn_other _ hx]
      exact (h.ready x).trans (List.sublist_append_left _ _)
  · by_cases hx : x = c
    · subst hx
      simp only [State.goto, setConn_same, Loop.ready, List.mem_append] at hy ⊢
      exact (List.mem_append.mp hn).imp_left (hcurrent n · hun)
    · simp only [State.goto, setConn_other _ hx] at hy ⊢
      obtain hn | hn := List.mem_append.mp hn
      · exact h.early x n hn hun y hy hlt
      · rw [List.mem_singleton.mp hn] at hlt
        exact absurd (hnewer y ((h.ready x).subset hy)) (Nat.lt_asymm hlt)
  · obtain rfl : c = x := Option.some.inj (hlast.symm.trans hlx)
    simp only [State.goto, setConn_same, Loop.ready, List.mem_append]
    exact (List.mem_append.mp hn).imp_left (hcurrent n · hun)
  · obtain hn | hn := List.mem_append.mp hn
    · exact h.older_sent n hn x hx hlt
    · rw [List.mem_singleton.mp hn] at hlt
      exact absurd (hnewer x (h.sent_tracked x hx)) (Nat.lt_asymm hlt)

theorem Sending.step (h : Sending s) (hp : Placed limit s) {a : Act κ}
    (hs : step limit s a = some s') : Sending s' := by
  have hsort : s.tracked.Pairwise (· < ·) := (List.pairwise_append.mp hp.line.sorted).1
  cases Outcome.of_step hs with
  | route => exact h.routeAway
  | enqueue hs => exact h.enqueue hs
  | attach hl =>
    refine h.setConn (by simp) (fun hrun => by simp at hrun)
      fun d hd => .inr ⟨(Option.some.inj hd).symm, by simp⟩
  | snapshot hl => exact h.snapshot
  | @skip c w n todo hl hn =>
    have hready : (s.conns c).loop.ready = n :: todo := by simp [hl]
    have htracked : n ∈ s.tracked := (hready ▸ h.ready c).subset (List.mem_cons_self ..)
    have hsent : n ∈ s.sent := by
      by_contra hun
      exact hn (h.unsent n htracked hun)
    refine h.setConn (by rw [hready]; exact List.sublist_cons_self n todo)
      (fun _ => ⟨by simp [hl], fun m hm => ?_⟩) fun _ hl => .inl hl
    rw [hready, List.mem_cons] at hm
    obtain rfl | hm := hm
    · exact .inr hsent
    · exact .inl hm
  | @write a c n w l hrun hrun' hready htaken =>
    have hw := h.write (w := w) hsort hready
    refine hw.setConn (by rw [show ((s.write n w).conns c).loop.ready = _ from hready]
                          exact List.sublist_cons_self n l.ready)
      (fun _ => ⟨hrun, fun m hm => ?_⟩) fun _ hl => .inl hl
    rw [show ((s.write n w).conns c).loop.ready = _ from hready, List.mem_cons] at hm
    obtain rfl | hm := hm
    · exact .inr (List.mem_cons_self ..)
    · exact .inl hm
  | goto hrun hrun' hready htaken => exact h.move hready fun _ => hrun
  | take hrun hrun' hq hready htaken => exact h.move hready fun _ => hrun
  | track hl hopen => exact h.track hp hl hopen
  | expire hl hopen => exact h.move (by simp [hl]) fun _ => by simp [hl]
  | keep hrun hclosed htaken hl =>
    obtain rfl | rfl := hl
    · exact h.stop rfl
    · exact h.move rfl fun _ => hrun
  | close | unwanted hrun hq | sealQueue hstop hopen => exact h.move rfl fun hrun => hrun
  | hold hsealed => exact h.hold rfl
  | detach hfin hconn => exact h.same rfl rfl rfl (fun _ => rfl) rfl
  | @ack n hn =>
    refine { h with inflight := List.erase_sublist.trans h.inflight, unsent := fun m hm hun => ?_ }
    have hne : m ≠ n := by
      rintro rfl
      exact hun hn
    exact (List.mem_erase_of_ne hne).mpr (h.unsent m hm hun)
  | _ => exact h.stop rfl

/-! ## The result -/

omit [DecidableEq κ] in
/-- A connection that has finished has nothing waiting. -/
theorem Conn.Ok.not_finished (h : k.Ok) (hw : k.waiting ≠ []) : k.finished = false := by
  by_contra hf
  have hf : k.finished = true := by simpa using hf
  have hsealed : k.sealed = true := by
    by_contra hs
    exact absurd (hf.symm.trans (h.unsealed (by simpa using hs)).2) (by simp)
  obtain ⟨hstop, hunsent, hqueue⟩ := h.isSealed hsealed
  exact hw (by simp [Conn.waiting, h.finished hf, hstop, hunsent, hqueue])

/-- `n` waits once: in the buffer, or in one connection that has not finished ending. -/
def State.WaitsOnce (s : State κ) (n : Nat) : Prop :=
  (s.away.count n = 1 ∧ ∀ c, n ∉ (s.conns c).waiting) ∨
    ∃ c, (s.conns c).finished = false ∧ (s.conns c).waiting.count n = 1 ∧ n ∉ s.away ∧
      ∀ d, d ≠ c → n ∉ (s.conns d).waiting

omit [DecidableEq κ] in
theorem Placed.waitsOnce (h : Placed limit s) (hn : n < s.next) (ht : n ∉ s.tracked)
    (hd : n ∉ s.dropped) : s.WaitsOnce n := by
  have hcount : s.waiting.count n = 1 := h.line.waits_once hn ht hd
  have hlone : ∀ d, s.last ≠ some d → n ∉ (s.conns d).waiting := by
    intro d hl
    simp [(h.lone d hl).1]
  cases hlast : s.last with
  | none =>
    refine .inl ⟨?_, fun c => hlone c (by simp [hlast])⟩
    simpa [State.waiting, hlast] using hcount
  | some c =>
    have hothers : ∀ d, d ≠ c → n ∉ (s.conns d).waiting := by
      intro d hd
      refine hlone d fun hl => hd ?_
      exact Option.some.inj (hl.symm.trans hlast)
    rw [waiting_of_last hlast, List.count_append] at hcount
    by_cases hc : n ∈ (s.conns c).waiting
    · have hpos := List.count_pos_iff.mpr hc
      refine .inr ⟨c, (h.conns c).not_finished (List.ne_nil_of_mem hc), by omega, ?_, hothers⟩
      exact List.count_eq_zero.mp (by omega)
    · have hzero := List.count_eq_zero.mpr hc
      refine .inl ⟨by omega, fun d => ?_⟩
      by_cases hd : d = c
      · exact hd ▸ hc
      · exact hothers d hd

theorem Placed.of_reach (h : Lts.Reach (Away.step limit) (Sound limit) ({} : State κ) s) :
    Placed limit s :=
  h.invariant (.init limit) fun _ _ _ hp hok hs => hp.step hok hs

theorem Sending.of_reach (h : Lts.Reach (Away.step limit) (Sound limit) ({} : State κ) s) :
    Sending s :=
  h.invariant_of (fun _ => Placed.of_reach) .init fun _ _ _ hp hw _ hs => hw.step hp hs

/-- **Nothing is stranded.** In every run whose steps are `Sound`, every message that has arrived is
in flight or sent, was dropped because it expired or its subscription is gone, or waits in exactly
one place; the buffer is empty while a connection is attached that has not begun to end; and
messages are first sent in the order of their arrival. -/
theorem nothing_stranded (limit : Nat) (s : State κ)
    (h : Lts.Reach (step limit) (Sound limit) {} s) :
    (∀ n < s.next, n ∈ s.inflight ∨ n ∈ s.sent ∨ n ∈ s.dropped ∨ s.WaitsOnce n) ∧
      (∀ c, s.conn = some c → (s.conns c).sealed = false → s.away = []) ∧ InOrder s.sent := by
  have hp := Placed.of_reach h
  have hw := Sending.of_reach h
  refine ⟨fun n hn => ?_, fun c hc hs => (hp.serving c (hp.attached c hc) hs).1, hw.order⟩
  by_cases hsent : n ∈ s.sent
  · exact .inr (.inl hsent)
  by_cases ht : n ∈ s.tracked
  · exact .inl (hw.unsent n ht hsent)
  by_cases hd : n ∈ s.dropped
  · exact .inr (.inr (.inl hd))
  exact .inr (.inr (.inr (hp.waitsOnce hn ht hd)))

end

/-- A message is queued on the first connection, which ends before it is sent; the second connection
is given it, and sends it. -/
def resumedRun : List (Act Lts.Two) :=
  [.attach .first, .route, .enqueue .first, .close .first, .stop .first, .sealQueue .first,
   .hold .first [], .detach .first, .attach .second, .retransmit .second, .resend .second .sent,
   .take .second true, .endTake .second, .prepare .second .ok, .flush .second, .send .second .sent]

/-- The result holds of a run that holds a message and sends it on the next connection. -/
theorem nothing_stranded_resumed :
    ∃ s : State Lts.Two, Lts.Reach (step 1000) (Sound 1000) {} s ∧ s.sent = [0] ∧
      (∀ n < s.next, n ∈ s.inflight ∨ n ∈ s.sent ∨ n ∈ s.dropped ∨ s.WaitsOnce n) ∧
      (∀ c, s.conn = some c → (s.conns c).sealed = false → s.away = []) ∧ InOrder s.sent := by
  obtain ⟨s, hr, hs⟩ := Lts.reach_of_exec_any (step 1000) (Sound 1000) {} resumedRun
    (fun s => decide (s.sent = [0])) (by decide)
  exact ⟨s, hr, of_decide_eq_true hs, nothing_stranded 1000 s hr⟩

/-- The second connection takes over while a message waits in the first, which then ends. -/
def takeoverRun : List (Act Lts.Two) :=
  [.attach .first, .route, .enqueue .first, .attach .second, .close .first, .stop .first,
   .sealQueue .first, .hold .first []]

/-- **A takeover strands a message.** The second connection is attached, its predecessor has
finished, and the message is in the buffer, which only another `attach` would empty. -/
theorem stranded :
    ∃ s : State Lts.Two, Lts.Reach (step 1000) Lts.free {} s ∧ s.conn = some .second ∧
      (s.conns .second).sealed = false ∧ (s.conns .first).finished = true ∧ s.away = [0] := by
  exact Lts.exists_reach takeoverRun (by decide)

/-- A burst of two; there is send quota for one, and its write fails. -/
def failedBurstRun : List (Act Lts.Two) :=
  [.attach .first, .retransmit .first, .resend .first .sent, .route, .enqueue .first, .route,
   .enqueue .first, .take .first true, .take .first true, .endTake .first, .prepare .first .ok,
   .prepare .first .noQuota, .send .first .failed]

/-- **A failed write loses the rest of the burst.** The second message is nowhere. -/
theorem lost_burst :
    ∃ s : State Lts.Two, Lts.Reach (step 1000) Lts.free {} s ∧ 1 < s.next ∧ 1 ∉ s.tracked ∧
      1 ∉ s.dropped ∧ 1 ∉ s.away ∧ ∀ c, 1 ∉ (s.conns c).waiting := by
  exact Lts.exists_reach failedBurstRun (by decide)

end Natsmqtt5.Away
