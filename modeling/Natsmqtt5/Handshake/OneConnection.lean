import Natsmqtt5.Handshake.Model

/-!
# CONNECT: at most one open connection

An open connection that has attached is its session's connection, or another handshake has displaced
it and is about to close it (`State.Doomed`); one that has registered its session serves the
registered one, or is about to be closed. `step_inv` is the step lemma.

Results:
* `successor_unregistered`: the `finish` of a displaced connection drops its successor's session.
* `two_open_connections`: two first CONNECTs both find no session, both make one, and both are
  answered; the connection whose session was registered first stays open beside the other.
* `one_open_connection`: when no handshake registers its session over another session that has an
  open connection, and no `finish` drops a session that has one, then once all handshakes have
  returned at most one of the connections that were sent CONNACK Success is open, and
  `Broker.sessions` holds its session.
-/

namespace Natsmqtt5.Handshake

open Function

/-! ## The invariant -/

section Invariant

variable {κ : Type} {i : SessionID} {p : Place κ} {s t : State κ} {c : κ} {resumed : Bool}

/-- The session a handshake has registered. -/
def Place.served : Place κ → Option SessionID
  | .resuming i _ => some i
  | .answering i _ => some i
  | .connected i _ => some i
  | _ => none

/-- The session a handshake has attached its connection to. -/
def Place.attached : Place κ → Option SessionID
  | .displacing i _ _ => some i
  | .registering i _ => some i
  | p => p.served

/-- The session a handshake refers to. -/
def Place.names : Place κ → Option SessionID
  | .claiming _ sess _ => sess
  | .making _ sess _ => sess
  | .naming _ i _ => some i
  | .attaching i _ => some i
  | p => p.attached

/-- The connection a handshake has displaced and is about to close. -/
def Place.prev : Place κ → Option κ
  | .displacing _ _ prev => prev
  | _ => none

/-- Another handshake has displaced `c` and is about to close it. -/
def State.Doomed (s : State κ) (c : κ) : Prop := ∃ c', (s.conns c').place.prev = some c

structure Inv (s : State κ) : Prop where
  /-- An open connection that has attached is its session's, or about to be closed. -/
  attached : ∀ c i, (s.conns c).place.attached = some i → (s.conns c).closed = false →
    (s.session i).conn = some c ∨ s.Doomed c
  /-- An open connection that has registered its session serves the registered one, or is about to
  be closed. -/
  served : ∀ c i, (s.conns c).place.served = some i → (s.conns c).closed = false →
    s.registered = some i ∨ s.Doomed c
  made : ∀ i, s.registered = some i → i < s.nextSession
  madeConn : ∀ c i, (s.conns c).place.names = some i → i < s.nextSession

theorem Place.attached_of_served (h : p.served = some i) : p.attached = some i := by
  cases p <;> simp_all [Place.served, Place.attached]

theorem Place.names_of_attached (h : p.attached = some i) : p.names = some i := by
  cases p <;> simp_all [Place.attached, Place.served, Place.names]

theorem Quiescent.inv {s : State κ} (h : Quiescent s) : Inv s := by
  -- a place that has returned names a session only when it is connected
  have hconn : ∀ c i, (s.conns c).place.names = some i →
      ∃ resumed, (s.conns c).place = .connected i resumed := by
    intro c i hn
    have hr := h.returned c
    cases hp : (s.conns c).place <;>
      simp_all [Place.Returned, Place.names, Place.attached, Place.served]
  constructor
  case attached =>
    intro c i ha hopen
    obtain ⟨resumed, hp⟩ := hconn c i (Place.names_of_attached ha)
    exact .inl (h.serves c i ⟨hopen, resumed, hp⟩).2
  case served =>
    intro c i hs hopen
    obtain ⟨resumed, hp⟩ := hconn c i (Place.names_of_attached (Place.attached_of_served hs))
    exact .inl (h.serves c i ⟨hopen, resumed, hp⟩).1
  case made => exact h.made
  case madeConn =>
    intro c i hn
    obtain ⟨resumed, hp⟩ := hconn c i hn
    exact h.madeConn c i resumed hp

/-! ### Small changes -/

/-- Changing a session without changing its connection. -/
theorem Inv.setSession (h : Inv s) {sess : Session κ}
    (hconn : sess.conn = (s.session i).conn) : Inv (s.setSession i sess) :=
  { h with
    attached c j ha ho := by
      refine (h.attached c j ha ho).imp (fun hj => ?_) id
      by_cases hij : j = i
      · subst hij; simpa [State.setSession, hconn] using hj
      · simpa [State.setSession, update_of_ne hij] using hj }

theorem newSession_inv (h : Inv s) : Inv (newSession s).1 where
  attached c i ha ho := by
    have hlt : i < s.nextSession := h.madeConn c i (Place.names_of_attached ha)
    refine (h.attached c i ha ho).imp (fun hconn => ?_) id
    simpa [newSession, update_of_ne hlt.ne] using hconn
  served := h.served
  made i hi := Nat.lt_succ_of_lt (h.made i hi)
  madeConn c i hn := Nat.lt_succ_of_lt (h.madeConn c i hn)

/-- A session that nobody open is attached to is dropped. -/
theorem Inv.releaseSession (h : Inv s)
    (hok : s.registered = some i → ∀ c' ∈ (s.session i).conn, (s.conns c').closed = true) :
    Inv (releaseSession s i) := by
  unfold Handshake.releaseSession
  split
  · rename_i hreg
    refine { h with served := fun c' j hs ho => .inr ?_, made := nofun }
    rcases h.served c' j hs ho with hj | hd
    · obtain rfl : i = j := Option.some.inj (hreg.symm.trans hj)
      rcases h.attached c' i (Place.attached_of_served hs) ho with hconn | hd
      · rw [hok hreg c' hconn] at ho
        cases ho
      · exact hd
    · exact hd
  · exact h

variable [DecidableEq κ]

@[simp] theorem close_place (s : State κ) (d c : κ) :
    ((s.close d).conns c).place = (s.conns c).place := by
  by_cases hc : c = d
  · subst hc; simp [State.close]
  · simp [State.close, update_of_ne hc]

@[simp] theorem closeOpt_place (s : State κ) (prev : Option κ) (c : κ) :
    ((s.closeOpt prev).conns c).place = (s.conns c).place := by
  cases prev with
  | none => rfl
  | some d => exact close_place s d c

theorem goto_place (s : State κ) (c d : κ) (p : Place κ) :
    ((s.goto c p).conns d).place = if d = c then p else (s.conns d).place := by
  by_cases h : d = c
  · subst h; simp [State.goto]
  · simp [State.goto, h]

theorem goto_closed (s : State κ) (c d : κ) (p : Place κ) :
    ((s.goto c p).conns d).closed = (s.conns d).closed := by
  by_cases h : d = c
  · subst h; simp [State.goto]
  · simp [State.goto, h]

theorem open_of_close {d : κ} (h : ((s.close c).conns d).closed = false) :
    (s.conns d).closed = false := by
  by_cases hd : d = c
  · subst hd; simp [State.close] at h
  · simpa [State.close, update_of_ne hd] using h

/-- Closing leaves every place alone. -/
theorem Inv.close (h : Inv s) (c : κ) : Inv (s.close c) where
  attached c' i ha ho := by
    rw [close_place] at ha
    exact (h.attached c' i ha (open_of_close ho)).imp id (by simp [State.Doomed])
  served c' i hs ho := by
    rw [close_place] at hs
    exact (h.served c' i hs (open_of_close ho)).imp id (by simp [State.Doomed])
  made := h.made
  madeConn c' i hn := by
    rw [close_place] at hn
    exact h.madeConn c' i hn

theorem Inv.closeOpt (h : Inv s) (prev : Option κ) : Inv (s.closeOpt prev) := by
  cases prev with
  | none => exact h
  | some c => exact h.close c

/-- Moving a handshake on, when it leaves no open connection it was to close and claims nothing
new. -/
theorem Inv.goto (h : Inv s)
    (hnd : ∀ d ∈ (s.conns c).place.prev, (s.conns d).closed = true)
    (hatt : ∀ i, p.attached = some i → (s.conns c).place.attached = some i)
    (hserved : ∀ i, p.served = some i → (s.conns c).place.served = some i ∨ s.registered = some i)
    (hnames : ∀ i, p.names = some i → i < s.nextSession) : Inv (s.goto c p) := by
  have hdoom : ∀ c', (s.conns c').closed = false → s.Doomed c' → (s.goto c p).Doomed c' := by
    rintro c' ho ⟨c'', hp⟩
    have hne : c'' ≠ c := by
      rintro rfl
      rw [hnd c' hp] at ho
      cases ho
    exact ⟨c'', by rw [goto_place, if_neg hne, hp]⟩
  constructor
  case attached =>
    intro c' i ha ho
    rw [goto_closed] at ho
    rw [goto_place] at ha
    refine (h.attached c' i ?_ ho).imp id (hdoom c' ho)
    split at ha
    · rename_i hc
      exact hc ▸ hatt i ha
    · exact ha
  case served =>
    intro c' i hs ho
    rw [goto_closed] at ho
    rw [goto_place] at hs
    split at hs
    · rename_i hc
      rcases hserved i hs with hs | hreg
      · exact (h.served c' i (hc ▸ hs) ho).imp id (hdoom c' ho)
      · exact .inl hreg
    · exact (h.served c' i hs ho).imp id (hdoom c' ho)
  case made => exact h.made
  case madeConn =>
    intro c' i hn
    rw [goto_place] at hn
    split at hn
    · exact hnames i hn
    · exact h.madeConn c' i hn

/-- A handshake that fails, or a connection that ends, refers to nothing any more. -/
theorem Inv.goto_over (h : Inv s) (hp : p.names = none)
    (hnd : ∀ d ∈ (s.conns c).place.prev, (s.conns d).closed = true) : Inv (s.goto c p) := by
  have hatt : p.attached = none := by
    cases p <;> first | rfl | cases hp
  have hserved : p.served = none := by
    cases p <;> first | rfl | cases hp
  exact h.goto hnd (by simp [hatt]) (by simp [hserved]) (by simp [hp])

/-! ### The steps that change what the invariant is about -/

/-- The connection of a session that is taken over is closed. -/
theorem takeOver_closed (s : State κ) (i : SessionID) {c' : κ}
    (hc : (s.session i).conn = some c') : ((takeOver s i).conns c').closed = true := by
  simp [takeOver, State.closeOpt, hc, State.close]

/-- After the takeover no open connection serves the registered session, unless it is about to be
closed; so the entry can be dropped. -/
theorem takeOver_served (h : Inv s) (hreg : s.registered = some i) {c' : κ}
    {j : SessionID} (hs : ((takeOver s i).conns c').place.served = some j)
    (ho : ((takeOver s i).conns c').closed = false) : (takeOver s i).Doomed c' := by
  have hinv : Inv (takeOver s i) := h.closeOpt _
  have hsess : (takeOver s i).session = s.session := by
    unfold takeOver State.closeOpt
    split <;> rfl
  have hreg' : (takeOver s i).registered = some i := by
    rw [← hreg]
    unfold takeOver State.closeOpt
    split <;> rfl
  rcases hinv.served c' j hs ho with hj | hdoom
  · have hji : j = i := by rw [hreg'] at hj; exact (Option.some.inj hj).symm
    subst hji
    rcases hinv.attached c' j (Place.attached_of_served hs) ho with hconn | hdoom
    · rw [hsess] at hconn
      rw [takeOver_closed s j hconn] at ho
      cases ho
    · exact hdoom
  · exact hdoom

theorem takeOverSession_inv (h : Inv s) (cleanStart : Bool) (now : Nat) :
    Inv (takeOverSession s cleanStart now).1 ∧
      ∀ i, (takeOverSession s cleanStart now).2 = some i →
        i < (takeOverSession s cleanStart now).1.nextSession := by
  unfold takeOverSession
  split
  · exact ⟨h, nofun⟩
  · rename_i i hreg
    have hinv : Inv (takeOver s i) := h.closeOpt _
    have hmade : i < (takeOver s i).nextSession := by
      refine hinv.made i ?_
      rw [← hreg]
      unfold takeOver State.closeOpt
      split <;> rfl
    simp only
    split
    · refine ⟨?_, nofun⟩
      have hset : Inv ((takeOver s i).setSession i (discard ((takeOver s i).session i))) :=
        hinv.setSession rfl
      exact
        { attached := hset.attached
          served := fun c' j hs ho => .inr (takeOver_served h hreg hs ho)
          made := nofun
          madeConn := hset.madeConn }
    · rename_i sess hclaim
      refine ⟨hinv.setSession ?_, fun j hj => ?_⟩
      · -- `claimForResume` at most restarts the expiry clock
        split at hclaim
        · cases hclaim
        · unfold claimForResume at hclaim
          split at hclaim
          · cases hclaim
          · split at hclaim <;> cases hclaim <;> rfl
      · cases hj
        exact hmade

/-- `attach`: the connection that loses the session is about to be closed. -/
theorem attach_inv (h : Inv s) (hp : (s.conns c).place = .attaching i resumed) :
    Inv ((attach s i c).1.goto c (.displacing i resumed (attach s i c).2)) := by
  have hplace : ∀ c', (((attach s i c).1.goto c (.displacing i resumed (attach s i c).2)).conns
      c').place = if c' = c then .displacing i resumed (attach s i c).2 else (s.conns c').place :=
    fun c' => goto_place _ c c' _
  have hdoom : ∀ c', s.Doomed c' →
      ((attach s i c).1.goto c (.displacing i resumed (attach s i c).2)).Doomed c' := by
    rintro c' ⟨c'', hp'⟩
    have hne : c'' ≠ c := by
      rintro rfl
      rw [hp] at hp'
      cases hp'
    exact ⟨c'', by rw [hplace, if_neg hne, hp']⟩
  constructor
  case attached =>
    intro c' j ha ho
    rw [goto_closed] at ho
    rw [hplace] at ha
    split at ha
    · rename_i hc
      cases ha
      left
      simp [attach, State.goto, State.setSession, hc]
    · rename_i hc
      rcases h.attached c' j ha ho with hconn | hd
      · by_cases hji : j = i
        · -- `c'` had the session `c` attaches to
          subst hji
          right
          refine ⟨c, ?_⟩
          rw [hplace, if_pos rfl]
          simp [Place.prev, attach, hconn, hc]
        · left
          simpa [attach, State.goto, State.setSession, update_of_ne hji] using hconn
      · exact .inr (hdoom c' hd)
  case served =>
    intro c' j hs ho
    rw [goto_closed] at ho
    rw [hplace] at hs
    split at hs
    · cases hs
    · exact (h.served c' j hs ho).imp id (hdoom c')
  case made => exact h.made
  case madeConn =>
    intro c' j hn
    rw [hplace] at hn
    split at hn
    · cases hn
      exact h.madeConn c i (by rw [hp]; rfl)
    · exact h.madeConn c' j hn

theorem takeOverSession_place (s : State κ) (cleanStart : Bool) (now : Nat) (c : κ) :
    ((takeOverSession s cleanStart now).1.conns c).place = (s.conns c).place := by
  unfold takeOverSession
  split
  · rfl
  · simp only
    split
    · exact closeOpt_place s _ c
    · exact closeOpt_place s _ c

/-- The close that `attach` made due. -/
theorem closePrev_inv (h : Inv s) {prev : Option κ}
    (hp : (s.conns c).place = .displacing i resumed prev) :
    Inv ((s.closeOpt prev).goto c (.registering i resumed)) := by
  refine (h.closeOpt prev).goto (fun d hd => ?_) (fun j hj => ?_) nofun fun j hj => ?_
  · rw [closeOpt_place, hp] at hd
    cases hd
    simp [State.closeOpt, State.close]
  · rw [closeOpt_place, hp]
    exact hj
  · have hmade := (h.closeOpt prev).madeConn c i (by rw [closeOpt_place, hp]; rfl)
    cases hj
    exact hmade

/-- Registering over a session nobody open is attached to: whoever served the old entry is closed
or about to be. -/
theorem registerSession_inv (h : Inv s) (hp : (s.conns c).place = .registering i resumed)
    (hok : ∀ j ∈ s.registered, j ≠ i → ∀ c' ∈ (s.session j).conn, (s.conns c').closed = true) :
    Inv ((registerSession s i).goto c (.resuming i resumed)) := by
  have hmade : i < s.nextSession := h.madeConn c i (by rw [hp]; rfl)
  have hreg : Inv (registerSession s i) :=
    { attached := h.attached
      served := fun c' j hs ho => by
        rcases h.served c' j hs ho with hj | hd
        · rcases h.attached c' j (Place.attached_of_served hs) ho with hconn | hd
          · by_cases hji : j = i
            · exact .inl (congrArg some hji.symm)
            · exact absurd ((hok j hj hji c' hconn).symm.trans ho) (by simp)
          · exact .inr hd
        · exact .inr hd
      made := fun j hj => by cases hj; exact hmade
      madeConn := h.madeConn }
  have hplace : ((registerSession s i).conns c).place = .registering i resumed := hp
  refine hreg.goto (by rw [hplace]; nofun) (fun j hj => ?_) (fun j hj => ?_) fun j hj => ?_
  · rw [hplace]
    exact hj
  · exact .inr hj
  · cases hj
    exact hmade

/-- `detach`, of a connection that is past its read loop. -/
theorem Inv.detach (h : Inv s) (hc : (s.conns c).place.attached = none) (now : Nat) :
    Inv (detach s i c now) := by
  unfold Handshake.detach
  split
  · rename_i hconn
    refine { h with attached := fun c' j ha ho => (h.attached c' j ha ho).imp (fun hj => ?_) id }
    by_cases hji : j = i
    · -- the session's connection was `c`, which is attached no more
      subst hji
      obtain rfl : c = c' := Option.some.inj (hconn.symm.trans hj)
      cases hc.symm.trans ha
    · simpa [State.setSession, update_of_ne hji] using hj
  · exact h

/-- Every step that neither registers a session over one with an open connection nor drops one that
has an open connection keeps the invariant. -/
theorem step_inv (h : Inv s) {a : Act κ} (hok : NotOver s a) (hs : step s a = some t) :
    Inv t := by
  cases a <;> simp only [step] at hs
  case connect c p =>
    split at hs <;> cases hs
    rename_i hp
    exact h.goto (by simp [hp, Place.prev]) (by rintro _ ⟨⟩) (by rintro _ ⟨⟩)
      (by rintro _ ⟨⟩)
  case takeOverSession c now =>
    split at hs <;> cases hs
    rename_i p hp
    obtain ⟨hinv, hmade⟩ := takeOverSession_inv h p.cleanStart now
    have hp' : ((takeOverSession s p.cleanStart now).1.conns c).place = .takingOver p := by
      rw [takeOverSession_place, hp]
    exact hinv.goto (by simp [hp', Place.prev]) (by rintro _ ⟨⟩)
      (by rintro _ ⟨⟩) hmade
  case claim c present =>
    split at hs
    · rename_i p sess resumed hp
      split at hs <;> cases hs
      · exact (h.close c).goto_over rfl (by simp [hp, Place.prev])
      · exact h.goto (by simp [hp, Place.prev]) (by rintro _ ⟨⟩)
          (by rintro _ ⟨⟩) (fun j hj => h.madeConn c j (by rw [hp]; exact hj))
    · cases hs
  case newSession c =>
    split at hs <;> cases hs
    · rename_i p i resumed hp
      exact h.goto (by simp [hp, Place.prev]) (by rintro _ ⟨⟩)
        (by rintro _ ⟨⟩) (fun j hj => h.madeConn c j (by rw [hp]; exact hj))
    · rename_i p resumed hp
      have hp' : ((newSession s).1.conns c).place = .making p none resumed := hp
      refine (newSession_inv h).goto (by simp [hp', Place.prev]) (by rintro _ ⟨⟩)
        (by rintro _ ⟨⟩) fun j hj => ?_
      cases hj
      exact Nat.lt_succ_self _
  case setPrincipal c =>
    split at hs <;> cases hs
    rename_i p i resumed hp
    have hset : Inv (s.setSession i { s.session i with expirySeconds := p.expiry }) :=
      h.setSession rfl
    exact hset.goto (by simp [State.setSession, hp, Place.prev])
      (by rintro _ ⟨⟩) (by rintro _ ⟨⟩) (fun j hj => h.madeConn c j (by rw [hp]; exact hj))
  case attach c =>
    split at hs <;> cases hs
    rename_i i resumed hp
    exact attach_inv h hp
  case closePrev c =>
    split at hs <;> cases hs
    rename_i i resumed prev hp
    exact closePrev_inv h hp
  case registerSession c =>
    split at hs <;> cases hs
    rename_i i resumed hp
    simp only [NotOver, hp] at hok
    exact registerSession_inv h hp hok
  case resumeSubscriptions c ok =>
    split at hs
    · rename_i i resumed hp
      split at hs <;> cases hs
      · exact (h.close c).goto_over rfl (by simp [hp, Place.prev])
      · exact h.goto (by simp [hp, Place.prev])
          (fun j hj => by rw [hp]; exact hj) (fun j hj => .inl (by rw [hp]; exact hj))
          (fun j hj => h.madeConn c j (by rw [hp]; exact hj))
    · cases hs
  case connack c =>
    split at hs
    · rename_i i resumed hp
      split at hs <;> cases hs
      · exact h.goto_over rfl (by simp [hp, Place.prev])
      · exact h.goto (by simp [hp, Place.prev])
          (fun j hj => by rw [hp]; exact hj) (fun j hj => .inl (by rw [hp]; exact hj))
          (fun j hj => h.madeConn c j (by rw [hp]; exact hj))
    · cases hs
  case finish c now =>
    have hdetach : ∀ i, (s.conns c).place.prev = none →
        Inv (detach (s.goto c (.finishing i)) i c now) := fun i hp =>
      (h.goto_over rfl (by simp [hp])).detach (by rw [goto_place, if_pos rfl]; rfl) now
    split at hs <;> cases hs
    all_goals
      rename_i hp
      exact hdetach _ (by rw [hp]; rfl)
  case discard c =>
    split at hs
    · rename_i i hp
      split at hs <;> cases hs
      · have hset : Inv (s.setSession i (discard (s.session i))) := h.setSession rfl
        exact hset.goto_over rfl (by simp [State.setSession, hp, Place.prev])
      · exact h.goto_over rfl (by simp [hp, Place.prev])
    · cases hs
  case releaseSession c =>
    split at hs <;> cases hs
    rename_i i hp
    simp only [NotOver, hp] at hok
    exact (h.releaseSession hok).goto_over rfl
      (by simp [Handshake.releaseSession, hp, Place.prev])
  case close c =>
    cases hs
    exact h.close c

end Invariant

/-! ## Whole runs -/

section Runs

variable {κ : Type} [DecidableEq κ]

/-- **One open connection for a Client Identifier.** From any state between CONNECTs, in every run
that does not register a session over another one with an open connection, and in which no `finish`
drops a session that has one: once all handshakes have returned, two open connections that were sent
CONNACK Success are one, and the session it serves is the one `Broker.sessions` holds. -/
theorem one_open_connection (s₀ s : State κ) (h0 : Quiescent s₀)
    (h : Lts.Reach step NotOver s₀ s) (hret : s.AllReturned) :
    (∀ c c' i i', s.OpenOn c i → s.OpenOn c' i' → c = c') ∧
      ∀ c i, s.OpenOn c i → s.registered = some i := by
  have hinv : Inv s := h.invariant h0.inv fun _ _ _ hi hok hs => step_inv hi hok hs
  have hnd : ∀ c, ¬ s.Doomed c := by
    rintro c ⟨c', hp⟩
    have := hret c'
    cases hc : (s.conns c').place <;> simp_all [Place.prev, Place.Returned]
  have hconn : ∀ c i, s.OpenOn c i → (s.session i).conn = some c := by
    rintro c i ⟨ho, resumed, hp⟩
    exact (hinv.attached c i (by rw [hp]; rfl) ho).resolve_right (hnd c)
  have hreg : ∀ c i, s.OpenOn c i → s.registered = some i := by
    rintro c i ⟨ho, resumed, hp⟩
    exact (hinv.served c i (by rw [hp]; rfl) ho).resolve_right (hnd c)
  refine ⟨fun c c' i i' hc hc' => ?_, hreg⟩
  have hii : i = i' := Option.some.inj ((hreg c i hc).symm.trans (hreg c' i' hc'))
  subst hii
  exact Option.some.inj ((hconn c i hc).symm.trans (hconn c' i hc'))

end Runs

theorem fresh_quiescent {κ : Type} : Quiescent (State.fresh : State κ) where
  returned _ := trivial
  serves c i h := by
    obtain ⟨-, resumed, hp⟩ := h
    cases hp
  made := nofun
  madeConn := nofun

/-- The steps of one handshake after `takeOverSession`, with nothing in the store. -/
def setUpSteps (c : Lts.Two) : List (Act Lts.Two) :=
  [.claim c (some false), .newSession c, .setPrincipal c, .attach c, .closePrev c,
    .registerSession c, .resumeSubscriptions c true, .connack c]

/-- The second connection resumes, and displaces, what the first has set up. -/
def takeOverRun : List (Act Lts.Two) :=
  [.connect .first ⟨false, 60⟩, .takeOverSession .first 0] ++ setUpSteps .first ++
    [.connect .second ⟨false, 60⟩, .takeOverSession .second 5] ++ setUpSteps .second

/-- Two CONNECTs, neither of which finds a session. -/
def firstConnectsRun : List (Act Lts.Two) :=
  [.connect .first ⟨false, 0⟩, .connect .second ⟨false, 0⟩, .takeOverSession .first 0,
    .takeOverSession .second 0] ++
    setUpSteps .first ++ setUpSteps .second

theorem one_open_connection_takeOver :
    ∃ s : State Lts.Two, Lts.Reach step NotOver State.fresh s ∧ s.OpenOn .second 0 ∧
      ¬ s.OpenOn .first 0 ∧ s.registered = some 0 := by
  obtain ⟨s, hreach, hs⟩ := Lts.reach_of_exec_any step NotOver State.fresh takeOverRun
    (fun s => decide (s.AllReturned ∧ s.OpenOn .second 0)) (by decide)
  obtain ⟨hret, hopen⟩ := of_decide_eq_true hs
  obtain ⟨honly, hreg⟩ := one_open_connection State.fresh s fresh_quiescent hreach hret
  refine ⟨s, hreach, hopen, fun h => ?_, hreg .second 0 hopen⟩
  exact absurd (honly .first .second 0 0 h hopen) (by decide)

/-- Two handshakes that both find no session end with two open connections, one of them on a
session that `Broker.sessions` does not hold. -/
theorem two_open_connections :
    ∃ s : State Lts.Two, Lts.Reach step Lts.free State.fresh s ∧ s.AllReturned ∧
      s.OpenOn .first 0 ∧ s.OpenOn .second 1 ∧ s.registered = some 1 := by
  exact Lts.exists_reach firstConnectsRun (by decide)

/-- A connection that resumes with Session Expiry 0 is answered, and then the `finish` of the
connection it displaced drops its session from `Broker.sessions`. -/
theorem successor_unregistered :
    ∃ s : State Lts.Two, Lts.Reach step Lts.free State.fresh s ∧ s.AllReturned ∧
      s.OpenOn .second 0 ∧ s.registered = none :=
  Lts.exists_reach ([.connect .first ⟨false, 60⟩, .takeOverSession .first 0] ++
    setUpSteps .first ++ [.connect .second ⟨false, 0⟩, .takeOverSession .second 5] ++
    setUpSteps .second ++ [.finish .first 6, .discard .first, .releaseSession .first]) (by decide)

end Natsmqtt5.Handshake
