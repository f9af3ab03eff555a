import Natsmqtt5.Inbound.Model

/-!
# Inbound QoS 2: the invariant of a session and its readers

What ties the two sets of the session, the readers of all its connections and the log together, and
the lemma that every step clear of another connection's exchange keeps it (`step_inv`).

A handler past the mark has its identifier in `receivedQoS2` and `qos2Forwarding`, no other
connection's handler holds that identifier, and the log has as many forwards of it since the last
release as the handler's stage says (`Handler.due`). An identifier received and no longer being
forwarded has been forwarded once.
-/

namespace Natsmqtt5.Inbound

open Function
open Topic (PublishPacket)

/-! ## The invariant -/

section Invariant

variable {κ : Type} {id : PacketID} {n : Nat} {k : Conn} {out : Option κ}

/-- The number of forwards since the last release that a handler past the mark relies on: none
before the NATS publish, one after it. -/
def Handler.due (id : PacketID) : Handler → Option Nat
  | .publish stage p _ =>
    if p.qos = .qos2 ∧ p.packetID = id then
      match stage with
      | .marking => none
      | .storing => some 0
      | .publishing => some 0
      | .flushing => some 1
      | .acking => some 1
    else none
  | _ => none

theorem Handler.holds_of_due {h : Handler} (hd : h.due id = some n) : h.Holds id := by
  unfold Handler.due at hd
  split at hd
  · rename_i stage p _
    split at hd
    · rename_i hp
      refine ⟨hp.1, hp.2, ?_⟩
      rintro rfl
      simp at hd
    · simp at hd
  · simp at hd

/-- A refusal on its way to the client carries an error code. -/
def Handler.Sound : Handler → Prop
  | .rejecting _ code _ => code.isError = true
  | _ => True

/-- `forwardsSince` of a state's own log. -/
def State.forwards (s : State κ) (id : PacketID) : Nat := forwardsSince s.restored id s.log

/-- The invariant of a session and of all its connections but `out`. Taking the connection that
moves out of it, changing the shared sets, and putting the connection back in its new place is how
every step below is argued. -/
structure InvBut (s : State κ) (out : Option κ) : Prop where
  /-- A handler past the mark has its identifier in both sets, and the forwards of its stage. -/
  due : ∀ c, some c ≠ out → ∀ id n, (s.conns c).handler.due id = some n →
    id ∈ s.receivedQoS2 ∧ id ∈ s.qos2Forwarding ∧ s.forwards id = n
  /-- Two connections do not hold one identifier. -/
  unique : ∀ c c', some c ≠ out → some c' ≠ out → ∀ id n n',
    (s.conns c).handler.due id = some n → (s.conns c').handler.due id = some n' → c = c'
  /-- Who is about to write a success PUBREC does so after the forward. -/
  answers : ∀ c, some c ≠ out → ∀ id, (s.conns c).Answers id → s.forwards id = 1
  sound : ∀ c, some c ≠ out → (s.conns c).handler.Sound
  released : ∀ id, id ∉ s.receivedQoS2 → s.forwards id = 0
  once : ∀ id, s.forwards id ≤ 1
  forwarded : ∀ id, id ∈ s.receivedQoS2 → id ∉ s.qos2Forwarding → s.forwards id = 1

/-- The invariant of every connection. -/
abbrev Inv (s : State κ) : Prop := InvBut s none

variable {s : State κ} {c : κ} {id : PacketID}

theorem InvBut.without (h : Inv s) (c : κ) : InvBut s (some c) :=
  { h with
    due c' _ := h.due c' (by simp)
    unique c' c'' _ _ := h.unique c' c'' (by simp) (by simp)
    answers c' _ := h.answers c' (by simp)
    sound c' _ := h.sound c' (by simp) }

/-- Put `c` back: what its new handler relies on must hold, and nobody else may hold the
identifier it holds. -/
theorem InvBut.setConn [DecidableEq κ] (h : InvBut s (some c))
    (hdue : ∀ id n, k.handler.due id = some n →
      id ∈ s.receivedQoS2 ∧ id ∈ s.qos2Forwarding ∧ s.forwards id = n ∧
        ∀ c', c' ≠ c → (s.conns c').handler.due id = none)
    (hans : ∀ id, k.Answers id → s.forwards id = 1) (hsound : k.handler.Sound) :
    Inv (s.setConn c k) :=
  { h with
    due c' _ id n hd := by
      by_cases hc : c' = c
      · subst hc
        simp only [State.setConn, update_self] at hd
        obtain ⟨h1, h2, h3, -⟩ := hdue id n hd
        exact ⟨h1, h2, h3⟩
      · simp only [State.setConn, update_of_ne hc] at hd
        exact h.due c' (by simpa using hc) id n hd
    unique c' c'' _ _ id n n' hd hd' := by
      by_cases hc : c' = c <;> by_cases hc' : c'' = c
      · rw [hc, hc']
      · subst hc
        simp only [State.setConn, update_self, update_of_ne hc'] at hd hd'
        rw [(hdue id n hd).2.2.2 c'' hc'] at hd'
        cases hd'
      · subst hc'
        simp only [State.setConn, update_self, update_of_ne hc] at hd hd'
        rw [(hdue id n' hd').2.2.2 c' hc] at hd
        cases hd
      · simp only [State.setConn, update_of_ne hc, update_of_ne hc'] at hd hd'
        exact h.unique c' c'' (by simpa using hc) (by simpa using hc') id n n' hd hd'
    answers c' _ id ha := by
      by_cases hc : c' = c
      · subst hc
        simp only [State.setConn, update_self] at ha
        exact hans id ha
      · simp only [State.setConn, update_of_ne hc] at ha
        exact h.answers c' (by simpa using hc) id ha
    sound c' _ := by
      by_cases hc : c' = c
      · subst hc
        simpa only [State.setConn, update_self] using hsound
      · simpa only [State.setConn, update_of_ne hc] using h.sound c' (by simpa using hc) }

/-- A handler that holds no identifier and is not about to write a success PUBREC. -/
def Handler.Quiet (h : Handler) : Prop := (∀ id, h.due id = none ∧ ¬ h.Answers id) ∧ h.Sound

theorem InvBut.setConn_quiet [DecidableEq κ] (h : InvBut s (some c)) (hq : k.handler.Quiet) :
    Inv (s.setConn c k) :=
  h.setConn (fun id n hd => by rw [(hq.1 id).1] at hd; cases hd)
    (fun id ha => absurd ha.2 (hq.1 id).2) hq.2

/-- Nobody else holds what `c` holds. -/
theorem Inv.other_due (h : Inv s)
    (hd : (s.conns c).handler.due id = some n) {c' : κ} (hc : c' ≠ c) :
    (s.conns c').handler.due id = none := by
  cases hd' : (s.conns c').handler.due id with
  | none => rfl
  | some n' => exact absurd (h.unique c' c (by simp) (by simp) id n' n hd' hd) hc

/-- Changing a connection without moving its reader, or opening it. -/
theorem Inv.setConn_same [DecidableEq κ] (h : Inv s) (hk : k.handler = (s.conns c).handler)
    (hcl : (s.conns c).closed = true → k.closed = true) : Inv (s.setConn c k) := by
  refine (InvBut.without h c).setConn (fun id n hd => ?_) (fun id ha => ?_)
    (by rw [hk]; exact h.sound c (by simp))
  · rw [hk] at hd
    obtain ⟨h1, h2, h3⟩ := h.due c (by simp) id n hd
    exact ⟨h1, h2, h3, fun c' hc => h.other_due hd hc⟩
  · refine h.answers c (by simp) id ⟨?_, by rw [← hk]; exact ha.2⟩
    by_contra hne
    have hclosed : k.closed = true := hcl (by simpa using hne)
    exact absurd (hclosed.symm.trans ha.1) (by simp)

/-- An event that neither forwards nor releases changes nothing. -/
theorem InvBut.note (h : InvBut s out) {e : Event κ}
    (he : ∀ id, forwardsSince s.restored id (e :: s.log) = forwardsSince s.restored id s.log) :
    InvBut (s.note e) out where
  due c hc id n hd := by
    obtain ⟨h1, h2, h3⟩ := h.due c hc id n hd
    exact ⟨h1, h2, (he id).trans h3⟩
  unique := h.unique
  answers c hc id ha := (he id).trans (h.answers c hc id ha)
  sound := h.sound
  released id hid := (he id).trans (h.released id hid)
  once id := (he id).le.trans (h.once id)
  forwarded id h1 h2 := (he id).trans (h.forwarded id h1 h2)

theorem InvBut.setCurrent (h : InvBut s out) (cur : Option κ) : InvBut { s with conn := cur } out :=
  { h with }

/-! ### The four changes to the shared state -/

theorem InvBut.mark_new (h : InvBut s (some c)) (hid : id ∉ s.receivedQoS2) :
    InvBut { s with
      receivedQoS2 := insert id s.receivedQoS2
      qos2Forwarding := insert id s.qos2Forwarding } (some c) :=
  { h with
    due c' hc i n hd := by
      obtain ⟨h1, h2, h3⟩ := h.due c' hc i n hd
      exact ⟨Finset.mem_insert_of_mem h1, Finset.mem_insert_of_mem h2, h3⟩
    released i hi := h.released i fun hm => hi (Finset.mem_insert_of_mem hm)
    forwarded i h1 h2 := by
      have hne : i ≠ id := by
        rintro rfl
        exact h2 (Finset.mem_insert_self i _)
      refine h.forwarded i ?_ fun hm => h2 (Finset.mem_insert_of_mem hm)
      exact (Finset.mem_insert.mp h1).resolve_left hne }

theorem InvBut.release (h : InvBut s (some c)) (hu : s.Unshared c id) :
    InvBut (releaseQoS2 s c id).1 (some c) := by
  have hself : (releaseQoS2 s c id).1.forwards id = 0 := by
    simp [State.forwards, releaseQoS2, forwardsSince]
  have hother : ∀ i, i ≠ id → (releaseQoS2 s c id).1.forwards i = s.forwards i := by
    intro i hi
    simp [State.forwards, releaseQoS2, forwardsSince, Ne.symm hi]
  constructor
  case due =>
    intro c' hc i n hd
    have hne : i ≠ id := by
      rintro rfl
      exact (hu c' (by simpa using hc)).1 (Handler.holds_of_due hd)
    obtain ⟨h1, h2, h3⟩ := h.due c' hc i n hd
    exact ⟨Finset.mem_erase.mpr ⟨hne, h1⟩, Finset.mem_erase.mpr ⟨hne, h2⟩, (hother i hne).trans h3⟩
  case unique => exact h.unique
  case answers =>
    intro c' hc i ha
    have hne : i ≠ id := by
      rintro rfl
      exact (hu c' (by simpa using hc)).2 ha
    exact (hother i hne).trans (h.answers c' hc i ha)
  case sound => exact h.sound
  case released =>
    intro i hi
    by_cases hne : i = id
    · rw [hne, hself]
    · rw [hother i hne]
      exact h.released i fun hm => hi (Finset.mem_erase.mpr ⟨hne, hm⟩)
  case once =>
    intro i
    by_cases hne : i = id
    · rw [hne, hself]; omega
    · rw [hother i hne]; exact h.once i
  case forwarded =>
    intro i h1 h2
    obtain ⟨hne, h1⟩ := Finset.mem_erase.mp h1
    rw [hother i hne]
    exact h.forwarded i h1 fun hm => h2 (Finset.mem_erase.mpr ⟨hne, hm⟩)

/-- `id` is held by `c` before its NATS publish. Nobody else relies on the forwards of `id`, so the
publish leaves one. -/
theorem InvBut.forward (h : Inv s) (hd : (s.conns c).handler.due id = some 0) :
    InvBut (s.note (.forwarded c .qos2 id)) (some c) ∧
      (s.note (.forwarded c .qos2 id)).forwards id = 1 := by
  obtain ⟨hrec, hfwd, hzero⟩ := h.due c (by simp) id 0 hd
  have hself : (s.note (.forwarded c .qos2 id)).forwards id = 1 := by
    have : forwardsSince s.restored id s.log = 0 := hzero
    simp [State.forwards, State.note, forwardsSince, this]
  have hother : ∀ i, i ≠ id → (s.note (.forwarded c .qos2 id)).forwards i = s.forwards i := by
    intro i hi
    simp [State.forwards, State.note, forwardsSince, Ne.symm hi]
  refine ⟨?_, hself⟩
  constructor
  case due =>
    intro c' hc i n hd'
    have hne : i ≠ id := by
      rintro rfl
      exact hc (by rw [h.unique c' c (by simp) (by simp) i n 0 hd' hd])
    obtain ⟨h1, h2, h3⟩ := h.due c' (by simp) i n hd'
    exact ⟨h1, h2, (hother i hne).trans h3⟩
  case unique => exact fun c' c'' _ _ => h.unique c' c'' (by simp) (by simp)
  case answers =>
    intro c' _ i ha
    by_cases hne : i = id
    · rw [hne, hself]
    · rw [hother i hne]; exact h.answers c' (by simp) i ha
  case sound => exact fun c' _ => h.sound c' (by simp)
  case released =>
    intro i hi
    have hne : i ≠ id := by
      rintro rfl
      exact hi hrec
    rw [hother i hne]
    exact h.released i hi
  case once =>
    intro i
    by_cases hne : i = id
    · rw [hne, hself]
    · rw [hother i hne]; exact h.once i
  case forwarded =>
    intro i h1 h2
    by_cases hne : i = id
    · rw [hne, hself]
    · rw [hother i hne]; exact h.forwarded i h1 h2

theorem InvBut.qos2Forwarded (h : Inv s) (hd : (s.conns c).handler.due id = some 1) :
    InvBut (qos2Forwarded s id) (some c) := by
  have hone : s.forwards id = 1 := (h.due c (by simp) id 1 hd).2.2
  constructor
  case due =>
    intro c' hc i n hd'
    have hne : i ≠ id := by
      rintro rfl
      exact hc (by rw [h.unique c' c (by simp) (by simp) i n 1 hd' hd])
    obtain ⟨h1, h2, h3⟩ := h.due c' (by simp) i n hd'
    exact ⟨h1, Finset.mem_erase.mpr ⟨hne, h2⟩, h3⟩
  case unique => exact fun c' c'' _ _ => h.unique c' c'' (by simp) (by simp)
  case answers => exact fun c' _ => h.answers c' (by simp)
  case sound => exact fun c' _ => h.sound c' (by simp)
  case released => exact h.released
  case once => exact h.once
  case forwarded =>
    intro i h1 h2
    by_cases hne : i = id
    · rw [hne]; exact hone
    · exact h.forwarded i h1 fun hm => h2 (Finset.mem_erase.mpr ⟨hne, hm⟩)

end Invariant

/-! ## Every step keeps it -/

section StepLemma

variable {κ : Type} [DecidableEq κ] {o : Options} {s t : State κ} {c : κ} {code : ReasonCode}
  {p : PublishPacket} {id : PacketID} {topicName : Bytes} {stage : Stage}

theorem setConn_goto (s : State κ) (c : κ) (k : Conn) (h : Handler) :
    (s.setConn c k).goto c h = s.setConn c { k with handler := h } := by
  simp [State.goto, State.setConn]

theorem quiet_idle : Handler.idle.Quiet := ⟨fun _ => ⟨rfl, id⟩, trivial⟩

theorem quiet_ended : Handler.ended.Quiet := ⟨fun _ => ⟨rfl, id⟩, trivial⟩

theorem quiet_rejecting (hc : code.isError = true) (p : PublishPacket)
    (reason : String) : (Handler.rejecting p code reason).Quiet := ⟨fun _ => ⟨rfl, id⟩, hc⟩

theorem quiet_puback (id : PacketID) (code : ReasonCode) (reason : String) :
    (Handler.writing (.puback id code reason)).Quiet := ⟨fun _ => ⟨rfl, fun h => h⟩, trivial⟩

theorem quiet_pubcomp (id : PacketID) (code : ReasonCode) :
    (Handler.writing (.pubcomp id code)).Quiet := ⟨fun _ => ⟨rfl, fun h => h⟩, trivial⟩

theorem quiet_error (hc : code.isError = true) (id : PacketID)
    (reason : String) : (Handler.writing (.pubrec id code reason)).Quiet :=
  ⟨fun _ => ⟨rfl, fun h => by rw [h.2] at hc; cases hc⟩, trivial⟩

/-- A handler that has only read and checked its packet. -/
theorem quiet_checked (p : PublishPacket) (topicName : Bytes) :
    (Handler.publish (if p.qos = .qos2 then .marking else .storing) p topicName).Quiet := by
  refine ⟨fun i => ⟨?_, id⟩, trivial⟩
  by_cases hq : p.qos = .qos2
  · simp [Handler.due, hq]
  · simp [Handler.due, hq]

/-- Below QoS 2 a handler never holds an identifier. -/
theorem quiet_publish (hq : p.qos ≠ .qos2) (stage : Stage) (topicName : Bytes) :
    (Handler.publish stage p topicName).Quiet :=
  ⟨fun _ => ⟨by simp [Handler.due, hq], id⟩, trivial⟩

/-! ### One lemma for each step -/

/-- The checks refuse with an error code only. -/
theorem checkPublish_rejected {k k' : Conn} {reason : String}
    (h : checkPublish o k p = (k', .rejected code reason)) : code.isError = true := by
  unfold checkPublish at h
  split at h
  · cases h
  split at h
  · cases h
  dsimp only at h
  split at h
  · cases h; rfl
  · split at h
    · cases h; rfl
    · unfold takeOpenQoS2 at h
      split at h
      · split at h <;> cases h
      · cases h

theorem recvPublish_inv (h : Inv s) (p : PublishPacket) : Inv (recvPublish o s c p) := by
  have hb := InvBut.without h c
  unfold recvPublish
  split
  · rw [setConn_goto]
    exact hb.setConn_quiet (quiet_checked p _)
  · rename_i code reason hv
    rw [setConn_goto]
    exact hb.setConn_quiet (quiet_rejecting (checkPublish_rejected hv) p reason)
  · rw [setConn_goto]
    exact (hb.setConn_quiet quiet_ended).note fun _ => rfl

theorem recvPubrel_inv (h : Inv s) (hu : s.Unshared c id) : Inv (recvPubrel s c id) := by
  have hr := (InvBut.without h c).release hu
  unfold recvPubrel
  rcases hrel : releaseQoS2 s c id with ⟨s', found⟩
  rw [hrel] at hr
  simp only
  rw [setConn_goto]
  refine hr.setConn_quiet ?_
  exact quiet_pubcomp id _

theorem rejectPublish_inv (h : Inv s) (reason : String)
    (hc : code.isError = true) (hu : p.qos = .qos2 → s.Unshared c p.packetID) :
    Inv (rejectPublish s c p code reason) := by
  have hb := InvBut.without h c
  unfold rejectPublish
  cases hq : p.qos with
  | qos0 => exact hb.setConn_quiet quiet_idle
  | qos1 => exact hb.setConn_quiet (quiet_puback _ _ _)
  | qos2 =>
    simp only
    rw [setConn_goto]
    exact (hb.release (hu hq)).setConn_quiet (quiet_error hc _ _)

/-- A duplicate of a message already forwarded. -/
theorem mark_duplicate_inv (h : Inv s) (hrec : id ∈ s.receivedQoS2) (hfwd : id ∉ s.qos2Forwarding) :
    Inv (s.goto c (.writing (.pubrec id .success ""))) := by
  refine (InvBut.without h c).setConn (fun i n hd => ?_) (fun i ha => ?_) trivial
  · cases hd
  · obtain ⟨-, rfl, -⟩ := ha
    exact h.forwarded id hrec hfwd

theorem mark_new_inv (h : Inv s) (topicName : Bytes) (hnew : p.packetID ∉ s.receivedQoS2) :
    Inv ({ s with
      receivedQoS2 := insert p.packetID s.receivedQoS2
      qos2Forwarding := insert p.packetID s.qos2Forwarding : State κ }.goto c
        (.publish .storing p topicName)) := by
  refine ((InvBut.without h c).mark_new hnew).setConn (fun i n hd => ?_) (fun i ha => ?_) trivial
  · simp only [Handler.due] at hd
    split at hd <;> cases hd
    rename_i hp
    rw [← hp.2]
    refine ⟨Finset.mem_insert_self _ _, Finset.mem_insert_self _ _, h.released _ hnew, ?_⟩
    intro c' _
    cases hd' : (s.conns c').handler.due p.packetID with
    | none => rfl
    | some n' => exact absurd (h.due c' (by simp) _ n' hd').1 hnew
  · exact absurd ha.2 id

/-- A handler that moves on within `handlePublish` and relies on what it relied on before. -/
theorem goto_same_due (h : Inv s) {hd' : Handler} (hsame : ∀ id, hd'.due id =
    (s.conns c).handler.due id) (hans : ∀ id, ¬ hd'.Answers id) (hsound : hd'.Sound) :
    Inv (s.goto c hd') := by
  refine (InvBut.without h c).setConn (fun i n hd => ?_) (fun i ha => absurd ha.2 (hans i)) hsound
  rw [hsame i] at hd
  obtain ⟨h1, h2, h3⟩ := h.due c (by simp) i n hd
  exact ⟨h1, h2, h3, fun c' hc => h.other_due hd hc⟩

theorem publish_inv (h : Inv s) (hh : (s.conns c).handler = .publish .publishing p topicName)
    (hst : stage = .flushing ∨ stage = .acking) :
    Inv ((s.note (.forwarded c p.qos p.packetID)).goto c (.publish stage p topicName)) := by
  by_cases hq : p.qos = .qos2
  · have hzero : (s.conns c).handler.due p.packetID = some 0 := by simp [hh, Handler.due, hq]
    obtain ⟨hb, hone⟩ := InvBut.forward h hzero
    obtain ⟨hrec, hfwd, -⟩ := h.due c (by simp) p.packetID 0 hzero
    rw [hq]
    refine hb.setConn (fun i n hd => ?_) (fun i ha => absurd ha.2 id) trivial
    simp only [Handler.due] at hd
    split at hd
    · rename_i hp
      have hn : n = 1 := by
        rcases hst with rfl | rfl <;> (simp only [Option.some.injEq] at hd; exact hd.symm)
      rw [← hp.2, hn]
      exact ⟨hrec, hfwd, hone, fun c' hc => h.other_due hzero hc⟩
    · cases hd
  · refine ((InvBut.without h c).note fun i => ?_).setConn_quiet (quiet_publish hq _ _)
    simp [forwardsSince, hq]

theorem acking_inv (h : Inv s)
    (hh : (s.conns c).handler = .publish .acking p topicName) (hq : p.qos = .qos2) :
    Inv ((qos2Forwarded s p.packetID).goto c (.writing (.pubrec p.packetID .success ""))) := by
  have hone : (s.conns c).handler.due p.packetID = some 1 := by simp [hh, Handler.due, hq]
  refine (InvBut.qos2Forwarded h hone).setConn (fun i n hd => ?_) (fun i ha => ?_) trivial
  · cases hd
  · obtain ⟨-, rfl, -⟩ := ha
    exact (h.due c (by simp) p.packetID 1 hone).2.2

theorem advance_inv (h : Inv s) (hh : (s.conns c).handler = .publish stage p topicName)
    (hs : advance o s c p topicName stage = some t) : Inv t := by
  have hb := InvBut.without h c
  cases stage with
  | marking => cases hs
  | storing =>
    simp only [advance] at hs
    split at hs <;> cases hs
    exact goto_same_due h (fun i => by simp [hh, Handler.due]) (fun _ => id) trivial
  | publishing =>
    cases hs
    exact publish_inv h hh (by split <;> simp)
  | flushing =>
    cases hs
    exact goto_same_due h (fun i => by simp [hh, Handler.due]) (fun _ => id) trivial
  | acking =>
    simp only [advance] at hs
    split at hs <;> cases hs
    · exact hb.setConn_quiet quiet_idle
    · exact hb.setConn_quiet (quiet_puback _ _ _)
    · rename_i hq
      exact acking_inv h hh hq

theorem attach_inv (h : Inv s) (k : Conn) : Inv (attach s c k) := by
  -- the displaced connection is closed first, its reader where it was
  have hprev : Inv (closeDisplaced s) := by
    unfold closeDisplaced
    split
    · exact h.setConn_same rfl fun _ => rfl
    · exact h
  refine ((InvBut.without hprev c).setCurrent (some c)).setConn_quiet ?_
  exact quiet_idle

/-- Every step clear of another connection's exchange keeps the invariant. -/
theorem step_inv (h : Inv s) {a : Act κ} (hok : Clear s a) (hs : step o s a = some t) :
    Inv t := by
  cases a <;> simp only [step] at hs
  case attach c k =>
    split at hs <;> cases hs
    exact attach_inv h k
  case close c =>
    cases hs
    exact h.setConn_same rfl fun _ => rfl
  case recvPublish c p =>
    split at hs <;> cases hs
    exact recvPublish_inv h p
  case recvPubrel c id =>
    split at hs <;> cases hs
    exact recvPubrel_inv h hok
  case mark c =>
    split at hs
    · rename_i p topicName hh
      simp only [Clear, hh] at hok
      by_cases hrec : p.packetID ∈ s.receivedQoS2
      · simp only [markQoS2Received, if_pos hrec, Option.some.injEq] at hs
        subst hs
        exact mark_duplicate_inv h hrec hok
      · simp only [markQoS2Received, if_neg hrec, Option.some.injEq] at hs
        subst hs
        exact mark_new_inv h topicName hrec
    · cases hs
  case advance c =>
    split at hs
    · rename_i hh
      exact advance_inv h hh hs
    · cases hs
  case fail c r =>
    split at hs
    · split at hs <;> cases hs
      exact (InvBut.without h c).setConn_quiet (quiet_rejecting r.isError_code _ _)
    · cases hs
  case reject c =>
    split at hs <;> cases hs
    rename_i p code reason hh
    simp only [Clear, hh] at hok
    have hsound := h.sound c (by simp)
    rw [hh] at hsound
    exact rejectPublish_inv h reason hsound hok
  case write c =>
    split at hs
    · split at hs <;> cases hs
      · exact (InvBut.without h c).setConn_quiet quiet_ended
      · exact ((InvBut.without h c).note fun _ => rfl).setConn_quiet quiet_idle
    · cases hs

end StepLemma

end Natsmqtt5.Inbound
