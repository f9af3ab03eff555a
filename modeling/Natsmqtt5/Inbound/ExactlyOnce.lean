import Natsmqtt5.Inbound.Invariant

/-!
# Inbound QoS 2: exactly once, and the orders that break it

`answered_before_forwarded`: the duplicate check of `handlePublish` answers a resent PUBLISH at
once, also when the first copy is still being stored by the displaced connection's handler. The
client is told its message is taken over before anything went to NATS, and a PUBREL it sends on the
strength of that ends the exchange under the first handler, which then forwards a message of its
own beside the next one.

`inbound_qos2_exactly_once`: in every run whose steps stay clear of another connection's exchange
(`Clear`), for every Packet Identifier, each PUBREC below 0x80 follows a forward and at most one
message is forwarded between two releases.
-/

namespace Natsmqtt5.Inbound

open Topic (PublishPacket)

section Log

variable {κ : Type} [DecidableEq κ] {o : Options} {s t : State κ} {c : κ}

/-! ## What a step adds to the log -/

/-- A step adds at most one event, and a PUBREC below 0x80 only from an open connection that was
about to write it. -/
def Adds (s t : State κ) : Prop :=
  t.restored = s.restored ∧ (t.log = s.log ∨ ∃ e, t.log = e :: s.log ∧
    ∀ c i code reason, e = .wrote c (.pubrec i code reason) → code.isError = false →
      (s.conns c).Answers i)

theorem advance_adds {p : PublishPacket} {topicName : Bytes} {stage : Stage}
    (hs : advance o s c p topicName stage = some t) : Adds s t := by
  cases stage with
  | marking => cases hs
  | storing =>
    simp only [advance] at hs
    split at hs <;> cases hs
    exact ⟨rfl, .inl rfl⟩
  | publishing =>
    cases hs
    exact ⟨rfl, .inr ⟨_, rfl, by simp⟩⟩
  | flushing =>
    cases hs
    exact ⟨rfl, .inl rfl⟩
  | acking =>
    simp only [advance] at hs
    split at hs <;> cases hs <;> exact ⟨rfl, .inl rfl⟩

theorem step_adds {a : Act κ} (hs : step o s a = some t) : Adds s t := by
  cases a <;> simp only [step] at hs
  case attach c k =>
    split at hs <;> cases hs
    unfold attach closeDisplaced
    split <;> exact ⟨rfl, .inl rfl⟩
  case close c =>
    cases hs
    exact ⟨rfl, .inl rfl⟩
  case recvPublish c p =>
    split at hs <;> cases hs
    unfold recvPublish
    split
    · exact ⟨rfl, .inl rfl⟩
    · exact ⟨rfl, .inl rfl⟩
    · exact ⟨rfl, .inr ⟨_, rfl, by simp⟩⟩
  case recvPubrel c id =>
    split at hs <;> cases hs
    exact ⟨rfl, .inr ⟨_, rfl, by simp⟩⟩
  case mark c =>
    split at hs
    · rename_i p topicName hh
      by_cases hrec : p.packetID ∈ s.receivedQoS2
      · simp only [markQoS2Received, if_pos hrec, Option.some.injEq] at hs
        subst hs
        exact ⟨rfl, .inl rfl⟩
      · simp only [markQoS2Received, if_neg hrec, Option.some.injEq] at hs
        subst hs
        exact ⟨rfl, .inl rfl⟩
    · cases hs
  case advance c =>
    split at hs
    · exact advance_adds hs
    · cases hs
  case fail c r =>
    split at hs
    · split at hs <;> cases hs
      exact ⟨rfl, .inl rfl⟩
    · cases hs
  case reject c =>
    split at hs <;> cases hs
    unfold rejectPublish
    simp only
    split
    · exact ⟨rfl, .inl rfl⟩
    · exact ⟨rfl, .inl rfl⟩
    · exact ⟨rfl, .inr ⟨_, rfl, by simp⟩⟩
  case write c =>
    split at hs
    · rename_i r hh
      split at hs <;> cases hs
      · exact ⟨rfl, .inl rfl⟩
      · rename_i hopen
        refine ⟨rfl, .inr ⟨_, rfl, fun c' i code reason he herr => ?_⟩⟩
        cases he
        refine ⟨by simpa using hopen, ?_⟩
        rw [hh]
        exact ⟨rfl, herr⟩
    · cases hs

end Log

/-! ## Whole runs -/

section Runs

variable {κ : Type} {o : Options} {s t : State κ}

/-- The invariant, with what the log says so far. -/
structure Kept (s : State κ) : Prop where
  inv : Inv s
  answered : ∀ id, AnsweredForwarded s.restored id s.log
  once : ∀ id, ForwardedOnce s.restored id s.log

theorem AnsweredForwarded.cons {restored : Finset PacketID} {id : PacketID} {e : Event κ}
    {log : List (Event κ)} (h : AnsweredForwarded restored id log)
    (he : ∀ c code reason, e = .wrote c (.pubrec id code reason) → code.isError = false →
      1 ≤ forwardsSince restored id log) : AnsweredForwarded restored id (e :: log) := by
  unfold AnsweredForwarded
  split
  · trivial
  · rename_i c i code reason log' heq
    cases heq
    refine ⟨?_, h⟩
    rintro rfl herr
    exact he c code reason rfl herr
  · rename_i log' _ heq
    cases heq
    exact h

theorem start_kept (restored : Finset PacketID) : Kept (State.start restored : State κ) where
  inv :=
    { due := nofun
      unique := nofun
      answers := fun _ _ _ ha => absurd ha.2 id
      sound := fun _ _ => trivial
      released := fun i hi => by simpa [State.forwards, State.start, forwardsSince] using hi
      once := fun i => by
        simp only [State.forwards, State.start, forwardsSince]
        split <;> omega
      forwarded := fun i hi _ => by simpa [State.forwards, State.start, forwardsSince] using hi }
  answered _ := trivial
  once _ := trivial

/-- A step clear of another connection's exchange keeps the log right. -/
theorem step_kept [DecidableEq κ] (h : Kept s) {a : Act κ} (hok : Clear s a)
    (hs : step o s a = some t) :
    Kept t := by
  have hinv := step_inv h.inv hok hs
  obtain ⟨hres, hlog | ⟨e, hlog, hans⟩⟩ := step_adds hs
  · exact ⟨hinv, by rw [hres, hlog]; exact h.answered, by rw [hres, hlog]; exact h.once⟩
  · refine ⟨hinv, fun id => ?_, fun id => ?_⟩
    · rw [hres, hlog]
      refine (h.answered id).cons fun c code reason he herr => ?_
      exact (h.inv.answers c (by simp) id (hans c id code reason he herr)).ge
    · have honce := hinv.once id
      unfold State.forwards at honce
      rw [hres, hlog] at honce ⊢
      exact ⟨honce, h.once id⟩

/-- **Inbound QoS 2 is exactly once** in every run whose steps stay clear of another connection's
exchange: for every Packet Identifier, a PUBREC below 0x80 is written only after a message of it
was forwarded since its last release, and at most one message is forwarded between two releases. -/
theorem inbound_qos2_exactly_once [DecidableEq κ] (o : Options) (restored : Finset PacketID)
    (s : State κ) (h : Lts.Reach (step o) Clear (State.start restored) s) (id : PacketID) :
    AnsweredForwarded s.restored id s.log ∧ ForwardedOnce s.restored id s.log := by
  have hkept : Kept s :=
    h.invariant (start_kept restored) fun _ _ _ hk hok hs => step_kept hk hok hs
  exact ⟨hkept.answered id, hkept.once id⟩

end Runs

/-! ## Two connections of one session -/

/-- A QoS 2 PUBLISH with Packet Identifier 1. -/
def publishOne : PublishPacket := { packetID := 1, qos := .qos2, topic := [97] }

/-- A whole exchange on the first connection, which the second then displaces: the resent PUBLISH
is answered and released there, and the identifier used again. -/
def takeOverRun : List (Act Lts.Two) :=
  [.attach .first {}, .recvPublish .first publishOne, .mark .first, .advance .first,
    .advance .first, .advance .first, .write .first,
    .attach .second {}, .recvPublish .second publishOne, .mark .second, .write .second,
    .recvPubrel .second 1, .write .second,
    .recvPublish .second publishOne, .mark .second, .advance .second, .advance .second,
    .advance .second, .write .second]

/-- The same PUBLISH and its resend, with the first handler still short of the NATS publish when
its connection is displaced. -/
def displacedRun : List (Act Lts.Two) :=
  [.attach .first {}, .recvPublish .first publishOne, .mark .first, .advance .first,
    .attach .second {}, .recvPublish .second publishOne, .mark .second, .write .second,
    .recvPubrel .second 1, .write .second,
    .advance .first,
    .recvPublish .second publishOne, .mark .second, .advance .second, .advance .second]

theorem inbound_qos2_exactly_once_takeOver :
    ∃ s : State Lts.Two, Lts.Reach (step {}) Clear (State.start ∅) s ∧ s.log.length = 7 ∧
      AnsweredForwarded s.restored 1 s.log ∧ ForwardedOnce s.restored 1 s.log := by
  exact Lts.exists_reach_of takeOverRun (by decide) fun s hreach _ =>
    inbound_qos2_exactly_once {} ∅ s hreach 1

/-- A displaced handler and its successor's: a success PUBREC with nothing forwarded, and two
messages forwarded with no release between them. -/
theorem answered_before_forwarded :
    ∃ s : State Lts.Two, Lts.Reach (step {}) Lts.free (State.start ∅) s ∧
      ¬ AnsweredForwarded s.restored 1 s.log ∧ ¬ ForwardedOnce s.restored 1 s.log := by
  exact Lts.exists_reach displacedRun (by decide)

end Natsmqtt5.Inbound
