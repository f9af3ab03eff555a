import Natsmqtt5.Outbound.Model

/-!
# Which acknowledgement ends an exchange

`handlePuback`, `handlePubrec` and `handlePubcomp` (`publish.go`), each run to its end: the packets
a connection has read, one after the other. All of them complete an exchange by its identifier
alone. `handlePuback` and `handlePubrec` then look at the QoS; `handlePubcomp` looks at nothing, and
an error code ends an exchange in any stage.

Results:
* `reach_runHandler`: such a run is a run of the model.
* `handlePacket_returns`: a handler returns, with or without an error.
* `ended_by_own_acknowledgement`: what a packet ends without an error, it ends as the exchange's own
  last acknowledgement exactly if it is in order.
* `ended_by_another`: a PUBCOMP ends a QoS 1 exchange, an error PUBREC one past its PUBREC.
-/

namespace Natsmqtt5.Outbound

variable {κ : Type} [DecidableEq κ] {s t : State κ} {c : κ} {a : Ack} {queue q : Bool} {n : Nat}
  {id : PacketID} {sess sess' : Session κ} {r : Reader κ} {o : Entry κ}

/-- At most `n` steps of the handler that `c`'s reader is in, with nothing in between. -/
def runHandler (c : κ) (queue : Bool) : Nat → State κ → State κ
  | 0, s => s
  | n + 1, s =>
    match handle s c queue (s.conns c).reader with
    | none => s
    | some t => runHandler c queue n t

/-- The packet `a` is read and its handler runs to its end. -/
def State.handlePacket (s : State κ) (c : κ) (a : Ack) (queue : Bool) : State κ :=
  runHandler c queue 4 (s.handle c (recv a))

/-- The packets `as` are read on `c`, one after the other. -/
def State.handlePackets (s : State κ) (c : κ) (as : List (Ack × Bool)) : State κ :=
  as.foldl (fun s a => s.handlePacket c a.1 a.2) s

/-- The handler has returned nil. -/
def State.returnsNil (s : State κ) (c : κ) : Prop := (s.conns c).reader = .idle

/-- The packet is the acknowledgement that ends the exchange. -/
def Ack.Ends (a : Ack) (o : Entry κ) : Prop :=
  (o.qos = .qos1 ∧ a.type = .puback) ∨
    (o.qos = .qos2 ∧ a.type = .pubrec ∧ a.error = true ∧ o.awaitingPubcomp = false) ∨
    (o.qos = .qos2 ∧ o.awaitingPubcomp = true ∧ a.type = .pubcomp)
  deriving Decidable

/-- A PUBCOMP comes for a QoS 2 exchange past its PUBREC, and a PUBREC that refuses the message for
one that is not, if the identifier is in flight at all. -/
def Ack.InOrder (a : Ack) (sess : Session κ) : Prop :=
  ∀ o, sess.inflightEntry a.id = some o →
    (a.type = .pubcomp → o.qos = .qos2 ∧ o.awaitingPubcomp = true) ∧
      (a.type = .pubrec → a.error = true → o.awaitingPubcomp = false)

/-! ## Running a handler -/

@[simp] theorem reader_handle (s : State κ) (c : κ) (r : Reader κ) :
    ((s.handle c r).conns c).reader = r := by
  simp [State.handle, State.setConn]

@[simp] theorem reader_disconnect (s : State κ) (c : κ) :
    ((s.disconnect c).conns c).reader = .ended := by
  simp [State.disconnect, State.setConn]

theorem runHandler_succ (h : handle s c queue (s.conns c).reader = some t) :
    runHandler c queue (n + 1) s = runHandler c queue n t := by
  simp only [runHandler, h]

theorem runHandler_stop (h : handle s c queue (s.conns c).reader = none) :
    runHandler c queue n s = s := by
  cases n with
  | zero => rfl
  | succ n => simp only [runHandler, h]

/-- The handler's steps are steps of the model. -/
theorem reach_runHandler (c : κ) (queue : Bool) (n : Nat) (s : State κ) :
    Lts.Reach step Lts.free s (runHandler c queue n s) := by
  induction n generalizing s with
  | zero => exact .refl
  | succ n ih =>
    cases h : handle s c queue (s.conns c).reader with
    | none =>
      rw [runHandler_stop h]
      exact .refl
    | some t =>
      have hstep : step s (.handle c queue) = some t := h
      rw [runHandler_succ h]
      exact (Lts.Reach.refl.tail trivial hstep).trans (ih t)

/-- How many steps the handler has still to take, at most. -/
@[simp] def Reader.rest : Reader κ → Nat
  | .acking _ => 4
  | .forgettingWithdrawn _ => 3
  | .forgettingResent _ => 2
  | .receiving _ => 3
  | .mismatched _ => 2
  | .failing _ => 2
  | .accepting _ => 2
  | .answering _ _ => 1
  | .notFound _ => 1
  | .releasing => 1
  | _ => 0

/-- The reader waits for the next packet, or has returned. -/
def Reader.done (r : Reader κ) : Prop := r = .idle ∨ r = .ended

theorem reader_setConn (s : State κ) (c : κ) (k : Conn κ) :
    ((s.setConn c k).conns c).reader = k.reader := by
  simp [State.setConn]

/-- A reader that does not wait takes a step, and is nearer to its return then. -/
theorem handle_rest (hr : ¬ (s.conns c).reader.done) (ho : (s.conns c).reader ≠ .offline) :
    ∃ t, handle s c q (s.conns c).reader = some t ∧
      (t.conns c).reader.rest < (s.conns c).reader.rest ∧ (t.conns c).reader ≠ .offline := by
  cases h : (s.conns c).reader with
  | offline => exact absurd h ho
  | idle => exact absurd (.inl h) hr
  | ended => exact absurd (.inr h) hr
  | mismatched a =>
    simp only [handle]
    split <;> exact ⟨_, rfl, by simp, by simp⟩
  | accepting o => exact ⟨_, rfl, by simp, by simp⟩
  | answering id seq =>
    simp only [handle]
    split_ifs <;> exact ⟨_, rfl, by simp [reader_setConn], by simp [reader_setConn]⟩
  | notFound id =>
    simp only [handle]
    split_ifs <;> exact ⟨_, rfl, by simp, by simp⟩
  | releasing =>
    exact ⟨_, rfl, by simp [reader_setConn], by simp [reader_setConn]⟩
  | _ =>
    simp only [handle]
    split
    · exact ⟨_, rfl, by simp, by simp⟩
    · split_ifs <;> exact ⟨_, rfl, by simp, by simp⟩

theorem runHandler_done (hn : (s.conns c).reader.rest ≤ n)
    (ho : (s.conns c).reader ≠ .offline) : ((runHandler c queue n s).conns c).reader.done := by
  induction n generalizing s with
  | zero =>
    by_contra hr
    obtain ⟨t, -, hlt, -⟩ := handle_rest (s := s) (c := c) (q := queue) hr ho
    exact absurd (hlt.trans_le hn) (Nat.not_lt_zero _)
  | succ n ih =>
    by_cases hr : (s.conns c).reader.done
    · have hstop : handle s c queue (s.conns c).reader = none := by
        rcases hr with h | h <;> rw [h] <;> rfl
      rw [runHandler_stop hstop]
      exact hr
    · obtain ⟨t, ht, hlt, ho'⟩ := handle_rest (q := queue) hr ho
      rw [runHandler_succ ht]
      exact ih (by omega) ho'

/-- **A handler returns.** -/
theorem handlePacket_returns (s : State κ) (c : κ) (a : Ack) (queue : Bool) :
    ((s.handlePacket c a queue).conns c).reader.done := by
  refine runHandler_done ?_ ?_
  · rw [reader_handle]
    unfold recv
    split <;> simp
  · rw [reader_handle]
    unfold recv
    split <;> simp

/-! ## What stays in flight -/

/-- What is in flight in `sess` is in flight in `sess'`. -/
def Session.Holds (sess sess' : Session κ) : Prop :=
  ∀ id, (sess.inflightEntry id).isSome = true → (sess'.inflightEntry id).isSome = true

/-- Nothing that the handler has still to do removes an entry. -/
@[simp] def Reader.keeps : Reader κ → Bool
  | .acking _ => false
  | .receiving _ => false
  | .mismatched _ => false
  | .failing _ => false
  | _ => true

omit [DecidableEq κ] in
theorem holds_of_only (ho : sess.Only sess' id)
    (h : (sess.inflightEntry id).isSome = true → (sess'.inflightEntry id).isSome = true) :
    sess.Holds sess' := by
  intro j hj
  by_cases hji : j = id
  · subst hji
    exact h hj
  · rwa [ho.entry j hji]

omit [DecidableEq κ] in
theorem holds_modify (sess : Session κ) (id : PacketID) {f : Entry κ → Entry κ}
    (hf : ∀ o, (f o).packetID = o.packetID) : sess.Holds (sess.modify id f) :=
  holds_of_only (only_modify hf) fun h => by
    rw [inflightEntry_modify_self hf, Option.isSome_map]
    exact h

theorem handle_keeps (hk : (s.conns c).reader.keeps = true)
    (h : handle s c queue (s.conns c).reader = some t) :
    s.sess.Holds t.sess ∧ (t.conns c).reader.keeps = true := by
  have hsame : s.sess.Holds s.sess := fun _ h => h
  cases hr : (s.conns c).reader with
  | offline | idle | ended => rw [hr] at h; cases h
  | forgettingWithdrawn a =>
    simp only [hr, handle] at h
    split at h <;> cases h
    · exact ⟨hsame, by simp⟩
    · rename_i sess w heq
      obtain ⟨-, -, hon, hent, -⟩ := forgetWithdrawn_spec heq
      have hh : s.sess.Holds sess := holds_of_only hon fun h => by rwa [hent]
      exact ⟨hh, by split_ifs <;> simp⟩
  | forgettingResent a =>
    simp only [hr, handle] at h
    split at h <;> cases h
    · exact ⟨hsame, by simp⟩
    · rename_i sess quota heq
      obtain ⟨_, -, -, -, -, hon, hent, -⟩ := forgetResent_spec heq
      have hh : s.sess.Holds sess := holds_of_only hon fun h => by rwa [hent]
      exact ⟨hh, by split_ifs <;> simp⟩
  | accepting o =>
    simp only [hr, handle] at h
    cases h
    exact ⟨holds_modify _ _ fun _ => rfl, by simp⟩
  | answering id seq =>
    simp only [hr, handle] at h
    split_ifs at h <;> cases h
    · exact ⟨hsame, by simp [reader_setConn]⟩
    · exact ⟨hsame, by simp⟩
    · exact ⟨holds_modify _ _ fun _ => rfl, by simp⟩
  | notFound id =>
    simp only [hr, handle] at h
    split_ifs at h <;> cases h
    · exact ⟨hsame, by simp⟩
    · exact ⟨hsame, by simp⟩
  | releasing =>
    simp only [hr, handle] at h
    cases h
    exact ⟨hsame, by simp [reader_setConn]⟩
  | _ => rw [hr] at hk; cases hk

theorem runHandler_keeps (hk : (s.conns c).reader.keeps = true) :
    s.sess.Holds (runHandler c q n s).sess := by
  induction n generalizing s with
  | zero => exact fun _ h => h
  | succ n ih =>
    cases h : handle s c q (s.conns c).reader with
    | none =>
      rw [runHandler_stop h]
      exact fun _ h => h
    | some t =>
      obtain ⟨hh, hk'⟩ := handle_keeps hk h
      rw [runHandler_succ h]
      exact fun id hid => ih hk' id (hh id hid)

/-! ## What a handler removes -/

/-- What is gone at the end of such a handler was not there. -/
theorem gone_of_keeps (hr : (s.conns c).reader = r)
    (hk : r.keeps = true) (hgone : (runHandler c queue n s).sess.inflightEntry id = none) :
    s.sess.inflightEntry id = none := by
  by_contra h
  have hsome := runHandler_keeps (n := n) (q := queue) (by rwa [hr]) id
    (Option.isSome_iff_ne_none.mpr h)
  rw [hgone] at hsome
  cases hsome

theorem gone_of_handle (hk : r.keeps = true)
    (hgone : (runHandler c queue n (s.handle c r)).sess.inflightEntry id = none) :
    s.sess.inflightEntry id = none := by
  have hnone := gone_of_keeps (reader_handle s c r) hk hgone
  exact hnone

theorem runHandler_ended (hr : (s.conns c).reader = .ended) :
    ((runHandler c q n s).conns c).reader = .ended := by
  rw [runHandler_stop (by rw [hr]; rfl)]
  exact hr

/-- `completeInflight` removes the entry of its identifier and no other. -/
theorem id_of_completed {done : Entry κ} {j : PacketID}
    (heq : sess.completeInflight c j = (sess', some done)) (ho : sess.inflightEntry id = some o)
    (hgone : sess'.inflightEntry id = none) : j = id ∧ done.qos = o.qos := by
  obtain ⟨o', ho', -, hqos, hon, -⟩ := completeInflight_spec heq
  by_cases hj : id = j
  · subst hj
    rw [ho] at ho'
    cases ho'
    exact ⟨rfl, hqos⟩
  · rw [hon.entry id hj, ho] at hgone
    cases hgone

/-- The handler of a PUBACK or a PUBCOMP removes the entry of its identifier; after a PUBACK for
another QoS it returns an error. -/
theorem acking_removes (hr : (s.conns c).reader = .acking a) (ho : s.sess.inflightEntry id = some o)
    (hgone : (runHandler c queue (n + 1) s).sess.inflightEntry id = none) :
    a.id = id ∧ (a.type = .puback → (runHandler c queue (n + 1) s).returnsNil c →
      o.qos = .qos1) := by
  rcases heq : s.sess.completeInflight c a.id with ⟨sess, _ | done⟩
  · have hstep : handle s c queue (s.conns c).reader =
        some (s.handle c (.forgettingWithdrawn a)) := by
      simp only [hr, handle, heq]
    rw [runHandler_succ hstep] at hgone
    cases ho.symm.trans (gone_of_handle rfl hgone)
  · by_cases hq : a.type = .puback ∧ done.qos ≠ .qos1
    · have hstep : handle s c queue (s.conns c).reader =
          some (({ s with sess := sess }.note (.completed c a done.msg)).disconnect c) := by
        simp only [hr, handle, heq, if_pos hq]
      rw [runHandler_succ hstep] at hgone ⊢
      have hnone := gone_of_keeps (reader_disconnect _ c) rfl hgone
      refine ⟨(id_of_completed heq ho hnone).1, fun _ hnil => ?_⟩
      have hend := runHandler_ended (n := n) (q := queue) (reader_disconnect
        ({ s with sess := sess }.note (.completed c a done.msg)) c)
      rw [hnil] at hend
      cases hend
    · have hstep : handle s c queue (s.conns c).reader =
          some (({ s with sess := sess }.note (.completed c a done.msg)).handle c
            (if done.quotaHeld then .releasing else .idle)) := by
        simp only [hr, handle, heq, if_neg hq]
      rw [runHandler_succ hstep] at hgone
      have hnone := gone_of_handle (by split_ifs <;> rfl) hgone
      obtain ⟨hid, hqos⟩ := id_of_completed heq ho hnone
      refine ⟨hid, fun hpuback _ => ?_⟩
      by_contra hne
      exact hq ⟨hpuback, by rwa [hqos]⟩

/-- After a PUBREC for a QoS 1 exchange the handler returns an error. -/
theorem mismatched_ends (hr : (s.conns c).reader = .mismatched a) :
    ((runHandler c queue (n + 1) s).conns c).reader = .ended := by
  rcases heq : s.sess.completeInflight c a.id with ⟨sess, _ | done⟩
  · have hstep : handle s c queue (s.conns c).reader = some (s.disconnect c) := by
      simp only [hr, handle, heq]
    rw [runHandler_succ hstep]
    exact runHandler_ended (reader_disconnect s c)
  · have hstep : handle s c queue (s.conns c).reader =
        some (({ s with sess := sess }.note (.completed c a done.msg)).disconnect c) := by
      simp only [hr, handle, heq]
    rw [runHandler_succ hstep]
    exact runHandler_ended (reader_disconnect _ c)

theorem failing_removes
    (hr : (s.conns c).reader = .failing a) (ho : s.sess.inflightEntry id = some o)
    (hgone : (runHandler c queue (n + 1) s).sess.inflightEntry id = none) : a.id = id := by
  rcases heq : s.sess.completeInflight c a.id with ⟨sess, _ | done⟩
  · have hstep : handle s c queue (s.conns c).reader = some (s.handle c .idle) := by
      simp only [hr, handle, heq]
    rw [runHandler_succ hstep] at hgone
    cases ho.symm.trans (gone_of_handle rfl hgone)
  · have hstep : handle s c queue (s.conns c).reader =
        some (({ s with sess := sess }.note (.completed c a done.msg)).handle c
          (if done.quotaHeld then .releasing else .idle)) := by
      simp only [hr, handle, heq]
    rw [runHandler_succ hstep] at hgone
    have hnone := gone_of_handle (by split_ifs <;> rfl) hgone
    exact (id_of_completed heq ho hnone).1

/-- The handler of a PUBREC removes the entry of its identifier, and returns nil only for a QoS 2
exchange and an error code. -/
theorem receiving_removes
    (hr : (s.conns c).reader = .receiving a) (ho : s.sess.inflightEntry id = some o)
    (hgone : (runHandler c queue (n + 2) s).sess.inflightEntry id = none)
    (hnil : (runHandler c queue (n + 2) s).returnsNil c) :
    a.id = id ∧ o.qos = .qos2 ∧ a.error = true := by
  cases hin : s.sess.inflightEntry a.id with
  | none =>
    have hstep : handle s c queue (s.conns c).reader = some (s.handle c (.notFound a.id)) := by
      simp only [hr, handle, hin]
    rw [runHandler_succ hstep] at hgone
    cases ho.symm.trans (gone_of_handle rfl hgone)
  | some p =>
    by_cases hq : p.qos ≠ .qos2
    · have hstep : handle s c queue (s.conns c).reader = some (s.handle c (.mismatched a)) := by
        simp only [hr, handle, hin, if_pos hq]
      rw [runHandler_succ hstep] at hnil
      cases (mismatched_ends (n := n) (reader_handle s c (.mismatched a))).symm.trans hnil
    · by_cases herr : a.error = true
      · have hstep : handle s c queue (s.conns c).reader = some (s.handle c (.failing a)) := by
          simp only [hr, handle, hin, if_neg hq, if_pos herr]
        rw [runHandler_succ hstep] at hgone
        have hid := failing_removes (reader_handle s c (.failing a)) ho hgone
        subst hid
        rw [ho] at hin
        cases hin
        exact ⟨rfl, by_contra fun h => hq h, herr⟩
      · have hstep : handle s c queue (s.conns c).reader = some (s.handle c (.accepting p)) := by
          simp only [hr, handle, hin, if_neg hq, if_neg herr]
        rw [runHandler_succ hstep] at hgone
        cases ho.symm.trans (gone_of_handle rfl hgone)

/-- **Exchanges end by their own acknowledgement.** Whatever the session and the packets read
before: when the handler of a packet removes an entry and returns nil, the entry is the packet's,
and the packet is the one that ends its exchange if and only if it is in order. -/
theorem ended_by_own_acknowledgement (s : State κ) (c : κ) (read : List (Ack × Bool)) (a : Ack)
    (queue : Bool) (id : PacketID) (o : Entry κ)
    (ho : (s.handlePackets c read).sess.inflightEntry id = some o)
    (hgone : ((s.handlePackets c read).handlePacket c a queue).sess.inflightEntry id = none)
    (hnil : ((s.handlePackets c read).handlePacket c a queue).returnsNil c) :
    a.id = id ∧ (a.Ends o ↔ a.InOrder (s.handlePackets c read).sess) := by
  generalize s.handlePackets c read = s at *
  unfold State.handlePacket at *
  have hr := reader_handle s c (recv a)
  have horder : a.id = id → (a.InOrder s.sess ↔
      (a.type = .pubcomp → o.qos = .qos2 ∧ o.awaitingPubcomp = true) ∧
        (a.type = .pubrec → a.error = true → o.awaitingPubcomp = false)) := by
    rintro rfl
    simp [Ack.InOrder, ho]
  cases htype : a.type with
  | puback =>
    obtain ⟨hid, hqos⟩ := acking_removes (hr.trans (if_neg (by simp [htype]))) ho hgone
    rw [horder hid]
    simp [Ack.Ends, htype, hqos htype hnil, hid]
  | pubcomp =>
    obtain ⟨hid, -⟩ := acking_removes (hr.trans (if_neg (by simp [htype]))) ho hgone
    rw [horder hid]
    simp [Ack.Ends, htype, hid]
  | pubrec =>
    obtain ⟨hid, hqos, herr⟩ := receiving_removes (hr.trans (if_pos htype)) ho hgone hnil
    rw [horder hid]
    simp [Ack.Ends, htype, hqos, herr, hid]

/-- A session with one message in flight. -/
def oneInFlight (qos : QoS) (awaiting : Bool) : State Nat where
  sess := { inflight := [{ packetID := 1, qos := qos, seq := 1, awaitingPubcomp := awaiting }] }

theorem ended_by_own_acknowledgement_pubcomp :
    let s := (oneInFlight .qos2 false).handlePackets 0 [({ type := .pubrec, id := 1 }, false)]
    let a : Ack := { type := .pubcomp, id := 1 }
    ∃ o, s.sess.inflightEntry 1 = some o ∧ a.id = 1 ∧ a.Ends o := by
  obtain ⟨hid, hends⟩ := ended_by_own_acknowledgement (oneInFlight .qos2 false) 0
    [({ type := .pubrec, id := 1 }, false)] { type := .pubcomp, id := 1 } false 1 _ rfl
    (by decide) (by unfold State.returnsNil; rfl)
  refine ⟨_, rfl, hid, hends.mpr ?_⟩
  intro o ho
  cases ho
  exact ⟨fun _ => ⟨rfl, rfl⟩, nofun⟩

/-- A message is in flight, and `a` ends its exchange without an error and is not its
acknowledgement. -/
def Ack.EndsAnother (a : Ack) (s : State Nat) : Prop :=
  ∃ o ∈ s.sess.inflightEntry a.id,
    (s.handlePacket 0 a false).sess.inflightEntry a.id = none ∧
      (s.handlePacket 0 a false).returnsNil 0 ∧ ¬ a.Ends o

def Reader.isIdle : Reader κ → Bool
  | .idle => true
  | _ => false

omit [DecidableEq κ] in
theorem Reader.isIdle_iff : r.isIdle = true ↔ r = .idle := by
  cases r <;> simp [Reader.isIdle]

instance (s : State κ) (c : κ) : Decidable (s.returnsNil c) := decidable_of_iff _ Reader.isIdle_iff

instance (a : Ack) (s : State Nat) : Decidable (a.EndsAnother s) :=
  inferInstanceAs (Decidable (∃ o, o ∈ s.sess.inflightEntry a.id ∧ _))

/-- A QoS 1 message is sent; the client answers with a PUBCOMP. Or a QoS 2 message is sent and the
client answers with a PUBREC, and then with one that refuses the message. -/
theorem ended_by_another :
    (∃ s, Lts.Reach step Lts.free {} s ∧ Ack.EndsAnother { type := .pubcomp, id := 1 } s) ∧
      ∃ s, Lts.Reach step Lts.free {} s ∧
        Ack.EndsAnother { type := .pubrec, id := 1, error := true } s := by
  exact ⟨Lts.exists_reach (attachRun 0 1 ++ [.resend 0] ++ deliverRun 0 .qos1 7) (by decide),
    Lts.exists_reach (attachRun 0 1 ++ [.resend 0] ++ deliverRun 0 .qos2 7 ++
      ackRun 0 { type := .pubrec, id := 1 } 3) (by decide)⟩

end Natsmqtt5.Outbound
