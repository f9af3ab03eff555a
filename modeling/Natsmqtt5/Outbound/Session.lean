import Natsmqtt5.Keyed
import Natsmqtt5.Packet

/-!
# What a session is owed for the messages it has sent

The in-flight messages of a session and the two maps beside them (`session.go`): `withdrawn`, the
identifiers of messages the broker took back, and `resent`, those the current connection put back on
the wire. Each function here runs under the session's lock, so it is one step of whoever calls it.

The in-flight set is kept in the order the messages were sent, which is the order of `seq`; so
`unacknowledged` is the list itself. The topic, the payload and the properties are the message
`msg`.
-/

namespace Natsmqtt5.Outbound

open Function

/-- `outbound`: a message sent and not acknowledged. -/
structure Entry (κ : Type) where
  packetID : PacketID
  qos : QoS
  /-- Counts sends: the name of the exchange. -/
  seq : Nat := 0
  /-- The message it carries. -/
  msg : Nat := 0
  awaitingPubcomp : Bool := false
  quotaHeld : Bool := false
  resentOn : Option κ := none
  /-- `ackSubject` is not empty: a message of a shared subscription's backlog. -/
  shared : Bool := false
  deriving DecidableEq

structure Withdrawal (κ : Type) where
  madeAt : Nat
  owed : AckType
  quotaHolder : Option κ := none

structure AckOwed (κ : Type) where
  conn : κ
  typ : AckType
  written : Bool := false
  quota : Bool := false

/-- `session`: its in-flight state. -/
structure Session (κ : Type) where
  inflight : List (Entry κ) := []
  withdrawn : PacketID → Option (Withdrawal κ) := fun _ => none
  resent : PacketID → Option (AckOwed κ) := fun _ => none
  attaches : Nat := 0
  nextPacketID : PacketID := 0
  sendSeq : Nat := 0
  conn : Option κ := none

variable {κ : Type}

/-- `owedAck`: the acknowledgement that ends the exchange. -/
def owedAck (o : Entry κ) : AckType := if o.qos = .qos1 then .puback else .pubcomp

def Session.inflightEntry (s : Session κ) (id : PacketID) : Option (Entry κ) :=
  Keyed.find Entry.packetID s.inflight id

/-- Changes the entry of `id` in place. -/
def Session.modify (s : Session κ) (id : PacketID) (f : Entry κ → Entry κ) : Session κ :=
  { s with inflight := Keyed.modify Entry.packetID f s.inflight id }

/-- Deletes the entry of `id`. -/
def Session.delete (s : Session κ) (id : PacketID) : Session κ :=
  { s with inflight := Keyed.erase Entry.packetID s.inflight id }

/-! ## Sending -/

/-- The identifier after `id`. -/
def succID (id : PacketID) : PacketID := if id + 1 = 0x10000 then 1 else id + 1

/-- The loop of `nextID`. -/
def nextFree (busy : PacketID → Bool) : Nat → PacketID → Option PacketID
  | 0, _ => none
  | n + 1, id => if busy (succID id) then nextFree busy n (succID id) else some (succID id)

/-- An identifier `nextID` passes over. -/
def Session.busy (s : Session κ) (id : PacketID) : Bool :=
  (s.inflightEntry id).isSome || (s.withdrawn id).isSome

/-- `nextID`. A full round without success leaves the same identifier next. -/
def Session.nextID (s : Session κ) : Option (Session κ × PacketID) :=
  (nextFree s.busy 0xFFFF s.nextPacketID).map fun id => ({ s with nextPacketID := id }, id)

def Session.trackInflight (s : Session κ) (o : Entry κ) : Session κ :=
  { s with
    sendSeq := s.sendSeq + 1
    inflight := Keyed.put Entry.packetID s.inflight { o with seq := s.sendSeq + 1 } }

section Resend

variable [DecidableEq κ]

/-- The entry as `takeQuotaSlot` leaves it. -/
def Entry.takeQuotaSlot (c : κ) (o : Entry κ) : Entry κ :=
  { o with quotaHeld := true, resentOn := some c }

/-- The entry as `markResent` leaves it. -/
def Entry.markResent (c : κ) (o : Entry κ) : Entry κ := { o with resentOn := some c }

def Session.takeQuotaSlot (s : Session κ) (c : κ) (id : PacketID) : Option (Session κ) :=
  (s.inflightEntry id).map fun o =>
    { s.modify id (Entry.takeQuotaSlot c) with
      resent := update s.resent id (some ⟨c, owedAck o, false, false⟩) }

def Session.markResent (s : Session κ) (c : κ) (id : PacketID) : Option (Session κ) :=
  (s.inflightEntry id).map fun o =>
    { s.modify id (Entry.markResent c) with
      resent := update s.resent id (some ⟨c, owedAck o, false, false⟩) }

def Session.markResentWritten (s : Session κ) (c : κ) (id : PacketID) : Session κ :=
  match s.resent id with
  | none => s
  | some r =>
    if r.conn = c then
      { s with resent := update s.resent id (some { r with written := true }) }
    else s

def Session.abandonResend (s : Session κ) (c : κ) (id : PacketID) : Session κ :=
  match s.resent id with
  | none => s
  | some r => if r.conn = c then { s with resent := update s.resent id none } else s

/-- `forgetResent`: whether the copy held a slot, if there is one `c` is owed a `t` for. -/
def Session.forgetResent (s : Session κ) (c : κ) (id : PacketID) (t : AckType) :
    Option (Session κ × Bool) :=
  match s.resent id with
  | none => none
  | some r =>
    if r.conn = c ∧ r.typ = t then
      some ({ s with resent := update s.resent id none }, r.quota)
    else none

/-! ## Acknowledgements -/

/-- The entry as `awaitPubcomp` leaves it. -/
def Entry.awaitPubcomp (o : Entry κ) : Entry κ := { o with awaitingPubcomp := true }

/-- The entry as `settleOwned` leaves it. -/
def Entry.settleOwned (o : Entry κ) : Entry κ :=
  { o with shared := o.shared && !o.awaitingPubcomp }

def Session.awaitPubcomp (s : Session κ) (id : PacketID) : Session κ :=
  s.modify id Entry.awaitPubcomp

def Session.settleOwned (s : Session κ) (id : PacketID) : Session κ :=
  s.modify id Entry.settleOwned

def Session.heldGroupMessage (s : Session κ) (id : PacketID) : Bool :=
  (s.inflightEntry id).any fun o => o.shared

/-- The acknowledgement of the original overtook a resend that has a slot and has not written the
copy: the slot is the copy's. -/
def overtakes (c : κ) (o : Entry κ) : Option (AckOwed κ) → Bool
  | none => false
  | some r => decide (r.conn = c) && !r.written && !r.quota && o.quotaHeld &&
      decide (o.resentOn = some c)

/-- The connection, other than `c`, that resent the entry. -/
def resentElsewhere (c : κ) (o : Entry κ) : Option κ := o.resentOn.filter fun d => d ≠ c

/-- The record of an identifier as owed, with its slot's connection. -/
def withdrawal (s : Session κ) (o : Entry κ) (holder : Option κ) : Withdrawal κ :=
  ⟨s.attaches, owedAck o, if o.quotaHeld then holder else none⟩

/-- `completeInflight`: the entry as it is handed to the caller, whose `quotaHeld` says whether the
caller returns a slot. -/
def Session.completeInflight (s : Session κ) (c : κ) (id : PacketID) :
    Session κ × Option (Entry κ) :=
  match s.inflightEntry id with
  | none => (s, none)
  | some o =>
    let s' := s.delete id
    if overtakes c o (s.resent id) then
      let r := (s.resent id).map fun r => { r with quota := true }
      ({ s' with resent := update s.resent id r }, some { o with quotaHeld := false })
    else
      match resentElsewhere c o with
      | some d =>
        ({ s' with withdrawn := update s.withdrawn id (some (withdrawal s o (some d))) },
          some { o with quotaHeld := false })
      | none => (s', some o)

end Resend

/-- `withdrawInflight` and the hand-back of `heldSubjects`, for one entry: the identifier stays
owed. An entry past its PUBREC is left alone. -/
def Session.withdraw (s : Session κ) (id : PacketID) : Option (Session κ) :=
  match s.inflightEntry id with
  | none => none
  | some o =>
    if o.awaitingPubcomp then none
    else some { s.delete id with
      withdrawn := update s.withdrawn id (some (withdrawal s o s.conn)) }

def Session.forgetWithdrawn (s : Session κ) (id : PacketID) (t : AckType) :
    Option (Session κ × Withdrawal κ) :=
  match s.withdrawn id with
  | none => none
  | some w =>
    if w.owed = t then some ({ s with withdrawn := update s.withdrawn id none }, w)
    else none

/-! ## Connections and restores -/

def Session.forgetStaleWithdrawals (s : Session κ) : Session κ :=
  { s with withdrawn := fun id => (s.withdrawn id).filter fun w => s.attaches - w.madeAt < 2 }

/-- `attach`: no entry holds a slot of the new connection. -/
def Session.attach (s : Session κ) (c : κ) : Session κ :=
  Session.forgetStaleWithdrawals { s with
    conn := some c
    inflight := s.inflight.map fun o => { o with quotaHeld := false }
    resent := fun _ => none
    attaches := s.attaches + 1 }

/-- `restoreWithdrawn`, for one identifier, into a session that has counted two attaches. -/
def Session.restoreWithdrawn (s : Session κ) (id : PacketID) (owed : AckType) (age : Nat) :
    Session κ :=
  if age ≥ 2 then s
  else if (s.inflightEntry id).isSome then s
  else { s with withdrawn := update s.withdrawn id (some ⟨s.attaches - age, owed, none⟩) }

def Session.restoreInflight (s : Session κ) (o : Entry κ) : Session κ :=
  if (s.inflightEntry o.packetID).isSome then s else s.trackInflight o

/-! ## Lookups -/

section Lookup

variable {s : Session κ} {id j : PacketID} {o : Entry κ} {f : Entry κ → Entry κ}

theorem count_cons_eq (id j : PacketID) (l : List PacketID) :
    (id :: l).count j = l.count j + if j = id then 1 else 0 := by
  rw [List.count_cons]
  by_cases h : j = id
  · simp [h]
  · simp [h, Ne.symm h]

theorem packetID_of_inflightEntry (h : s.inflightEntry id = some o) : o.packetID = id :=
  Keyed.key_of_find _ h

@[simp] theorem inflightEntry_delete_self : (s.delete id).inflightEntry id = none :=
  Keyed.find_erase_self _

@[simp] theorem inflightEntry_delete_of_ne (h : j ≠ id) :
    (s.delete id).inflightEntry j = s.inflightEntry j := Keyed.find_erase_of_ne _ h

theorem inflightEntry_modify_self (hf : ∀ o, (f o).packetID = o.packetID) :
    (s.modify id f).inflightEntry id = (s.inflightEntry id).map f := Keyed.find_modify_self _ hf

theorem inflightEntry_modify_of_ne (hf : ∀ o, (f o).packetID = o.packetID)
    (h : j ≠ id) : (s.modify id f).inflightEntry j = s.inflightEntry j :=
  Keyed.find_modify_of_ne _ hf h

theorem inflightEntry_track_self : (s.trackInflight o).inflightEntry o.packetID =
    some { o with seq := s.sendSeq + 1 } := Keyed.find_put_self _

theorem inflightEntry_track_of_ne (h : j ≠ o.packetID) :
    (s.trackInflight o).inflightEntry j = s.inflightEntry j := Keyed.find_put_of_ne _ h

theorem inflightEntry_attach (c : κ) : (s.attach c).inflightEntry id =
    (s.inflightEntry id).map fun o => { o with quotaHeld := false } :=
  Keyed.find_map _ fun _ => rfl

/-- `s'` differs from `s` in what it has of `id` alone. -/
structure Session.Only (s s' : Session κ) (id : PacketID) : Prop where
  entry : ∀ j, j ≠ id → s'.inflightEntry j = s.inflightEntry j
  withdrawn : ∀ j, j ≠ id → s'.withdrawn j = s.withdrawn j
  resent : ∀ j, j ≠ id → s'.resent j = s.resent j
  sendSeq : s'.sendSeq = s.sendSeq
  attaches : s'.attaches = s.attaches
  conn : s'.conn = s.conn

theorem Session.Only.refl (s : Session κ) (id : PacketID) : s.Only s id :=
  ⟨fun _ _ => rfl, fun _ _ => rfl, fun _ _ => rfl, rfl, rfl, rfl⟩

theorem only_modify (hf : ∀ o, (f o).packetID = o.packetID) : s.Only (s.modify id f) id :=
  ⟨fun _ hj => inflightEntry_modify_of_ne hf hj, fun _ _ => rfl, fun _ _ => rfl, rfl, rfl, rfl⟩

end Lookup

/-! ## What each function does -/

section Specs

variable {s s' : Session κ} {c : κ} {id : PacketID} {t : AckType}

theorem only_resent (s : Session κ) (id : PacketID) (r : Option (AckOwed κ)) :
    s.Only { s with resent := update s.resent id r } id :=
  ⟨fun _ _ => rfl, fun _ _ => rfl, fun _ hj => update_of_ne hj _ _, rfl, rfl, rfl⟩

/-- A resend changes the entry, and records the acknowledgement it is owed. -/
theorem resend_spec {f : Entry κ → Entry κ} (hf : ∀ o, (f o).packetID = o.packetID)
    (h : ((s.inflightEntry id).map fun o => { s.modify id f with
      resent := update s.resent id (some ⟨c, owedAck o, false, false⟩) }) = some s') :
    ∃ o, s.inflightEntry id = some o ∧ s.Only s' id ∧ s'.inflightEntry id = some (f o) ∧
      s'.withdrawn id = s.withdrawn id ∧ s'.resent id = some ⟨c, owedAck o, false, false⟩ := by
  obtain ⟨o, ho, rfl⟩ := Option.map_eq_some_iff.mp h
  refine ⟨o, ho, { only_resent s id _ with entry := fun _ hj => inflightEntry_modify_of_ne hf hj },
    ?_, rfl, update_self _ _ _⟩
  exact (inflightEntry_modify_self hf).trans (by rw [ho]; rfl)

theorem takeQuotaSlot_spec (h : s.takeQuotaSlot c id = some s') :
    ∃ o, s.inflightEntry id = some o ∧ s.Only s' id ∧
      s'.inflightEntry id = some (o.takeQuotaSlot c) ∧ s'.withdrawn id = s.withdrawn id ∧
      s'.resent id = some ⟨c, owedAck o, false, false⟩ :=
  resend_spec (fun _ => rfl) h

theorem markResent_spec (h : s.markResent c id = some s') :
    ∃ o, s.inflightEntry id = some o ∧ s.Only s' id ∧
      s'.inflightEntry id = some (o.markResent c) ∧ s'.withdrawn id = s.withdrawn id ∧
      s'.resent id = some ⟨c, owedAck o, false, false⟩ :=
  resend_spec (fun _ => rfl) h

theorem forgetWithdrawn_spec {w : Withdrawal κ} (h : s.forgetWithdrawn id t = some (s', w)) :
    s.withdrawn id = some w ∧ w.owed = t ∧ s.Only s' id ∧
      s'.inflightEntry id = s.inflightEntry id ∧ s'.withdrawn id = none ∧
      s'.resent id = s.resent id := by
  unfold Session.forgetWithdrawn at h
  split at h
  · cases h
  · rename_i w' hw
    split at h <;> cases h
    rename_i ht
    exact ⟨hw, ht, ⟨fun _ _ => rfl, fun _ hj => update_of_ne hj _ _, fun _ _ => rfl, rfl,
      rfl, rfl⟩, rfl, update_self _ _ _, rfl⟩

theorem withdraw_spec (h : s.withdraw id = some s') :
    ∃ o, s.inflightEntry id = some o ∧ o.awaitingPubcomp = false ∧ s.Only s' id ∧
      s'.inflightEntry id = none ∧ s'.withdrawn id = some (withdrawal s o s.conn) ∧
      s'.resent id = s.resent id := by
  unfold Session.withdraw at h
  split at h
  · cases h
  · rename_i o ho
    split at h <;> cases h
    rename_i haw
    exact ⟨o, ho, by simpa using haw, ⟨fun _ hj => inflightEntry_delete_of_ne hj,
      fun _ hj => update_of_ne hj _ _, fun _ _ => rfl, rfl, rfl, rfl⟩,
      inflightEntry_delete_self, update_self _ _ _, rfl⟩

variable [DecidableEq κ]

/-- `markResentWritten` marks the record of `c`, if there is one. -/
theorem markResentWritten_spec (s : Session κ) (c : κ) (id : PacketID) :
    s.Only (s.markResentWritten c id) id ∧
      (s.markResentWritten c id).inflightEntry id = s.inflightEntry id ∧
      (s.markResentWritten c id).withdrawn id = s.withdrawn id ∧
      (s.markResentWritten c id).resent id =
        (s.resent id).map fun r => if r.conn = c then { r with written := true } else r := by
  unfold Session.markResentWritten
  split
  · rename_i hr
    exact ⟨.refl s id, rfl, rfl, by rw [hr]; rfl⟩
  · rename_i r hr
    split
    · rename_i hc
      refine ⟨only_resent s id _, rfl, rfl, ?_⟩
      simp [hr, hc]
    · rename_i hc
      exact ⟨.refl s id, rfl, rfl, by simp [hr, hc]⟩

/-- `abandonResend` forgets the record of `c`, if there is one. -/
theorem abandonResend_spec (s : Session κ) (c : κ) (id : PacketID) :
    s.Only (s.abandonResend c id) id ∧
      (s.abandonResend c id).inflightEntry id = s.inflightEntry id ∧
      (s.abandonResend c id).withdrawn id = s.withdrawn id ∧
      (s.abandonResend c id).resent id = (s.resent id).filter fun r => r.conn ≠ c := by
  unfold Session.abandonResend
  split
  · rename_i hr
    exact ⟨.refl s id, rfl, rfl, by rw [hr]; rfl⟩
  · rename_i r hr
    split
    · rename_i hc
      refine ⟨only_resent s id _, rfl, rfl, ?_⟩
      simp [hr, hc, Option.filter]
    · rename_i hc
      exact ⟨.refl s id, rfl, rfl, by simp [hr, hc, Option.filter]⟩

theorem forgetResent_spec {quota : Bool} (h : s.forgetResent c id t = some (s', quota)) :
    ∃ r, s.resent id = some r ∧ r.conn = c ∧ r.typ = t ∧ r.quota = quota ∧ s.Only s' id ∧
      s'.inflightEntry id = s.inflightEntry id ∧ s'.withdrawn id = s.withdrawn id ∧
      s'.resent id = none := by
  unfold Session.forgetResent at h
  split at h
  · cases h
  · rename_i r hr
    split at h <;> cases h
    rename_i hc
    exact ⟨r, hr, hc.1, hc.2, rfl, only_resent s id _, rfl, rfl, update_self _ _ _⟩

/-- The copy that is overtaken is the caller's. -/
theorem resentElsewhere_of_overtakes {o : Entry κ} {r : Option (AckOwed κ)}
    (h : overtakes c o r = true) : resentElsewhere c o = none := by
  cases r with
  | none => cases h
  | some r =>
    simp only [overtakes, Bool.and_eq_true, decide_eq_true_eq] at h
    simp [resentElsewhere, h.2, Option.filter]

theorem completeInflight_eq_none (h : s.completeInflight c id = (s', none)) :
    s' = s ∧ s.inflightEntry id = none := by
  unfold Session.completeInflight at h
  split at h
  · rename_i hin
    exact ⟨(Prod.mk.inj h).1.symm, hin⟩
  · simp only at h
    split at h
    · cases h
    · split at h <;> cases h

/-- The three ways an entry is completed: its slot goes to the copy `c` has still to write, stays
with the connection that resent it, or is the caller's to return. -/
theorem completeInflight_spec {done : Entry κ} (h : s.completeInflight c id = (s', some done)) :
    ∃ o, s.inflightEntry id = some o ∧ done.msg = o.msg ∧ done.qos = o.qos ∧ s.Only s' id ∧
      s'.inflightEntry id = none ∧
      ((overtakes c o (s.resent id) = true ∧ done.quotaHeld = false ∧
          s'.withdrawn id = s.withdrawn id ∧
          s'.resent id = (s.resent id).map fun r => { r with quota := true }) ∨
        (overtakes c o (s.resent id) = false ∧ done.quotaHeld = false ∧
          ∃ d, resentElsewhere c o = some d ∧
            s'.withdrawn id = some (withdrawal s o (some d)) ∧ s'.resent id = s.resent id) ∨
        (overtakes c o (s.resent id) = false ∧ resentElsewhere c o = none ∧
          done.quotaHeld = o.quotaHeld ∧ s'.withdrawn id = s.withdrawn id ∧
          s'.resent id = s.resent id)) := by
  unfold Session.completeInflight at h
  split at h
  · cases h
  · rename_i o ho
    refine ⟨o, ho, ?_⟩
    simp only at h
    split at h
    · rename_i hov
      cases h
      exact ⟨rfl, rfl, ⟨fun _ hj => inflightEntry_delete_of_ne hj, fun _ _ => rfl,
        fun _ hj => update_of_ne hj _ _, rfl, rfl, rfl⟩, inflightEntry_delete_self,
        .inl ⟨hov, rfl, rfl, update_self _ _ _⟩⟩
    · rename_i hov
      simp only [Bool.not_eq_true] at hov
      split at h <;> cases h
      · rename_i d hd
        exact ⟨rfl, rfl, ⟨fun _ hj => inflightEntry_delete_of_ne hj,
          fun _ hj => update_of_ne hj _ _, fun _ _ => rfl, rfl, rfl, rfl⟩,
          inflightEntry_delete_self, .inr (.inl ⟨hov, rfl, d, hd, update_self _ _ _, rfl⟩)⟩
      · rename_i hd
        exact ⟨rfl, rfl, ⟨fun _ hj => inflightEntry_delete_of_ne hj, fun _ _ => rfl,
          fun _ _ => rfl, rfl, rfl, rfl⟩, inflightEntry_delete_self,
          .inr (.inr ⟨hov, hd, rfl, rfl, rfl⟩)⟩

end Specs

end Natsmqtt5.Outbound
