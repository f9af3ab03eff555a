import Natsmqtt5.Lts
import Natsmqtt5.Restore.Model

/-!
# The Message Expiry Interval through sends, resends and restores

One message, taken in at the time `a` with the Message Expiry Interval `e`, on its way to one
client: `applyExpiry` (`expiry.go:101-114`) with the part of `prepare` around it
(`subscribe.go:766-838`), `writeResend` (`retransmit.go:85-164`), and what `inflightState`
(`session.go:1773-1835`) keeps of the entry and `restoreEntry` (`restore.go:119-196`) makes of it
(`Restore/Model.lean`). The properties of the PUBLISH have the interval as it was last sent; the one
the message came with is in `expiry`, from which every send counts down.

A PUBLISH is built from one reading of the clock and written later: `deliverBurst`
(`subscribe.go:619-685`) prepares a whole burst, waits for the record of its QoS 2 messages and then
writes it, and every write waits for the ones before it. One goroutine of a connection does all of
that and the resends, so its PUBLISHes are written in the order they were built. The state has every
copy of the message in some session's in-flight set, every entry of it that was ever recorded, what
each connection has built and not written, and what was written. Times do not decrease. An
acknowledgement or a withdrawal is `complete`; a failing record or write, or a packet that is too
large for the client, is `drop`. The send number of an entry is left out.

Results:
* `remaining_toNat`, `remaining_expired`: `remainingExpiry` in numbers.
* `Counts.restored`: an entry of any form restores the time and the interval it was recorded with.
* `expiry_counted_once`: every run, by the times at which the clock is read.
* `expiry_overstated`: not by the times of the writes.
-/

namespace Natsmqtt5.Restore.Expiry

open Function
open Spill

/-! ## Sending -/

/-- `delivery`, what `prepare` reads of it. -/
structure Delivery where
  topic : Bytes
  qos : UInt8
  retain : Bool
  payload : Bytes
  props : Wire.Properties
  arrived : Nat
  expiry : Option UInt32 := none
  seq : Nat := 0
  recordSeq : Nat := 0
  ackSubject : Bytes := []

/-- `applyExpiry`, and whether the message has expired. -/
def Delivery.applyExpiry (d : Delivery) (now : Nat) : Delivery × Bool :=
  match d.props.messageExpiryInterval with
  | none => (d, false)
  | some interval =>
    let expiry := d.expiry.getD interval
    match remainingExpiry expiry d.arrived now with
    | (_, true) => ({ d with expiry := some expiry }, true)
    | (remaining, false) =>
      ({ d with
          expiry := some expiry
          props := { d.props with messageExpiryInterval := some remaining } }, false)

/-- The PUBLISH of a delivery. -/
def Delivery.publish (d : Delivery) (id : UInt16) : Wire.Publish :=
  ⟨false, d.qos, d.retain, d.topic, if d.qos = 0 then 0 else id, d.props, d.payload⟩

/-- The entry that `prepare` tracks. -/
def Delivery.outbound (d : Delivery) (id : UInt16) : Outbound :=
  { packetID := id
    qos := d.qos
    publish := d.publish id
    arrived := some d.arrived
    expiry := d.expiry
    queueSeq := max d.seq d.recordSeq
    ackSubject := d.ackSubject }

/-- `prepare`, once it has its send quota: nothing for an expired message. -/
def prepare (d : Delivery) (id : UInt16) (now : Nat) : Option (Wire.Publish × List Outbound) :=
  match d.applyExpiry now with
  | (_, true) => none
  | (d, false) => some (d.publish id, if d.qos = 0 then [] else [d.outbound id])

/-- What `writeResend` does for an entry that is still in flight. -/
inductive Resend
  | pubrel
  | expired
  | publish (p : Wire.Publish)

/-- `writeResend`. An entry with an interval has the time it arrived. -/
def writeResend (o : Outbound) (now : Nat) : Resend :=
  if o.awaitingPubcomp then .pubrel
  else
    match o.expiry with
    | none => .publish { o.publish with dup := true }
    | some interval =>
      let r := remainingExpiry interval (o.arrived.getD 0) now
      if r.2 = true ∧ o.qos = 1 then .expired
      else .publish { o.publish with
        dup := true
        properties := { o.publish.properties with messageExpiryInterval := some r.1 } }

/-! ## Runs -/

/-- `prepared`: a PUBLISH that is built, with the time the clock showed then. -/
structure Prepared where
  clock : Nat
  pub : Wire.Publish

/-- A PUBLISH that a connection has written, and when. -/
structure Written extends Prepared where
  conn : Nat
  time : Nat

/-- Every copy and every recorded entry of the message, what each connection has yet to write, the
oldest first, what was written, the newest first, and whether a send or a resend has found the
message expired. -/
structure State where
  now : Nat := 0
  copies : List Outbound := []
  records : List StoredInflight := []
  ready : Nat → List Prepared := fun _ => []
  written : List Written := []
  found : Bool := false

/-- What happens to the message; `k` is the connection whose goroutine acts. -/
inductive Act
  | send (k : Nat) (d : Delivery) (id : UInt16) (now : Nat)
  | resend (k : Nat) (i : Nat) (now : Nat)
  | write (k : Nat) (now : Nat)
  | drop (k : Nat)
  | pubrec (i : Nat)
  | complete (i : Nat)
  | record (i : Nat) (blobs : Option Store) (inlineLimit inlineLeft : Nat) (key : Bytes)
      (wroteAt : Nat)
  | restore (st : StoredInflight) (b : Broker)

/-- The entry a record gets, with the key of its payload where that is written first. -/
def recorded (r : Recorded) (key : Bytes) (wroteAt : Nat) : List StoredInflight :=
  match r with
  | .left => []
  | .entry st _ => [st]
  | .pending st _ => [{ st with blob := key, blobAt := some wroteAt }]

/-- The connection has built a PUBLISH. -/
def State.build (s : State) (k now : Nat) (p : Wire.Publish) : State :=
  { s with now := now, ready := update s.ready k (s.ready k ++ [⟨now, p⟩]) }

/-- `prepare`: the clock is read, and the entry is tracked before the write. -/
def stepSend (s : State) (k : Nat) (d : Delivery) (id : UInt16) (now : Nat) : State :=
  match prepare d id now with
  | none => { s with now := now, found := true }
  | some (p, os) => { s.build k now p with copies := os ++ s.copies }

/-- `writeResend`, up to its `writePublish`. -/
def stepResend (s : State) (k i : Nat) (o : Outbound) (now : Nat) : State :=
  match writeResend o now with
  | .pubrel => { s with now := now }
  | .expired => { s with now := now, copies := s.copies.eraseIdx i, found := true }
  | .publish p => s.build k now p

/-- `writePublish` of what the connection built first, or the end of it unwritten. -/
def stepWrite (s : State) (k : Nat) (now : Option Nat) : Option State :=
  match s.ready k with
  | [] => none
  | p :: ps =>
    let s := { s with ready := update s.ready k ps }
    match now with
    | none => some s
    | some t => some { s with now := t, written := ⟨p, k, t⟩ :: s.written }

/-- One step; none where the source cannot take it. -/
def step (c : Codec) (s : State) : Act → Option State
  | .send k d id now => if now < s.now then none else some (stepSend s k d id now)
  | .resend k i now => if now < s.now then none else (s.copies[i]?).map (stepResend s k i · now)
  | .write k now => if now < s.now then none else stepWrite s k (some now)
  | .drop k => stepWrite s k none
  | .pubrec i => (s.copies[i]?).map fun o =>
      { s with copies := s.copies.set i { o with awaitingPubcomp := true } }
  | .complete i => some { s with copies := s.copies.eraseIdx i }
  | .record i blobs inlineLimit inlineLeft key wroteAt => (s.copies[i]?).map fun o =>
      { s with
        records := recorded (recordEntry blobs inlineLimit inlineLeft o) key wroteAt ++ s.records }
  | .restore st b =>
    if b.now < s.now then none
    else if s.records.any (fun r => decide (r = st)) then
      some { s with now := b.now, copies := (restoreEntry c b st).toList ++ s.copies }
    else none

/-- The deliveries are of the message, and so is the queue copy an entry names: it has the
interval, and its timestamp is the time the message was taken in. -/
def Act.Of (e : UInt32) (a : Nat) (q : UInt8) : Act → Prop
  | .send _ d _ _ =>
    d.props.messageExpiryInterval = some e ∧ d.arrived = a ∧ d.expiry = none ∧ d.qos = q
  | .restore st b => ∀ copy ∈ b.queue st.seq,
      copy.arrived = a ∧ (fromNATS copy.msg).props.messageExpiryInterval = some e
  | _ => True

instance (e : UInt32) (a : Nat) (q : UInt8) (act : Act) : Decidable (act.Of e a q) := by
  unfold Act.Of
  split <;> infer_instance

/-! ## One send -/

/-- The whole seconds from `a` to `t`. -/
def waited (a t : Nat) : Nat := (t - a) / 1000000000

variable {t : Nat} {t' : Nat}

theorem waited_mono (a : Nat) (h : t ≤ t') : waited a t ≤ waited a t' :=
  Nat.div_le_div_right (Nat.sub_le_sub_right h a)

theorem remaining_toNat (e : UInt32) (a t : Nat) :
    (remainingExpiry e a t).1.toNat = e.toNat - waited a t := by
  have hlt := e.toNat_lt
  unfold remainingExpiry waited
  dsimp only
  split_ifs with h0 he
  · rw [h0, Nat.sub_zero]
  · exact (Nat.sub_eq_zero_of_le he).symm
  · rw [UInt32.toNat_ofNat']
    omega

theorem remaining_expired (e : UInt32) (a t : Nat) :
    (remainingExpiry e a t).2 = true ↔ waited a t ≠ 0 ∧ e.toNat ≤ waited a t := by
  unfold remainingExpiry waited
  dsimp only
  split_ifs with h0 he
  · exact iff_of_false (by decide) fun h => h.1 h0
  · exact iff_of_true rfl ⟨h0, he⟩
  · exact iff_of_false (by decide) fun h => he h.2

section Message

variable {e : UInt32} {a : Nat} {q : UInt8} {o : Outbound} {st : StoredInflight} {b : Broker}
  {c : Codec}

/-- A PUBLISH that carries what is left of the interval at the time `t`. -/
def Carries (e : UInt32) (a : Nat) (t : Nat) (p : Wire.Publish) : Prop :=
  ∃ v, p.properties.messageExpiryInterval = some v ∧ v.toNat = e.toNat - waited a t

/-- The interval has passed. -/
def Passed (e : UInt32) (a t : Nat) : Prop := waited a t ≠ 0 ∧ e.toNat ≤ waited a t

theorem Passed.mono (h : Passed e a t) (hle : t ≤ t') : Passed e a t' := by
  have hw := waited_mono a hle
  have h0 := h.1
  have he := h.2
  exact ⟨by omega, by omega⟩

/-- An entry that counts from `a` and `e`, unless only a PUBREL is owed. -/
def Counts (e : UInt32) (a : Nat) (q : UInt8) (o : Outbound) : Prop :=
  o.awaitingPubcomp = true ∨ (o.expiry = some e ∧ o.arrived = some a ∧ o.qos = q)

theorem prepare_cases {d : Delivery} (hd : d.props.messageExpiryInterval = some e ∧ d.arrived = a ∧
    d.expiry = none ∧ d.qos = q) (id : UInt16) (t : Nat) :
    (prepare d id t = none ∧ Passed e a t) ∨
    ∃ p os, prepare d id t = some (p, os) ∧ ¬ Passed e a t ∧ Carries e a t p ∧
      ∀ o ∈ os, Counts e a q o := by
  obtain ⟨hint, harr, hexp, hqos⟩ := hd
  have hval := remaining_toNat e a t
  have hpast := remaining_expired e a t
  have happly : d.applyExpiry t = match remainingExpiry e a t with
      | (_, true) => ({ d with expiry := some e }, true)
      | (remaining, false) => ({ d with
          expiry := some e
          props := { d.props with messageExpiryInterval := some remaining } }, false) := by
    unfold Delivery.applyExpiry
    rw [hint, hexp, harr]
    rfl
  unfold prepare
  rw [happly]
  rcases hr : remainingExpiry e a t with ⟨r, b⟩
  rw [hr] at hval hpast
  cases b with
  | true => exact .inl ⟨rfl, hpast.mp rfl⟩
  | false =>
    refine .inr ⟨_, _, rfl, fun h => Bool.false_ne_true (hpast.mpr h), ⟨r, rfl, hval⟩, ?_⟩
    intro o ho
    split_ifs at ho
    · cases ho
    · rw [List.mem_singleton.mp ho]
      exact .inr ⟨rfl, congrArg some harr, hqos⟩

theorem writeResend_cases (ho : Counts e a q o) (t : Nat) : writeResend o t = .pubrel ∨
    (writeResend o t = .expired ∧ Passed e a t) ∨
    ∃ p, writeResend o t = .publish p ∧ Carries e a t p ∧ (q = 1 → ¬ Passed e a t) := by
  by_cases hrel : o.awaitingPubcomp = true
  · exact .inl (if_pos hrel)
  · obtain ⟨hexp, harr, hqos⟩ := ho.resolve_left hrel
    have hval := remaining_toNat e a t
    have hpast := remaining_expired e a t
    refine .inr ?_
    unfold writeResend
    rw [if_neg hrel, hexp, harr]
    dsimp only [Option.getD_some]
    split_ifs with hdrop
    · exact .inl ⟨rfl, hpast.mp hdrop.1⟩
    · refine .inr ⟨_, rfl, ⟨_, rfl, hval⟩, fun hq hp => hdrop ⟨hpast.mpr hp, hqos.trans hq⟩⟩

/-! ## Recording and restoring -/

/-- An entry that says what `Counts` does, or leaves it to the queue copy. -/
def Notes (e : UInt32) (a : Nat) (q : UInt8) (st : StoredInflight) : Prop :=
  st.rel = true ∨ (st.qos = q ∧
    ((st.exp = some e ∧ st.arrivedAt = some a) ∨ (st.pub = [] ∧ st.blob = [])))

theorem Counts.recorded (ho : Counts e a q o) (blobs : Option Store)
    (inlineLimit inlineLeft : Nat) (key : Bytes) (wroteAt : Nat) :
    ∀ st ∈ recorded (recordEntry blobs inlineLimit inlineLeft o) key wroteAt, Notes e a q st := by
  unfold recordEntry
  dsimp only
  by_cases hrel : o.awaitingPubcomp = true
  · rw [if_pos hrel]
    exact List.forall_mem_singleton.mpr (.inl rfl)
  · obtain ⟨hexp, harr, hqos⟩ := ho.resolve_left hrel
    rw [if_neg hrel]
    split_ifs with hseq
    · exact List.forall_mem_singleton.mpr (.inr ⟨hqos, .inr ⟨rfl, rfl⟩⟩)
    · split
      · exact List.forall_mem_nil _
      · have hkept : ∀ st : StoredInflight, st.qos = o.qos → st.exp = o.expiry →
            st.arrivedAt = o.arrived → Notes e a q st := fun st h1 h2 h3 =>
          .inr ⟨h1.trans hqos, .inl ⟨h2.trans hexp, h3.trans harr⟩⟩
        split_ifs
        · exact List.forall_mem_singleton.mpr (hkept _ rfl rfl rfl)
        · unfold recordBlob
          split
          · exact List.forall_mem_nil _
          · split_ifs
            · exact List.forall_mem_nil _
            · exact List.forall_mem_singleton.mpr (hkept _ rfl rfl rfl)
            · exact List.forall_mem_singleton.mpr (hkept _ rfl rfl rfl)

theorem restoreStoredPublish_counts {now : Nat}
    (h : restoreStoredPublish now st = some o) (hexp : st.exp = some e)
    (harr : st.arrivedAt = some a) : o.expiry = some e ∧ o.arrived = some a ∧ o.qos = st.qos := by
  unfold restoreStoredPublish at h
  split at h
  · split_ifs at h
    cases h
    refine ⟨?_, ?_, rfl⟩
    · simp only [hexp, Option.some_or]
    · simp only [harr, Option.getD_some]
  · cases h

theorem interval_copy (st : StoredInflight) (copy : QueueCopy) :
    (copyProperties st copy).messageExpiryInterval =
      (fromNATS copy.msg).props.messageExpiryInterval := by
  unfold copyProperties
  dsimp only
  split_ifs <;> rfl

theorem restoreQueued_counts
    (h : restoreQueued b st = some o) (hcopy : ∀ copy, b.queue st.seq = some copy →
      copy.arrived = a ∧ (fromNATS copy.msg).props.messageExpiryInterval = some e) :
    o.expiry = some e ∧ o.arrived = some a ∧ o.qos = st.qos := by
  unfold restoreQueued at h
  split_ifs at h
  obtain ⟨copy, hq, h⟩ := Option.bind_eq_some_iff.mp h
  obtain ⟨topic, -, h⟩ := Option.bind_eq_some_iff.mp h
  obtain ⟨harr, hint⟩ := hcopy copy hq
  cases h
  exact ⟨(interval_copy st copy).trans hint, congrArg some harr, rfl⟩

/-- An entry of any form restores the time and the interval it was recorded with. -/
theorem Counts.restored (hst : Notes e a q st) (hcopy : ∀ copy, b.queue st.seq = some copy →
      copy.arrived = a ∧ (fromNATS copy.msg).props.messageExpiryInterval = some e) :
    ∀ o ∈ (restoreEntry c b st).toList, Counts e a q o := by
  intro o ho
  have h : restoreEntry c b st = some o := Option.mem_toList.mp ho
  unfold restoreEntry at h
  split_ifs at h with hid hrel
  · cases h
    exact .inl rfl
  · obtain ⟨hqos, hform⟩ := hst.resolve_left hrel
    obtain ⟨pub, hpub, h⟩ := Option.bind_eq_some_iff.mp h
    refine .inr ?_
    split_ifs at h with hne
    · obtain ⟨o', ho', h⟩ := Option.bind_eq_some_iff.mp h
      cases h
      rcases hform with ⟨hexp, harr⟩ | ⟨hp, hb⟩
      · obtain ⟨h1, h2, h3⟩ := restoreStoredPublish_counts ho' hexp harr
        exact ⟨h1, h2, h3.trans hqos⟩
      · -- An entry with a sequence has no PUBLISH of its own.
        unfold storedPub at hpub
        rw [if_neg (not_not.mpr hb), hp] at hpub
        exact absurd (Option.some.inj hpub).symm hne
    · obtain ⟨h1, h2, h3⟩ := restoreQueued_counts h hcopy
      exact ⟨h1, h2, h3.trans hqos⟩

/-! ## Every run -/

/-- A PUBLISH that carries what was left when the clock was read, and at QoS 1 something was. -/
def Prepared.Sound (e : UInt32) (a : Nat) (q : UInt8) (p : Prepared) : Prop :=
  Carries e a p.clock p.pub ∧ (q = 1 → ¬ Passed e a p.clock)

/-- What every state of a run has. -/
structure Inv (e : UInt32) (a : Nat) (q : UInt8) (s : State) : Prop where
  copies : ∀ o ∈ s.copies, Counts e a q o
  records : ∀ st ∈ s.records, Notes e a q st
  ready : ∀ k, ∀ p ∈ s.ready k, p.Sound e a q ∧ p.clock ≤ s.now
  queued : ∀ k, (s.ready k).Pairwise fun p p' => p.clock ≤ p'.clock
  written : ∀ w ∈ s.written, w.Sound e a q ∧ w.clock ≤ w.time ∧ w.time ≤ s.now
  order : s.written.Pairwise fun w w' => w.conn = w'.conn → w'.clock ≤ w.clock
  behind : ∀ w ∈ s.written, ∀ p ∈ s.ready w.conn, w.clock ≤ p.clock
  found : q = 1 → s.found = true → Passed e a s.now

theorem inv_start : Inv e a q {} :=
  ⟨List.forall_mem_nil _, List.forall_mem_nil _, fun _ => List.forall_mem_nil _, fun _ => .nil,
    List.forall_mem_nil _, .nil, List.forall_mem_nil _, fun _ h => absurd h Bool.false_ne_true⟩

section Steps

variable {s s' : State} {t k : Nat} {copies : List Outbound}

/-- What a step can lead to. -/
inductive Outcome (e : UInt32) (a : Nat) (q : UInt8) (s : State) : State → Prop
  /-- Time passes and nothing is built or written. -/
  | wait {t copies records found} (ht : s.now ≤ t) (hcopies : ∀ o ∈ copies, Counts e a q o)
      (hrecords : ∀ st ∈ records, Notes e a q st)
      (hfound : found = s.found ∨ found = true ∧ Passed e a t) : Outcome e a q s
        { s with now := t, copies := copies, records := records, found := found }
  | build {t k p copies} (ht : s.now ≤ t) (hp : Prepared.Sound e a q ⟨t, p⟩)
      (hcopies : ∀ o ∈ copies, Counts e a q o) :
      Outcome e a q s { s.build k t p with copies := copies }
  /-- A connection's oldest PUBLISH is taken, and written or not. -/
  | drop {k p ps} (hready : s.ready k = p :: ps) :
      Outcome e a q s { s with ready := update s.ready k ps }
  | write {k p ps t} (hready : s.ready k = p :: ps) (ht : s.now ≤ t) : Outcome e a q s
      { s with
        now := t
        ready := update s.ready k ps
        written := ⟨p, k, t⟩ :: s.written }

theorem Outcome.of_step {act : Act} (h : Inv e a q s) (hof : act.Of e a q)
    (hs : step c s act = some s') : Outcome e a q s s' := by
  cases act <;> simp only [Expiry.step] at hs
  case send k d id t =>
    split_ifs at hs with hnow
    cases hs
    unfold stepSend
    rcases prepare_cases hof id t with ⟨hp, hpast⟩ | ⟨p, os, hp, hlive, hcarries, hos⟩
    · rw [hp]
      exact .wait (by omega) h.copies h.records (.inr ⟨rfl, hpast⟩)
    · rw [hp]
      exact .build (by omega) ⟨hcarries, fun _ => hlive⟩ (List.forall_mem_append.mpr
        ⟨hos, h.copies⟩)
  case resend k i t =>
    split_ifs at hs with hnow
    obtain ⟨o, ho, rfl⟩ := Option.map_eq_some_iff.mp hs
    have hcount := h.copies o (List.mem_of_getElem? ho)
    unfold stepResend
    rcases writeResend_cases hcount t with hw | ⟨hw, hpast⟩ | ⟨p, hw, hcarries, hlive⟩
    · rw [hw]
      exact .wait (by omega) h.copies h.records (.inl rfl)
    · rw [hw]
      exact .wait (by omega) (fun o ho => h.copies o (List.mem_of_mem_eraseIdx ho)) h.records
        (.inr ⟨rfl, hpast⟩)
    · rw [hw]
      exact .build (by omega) ⟨hcarries, hlive⟩ h.copies
  case write k t =>
    split_ifs at hs with hnow
    unfold stepWrite at hs
    split at hs <;> cases hs
    rename_i hready
    exact .write hready (by omega)
  case drop k =>
    unfold stepWrite at hs
    split at hs <;> cases hs
    rename_i hready
    exact .drop hready
  case pubrec i =>
    obtain ⟨o, ho, rfl⟩ := Option.map_eq_some_iff.mp hs
    refine .wait (Nat.le_refl _) (fun o' ho' => ?_) h.records (.inl rfl)
    rcases List.mem_or_eq_of_mem_set ho' with hmem | rfl
    · exact h.copies o' hmem
    · exact .inl rfl
  case complete i =>
    cases hs
    exact .wait (Nat.le_refl _) (fun o ho => h.copies o (List.mem_of_mem_eraseIdx ho)) h.records
      (.inl rfl)
  case record i blobs inlineLimit inlineLeft key wroteAt =>
    obtain ⟨o, ho, rfl⟩ := Option.map_eq_some_iff.mp hs
    have hcount := h.copies o (List.mem_of_getElem? ho)
    exact .wait (Nat.le_refl _) h.copies (List.forall_mem_append.mpr
      ⟨hcount.recorded blobs inlineLimit inlineLeft key wroteAt, h.records⟩) (.inl rfl)
  case restore st b =>
    split_ifs at hs with hnow hmem
    cases hs
    obtain ⟨r, hr, heq⟩ := List.any_eq_true.mp hmem
    have hst := h.records st (of_decide_eq_true heq ▸ hr)
    exact .wait (by omega) (List.forall_mem_append.mpr ⟨Counts.restored hst hof, h.copies⟩)
      h.records (.inl rfl)

theorem Inv.wait (h : Inv e a q s) (ht : s.now ≤ t) {found : Bool} {records : List StoredInflight}
    (hcopies : ∀ o ∈ copies, Counts e a q o) (hrecords : ∀ st ∈ records, Notes e a q st)
    (hfound : found = s.found ∨ found = true ∧ Passed e a t) :
    Inv e a q { s with now := t, copies := copies, records := records, found := found } :=
  { h with
    copies := hcopies
    records := hrecords
    ready k p hp := ⟨(h.ready k p hp).1, (h.ready k p hp).2.trans ht⟩
    written w hw := ⟨(h.written w hw).1, (h.written w hw).2.1, (h.written w hw).2.2.trans ht⟩
    found hq hf := hfound.elim (fun hs => (h.found hq (hs ▸ hf)).mono ht) fun hs => hs.2 }

/-- What a connection has built is what it had and the new PUBLISH, which is the last. -/
theorem mem_build {p : Wire.Publish} {k' : Nat} {x : Prepared}
    (hx : x ∈ (s.build k t p).ready k') : x ∈ s.ready k' ∨ (x = ⟨t, p⟩ ∧ k' = k) := by
  change x ∈ update s.ready k (s.ready k ++ [⟨t, p⟩]) k' at hx
  by_cases hk : k' = k
  · subst hk
    rw [update_self] at hx
    exact (List.mem_append.mp hx).imp id fun h => ⟨List.mem_singleton.mp h, rfl⟩
  · rw [update_of_ne hk] at hx
    exact .inl hx

theorem Inv.build (h : Inv e a q s) (ht : s.now ≤ t) {p : Wire.Publish}
    (hp : Prepared.Sound e a q ⟨t, p⟩) (hcopies : ∀ o ∈ copies, Counts e a q o) :
    Inv e a q { s.build k t p with copies := copies } := by
  have hw := h.wait ht hcopies h.records (.inl rfl)
  refine { hw with ready := ?_, queued := ?_, behind := ?_ }
  · intro k' x hx
    rcases mem_build hx with hx | ⟨rfl, -⟩
    · exact hw.ready k' x hx
    · exact ⟨hp, Nat.le_refl t⟩
  · intro k'
    change ((update s.ready k (s.ready k ++ [⟨t, p⟩])) k').Pairwise _
    by_cases hk : k' = k
    · subst hk
      rw [update_self]
      refine List.pairwise_append.mpr ⟨h.queued k', List.pairwise_singleton _ _, ?_⟩
      intro x hx y hy
      rw [List.mem_singleton.mp hy]
      exact (h.ready k' x hx).2.trans ht
    · rw [update_of_ne hk]
      exact h.queued k'
  · intro w hwr x hx
    rcases mem_build hx with hx | ⟨rfl, -⟩
    · exact h.behind w hwr x hx
    · exact (h.written w hwr).2.1.trans ((h.written w hwr).2.2.trans ht)

/-- What is left after the oldest is taken was there before, in the same order. -/
theorem sublist_taken {p : Prepared} {ps : List Prepared} (hready : s.ready k = p :: ps)
    (k' : Nat) : (update s.ready k ps k').Sublist (s.ready k') := by
  by_cases hk : k' = k
  · subst hk
    rw [update_self, hready]
    exact List.sublist_cons_self p ps
  · rw [update_of_ne hk]

theorem Inv.dropped (h : Inv e a q s) {p : Prepared} {ps : List Prepared}
    (hready : s.ready k = p :: ps) :
    Inv e a q { s with ready := update s.ready k ps } :=
  { h with
    ready := fun k' x hx => h.ready k' x ((sublist_taken hready k').subset hx)
    queued := fun k' => (h.queued k').sublist (sublist_taken hready k')
    behind := fun w hw x hx => h.behind w hw x ((sublist_taken hready w.conn).subset hx) }

theorem Inv.wrote (h : Inv e a q s) {p : Prepared} {ps : List Prepared}
    (hready : s.ready k = p :: ps) (ht : s.now ≤ t) :
    Inv e a q { s with
      now := t
      ready := update s.ready k ps
      written := ⟨p, k, t⟩ :: s.written } := by
  have hp : p ∈ s.ready k := hready ▸ List.mem_cons_self
  have hw := (h.dropped hready).wait ht h.copies h.records (.inl rfl)
  refine { hw with written := ?_, order := ?_, behind := ?_ }
  · exact List.forall_mem_cons.mpr
      ⟨⟨(h.ready k p hp).1, (h.ready k p hp).2.trans ht, Nat.le_refl t⟩, hw.written⟩
  · refine List.pairwise_cons.mpr ⟨fun w hwr hk => ?_, h.order⟩
    exact h.behind w hwr p (hk ▸ hp)
  · refine List.forall_mem_cons.mpr ⟨fun x hx => ?_, hw.behind⟩
    -- What is left of the connection's PUBLISHes was built after the one it writes.
    have hsorted := h.queued k
    rw [hready] at hsorted
    change x ∈ update s.ready k ps k at hx
    rw [update_self] at hx
    exact (List.pairwise_cons.mp hsorted).1 x hx

theorem Inv.step {act : Act} (h : Inv e a q s) (hof : act.Of e a q)
    (hs : step c s act = some s') : Inv e a q s' := by
  cases Outcome.of_step h hof hs with
  | wait ht hcopies hrecords hfound => exact h.wait ht hcopies hrecords hfound
  | build ht hp hcopies => exact h.build ht hp hcopies
  | drop hready => exact h.dropped hready
  | write hready ht => exact h.wrote hready ht

/-- All that the second state has yet to write, or has written since, the first had yet to write. -/
structure Spends (s s' : State) : Prop where
  ready : ∀ k, ∀ p ∈ s'.ready k, p ∈ s.ready k
  written : ∀ w ∈ s'.written, w ∈ s.written ∨ w.toPrepared ∈ s.ready w.conn
  found : s'.found = true

theorem Spends.trans {s₀ : State} (h : Spends s₀ s) (h' : Spends s s') : Spends s₀ s' where
  ready k p hp := h.ready k p (h'.ready k p hp)
  written w hw := (h'.written w hw).elim (h.written w) fun hr => .inr (h.ready w.conn _ hr)
  found := h'.found

/-- An expired QoS 1 message is not built again. -/
theorem spends_of_found {act : Act} (h : Inv e a q s) (hq : q = 1)
    (hfound : s.found = true) (hof : act.Of e a q) (hs : Expiry.step c s act = some s') :
    Spends s s' := by
  cases Outcome.of_step h hof hs with
  | wait _ _ _ hf =>
    exact ⟨fun _ _ hp => hp, fun _ hw => .inl hw, hf.elim (·.trans hfound) fun hf => hf.1⟩
  | build ht hp _ => exact absurd ((h.found hq hfound).mono ht) (hp.2 hq)
  | drop hready =>
    exact ⟨fun k _ hx => (sublist_taken hready k).subset hx, fun _ hw => .inl hw, hfound⟩
  | write hready _ =>
    exact ⟨fun k _ hx => (sublist_taken hready k).subset hx, List.forall_mem_cons.mpr
      ⟨.inr (hready ▸ List.mem_cons_self), fun _ hw => .inl hw⟩, hfound⟩

end Steps

/-- The clock was read before the interval had passed. -/
theorem lt_of_not_passed (h : ¬ Passed e a t) : t < a + max e.toNat 1 * 1000000000 := by
  unfold Passed waited at h
  by_contra hle
  have hsub : max e.toNat 1 * 1000000000 ≤ t - a := by omega
  have hdiv : max e.toNat 1 ≤ (t - a) / 1000000000 :=
    (Nat.le_div_iff_mul_le (by decide)).mpr hsub
  exact h ⟨by omega, by omega⟩

end Message

/-- The interval a PUBLISH carries. -/
def interval (p : Wire.Publish) : Nat := (p.properties.messageExpiryInterval.getD 0).toNat

/-- **Expiry is counted once.** In every run of sends, resends, records of any form and restores of
a message taken in at `a` with the interval `e`, let `t` be the time at which the clock was read for
a PUBLISH. It carries the interval less the whole seconds from `a` to `t`, 0 when more have passed,
and on one connection the values do not increase. At QoS 1 no PUBLISH that is written was built from
`a + max e 1` seconds on, and once the message was found expired only what had been built is
written. -/
theorem expiry_counted_once (c : Codec) (e : UInt32) (a : Nat) (q : UInt8) (s : State)
    (hreach : Lts.Reach (step c) (fun _ => Act.Of e a q) {} s) :
    (∀ w ∈ s.written, w.clock ≤ w.time ∧ w.pub.properties.messageExpiryInterval ≠ none ∧
      interval w.pub = e.toNat - (w.clock - a) / 1000000000) ∧
    s.written.Pairwise (fun later earlier => later.conn = earlier.conn →
      earlier.clock ≤ later.clock ∧ interval later.pub ≤ interval earlier.pub) ∧
    (q = 1 → ∀ w ∈ s.written, w.clock < a + max e.toNat 1 * 1000000000) ∧
    (q = 1 → s.found = true → ∀ s', Lts.Reach (step c) (fun _ => Act.Of e a q) s s' →
      ∀ w ∈ s'.written, w ∈ s.written ∨ w.toPrepared ∈ s.ready w.conn) := by
  have hinv : Inv e a q s := hreach.invariant inv_start fun _ _ _ hi hof hs => hi.step hof hs
  have hval : ∀ w ∈ s.written, interval w.pub = e.toNat - waited a w.clock := by
    intro w hw
    obtain ⟨v, hv, hnat⟩ := (hinv.written w hw).1.1
    rw [interval, hv, Option.getD_some, hnat]
  refine ⟨fun w hw => ⟨(hinv.written w hw).2.1, ?_, hval w hw⟩, ?_, ?_, ?_⟩
  · obtain ⟨v, hv, -⟩ := (hinv.written w hw).1.1
    rw [hv]
    exact Option.some_ne_none v
  · refine hinv.order.imp_of_mem fun {later earlier} hl he hle hconn => ⟨hle hconn, ?_⟩
    have hw := waited_mono a (hle hconn)
    rw [hval later hl, hval earlier he]
    omega
  · intro hq w hw
    exact lt_of_not_passed ((hinv.written w hw).1.2 hq)
  · intro hq hfound s' hrun
    have hkeep : Inv e a q s' ∧ Spends s s' := by
      have hstep : ∀ u (act : Act) u', Inv e a q u ∧ Spends s u →
          act.Of e a q → step c u act = some u' → Inv e a q u' ∧ Spends s u' := by
        rintro u act u' ⟨hu, hspends⟩ hof hs
        exact ⟨hu.step hof hs, hspends.trans (spends_of_found hu hq hspends.found hof hs)⟩
      exact hrun.invariant ⟨hinv, fun _ _ hp => hp, fun _ hw => .inl hw, hfound⟩ hstep
    exact hkeep.2.written

/-! ## A run -/

/-- A QoS 1 delivery of a message of five seconds, taken in at one second. -/
def shortLived : Delivery :=
  { topic := [97], qos := 1, retain := false, payload := [1], arrived := 1000000000
    props := { messageExpiryInterval := some 5 } }

/-- The entry of it that carries its PUBLISH. -/
def shortLivedEntry : StoredInflight :=
  { id := 1, qos := 1, exp := some 5, arrivedAt := some 1000000000
    pub := [0x32, 12, 0, 1, 97, 0, 1, 5, 2, 0, 0, 0, 5, 1] }

/-- A broker without an offline queue, at a time. -/
def brokerAt (now : Nat) : Broker := ⟨fun _ => none, fun _ => none, now⟩

/-- Sent, recorded, restored, sent again after two and a half seconds on the next connection, and
found expired on the one after that. -/
def shortLivedRun : List Act :=
  [.send 0 shortLived 1 1200000000, .write 0 1200000000, .record 0 none 16384 16384 [] 0,
    .restore shortLivedEntry (brokerAt 3000000000), .resend 1 0 3500000000,
    .write 1 3600000000, .resend 2 0 7000000000]

theorem expiry_counted_once_restored : ∃ s, s.written.map (fun w => interval w.pub) = [3, 5] ∧
    s.found = true ∧ ∀ s', Lts.Reach (step backlogCodec) (fun _ => Act.Of 5 1000000000 1) s s' →
      ∀ w ∈ s'.written, w ∈ s.written ∨ w.toPrepared ∈ s.ready w.conn := by
  obtain ⟨s, hreach, hp⟩ := Lts.reach_of_exec_any (step backlogCodec)
    (fun _ => Act.Of 5 1000000000 1) {} shortLivedRun
    (fun s => decide (s.written.map (fun w => interval w.pub) = [3, 5]) && s.found)
    (by decide +kernel)
  rw [Bool.and_eq_true, decide_eq_true_iff] at hp
  exact ⟨s, hp.1, hp.2,
    (expiry_counted_once backlogCodec 5 1000000000 1 s hreach).2.2.2 rfl hp.2⟩

/-- Built with a tenth of a second left, before the record of a QoS 2 message that was taken in the
same burst; the record takes over a second. -/
def heldUpRun : List Act := [.send 0 shortLived 1 5900000000, .write 0 7000000000]

/-- A connection is held up before its write, and the one that took over writes first. -/
def overtakenRun : List Act :=
  [.send 0 shortLived 1 1200000000, .resend 1 0 3500000000, .write 1 3600000000,
    .write 0 3700000000]

/-- Counted to the time of the write, the interval is overstated: the message of five seconds is
written with an interval of 1 when six have passed, and a value is written after a smaller one. -/
theorem expiry_overstated :
    (∃ s, Lts.Reach (step backlogCodec) (fun _ => Act.Of 5 1000000000 1) {} s ∧
      s.written.map (fun w => (w.time, interval w.pub)) = [(7000000000, 1)]) ∧
    ∃ s, Lts.Reach (step backlogCodec) (fun _ => Act.Of 5 1000000000 1) {} s ∧
      s.written.map (fun w => (w.time, interval w.pub)) = [(3700000000, 5), (3600000000, 3)] := by
  exact ⟨Lts.exists_reach heldUpRun (by decide +kernel),
    Lts.exists_reach overtakenRun (by decide +kernel)⟩

end Natsmqtt5.Restore.Expiry
