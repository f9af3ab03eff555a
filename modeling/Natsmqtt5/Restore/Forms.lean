import Natsmqtt5.Restore.Model

/-!
# What a record keeps of an in-flight message

The five forms an in-flight message is recorded in, and that each of them restores what the client
is owed: the identifier, the Quality of Service and, for a message that is not past its PUBREC, the
payload, the RETAIN flag, the first Subscription Identifier and the backlog subject.

Results:
* `recordEntries_forms`, `stashBlobs_forms`: an entry of the record has one of the forms of `Form`.
* `Form.restored`: each form restores what was recorded.
* `restored_all`: so do the entries together, in their order.
-/

namespace Natsmqtt5.Restore

open Spill

/-! ## What is owed -/

/-- A message that is sent again as it was. -/
structure Message where
  payload : Bytes
  retain : Bool
  subID : Option Int
  subject : Bytes
  deriving DecidableEq

/-- What an in-flight entry owes the client: the message, or past the PUBREC a PUBREL alone. -/
structure Owed where
  id : UInt16
  qos : UInt8
  message : Option Message
  deriving DecidableEq

def Outbound.message (o : Outbound) : Message :=
  { payload := o.publish.payload
    retain := o.publish.retain
    subID := o.publish.properties.subscriptionIdentifiers.head?
    subject := o.ackSubject }

def Outbound.owed (o : Outbound) : Owed :=
  { id := o.packetID
    qos := o.qos
    message := if o.awaitingPubcomp then none else some o.message }

/-- The backlog subject of an entry past its PUBREC, if the group has not been told. -/
def Outbound.settled (o : Outbound) : Option Bytes :=
  if o.awaitingPubcomp ∧ o.ackSubject ≠ [] then some o.ackSubject else none

/-- What `prepare` and the handlers keep of an entry. A message from a backlog has its sequence in
the queue. A message without one carries the PUBLISH it was sent as, and the key of its payload is
the key of that. -/
structure Outbound.Ok (c : Codec) (owner : Bytes) (o : Outbound) : Prop where
  packetID : o.packetID ≠ 0
  qos : o.qos = 1 ∨ o.qos = 2
  pubcomp : o.awaitingPubcomp = true → o.qos = 2
  subject : o.ackSubject ≠ [] → o.awaitingPubcomp = true ∨ o.queueSeq ≠ 0
  subIDs : ∀ id ∈ o.publish.properties.subscriptionIdentifiers, id ≠ 0
  publish : o.awaitingPubcomp = false → o.queueSeq = 0 →
    o.publish.Legal ∧ o.publish.packetID = o.packetID ∧ o.publish.qos = o.qos
  blobKey : o.awaitingPubcomp = false → o.queueSeq = 0 → o.blobKey ≠ [] →
    ∃ raw, encodeStorable o = some raw ∧ o.blobKey = blobKeyFor c owner raw

/-- The in-flight set: a map, in which each send has a number of its own. -/
structure Session.Ok (c : Codec) (owner : Bytes) (s : Session) : Prop where
  entries : ∀ o ∈ s.inflight, o.Ok c owner
  ids : (s.inflight.map Outbound.packetID).Nodup
  seqs : (s.inflight.map Outbound.seq).Nodup

/-! ## The order of sending -/

theorem perm_bySeq (l : List Outbound) : (bySeq l).Perm l := List.perm_insertionSort _ _

theorem sorted_bySeq (l : List Outbound) : (bySeq l).Pairwise fun a b => a.seq ≤ b.seq := by
  have : IsTrans Outbound fun a b => a.seq ≤ b.seq := ⟨fun _ _ _ => Nat.le_trans⟩
  have : Std.Total fun a b : Outbound => a.seq ≤ b.seq := ⟨fun _ _ => Nat.le_total _ _⟩
  exact List.pairwise_insertionSort _ l

/-- However the map is walked, the entries sorted are the same. -/
theorem bySeq_eq {l l' : List Outbound} (hperm : l.Perm l') (hseqs : (l'.map Outbound.seq).Nodup)
    (hsorted : l'.Pairwise fun a b => a.seq ≤ b.seq) : bySeq l = l' := by
  have hp : (bySeq l).Perm l' := (perm_bySeq l).trans hperm
  refine hp.eq_of_pairwise ?_ (sorted_bySeq l) hsorted
  intro a b ha hb hab hba
  exact List.inj_on_of_nodup_map hseqs (hp.subset ha) hb (Nat.le_antisymm hab hba)

theorem Session.Ok.unacknowledged_eq {c : Codec} {owner : Bytes} {s : Session} (h : s.Ok c owner)
    (w w' : Walk) : s.unacknowledged w = s.unacknowledged w' := by
  have hperm : (bySeq (w'.order s.inflight)).Perm s.inflight :=
    (perm_bySeq _).trans (w'.perm _)
  refine bySeq_eq ((w.perm _).trans hperm.symm) ?_ (sorted_bySeq _)
  exact (hperm.map Outbound.seq).nodup_iff.mpr h.seqs

/-! ## The forms of an entry -/

section Forms

variable {c : Codec} {owner raw : Bytes} {os : List Outbound} {b : Broker} {o : Outbound}
  {st : StoredInflight}

/-- What stands for an in-flight message in the record, once its payload is written. -/
inductive Form (c : Codec) (owner : Bytes) (o : Outbound) : StoredInflight → Prop
  | rel (h : o.awaitingPubcomp = true) :
    Form c owner o { id := o.packetID, qos := o.qos, rel := true, ack := o.ackSubject }
  | queued (h : o.awaitingPubcomp = false) (hseq : o.queueSeq ≠ 0) :
    Form c owner o
      { id := o.packetID
        qos := o.qos
        seq := o.queueSeq
        ack := o.ackSubject
        retain := o.publish.retain
        subID := o.publish.properties.subscriptionIdentifiers.headD 0 }
  | inlined (h : o.awaitingPubcomp = false) (hseq : o.queueSeq = 0) {raw : Bytes}
    (hraw : encodeStorable o = some raw) :
    Form c owner o
      { id := o.packetID, qos := o.qos, arrivedAt := o.arrived, exp := o.expiry, pub := raw }
  | payload (h : o.awaitingPubcomp = false) (hseq : o.queueSeq = 0) {raw : Bytes}
    (hraw : encodeStorable o = some raw) (written : Option Nat) :
    Form c owner o
      { id := o.packetID
        qos := o.qos
        arrivedAt := o.arrived
        exp := o.expiry
        blob := blobKeyFor c owner raw
        blobAt := written }

/-- The same for an entry whose payload may still have to be written. -/
def Waiting (c : Codec) (owner : Bytes) (o : Outbound) (p : StoredInflight × Option Bytes) : Prop :=
  match p.2 with
  | none => Form c owner o p.1
  | some raw =>
    ∀ written, Form c owner o { p.1 with blob := blobKeyFor c owner raw, blobAt := written }

/-- The entry of a message that is not left out. -/
def Recorded.pair : Recorded → Option (StoredInflight × Option Bytes)
  | .left => none
  | .entry st _ => some (st, none)
  | .pending st raw => some (st, some raw)

theorem recordEntry_form {o : Outbound} (ho : o.Ok c owner) (blobs : Option Store)
    (inlineLimit inlineLeft : Nat) :
    ∀ p ∈ (recordEntry blobs inlineLimit inlineLeft o).pair, Waiting c owner o p := by
  intro p hp
  unfold recordEntry at hp
  dsimp only at hp
  split_ifs at hp with hpub hseq
  · cases hp
    exact .rel hpub
  · rw [Bool.not_eq_true] at hpub
    cases hp
    exact .queued hpub hseq
  · rw [Bool.not_eq_true] at hpub
    rw [not_not] at hseq
    cases hraw : encodeStorable o with
    | none =>
      rw [hraw] at hp
      contradiction
    | some raw =>
      rw [hraw] at hp
      dsimp only at hp
      split_ifs at hp with hinline
      · cases hp
        exact .inlined hpub hseq hraw
      · unfold recordBlob at hp
        cases blobs with
        | none => contradiction
        | some store =>
          dsimp only at hp
          split_ifs at hp with hbig hkey
          · contradiction
          · cases hp
            obtain ⟨raw', hraw', hk⟩ := ho.blobKey hpub hseq hkey.1
            obtain rfl : raw = raw' := Option.some.inj (hraw.symm.trans hraw')
            change Form c owner o _
            rw [hk]
            exact .payload hpub hseq hraw _
          · cases hp
            exact fun written => .payload hpub hseq hraw written

/-- With no message left out, the entries stand for the messages one by one. -/
theorem recordEntries_forms {blobs : Option Store} {inlineLimit inlineLeft : Nat}
    (hos : ∀ o ∈ os, o.Ok c owner)
    (hall : (recordEntries blobs inlineLimit inlineLeft os).unrecorded = 0) :
    List.Forall₂ (Waiting c owner) os (recordEntries blobs inlineLimit inlineLeft os).entries := by
  induction os generalizing inlineLeft with
  | nil => exact .nil
  | cons o os ih =>
    obtain ⟨ho, hos⟩ := List.forall_mem_cons.mp hos
    have hform := recordEntry_form ho blobs inlineLimit inlineLeft
    unfold recordEntries at hall ⊢
    cases hrec : recordEntry blobs inlineLimit inlineLeft o with
    | left =>
      rw [hrec] at hall
      exact absurd hall (Nat.succ_ne_zero _)
    | entry st left | pending st raw =>
      rw [hrec] at hall hform
      exact .cons (hform _ rfl) (ih hos hall)

/-- With every payload written, the entries are in their final form. -/
theorem stashBlobs_forms {wroteAt : Nat} {put : Nat → Put} {i : Nat} {blobs : Blobs}
    {ps : List (StoredInflight × Option Bytes)}
    (h : List.Forall₂ (Waiting c owner) os ps)
    (hall : (stashBlobs c owner wroteAt put i blobs ps).dropped = 0) :
    List.Forall₂ (Form c owner) os (stashBlobs c owner wroteAt put i blobs ps).entries := by
  induction h generalizing i blobs with
  | nil => exact .nil
  | @cons o p os ps hp _ ih =>
    obtain ⟨st, _ | raw⟩ := p
    · exact .cons hp (ih hall)
    · unfold stashBlobs at hall ⊢
      cases hput : put i with
      | ok =>
        rw [hput] at hall
        exact .cons (hp _) (ih hall)
      | err stored =>
        rw [hput] at hall
        exact absurd hall (Nat.succ_ne_zero _)

/-! ## What is restored -/

/-- What restoring the entry for `o` gives: a message that owes the client the same, and past the
PUBREC holds no backlog message. -/
structure Returned (c : Codec) (owner : Bytes) (o o' : Outbound) : Prop where
  owed : o'.owed = o.owed
  ok : o'.Ok c owner
  settled : o'.awaitingPubcomp = true → o'.ackSubject = []

/-- What the entry `st` for `o` names can be read back: the payload from the bucket, or the copy
from the offline queue. -/
structure Readable (c : Codec) (owner : Bytes) (b : Broker) (o : Outbound) (st : StoredInflight) :
    Prop where
  payload : ∀ raw, encodeStorable o = some raw → st.blob = blobKeyFor c owner raw →
    b.blobs st.blob = some raw
  copy : o.awaitingPubcomp = false → o.queueSeq ≠ 0 →
    ∃ q, b.queue o.queueSeq = some q ∧ q.topic ≠ none ∧ q.msg.data = o.publish.payload

/-- A PUBLISH is read back from its encoding, and what is read has that encoding too. -/
theorem read_encoded {p : Wire.Publish} (hp : p.Legal)
    (hraw : (Wire.encode (.publish p)).toOption = some raw) :
    raw ≠ [] ∧ (Wire.read 0).run raw = .ok (.publish p.canon, []) ∧ p.canon.Legal ∧
      (Wire.encode (.publish p.canon)).toOption = some raw := by
  cases henc : Wire.encode (.publish p) with
  | error e =>
    rw [henc] at hraw
    contradiction
  | ok bs =>
    rw [henc] at hraw
    obtain rfl : bs = raw := Option.some.inj hraw
    obtain ⟨hbs, hlen⟩ := Wire.frame_of_encode (p := .publish p) hp henc
    have hread : (Wire.read 0).run bs = .ok (.publish p.canon, []) := by
      rw [hbs]
      exact (Wire.read_frame (p := .publish p) hp hlen (.inl rfl)).all
    obtain ⟨-, -, hcanon, -, -⟩ := Wire.read_takes 0 bs (.publish p.canon) [] hread
    have hlen' : (Wire.Packet.publish p.canon).bytes.length ≤ Wire.maxVarByteInt := by
      change p.canon.bytes.length ≤ _
      rw [p.bytes_canon]
      exact hlen
    have hframe : (Wire.Packet.publish p.canon).frame = (Wire.Packet.publish p).frame := by
      change [_] ++ (Wire.appendVarByteInt p.canon.bytes.length ++ p.canon.bytes) = _
      rw [p.bytes_canon]
      rfl
    refine ⟨?_, hread, hcanon, ?_⟩
    · rw [hbs]
      exact List.cons_ne_nil _ _
    · rw [Wire.encode_eq_frame (p := .publish p.canon) hcanon hlen', hframe, ← hbs]
      rfl

/-- The PUBLISH as `encodeStorable` encodes it. -/
def Outbound.sent (o : Outbound) : Wire.Publish := { o.publish with dup := false }

theorem Outbound.Ok.legal_sent (ho : o.Ok c owner) (h : o.awaitingPubcomp = false)
    (hseq : o.queueSeq = 0) : o.sent.Legal := by
  obtain ⟨hl, -, -⟩ := ho.publish h hseq
  exact { hl with dup := fun hdup => absurd hdup Bool.false_ne_true }

theorem Outbound.Ok.qos_ne_zero (ho : o.Ok c owner) : o.qos ≠ 0 := by
  rcases ho.qos with h | h <;> rw [h] <;> decide

/-- `restoreStoredPublish` gives the PUBLISH that was sent. -/
theorem restoreStoredPublish_sent (st : StoredInflight) (ho : o.Ok c owner)
    (h : o.awaitingPubcomp = false) (hseq : o.queueSeq = 0)
    (hraw : encodeStorable o = some raw) (now : Nat)
    (hid : st.id = o.packetID) (hqos : st.qos = o.qos) (hpub : st.pub = raw) :
    restoreStoredPublish now st = some
      { packetID := o.packetID
        qos := o.qos
        publish := o.sent.canon
        arrived := some (st.arrivedAt.getD now)
        expiry := st.exp.or o.sent.canon.properties.messageExpiryInterval } := by
  obtain ⟨-, hpid, hpqos⟩ := ho.publish h hseq
  obtain ⟨-, hread, -, -⟩ := read_encoded (ho.legal_sent h hseq) hraw
  have hq : o.sent.canon.qos ≠ 0 := fun h0 => ho.qos_ne_zero (hpqos.symm.trans h0)
  have hsame : { o.sent.canon with packetID := o.packetID, qos := o.qos, dup := false } =
      o.sent.canon := by
    have hcanon : o.sent.canon.packetID = o.packetID := (if_neg hq).trans hpid
    rw [← hcanon, ← hpqos]
    rfl
  rw [restoreStoredPublish, hpub, hread]
  dsimp only
  rw [if_neg hq, hid, hqos, hsame]

/-- The messages that carry their own PUBLISH. -/
theorem returned_sent (ho : o.Ok c owner) (h : o.awaitingPubcomp = false) (hseq : o.queueSeq = 0)
    (hraw : encodeStorable o = some raw) {key : Bytes}
    (hkey : key ≠ [] → key = blobKeyFor c owner raw) (arrived expiry blobAt) : Returned c owner o
      { packetID := o.packetID
        qos := o.qos
        publish := o.sent.canon
        arrived := arrived
        expiry := expiry
        blobKey := key
        blobAt := blobAt } := by
  obtain ⟨-, hpid, hpqos⟩ := ho.publish h hseq
  obtain ⟨-, -, hl, henc⟩ := read_encoded (ho.legal_sent h hseq) hraw
  have hq : o.sent.canon.qos ≠ 0 := fun h0 => ho.qos_ne_zero (hpqos.symm.trans h0)
  have hsubject : o.ackSubject = [] := by
    by_contra hne
    rcases ho.subject hne with h' | h'
    · rw [h] at h'
      contradiction
    · exact h' hseq
  refine ⟨?_, ⟨ho.packetID, ho.qos, ?_, ?_, ho.subIDs, ?_, ?_⟩, ?_⟩
  · simp only [Outbound.owed, h, Outbound.message, hsubject]
    rfl
  · intro h'
    contradiction
  · intro h'
    exact absurd rfl h'
  · intro _ _
    exact ⟨hl, (if_neg hq).trans hpid, hpqos⟩
  · intro _ _ hne
    exact ⟨raw, henc, hkey hne⟩
  · intro h'
    contradiction

/-- `restoreEntry` for an entry that carries its PUBLISH, or the key of it. -/
theorem restoreEntry_sent (ho : o.Ok c owner) (h : o.awaitingPubcomp = false)
    (hseq : o.queueSeq = 0) (hraw : encodeStorable o = some raw)
    (hid : st.id = o.packetID) (hqos : st.qos = o.qos) (hrel : st.rel = false)
    (hpub : storedPub c b st = some raw) (hkey : st.blob ≠ [] → st.blob = blobKeyFor c owner raw) :
    ∃ o', restoreEntry c b st = some o' ∧ Returned c owner o o' := by
  obtain ⟨hne, -, -, -⟩ := read_encoded (ho.legal_sent h hseq) hraw
  have hsent := restoreStoredPublish_sent { st with pub := raw } ho h hseq hraw b.now hid hqos rfl
  have hentry : restoreEntry c b st = (restoreStoredPublish b.now { st with pub := raw }).map
      fun o => { o with blobKey := st.blob, blobAt := st.blobAt } := by
    rw [restoreEntry, if_neg (hid ▸ ho.packetID), hrel, if_neg Bool.false_ne_true, hpub]
    dsimp only [Option.bind_eq_bind, Option.bind_some]
    rw [if_pos hne, Option.map_eq_bind]
    rfl
  rw [hentry, hsent]
  exact ⟨_, rfl, returned_sent ho h hseq hraw hkey _ _ st.blobAt⟩

theorem applyExpiry_subIDs (props : Wire.Properties) (arrived now : Nat) :
    (applyExpiry props arrived now).subscriptionIdentifiers = props.subscriptionIdentifiers := by
  unfold applyExpiry
  split
  · rfl
  · split <;> rfl

/-- The properties a queued message is restored with have the first Subscription Identifier. -/
theorem subIDs_restored {ids : List Int} (hids : ∀ id ∈ ids, id ≠ 0) (hst : st.subID = ids.headD 0)
    (q : QueueCopy) : (copyProperties st q).subscriptionIdentifiers = ids.head?.toList := by
  rw [copyProperties, hst]
  cases ids with
  | nil => rfl
  | cons id ids =>
    have hne : (id :: ids).headD 0 ≠ 0 := hids id List.mem_cons_self
    rw [if_pos hne]
    rfl

/-- The messages that have a copy in the offline queue. -/
theorem returned_copy (ho : o.Ok c owner) (h : o.awaitingPubcomp = false) (hseq : o.queueSeq ≠ 0)
    {q : QueueCopy} (hdata : q.msg.data = o.publish.payload) (now : Nat) (topic : Bytes)
    (hst : st =
      { id := o.packetID
        qos := o.qos
        seq := o.queueSeq
        ack := o.ackSubject
        retain := o.publish.retain
        subID := o.publish.properties.subscriptionIdentifiers.headD 0 }) :
    Returned c owner o (restoreCopy now st q topic) := by
  have hids : (applyExpiry (copyProperties st q) q.arrived now).subscriptionIdentifiers =
      o.publish.properties.subscriptionIdentifiers.head?.toList := by
    rw [applyExpiry_subIDs]
    exact subIDs_restored ho.subIDs (hst ▸ rfl) q
  have hhead : ∀ l : List Int, l.head?.toList.head? = l.head? := by
    rintro (_ | ⟨id, l⟩) <;> rfl
  subst hst
  refine ⟨?_, ⟨ho.packetID, ho.qos, ?_, fun _ => .inr hseq, ?_, ?_, ?_⟩, ?_⟩
  · simp only [Outbound.owed, h, Outbound.message, restoreCopy, hids, hdata, hhead]
  · intro h'
    contradiction
  · intro id hid
    simp only [restoreCopy, hids] at hid
    exact ho.subIDs id (List.mem_of_mem_head? (Option.mem_toList.mp hid))
  · intro _ h0
    exact absurd h0 hseq
  · intro _ h0
    exact absurd h0 hseq
  · intro h'
    contradiction

/-- Each form restores the message it stands for. -/
theorem Form.restored (hform : Form c owner o st) (ho : o.Ok c owner)
    (hread : Readable c owner b o st) :
    ∃ o', restoreEntry c b st = some o' ∧ Returned c owner o o' := by
  cases hform with
  | rel h =>
    refine ⟨_, (if_neg ho.packetID).trans (if_pos rfl), ?_,
      ⟨ho.packetID, ?_, ?_, ?_, ?_, ?_, ?_⟩, ?_⟩
    · simp only [Outbound.owed, h, ho.pubcomp h]
      rfl
    · exact .inr rfl
    · exact fun _ => rfl
    · exact fun _ => .inl rfl
    · exact List.forall_mem_nil _
    · intro h'
      contradiction
    · intro h'
      contradiction
    · exact fun _ => rfl
  | queued h hseq =>
    obtain ⟨q, hq, htopic, hdata⟩ := hread.copy h hseq
    obtain ⟨topic, htopic⟩ := Option.ne_none_iff_exists'.mp htopic
    refine ⟨_, ?_, returned_copy ho h hseq hdata b.now topic rfl⟩
    rw [restoreEntry, if_neg ho.packetID, if_neg Bool.false_ne_true]
    change restoreQueued b _ = _
    rw [restoreQueued, if_neg (not_or.mpr ⟨hseq, ho.qos_ne_zero⟩), hq]
    change (do let topic ← q.topic; some _) = _
    rw [htopic]
    rfl
  | @inlined h hseq raw hraw =>
    exact restoreEntry_sent ho h hseq hraw rfl rfl rfl rfl fun hne => absurd rfl hne
  | @payload h hseq raw hraw written =>
    have hpub : getBlob c b.blobs (blobKeyFor c owner raw) = some raw := by
      rw [getBlob, hread.payload raw hraw rfl, Option.bind_some, blobDigest_blobKeyFor, if_pos rfl]
    have hne : blobKeyFor c owner raw ≠ [] := by
      rw [blobKeyFor, Ne, List.append_eq_nil_iff, not_and]
      exact fun _ => List.cons_ne_nil _ _
    exact restoreEntry_sent ho h hseq hraw rfl rfl rfl ((if_pos hne).trans hpub) fun _ => rfl

variable {o' : Outbound}

theorem Returned.packetID (h : Returned c owner o o') : o'.packetID = o.packetID :=
  congrArg Owed.id h.owed

/-- The number of the send is the session's to give. -/
theorem Returned.sent (h : Returned c owner o o') (n : Nat) :
    Returned c owner o { o' with seq := n } :=
  ⟨h.owed, { h.ok with }, h.settled⟩

theorem session_acknowledge (r : Restored) (st : StoredInflight) :
    (r.acknowledge st).session = r.session := by
  unfold Restored.acknowledge
  split_ifs <;> rfl

/-- A backlog subject is acknowledged for an entry past its PUBREC alone. -/
theorem Form.acknowledge (hform : Form c owner o st) (r : Restored) :
    (r.acknowledge st).acked = r.acked ++ o.settled.toList := by
  have hother : o.awaitingPubcomp = false → o.settled.toList = [] := by
    intro h
    rw [Outbound.settled, if_neg (fun hand => Bool.false_ne_true (h.symm.trans hand.1))]
    rfl
  cases hform with
  | rel h =>
    rw [Restored.acknowledge, Outbound.settled, h]
    split_ifs with hack
    · rfl
    · exact (List.append_nil _).symm
  | queued h hseq | inlined h hseq hraw | payload h hseq hraw written =>
    exact (hother h ▸ List.append_nil r.acked).symm

/-- One entry: the message is put behind those restored before it. -/
theorem Form.step (hform : Form c owner o st) (ho : o.Ok c owner)
    (hread : Readable c owner b o st) (r : Restored)
    (hnew : ∀ p ∈ r.session.inflight, p.packetID ≠ o.packetID) :
    ∃ o', Returned c owner o o' ∧ o'.seq = r.session.sendSeq + 1 ∧
      (r.step c b st).session =
        { inflight := r.session.inflight ++ [o'], sendSeq := r.session.sendSeq + 1 } ∧
      (r.step c b st).acked = r.acked ++ o.settled.toList := by
  obtain ⟨o', ho', hret⟩ := hform.restored ho hread
  have hfresh : r.session.inflight.any (fun p => p.packetID = o'.packetID) = false := by
    rw [List.any_eq_false]
    intro p hp
    rw [hret.packetID, decide_eq_true_iff]
    exact hnew p hp
  refine ⟨_, hret.sent (r.session.sendSeq + 1), rfl, ?_, ?_⟩
  · rw [Restored.step, ho']
    dsimp only
    rw [session_acknowledge, Session.restoreInflight, hfresh, if_neg Bool.false_ne_true]
  · rw [Restored.step, ho']
    exact hform.acknowledge r

/-- All entries, in their order. -/
theorem restored_all {sts : List StoredInflight}
    (hforms : List.Forall₂ (fun o st => Form c owner o st ∧ Readable c owner b o st) os sts)
    (hos : ∀ o ∈ os, o.Ok c owner) (hids : (os.map Outbound.packetID).Nodup) (r : Restored)
    (hnew : ∀ p ∈ r.session.inflight, p.packetID ∉ os.map Outbound.packetID)
    (hsorted : r.session.inflight.Pairwise fun p q => p.seq < q.seq)
    (hbound : ∀ p ∈ r.session.inflight, p.seq ≤ r.session.sendSeq) :
    ∃ os', List.Forall₂ (Returned c owner) os os' ∧
      (sts.foldl (Restored.step c b) r).session.inflight = r.session.inflight ++ os' ∧
      (r.session.inflight ++ os').Pairwise (fun p q => p.seq < q.seq) ∧
      (sts.foldl (Restored.step c b) r).acked = r.acked ++ os.filterMap Outbound.settled := by
  induction hforms generalizing r with
  | nil => exact ⟨[], .nil, by simp, by simpa using hsorted, by simp⟩
  | @cons o st os sts hst _ ih =>
    obtain ⟨ho, hos⟩ := List.forall_mem_cons.mp hos
    rw [List.map_cons, List.nodup_cons] at hids
    have hfresh : ∀ p ∈ r.session.inflight, p.packetID ≠ o.packetID := by
      intro p hp heq
      exact hnew p hp (heq ▸ List.mem_cons_self)
    obtain ⟨o', hret, hseq, hsess, hacked⟩ := hst.1.step ho hst.2 r hfresh
    have hnew' : ∀ p ∈ (r.step c b st).session.inflight, p.packetID ∉ os.map Outbound.packetID := by
      rw [hsess]
      intro p hp
      rcases List.mem_append.mp hp with hp | hp
      · exact fun hmem => hnew p hp (List.mem_cons_of_mem _ hmem)
      · rw [List.mem_singleton.mp hp, hret.packetID]
        exact hids.1
    have hsorted' : (r.step c b st).session.inflight.Pairwise fun p q => p.seq < q.seq := by
      rw [hsess, List.pairwise_append]
      refine ⟨hsorted, List.pairwise_singleton _ _, ?_⟩
      intro p hp q hq
      rw [List.mem_singleton.mp hq, hseq]
      exact Nat.lt_succ_of_le (hbound p hp)
    have hbound' : ∀ p ∈ (r.step c b st).session.inflight,
        p.seq ≤ (r.step c b st).session.sendSeq := by
      rw [hsess]
      intro p hp
      rcases List.mem_append.mp hp with hp | hp
      · exact Nat.le_succ_of_le (hbound p hp)
      · exact Nat.le_of_eq (List.mem_singleton.mp hp ▸ hseq)
    obtain ⟨os', hall, hin, hsort, hack⟩ := ih hos hids.2 (r.step c b st) hnew' hsorted' hbound'
    refine ⟨o' :: os', .cons hret hall, ?_, ?_, ?_⟩
    · rw [List.foldl_cons, hin, hsess, List.append_assoc, List.singleton_append]
    · rw [hsess, List.append_assoc, List.singleton_append] at hsort
      exact hsort
    · rw [List.foldl_cons, hack, hacked, List.append_assoc]
      cases hsettled : o.settled with
      | none =>
        rw [List.filterMap_cons_none hsettled]
        rfl
      | some subject =>
        rw [List.filterMap_cons_some hsettled]
        rfl

end Forms

end Natsmqtt5.Restore
