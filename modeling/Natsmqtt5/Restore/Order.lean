import Natsmqtt5.Restore.Forms

/-!
# Resend order survives restarts

What a client is still owed, across any number of round trips of its session: the in-flight set is
recorded, the record is spilled and written, and another broker restores it. Where nothing is left
out on the way and what the record names can be read back, the client is owed the same, in the same
order. A message past its PUBREC is the client's, and what is owed for it is the PUBREL alone.

Results:
* `Trip.Kept.returned`: one round trip restores the messages in the order of sending.
* `resent_in_order`: any number of round trips.
* `released_payload_not_restored`: past the PUBREC the payload is not restored.
-/

namespace Natsmqtt5.Restore

open Spill

/-! ## Round trips -/

section Trips

variable {c : Codec} {clientID owner : Bytes} {t : Trip} {s : Session} {os os' : List Outbound}

/-- Nothing is lost on a round trip, and what the record names can be read back: the spilled chunks
(a key determines its chunk, and a chunk is read back from its text), the payloads and the copies in
the offline queue. -/
structure Trip.Kept (c : Codec) (clientID : Bytes) (t : Trip) (s : Session) : Prop where
  recorded : (inflightState t.walk (some t.store) s).unrecorded = 0
  stashed : (t.stashed c clientID s).dropped = 0
  spilled : (t.spilled c clientID s).lost = 0
  keeps : c.Keeps (blobOwner c clientID) (t.stashed c clientID s).entries t.known
    (t.stashed c clientID s).blobs
  chunks : ∀ key ∈ (t.spilled c clientID s).record.spill,
    t.broker.blobs key = (t.spilled c clientID s).blobs key
  payloads : ∀ o ∈ s.inflight, ∀ raw, encodeStorable o = some raw →
    blobKeyFor c (blobOwner c clientID) raw ∈
      (t.stashed c clientID s).entries.map StoredInflight.blob →
    t.broker.blobs (blobKeyFor c (blobOwner c clientID) raw) = some raw
  copies : ∀ o ∈ s.inflight, o.awaitingPubcomp = false → o.queueSeq ≠ 0 →
    ∃ q, t.broker.queue o.queueSeq = some q ∧ q.topic ≠ none ∧ q.msg.data = o.publish.payload

/-- The same for every round trip of a run. -/
def KeptAll (c : Codec) (clientID : Bytes) : List Trip → Session → Prop
  | [], _ => True
  | t :: ts, s => t.Kept c clientID s ∧ KeptAll c clientID ts (t.restored c clientID s).session

theorem mem_unacknowledged {w : Walk} {o : Outbound} (h : o ∈ s.unacknowledged w) :
    o ∈ s.inflight :=
  ((perm_bySeq _).trans (w.perm _)).subset h

theorem Session.Ok.ids_unacknowledged (hs : s.Ok c owner) (w : Walk) :
    ((s.unacknowledged w).map Outbound.packetID).Nodup := by
  have hperm : (s.unacknowledged w).Perm s.inflight := (perm_bySeq _).trans (w.perm _)
  exact (hperm.map Outbound.packetID).nodup_iff.mpr hs.ids

/-- The entries of the record are forms of the in-flight messages, in the order of sending. -/
theorem Trip.Kept.forms (h : t.Kept c clientID s) (hs : s.Ok c (blobOwner c clientID)) :
    List.Forall₂ (fun o st => Form c (blobOwner c clientID) o st ∧
        Readable c (blobOwner c clientID) t.broker o st)
      (s.unacknowledged t.walk) (t.stashed c clientID s).entries := by
  have hwaiting := recordEntries_forms (fun o ho => hs.entries o (mem_unacknowledged ho)) h.recorded
  have hforms := stashBlobs_forms hwaiting h.stashed
  rw [List.forall₂_iff_zip] at hforms ⊢
  refine ⟨hforms.1, fun {o st} hmem => ⟨hforms.2 hmem, ?_, ?_⟩⟩
  · intro raw hraw hkey
    obtain ⟨ho, hst⟩ := List.of_mem_zip hmem
    rw [hkey]
    exact h.payloads o (mem_unacknowledged ho) raw hraw (hkey ▸ List.mem_map_of_mem hst)
  · exact h.copies o (mem_unacknowledged (List.of_mem_zip hmem).1)

theorem loadSpill_congr {blobs blobs' : Blobs} {keys : List Bytes}
    (h : ∀ key ∈ keys, blobs key = blobs' key) :
    loadSpill c blobs keys = loadSpill c blobs' keys := by
  induction keys with
  | nil => rfl
  | cons key keys ih =>
    obtain ⟨hkey, hkeys⟩ := List.forall_mem_cons.mp h
    rw [loadSpill, loadSpill, ih hkeys, getBlob, getBlob, hkey]

/-- What is restored is what was recorded, wherever the entries were kept. -/
theorem Trip.Kept.restored_eq (h : t.Kept c clientID s) :
    t.restored c clientID s =
      (t.stashed c clientID s).entries.foldl (Restored.step c t.broker) {} := by
  have hout : spillRecordReusing c t.store.limits
      { t.record with clientID := clientID, inflight := (t.stashed c clientID s).entries }
      t.store.valueLimit t.known (t.stashed c clientID s).blobs t.putChunk =
        t.spilled c clientID s := rfl
  obtain ⟨-, -, hentries⟩ := spill_entries h.keeps hout
  rw [h.spilled, Nat.sub_zero, List.take_length] at hentries
  rw [Trip.restored, restoreSessionState, loadSpill_congr h.chunks, hentries]

/-- One round trip: the messages restored are those recorded, in the order of sending. -/
theorem Trip.Kept.returned (h : t.Kept c clientID s) (hs : s.Ok c (blobOwner c clientID)) :
    List.Forall₂ (Returned c (blobOwner c clientID)) (s.unacknowledged t.walk)
        (t.restored c clientID s).session.inflight ∧
      (t.restored c clientID s).session.inflight.Pairwise (fun p q => p.seq < q.seq) ∧
      (t.restored c clientID s).acked = (s.unacknowledged t.walk).filterMap Outbound.settled := by
  obtain ⟨os', hall, hin, hsorted, hacked⟩ := restored_all (h.forms hs)
    (fun o ho => hs.entries o (mem_unacknowledged ho)) (hs.ids_unacknowledged t.walk) {}
    (List.forall_mem_nil _) .nil (List.forall_mem_nil _)
  rw [h.restored_eq, hin, hacked]
  exact ⟨hall, hsorted, rfl⟩

theorem owed_returned (h : List.Forall₂ (Returned c owner) os os') :
    os'.map Outbound.owed = os.map Outbound.owed := by
  induction h with
  | nil => rfl
  | cons hret _ ih => rw [List.map_cons, List.map_cons, hret.owed, ih]

theorem returned_mem
    (h : List.Forall₂ (Returned c owner) os os') : ∀ o' ∈ os', ∃ o, Returned c owner o o' := by
  induction h with
  | nil => exact List.forall_mem_nil _
  | @cons o o' os os' hret _ ih => exact List.forall_mem_cons.mpr ⟨⟨o, hret⟩, ih⟩

/-- A session with the messages that were restored, in the order they were restored in. -/
theorem ok_returned {s' : Session} (hall : List.Forall₂ (Returned c owner) os s'.inflight)
    (hids : (os.map Outbound.packetID).Nodup)
    (hsorted : s'.inflight.Pairwise fun p q => p.seq < q.seq) : s'.Ok c owner := by
  have howed := congrArg (List.map Owed.id) (owed_returned hall)
  rw [List.map_map, List.map_map] at howed
  refine ⟨?_, ?_, ?_⟩
  · intro o' ho'
    obtain ⟨o, hret⟩ := returned_mem hall o' ho'
    exact hret.ok
  · have hsame : s'.inflight.map Outbound.packetID = os.map Outbound.packetID := howed
    rw [hsame]
    exact hids
  · exact List.pairwise_map.mpr (hsorted.imp fun hlt => Nat.ne_of_lt hlt)

theorem Trip.Kept.ok (h : t.Kept c clientID s) (hs : s.Ok c (blobOwner c clientID)) :
    (t.restored c clientID s).session.Ok c (blobOwner c clientID) := by
  obtain ⟨hall, hsorted, -⟩ := h.returned hs
  exact ok_returned hall (hs.ids_unacknowledged t.walk) hsorted

/-- An entry past its PUBREC holds no backlog message once it has been restored. -/
theorem Trip.Kept.settled (h : t.Kept c clientID s) (hs : s.Ok c (blobOwner c clientID)) :
    ∀ o ∈ (t.restored c clientID s).session.inflight,
      o.awaitingPubcomp = true → o.ackSubject = [] := by
  obtain ⟨hall, -, -⟩ := h.returned hs
  intro o' ho'
  obtain ⟨o, hret⟩ := returned_mem hall o' ho'
  exact hret.settled

/-- The messages restored, however the map is walked. -/
theorem Trip.Kept.unacknowledged (h : t.Kept c clientID s) (hs : s.Ok c (blobOwner c clientID))
    (w w' : Walk) : ((t.restored c clientID s).session.unacknowledged w).map Outbound.owed =
      (s.unacknowledged w').map Outbound.owed := by
  obtain ⟨hall, hsorted, -⟩ := h.returned hs
  have hself : (t.restored c clientID s).session.unacknowledged w =
      (t.restored c clientID s).session.inflight :=
    bySeq_eq (w.perm _) (h.ok hs).seqs (hsorted.imp Nat.le_of_lt)
  rw [hself, owed_returned hall, hs.unacknowledged_eq t.walk w']

theorem runTrips_cons (ts : List Trip) : runTrips c clientID (t :: ts) s =
    ((runTrips c clientID ts (t.restored c clientID s).session).1,
      (t.restored c clientID s).acked ++
        (runTrips c clientID ts (t.restored c clientID s).session).2) := rfl

/-- No entry is left whose group has to be told. -/
theorem runTrips_settled {ts : List Trip} (hs : s.Ok c (blobOwner c clientID))
    (hkept : KeptAll c clientID ts s)
    (hnone : ∀ o ∈ s.inflight, o.awaitingPubcomp = true → o.ackSubject = []) :
    (∀ o ∈ (runTrips c clientID ts s).1.inflight, o.awaitingPubcomp = true → o.ackSubject = []) ∧
      (runTrips c clientID ts s).2 = [] := by
  induction ts generalizing s with
  | nil => exact ⟨hnone, rfl⟩
  | cons t ts ih =>
    obtain ⟨h, hkept⟩ := hkept
    obtain ⟨hin, hacked⟩ := ih (h.ok hs) hkept (h.settled hs)
    have hnow : (t.restored c clientID s).acked = [] := by
      rw [(h.returned hs).2.2, List.filterMap_eq_nil_iff]
      intro o ho
      exact if_neg fun hand => hand.2 (hnone o (mem_unacknowledged ho) hand.1)
    rw [runTrips_cons, hnow, hacked]
    exact ⟨hin, rfl⟩

/-- After any number of round trips that lose nothing the client is owed the same, in the order it
was first sent: the identifiers, the Quality of Service, and for a message that is not past its
PUBREC the payload, the RETAIN flag, the first Subscription Identifier and the backlog subject. The
backlog subjects of the others are acknowledged, each once, and no longer held. -/
theorem resent_in_order (c : Codec) (clientID : Bytes) (ts : List Trip) (s : Session)
    (hs : s.Ok c (blobOwner c clientID)) (hkept : KeptAll c clientID ts s) (w w' : Walk) :
    ((runTrips c clientID ts s).1.unacknowledged w).map Outbound.owed =
      (s.unacknowledged w').map Outbound.owed ∧
    (ts ≠ [] →
      (∀ o ∈ (runTrips c clientID ts s).1.inflight, o.awaitingPubcomp = true → o.ackSubject = []) ∧
      (runTrips c clientID ts s).2 = (s.unacknowledged w').filterMap Outbound.settled) := by
  constructor
  · induction ts generalizing s w' with
    | nil => rw [runTrips, hs.unacknowledged_eq w w']
    | cons t ts ih =>
      obtain ⟨h, hkept⟩ := hkept
      have hrest := ih (t.restored c clientID s).session (h.ok hs) hkept w'
      rw [runTrips_cons, ← h.unacknowledged hs w' w']
      exact hrest
  · intro hne
    cases ts with
    | nil => exact absurd rfl hne
    | cons t ts =>
      obtain ⟨h, hkept⟩ := hkept
      obtain ⟨hin, hacked⟩ := runTrips_settled (h.ok hs) hkept (h.settled hs)
      rw [runTrips_cons, hacked, List.append_nil, (h.returned hs).2.2,
        hs.unacknowledged_eq t.walk w']
      exact ⟨hin, rfl⟩

end Trips

/-! ## Examples of round trips -/

/-- The map walked in the order of the list. -/
def listed : Walk := ⟨id, fun _ => .refl _⟩

/-- A round trip of a record with the entry `e`, with a copy at 7 in the queue. -/
def tripOf (c : Codec) (e : StoredInflight) : Trip where
  walk := listed
  store := ⟨120, ⟨170, 0⟩, fun _ => false⟩
  record := recordOf [e]
  before _ := none
  known := []
  wroteAt := 0
  putPayload _ := .ok
  putChunk _ := .ok
  broker :=
    { blobs := fun _ => some (chunkText c [e])
      queue := fun n => if n = 7 then some ⟨some [97], ⟨[5], []⟩, 0⟩ else none
      now := 0 }

/-- The record of that entry as it is written. -/
def spilledOf (c : Codec) (e : StoredInflight) : Spilled :=
  spillRecordReusing c ⟨170, 0⟩ (recordOf [e]) 120 [] (fun _ => none) fun _ => .ok

theorem tripOf_kept {c : Codec} {e : StoredInflight} {s : Session} (hblob : e.blob = [])
    (hkeeps : c.Keeps (blobOwner c []) [e] [] fun _ => none)
    (hstate : inflightState listed (some (tripOf c e).store) s = ⟨[(e, none)], 0⟩)
    (hlost : (spilledOf c e).lost = 0)
    (hchunks : ∀ key ∈ (spilledOf c e).record.spill,
      some (chunkText c [e]) = (spilledOf c e).blobs key)
    (hcopies : ∀ o ∈ s.inflight, o.awaitingPubcomp = false → o.queueSeq ≠ 0 →
      o.queueSeq = 7 ∧ o.publish.payload = [5]) : (tripOf c e).Kept c [] s := by
  have hstashed : (tripOf c e).stashed c [] s = { entries := [e], blobs := fun _ => none } := by
    change stashBlobs _ _ _ _ _ _ (inflightState listed (some (tripOf c e).store) s).entries = _
    rw [hstate]
    rfl
  have hspilled : (tripOf c e).spilled c [] s = spilledOf c e := by
    rw [Trip.spilled, hstashed]
    rfl
  refine ⟨?_, ?_, ?_, ?_, ?_, ?_, ?_⟩
  · exact congrArg InflightState.unrecorded hstate
  · rw [hstashed]
  · rw [hspilled, hlost]
  · rw [hstashed]
    exact hkeeps
  · rw [hspilled]
    exact hchunks
  · intro o _ raw _ hkey
    rw [hstashed, List.map_singleton, hblob, List.mem_singleton] at hkey
    exact absurd hkey (List.append_ne_nil_of_right_ne_nil _ (List.cons_ne_nil _ _))
  · intro o ho hpub hseq
    obtain ⟨h7, hpayload⟩ := hcopies o ho hpub hseq
    rw [h7, hpayload]
    exact ⟨_, rfl, Option.some_ne_none _, rfl⟩

/-- A session with the message of a backlog that `backlogEntry` is the entry of. -/
def backlogSession : Session where
  inflight :=
    [{ packetID := 1
       qos := 1
       seq := 4
       queueSeq := 7
       ackSubject := backlogEntry.ack
       publish := ⟨false, 1, true, [97], 1, { subscriptionIdentifiers := [3] }, [5]⟩ }]
  sendSeq := 4

theorem backlogSession_ok (c : Codec) (owner : Bytes) : backlogSession.Ok c owner := by
  refine ⟨?_, by decide, by decide⟩
  rw [backlogSession, List.forall_mem_singleton]
  refine ⟨by decide, by decide, ?_, fun _ => .inr (by decide), by decide, ?_, ?_⟩
  · intro h
    contradiction
  · intro _ h
    contradiction
  · intro _ h
    contradiction

/-- The message, spilled and restored twice. -/
theorem resent_in_order_twice :
    ((runTrips backlogCodec [] [tripOf backlogCodec backlogEntry, tripOf backlogCodec backlogEntry]
      backlogSession).1.unacknowledged listed).map Outbound.owed =
      [⟨1, 1, some ⟨[5], true, some 3, backlogEntry.ack⟩⟩] := by
  have hkeeps : backlogCodec.Keeps (blobOwner backlogCodec []) [backlogEntry] [] fun _ => none :=
    (backlogCodec_keeps _).fewer ⟨[], [_], rfl⟩
  have hlost : (spilledOf backlogCodec backlogEntry).lost = 0 := by decide +kernel
  have hchunks : ∀ key ∈ (spilledOf backlogCodec backlogEntry).record.spill,
      some (chunkText backlogCodec [backlogEntry]) =
        (spilledOf backlogCodec backlogEntry).blobs key := by
    decide +kernel
  have hkept : KeptAll backlogCodec []
      [tripOf backlogCodec backlogEntry, tripOf backlogCodec backlogEntry] backlogSession :=
    ⟨tripOf_kept rfl hkeeps (by decide +kernel) hlost hchunks (by decide +kernel),
      tripOf_kept rfl hkeeps (by decide +kernel) hlost hchunks (by decide +kernel), trivial⟩
  exact (resent_in_order _ _ _ _ (backlogSession_ok _ _) hkept listed listed).1.trans (by decide)

/-- A session with the message past its PUBREC that `releasedEntry` is the entry of. -/
def releasedSession : Session where
  inflight :=
    [{ packetID := 2
       qos := 2
       awaitingPubcomp := true
       seq := 4
       publish := ⟨false, 2, true, [97], 2, {}, [5]⟩ }]
  sendSeq := 4

theorem releasedSession_ok (c : Codec) (owner : Bytes) : releasedSession.Ok c owner := by
  refine ⟨?_, by decide, by decide⟩
  rw [releasedSession, List.forall_mem_singleton]
  refine ⟨by decide, by decide, fun _ => rfl, fun _ => .inl rfl, by decide, ?_, ?_⟩
  · intro h
    contradiction
  · intro h
    contradiction

/-- Past the PUBREC the payload is not kept: the client has the message, and the PUBREL is all that
is owed. -/
theorem released_payload_not_restored :
    releasedSession.Ok backlogCodec (blobOwner backlogCodec []) ∧
    KeptAll backlogCodec [] [tripOf backlogCodec releasedEntry] releasedSession ∧
    ((runTrips backlogCodec [] [tripOf backlogCodec releasedEntry]
      releasedSession).1.unacknowledged listed).map (fun o => o.publish.payload) = [[]] ∧
    (releasedSession.unacknowledged listed).map (fun o => o.publish.payload) = [[5]] := by
  refine ⟨releasedSession_ok _ _, ⟨?_, trivial⟩, by decide +kernel, by decide⟩
  exact tripOf_kept rfl ((backlogCodec_keeps _).fewer ⟨[_], [], rfl⟩) (by decide +kernel)
    (by decide +kernel) (by decide +kernel) (by decide +kernel)

end Natsmqtt5.Restore
