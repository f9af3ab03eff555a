import Mathlib.Data.List.Sort
import Natsmqtt5.Spill.Chunks
import Natsmqtt5.Wire.Stable

/-!
# Recording and restoring the in-flight set

`inflightState` and `stashBlobs` (`session.go`), which turn the unacknowledged messages of a session
into entries of its record, and `restoreSessionState` with `restoreEntry` and `restoreStoredPublish`
(`restore.go`), which turn the entries back. Between the two the record is spilled
(`Spill/Chunks.lean`). An entry has one of five forms: a PUBREL that is owed, the sequence of a copy
in the offline queue, the PUBLISH itself, the key of a PUBLISH already in the payload bucket, or one
that is written there before the record.

The map of in-flight entries is a list of them; the order it is walked in is not the list's. A time
is a number of nanoseconds and the zero time is `none`. What a restored session has besides
(received QoS 2 identifiers, withdrawn identifiers, spill keys) is left out, and so is the note of a
new payload's key in the live entry.
-/

namespace Natsmqtt5.Restore

open Spill

/-! ## The session -/

/-- `outbound`, what recording and restoring read and write of it. -/
structure Outbound where
  packetID : UInt16
  qos : UInt8
  msgID : Bytes := []
  awaitingPubcomp : Bool := false
  publish : Wire.Publish
  arrived : Option Nat := none
  expiry : Option UInt32 := none
  seq : Nat := 0
  queueSeq : Nat := 0
  blobKey : Bytes := []
  blobAt : Option Nat := none
  ackSubject : Bytes := []
  deriving DecidableEq

/-- `session`: the in-flight set and the count of sends. -/
structure Session where
  inflight : List Outbound := []
  sendSeq : Nat := 0

/-- The entries by the order they were sent in. -/
def bySeq (entries : List Outbound) : List Outbound :=
  entries.insertionSort fun a b => a.seq ≤ b.seq

/-- An order in which the map is walked. -/
structure Walk where
  order : List Outbound → List Outbound
  perm : ∀ entries, (order entries).Perm entries

def Session.unacknowledged (w : Walk) (s : Session) : List Outbound := bySeq (w.order s.inflight)

/-! ## Recording -/

/-- `sessionStore`, what recording reads of it: the size of a value, the limits of chunks and
payloads, and which payloads are due to be written again. -/
structure Store where
  valueLimit : Nat
  limits : Limits
  blobStale : Option Nat → Bool

def maxStoredPublish : Nat := 16384

/-- `encodeStorable`: DUP is the resend's to set. -/
def encodeStorable (o : Outbound) : Option Bytes :=
  (Wire.encode (.publish { o.publish with dup := false })).toOption

/-- What becomes of an in-flight message: it is left out, or recorded with what is left of the room
for inline PUBLISH packets, or recorded once its payload is written. -/
inductive Recorded
  | left
  | entry (st : StoredInflight) (inlineLeft : Nat)
  | pending (st : StoredInflight) (raw : Bytes)

/-- `len(raw) > blobs.blobLimit()` and the two cases after it. -/
def recordBlob (blobs : Option Store) (o : Outbound) (st : StoredInflight) (raw : Bytes)
    (inlineLeft : Nat) : Recorded :=
  match blobs with
  | none => .left
  | some store =>
    if store.limits.chunkMax < raw.length then .left
    else if o.blobKey ≠ [] ∧ store.blobStale o.blobAt = false then
      .entry { st with blob := o.blobKey, blobAt := o.blobAt } inlineLeft
    else .pending st raw

/-- The `switch` of `inflightState` for one message. -/
def recordEntry (blobs : Option Store) (inlineLimit inlineLeft : Nat) (o : Outbound) : Recorded :=
  let st : StoredInflight := { id := o.packetID, qos := o.qos }
  if o.awaitingPubcomp then .entry { st with rel := true, ack := o.ackSubject } inlineLeft
  else if o.queueSeq ≠ 0 then
    .entry { st with
      seq := o.queueSeq
      ack := o.ackSubject
      retain := o.publish.retain
      subID := o.publish.properties.subscriptionIdentifiers.headD 0 } inlineLeft
  else
    match encodeStorable o with
    | none => .left
    | some raw =>
      let st := { st with arrivedAt := o.arrived, exp := o.expiry }
      if raw.length ≤ inlineLimit ∧ raw.length ≤ inlineLeft then
        .entry { st with pub := raw } (inlineLeft - raw.length)
      else recordBlob blobs o st raw inlineLeft

/-- What `inflightState` returns: the entries, each with the payload that is still to be written for
it, and how many messages are left out. -/
structure InflightState where
  entries : List (StoredInflight × Option Bytes) := []
  unrecorded : Nat := 0
  deriving DecidableEq

/-- The loop of `inflightState`. -/
def recordEntries (blobs : Option Store) (inlineLimit : Nat) :
    (inlineLeft : Nat) → List Outbound → InflightState
  | _, [] => {}
  | inlineLeft, o :: os =>
    match recordEntry blobs inlineLimit inlineLeft o with
    | .left =>
      let r := recordEntries blobs inlineLimit inlineLeft os
      { r with unrecorded := r.unrecorded + 1 }
    | .entry st inlineLeft =>
      let r := recordEntries blobs inlineLimit inlineLeft os
      { r with entries := (st, none) :: r.entries }
    | .pending st raw =>
      let r := recordEntries blobs inlineLimit inlineLeft os
      { r with entries := (st, some raw) :: r.entries }

/-- `inflightState`: without a store the room for inline packets is the largest `int`. -/
def inflightState (w : Walk) (blobs : Option Store) (s : Session) : InflightState :=
  match blobs with
  | some store =>
    recordEntries blobs (min maxStoredPublish (store.valueLimit / 4)) (store.valueLimit / 4)
      (bySeq (w.order s.inflight))
  | none => recordEntries none maxStoredPublish (2 ^ 63 - 1) (bySeq (w.order s.inflight))

/-- What `stashBlobs` leaves: the entries that are kept, how many are not, and the bucket. -/
structure Stashed where
  entries : List StoredInflight := []
  dropped : Nat := 0
  blobs : Blobs

/-- `stashBlobs`: `put i` is how the write for the entry `i` ends. -/
def stashBlobs (c : Codec) (owner : Bytes) (wroteAt : Nat) (put : Nat → Put) :
    Nat → Blobs → List (StoredInflight × Option Bytes) → Stashed
  | _, blobs, [] => { blobs }
  | i, blobs, (st, none) :: rest =>
    let r := stashBlobs c owner wroteAt put (i + 1) blobs rest
    { r with entries := st :: r.entries }
  | i, blobs, (st, some raw) :: rest =>
    let key := blobKeyFor c owner raw
    match put i with
    | .ok =>
      let r := stashBlobs c owner wroteAt put (i + 1) (blobs.put key raw) rest
      { r with entries := { st with blob := key, blobAt := some wroteAt } :: r.entries }
    | .err stored =>
      let r := stashBlobs c owner wroteAt put (i + 1)
        (if stored then blobs.put key raw else blobs) rest
      { r with dropped := r.dropped + 1 }

/-! ## Restoring -/

/-- A copy as `offlineQueue.message` reads it: the name its subject stands for (none for a subject
that is not under the prefix), the message, and when the broker took it in. -/
structure QueueCopy where
  topic : Option Bytes
  msg : Msg
  arrived : Nat

/-- The broker that restores: its bucket, its offline queue and the time. -/
structure Broker where
  blobs : Blobs
  queue : Nat → Option QueueCopy
  now : Nat

/-- `remainingExpiry`, with the time since `arrived` in nanoseconds. -/
def remainingExpiry (interval : UInt32) (arrived now : Nat) : UInt32 × Bool :=
  let waitedSeconds := (now - arrived) / 1000000000
  if waitedSeconds = 0 then (interval, false)
  else if interval.toNat ≤ waitedSeconds then (0, true)
  else (UInt32.ofNat (interval.toNat - waitedSeconds), false)

/-- `applyExpiry` on the properties of a delivery. -/
def applyExpiry (props : Wire.Properties) (arrived now : Nat) : Wire.Properties :=
  match props.messageExpiryInterval with
  | none => props
  | some interval =>
    match remainingExpiry interval arrived now with
    | (_, true) => props
    | (remaining, false) => { props with messageExpiryInterval := some remaining }

def restoreStoredPublish (now : Nat) (st : StoredInflight) : Option Outbound :=
  match (Wire.read 0).run st.pub with
  | .ok (.publish pub, _) =>
    if pub.qos = 0 then none
    else some
      { packetID := st.id
        qos := st.qos
        publish := { pub with packetID := st.id, qos := st.qos, dup := false }
        arrived := some (st.arrivedAt.getD now)
        expiry := st.exp.or pub.properties.messageExpiryInterval }
  | _ => none

/-- The properties of a copy, with the Subscription Identifier of the entry. -/
def copyProperties (st : StoredInflight) (q : QueueCopy) : Wire.Properties :=
  let props := (fromNATS q.msg).props
  if st.subID ≠ 0 then { props with subscriptionIdentifiers := [st.subID] } else props

/-- The message an entry stands for, from its copy in the offline queue. -/
def restoreCopy (now : Nat) (st : StoredInflight) (q : QueueCopy) (topic : Bytes) : Outbound :=
  { packetID := st.id
    qos := st.qos
    publish :=
      { dup := false
        qos := st.qos
        retain := st.retain
        topic := topic
        packetID := st.id
        properties := applyExpiry (copyProperties st q) q.arrived now
        payload := q.msg.data }
    arrived := some q.arrived
    expiry := (copyProperties st q).messageExpiryInterval
    queueSeq := st.seq
    ackSubject := st.ack
    msgID := messageID q.msg }

/-- The end of `restoreEntry`: the message is read from the offline queue. -/
def restoreQueued (b : Broker) (st : StoredInflight) : Option Outbound :=
  if st.seq = 0 ∨ st.qos = 0 then none
  else do
    let q ← b.queue st.seq
    let topic ← q.topic
    some (restoreCopy b.now st q topic)

/-- `&packet.Publish{}`. -/
def emptyPublish : Wire.Publish := ⟨false, 0, false, [], 0, {}, []⟩

/-- The PUBLISH an entry carries, from the payload bucket where it names one there. -/
def storedPub (c : Codec) (b : Broker) (st : StoredInflight) : Option Bytes :=
  if st.blob ≠ [] then getBlob c b.blobs st.blob else some st.pub

def restoreEntry (c : Codec) (b : Broker) (st : StoredInflight) : Option Outbound :=
  if st.id = 0 then none
  else if st.rel then
    some { packetID := st.id, qos := 2, awaitingPubcomp := true, publish := emptyPublish }
  else do
    let pub ← storedPub c b st
    if pub ≠ [] then
      let o ← restoreStoredPublish b.now { st with pub }
      some { o with blobKey := st.blob, blobAt := st.blobAt }
    else restoreQueued b st

def Session.restoreInflight (s : Session) (o : Outbound) : Session :=
  if s.inflight.any (fun p => p.packetID = o.packetID) then s
  else
    { inflight := s.inflight ++ [{ o with seq := s.sendSeq + 1 }]
      sendSeq := s.sendSeq + 1 }

/-- A session that is being restored, the backlog subjects acknowledged and handed back, the ids
noted as delivered, and how many entries could not be restored. -/
structure Restored where
  session : Session := {}
  acked : List Bytes := []
  handedBack : List Bytes := []
  noted : List (Bytes × Nat) := []
  lost : Nat := 0

/-- The message of an entry past its PUBREC is the client's, which the group is told. -/
def Restored.acknowledge (r : Restored) (st : StoredInflight) : Restored :=
  if st.rel ∧ st.ack ≠ [] then { r with acked := r.acked ++ [st.ack] } else r

/-- The round of `restoreSessionState` for one entry. -/
def Restored.step (c : Codec) (b : Broker) (r : Restored) (st : StoredInflight) : Restored :=
  let r := r.acknowledge st
  match restoreEntry c b st with
  | none =>
    { r with
      lost := r.lost + 1
      handedBack := if st.ack ≠ [] then r.handedBack ++ [st.ack] else r.handedBack }
  | some o =>
    { r with
      session := r.session.restoreInflight o
      noted := if o.msgID ≠ [] then r.noted ++ [(o.msgID, o.queueSeq)] else r.noted }

/-- `restoreSessionState`, for the in-flight entries a claim found. -/
def restoreSessionState (c : Codec) (b : Broker) (inflight : List StoredInflight)
    (spill : List Bytes) : Restored :=
  (inflight ++ (loadSpill c b.blobs spill).1).foldl (Restored.step c b) {}

/-! ## A round trip -/

/-- One record of the session and the broker that restores it. The limits, what is in the bucket,
the keys that are known and how the writes end may be other ones each time. -/
structure Trip where
  walk : Walk
  store : Store
  record : SessionRecord
  before : Blobs
  known : List Bytes
  wroteAt : Nat
  putPayload : Nat → Put
  putChunk : Nat → Put
  broker : Broker

section Trips

variable (c : Codec) (clientID : Bytes)

/-- The entries of the record. -/
def Trip.stashed (t : Trip) (s : Session) : Stashed :=
  stashBlobs c (blobOwner c clientID) t.wroteAt t.putPayload 0 t.before
    (inflightState t.walk (some t.store) s).entries

/-- The record as it is written. -/
def Trip.spilled (t : Trip) (s : Session) : Spilled :=
  spillRecordReusing c t.store.limits
    { t.record with clientID := clientID, inflight := (t.stashed c clientID s).entries }
    t.store.valueLimit t.known (t.stashed c clientID s).blobs t.putChunk

/-- The session as the next broker has it. -/
def Trip.restored (t : Trip) (s : Session) : Restored :=
  restoreSessionState c t.broker (t.spilled c clientID s).record.inflight
    (t.spilled c clientID s).record.spill

/-- Any number of round trips, with the backlog subjects acknowledged on the way. -/
def runTrips : List Trip → Session → Session × List Bytes
  | [], s => (s, [])
  | t :: ts, s =>
    let r := t.restored c clientID s
    let p := runTrips ts r.session
    (p.1, r.acked ++ p.2)

end Trips

end Natsmqtt5.Restore
