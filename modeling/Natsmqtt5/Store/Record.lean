import Natsmqtt5.Packet

/-!
# The session record

`sessionRecord` (`sessionstore.go`) and the functions that make one from another: what a claim
writes and keeps back for the handshake (`claimRecord`, `createFresh`), and what the writes of a
served session fold into it (`snapshot`, the checkpoint, the release and the late copy). They are
pure here; when they run against the bucket is for the systems that use them.

Times are `Nat`, and the zero time is `none`. A sequence of 0 is no sequence, as in the source. An
in-flight entry keeps the sequence of its queue copy; entries that carry their own PUBLISH, the
identity that attached and the version are left out. `Spill` names values of the payload bucket; the
record here has the entries those values hold.
-/

namespace Natsmqtt5.Store

structure StoredSubscription where
  filter : String
  grantedQoS : QoS := .qos2
  sinceSeq : Nat := 0
  deriving DecidableEq

/-- `storedDelivered`: a delivered message's id and the sequence of its queue copy. -/
structure StoredDelivered where
  id : Nat
  seq : Nat
  deriving DecidableEq

/-- `storedInflight`: an unacknowledged message. `rel` is set once the PUBREL has gone out. -/
structure StoredInflight where
  id : PacketID
  qos : QoS := .qos2
  rel : Bool := false
  seq : Nat := 0
  deriving DecidableEq

structure StoredWithdrawn where
  id : PacketID
  owed : AckType
  age : Nat := 0
  deriving DecidableEq

/-- Where a replay starts. -/
structure Away where
  awayAt : Option Nat := none
  awayFromSeq : Nat := 0
  awayLateSeq : Nat := 0
  delivered : List StoredDelivered := []
  deliveredSince : Option Nat := none
  replayCursor : Nat := 0
  replayHoles : List StoredDelivered := []
  deriving DecidableEq

/-- `sessionRecord`. -/
structure Record where
  owner : Nat
  attached : Bool
  subscriptions : List StoredSubscription := []
  expirySeconds : Nat := 0
  expiresAt : Option Nat := none
  away : Away := {}
  inflight : List StoredInflight := []
  receivedQoS2 : List PacketID := []
  withdrawn : List StoredWithdrawn := []
  spill : List StoredInflight := []
  deriving DecidableEq

/-- The fields of `sessionRecord` whose names end in Was: what the claim found, for the handshake
to restore from. -/
structure Was where
  away : Away := {}
  inflight : List StoredInflight := []
  receivedQoS2 : List PacketID := []
  withdrawn : List StoredWithdrawn := []
  spill : List StoredInflight := []
  deriving DecidableEq

/-- `resumable`: an attached record always, a released one until it expires. -/
def Record.resumable (r : Record) (now : Nat) : Bool :=
  if r.attached then true
  else
    match r.expiresAt with
    | none => true
    | some t => decide (now < t)

def neverExpires : Nat := 0xFFFFFFFF

def expiryDeadline (now seconds : Nat) : Option Nat :=
  if seconds = neverExpires then none else some (now + seconds)

/-! ## What a claim writes -/

def createFresh (owner now : Nat) : Record where
  owner := owner
  attached := true
  away := { awayAt := some now }

/-- What the claim knows besides the record. -/
structure Claim where
  owner : Nat
  now : Nat
  /-- `ownerAlive` of the previous owner. -/
  ownerAlive : Bool := false
  queueMaxAge : Nat := 0
  cleanStart : Bool := false
  deriving DecidableEq

/-- The record is another instance's, and that instance does not answer. -/
def ownerDead (q : Claim) (r : Record) : Bool :=
  (r.attached && decide (r.owner ≠ q.owner)) && !q.ownerAlive

/-- The position of a live session that is taken over is not one to replay from. -/
def keepAway (q : Claim) (r : Record) : Away :=
  if r.attached && decide (r.owner ≠ q.owner) && !ownerDead q r then {} else r.away

/-- A record with no position at all, of an instance that was killed: anything in the queue may be
owed. -/
def legacy (q : Claim) (r : Record) : Bool :=
  ownerDead q r && (keepAway q r).awayAt.isNone && decide (0 < q.queueMaxAge)

/-- `claim`, once the record is resumable: what it found (`Was`), and the record it writes. The
position stays in the record; the in-flight entries, the received identifiers and the withdrawn
ones do not. -/
def claimRecord (q : Claim) (r : Record) : Record × Was :=
  let found := keepAway q r
  let awayWas := if legacy q r then some (q.now - q.queueMaxAge) else found.awayAt
  let awayAt :=
    if legacy q r then awayWas
    else if found.awayAt.isNone then some q.now
    else found.awayAt
  ({ r with
      owner := q.owner
      attached := true
      expiresAt := none
      away := { found with awayAt := awayAt }
      inflight := []
      receivedQoS2 := []
      withdrawn := []
      spill := [] },
   { away := { found with awayAt := awayWas }
     inflight := r.inflight
     receivedQoS2 := r.receivedQoS2
     withdrawn := r.withdrawn
     spill := r.spill })

/-! ## What a served session writes -/

/-- What a session folds into its record. -/
structure Live where
  subscriptions : List StoredSubscription := []
  expirySeconds : Nat := 0
  withdrawn : List StoredWithdrawn := []
  /-- `inflightState`: the entries in the order they were sent, and the identifiers. -/
  inflight : List StoredInflight := []
  receivedQoS2 : List PacketID := []
  /-- The replay position: of the connection for a checkpoint, of the session for a release. -/
  away : Away := {}
  deriving DecidableEq

/-- `snapshot`: the subscription set, the expiry and the withdrawn identifiers. -/
def snapshotRecord (r : Record) (l : Live) : Record :=
  { r with
    subscriptions := l.subscriptions
    expirySeconds := l.expirySeconds
    withdrawn := l.withdrawn }

/-- `spillInto`: the entries that fit, and those that go beside the record. -/
def spillInto (room : Nat) (l : Live) (r : Record) : Record :=
  { r with inflight := l.inflight.take room, spill := l.inflight.drop room }

/-- The record a checkpoint writes. With the queue off there is no position to say. -/
def checkpointRecord (queue : Bool) (room : Nat) (r : Record) (l : Live) : Record :=
  let r := snapshotRecord r l
  let r := if queue then { r with away := l.away } else r
  { spillInto room l r with receivedQoS2 := l.receivedQoS2 }

/-- The record a release writes; one with no Session Expiry Interval is deleted instead. -/
def releaseRecord (room now : Nat) (r : Record) (l : Live) : Option Record :=
  let r := { snapshotRecord r l with away := l.away, receivedQoS2 := l.receivedQoS2 }
  if r.expirySeconds = 0 then none
  else
    some { spillInto room l r with
      attached := false
      expiresAt := expiryDeadline now r.expirySeconds
      away := { l.away with awayAt := some now } }

/-- `lateRecord`: a released record with the position of a late copy folded in. -/
def lateRecord (r : Record) (l : Live) : Record :=
  { r with away := { l.away with awayAt := r.away.awayAt } }

/-! ## What the writes keep -/

@[simp] theorem claimRecord_subscriptions (q : Claim) (r : Record) :
    (claimRecord q r).1.subscriptions = r.subscriptions := rfl

end Natsmqtt5.Store
