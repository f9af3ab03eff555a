import Mathlib.Data.List.Sort
import Natsmqtt5.Keyed
import Natsmqtt5.Topic.Filter
import Natsmqtt5.Wire.Packet

/-!
# SUBSCRIBE and UNSUBSCRIBE

`handleSubscribe` with `subscribeOne`, and `handleUnsubscribe` (`subscribe.go`), on the session's
subscriptions (`installSubscription` and its siblings in `session.go`) and on the stored record
(`persistSession` in `broker.go`, `snapshot` in `session.go`).

What is outside the broker is an argument: for each filter the answer of the Authorizer (`allowed`
when there is none) and whether NATS takes the subscriptions (`bindNATS`), for a packet whether the
flush succeeds and what `readSince` reads. A write of the record succeeds. The record is its
`Subscriptions`. The cursor that `setSince` may start, the groups of shared subscriptions and the
retained messages that follow a SUBACK are left out.
-/

namespace Natsmqtt5.Subscribe

/-! ## Subscriptions -/

/-- `Options`, what a SUBSCRIBE reads of it. -/
structure Options where
  restrictDollarTopics : Bool := false
  /-- The codec escapes what a subject cannot carry. -/
  escape : Bool := false
  subjectPrefix : Bytes := []
  maxQoS : QoS := .qos2
  sharedQoS2 : Bool := false

/-- `subscription`. -/
structure Sub where
  /-- Which object it is. -/
  ref : Nat
  filter : Bytes
  subject : Bytes
  share : Bytes
  opts : Wire.Subscription
  grantedQoS : UInt8
  id : Int
  /-- `none` for `sinceUnknown`. -/
  since : Option Nat := none
  /-- It has a cell and NATS subscriptions. -/
  bound : Bool := false
  deriving DecidableEq

structure StoredSubscription where
  filter : Bytes
  opts : Wire.Subscription
  grantedQoS : UInt8
  id : Int
  sinceSeq : Nat
  deriving DecidableEq

/-- `session`, what the two handlers use of it; `record` is the one it holds. -/
structure Session where
  conn : Option Nat
  subs : List Sub := []
  /-- The number of the next subscription. -/
  nextRef : Nat := 0
  record : Option (List StoredSubscription)
  claimGen : Nat

structure Conn where
  num : Nat
  claimGen : Nat

def keepsSince (old sub : Sub) : Bool :=
  sub.share == [] && old.share == [] && old.grantedQoS != 0 &&
    (!old.opts.noLocal || sub.opts.noLocal) && old.since.isSome

/-- What `installSubscription` returns. -/
inductive Install
  /-- The connection is no longer the session's. -/
  | refused
  /-- There is nothing to take over. -/
  | rebind
  | installed (s : Session) (old : Option Sub) (sub : Sub)

namespace Session

def find (s : Session) (filter : Bytes) : Option Sub := Keyed.find Sub.filter s.subs filter

def holds (s : Session) (filter : Bytes) : Bool := (s.find filter).isSome

def holdsBound (s : Session) (filter : Bytes) : Bool := (s.find filter).any Sub.bound

def installSubscription (s : Session) (c : Conn) (sub : Sub) : Install :=
  if s.conn ≠ some c.num then .refused
  else
    let old := s.find sub.filter
    if !sub.bound && !old.any Sub.bound then .rebind
    else
      let since := old.bind fun old => if keepsSince old sub then old.since else none
      let sub := { sub with bound := true, since := since.or sub.since }
      .installed { s with subs := Keyed.put Sub.filter s.subs sub } old sub

def removeSubscription (s : Session) (filter : Bytes) : Session :=
  { s with subs := Keyed.erase Sub.filter s.subs filter }

/-- `since.CompareAndSwap(sinceUnknown, last)` of `setSince`, on the objects `fresh`. -/
def setSince (s : Session) (fresh : List Sub) (last : Nat) : Session :=
  { s with subs := s.subs.map fun sub =>
      if fresh.any (·.ref == sub.ref) && sub.since.isNone then { sub with since := some last }
      else sub }

/-- What the record keeps of a subscription. -/
def stored (sub : Sub) : StoredSubscription :=
  ⟨sub.filter, sub.opts, sub.grantedQoS, sub.id, sub.since.getD 0⟩

/-- The subscriptions as `snapshot` lists them, by filter. -/
def storedSubs (s : Session) : List StoredSubscription :=
  (s.subs.map stored).insertionSort fun a b => a.filter ≤ b.filter

/-- `snapshot`: none for a claim that is not the current one. -/
def snapshot (s : Session) (gen : Nat) : Option (List StoredSubscription) :=
  if s.record.isNone ∨ gen ≠ s.claimGen then none else some s.storedSubs

def commitRecord (s : Session) (gen : Nat) (rec : List StoredSubscription) : Session :=
  if gen ≠ s.claimGen then s else { s with record := some rec }

end Session

/-- The session and the `Subscriptions` of its record in the bucket. -/
structure State where
  session : Session
  record : List StoredSubscription

/-- `persistSession`, when the write succeeds. -/
def persistSession (s : State) (c : Conn) : State :=
  match s.session.snapshot c.claimGen with
  | none => s
  | some rec => { session := s.session.commitRecord c.claimGen rec, record := rec }

/-! ## SUBSCRIBE -/

def topicFilterInvalid : UInt8 := 0x8F
def implementationSpecificError : UInt8 := 0x83
def notAuthorized : UInt8 := 0x87
def unspecifiedError : UInt8 := 0x80

/-- What the Authorizer says. -/
inductive Answer
  | allowed
  | denied
  | unavailable
  deriving DecidableEq

/-- A filter of a SUBSCRIBE with what happens to it outside: `bind`, and `rebind` for the second
attempt. -/
structure Entry where
  want : Wire.Subscription
  answer : Answer := .allowed
  bind : Bool := true
  rebind : Bool := true

def dollarFilter (filter : Bytes) : Bool :=
  match Topic.splitShared filter with
  | .error _ => false
  | .ok (share, inner) => if share ≠ [] then inner.head? = some 36 else filter.head? = some 36

/-- `subscribeOne` up to the subject: the ShareName and the subject, or the code of the refusal. -/
def cleared (o : Options) (e : Entry) : Except UInt8 (Bytes × Bytes) :=
  match Topic.validateFilter e.want.filter o.escape with
  | .error _ => .error topicFilterInvalid
  | .ok () =>
    match Topic.splitShared e.want.filter with
    | .error _ => .error topicFilterInvalid
    | .ok (share, _) =>
      if o.restrictDollarTopics && dollarFilter e.want.filter then .error topicFilterInvalid
      else
        match e.answer with
        | .denied => .error notAuthorized
        | .unavailable => .error implementationSpecificError
        | .allowed =>
          match Topic.filterToSubject e.want.filter o.escape with
          | .error _ => .error topicFilterInvalid
          | .ok subject => .ok (share, Topic.prefixed o.subjectPrefix subject)

/-- `packet.QoS` on the wire. -/
def qosByte (q : QoS) : UInt8 := UInt8.ofNat q.toNat

/-- The QoS that is granted. -/
def grantedQoS (o : Options) (share : Bytes) (qos : UInt8) : UInt8 :=
  let granted := if qosByte o.maxQoS < qos then qosByte o.maxQoS else qos
  if share ≠ [] ∧ granted = 2 ∧ !o.sharedQoS2 then 1 else granted

/-- What `subscribeOne` returns. -/
structure Result where
  sub : Option Sub := none
  existed : Bool := false
  code : UInt8

/-- The end of `subscribeOne`, from `installSubscription` on. -/
def placed (s : Session) : Install → Session × Result
  | .installed s old sub => (s, { sub := some sub, existed := old.isSome, code := sub.grantedQoS })
  | _ => (s, { code := unspecifiedError })

def subscribeOne (o : Options) (c : Conn) (subID : Int) (s : Session) (e : Entry) :
    Session × Result :=
  match cleared o e with
  | .error code => (s, { code })
  | .ok (share, subject) =>
    let sub : Sub :=
      { ref := s.nextRef, filter := e.want.filter, subject, share, opts := e.want
        grantedQoS := grantedQoS o share e.want.qos, id := subID }
    let s := { s with nextRef := s.nextRef + 1 }
    let takeOver := share == [] && s.holdsBound e.want.filter
    if !takeOver && !e.bind then (s, { code := implementationSpecificError })
    else
      match s.installSubscription c { sub with bound := !takeOver } with
      | .rebind =>
        if !e.rebind then (s, { code := implementationSpecificError })
        else placed s (s.installSubscription c { sub with bound := true })
      | r => placed s r

/-- The loop of `handleSubscribe`. -/
def subscribeAll (o : Options) (c : Conn) (subID : Int) : Session → List Entry →
    Session × List Result
  | s, [] => (s, [])
  | s, e :: es =>
    let r := subscribeOne o c subID s e
    let rs := subscribeAll o c subID r.1 es
    (rs.1, r.2 :: rs.2)

def anyGranted (rs : List Result) : Bool := rs.any fun r => r.sub.isSome

/-- What is done for one filter when the flush fails. -/
def Result.unconfirmed (r : Result) : Result :=
  if r.sub.isSome then { r with sub := none, code := implementationSpecificError } else r

/-- The subscriptions that the flush did not confirm are removed. -/
def dropGranted (s : Session) (rs : List Result) : Session :=
  (rs.filterMap Result.sub).foldl (fun s sub => s.removeSubscription sub.filter) s

/-- `readSince`: `last` is what it reads, or the highest sequence the broker has seen; none without
a queue. -/
def readSince (s : Session) (rs : List Result) : Option Nat → Session
  | none => s
  | some last =>
    s.setSince ((rs.filterMap Result.sub).filter fun sub => sub.share == [] && sub.since.isNone)
      last

/-- A SUBSCRIBE with its identifiers, and what happens outside. -/
structure Packet where
  entries : List Entry
  ids : List Int := []
  flush : Bool := true
  last : Option Nat := none

/-- No Local on a shared subscription. -/
def Packet.protocolError (p : Packet) : Bool :=
  p.entries.any fun e => e.want.noLocal && Topic.isShared e.want.filter

/-- `handleSubscribe` on what the loop leaves. -/
def confirmed (s : Session) (rs : List Result) (flush : Bool) : Session × List Result :=
  if anyGranted rs && !flush then (dropGranted s rs, rs.map Result.unconfirmed) else (s, rs)

/-- `handleSubscribe`, with the codes of the SUBACK; none when the client is disconnected. -/
def handleSubscribe (o : Options) (c : Conn) (s : State) (p : Packet) :
    State × Option (List UInt8) :=
  if p.protocolError then (s, none)
  else
    let r := subscribeAll o c (p.ids.headD 0) s.session p.entries
    let r := confirmed r.1 r.2 p.flush
    let s := { s with session := readSince r.1 r.2 p.last }
    (if anyGranted r.2 then persistSession s c else s, some (r.2.map Result.code))

/-! ## UNSUBSCRIBE -/

/-- The loop of `handleUnsubscribe`: whether one was removed; none when the connection is no longer
the session's. -/
def unsubscribeAll (c : Conn) : Session → List Bytes → Session × Option (Bool × List UInt8)
  | s, [] => (s, some (false, []))
  | s, filter :: filters =>
    if s.conn ≠ some c.num then (s, none)
    else
      let held := s.holds filter
      let r := unsubscribeAll c (if held then s.removeSubscription filter else s) filters
      (r.1, r.2.map fun x => (held || x.1, (if held then 0x00 else 0x11) :: x.2))

/-- `handleUnsubscribe`, with the codes of the UNSUBACK. -/
def handleUnsubscribe (c : Conn) (s : State) (filters : List Bytes) :
    State × Option (List UInt8) :=
  match unsubscribeAll c s.session filters with
  | (session, none) => ({ s with session }, none)
  | (session, some (removed, codes)) =>
    let s := { s with session }
    (if removed then persistSession s c else s, some codes)

end Natsmqtt5.Subscribe
