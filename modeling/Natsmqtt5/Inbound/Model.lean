import Natsmqtt5.Lts
import Natsmqtt5.Topic.Publish
import Mathlib.Data.Finset.Card

/-!
# PUBLISH from a client: the inbound QoS 2 exchange

`handlePublish`, `rejectPublish` and `handlePubrel` (`publish.go`) over the two sets of the session
that an inbound QoS 2 exchange lives in (`receivedQoS2` and `qos2Forwarding`, `session.go`). One
session is served by any number of connections, one after the other; a displaced connection is
closed when its successor attaches, but a handler that is already running on it runs on, and its
reader may still hold packets it has buffered. So each connection has the place its reader is at
(`Handler`), and every order of the connections' steps is a run.

One step is what the source does between two points where another goroutine can come in: the
checks before the identifier is marked, `markQoS2Received`, the stores, the NATS publish, the
flush of a durable publish, `qos2Forwarded`, `releaseQoS2` and the write of the answer. Whether a
store, a publish or a flush succeeds is the action's choice (`advance` or `fail`).

`log` is kept by the model only: what was forwarded, released and written, newest first.

Results:
* `answered_before_forwarded`, in a run with a displaced handler still storing: a success PUBREC
  for a message that was never forwarded, and two messages forwarded between two releases.
* `inbound_qos2_exactly_once`: neither happens in a run where no PUBLISH is marked while a handler
  is still forwarding its identifier and no identifier is released under another connection's
  handler.

Left out: the message's own content and headers, the retained store, the ids of
`Options.DurablePublishDedupe` and the checkpoint before the answer, none of which reads or writes
the two sets.
-/

namespace Natsmqtt5.Inbound

open Topic (PublishPacket packetRefused resolveAlias dollarName)

/-! ## Data -/

/-- The broker's options that `handlePublish` reads, with the subject codec. -/
structure Options where
  maxQoS : QoS := .qos2
  retainAvailable : Bool := true
  restrictDollarTopics : Bool := false
  authorizer : Bool := false
  queue : Bool := true
  durablePublish : Bool := false
  validateName : Bytes → Except String Unit := fun _ => .ok ()
  nameToSubject : Bytes → Except String Bytes := .ok
  /-- The `%q` of a text. -/
  quote : Bytes → String := fun _ => ""

/-- Where a handler of `handlePublish` stands. -/
inductive Stage
  /-- The checks are passed; `markQoS2Received` comes next. -/
  | marking
  /-- Authorizing, storing the retained message and the queue copy. -/
  | storing
  /-- The queue copy is stored; the NATS publish comes next. -/
  | publishing
  /-- Published; the flush of a durable publish comes next. -/
  | flushing
  /-- Done with NATS; `qos2Forwarded` and the answer come next. -/
  | acking
  deriving DecidableEq

/-- An answer to the client. -/
inductive Reply
  | puback (id : PacketID) (code : ReasonCode) (reason : String)
  | pubrec (id : PacketID) (code : ReasonCode) (reason : String)
  | pubcomp (id : PacketID) (code : ReasonCode)

/-- What a connection's reader is doing. -/
inductive Handler
  /-- The connection has not attached. -/
  | offline
  /-- Between two packets. -/
  | idle
  /-- In `handlePublish`, with the resolved topic name. -/
  | publish (stage : Stage) (p : PublishPacket) (topicName : Bytes)
  /-- At the start of `rejectPublish`. -/
  | rejecting (p : PublishPacket) (code : ReasonCode) (reason : String)
  /-- About to write an answer. -/
  | writing (r : Reply)
  /-- The reader has returned. -/
  | ended

/-- `conn`: what the handlers read and write of one connection. -/
structure Conn where
  closed : Bool := false
  receiveMax : Nat := 65535
  openQoS2 : Finset PacketID := ∅
  topicAliasMax : UInt16 := 0
  aliases : UInt16 → Option Bytes := fun _ => none
  requestProblemInfo : Bool := true
  handler : Handler := .offline

/-- What happened, for the statements about whole runs. -/
inductive Event (κ : Type)
  | forwarded (c : κ) (qos : QoS) (id : PacketID)
  | released (c : κ) (id : PacketID)
  | wrote (c : κ) (r : Reply)
  | disconnected (c : κ) (code : ReasonCode) (text : String)

/-- A session and its connections. `restored` is what the session's record held when this broker
restored it: identifiers whose messages an earlier broker forwarded. -/
structure State (κ : Type) where
  restored : Finset PacketID
  receivedQoS2 : Finset PacketID
  qos2Forwarding : Finset PacketID
  conn : Option κ
  conns : κ → Conn
  log : List (Event κ)

/-- A session no connection has attached to yet. -/
def State.start {κ : Type} (restored : Finset PacketID) : State κ where
  restored := restored
  receivedQoS2 := restored
  qos2Forwarding := ∅
  conn := none
  conns := fun _ => {}
  log := []

/-! ## The checks before the identifier is marked -/

/-- What the checks of `handlePublish` come to. -/
inductive Verdict
  | accepted (topicName : Bytes)
  | rejected (code : ReasonCode) (reason : String)
  | disconnected (code : ReasonCode) (text : String)

/-- The Receive Maximum of the client's own QoS 2 PUBLISH packets: a new identifier takes a place
in `openQoS2`, a resent one has its place already. -/
def takeOpenQoS2 (c : Conn) (p : PublishPacket) (topicName : Bytes) : Conn × Verdict :=
  if p.qos = .qos2 ∧ p.packetID ∉ c.openQoS2 then
    if c.receiveMax ≤ c.openQoS2.card then
      (c, .disconnected .receiveMaximumExceeded
        ("more than the Receive Maximum of " ++ toString c.receiveMax
          ++ " QoS 2 PUBLISH packets are unacknowledged"))
    else ({ c with openQoS2 := insert p.packetID c.openQoS2 }, .accepted topicName)
  else (c, .accepted topicName)

/-- The head of `handlePublish`, up to `markQoS2Received`. -/
def checkPublish (o : Options) (c : Conn) (p : PublishPacket) : Conn × Verdict :=
  match packetRefused o.maxQoS o.retainAvailable p with
  | some fault => (c, .disconnected fault.code (fault.text o.quote))
  | none =>
    match resolveAlias c.topicAliasMax c.aliases p with
    | .error fault => (c, .disconnected fault.code (fault.text o.quote))
    | .ok (aliases, topicName) =>
      let c := { c with aliases }
      match o.validateName topicName with
      | .error err => (c, .rejected .topicNameInvalid err)
      | .ok () =>
        if o.restrictDollarTopics && dollarName topicName then
          (c, .rejected .topicNameInvalid "clients may not publish to topics starting with $")
        else takeOpenQoS2 c p topicName

/-! ## Refusals after it is marked -/

/-- Why `handlePublish` refuses a PUBLISH whose identifier it has marked. -/
inductive Refusal
  | denied
  | authorizerUnavailable
  | badSubject (err : String)
  | retainStore
  | queueKeep
  | natsPublish
  | natsFlush
  | natsReconnected

/-- The reason code of the answer. -/
def Refusal.code : Refusal → ReasonCode
  | .denied => .notAuthorized
  | .authorizerUnavailable => .implementationSpecificError
  | .badSubject _ => .topicNameInvalid
  | .retainStore => .unspecifiedError
  | .queueKeep => .implementationSpecificError
  | .natsPublish => .implementationSpecificError
  | .natsFlush => .implementationSpecificError
  | .natsReconnected => .implementationSpecificError

/-- The reason string of the answer. -/
def Refusal.reason : Refusal → String
  | .denied => ""
  | .authorizerUnavailable => ""
  | .badSubject err => err
  | .retainStore => "could not store the retained message"
  | .queueKeep => "the message could not be queued"
  | .natsPublish => "the NATS server rejected the message"
  | .natsFlush => "the NATS server did not confirm the message"
  | .natsReconnected => "the NATS connection was lost before the message was confirmed"

/-- The stage a refusal ends, and whether the options and the packet let it happen there. -/
def Refusal.possible (o : Options) (p : PublishPacket) (topicName : Bytes) :
    Refusal → Stage → Bool
  | .denied, .storing => o.authorizer
  | .authorizerUnavailable, .storing => o.authorizer
  | .badSubject err, .storing =>
    match o.nameToSubject topicName with
    | .error e => e = err
    | .ok _ => false
  | .retainStore, .storing => p.retain
  | .queueKeep, .storing => o.queue && p.qos ≠ .qos0
  | .natsPublish, .publishing => true
  | .natsFlush, .flushing => true
  | .natsReconnected, .flushing => true
  | _, _ => false

/-- A refusal is always an error to the client. -/
theorem Refusal.isError_code (r : Refusal) : r.code.isError = true := by
  cases r <;> rfl

/-! ## Steps -/

section Steps

variable {κ : Type} [DecidableEq κ]

/-- Replace what a state holds of connection `c`. -/
def State.setConn (s : State κ) (c : κ) (k : Conn) : State κ :=
  { s with conns := Function.update s.conns c k }

/-- Move connection `c`'s reader. -/
def State.goto (s : State κ) (c : κ) (h : Handler) : State κ :=
  s.setConn c { s.conns c with handler := h }

/-- Append to the log. -/
def State.note (s : State κ) (e : Event κ) : State κ := { s with log := e :: s.log }

/-- `markQoS2Received`: the state after it, and whether the identifier was there already. -/
def markQoS2Received (s : State κ) (id : PacketID) : State κ × Bool :=
  if id ∈ s.receivedQoS2 then (s, true)
  else
    ({ s with
        receivedQoS2 := insert id s.receivedQoS2
        qos2Forwarding := insert id s.qos2Forwarding }, false)

def qos2Forwarded (s : State κ) (id : PacketID) : State κ :=
  { s with qos2Forwarding := s.qos2Forwarding.erase id }

/-- `releaseQoS2`: the state after it, and whether the identifier was outstanding. -/
def releaseQoS2 (s : State κ) (c : κ) (id : PacketID) : State κ × Bool :=
  ({ s with
      receivedQoS2 := s.receivedQoS2.erase id
      qos2Forwarding := s.qos2Forwarding.erase id
      log := .released c id :: s.log }, decide (id ∈ s.receivedQoS2))

/-- The close of the connection an `attach` displaces. -/
def closeDisplaced (s : State κ) : State κ :=
  match s.conn with
  | some prev => s.setConn prev { s.conns prev with closed := true }
  | none => s

/-- `attach`, with the close of the connection it displaces. -/
def attach (s : State κ) (c : κ) (k : Conn) : State κ :=
  { closeDisplaced s with conn := some c }.setConn c
    { k with closed := false, openQoS2 := ∅, aliases := fun _ => none, handler := .idle }

/-- The steps of the connections. -/
inductive Act (κ : Type)
  /-- A connection attaches, with the limits its handshake agreed on. -/
  | attach (c : κ) (k : Conn)
  /-- A connection is closed: by its peer, by the broker or by an error. -/
  | close (c : κ)
  /-- A PUBLISH is read and checked. -/
  | recvPublish (c : κ) (p : PublishPacket)
  /-- A PUBREL is read, and its identifier released. -/
  | recvPubrel (c : κ) (id : PacketID)
  /-- `markQoS2Received`. -/
  | mark (c : κ)
  /-- The stage's own work succeeds. -/
  | advance (c : κ)
  /-- The stage's own work fails. -/
  | fail (c : κ) (r : Refusal)
  /-- `rejectPublish` up to its write. -/
  | reject (c : κ)
  /-- The answer is written, or the write fails on a closed connection. -/
  | write (c : κ)

/-- The reason string `rejectPublish` sends. -/
def problemReason (k : Conn) (reason : String) : String :=
  if k.requestProblemInfo then reason else ""

/-- A PUBLISH is read: the checks, and where they send the reader. -/
def recvPublish (o : Options) (s : State κ) (c : κ) (p : PublishPacket) : State κ :=
  match checkPublish o (s.conns c) p with
  | (k, .accepted topicName) =>
    (s.setConn c k).goto c
      (.publish (if p.qos = .qos2 then .marking else .storing) p topicName)
  | (k, .rejected code reason) => (s.setConn c k).goto c (.rejecting p code reason)
  | (k, .disconnected code text) =>
    ((s.setConn c { k with closed := true }).goto c .ended).note (.disconnected c code text)

/-- The step from each stage of `handlePublish` to the next. -/
def advance (o : Options) (s : State κ) (c : κ) (p : PublishPacket) (topicName : Bytes) :
    Stage → Option (State κ)
  | .marking => none
  | .storing =>
    match o.nameToSubject topicName with
    | .ok _ => some (s.goto c (.publish .publishing p topicName))
    | .error _ => none
  | .publishing =>
    some ((s.note (.forwarded c p.qos p.packetID)).goto c
      (.publish (if o.durablePublish && p.qos ≠ .qos0 then .flushing else .acking) p topicName))
  | .flushing => some (s.goto c (.publish .acking p topicName))
  | .acking =>
    match p.qos with
    | .qos0 => some (s.goto c .idle)
    | .qos1 => some (s.goto c (.writing (.puback p.packetID .success "")))
    | .qos2 =>
      some ((qos2Forwarded s p.packetID).goto c (.writing (.pubrec p.packetID .success "")))

/-- `rejectPublish` up to its write. -/
def rejectPublish (s : State κ) (c : κ) (p : PublishPacket) (code : ReasonCode) (reason : String) :
    State κ :=
  let text := problemReason (s.conns c) reason
  match p.qos with
  | .qos0 => s.goto c .idle
  | .qos1 => s.goto c (.writing (.puback p.packetID code text))
  | .qos2 =>
    let s := (releaseQoS2 s c p.packetID).1
    let k := s.conns c
    (s.setConn c { k with openQoS2 := k.openQoS2.erase p.packetID }).goto c
      (.writing (.pubrec p.packetID code text))

/-- `handlePubrel` up to its write. -/
def recvPubrel (s : State κ) (c : κ) (id : PacketID) : State κ :=
  let (s, found) := releaseQoS2 s c id
  let k := s.conns c
  (s.setConn c { k with openQoS2 := k.openQoS2.erase id }).goto c
    (.writing (.pubcomp id (if found then .success else .packetIdentifierNotFound)))

/-- One step of the system. -/
def step (o : Options) (s : State κ) : Act κ → Option (State κ)
  | .attach c k =>
    match (s.conns c).handler with
    | .offline => some (attach s c k)
    | _ => none
  | .close c => some (s.setConn c { s.conns c with closed := true })
  | .recvPublish c p =>
    match (s.conns c).handler with
    | .idle => some (recvPublish o s c p)
    | _ => none
  | .recvPubrel c id =>
    match (s.conns c).handler with
    | .idle => some (recvPubrel s c id)
    | _ => none
  | .mark c =>
    match (s.conns c).handler with
    | .publish .marking p topicName =>
      match markQoS2Received s p.packetID with
      | (s, true) => some (s.goto c (.writing (.pubrec p.packetID .success "")))
      | (s, false) => some (s.goto c (.publish .storing p topicName))
    | _ => none
  | .advance c =>
    match (s.conns c).handler with
    | .publish stage p topicName => advance o s c p topicName stage
    | _ => none
  | .fail c r =>
    match (s.conns c).handler with
    | .publish stage p topicName =>
      if r.possible o p topicName stage then some (s.goto c (.rejecting p r.code r.reason))
      else none
    | _ => none
  | .reject c =>
    match (s.conns c).handler with
    | .rejecting p code reason => some (rejectPublish s c p code reason)
    | _ => none
  | .write c =>
    match (s.conns c).handler with
    | .writing r =>
      if (s.conns c).closed then some (s.goto c .ended)
      else some ((s.note (.wrote c r)).goto c .idle)
    | _ => none

end Steps

/-! ## What a run must keep -/

section Statements

variable {κ : Type} [DecidableEq κ]

/-- The messages of QoS 2 identifier `id` forwarded since it was last released. A log that does not
release it goes back to what the record said. -/
def forwardsSince (restored : Finset PacketID) (id : PacketID) : List (Event κ) → Nat
  | [] => if id ∈ restored then 1 else 0
  | .forwarded _ qos i :: log =>
    if qos = .qos2 ∧ i = id then forwardsSince restored id log + 1
    else forwardsSince restored id log
  | .released _ i :: log => if i = id then 0 else forwardsSince restored id log
  | .wrote _ _ :: log => forwardsSince restored id log
  | .disconnected _ _ _ :: log => forwardsSince restored id log

/-- Each PUBREC with a code below 0x80 follows the forward of a message of its identifier that
no release has ended. -/
def AnsweredForwarded (restored : Finset PacketID) (id : PacketID) : List (Event κ) → Prop
  | [] => True
  | .wrote _ (.pubrec i code _) :: log =>
    (i = id → code.isError = false → 1 ≤ forwardsSince restored id log) ∧
      AnsweredForwarded restored id log
  | _ :: log => AnsweredForwarded restored id log

/-- At no point of the log has more than one message been forwarded since the last release. -/
def ForwardedOnce (restored : Finset PacketID) (id : PacketID) : List (Event κ) → Prop
  | [] => True
  | e :: log => forwardsSince restored id (e :: log) ≤ 1 ∧ ForwardedOnce restored id log

/-- A handler in `handlePublish` for QoS 2 identifier `id`, past the mark. -/
def Handler.Holds (id : PacketID) : Handler → Prop
  | .publish stage p _ => p.qos = .qos2 ∧ p.packetID = id ∧ stage ≠ .marking
  | _ => False

/-- A handler about to write a PUBREC below 0x80 for `id`. -/
def Handler.Answers (id : PacketID) : Handler → Prop
  | .writing (.pubrec i code _) => i = id ∧ code.isError = false
  | _ => False

/-- `c` is about to write a PUBREC below 0x80 for `id`, and is still open. -/
def Conn.Answers (k : Conn) (id : PacketID) : Prop :=
  k.closed = false ∧ k.handler.Answers id

/-- Releasing `id` on `c` meets no other connection's handler of `id`. -/
def State.Unshared (s : State κ) (c : κ) (id : PacketID) : Prop :=
  ∀ c', c' ≠ c → ¬ (s.conns c').handler.Holds id ∧ ¬ (s.conns c').Answers id

/-- A step that stays clear of another connection's exchange: an identifier is not marked while its
message is still being forwarded, and not released under another connection's handler. -/
def Clear (s : State κ) : Act κ → Prop
  | .mark c =>
    match (s.conns c).handler with
    | .publish _ p _ => p.packetID ∉ s.qos2Forwarding
    | _ => True
  | .recvPubrel c id => s.Unshared c id
  | .reject c =>
    match (s.conns c).handler with
    | .rejecting p _ _ => p.qos = .qos2 → s.Unshared c p.packetID
    | _ => True
  | _ => True

/-! The statements can be evaluated on a given log. -/

instance decidableAnsweredForwarded (restored : Finset PacketID) (id : PacketID) :
    (log : List (Event κ)) → Decidable (AnsweredForwarded restored id log)
  | [] => .isTrue trivial
  | .wrote _ (.pubrec i code _) :: log =>
    have := decidableAnsweredForwarded restored id log
    inferInstanceAs (Decidable ((i = id → code.isError = false →
      1 ≤ forwardsSince restored id log) ∧ AnsweredForwarded restored id log))
  | .wrote _ (.puback _ _ _) :: log => decidableAnsweredForwarded restored id log
  | .wrote _ (.pubcomp _ _) :: log => decidableAnsweredForwarded restored id log
  | .forwarded _ _ _ :: log => decidableAnsweredForwarded restored id log
  | .released _ _ :: log => decidableAnsweredForwarded restored id log
  | .disconnected _ _ _ :: log => decidableAnsweredForwarded restored id log

instance decidableForwardedOnce (restored : Finset PacketID) (id : PacketID) :
    (log : List (Event κ)) → Decidable (ForwardedOnce restored id log)
  | [] => .isTrue trivial
  | e :: log =>
    have := decidableForwardedOnce restored id log
    inferInstanceAs (Decidable (forwardsSince restored id (e :: log) ≤ 1 ∧
      ForwardedOnce restored id log))

instance (id : PacketID) (h : Handler) : Decidable (h.Holds id) := by
  unfold Handler.Holds
  split <;> infer_instance

instance (id : PacketID) (h : Handler) : Decidable (h.Answers id) := by
  unfold Handler.Answers
  split <;> infer_instance

instance (k : Conn) (id : PacketID) : Decidable (k.Answers id) :=
  inferInstanceAs (Decidable (k.closed = false ∧ k.handler.Answers id))

instance [Fintype κ] (s : State κ) (c : κ) (id : PacketID) : Decidable (s.Unshared c id) :=
  inferInstanceAs (Decidable (∀ c', c' ≠ c →
    ¬ (s.conns c').handler.Holds id ∧ ¬ (s.conns c').Answers id))

instance [Fintype κ] (s : State κ) (a : Act κ) : Decidable (Clear s a) := by
  unfold Clear
  split <;> first | infer_instance | (split <;> infer_instance)

end Statements

end Natsmqtt5.Inbound
