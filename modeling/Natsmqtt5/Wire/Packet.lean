import Natsmqtt5.Wire.Properties

/-!
# Control packets

The fifteen packet types of `packet/`, each with its decoder and its encoder, and `Read` and
`Encode` around them. A decoder is a parser of the packet's body; an encoder returns the flags of
the fixed header and the body. A byte slice that is nil or empty is the empty list, except for the
Password of a CONNECT, where the encoder tells them apart.
-/

namespace Natsmqtt5.Wire

open Parse

/-! ## Types and flags -/

/-- The number of a packet type. -/
def PType.code : PType → UInt8
  | .willContext => 0
  | .connect => 1
  | .connack => 2
  | .publish => 3
  | .puback => 4
  | .pubrec => 5
  | .pubrel => 6
  | .pubcomp => 7
  | .subscribe => 8
  | .suback => 9
  | .unsubscribe => 10
  | .unsuback => 11
  | .pingreq => 12
  | .pingresp => 13
  | .disconnect => 14
  | .auth => 15

/-- The packet type with a number below 16. Number 0 is no packet's. -/
def PType.ofCode (b : UInt8) : PType :=
  match b.toNat with
  | 1 => .connect
  | 2 => .connack
  | 3 => .publish
  | 4 => .puback
  | 5 => .pubrec
  | 6 => .pubrel
  | 7 => .pubcomp
  | 8 => .subscribe
  | 9 => .suback
  | 10 => .unsubscribe
  | 11 => .unsuback
  | 12 => .pingreq
  | 13 => .pingresp
  | 14 => .disconnect
  | 15 => .auth
  | _ => .willContext

def reservedFlags : PType → UInt8
  | .pubrel | .subscribe | .unsubscribe => 0x02
  | _ => 0

/-- `QoS.Valid`. -/
def qosValid (q : UInt8) : Bool := q ≤ 2

/-- `ReasonCode.IsError`. -/
def isError (code : UInt8) : Bool := 0x80 ≤ code

/-- A bit of a flag byte. -/
def bit (b : Bool) (mask : UInt8) : UInt8 := if b then mask else 0

/-! ## CONNECT -/

structure Will where
  topic : Bytes
  payload : Bytes
  qos : UInt8
  retain : Bool
  properties : Properties
  deriving DecidableEq, Repr

structure Connect where
  clientID : Bytes
  cleanStart : Bool
  keepAlive : UInt16
  will : Option Will
  username : Bytes
  /-- none is nil -/
  password : Option Bytes
  properties : Properties
  protocolVersion : UInt8
  deriving DecidableEq, Repr

def protocolVersion5 : UInt8 := 5

/-- `protocolName`: "MQTT". -/
def protocolName : Bytes := [0x4D, 0x51, 0x54, 0x54]

/-- The Will of a CONNECT whose flags announce one. -/
def decodeWill (qos : UInt8) (retain : Bool) : Reader Will := do
  let properties ← readProperties .willContext
  let topic ← string
  let payload ← binary
  pure { topic, payload, qos, retain, properties }

/-- The Password of a CONNECT: a copy of an empty one is nil. -/
def decodePassword : Reader (Option Bytes) := do
  let password ← binary
  pure (if password = [] then none else some password)

def decodeConnect : Reader Connect := do
  let name ← string
  check (name != protocolName) (.malformed (.protocolName name))
  let version ← byte
  check (version != protocolVersion5) (.unsupportedVersion version)
  let flags ← byte
  check (flags &&& 0x01 != 0) (.malformed .connectReservedFlag)
  let willFlag := flags &&& 0x04 != 0
  let willQoS := flags >>> 3 &&& 0x03
  let willRetain := flags &&& 0x20 != 0
  check (!willFlag && willQoS != 0) (.malformed (.willQoSWithoutWill willQoS))
  check (!willFlag && willRetain) (.malformed .willRetainWithoutWill)
  check (willFlag && !qosValid willQoS) (.malformed (.willQoS willQoS))
  let keepAlive ← uint16
  let properties ← readProperties .connect
  check (properties.authenticationData != [] && properties.authenticationMethod == [])
    (.protocol .authenticationData)
  let clientID ← string
  let will ← onlyIf willFlag none (some <$> decodeWill willQoS willRetain)
  let username ← onlyIf (flags &&& 0x80 != 0) [] string
  let password ← onlyIf (flags &&& 0x40 != 0) none decodePassword
  finish fun n => .malformed (.trailingBytes .connect n)
  pure {
    clientID, cleanStart := flags &&& 0x02 != 0, keepAlive, will, username, password, properties,
    protocolVersion := version }

/-- The Connect Flags. -/
def connectFlags (cleanStart : Bool) (will : Option (UInt8 × Bool)) (username password : Bool) :
    UInt8 :=
  let willFlags : UInt8 := match will with
    | none => 0
    | some (qos, retain) => (0x04 : UInt8) ||| qos <<< 3 ||| bit retain 0x20
  bit cleanStart 0x02 ||| willFlags ||| bit username 0x80 ||| bit password 0x40

/-- The Will in the payload of a CONNECT. -/
def Will.encode (w : Will) : Except Err Bytes := do
  checkLen .willTopic w.topic
  checkLen .willPayload w.payload
  let props ← w.properties.encode .willContext
  pure (props ++ (putString w.topic ++ putBinary w.payload))

/-- The Will's Quality of Service is checked before anything is written. -/
def checkWillQoS : Option Will → Except Err Unit
  | some w => refuse (!qosValid w.qos) (.malformed (.willQoS w.qos))
  | none => .ok ()

/-- The Will, when there is one. -/
def encodeWill : Option Will → Except Err Bytes
  | some w => w.encode
  | none => .ok []

/-- The User Name, sent only when non-empty. -/
def encodeUsername (username : Bytes) : Except Err Bytes :=
  if username = [] then .ok []
  else do
    checkLen .userName username
    pure (putString username)

/-- The Password, sent only when non-nil. -/
def encodePassword : Option Bytes → Except Err Bytes
  | some password => do
    checkLen .password password
    pure (putBinary password)
  | none => .ok []

def Connect.encode (c : Connect) : Except Err (UInt8 × Bytes) := do
  checkLen .clientID c.clientID
  checkWillQoS c.will
  let flags := connectFlags c.cleanStart (c.will.map fun w => (w.qos, w.retain)) (c.username != [])
    c.password.isSome
  let props ← c.properties.encode .connect
  let will ← encodeWill c.will
  let username ← encodeUsername c.username
  let password ← encodePassword c.password
  pure (0, putString protocolName ++ ([protocolVersion5] ++ ([flags] ++ (putUint16 c.keepAlive ++
    (props ++ (putString c.clientID ++ (will ++ (username ++ password))))))))

/-! ## CONNACK -/

structure Connack where
  sessionPresent : Bool
  reasonCode : UInt8
  properties : Properties
  deriving DecidableEq, Repr

def decodeConnack : Reader Connack := do
  let ackFlags ← byte
  check (ackFlags &&& 0xFE != 0) (.malformed .connackFlags)
  let reasonCode ← byte
  let properties ← readProperties .connack
  finish fun n => .malformed (.trailingBytes .connack n)
  pure { sessionPresent := ackFlags &&& 0x01 != 0, reasonCode, properties }

def Connack.encode (c : Connack) : Except Err (UInt8 × Bytes) := do
  let props ← c.properties.encode .connack
  pure (0, [bit (c.sessionPresent && !isError c.reasonCode) 0x01] ++ ([c.reasonCode] ++ props))

/-! ## PUBLISH -/

structure Publish where
  dup : Bool
  qos : UInt8
  retain : Bool
  topic : Bytes
  packetID : UInt16
  properties : Properties
  payload : Bytes
  deriving DecidableEq, Repr

def decodePublish (flags : UInt8) : Reader Publish := do
  let dup := flags &&& 0x08 != 0
  let qos := flags >>> 1 &&& 0x03
  check (!qosValid qos) (.malformed (.publishQoS qos))
  check (qos == 0 && dup) (.malformed .dupAtQoS0)
  let topic ← string
  let packetID ← onlyIf (decide (0 < qos)) 0 do
    let id ← uint16
    check (id == 0) (.protocol (.publishPacketID qos))
    pure id
  let properties ← readProperties .publish
  check (topic == [] && properties.topicAlias.isNone) (.protocol .noTopic)
  let payload ← takeRest
  pure { dup, qos, retain := flags &&& 0x01 != 0, topic, packetID, properties, payload }

/-- The fixed header flags of a PUBLISH. -/
def publishFlags (dup : Bool) (qos : UInt8) (retain : Bool) : UInt8 :=
  bit (dup && qos != 0) 0x08 ||| qos <<< 1 ||| bit retain 0x01

def Publish.encode (p : Publish) : Except Err (UInt8 × Bytes) := do
  refuse (!qosValid p.qos) (.malformed (.publishQoS p.qos))
  checkLen .topicName p.topic
  let props ← p.properties.encode .publish
  pure (publishFlags p.dup p.qos p.retain,
    putString p.topic ++ ((if 0 < p.qos then putUint16 p.packetID else []) ++ (props ++ p.payload)))

/-! ## PUBACK, PUBREC, PUBREL and PUBCOMP, DISCONNECT and AUTH -/

/-- The end of a packet that may stop before its Reason Code or before its Property Length: the
Reason Code, 0 when it is absent, and the properties. -/
def decodeReason (t : PType) : Reader (UInt8 × Properties) := do
  if (← atEnd) then pure (0, {})
  else do
    let code ← byte
    if (← atEnd) then pure (code, {})
    else do
      let properties ← readProperties t
      finish fun n => .malformed (.trailingBytes t n)
      pure (code, properties)

/-- The short forms: nothing for Success without properties, a Reason Code alone without
properties. -/
def encodeReason (t : PType) (code : UInt8) (properties : Properties) : Except Err Bytes := do
  let props ← properties.encode t
  let noProps := props == [0]
  pure (if code == 0 && noProps then [] else if noProps then [code] else [code] ++ props)

structure Ack where
  packetID : UInt16
  reasonCode : UInt8
  properties : Properties
  deriving DecidableEq, Repr

def decodeAck (t : PType) : Reader Ack := do
  let packetID ← uint16
  let reason ← decodeReason t
  pure { packetID, reasonCode := reason.1, properties := reason.2 }

def Ack.encode (a : Ack) (t : PType) : Except Err (UInt8 × Bytes) := do
  let reason ← encodeReason t a.reasonCode a.properties
  pure (reservedFlags t, putUint16 a.packetID ++ reason)

/-- The fields of `Disconnect` and of `Auth`. -/
structure Reason where
  reasonCode : UInt8
  properties : Properties
  deriving DecidableEq, Repr

/-- The decoder of `Disconnect` and of `Auth`. -/
def decodeReasonOnly (t : PType) : Reader Reason := do
  let reason ← decodeReason t
  pure { reasonCode := reason.1, properties := reason.2 }

def decodeDisconnect : Reader Reason := decodeReasonOnly .disconnect

def decodeAuth : Reader Reason := decodeReasonOnly .auth

/-- The `encode` of `Disconnect` and of `Auth`. -/
def Reason.encode (d : Reason) (t : PType) : Except Err (UInt8 × Bytes) := do
  let reason ← encodeReason t d.reasonCode d.properties
  pure (0, reason)

/-! ## SUBSCRIBE and UNSUBSCRIBE -/

structure Subscription where
  filter : Bytes
  qos : UInt8
  noLocal : Bool
  retainAsPublished : Bool
  retainHandling : UInt8
  deriving DecidableEq, Repr

structure Subscribe where
  packetID : UInt16
  properties : Properties
  subscriptions : List Subscription
  deriving DecidableEq, Repr

/-- One round of the loop of `decodeSubscribe`. -/
def subscriptionRound (subs : List Subscription) : Reader (List Subscription) := do
  let filter ← string
  let opts ← byte
  check (opts &&& 0xC0 != 0) (.malformed .subscriptionOptions)
  let qos := opts &&& 0x03
  let retainHandling := opts >>> 4 &&& 0x03
  check (!qosValid qos) (.protocol .optionsQoS)
  check (decide (2 < retainHandling)) (.protocol .optionsRetainHandling)
  pure (subs ++ [{
    filter, qos, noLocal := opts &&& 0x04 != 0, retainAsPublished := opts &&& 0x08 != 0,
    retainHandling }])

def decodeSubscribe : Reader Subscribe := do
  let packetID ← uint16
  check (packetID == 0) (.protocol (.packetIDZero .subscribe))
  let properties ← readProperties .subscribe
  let subscriptions ← whileMore subscriptionRound []
  check (subscriptions == []) (.protocol (.noTopicFilters .subscribe))
  pure { packetID, properties, subscriptions }

/-- The Subscription Options. -/
def subscriptionOptions (qos retainHandling : UInt8) (noLocal retainAsPublished : Bool) : UInt8 :=
  qos ||| retainHandling <<< 4 ||| bit noLocal 0x04 ||| bit retainAsPublished 0x08

/-- One round of the loop of `Subscribe.encode`. -/
def Subscription.encode (s : Subscription) : Except Err Bytes := do
  checkLen .topicFilter s.filter
  refuse (!qosValid s.qos) (.protocol (.subscriptionQoS s.filter s.qos))
  refuse (decide (2 < s.retainHandling))
    (.protocol (.subscriptionRetainHandling s.filter s.retainHandling))
  pure (putString s.filter ++
    [subscriptionOptions s.qos s.retainHandling s.noLocal s.retainAsPublished])

/-- The payload of a packet that lists things: they are encoded one after another. -/
def encodeAll {α : Type} (enc : α → Except Err Bytes) : List α → Except Err Bytes
  | [] => .ok []
  | x :: xs => do
    let first ← enc x
    let rest ← encodeAll enc xs
    pure (first ++ rest)

def Subscribe.encode (s : Subscribe) : Except Err (UInt8 × Bytes) := do
  refuse (s.subscriptions == []) (.protocol (.noTopicFilters .subscribe))
  let props ← s.properties.encode .subscribe
  let subs ← encodeAll Subscription.encode s.subscriptions
  pure (reservedFlags .subscribe, putUint16 s.packetID ++ (props ++ subs))

structure Unsubscribe where
  packetID : UInt16
  properties : Properties
  filters : List Bytes
  deriving DecidableEq, Repr

/-- One round of the loop of `decodeUnsubscribe`. -/
def filterRound (filters : List Bytes) : Reader (List Bytes) := do
  let filter ← string
  pure (filters ++ [filter])

def decodeUnsubscribe : Reader Unsubscribe := do
  let packetID ← uint16
  check (packetID == 0) (.protocol (.packetIDZero .unsubscribe))
  let properties ← readProperties .unsubscribe
  let filters ← whileMore filterRound []
  check (filters == []) (.protocol (.noTopicFilters .unsubscribe))
  pure { packetID, properties, filters }

/-- One round of the loop of `Unsubscribe.encode`. -/
def encodeFilter (f : Bytes) : Except Err Bytes := do
  checkLen .topicFilter f
  pure (putString f)

def Unsubscribe.encode (u : Unsubscribe) : Except Err (UInt8 × Bytes) := do
  refuse (u.filters == []) (.protocol (.noTopicFilters .unsubscribe))
  let props ← u.properties.encode .unsubscribe
  let filters ← encodeAll encodeFilter u.filters
  pure (reservedFlags .unsubscribe, putUint16 u.packetID ++ (props ++ filters))

/-! ## SUBACK and UNSUBACK -/

/-- The fields of `Suback` and of `Unsuback`. -/
structure Codes where
  packetID : UInt16
  properties : Properties
  reasonCodes : List UInt8
  deriving DecidableEq, Repr

/-- One round of the loop of `decodeReasonCodeList`. -/
def codeRound (codes : List UInt8) : Reader (List UInt8) := do
  let b ← byte
  pure (codes ++ [b])

def decodeReasonCodeList (t : PType) : Reader Codes := do
  let packetID ← uint16
  let properties ← readProperties t
  let reasonCodes ← whileMore codeRound []
  check (reasonCodes == []) (.protocol (.noReasonCodes t))
  pure { packetID, properties, reasonCodes }

def decodeSuback : Reader Codes := decodeReasonCodeList .suback

def decodeUnsuback : Reader Codes := decodeReasonCodeList .unsuback

def encodeReasonCodeList (t : PType) (c : Codes) : Except Err (UInt8 × Bytes) := do
  refuse (c.reasonCodes == []) (.protocol (.noReasonCodes t))
  let props ← c.properties.encode t
  pure (0, putUint16 c.packetID ++ (props ++ c.reasonCodes))

/-! ## Packets -/

inductive Packet
  | connect (c : Connect)
  | connack (c : Connack)
  | publish (p : Publish)
  | puback (a : Ack)
  | pubrec (a : Ack)
  | pubrel (a : Ack)
  | pubcomp (a : Ack)
  | subscribe (s : Subscribe)
  | suback (c : Codes)
  | unsubscribe (u : Unsubscribe)
  | unsuback (c : Codes)
  | pingreq
  | pingresp
  | disconnect (d : Reason)
  | auth (a : Reason)
  deriving DecidableEq, Repr

def Packet.type : Packet → PType
  | .connect _ => .connect
  | .connack _ => .connack
  | .publish _ => .publish
  | .puback _ => .puback
  | .pubrec _ => .pubrec
  | .pubrel _ => .pubrel
  | .pubcomp _ => .pubcomp
  | .subscribe _ => .subscribe
  | .suback _ => .suback
  | .unsubscribe _ => .unsubscribe
  | .unsuback _ => .unsuback
  | .pingreq => .pingreq
  | .pingresp => .pingresp
  | .disconnect _ => .disconnect
  | .auth _ => .auth

def decode (t : PType) (flags : UInt8) : Reader Packet :=
  match t with
  | .connect => Packet.connect <$> decodeConnect
  | .connack => Packet.connack <$> decodeConnack
  | .publish => Packet.publish <$> decodePublish flags
  | .puback => Packet.puback <$> decodeAck .puback
  | .pubrec => Packet.pubrec <$> decodeAck .pubrec
  | .pubrel => Packet.pubrel <$> decodeAck .pubrel
  | .pubcomp => Packet.pubcomp <$> decodeAck .pubcomp
  | .subscribe => Packet.subscribe <$> decodeSubscribe
  | .suback => Packet.suback <$> decodeSuback
  | .unsubscribe => Packet.unsubscribe <$> decodeUnsubscribe
  | .unsuback => Packet.unsuback <$> decodeUnsuback
  | .pingreq => do
    finish fun n => .malformed (.bodyNotEmpty .pingreq n)
    pure .pingreq
  | .pingresp => do
    finish fun n => .malformed (.bodyNotEmpty .pingresp n)
    pure .pingresp
  | .disconnect => Packet.disconnect <$> decodeDisconnect
  | .auth => Packet.auth <$> decodeAuth
  | .willContext => throw (.malformed (.unknownType t))

/-- The `encode` of each packet type. -/
def Packet.encode : Packet → Except Err (UInt8 × Bytes)
  | .connect c => c.encode
  | .connack c => c.encode
  | .publish p => p.encode
  | .puback a => a.encode .puback
  | .pubrec a => a.encode .pubrec
  | .pubrel a => a.encode .pubrel
  | .pubcomp a => a.encode .pubcomp
  | .subscribe s => s.encode
  | .suback c => encodeReasonCodeList .suback c
  | .unsubscribe u => u.encode
  | .unsuback c => encodeReasonCodeList .unsuback c
  | .pingreq => .ok (0, [])
  | .pingresp => .ok (0, [])
  | .disconnect d => d.encode .disconnect
  | .auth a => a.encode .auth

def read (maxPacketSize : UInt32) : Reader Packet := do
  let first ← Parse.one .eof
  let t := PType.ofCode (first >>> 4)
  let flags := first &&& 0x0F
  check (t == .willContext) (.malformed .reservedType)
  check (t != .publish && flags != reservedFlags t) (.malformed (.fixedHeaderFlags t flags))
  let len ← readRemainingLength
  check (decide (0 < maxPacketSize) && decide (maxPacketSize.toNat < 1 + len.2 + len.1))
    .packetTooLarge
  within len.1 (fun _ => .unexpectedEOF) (decode t flags)

def encode (p : Packet) : Except Err Bytes := do
  let r ← p.encode
  refuse (decide (maxVarByteInt < r.2.length)) (.malformed (.bodyTooLong p.type r.2.length))
  pure ([p.type.code <<< 4 ||| r.1] ++ (appendVarByteInt r.2.length ++ r.2))

end Natsmqtt5.Wire
