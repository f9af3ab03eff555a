import Natsmqtt5.Wire.Bytes

/-!
# Properties

`packet/properties.go`: the properties a packet carries, the table of where each may stand, and
their encoding. `Properties.get` lists the values a `Properties` holds of one property, none when it
is absent: `encode` goes through the properties in the order of their identifiers and writes each
value that is legal in the packet; `readProperty` reads one value and puts it in its place. A nil
`*Properties` is the empty one: both encode as a Property Length of 0.
-/

namespace Natsmqtt5.Wire

open Parse

/-- `propID`, in the order of the identifiers. -/
inductive PropID
  | payloadFormat
  | messageExpiry
  | contentType
  | responseTopic
  | correlationData
  | subscriptionID
  | sessionExpiry
  | assignedClientID
  | serverKeepAlive
  | authMethod
  | authData
  | requestProblemInfo
  | willDelayInterval
  | requestResponse
  | responseInfo
  | serverReference
  | reasonString
  | receiveMaximum
  | topicAliasMaximum
  | topicAlias
  | maximumQoS
  | retainAvailable
  | user
  | maximumPacketSize
  | wildcardSubAvail
  | subIDAvail
  | sharedSubAvail
  deriving DecidableEq, Repr

/-- The identifier on the wire. -/
def PropID.code : PropID → Nat
  | .payloadFormat => 0x01
  | .messageExpiry => 0x02
  | .contentType => 0x03
  | .responseTopic => 0x08
  | .correlationData => 0x09
  | .subscriptionID => 0x0B
  | .sessionExpiry => 0x11
  | .assignedClientID => 0x12
  | .serverKeepAlive => 0x13
  | .authMethod => 0x15
  | .authData => 0x16
  | .requestProblemInfo => 0x17
  | .willDelayInterval => 0x18
  | .requestResponse => 0x19
  | .responseInfo => 0x1A
  | .serverReference => 0x1C
  | .reasonString => 0x1F
  | .receiveMaximum => 0x21
  | .topicAliasMaximum => 0x22
  | .topicAlias => 0x23
  | .maximumQoS => 0x24
  | .retainAvailable => 0x25
  | .user => 0x26
  | .maximumPacketSize => 0x27
  | .wildcardSubAvail => 0x28
  | .subIDAvail => 0x29
  | .sharedSubAvail => 0x2A

/-- The properties in the order `encode` writes them. -/
def PropID.all : List PropID :=
  [.payloadFormat, .messageExpiry, .contentType, .responseTopic, .correlationData, .subscriptionID,
    .sessionExpiry, .assignedClientID, .serverKeepAlive, .authMethod, .authData,
      .requestProblemInfo,
    .willDelayInterval, .requestResponse, .responseInfo, .serverReference, .reasonString,
    .receiveMaximum, .topicAliasMaximum, .topicAlias, .maximumQoS, .retainAvailable, .user,
    .maximumPacketSize, .wildcardSubAvail, .subIDAvail, .sharedSubAvail]

/-- The property with an identifier, none when the table has no such property. -/
def PropID.ofCode (raw : Nat) : Option PropID := PropID.all.find? fun id => id.code == raw

/-- `propContexts`. -/
def PropID.contexts : PropID → List PType
  | .payloadFormat => [.publish, .willContext]
  | .messageExpiry => [.publish, .willContext]
  | .contentType => [.publish, .willContext]
  | .responseTopic => [.publish, .willContext]
  | .correlationData => [.publish, .willContext]
  | .subscriptionID => [.publish, .subscribe]
  | .sessionExpiry => [.connect, .connack, .disconnect]
  | .assignedClientID => [.connack]
  | .serverKeepAlive => [.connack]
  | .authMethod => [.connect, .connack, .auth]
  | .authData => [.connect, .connack, .auth]
  | .requestProblemInfo => [.connect]
  | .willDelayInterval => [.willContext]
  | .requestResponse => [.connect]
  | .responseInfo => [.connack]
  | .serverReference => [.connack, .disconnect]
  | .reasonString => [.connack, .puback, .pubrec, .pubrel, .pubcomp, .suback, .unsuback,
      .disconnect,
      .auth]
  | .receiveMaximum => [.connect, .connack]
  | .topicAliasMaximum => [.connect, .connack]
  | .topicAlias => [.publish]
  | .maximumQoS => [.connack]
  | .retainAvailable => [.connack]
  | .user => [.connect, .connack, .publish, .willContext, .puback, .pubrec, .pubrel, .pubcomp,
      .subscribe, .suback, .unsubscribe, .unsuback, .disconnect, .auth]
  | .maximumPacketSize => [.connect, .connack]
  | .wildcardSubAvail => [.connack]
  | .subIDAvail => [.connack]
  | .sharedSubAvail => [.connack]

def PropID.allowedIn (id : PropID) (t : PType) : Bool := id.contexts.contains t

/-- The properties a packet may repeat: User Property and, in a PUBLISH, Subscription Identifier. -/
def PropID.repeatable (id : PropID) (ctx : PType) : Bool :=
  id == .user || (id == .subscriptionID && ctx == .publish)

/-- How the value of a property is encoded. -/
inductive Kind
  | byte
  | uint16
  | uint32
  | string
  | binary
  | varByteInt
  | stringPair
  deriving DecidableEq

/-- The values of a kind. Subscription Identifiers are Go integers. -/
abbrev Kind.Val : Kind → Type
  | .byte => UInt8
  | .uint16 => UInt16
  | .uint32 => UInt32
  | .string => Bytes
  | .binary => Bytes
  | .varByteInt => Int
  | .stringPair => Bytes × Bytes

abbrev PropID.kind : PropID → Kind
  | .payloadFormat => .byte
  | .messageExpiry => .uint32
  | .contentType => .string
  | .responseTopic => .string
  | .correlationData => .binary
  | .subscriptionID => .varByteInt
  | .sessionExpiry => .uint32
  | .assignedClientID => .string
  | .serverKeepAlive => .uint16
  | .authMethod => .string
  | .authData => .binary
  | .requestProblemInfo => .byte
  | .willDelayInterval => .uint32
  | .requestResponse => .byte
  | .responseInfo => .string
  | .serverReference => .string
  | .reasonString => .string
  | .receiveMaximum => .uint16
  | .topicAliasMaximum => .uint16
  | .topicAlias => .uint16
  | .maximumQoS => .byte
  | .retainAvailable => .byte
  | .user => .stringPair
  | .maximumPacketSize => .uint32
  | .wildcardSubAvail => .byte
  | .subIDAvail => .byte
  | .sharedSubAvail => .byte

/-- The value of one property. -/
abbrev PropID.Val (id : PropID) : Type := id.kind.Val

/-- `Properties`. An optional scalar is an option; an empty string or byte string is absent. -/
structure Properties where
  payloadFormat : Option UInt8 := none
  messageExpiryInterval : Option UInt32 := none
  contentType : Bytes := []
  responseTopic : Bytes := []
  correlationData : Bytes := []
  subscriptionIdentifiers : List Int := []
  sessionExpiryInterval : Option UInt32 := none
  assignedClientID : Bytes := []
  serverKeepAlive : Option UInt16 := none
  authenticationMethod : Bytes := []
  authenticationData : Bytes := []
  requestProblemInfo : Option UInt8 := none
  willDelayInterval : Option UInt32 := none
  requestResponseInfo : Option UInt8 := none
  responseInformation : Bytes := []
  serverReference : Bytes := []
  reasonString : Bytes := []
  receiveMaximum : Option UInt16 := none
  topicAliasMaximum : Option UInt16 := none
  topicAlias : Option UInt16 := none
  maximumQoS : Option UInt8 := none
  retainAvailable : Option UInt8 := none
  user : List (Bytes × Bytes) := []
  maximumPacketSize : Option UInt32 := none
  wildcardSubAvailable : Option UInt8 := none
  subIDAvailable : Option UInt8 := none
  sharedSubAvailable : Option UInt8 := none
  deriving DecidableEq, Repr

/-- A string that is there when it is not empty. -/
def present (s : Bytes) : List Bytes := if s = [] then [] else [s]

/-- The values a `Properties` holds of one property: the conditions under which `encode`
writes it. -/
def Properties.get (p : Properties) : (id : PropID) → List id.Val
  | .payloadFormat => p.payloadFormat.toList
  | .messageExpiry => p.messageExpiryInterval.toList
  | .contentType => present p.contentType
  | .responseTopic => present p.responseTopic
  | .correlationData => present p.correlationData
  | .subscriptionID => p.subscriptionIdentifiers
  | .sessionExpiry => p.sessionExpiryInterval.toList
  | .assignedClientID => present p.assignedClientID
  | .serverKeepAlive => p.serverKeepAlive.toList
  | .authMethod => present p.authenticationMethod
  | .authData => present p.authenticationData
  | .requestProblemInfo => p.requestProblemInfo.toList
  | .willDelayInterval => p.willDelayInterval.toList
  | .requestResponse => p.requestResponseInfo.toList
  | .responseInfo => present p.responseInformation
  | .serverReference => present p.serverReference
  | .reasonString => present p.reasonString
  | .receiveMaximum => p.receiveMaximum.toList
  | .topicAliasMaximum => p.topicAliasMaximum.toList
  | .topicAlias => p.topicAlias.toList
  | .maximumQoS => p.maximumQoS.toList
  | .retainAvailable => p.retainAvailable.toList
  | .user => p.user
  | .maximumPacketSize => p.maximumPacketSize.toList
  | .wildcardSubAvail => p.wildcardSubAvailable.toList
  | .subIDAvail => p.subIDAvailable.toList
  | .sharedSubAvail => p.sharedSubAvailable.toList

/-- The assignments of `readProperty`. -/
def Properties.set (p : Properties) : (id : PropID) → id.Val → Properties
  | .payloadFormat, v => { p with payloadFormat := some v }
  | .messageExpiry, v => { p with messageExpiryInterval := some v }
  | .contentType, v => { p with contentType := v }
  | .responseTopic, v => { p with responseTopic := v }
  | .correlationData, v => { p with correlationData := v }
  | .subscriptionID, v => { p with subscriptionIdentifiers := p.subscriptionIdentifiers ++ [v] }
  | .sessionExpiry, v => { p with sessionExpiryInterval := some v }
  | .assignedClientID, v => { p with assignedClientID := v }
  | .serverKeepAlive, v => { p with serverKeepAlive := some v }
  | .authMethod, v => { p with authenticationMethod := v }
  | .authData, v => { p with authenticationData := v }
  | .requestProblemInfo, v => { p with requestProblemInfo := some v }
  | .willDelayInterval, v => { p with willDelayInterval := some v }
  | .requestResponse, v => { p with requestResponseInfo := some v }
  | .responseInfo, v => { p with responseInformation := v }
  | .serverReference, v => { p with serverReference := v }
  | .reasonString, v => { p with reasonString := v }
  | .receiveMaximum, v => { p with receiveMaximum := some v }
  | .topicAliasMaximum, v => { p with topicAliasMaximum := some v }
  | .topicAlias, v => { p with topicAlias := some v }
  | .maximumQoS, v => { p with maximumQoS := some v }
  | .retainAvailable, v => { p with retainAvailable := some v }
  | .user, v => { p with user := p.user ++ [v] }
  | .maximumPacketSize, v => { p with maximumPacketSize := some v }
  | .wildcardSubAvail, v => { p with wildcardSubAvailable := some v }
  | .subIDAvail, v => { p with subIDAvailable := some v }
  | .sharedSubAvail, v => { p with sharedSubAvailable := some v }

/-- One property with its value. -/
structure Item where
  id : PropID
  val : id.Val

/-- The properties of a packet in the order `encode` writes them. -/
def Properties.items (p : Properties) : List Item :=
  PropID.all.flatMap fun id => (p.get id).map (Item.mk id)

/-! ## Reading -/

/-- The readers of `readProperty`. -/
def Kind.read : (k : Kind) → Reader k.Val
  | .byte => Wire.byte
  | .uint16 => Wire.uint16
  | .uint32 => Wire.uint32
  | .string => Wire.string
  | .binary => Wire.binary
  | .varByteInt => do
    let v ← Wire.varByteInt
    pure (v : Int)
  | .stringPair => Wire.stringPair

/-- A byte that must be 0 or 1. -/
def flagByte (fault : UInt8 → ProtocolFault) (v : UInt8) : Except Err Unit :=
  refuse (decide (1 < v)) (.protocol (fault v))

/-- The checks `readProperty` makes of a value. -/
def PropID.accept : (id : PropID) → id.Val → Except Err Unit
  | .payloadFormat, v => flagByte .payloadFormat v
  | .subscriptionID, v => refuse ((v : Int) == 0) (.protocol .subscriptionIDZero)
  | .requestProblemInfo, v => flagByte .requestProblemInfo v
  | .requestResponse, v => flagByte .requestResponseInfo v
  | .receiveMaximum, v => refuse ((v : UInt16) == 0) (.protocol .receiveMaximumZero)
  | .topicAlias, v => refuse ((v : UInt16) == 0) (.protocol .topicAliasZero)
  | .maximumQoS, v => flagByte .maximumQoS v
  | .retainAvailable, v => flagByte .retainAvailable v
  | .maximumPacketSize, v => refuse ((v : UInt32) == 0) (.protocol .maximumPacketSizeZero)
  | .wildcardSubAvail, v => flagByte .wildcardSubAvailable v
  | .subIDAvail, v => flagByte .subIDAvailable v
  | .sharedSubAvail, v => flagByte .sharedSubAvailable v
  | .messageExpiry, _ | .contentType, _ | .responseTopic, _ | .correlationData, _
  | .sessionExpiry, _ | .assignedClientID, _ | .serverKeepAlive, _ | .authMethod, _ | .authData, _
  | .willDelayInterval, _ | .responseInfo, _ | .serverReference, _ | .reasonString, _
  | .topicAliasMaximum, _ | .user, _ => .ok ()

def readProperty (p : Properties) (id : PropID) : Reader Properties := do
  let v ← id.kind.read
  id.accept v
  pure (p.set id v)

/-- One round of `readProperties`, with the properties seen so far. -/
def propertyRound (ctx : PType) (st : Properties × List PropID) :
    Reader (Properties × List PropID) := do
  let raw ← varByteInt
  match PropID.ofCode raw with
  | none => throw (.malformed (.propertyNotAllowed raw ctx))
  | some id => do
    check (!id.allowedIn ctx) (.malformed (.propertyNotAllowed raw ctx))
    check (st.2.contains id && !id.repeatable ctx) (.protocol (.propertyRepeated raw))
    let p ← readProperty st.1 id
    pure (p, id :: st.2)

/-- `readProperties`. A Property Length of 0 has no rounds. -/
def readProperties (ctx : PType) : Reader Properties := do
  let n ← varByteInt
  let st ← within n (fun left => .malformed (.propertyLength n left))
    (whileMore (propertyRound ctx) ({}, []))
  pure st.1

/-! ## Writing -/

/-- The bytes of a value. -/
def Kind.put : (k : Kind) → k.Val → Bytes
  | .byte, v => [v]
  | .uint16, v => putUint16 v
  | .uint32, v => putUint32 v
  | .string, v => putString v
  | .binary, v => putBinary v
  | .varByteInt, v => appendVarByteInt v.toNat
  | .stringPair, v => putStringPair v.1 v.2

/-- The bytes of one property. -/
def Item.put (it : Item) : Bytes := UInt8.ofNat it.id.code :: it.id.kind.put it.val

/-- The checks `encode` makes of a value, whether or not it is written. -/
def PropID.checkEncode : (id : PropID) → id.Val → Except Err Unit
  | .contentType, v => checkLen .contentType v
  | .responseTopic, v => checkLen .responseTopic v
  | .correlationData, v => checkLen .correlationData v
  | .subscriptionID, v =>
    if v < 1 ∨ (maxVarByteInt : Int) < v then .error (.protocol (.subscriptionIDRange v)) else .ok
      ()
  | .assignedClientID, v => checkLen .assignedClientID v
  | .authMethod, v => checkLen .authenticationMethod v
  | .authData, v => checkLen .authenticationData v
  | .responseInfo, v => checkLen .responseInformation v
  | .serverReference, v => checkLen .serverReference v
  | .reasonString, v => checkLen .reasonString v
  | .user, v => do
    checkLen .userPropertyName v.1
    checkLen .userPropertyValue v.2
  | .payloadFormat, _ | .messageExpiry, _ | .sessionExpiry, _ | .serverKeepAlive, _
  | .requestProblemInfo, _ | .willDelayInterval, _ | .requestResponse, _ | .receiveMaximum, _
  | .topicAliasMaximum, _ | .topicAlias, _ | .maximumQoS, _ | .retainAvailable, _
  | .maximumPacketSize, _ | .wildcardSubAvail, _ | .subIDAvail, _ | .sharedSubAvail, _ => .ok ()

/-- The body of `encode`: each property is checked, and written when it is legal in `ctx`. -/
def putItems (ctx : PType) : List Item → Except Err Bytes
  | [] => .ok []
  | it :: its => do
    it.id.checkEncode it.val
    let rest ← putItems ctx its
    pure ((if it.id.allowedIn ctx then it.put else []) ++ rest)

def Properties.encode (p : Properties) (ctx : PType) : Except Err Bytes := do
  let body ← putItems ctx p.items
  pure (appendVarByteInt body.length ++ body)

end Natsmqtt5.Wire
