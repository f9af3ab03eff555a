import Natsmqtt5.Topic.Name

/-!
# The checks of a PUBLISH

The head of `handlePublish` (`publish.go:22-57`): what it refuses with a DISCONNECT before it looks
at the Topic Name, `resolveAlias` (`publish.go:217-249`), and `dollarName` (`dollar.go:28`).
-/

namespace Natsmqtt5.Topic

/-- `packet.Publish`, as a client sends it. -/
structure PublishPacket extends Publish where
  topic : Bytes := []
  packetID : PacketID := 0

/-- Why a PUBLISH ends its connection. -/
inductive Fault
  | subscriptionIdentifier
  | qos (qos maxQoS : QoS)
  | retain
  | responseTopic (responseTopic : Bytes)
  | aliasAbove (topicAlias topicAliasMax : UInt16)
  | aliasUnmapped (topicAlias : UInt16)
  deriving DecidableEq

/-- The reason code of the DISCONNECT. -/
def Fault.code : Fault → ReasonCode
  | .subscriptionIdentifier => .protocolError
  | .qos _ _ => .qosNotSupported
  | .retain => .retainNotSupported
  | .responseTopic _ => .protocolError
  | .aliasAbove _ _ => .topicAliasInvalid
  | .aliasUnmapped _ => .topicAliasInvalid

/-- Its reason string; `quote` is the `%q` of a text. -/
def Fault.text (quote : Bytes → String) : Fault → String
  | .subscriptionIdentifier => "a PUBLISH from a client must not carry a Subscription Identifier"
  | .qos q maxQoS =>
    "QoS " ++ toString q.toNat ++ " exceeds the broker's maximum of " ++ toString maxQoS.toNat
  | .retain => "this broker has retained messages disabled"
  | .responseTopic t => "the Response Topic " ++ quote t ++ " contains a wildcard"
  | .aliasAbove a topicAliasMax =>
    "Topic Alias " ++ toString a ++ " exceeds the advertised maximum of " ++ toString topicAliasMax
  | .aliasUnmapped a => "Topic Alias " ++ toString a ++ " has not been mapped on this connection"

/-- The checks of `handlePublish` before it looks at the topic. -/
def packetRefused (maxQoS : QoS) (retainAvailable : Bool) (p : PublishPacket) : Option Fault :=
  if p.properties.subscriptionIdentifiers ≠ [] then some .subscriptionIdentifier
  else if maxQoS.toNat < p.qos.toNat then some (.qos p.qos maxQoS)
  else if p.retain && !retainAvailable then some .retain
  else if hasWildcard p.properties.responseTopic then
    some (.responseTopic p.properties.responseTopic)
  else none

/-- `resolveAlias`: a PUBLISH with a Topic Name and an alias sets the mapping, one with an empty
Topic Name uses it. The aliases of the connection after it, and the Topic Name. -/
def resolveAlias (topicAliasMax : UInt16) (aliases : UInt16 → Option Bytes) (p : PublishPacket) :
    Except Fault ((UInt16 → Option Bytes) × Bytes) :=
  match p.properties.topicAlias with
  | none => .ok (aliases, p.topic)
  | some a =>
    if topicAliasMax < a then .error (.aliasAbove a topicAliasMax)
    else if p.topic ≠ [] then .ok (Function.update aliases a (some p.topic), p.topic)
    else
      match aliases a with
      | some name => .ok (aliases, name)
      | none => .error (.aliasUnmapped a)

/-- A Topic Name that a restricted broker refuses. -/
def dollarName (name : Bytes) : Bool := name.head? = some 36

end Natsmqtt5.Topic
