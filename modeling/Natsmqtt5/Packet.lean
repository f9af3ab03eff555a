import Mathlib.Data.Finset.Basic

/-!
# Packet vocabulary

The parts of `packet/types.go` that the handlers read: the QoS levels, the reason codes they send,
and which acknowledgement ends which stage of an exchange. A Packet Identifier is a `Nat`; the
client's own identifiers arrive as they are, and the ones the broker hands out are bounded by its
allocator.
-/

namespace Natsmqtt5

/-- A byte string, as Go strings are. -/
abbrev Bytes := List UInt8

/-- An ASCII text. -/
def ascii (s : String) : Bytes := s.toList.map fun ch => UInt8.ofNat ch.toNat

/-- A Packet Identifier. -/
abbrev PacketID := Nat

/-- `packet.QoS`. -/
inductive QoS
  | qos0
  | qos1
  | qos2
  deriving DecidableEq, Repr

/-- The value on the wire. -/
def QoS.toNat : QoS → Nat
  | .qos0 => 0
  | .qos1 => 1
  | .qos2 => 2

/-- `packet.ReasonCode`: the codes the modelled handlers send or tell apart. -/
inductive ReasonCode
  | success
  | noMatchingSubscribers
  | unspecifiedError
  | protocolError
  | implementationSpecificError
  | notAuthorized
  | topicNameInvalid
  | packetIdentifierNotFound
  | receiveMaximumExceeded
  | topicAliasInvalid
  | retainNotSupported
  | qosNotSupported
  deriving DecidableEq, Repr

/-- The value on the wire. -/
def ReasonCode.toNat : ReasonCode → Nat
  | .success => 0x00
  | .noMatchingSubscribers => 0x10
  | .unspecifiedError => 0x80
  | .protocolError => 0x82
  | .implementationSpecificError => 0x83
  | .notAuthorized => 0x87
  | .topicNameInvalid => 0x90
  | .packetIdentifierNotFound => 0x92
  | .receiveMaximumExceeded => 0x93
  | .topicAliasInvalid => 0x94
  | .retainNotSupported => 0x9A
  | .qosNotSupported => 0x9B

/-- `ReasonCode.IsError`: 0x80 or greater. -/
def ReasonCode.isError (r : ReasonCode) : Bool := decide (0x80 ≤ r.toNat)

/-- The acknowledgements a client answers a PUBLISH with: `packet.PUBACK`, `PUBREC`, `PUBCOMP`. -/
inductive AckType
  | puback
  | pubrec
  | pubcomp
  deriving DecidableEq, Repr

end Natsmqtt5
