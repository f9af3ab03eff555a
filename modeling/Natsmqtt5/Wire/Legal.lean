import Natsmqtt5.Wire.Items
import Natsmqtt5.Wire.Packet

/-!
# Legal packets

What the specification asks of a packet, apart from any code, and what of a packet its encoding
keeps. `Packet.Legal` leaves out the length of the body, which is `Packet.Fits`, and Session
Present, which is `Packet.SessionOk`: the encoder sees to that by itself.
-/

namespace Natsmqtt5.Wire

/-! ## Legal packets -/

structure Will.Legal (w : Will) : Prop where
  topic : IsString w.topic
  payload : w.payload.length ≤ 65535
  qos : w.qos ≤ 2
  properties : w.properties.Legal

structure Connect.Legal (c : Connect) : Prop where
  clientID : IsString c.clientID
  will : ∀ w ∈ c.will, w.Legal
  username : IsString c.username
  password : ∀ pw ∈ c.password, pw.length ≤ 65535
  properties : c.properties.Legal
  authentication : c.properties.authenticationData ≠ [] → c.properties.authenticationMethod ≠ []

/-- Session Present is apart: see `Packet.SessionOk`. -/
structure Connack.Legal (c : Connack) : Prop where
  properties : c.properties.Legal

structure Publish.Legal (p : Publish) : Prop where
  qos : p.qos ≤ 2
  dup : p.dup = true → p.qos ≠ 0
  topic : IsString p.topic
  packetID : p.qos ≠ 0 → p.packetID ≠ 0
  properties : p.properties.Legal
  named : p.topic ≠ [] ∨ p.properties.topicAlias ≠ none

structure Subscription.Legal (s : Subscription) : Prop where
  filter : IsString s.filter
  qos : s.qos ≤ 2
  retainHandling : s.retainHandling ≤ 2

structure Subscribe.Legal (s : Subscribe) : Prop where
  packetID : s.packetID ≠ 0
  properties : s.properties.Legal
  single : s.properties.subscriptionIdentifiers.length ≤ 1
  subscriptions : ∀ sub ∈ s.subscriptions, sub.Legal
  nonempty : s.subscriptions ≠ []

structure Unsubscribe.Legal (u : Unsubscribe) : Prop where
  packetID : u.packetID ≠ 0
  properties : u.properties.Legal
  filters : ∀ f ∈ u.filters, IsString f
  nonempty : u.filters ≠ []

structure Codes.Legal (c : Codes) : Prop where
  properties : c.properties.Legal
  nonempty : c.reasonCodes ≠ []

/-- A packet the specification allows, apart from the length of its body and Session Present. -/
def Packet.Legal : Packet → Prop
  | .connect c => c.Legal
  | .connack c => c.Legal
  | .publish p => p.Legal
  | .puback a | .pubrec a | .pubrel a | .pubcomp a => a.properties.Legal
  | .subscribe s => s.Legal
  | .suback c | .unsuback c => c.Legal
  | .unsubscribe u => u.Legal
  | .pingreq | .pingresp => True
  | .disconnect d => d.properties.Legal
  | .auth a => a.properties.Legal

/-- Session Present goes only with a Reason Code that is no error. -/
def Packet.SessionOk : Packet → Prop
  | .connack c => c.sessionPresent = true → isError c.reasonCode = false
  | _ => True

/-! ## What is read of a packet -/

def Will.canon (w : Will) : Will := { w with properties := w.properties.legalIn .willContext }

def Connect.canon (c : Connect) : Connect :=
  { c with
    will := c.will.map Will.canon
    password := c.password.filter (· != [])
    properties := c.properties.legalIn .connect
    protocolVersion := protocolVersion5 }

def Connack.canon (c : Connack) : Connack := { c with properties := c.properties.legalIn .connack }

def Publish.canon (p : Publish) : Publish :=
  { p with
    packetID := if p.qos = 0 then 0 else p.packetID
    properties := p.properties.legalIn .publish }

def Ack.canon (a : Ack) (t : PType) : Ack := { a with properties := a.properties.legalIn t }

def Reason.canon (d : Reason) (t : PType) :
    Reason := { d with properties := d.properties.legalIn t }

def Codes.canon (c : Codes) (t : PType) : Codes := { c with properties := c.properties.legalIn t }

/-- A packet as it is read back: properties not legal in it are dropped, an empty Password is nil,
the Protocol Version of a CONNECT is 5 and a PUBLISH at QoS 0 has no Packet Identifier. -/
def Packet.canon : Packet → Packet
  | .connect c => .connect c.canon
  | .connack c => .connack c.canon
  | .publish p => .publish p.canon
  | .puback a => .puback (a.canon .puback)
  | .pubrec a => .pubrec (a.canon .pubrec)
  | .pubrel a => .pubrel (a.canon .pubrel)
  | .pubcomp a => .pubcomp (a.canon .pubcomp)
  | .subscribe s => .subscribe { s with properties := s.properties.legalIn .subscribe }
  | .suback c => .suback (c.canon .suback)
  | .unsubscribe u => .unsubscribe { u with properties := u.properties.legalIn .unsubscribe }
  | .unsuback c => .unsuback (c.canon .unsuback)
  | .pingreq => .pingreq
  | .pingresp => .pingresp
  | .disconnect d => .disconnect (d.canon .disconnect)
  | .auth a => .auth (a.canon .auth)

/-- Session Present is cleared on a CONNACK whose Reason Code is an error. -/
def Packet.clearSession : Packet → Packet
  | .connack c => .connack { c with sessionPresent := c.sessionPresent && !isError c.reasonCode }
  | p => p

/-- The body is within the limit of the Remaining Length. -/
def Packet.Fits (p : Packet) : Prop := ∀ r, p.encode = .ok r → r.2.length ≤ maxVarByteInt

end Natsmqtt5.Wire
