import Natsmqtt5.Wire.Properties

/-!
# An MQTT message as a NATS message

`message.go`: what a PUBLISH carries besides its payload travels in headers. A string of the source
is its bytes; `Header` is the list of the lines in order, and `set`, `add`, `get` and `values` are
`nats.Header`'s.

Results:
* `qos_fromNATS_toNATS`, `messageID_toNATS`: the QoS of a PUBLISH and the id of the message are read
  back.
-/

namespace Natsmqtt5

/-! ## The PUBLISH -/

/-- `packet.Publish`, what `toNATS` reads of it. -/
structure Publish where
  qos : QoS
  retain : Bool := false
  properties : Wire.Properties := {}
  payload : Bytes := []

/-! ## Headers -/

/-- The header names, `hdrQoS` and the others. -/
inductive HeaderKey
  | qos
  | retain
  | payloadFormat
  | messageExpiry
  | contentType
  | responseTopic
  | correlationData
  | userProperty
  | origin
  | msgID
  deriving DecidableEq

abbrev Header := List (HeaderKey × Bytes)

namespace Header

def set (h : Header) (k : HeaderKey) (v : Bytes) : Header := h.filter (·.1 ≠ k) ++ [(k, v)]

def add (h : Header) (k : HeaderKey) (v : Bytes) : Header := h ++ [(k, v)]

def values (h : Header) (k : HeaderKey) : List Bytes := (h.filter (·.1 = k)).map Prod.snd

/-- The first value, empty where there is none. -/
def get (h : Header) (k : HeaderKey) : Bytes := (h.values k).headD []

variable {h : Header} {k j : HeaderKey} {v : Bytes}

@[simp] theorem values_nil : values [] k = [] := rfl

@[simp] theorem values_set_self : (h.set k v).values k = [v] := by
  simp [set, values, List.filter_filter]

theorem values_set_of_ne (hjk : j ≠ k) : (h.set k v).values j = h.values j := by
  have hsame : ∀ p : HeaderKey × Bytes,
      (decide (p.1 = j) && !decide (p.1 = k)) = decide (p.1 = j) := by
    intro p
    by_cases hp : p.1 = j
    · simp [hp, hjk]
    · simp [hp]
  simp [set, values, List.filter_filter, hsame, hjk.symm]

theorem values_add_of_ne (hjk : j ≠ k) : (h.add k v).values j = h.values j := by
  simp [add, values, hjk.symm]

theorem values_set : (h.set k v).values j = if j = k then [v] else h.values j := by
  split_ifs with hjk
  · rw [hjk, values_set_self]
  · exact values_set_of_ne hjk

theorem values_ite {h' : Header} {c : Prop} [Decidable c] :
    (if c then h else h').values j = if c then h.values j else h'.values j :=
  apply_ite (fun h : Header => h.values j) c h h'

end Header

/-! ## Values -/

/-- `strconv.Itoa`. -/
def itoa (n : Nat) : Bytes := (Nat.toDigits 10 n).map fun c => c.toNat.toUInt8

def digit (n : Nat) (ch : UInt8) : Option Nat :=
  if 48 ≤ ch ∧ ch ≤ 57 then some (n * 10 + (ch.toNat - 48)) else none

def digits (s : Bytes) : Option Nat := if s = [] then none else s.foldlM digit 0

/-- `strconv.Atoi`: a sign may stand in front. Its range is above every value that is accepted. -/
def atoi : Bytes → Option Int
  | 43 :: s => (digits s).map Int.ofNat
  | 45 :: s => (digits s).map fun n => -Int.ofNat n
  | s => (digits s).map Int.ofNat

/-- `strconv.ParseUint(v, 10, 32)`. -/
def parseUint32 (s : Bytes) : Option UInt32 :=
  (digits s).bind fun n => if n < 4294967296 then some n.toUInt32 else none

/-- The bytes `escapeHeader` encodes. -/
def unsafeHeaderByte (ch : UInt8) : Bool := ch = 37 || ch < 0x20 || ch = 0x7F

/-- A digit of `"0123456789ABCDEF"`. -/
def hex (n : UInt8) : UInt8 := if n < 10 then 48 + n else 55 + n

def escapeHeader (s : Bytes) : Bytes :=
  s.flatMap fun ch => if unsafeHeaderByte ch then [37, hex (ch >>> 4), hex (ch &&& 0x0F)] else [ch]

def hexVal (ch : UInt8) : Option UInt8 :=
  if 48 ≤ ch ∧ ch ≤ 57 then some (ch - 48)
  else if 65 ≤ ch ∧ ch ≤ 70 then some (ch - 65 + 10)
  else if 97 ≤ ch ∧ ch ≤ 102 then some (ch - 97 + 10)
  else none

def unescapeHeader : Bytes → Bytes
  | 37 :: a :: b :: rest =>
    match hexVal a, hexVal b with
    | some hi, some lo => (hi <<< 4 ||| lo) :: unescapeHeader rest
    | _, _ => 37 :: unescapeHeader (a :: b :: rest)
  | ch :: rest => ch :: unescapeHeader rest
  | [] => []

/-- `strings.Cut` at the first blank. -/
def cut : Bytes → Option (Bytes × Bytes)
  | [] => none
  | 32 :: rest => some ([], rest)
  | ch :: rest => (cut rest).map fun p => (ch :: p.1, p.2)

/-! ## The message -/

/-- `nats.Msg`, without the subject. -/
structure Msg where
  data : Bytes
  header : Header

/-- The headers of the properties. -/
def Wire.Properties.headers (props : Properties) (h : Header) : Header :=
  let h := match props.payloadFormat with
    | some f => h.set .payloadFormat (itoa f.toNat)
    | none => h
  let h := match props.messageExpiryInterval with
    | some e => h.set .messageExpiry (itoa e.toNat)
    | none => h
  let h := if props.contentType = [] then h else h.set .contentType (escapeHeader props.contentType)
  let h := if props.responseTopic = [] then h
    else h.set .responseTopic (escapeHeader props.responseTopic)
  let h := if props.correlationData = [] then h
    else h.set .correlationData (escapeHeader props.correlationData)
  props.user.foldl (fun h up =>
    h.add .userProperty (escapeHeader up.1 ++ 32 :: escapeHeader up.2)) h

/-- `toNATS`; `id` is the `newMessageID` of the call. -/
def toNATS (originClientID id : Bytes) (p : Publish) : Msg :=
  let h : Header := (Header.set [] .qos (itoa p.qos.toNat)).set .msgID id
  let h := if p.retain then h.set .retain [49] else h
  let h := if originClientID = [] then h else h.set .origin (escapeHeader originClientID)
  ⟨p.payload, p.properties.headers h⟩

/-- The QoS header, 0 for any other text. -/
def qosOf (v : Bytes) : QoS :=
  match atoi v with
  | some 1 => .qos1
  | some 2 => .qos2
  | _ => .qos0

/-- The Payload Format Indicator header: 0 or 1, or none. -/
def formatOf (v : Bytes) : Option UInt8 :=
  match atoi v with
  | some 0 => some 0
  | some 1 => some 1
  | _ => none

/-- What `fromNATS` returns. -/
structure FromNATS where
  qos : QoS
  retain : Bool
  origin : Bytes
  props : Wire.Properties

def fromNATS (m : Msg) : FromNATS :=
  let h := m.header
  { qos := qosOf (h.get .qos)
    retain := decide (h.get .retain = [49])
    origin := unescapeHeader (h.get .origin)
    props :=
      { payloadFormat := formatOf (h.get .payloadFormat)
        messageExpiryInterval := parseUint32 (h.get .messageExpiry)
        contentType := unescapeHeader (h.get .contentType)
        responseTopic := unescapeHeader (h.get .responseTopic)
        correlationData := unescapeHeader (h.get .correlationData)
        user := (h.values .userProperty).filterMap fun raw => (cut raw).map fun p =>
          ⟨unescapeHeader p.1, unescapeHeader p.2⟩ } }

def messageID (m : Msg) : Bytes := m.header.get .msgID

/-! ## The headers of a PUBLISH -/

/-- Every User Property is a value of one header, and the only one. -/
theorem Header.values_user {j : HeaderKey} (ups : List (Bytes × Bytes)) (h : Header) :
    (ups.foldl (fun h up => h.add .userProperty
        (escapeHeader up.1 ++ 32 :: escapeHeader up.2)) h).values j =
      if j = .userProperty then
        h.values j ++ ups.map fun up => escapeHeader up.1 ++ 32 :: escapeHeader up.2
      else h.values j := by
  induction ups generalizing h with
  | nil => simp
  | cons up ups ih =>
    rw [List.foldl_cons, ih]
    split_ifs with hj
    · subst hj
      simp [Header.add, Header.values]
    · exact Header.values_add_of_ne hj

/-- The headers every PUBLISH has. -/
def Publish.base (p : Publish) (originClientID id : Bytes) : Header :=
  let h : Header := (Header.set [] .qos (itoa p.qos.toNat)).set .msgID id
  let h := if p.retain then h.set .retain [49] else h
  if originClientID = [] then h else h.set .origin (escapeHeader originClientID)

theorem header_toNATS (originClientID id : Bytes) (p : Publish) :
    (toNATS originClientID id p).header = p.properties.headers (p.base originClientID id) :=
  rfl

theorem Publish.values_base (p : Publish) (originClientID id : Bytes) (j : HeaderKey) :
    (p.base originClientID id).values j = match j with
      | .qos => [itoa p.qos.toNat]
      | .msgID => [id]
      | .retain => if p.retain then [[49]] else []
      | .origin => if originClientID = [] then [] else [escapeHeader originClientID]
      | _ => [] := by
  unfold base
  cases j <;> simp [Header.values_set, Header.values_ite]

theorem Wire.Properties.values_headers (props : Properties) (h : Header) (j : HeaderKey) :
    (props.headers h).values j = match j with
      | .payloadFormat => (props.payloadFormat.map fun f => [itoa f.toNat]).getD (h.values j)
      | .messageExpiry =>
        (props.messageExpiryInterval.map fun n => [itoa n.toNat]).getD (h.values j)
      | .contentType =>
        if props.contentType = [] then h.values j else [escapeHeader props.contentType]
      | .responseTopic =>
        if props.responseTopic = [] then h.values j else [escapeHeader props.responseTopic]
      | .correlationData =>
        if props.correlationData = [] then h.values j else [escapeHeader props.correlationData]
      | .userProperty =>
        h.values j ++ props.user.map fun up => escapeHeader up.1 ++ 32 :: escapeHeader up.2
      | _ => h.values j := by
  unfold headers
  simp only [Header.values_user, Header.values_ite, Header.values_set]
  cases props.payloadFormat with
  | none =>
    cases props.messageExpiryInterval with
    | none => cases j <;> simp
    | some n => cases j <;> simp [Header.values_set]
  | some f =>
    cases props.messageExpiryInterval with
    | none | some n => cases j <;> simp [Header.values_set]

/-! ## The QoS and the id are read back -/

theorem qosOf_itoa (q : QoS) : qosOf (itoa q.toNat) = q := by
  cases q <;> decide

theorem qos_fromNATS_toNATS (originClientID id : Bytes) (p : Publish) :
    (fromNATS (toNATS originClientID id p)).qos = p.qos := by
  unfold fromNATS
  simp only [header_toNATS, Header.get, Wire.Properties.values_headers, Publish.values_base,
    List.headD_cons]
  exact qosOf_itoa p.qos

theorem messageID_toNATS (originClientID id : Bytes) (p : Publish) :
    messageID (toNATS originClientID id p) = id := by
  unfold messageID
  simp only [header_toNATS, Header.get, Wire.Properties.values_headers, Publish.values_base,
    List.headD_cons]

end Natsmqtt5
