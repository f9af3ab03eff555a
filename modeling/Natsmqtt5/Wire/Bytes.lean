import Natsmqtt5.Packet
import Natsmqtt5.Parse
import Mathlib.Data.Nat.Bitwise

/-!
# The encodings packets are made of

`packet/codec.go` and the Remaining Length of `packet/packet.go`: integers of fixed width, Variable
Byte Integers, Binary Data and UTF-8 Encoded Strings. A `reader` is what is left of its buffer, so
that a function of it is a parser; a `writer` is the bytes it appends. Go strings are byte strings.
Of an error the model keeps which one it is and the values it is made with; its text is left out.

Results:
* `varByteInt_reads`, `remainingLength_reads`: both decoders read what `appendVarByteInt` writes.
* `varByteInt_takes`, `remainingLength_takes`: and take as many bytes as it would write, never
  fewer.
* `string_reads`, `string_takes`: a string is read back exactly when it is text of at most 65535
  bytes.
* `runes_not_surrogate`: well-formed UTF-8 encodes no surrogate, so that the check for one never
  fails.
-/

namespace Natsmqtt5.Wire

/-- `Type`: the control packet types, and `willContext`, which shares their space as number 0. -/
inductive PType
  | willContext
  | connect
  | connack
  | publish
  | puback
  | pubrec
  | pubrel
  | pubcomp
  | subscribe
  | suback
  | unsubscribe
  | unsuback
  | pingreq
  | pingresp
  | disconnect
  | auth
  deriving DecidableEq, Repr

/-- The faults `malformed` reports. -/
inductive Malformed
  | reservedType
  | fixedHeaderFlags (t : PType) (flags : UInt8)
  | remainingLengthNotMinimal
  | remainingLengthTooLong
  | bodyNotEmpty (t : PType) (n : Nat)
  | unknownType (t : PType)
  | bodyTooLong (t : PType) (n : Nat)
  | truncatedByte (n : Nat)
  | truncatedUint16 (n : Nat)
  | truncatedUint32 (n : Nat)
  | truncatedVarByteInt
  | varByteIntNotMinimal
  | varByteIntTooLong
  | truncatedBinary (want n : Nat)
  | notUTF8
  | nulCharacter
  | surrogate (r : Nat)
  | propertyLength (n left : Nat)
  | propertyNotAllowed (raw : Nat) (ctx : PType)
  | protocolName (name : Bytes)
  | connectReservedFlag
  | willQoSWithoutWill (q : UInt8)
  | willRetainWithoutWill
  | willQoS (q : UInt8)
  | trailingBytes (t : PType) (n : Nat)
  | connackFlags
  | publishQoS (q : UInt8)
  | dupAtQoS0
  | subscriptionOptions
  deriving DecidableEq, Repr

/-- The faults `protocolError` reports. -/
inductive ProtocolFault
  | propertyRepeated (raw : Nat)
  | payloadFormat (v : UInt8)
  | subscriptionIDZero
  | subscriptionIDRange (id : Int)
  | requestProblemInfo (v : UInt8)
  | requestResponseInfo (v : UInt8)
  | receiveMaximumZero
  | topicAliasZero
  | maximumQoS (v : UInt8)
  | retainAvailable (v : UInt8)
  | maximumPacketSizeZero
  | wildcardSubAvailable (v : UInt8)
  | subIDAvailable (v : UInt8)
  | sharedSubAvailable (v : UInt8)
  | authenticationData
  | publishPacketID (q : UInt8)
  | noTopic
  | packetIDZero (t : PType)
  | optionsQoS
  | optionsRetainHandling
  | noTopicFilters (t : PType)
  | subscriptionQoS (filter : Bytes) (q : UInt8)
  | subscriptionRetainHandling (filter : Bytes) (h : UInt8)
  | noReasonCodes (t : PType)
  deriving DecidableEq, Repr

/-- The fields whose length the encoder checks. -/
inductive Field
  | clientID
  | willTopic
  | willPayload
  | userName
  | password
  | topicName
  | topicFilter
  | contentType
  | responseTopic
  | correlationData
  | assignedClientID
  | authenticationMethod
  | authenticationData
  | responseInformation
  | serverReference
  | reasonString
  | userPropertyName
  | userPropertyValue
  deriving DecidableEq, Repr

/-- What `Read` and `Encode` fail with. -/
inductive Err
  | malformed (f : Malformed)
  | protocol (f : ProtocolFault)
  | packetTooLarge
  | eof
  | unexpectedEOF
  | unsupportedVersion (v : UInt8)
  | tooLong (f : Field) (n : Nat)
  deriving DecidableEq, Repr

/-- A function of `reader`, or of the connection's buffered reader. -/
abbrev Reader := Parse UInt8 Err

def maxVarByteInt : Nat := 268435455

/-! ## Integers -/

/-- `reader.byte`. -/
def byte : Reader UInt8 := Parse.one (.malformed (.truncatedByte 0))

/-- `reader.uint16`. -/
def uint16 : Reader UInt16 := do
  let b ← Parse.takeN 2 fun n => .malformed (.truncatedUint16 n)
  pure (((b.getD 0 0).toUInt16 <<< 8) ||| (b.getD 1 0).toUInt16)

/-- `reader.uint32`. -/
def uint32 : Reader UInt32 := do
  let b ← Parse.takeN 4 fun n => .malformed (.truncatedUint32 n)
  pure (((b.getD 0 0).toUInt32 <<< 24) ||| ((b.getD 1 0).toUInt32 <<< 16) |||
    ((b.getD 2 0).toUInt32 <<< 8) ||| (b.getD 3 0).toUInt32)

/-- `writer.uint16`. -/
def putUint16 (v : UInt16) : Bytes := [(v >>> 8).toUInt8, (v &&& 0xff).toUInt8]

/-- `writer.uint32`. -/
def putUint32 (v : UInt32) : Bytes :=
  [(v >>> 24).toUInt8, (v >>> 16 &&& 0xff).toUInt8, (v >>> 8 &&& 0xff).toUInt8,
    (v &&& 0xff).toUInt8]

/-- The loop of `varByteInt` and of `readRemainingLength`: round `i` of four, with the value and the
multiplier so far. Returns the value and the number of bytes it occupied. -/
def varIntRounds (short notMinimal long : Err) : Nat → Nat → Nat → Nat → Reader (Nat × Nat)
  | 0, _, _, _ => throw long
  | rounds + 1, i, value, multiplier => do
    let b ← Parse.one short
    let value' := value + (b &&& 0x7F).toNat <<< multiplier
    if b &&& 0x80 = 0 then do
      Parse.check (decide (0 < i) && b == 0) notMinimal
      pure (value', i + 1)
    else varIntRounds short notMinimal long rounds (i + 1) value' (multiplier + 7)

/-- `reader.varByteInt`. -/
def varByteInt : Reader Nat := do
  let v ← varIntRounds (.malformed .truncatedVarByteInt) (.malformed .varByteIntNotMinimal)
    (.malformed .varByteIntTooLong) 4 0 0 0
  pure v.1

/-- `readRemainingLength`: the value and its width. -/
def readRemainingLength : Reader (Nat × Nat) :=
  varIntRounds .unexpectedEOF (.malformed .remainingLengthNotMinimal)
    (.malformed .remainingLengthTooLong) 4 0 0 0

/-- The loop of `appendVarByteInt`, with a bound on its rounds. -/
def appendRounds : Nat → Nat → Bytes
  | 0, _ => []
  | rounds + 1, v =>
    let b := UInt8.ofNat (v % 128)
    if 0 < v / 128 then (b ||| 0x80) :: appendRounds rounds (v / 128) else [b]

/-- `appendVarByteInt`: every round divides the value by 128. -/
def appendVarByteInt (v : Nat) : Bytes := appendRounds (v + 1) v

def varByteIntLen (v : Nat) : Nat :=
  if v < 128 then 1 else if v < 16384 then 2 else if v < 2097152 then 3 else 4

/-! ## Binary Data and strings -/

/-- `reader.binary`. -/
def binary : Reader Bytes := do
  let n ← uint16
  Parse.takeN n.toNat fun left => .malformed (.truncatedBinary n.toNat left)

/-- A continuation byte of UTF-8. -/
def isCont (c : UInt8) : Bool := 0x80 ≤ c && c ≤ 0xBF

/-- Whether `c` may follow the first byte `b` of a sequence of three or four. -/
def acceptSecond (b c : UInt8) : Bool :=
  if b = 0xE0 then 0xA0 ≤ c && c ≤ 0xBF
  else if b = 0xED then 0x80 ≤ c && c ≤ 0x9F
  else if b = 0xF0 then 0x90 ≤ c && c ≤ 0xBF
  else if b = 0xF4 then 0x80 ≤ c && c ≤ 0x8F
  else isCont c

/-- The code points a string encodes, or none when it is not well-formed UTF-8: `utf8.ValidString`
and the values a range over a valid string takes. -/
def runes : Bytes → Option (List Nat)
  | [] => some []
  | b :: s =>
    if b < 0x80 then (runes s).map (b.toNat :: ·)
    else match s with
      | [] => none
      | c :: s =>
        if 0xC2 ≤ b ∧ b ≤ 0xDF then
          if isCont c then (runes s).map ((b.toNat % 32 * 64 + c.toNat % 64) :: ·) else none
        else match s with
          | [] => none
          | d :: s =>
            if 0xE0 ≤ b ∧ b ≤ 0xEF then
              if acceptSecond b c && isCont d then
                (runes s).map ((b.toNat % 16 * 4096 + c.toNat % 64 * 64 + d.toNat % 64) :: ·)
              else none
            else match s with
              | [] => none
              | e :: s =>
                if 0xF0 ≤ b ∧ b ≤ 0xF4 then
                  if acceptSecond b c && isCont d && isCont e then
                    (runes s).map ((b.toNat % 8 * 262144 + c.toNat % 64 * 4096 +
                      d.toNat % 64 * 64 + e.toNat % 64) :: ·)
                  else none
                else none

/-- The surrogate range. -/
def isSurrogate (r : Nat) : Bool := 0xD800 ≤ r && r ≤ 0xDFFF

/-- The loop of `validateUTF8` over the code points. -/
def validateRunes : List Nat → Except Err Unit
  | [] => .ok ()
  | r :: rs =>
    if r = 0 then .error (.malformed .nulCharacter)
    else if isSurrogate r then .error (.malformed (.surrogate r))
    else validateRunes rs

def validateUTF8 (s : Bytes) : Except Err Unit :=
  match runes s with
  | none => .error (.malformed .notUTF8)
  | some rs => validateRunes rs

/-- `reader.string`. -/
def string : Reader Bytes := do
  let s ← binary
  validateUTF8 s
  pure s

/-- `reader.stringPair`. -/
def stringPair : Reader (Bytes × Bytes) := do
  let k ← string
  let v ← string
  pure (k, v)

/-- `writer.binary`. The length is cut to 16 bits. -/
def putBinary (b : Bytes) : Bytes := putUint16 (UInt16.ofNat b.length) ++ b

/-- `writer.string`. -/
def putString (s : Bytes) : Bytes := putBinary s

/-- `writer.stringPair`. -/
def putStringPair (k v : Bytes) : Bytes := putString k ++ putString v

/-- An encoder or a check fails with `e` when `c` holds. -/
def refuse (c : Bool) (e : Err) : Except Err Unit := if c then .error e else .ok ()

theorem refuse_ok {c : Bool} {e : Err} : refuse c e = .ok () ↔ c = false := by
  cases c with
  | true => exact iff_of_false nofun nofun
  | false => exact iff_of_true rfl rfl

/-- `checkStringLen` and `checkBinaryLen`. -/
def checkLen (f : Field) (s : Bytes) : Except Err Unit :=
  if 65535 < s.length then .error (.tooLong f s.length) else .ok ()

/-! ## Integers read back -/

open Parse

theorem uint16_bytes (v : UInt16) :
    ((v >>> 8).toUInt8.toUInt16 <<< 8) ||| (v &&& 0xff).toUInt8.toUInt16 = v := by
  apply UInt16.toNat_inj.mp
  have hlow : v.toNat &&& 255 = v.toNat % 256 := Nat.and_two_pow_sub_one_eq_mod v.toNat 8
  have hv := v.toNat_lt
  simp only [UInt16.toNat_or, UInt16.toNat_shiftLeft, UInt8.toNat_toUInt16, UInt16.toNat_toUInt8,
    UInt16.toNat_shiftRight, UInt16.toNat_and, UInt16.reduceToNat, Nat.reduceMod,
    Nat.shiftRight_eq_div_pow, Nat.shiftLeft_eq, Nat.reducePow, hlow]
  have hor := Nat.two_pow_add_eq_or_of_lt (i := 8) (b := v.toNat % 256) (by omega) (v.toNat / 256)
  simp only [Nat.reducePow] at hor
  rw [show v.toNat / 256 % 256 * 256 % 65536 = 256 * (v.toNat / 256) by omega,
    show v.toNat % 256 % 256 = v.toNat % 256 by omega, ← hor]
  omega

theorem uint32_bytes (v : UInt32) :
    ((v >>> 24).toUInt8.toUInt32 <<< 24) ||| ((v >>> 16 &&& 0xff).toUInt8.toUInt32 <<< 16) |||
      ((v >>> 8 &&& 0xff).toUInt8.toUInt32 <<< 8) ||| (v &&& 0xff).toUInt8.toUInt32 = v := by
  apply UInt32.toNat_inj.mp
  have hlow (n : Nat) : n &&& 255 = n % 256 := Nat.and_two_pow_sub_one_eq_mod n 8
  have hv := v.toNat_lt
  simp only [UInt32.toNat_or, UInt32.toNat_shiftLeft, UInt8.toNat_toUInt32, UInt32.toNat_toUInt8,
    UInt32.toNat_shiftRight, UInt32.toNat_and, UInt32.reduceToNat, Nat.reduceMod,
    Nat.shiftRight_eq_div_pow, Nat.shiftLeft_eq, Nat.reducePow, hlow]
  have h3 := Nat.two_pow_add_eq_or_of_lt (i := 24) (b := v.toNat / 65536 % 256 * 65536) (by omega)
    (v.toNat / 16777216)
  have h2 := Nat.two_pow_add_eq_or_of_lt (i := 16) (b := v.toNat / 256 % 256 * 256) (by omega)
    (v.toNat / 65536)
  have h1 := Nat.two_pow_add_eq_or_of_lt (i := 8) (b := v.toNat % 256) (by omega) (v.toNat / 256)
  simp only [Nat.reducePow] at h1 h2 h3
  rw [show v.toNat / 16777216 % 256 * 16777216 % 4294967296 =
    16777216 * (v.toNat / 16777216) by omega,
    show v.toNat / 65536 % 256 % 256 * 65536 % 4294967296 = v.toNat / 65536 % 256 * 65536 by omega,
    show v.toNat / 256 % 256 % 256 * 256 % 4294967296 = v.toNat / 256 % 256 * 256 by omega,
    show v.toNat % 256 % 256 = v.toNat % 256 by omega, ← h3,
    show 16777216 * (v.toNat / 16777216) + v.toNat / 65536 % 256 * 65536
      = 65536 * (v.toNat / 65536) by omega, ← h2,
    show 65536 * (v.toNat / 65536) + v.toNat / 256 % 256 * 256 =
      256 * (v.toNat / 256) by omega, ← h1]
  omega

theorem uint16_reads (v : UInt16) : Reads uint16 (putUint16 v) v := by
  intro rest
  have h : uint16.run (putUint16 v ++ rest) = .ok (_, rest) := rfl
  rw [h]
  congr 2
  exact uint16_bytes v

theorem uint32_reads (v : UInt32) : Reads uint32 (putUint32 v) v := by
  intro rest
  have h : uint32.run (putUint32 v ++ rest) = .ok (_, rest) := rfl
  rw [h]
  congr 2
  exact uint32_bytes v

theorem uint16_takes : Takes uint16 fun _ cs => cs.length = 2 := by
  refine takes_takeN.bind fun b cs h => takes_pure ?_
  rw [List.append_nil, h.1]
  exact h.2

theorem uint32_takes : Takes uint32 fun _ cs => cs.length = 4 := by
  refine takes_takeN.bind fun b cs h => takes_pure ?_
  rw [List.append_nil, h.1]
  exact h.2

@[simp] theorem length_putUint16 (v : UInt16) : (putUint16 v).length = 2 := rfl

/-! ## Variable Byte Integers -/

theorem low7 (b : UInt8) : (b &&& 0x7F).toNat = b.toNat % 128 := by
  rw [UInt8.toNat_and]
  exact Nat.and_two_pow_sub_one_eq_mod b.toNat 7

/-- The bit of a byte that says that more follow. -/
theorem high_clear (b : UInt8) : b &&& 0x80 = 0 ↔ b.toNat < 128 := by
  have hb : (b &&& 0x80).toNat = 128 * (b.toNat / 128 % 2) := by
    rw [UInt8.toNat_and]
    have h : b.toNat &&& 2 ^ 7 = 2 ^ 7 * (b.toNat / 2 ^ 7 % 2) := by
      rw [Nat.and_two_pow, Nat.testBit_eq_decide_div_mod_eq]
      rcases Nat.mod_two_eq_zero_or_one (b.toNat / 2 ^ 7) with h | h <;> rw [h] <;> rfl
    exact h
  have hlt := b.toNat_lt
  rw [← UInt8.toNat_inj, hb]
  constructor
  · intro h
    have h0 : (0 : UInt8).toNat = 0 := rfl
    omega
  · intro h
    have h0 : (0 : UInt8).toNat = 0 := rfl
    omega

theorem toNat_low (v : Nat) : (UInt8.ofNat (v % 128)).toNat = v % 128 := by
  rw [UInt8.toNat_ofNat']
  omega

theorem toNat_more (v : Nat) : (UInt8.ofNat (v % 128) ||| 0x80).toNat = v % 128 + 128 := by
  have h := Nat.two_pow_add_eq_or_of_lt (i := 7) (b := v % 128) (by omega) 1
  rw [UInt8.toNat_or, toNat_low, Nat.or_comm]
  simp only [Nat.reducePow, Nat.mul_one] at h
  exact h.symm.trans (by omega)

theorem appendRounds_enough (n : Nat) : ∀ m v, v < n → v < m → appendRounds n v =
    appendRounds m v := by
  induction n with
  | zero => intro m v h _; exact absurd h (Nat.not_lt_zero v)
  | succ n ih =>
    intro m v hn hm
    cases m with
    | zero => exact absurd hm (Nat.not_lt_zero v)
    | succ m =>
      simp only [appendRounds]
      split
      · rw [ih m (v / 128) (by omega) (by omega)]
      · rfl

/-- One round of `appendVarByteInt`. -/
theorem appendVarByteInt_eq (v : Nat) : appendVarByteInt v =
    if 0 < v / 128 then (UInt8.ofNat (v % 128) ||| 0x80) :: appendVarByteInt (v / 128)
    else [UInt8.ofNat (v % 128)] := by
  rw [appendVarByteInt, appendRounds]
  split
  · rw [appendVarByteInt, appendRounds_enough v (v / 128 + 1) (v / 128) (by omega) (by omega)]
  · rfl

theorem appendVarByteInt_ne_nil (v : Nat) : appendVarByteInt v ≠ [] := by
  rw [appendVarByteInt_eq]
  split <;> simp

theorem shifted_round (value v multiplier : Nat) :
    value + (v % 128) <<< multiplier + v / 128 * 2 ^ (multiplier + 7) =
      value + v * 2 ^ multiplier := by
  have hv : v % 128 + v / 128 * 128 = v := by omega
  calc value + (v % 128) <<< multiplier + v / 128 * 2 ^ (multiplier + 7)
      = value + (v % 128 + v / 128 * 128) * 2 ^ multiplier := by
        rw [Nat.shiftLeft_eq, Nat.pow_add, Nat.add_mul, Nat.add_assoc]
        congr 2
        rw [Nat.mul_assoc, Nat.mul_comm (2 ^ multiplier)]
    _ = value + v * 2 ^ multiplier := by rw [hv]

section VarInt
variable (short notMinimal long : Err)

/-- `k` rounds read what `appendVarByteInt` writes of a value they are enough for. After the first
byte the value left is not 0, so that the last byte is not one that could have been left out. -/
theorem varIntRounds_reads (k : Nat) : ∀ i value multiplier v, 0 < k → v < 128 ^ k →
    (0 < i → 0 < v) →
    Reads (varIntRounds short notMinimal long k i value multiplier) (appendVarByteInt v)
      (value + v * 2 ^ multiplier, i + (appendVarByteInt v).length) := by
  induction k with
  | zero => intro i value multiplier v hk; exact absurd hk (Nat.lt_irrefl 0)
  | succ k ih =>
    intro i value multiplier v _ hv hi
    rw [appendVarByteInt_eq]
    by_cases hmore : 0 < v / 128
    · rw [if_pos hmore]
      have hlt : v / 128 < 128 ^ k := by
        rw [Nat.div_lt_iff_lt_mul (by decide), ← Nat.pow_succ]
        exact hv
      have hk : 0 < k := by
        rcases Nat.eq_zero_or_pos k with rfl | hk
        · rw [Nat.pow_zero] at hlt
          omega
        · exact hk
      have hset : ¬ (UInt8.ofNat (v % 128) ||| 0x80) &&& 0x80 = 0 := by
        rw [high_clear, toNat_more]
        omega
      rw [← List.singleton_append]
      refine (reads_one short (UInt8.ofNat (v % 128) ||| 0x80)).bind ?_
      dsimp only
      rw [if_neg hset, low7, toNat_more, show (v % 128 + 128) % 128 = v % 128 by omega]
      have h := ih (i + 1) (value + (v % 128) <<< multiplier) (multiplier + 7) (v / 128) hk hlt
        (fun _ => hmore)
      rw [shifted_round] at h
      rwa [List.singleton_append, List.length_cons, Nat.add_comm (List.length _) 1, ← Nat.add_assoc]
    · rw [if_neg hmore]
      have hclear : UInt8.ofNat (v % 128) &&& 0x80 = 0 := by
        rw [high_clear, toNat_low]
        omega
      have hmin : (decide (0 < i) && UInt8.ofNat (v % 128) == 0) = false := by
        rw [Bool.and_eq_false_iff]
        rcases Nat.eq_zero_or_pos i with h0 | hpos
        · exact .inl (by simp [h0])
        · right
          have hne : UInt8.ofNat (v % 128) ≠ 0 := by
            intro he
            have hn := congrArg UInt8.toNat he
            rw [toNat_low] at hn
            have h0 : (0 : UInt8).toNat = 0 := rfl
            have := hi hpos
            omega
          simpa using hne
      refine (reads_one short (UInt8.ofNat (v % 128))).bindPure ?_
      dsimp only
      rw [if_pos hclear, low7, toNat_low, show v % 128 % 128 = v by omega, Nat.shiftLeft_eq]
      exact (reads_check notMinimal hmin).skip (reads_pure _)

/-- What `k` rounds accept is what `appendVarByteInt` writes of the value they return. -/
theorem varIntRounds_takes (k : Nat) : ∀ i value multiplier,
    Takes (varIntRounds short notMinimal long k i value multiplier) fun r cs =>
      ∃ v, r = (value + v * 2 ^ multiplier, i + cs.length) ∧ cs = appendVarByteInt v ∧ v < 128 ^ k ∧
        (0 < i → 0 < v) := by
  induction k with
  | zero => intro i value multiplier; exact takes_throw
  | succ k ih =>
    intro i value multiplier
    refine takes_one.bind fun b _ hb => ?_
    subst hb
    dsimp only
    have hlt := b.toNat_lt
    refine Takes.ite (fun hclear => ?_) fun hset => ?_
    · rw [high_clear] at hclear
      refine takes_check.bind fun _ _ hmin => takes_pure ?_
      have hb : UInt8.ofNat (b.toNat % 128) = b := by
        rw [Nat.mod_eq_of_lt hclear, UInt8.ofNat_toNat]
      refine ⟨b.toNat, ?_, ?_, ?_, fun hi => ?_⟩
      · rw [hmin.1, low7, Nat.mod_eq_of_lt hclear, Nat.shiftLeft_eq]
        rfl
      · rw [hmin.1, appendVarByteInt_eq, if_neg (by omega), hb]
        rfl
      · calc b.toNat < 128 ^ 1 := hclear
          _ ≤ 128 ^ (k + 1) := Nat.pow_le_pow_right (by decide) (by omega)
      · have hne : b ≠ 0 := by simpa [hi] using hmin.2
        exact Nat.pos_of_ne_zero fun h0 => hne (UInt8.toNat_inj.mp h0)
    · rw [high_clear] at hset
      refine (ih (i + 1) _ (multiplier + 7)).mono fun r cs hr => ?_
      obtain ⟨v, hr, hcs, hv, hpos⟩ := hr
      have hv0 : 0 < v := hpos (Nat.succ_pos i)
      refine ⟨b.toNat % 128 + v * 128, ?_, ?_, ?_, fun _ => by omega⟩
      · have h := shifted_round value (b.toNat % 128 + v * 128) multiplier
        rw [show (b.toNat % 128 + v * 128) % 128 = b.toNat % 128 by omega,
          show (b.toNat % 128 + v * 128) / 128 = v by omega] at h
        rw [hr, low7, h, List.length_append, List.length_singleton, Nat.add_assoc]
      · rw [appendVarByteInt_eq, if_pos (by omega),
          show (b.toNat % 128 + v * 128) / 128 = v by omega, ← hcs, List.singleton_append]
        congr 1
        apply UInt8.toNat_inj.mp
        rw [toNat_more]
        omega
      · rw [Nat.pow_succ]
        have := Nat.mul_le_mul_right 128 hv
        omega

end VarInt

variable {v d : Nat} {b c : UInt8} {s : Bytes}

theorem varByteInt_reads (h : v ≤ maxVarByteInt) : Reads varByteInt (appendVarByteInt v) v := by
  have hv : v < 128 ^ 4 := by
    rw [maxVarByteInt] at h
    omega
  have hr := varIntRounds_reads (.malformed .truncatedVarByteInt) (.malformed .varByteIntNotMinimal)
    (.malformed .varByteIntTooLong) 4 0 0 0 v (by decide) hv fun h => absurd h (Nat.lt_irrefl 0)
  rw [Nat.pow_zero, Nat.mul_one, Nat.zero_add, Nat.zero_add] at hr
  exact hr.bindPure (reads_pure v)

theorem varByteInt_takes : Takes varByteInt fun v cs => cs = appendVarByteInt v ∧
    v ≤ maxVarByteInt := by
  refine (varIntRounds_takes _ _ _ 4 0 0 0).bind fun r cs hr => takes_pure ?_
  obtain ⟨v, rfl, hcs, hv, -⟩ := hr
  rw [Nat.pow_zero, Nat.mul_one, Nat.zero_add, List.append_nil]
  refine ⟨hcs, ?_⟩
  rw [maxVarByteInt]
  omega

theorem remainingLength_reads (h : v ≤ maxVarByteInt) :
    Reads readRemainingLength (appendVarByteInt v) (v, (appendVarByteInt v).length) := by
  have hv : v < 128 ^ 4 := by
    rw [maxVarByteInt] at h
    omega
  have hr := varIntRounds_reads .unexpectedEOF (.malformed .remainingLengthNotMinimal)
    (.malformed .remainingLengthTooLong) 4 0 0 0 v (by decide) hv fun h =>
        absurd h (Nat.lt_irrefl 0)
  rwa [Nat.pow_zero, Nat.mul_one, Nat.zero_add, Nat.zero_add] at hr

theorem remainingLength_takes : Takes readRemainingLength fun r cs =>
    cs = appendVarByteInt r.1 ∧ r.2 = cs.length ∧ r.1 ≤ maxVarByteInt := by
  refine (varIntRounds_takes _ _ _ 4 0 0 0).mono fun r cs hr => ?_
  obtain ⟨v, rfl, hcs, hv, -⟩ := hr
  rw [Nat.pow_zero, Nat.mul_one, Nat.zero_add, Nat.zero_add]
  refine ⟨hcs, rfl, ?_⟩
  rw [maxVarByteInt]
  omega

/-! ## Binary Data and strings -/

@[simp] theorem length_putBinary (b : Bytes) : (putBinary b).length = 2 + b.length := by
  rw [putBinary, List.length_append, length_putUint16]

theorem binary_reads {b : Bytes} (h : b.length ≤ 65535) : Reads binary (putBinary b) b := by
  refine (uint16_reads (UInt16.ofNat b.length)).bind ?_
  have hn : (UInt16.ofNat b.length).toNat = b.length := by
    rw [UInt16.toNat_ofNat']
    omega
  rw [hn]
  exact reads_takeN b _

theorem binary_takes : Takes binary fun b cs => cs.length = 2 + b.length ∧ b.length ≤ 65535 := by
  refine uint16_takes.bind fun n cs hcs => takes_takeN.mono fun b ds hb => ?_
  have hn := n.toNat_lt
  rw [List.length_append, hcs, hb.1, hb.2]
  exact ⟨rfl, by omega⟩

/-- Well-formed UTF-8 without U+0000. -/
def Text (s : Bytes) : Prop := ∃ rs, runes s = some rs ∧ 0 ∉ rs

/-- One more code point before those of the rest. -/
theorem not_surrogate_cons {o : Option (List Nat)} {a : Nat} (ha : isSurrogate a = false)
    (ho : ∀ rs, o = some rs → ∀ r ∈ rs, isSurrogate r = false) :
    ∀ rs, o.map (a :: ·) = some rs → ∀ r ∈ rs, isSurrogate r = false := by
  intro rs h r hr
  obtain ⟨rs', h', rfl⟩ := Option.map_eq_some_iff.1 h
  rcases List.mem_cons.1 hr with rfl | hr
  · exact ha
  · exact ho rs' h' r hr

theorem isSurrogate_eq_false {r : Nat} (h : r < 0xD800 ∨ 0xDFFF < r) : isSurrogate r = false := by
  rcases h with h | h
  · simp only [isSurrogate, Bool.and_eq_false_iff, decide_eq_false_iff_not]
    omega
  · simp only [isSurrogate, Bool.and_eq_false_iff, decide_eq_false_iff_not]
    omega

/-- Of three bytes, the second is at most 0x9F after 0xED, which is where the surrogates would
start. -/
theorem three_not_surrogate (hb : 0xE0 ≤ b ∧ b ≤ 0xEF) (hc : acceptSecond b c = true) :
    isSurrogate (b.toNat % 16 * 4096 + c.toNat % 64 * 64 + d % 64) = false := by
  have hlo : 224 ≤ b.toNat := hb.1
  have hhi : b.toNat ≤ 239 := hb.2
  apply isSurrogate_eq_false
  by_cases hed : b = 0xED
  · subst hed
    have hc' : (0x80 : UInt8) ≤ c ∧ c ≤ 0x9F := by simpa [acceptSecond] using hc
    have hc1 : 128 ≤ c.toNat := hc'.1
    have hc2 : c.toNat ≤ 159 := hc'.2
    have hed : (0xED : UInt8).toNat = 237 := rfl
    omega
  · have hne : b.toNat ≠ 237 := fun h => hed (UInt8.toNat_inj.mp h)
    omega

/-- Four bytes encode a code point beyond U+FFFF. -/
theorem four_not_surrogate {e : Nat} (hb : 0xF0 ≤ b ∧ b ≤ 0xF4) (hc : acceptSecond b c = true) :
    isSurrogate (b.toNat % 8 * 262144 + c.toNat % 64 * 4096 + d % 64 * 64 + e % 64) = false := by
  have hlo : 240 ≤ b.toNat := hb.1
  have hhi : b.toNat ≤ 244 := hb.2
  apply isSurrogate_eq_false
  by_cases hf0 : b = 0xF0
  · subst hf0
    have hc' : (0x90 : UInt8) ≤ c ∧ c ≤ 0xBF := by simpa [acceptSecond] using hc
    have hc1 : 144 ≤ c.toNat := hc'.1
    have hc2 : c.toNat ≤ 191 := hc'.2
    have hf0 : (0xF0 : UInt8).toNat = 240 := rfl
    omega
  · have hne : b.toNat ≠ 240 := fun h => hf0 (UInt8.toNat_inj.mp h)
    omega

theorem runes_not_surrogate (s : Bytes) : ∀ rs, runes s = some rs → ∀ r ∈ rs, isSurrogate r =
    false := by
  fun_induction runes s with
  | case1 =>
    intro rs h r hr
    cases h
    cases hr
  | case2 b s hb ih =>
    have hb' : b.toNat < 128 := hb
    exact not_surrogate_cons (isSurrogate_eq_false (by omega)) ih
  | case4 b _ c s _ _ ih =>
    exact not_surrogate_cons (isSurrogate_eq_false (by omega)) ih
  | case7 b _ c _ d s hb hacc ih =>
    rw [Bool.and_eq_true] at hacc
    exact not_surrogate_cons (three_not_surrogate hb hacc.1) ih
  | case10 b _ c _ d _ e s hb hacc ih =>
    rw [Bool.and_eq_true, Bool.and_eq_true] at hacc
    exact not_surrogate_cons (four_not_surrogate hb hacc.1.1) ih
  | _ => intro rs h; cases h

theorem validateRunes_ok {rs : List Nat} (h : ∀ r ∈ rs, isSurrogate r = false) :
    validateRunes rs = .ok () ↔ 0 ∉ rs := by
  induction rs with
  | nil => simp [validateRunes]
  | cons r rs ih =>
    have hs : isSurrogate r = false := h r (by simp)
    have ih := ih fun r' hr' => h r' (List.mem_cons_of_mem r hr')
    rw [validateRunes, hs]
    by_cases h0 : r = 0
    · simp [h0]
    · simp [h0, ih, Ne.symm h0]

/-- `validateUTF8` accepts exactly the text. -/
theorem validateUTF8_ok : validateUTF8 s = .ok () ↔ Text s := by
  rw [validateUTF8, Text]
  cases h : runes s with
  | none => simp
  | some rs =>
    have hv := validateRunes_ok (runes_not_surrogate s rs h)
    simp [hv]

/-- A UTF-8 Encoded String: text whose length fits its prefix. -/
structure IsString (s : Bytes) : Prop where
  length : s.length ≤ 65535
  text : Text s

theorem isString_nil : IsString [] := ⟨Nat.zero_le _, [], rfl, List.not_mem_nil⟩

theorem string_reads (h : IsString s) : Reads string (putString s) s := by
  refine (binary_reads h.length).bindPure ?_
  exact (reads_lift (validateUTF8_ok.2 h.text)).skip (reads_pure s)

theorem string_takes : Takes string fun s cs => cs.length = 2 + s.length ∧ IsString s := by
  refine binary_takes.bind fun s cs hs => takes_lift.bind fun _ ds hd => takes_pure ?_
  rw [hd.1, List.append_nil, List.append_nil]
  exact ⟨hs.1, hs.2, validateUTF8_ok.1 hd.2⟩

@[simp] theorem length_putString (s : Bytes) : (putString s).length = 2 + s.length :=
  length_putBinary s

theorem stringPair_reads {k v : Bytes} (hk : IsString k) (hv : IsString v) :
    Reads stringPair (putStringPair k v) (k, v) :=
  (string_reads hk).bind ((string_reads hv).bindPure (reads_pure (k, v)))

theorem stringPair_takes : Takes stringPair fun r cs =>
    cs.length = (2 + r.1.length) + (2 + r.2.length) ∧ IsString r.1 ∧ IsString r.2 := by
  refine string_takes.bind fun k cs hk => string_takes.bind fun v ds hv => takes_pure ?_
  rw [List.append_nil, List.length_append, hk.1, hv.1]
  exact ⟨rfl, hk.2, hv.2⟩

theorem checkLen_ok {f : Field} : checkLen f s = .ok () ↔ s.length ≤ 65535 := by
  rw [checkLen]
  split
  · simp
    omega
  · simp
    omega

end Natsmqtt5.Wire
