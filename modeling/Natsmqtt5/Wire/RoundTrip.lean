import Natsmqtt5.Wire.Encoded

/-!
# What is encoded is decoded

A legal packet is read back from its encoding, whatever follows it, and what follows is left unread.
What is read is the packet without the properties that are not legal in it; two fields the encoder
does not write come back as what they must be on the wire: the Protocol Version of a CONNECT and the
Packet Identifier of a PUBLISH at QoS 0.

Results:
* `legal_packet_read_back`: reading the encoding of a legal packet and any sequence of them.
* `unwritten_fields_lost`: the two fields are not read back as they were.
-/

namespace Natsmqtt5.Wire

open Parse

/-- The flags of the fixed header. -/
def Packet.flags : Packet → UInt8
  | .publish p => publishFlags p.dup p.qos p.retain
  | p => reservedFlags p.type

/-- The body. -/
def Packet.bytes : Packet → Bytes
  | .connect c => c.bytes
  | .connack c => c.bytes
  | .publish p => p.bytes
  | .puback a => a.bytes .puback
  | .pubrec a => a.bytes .pubrec
  | .pubrel a => a.bytes .pubrel
  | .pubcomp a => a.bytes .pubcomp
  | .subscribe s => s.bytes
  | .suback c => c.bytes .suback
  | .unsubscribe u => u.bytes
  | .unsuback c => c.bytes .unsuback
  | .pingreq | .pingresp => []
  | .disconnect d => reasonBytes .disconnect d.reasonCode d.properties
  | .auth a => reasonBytes .auth a.reasonCode a.properties

variable {p : Packet} {limit : UInt32}

theorem Packet.encode_ok (h : p.Legal) : p.encode = .ok (p.flags, p.bytes) := by
  cases p with
  | connect c => exact Connect.encode_ok h
  | connack c => exact Connack.encode_ok h
  | publish p => exact Publish.encode_ok h
  | puback a => exact Ack.encode_ok h .puback
  | pubrec a => exact Ack.encode_ok h .pubrec
  | pubrel a => exact Ack.encode_ok h .pubrel
  | pubcomp a => exact Ack.encode_ok h .pubcomp
  | subscribe s => exact Subscribe.encode_ok h
  | suback c => exact Codes.encode_ok h .suback
  | unsubscribe u => exact Unsubscribe.encode_ok h
  | unsuback c => exact Codes.encode_ok h .unsuback
  | pingreq => rfl
  | pingresp => rfl
  | disconnect d => exact Reason.encode_ok h .disconnect
  | auth a => exact Reason.encode_ok h .auth

theorem Packet.decode_reads (h : p.Legal) (hb : p.bytes.length ≤ maxVarByteInt) :
    ReadsAll (decode p.type p.flags) p.bytes p.canon.clearSession := by
  cases p with
  | connect c => exact (Connect.reads h hb).map Packet.connect
  | connack c => exact (Connack.reads h hb).map Packet.connack
  | publish p => exact (Publish.reads h hb).map Packet.publish
  | puback a => exact (Ack.reads h (by decide) hb).map Packet.puback
  | pubrec a => exact (Ack.reads h (by decide) hb).map Packet.pubrec
  | pubrel a => exact (Ack.reads h (by decide) hb).map Packet.pubrel
  | pubcomp a => exact (Ack.reads h (by decide) hb).map Packet.pubcomp
  | subscribe s => exact (Subscribe.reads h hb).map Packet.subscribe
  | suback c => exact (Codes.reads h (by decide) hb).map Packet.suback
  | unsubscribe u => exact (Unsubscribe.reads h hb).map Packet.unsubscribe
  | unsuback c => exact (Codes.reads h (by decide) hb).map Packet.unsuback
  | pingreq => rfl
  | pingresp => rfl
  | disconnect d => exact (Reason.reads h (by decide) hb).map Packet.disconnect
  | auth a => exact (Reason.reads h (by decide) hb).map Packet.auth

theorem reservedFlags_first (t : PType) :
    PType.ofCode ((t.code <<< 4 ||| reservedFlags t) >>> 4) = t ∧
      (t.code <<< 4 ||| reservedFlags t) &&& 0x0F = reservedFlags t := by
  cases t <;> decide

/-- The first byte of a packet says its type and its flags. -/
theorem Packet.first_byte (h : p.Legal) :
    PType.ofCode ((p.type.code <<< 4 ||| p.flags) >>> 4) = p.type ∧
      (p.type.code <<< 4 ||| p.flags) &&& 0x0F = p.flags := by
  cases p with
  | publish p =>
    have hbits := publishFlags_bits p.retain (Publish.Legal.qos h) (Publish.Legal.dup h)
    constructor
    · exact congrArg PType.ofCode hbits.type
    · exact hbits.flags
  | _ => exact reservedFlags_first _

theorem Packet.flags_reserved (p : Packet) :
    (p.type == .willContext) = false ∧
      (p.type != .publish && p.flags != reservedFlags p.type) = false := by
  cases p <;> exact ⟨rfl, by simp [Packet.type, Packet.flags]⟩

/-- A packet as it goes on the wire. -/
def Packet.frame (p : Packet) : Bytes :=
  [p.type.code <<< 4 ||| p.flags] ++ (appendVarByteInt p.bytes.length ++ p.bytes)

theorem Packet.Fits.bytes (hf : p.Fits) (h : p.Legal) : p.bytes.length ≤ maxVarByteInt :=
  hf _ (Packet.encode_ok h)

theorem encode_eq_frame (h : p.Legal) (hb : p.bytes.length ≤ maxVarByteInt) :
    encode p = .ok p.frame := by
  have hfit : decide (maxVarByteInt < p.bytes.length) = false := decide_eq_false (by omega)
  rw [encode, Packet.encode_ok h]
  change (refuse (decide (maxVarByteInt < p.bytes.length)) _ >>= _) = _
  rw [refuse_ok.2 hfit]
  rfl

/-- What is encoded of a legal packet is its frame. -/
theorem frame_of_encode {bs : Bytes} (h : p.Legal) (hbs : encode p = .ok bs) :
    bs = p.frame ∧ p.bytes.length ≤ maxVarByteInt := by
  by_cases hb : p.bytes.length ≤ maxVarByteInt
  · rw [encode_eq_frame h hb] at hbs
    exact ⟨(Except.ok.inj hbs).symm, hb⟩
  · have hlong : decide (maxVarByteInt < p.bytes.length) = true := decide_eq_true (by omega)
    rw [encode, Packet.encode_ok h] at hbs
    change (refuse (decide (maxVarByteInt < p.bytes.length)) _ >>= _) = _ at hbs
    rw [hlong] at hbs
    cases hbs

theorem read_frame (h : p.Legal) (hb : p.bytes.length ≤ maxVarByteInt)
    (hlimit : limit = 0 ∨ p.frame.length ≤ limit.toNat) :
    Reads (read limit) p.frame p.canon.clearSession := by
  obtain ⟨htype, hflags⟩ := Packet.first_byte h
  obtain ⟨hres, hfix⟩ := p.flags_reserved
  have hsize : (decide (0 < limit) &&
      decide (limit.toNat < 1 + (appendVarByteInt p.bytes.length).length + p.bytes.length)) =
        false := by
    rw [Bool.and_eq_false_iff]
    rcases hlimit with rfl | hle
    · exact .inl rfl
    · refine .inr (decide_eq_false ?_)
      simp only [Packet.frame, List.length_append, List.length_singleton] at hle
      omega
  refine (reads_one _ _).bind ?_
  dsimp only
  rw [htype, hflags]
  refine (reads_check _ hres).skip ((reads_check _ hfix).skip ?_)
  refine (remainingLength_reads hb).bind ((reads_check _ hsize).skip ?_)
  exact within_reads _ (Packet.decode_reads h hb)

theorem Packet.SessionOk.clear (h : p.SessionOk) : p.canon.clearSession = p.canon := by
  cases p with
  | connack c =>
    have hs : (c.sessionPresent && !isError c.reasonCode) = c.sessionPresent := by
      cases hp : c.sessionPresent with
      | false => rfl
      | true => rw [h hp]; rfl
    simp only [Packet.canon, Packet.clearSession, Connack.canon]
    rw [hs]
  | _ => rfl

/-- One round of a loop that reads packets. -/
def readRound (limit : UInt32) (ps : List Packet) : Reader (List Packet) := do
  let p ← read limit
  pure (ps ++ [p])

/-- `Read` until the input ends. -/
def readAll (limit : UInt32) : Reader (List Packet) := whileMore (readRound limit) []

theorem readAll_frames {ps : List Packet}
    (h : ∀ p ∈ ps, p.Legal ∧ p.SessionOk ∧ p.Fits ∧ (limit = 0 ∨ p.frame.length ≤ limit.toNat)) :
    ReadsAll (readAll limit) (ps.flatMap Packet.frame) (ps.map Packet.canon) := by
  have hround : ∀ (acc : List Packet) (p : Packet) (qs : List Packet), (∀ q ∈ p :: qs, q ∈ ps) →
      p.frame ≠ [] ∧ Reads (readRound limit acc) p.frame (acc ++ [p.canon]) ∧ ∀ q ∈ qs, q ∈ ps := by
    intro acc p qs hqs
    obtain ⟨hl, hs, hf, hlim⟩ := h p (hqs p List.mem_cons_self)
    have hr := read_frame hl (hf.bytes hl) hlim
    rw [hs.clear] at hr
    exact ⟨by simp [Packet.frame], hr.bindPure (reads_pure _),
      fun q hq => hqs q (List.mem_cons_of_mem p hq)⟩
  have hread : ReadsAll (readAll limit) (ps.flatMap Packet.frame)
      (ps.foldl (fun acc p => acc ++ [p.canon]) []) :=
    whileMore_readsAll (fun _ qs => ∀ q ∈ qs, q ∈ ps) hround (fun _ hq => hq)
      fun p _ => by simp [Packet.frame]
  rwa [List.foldl_append_eq_append, List.nil_append, ← List.flatMap_def,
    ← List.map_eq_flatMap] at hread

/-- The encoding of a legal packet is read back as the packet without the properties that are not
legal in it, and leaves what follows unread; so is a sequence of them. -/
theorem legal_packet_read_back :
    (∀ p : Packet, p.Legal → p.SessionOk → p.Fits → ∃ bs, encode p = .ok bs ∧
      ∀ limit : UInt32, limit = 0 ∨ bs.length ≤ limit.toNat →
        ∀ t, (read limit).run (bs ++ t) = .ok (p.canon, t)) ∧
    ∀ ps : List Packet, (∀ p ∈ ps, p.Legal ∧ p.SessionOk ∧ p.Fits) →
      ∃ bss : List Bytes, ps.map encode = bss.map Except.ok ∧
        ∀ limit : UInt32, (limit = 0 ∨ ∀ bs ∈ bss, bs.length ≤ limit.toNat) →
          (readAll limit).run bss.flatten = .ok (ps.map Packet.canon, []) := by
  constructor
  · intro p hl hs hf
    refine ⟨p.frame, encode_eq_frame hl (hf.bytes hl), fun limit hlimit => ?_⟩
    have hr := read_frame hl (hf.bytes hl) hlimit
    rwa [hs.clear] at hr
  · intro ps h
    refine ⟨ps.map Packet.frame, ?_, fun limit hlimit => ?_⟩
    · rw [List.map_map]
      exact List.map_congr_left fun p hp =>
        encode_eq_frame (h p hp).1 ((h p hp).2.2.bytes (h p hp).1)
    · rw [← List.flatMap_def]
      refine readAll_frames fun p hp => ?_
      obtain ⟨hl, hs, hf⟩ := h p hp
      refine ⟨hl, hs, hf, hlimit.imp_right fun hle => ?_⟩
      exact hle p.frame (List.mem_map_of_mem hp)

/-! ## Two packets -/

theorem Properties.legal_empty : ({} : Properties).Legal := by
  intro id v hv
  rw [get_empty] at hv
  cases hv

theorem Packet.fits_of_bytes (h : p.Legal) (hb : p.bytes.length ≤ maxVarByteInt) : p.Fits := by
  intro r hr
  rw [Packet.encode_ok h] at hr
  cases hr
  exact hb

/-- A one-letter string. -/
theorem isString_a : IsString [0x61] := ⟨by decide, [0x61], rfl, by decide⟩

/-- A PUBLISH at QoS 0 that was given a Packet Identifier. -/
def numberedPublish : Publish :=
  { dup := false, qos := 0, retain := false, topic := [0x61], packetID := 5, properties := {},
    payload := [] }

theorem numberedPublish_legal : numberedPublish.Legal where
  qos := by decide
  dup := by decide
  topic := isString_a
  packetID h := absurd rfl h
  properties := Properties.legal_empty
  named := .inl (by decide)

/-- A CONNECT built without a Protocol Version. -/
def plainConnect : Connect :=
  { clientID := [0x61], cleanStart := true, keepAlive := 10, will := none, username := [],
    password := none, properties := {}, protocolVersion := 0 }

theorem plainConnect_legal : plainConnect.Legal where
  clientID := isString_a
  will w hw := by cases hw
  username := ⟨by decide, [], rfl, by decide⟩
  password pw hp := by cases hp
  properties := Properties.legal_empty
  authentication h := absurd rfl h

/-- What the encoder does not write is not read back. -/
theorem unwritten_fields_lost :
    ((Packet.publish numberedPublish).Legal ∧ (Packet.publish numberedPublish).Fits ∧
      ∃ bs, encode (.publish numberedPublish) = .ok bs ∧
        (read 0).run bs = .ok (.publish { numberedPublish with packetID := 0 }, []) ∧
        numberedPublish.packetID ≠ 0) ∧
    (Packet.connect plainConnect).Legal ∧ (Packet.connect plainConnect).Fits ∧
      ∃ bs, encode (.connect plainConnect) = .ok bs ∧
        (read 0).run bs = .ok (.connect { plainConnect with protocolVersion := 5 }, []) ∧
        plainConnect.protocolVersion ≠ 5 := by
  refine ⟨⟨numberedPublish_legal, ?_, ?_⟩, plainConnect_legal, ?_, ?_⟩
  · exact Packet.fits_of_bytes numberedPublish_legal (by decide)
  · exact ⟨[0x30, 4, 0, 1, 0x61, 0], by decide, by decide, by decide⟩
  · exact Packet.fits_of_bytes plainConnect_legal (by decide)
  · exact ⟨[0x10, 14, 0, 4, 0x4D, 0x51, 0x54, 0x54, 5, 2, 0, 10, 0, 0, 1, 0x61], by decide, by
      decide,
      by decide⟩

theorem legal_packet_read_back_two :
    ∃ bss : List Bytes,
      [Packet.connect plainConnect, .publish numberedPublish].map encode = bss.map Except.ok ∧
      (readAll 0).run bss.flatten =
        .ok ([Packet.connect plainConnect, .publish numberedPublish].map Packet.canon, []) := by
  have h : ∀ p ∈ [Packet.connect plainConnect, .publish numberedPublish],
      p.Legal ∧ p.SessionOk ∧ p.Fits := by
    intro p hp
    rcases List.mem_pair.1 hp with rfl | rfl
    · exact ⟨plainConnect_legal, trivial, Packet.fits_of_bytes plainConnect_legal (by decide)⟩
    · exact ⟨numberedPublish_legal, trivial, Packet.fits_of_bytes numberedPublish_legal (by decide)⟩
  obtain ⟨bss, henc, hread⟩ := legal_packet_read_back.2 _ h
  exact ⟨bss, henc, hread 0 (.inl rfl)⟩

end Natsmqtt5.Wire
