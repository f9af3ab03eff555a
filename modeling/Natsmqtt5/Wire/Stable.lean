import Natsmqtt5.Wire.RoundTrip

/-!
# What is decoded can be encoded

`Read` accepts only packets that are legal and that hold nothing the encoder would leave out, and it
takes at least as many bytes for a packet as its encoding has: properties may come in any order and
may be empty strings, and an acknowledgement may be longer than its short form. So a packet that was
read encodes, and what is read from that is the packet again.

Results:
* `decode_takes`: what each decoder accepts.
* `read_then_encode_stable`: reading, encoding and reading again.
-/

namespace Natsmqtt5.Wire

open Parse

/-! ## CONNECT -/

variable {qos : UInt8}

theorem decodeWill_takes (retain : Bool) (hq : qos ≤ 2) : Takes (decodeWill qos retain) fun w cs =>
      w.Legal ∧ w.canon = w ∧ w.bytes.length ≤ cs.length := by
  refine (readProperties_takes .willContext).bind fun p cs hp => ?_
  obtain ⟨hl, heq, -, hlen⟩ := hp
  refine string_takes.bind fun topic ds ht => binary_takes.bind fun payload es hb => takes_pure ?_
  refine ⟨⟨ht.2, hb.2, hq, hl⟩, ?_, ?_⟩
  · simp only [Will.canon, heq]
  · simp only [Will.bytes, List.length_append, length_putString, length_putBinary, List.length_nil]
    omega

theorem decodePassword_takes : Takes decodePassword fun pw cs =>
    (∀ b ∈ pw, b.length ≤ 65535) ∧ pw.filter (· != []) = pw ∧
      ((pw.map putBinary).getD []).length ≤ cs.length := by
  refine binary_takes.bind fun b cs hb => takes_pure ?_
  rw [List.append_nil]
  by_cases he : b = []
  · rw [if_pos he]
    exact ⟨fun _ h => (by cases h), rfl, Nat.zero_le _⟩
  · rw [if_neg he]
    refine ⟨fun _ h => ?_, by simp [Option.filter, he], ?_⟩
    · cases h
      exact hb.2
    · rw [hb.1]
      exact Nat.le_of_eq (length_putBinary b)

theorem usernameBytes_le (u : Bytes) : (usernameBytes u).length ≤ 2 + u.length := by
  rw [usernameBytes]
  split
  · exact Nat.zero_le _
  · exact Nat.le_of_eq (length_putString u)

/-- The Will of a CONNECT, when its flags announce one. -/
theorem onlyIfWill_takes {c : Bool} (retain : Bool) (hq : c = true → qos ≤ 2) :
    Takes (onlyIf c none (some <$> decodeWill qos retain)) fun o cs =>
      (∀ w ∈ o, w.Legal) ∧ o.map Will.canon = o ∧
          ((o.map Will.bytes).getD []).length ≤ cs.length := by
  refine takes_onlyIf (fun hc => Takes.map
    ((decodeWill_takes retain (hq hc)).mono fun w cs hw => ?_))
    fun _ => ⟨fun _ h => (by cases h), rfl, Nat.le_refl 0⟩
  refine ⟨fun _ h => ?_, congrArg some hw.2.1, hw.2.2⟩
  cases h
  exact hw.1

theorem decodeConnect_takes : Takes decodeConnect fun c cs =>
    c.Legal ∧ c.canon = c ∧ c.bytes.length ≤ cs.length := by
  refine string_takes.bind fun name c1 hname => takes_check.bind fun _ _ hn => ?_
  refine takes_one.bind fun version c2 hv => takes_check.bind fun _ _ hver => ?_
  refine takes_one.bind fun flags c3 hf => takes_check.bind fun _ _ hres => ?_
  dsimp only
  refine takes_check.bind fun _ _ hw1 => takes_check.bind fun _ _ hw2 =>
    takes_check.bind fun _ _ hw3 => ?_
  refine uint16_takes.bind fun keepAlive c4 hk => ?_
  refine (readProperties_takes .connect).bind fun p c5 hp => takes_check.bind fun _ _ hauth => ?_
  refine string_takes.bind fun clientID c6 hid => ?_
  have hq : (flags &&& 0x04 != 0) = true → flags >>> 3 &&& 0x03 ≤ 2 := by
    intro hset
    have h := hw3.2
    rw [hset, Bool.true_and, Bool.not_eq_false'] at h
    exact of_decide_eq_true h
  refine (onlyIfWill_takes _ hq).bind fun will c7 hwill => ?_
  have huser : Takes (onlyIf (flags &&& 0x80 != 0) [] string) fun u cs =>
      IsString u ∧ (usernameBytes u).length ≤ cs.length := by
    refine takes_onlyIf (fun _ => string_takes.mono fun u cs hu => ⟨hu.2, ?_⟩)
      fun _ => ⟨isString_nil, Nat.le_refl 0⟩
    rw [hu.1]
    exact usernameBytes_le u
  refine huser.bind fun username c8 hu => ?_
  have hpw : Takes (onlyIf (flags &&& 0x40 != 0) none decodePassword) fun pw cs =>
      (∀ b ∈ pw, b.length ≤ 65535) ∧ pw.filter (· != []) = pw ∧
        ((pw.map putBinary).getD []).length ≤ cs.length :=
    takes_onlyIf (fun _ => decodePassword_takes)
      fun _ => ⟨fun _ h => (by cases h), rfl, Nat.le_refl 0⟩
  refine hpw.bind fun password c9 hpass => takes_finish.bind fun _ _ hend => takes_pure ?_
  obtain ⟨hl, heq, -, hlen⟩ := hp
  obtain ⟨hwl, hwc, hwb⟩ := hwill
  obtain ⟨hpl, hpc, hpb⟩ := hpass
  have hversion : version = protocolVersion5 := by simpa using hver.2
  have hname' : name = protocolName := by simpa using hn.2
  refine ⟨⟨hid.2, hwl, hu.1, hpl, hl, fun hd hm => ?_⟩, ?_, ?_⟩
  · have hd' : p.authenticationData ≠ [] := hd
    have h : p.authenticationMethod ≠ [] := by simpa [hd'] using hauth.2
    exact h hm
  · simp only [Connect.canon, heq, hwc, hpc, hversion]
  · subst hname'
    have h2 := hu.2
    have h4 : protocolName.length = 4 := rfl
    simp only [Connect.bytes, List.length_append, length_putString, length_putUint16,
      List.length_nil,
      List.length_singleton, hv, hf]
    omega

/-! ## CONNACK and PUBLISH -/

theorem decodeConnack_takes : Takes decodeConnack fun c cs =>
    c.Legal ∧ c.canon = c ∧ c.bytes.length ≤ cs.length := by
  refine takes_one.bind fun ackFlags c1 h1 => takes_check.bind fun _ _ hres => ?_
  refine takes_one.bind fun code c2 h2 => (readProperties_takes .connack).bind fun p c3 hp => ?_
  refine takes_finish.bind fun _ _ hend => takes_pure ?_
  obtain ⟨hl, heq, -, hlen⟩ := hp
  refine ⟨⟨hl⟩, ?_, ?_⟩
  · simp only [Connack.canon, heq]
  · simp only [Connack.bytes, List.length_append, List.length_singleton, List.length_nil, h1, h2]
    omega

theorem decodePublish_takes (flags : UInt8) : Takes (decodePublish flags) fun p cs =>
    p.Legal ∧ p.canon = p ∧ p.bytes.length ≤ cs.length := by
  refine takes_check.bind fun _ _ hq => takes_check.bind fun _ _ hd => ?_
  refine string_takes.bind fun topic c1 ht => ?_
  generalize hqos : flags >>> 1 &&& 0x03 = qos at hq hd
  have hid : Takes (onlyIf (decide (0 < qos)) 0 do
      let id ← uint16
      check (id == 0) (.protocol (.publishPacketID qos))
      pure id) fun id cs => (qos ≠ 0 → id ≠ 0) ∧ (qos = 0 → id = 0) ∧
        (if 0 < qos then putUint16 id else []).length ≤ cs.length := by
    refine takes_onlyIf (fun hpos => ?_) fun hzero => ?_
    · refine uint16_takes.bind fun id cs hlen => takes_check.bind fun _ _ hne => takes_pure ?_
      have hpos := of_decide_eq_true hpos
      have hid : id ≠ 0 := by simpa using hne.2
      refine ⟨fun _ => hid, fun h0 => absurd h0 ((qos_pos qos).1 hpos), ?_⟩
      rw [if_pos hpos, List.length_append, hlen]
      exact Nat.le_add_right 2 _
    · have hzero := of_decide_eq_false hzero
      refine ⟨fun h => absurd ((qos_pos qos).2 h) hzero, fun _ => rfl, ?_⟩
      rw [if_neg hzero]
  refine hid.bind fun id c2 hid => (readProperties_takes .publish).bind fun p c3 hp => ?_
  refine takes_check.bind fun _ _ hn => takes_takeRest.bind fun payload c4 hpay => takes_pure ?_
  obtain ⟨hl, heq, -, hlen⟩ := hp
  obtain ⟨hid1, hid0, hidl⟩ := hid
  have hvalid : qos ≤ 2 := by
    have h := hq.2
    rw [Bool.not_eq_false'] at h
    exact of_decide_eq_true h
  refine ⟨⟨hvalid, fun hdup h0 => ?_, ht.2, hid1, hl, ?_⟩, ?_, ?_⟩
  · have h := hd.2
    have h0' : qos = 0 := h0
    rw [h0'] at h
    exact absurd hdup (by simpa using h)
  · have h := hn.2
    by_cases htop : topic = []
    · right
      cases halias : p.topicAlias with
      | none => simp [htop, halias] at h
      | some a => simp
    · exact .inl htop
  · simp only [Publish.canon, heq]
    split
    · rename_i h0
      rw [hid0 h0]
    · rfl
  · simp only [Publish.bytes, List.length_append, length_putString, List.length_nil, hpay]
    omega

/-! ## Reason Codes -/

theorem reasonBytes_le (t : PType) (code : UInt8) (p : Properties) :
    (reasonBytes t code p).length ≤ 1 + (p.bytes t).length := by
  rw [reasonBytes]
  split
  · split
    · exact Nat.zero_le _
    · exact Nat.le_add_right 1 _
  · rw [List.length_append, List.length_singleton]

theorem Properties.legalIn_empty (t : PType) : ({} : Properties).legalIn t = {} := by
  apply ext_get
  intro id
  rw [get_legalIn, get_empty]
  split <;> rfl

theorem Properties.body_empty (t : PType) : ({} : Properties).body t = [] := by
  rw [body, legalIn_empty, List.flatMap_eq_nil_iff]
  intro it hit
  rw [mem_items, get_empty] at hit
  cases hit

theorem decodeReason_takes (t : PType) : Takes (decodeReason t) fun r cs =>
    r.2.Legal ∧ r.2.legalIn t = r.2 ∧ (reasonBytes t r.1 r.2).length ≤ cs.length := by
  refine takes_atEnd.bind fun e c0 h0 => Takes.ite (fun _ => takes_pure ?_) fun _ => ?_
  · refine ⟨Properties.legal_empty, Properties.legalIn_empty t, ?_⟩
    rw [reasonBytes, if_pos (Properties.body_empty t)]
    exact Nat.zero_le _
  · refine takes_one.bind fun code c1 h1 => takes_atEnd.bind fun e' c2 h2 => ?_
    refine Takes.ite (fun _ => takes_pure ?_) fun _ => ?_
    · refine ⟨Properties.legal_empty, Properties.legalIn_empty t, ?_⟩
      rw [reasonBytes, if_pos (Properties.body_empty t)]
      simp only [List.length_append, List.length_singleton, h1]
      split
      · exact Nat.zero_le _
      · rw [List.length_singleton]
        omega
    · refine (readProperties_takes t).bind fun p c3 hp => takes_finish.bind fun _ _ hend =>
        takes_pure ?_
      obtain ⟨hl, heq, -, hlen⟩ := hp
      have hle := reasonBytes_le t code p
      refine ⟨hl, heq, ?_⟩
      simp only [List.length_append, List.length_singleton, h1]
      omega

theorem decodeAck_takes (t : PType) : Takes (decodeAck t) fun a cs =>
    a.properties.Legal ∧ a.canon t = a ∧ (a.bytes t).length ≤ cs.length := by
  refine uint16_takes.bind fun id c1 h1 => (decodeReason_takes t).bind fun r c2 hr => takes_pure ?_
  refine ⟨hr.1, ?_, ?_⟩
  · simp only [Ack.canon, hr.2.1]
  · have hlen := hr.2.2
    simp only [Ack.bytes, List.length_append, length_putUint16, List.length_nil]
    omega

theorem decodeReasonOnly_takes (t : PType) : Takes (decodeReasonOnly t) fun d cs =>
    d.properties.Legal ∧ d.canon t = d ∧
      (reasonBytes t d.reasonCode d.properties).length ≤ cs.length := by
  refine (decodeReason_takes t).bind fun r cs hr => takes_pure ?_
  rw [List.append_nil]
  refine ⟨hr.1, ?_, hr.2.2⟩
  simp only [Reason.canon, hr.2.1]

/-! ## Lists -/

/-- A loop that appends what it reads, where each round takes at least what it appends is written
in. -/
theorem whileMore_append_takes {α : Type} {round : List α → Reader (List α)} {put : α → Bytes}
    {P : α → Prop}
    (h : ∀ acc, Takes (round acc) fun acc' cs =>
      ∃ x, acc' = acc ++ [x] ∧ P x ∧ (put x).length ≤ cs.length) :
    Takes (whileMore round []) fun xs cs => (∀ x ∈ xs, P x) ∧
      (xs.flatMap put).length ≤ cs.length := by
  refine whileMore_takes (fun xs cs => (∀ x ∈ xs, P x) ∧ (xs.flatMap put).length ≤ cs.length)
    (fun acc cs hacc => (h acc).mono fun acc' ds hx => ?_)
    ⟨fun x hx => absurd hx List.not_mem_nil, Nat.le_refl 0⟩
  obtain ⟨x, rfl, hP, hlen⟩ := hx
  constructor
  · intro y hy
    rcases List.mem_append.1 hy with hy | hy
    · exact hacc.1 y hy
    · rw [List.mem_singleton.1 hy]
      exact hP
  · have hold := hacc.2
    rw [List.flatMap_append, List.length_append, List.length_append, List.flatMap_singleton]
    omega

theorem subscriptionRound_takes (acc : List Subscription) :
    Takes (subscriptionRound acc) fun acc' cs =>
      ∃ s, acc' = acc ++ [s] ∧ s.Legal ∧ s.bytes.length ≤ cs.length := by
  refine string_takes.bind fun filter c1 hf => takes_one.bind fun opts c2 ho => ?_
  dsimp only
  refine takes_check.bind fun _ _ h1 => takes_check.bind fun _ _ h2 =>
    takes_check.bind fun _ _ h3 => ?_
  refine takes_pure ⟨_, rfl, ⟨hf.2, ?_, ?_⟩, ?_⟩
  · have h := h2.2
    rw [Bool.not_eq_false'] at h
    exact of_decide_eq_true h
  · exact UInt8.not_lt.1 (of_decide_eq_false h3.2)
  · simp only [Subscription.bytes, List.length_append, length_putString, List.length_singleton,
      List.length_nil, ho]
    omega

theorem decodeSubscribe_takes : Takes decodeSubscribe fun s cs =>
    s.Legal ∧ s.properties.legalIn .subscribe = s.properties ∧ s.bytes.length ≤ cs.length := by
  refine uint16_takes.bind fun id c1 h1 => takes_check.bind fun _ _ hid => ?_
  refine (readProperties_takes .subscribe).bind fun p c2 hp => ?_
  refine (whileMore_append_takes subscriptionRound_takes).bind fun subs c3 hs => ?_
  refine takes_check.bind fun _ _ hne => takes_pure ?_
  obtain ⟨hl, heq, hone, hlen⟩ := hp
  refine ⟨⟨by simpa using hid.2, hl, hone rfl, hs.1, by simpa using hne.2⟩, heq, ?_⟩
  have hsub := hs.2
  simp only [Subscribe.bytes, List.length_append, length_putUint16, List.length_nil]
  omega

theorem decodeUnsubscribe_takes : Takes decodeUnsubscribe fun u cs =>
    u.Legal ∧ u.properties.legalIn .unsubscribe = u.properties ∧ u.bytes.length ≤ cs.length := by
  have hround : ∀ acc, Takes (filterRound acc) fun acc' cs =>
      ∃ f, acc' = acc ++ [f] ∧ IsString f ∧ (putString f).length ≤ cs.length := by
    intro acc
    refine string_takes.bind fun f cs hf => takes_pure ⟨f, rfl, hf.2, ?_⟩
    rw [List.append_nil, hf.1, length_putString]
  refine uint16_takes.bind fun id c1 h1 => takes_check.bind fun _ _ hid => ?_
  refine (readProperties_takes .unsubscribe).bind fun p c2 hp => ?_
  refine (whileMore_append_takes hround).bind fun filters c3 hf => ?_
  refine takes_check.bind fun _ _ hne => takes_pure ?_
  obtain ⟨hl, heq, -, hlen⟩ := hp
  refine ⟨⟨by simpa using hid.2, hl, hf.1, by simpa using hne.2⟩, heq, ?_⟩
  have hfil := hf.2
  simp only [Unsubscribe.bytes, List.length_append, length_putUint16, List.length_nil]
  omega

theorem decodeReasonCodeList_takes (t : PType) : Takes (decodeReasonCodeList t) fun c cs =>
    c.Legal ∧ c.canon t = c ∧ (c.bytes t).length ≤ cs.length := by
  have hround : ∀ acc, Takes (codeRound acc) fun acc' cs =>
      ∃ b, acc' = acc ++ [b] ∧ True ∧ [b].length ≤ cs.length := by
    intro acc
    refine takes_one.bind fun b cs hb => takes_pure ⟨b, rfl, trivial, ?_⟩
    rw [hb]
    exact Nat.le_refl 1
  refine uint16_takes.bind fun id c1 h1 => (readProperties_takes t).bind fun p c2 hp => ?_
  refine (whileMore_append_takes hround).bind fun codes c3 hc => ?_
  refine takes_check.bind fun _ _ hne => takes_pure ?_
  obtain ⟨hl, heq, -, hlen⟩ := hp
  refine ⟨⟨hl, by simpa using hne.2⟩, ?_, ?_⟩
  · simp only [Codes.canon, heq]
  · have hcod := hc.2
    rw [List.flatMap_singleton'] at hcod
    simp only [Codes.bytes, List.length_append, length_putUint16, List.length_nil]
    omega

/-! ## Packets -/

/-- What the decoder of a type accepts: a legal packet, as it is read back, in no fewer bytes than
its encoding has. -/
theorem decode_takes (t : PType) (flags : UInt8) : Takes (decode t flags) fun p cs =>
    p.Legal ∧ p.canon = p ∧ p.bytes.length ≤ cs.length := by
  cases t with
  | willContext => exact takes_throw
  | connect =>
    exact Takes.map (decodeConnect_takes.mono fun c _ h => ⟨h.1, congrArg _ h.2.1, h.2.2⟩)
  | connack =>
    exact Takes.map (decodeConnack_takes.mono fun c _ h => ⟨h.1, congrArg _ h.2.1, h.2.2⟩)
  | publish =>
    exact Takes.map ((decodePublish_takes flags).mono fun p _ h => ⟨h.1, congrArg _ h.2.1, h.2.2⟩)
  | puback | pubrec | pubrel | pubcomp =>
    exact Takes.map ((decodeAck_takes _).mono fun a _ h => ⟨h.1, congrArg _ h.2.1, h.2.2⟩)
  | subscribe =>
    refine Takes.map (decodeSubscribe_takes.mono fun s _ h => ⟨h.1, ?_, h.2.2⟩)
    simp only [Packet.canon, h.2.1]
  | suback | unsuback =>
    exact Takes.map ((decodeReasonCodeList_takes _).mono fun c _ h =>
      ⟨h.1, congrArg _ h.2.1, h.2.2⟩)
  | unsubscribe =>
    refine Takes.map (decodeUnsubscribe_takes.mono fun u _ h => ⟨h.1, ?_, h.2.2⟩)
    simp only [Packet.canon, h.2.1]
  | pingreq | pingresp =>
    exact takes_finish.bind fun _ _ _ => takes_pure ⟨trivial, rfl, Nat.zero_le _⟩
  | disconnect | auth =>
    exact Takes.map ((decodeReasonOnly_takes _).mono fun d _ h => ⟨h.1, congrArg _ h.2.1, h.2.2⟩)

/-- What `Read` accepts. -/
theorem read_takes (limit : UInt32) : Takes (read limit) fun p cs =>
    p.Legal ∧ p.canon = p ∧ p.bytes.length ≤ maxVarByteInt ∧ p.frame.length ≤ cs.length ∧
      (limit = 0 ∨ cs.length ≤ limit.toNat) := by
  refine takes_one.bind fun first c1 h1 => ?_
  dsimp only
  refine takes_check.bind fun _ _ hres => takes_check.bind fun _ _ hfix => ?_
  refine remainingLength_takes.bind fun len c2 hlen => takes_check.bind fun _ _ hsize => ?_
  refine (within_takes (decode_takes _ _)).mono fun p c3 hp => ?_
  obtain ⟨hn, ds, rest, hds, hl, heq, hle⟩ := hp
  obtain ⟨hc2, hw, hmax⟩ := hlen
  have hbody : p.bytes.length ≤ len.1 := by
    rw [hds, List.length_append] at hn
    omega
  have hmono := appendVarByteInt_mono hbody
  rw [← hc2] at hmono
  refine ⟨hl, heq, Nat.le_trans hbody hmax, ?_, ?_⟩
  · simp only [Packet.frame, List.length_append, List.length_singleton, h1]
    omega
  · rcases Bool.and_eq_false_iff.1 hsize.2 with h0 | hlim
    · left
      have hn0 : ¬ (0 : UInt32) < limit := of_decide_eq_false h0
      rw [UInt32.lt_iff_toNat_lt] at hn0
      have hz : (0 : UInt32).toNat = 0 := rfl
      exact UInt32.toNat_inj.mp (by omega)
    · right
      have hle := of_decide_eq_false hlim
      simp only [List.length_append, List.length_singleton, h1, hres.1, hfix.1, hsize.1,
        List.length_nil, hn]
      omega

theorem Packet.clearSession_bytes (p : Packet) : p.clearSession.frame = p.frame := by
  cases p with
  | connack c =>
    have hb : (c.sessionPresent && !isError c.reasonCode && !isError c.reasonCode) =
        (c.sessionPresent && !isError c.reasonCode) := by
      rw [Bool.and_assoc, Bool.and_self]
    simp only [Packet.frame, Packet.clearSession, Packet.bytes, Connack.bytes, Packet.type,
      Packet.flags,
      hb]
  | _ => rfl

theorem Packet.Legal.clearSession {p : Packet} (h : p.Legal) : p.clearSession.Legal := by
  cases p with
  | connack c =>
    have hc : c.Legal := h
    exact ⟨hc.properties⟩
  | _ => exact h

/-- A packet that was read encodes, in no more bytes than were read, and what is read from that is
the packet again, which encodes the same. Session Present is cleared on a CONNACK that carries an
error. -/
theorem read_then_encode_stable (b : Bytes) (limit : UInt32) (p : Packet) (rest : Bytes)
    (h : (read limit).run b = .ok (p, rest)) :
    ∃ consumed bs, b = consumed ++ rest ∧ encode p = .ok bs ∧ bs.length ≤ consumed.length ∧
      (read limit).run bs = .ok (p.clearSession, []) ∧ encode p.clearSession = .ok bs := by
  obtain ⟨consumed, hb, hl, hcanon, hmax, hlen, hlimit⟩ := read_takes limit b p rest h
  have hfits : limit = 0 ∨ p.frame.length ≤ limit.toNat :=
    hlimit.imp_right fun hle => Nat.le_trans hlen hle
  have hread := (read_frame hl hmax hfits).all
  rw [hcanon] at hread
  refine ⟨consumed, p.frame, hb, encode_eq_frame hl hmax, hlen, hread, ?_⟩
  have hmax' : p.clearSession.bytes.length ≤ maxVarByteInt := by
    cases p with
    | connack c => exact hmax
    | _ => exact hmax
  rw [encode_eq_frame hl.clearSession hmax', p.clearSession_bytes]

/-- A CONNACK with an error and Session Present, and an empty Reason String among its properties. -/
theorem read_then_encode_stable_connack :
    ∃ p, (read 0).run [0x20, 6, 1, 0x87, 3, 0x1F, 0, 0, 9] = .ok (p, [9]) ∧
      ∃ bs, encode p = .ok bs ∧ bs.length ≤ 8 ∧ (read 0).run bs = .ok (p.clearSession, []) := by
  refine ⟨.connack ⟨true, 0x87, {}⟩, by decide, ?_⟩
  obtain ⟨consumed, bs, hb, henc, hlen, hread, -⟩ := read_then_encode_stable
    [0x20, 6, 1, 0x87, 3, 0x1F, 0, 0, 9] 0 (.connack ⟨true, 0x87, {}⟩) [9] (by decide)
  have hc := congrArg List.length hb
  rw [List.length_append] at hc
  simp only [List.length_cons, List.length_nil] at hc
  exact ⟨bs, henc, by omega, hread⟩

end Natsmqtt5.Wire
