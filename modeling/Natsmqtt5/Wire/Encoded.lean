import Natsmqtt5.Wire.Legal

/-!
# Packets read back, type by type

For each packet type: what its encoder writes for a legal packet (`encode_ok`), and that its decoder
reads it back (`reads`).
-/

namespace Natsmqtt5.Wire

open Parse

/-! ## Flags -/

theorem le_two {q : UInt8} (h : q ≤ 2) : q = 0 ∨ q = 1 ∨ q = 2 := by
  have hn : q.toNat ≤ 2 := h
  rw [← UInt8.toNat_inj, ← UInt8.toNat_inj, ← UInt8.toNat_inj]
  have h0 : (0 : UInt8).toNat = 0 := rfl
  have h1 : (1 : UInt8).toNat = 1 := rfl
  have h2 : (2 : UInt8).toNat = 2 := rfl
  omega

/-- The flags of a CONNECT, bit by bit. -/
structure ConnectBits (f : UInt8) (cleanStart : Bool) (will : Option (UInt8 × Bool))
    (username password : Bool) : Prop where
  reserved : (f &&& 0x01 != 0) = false
  cleanStart : (f &&& 0x02 != 0) = cleanStart
  willFlag : (f &&& 0x04 != 0) = will.isSome
  willQoS : f >>> 3 &&& 0x03 = (will.map Prod.fst).getD 0
  willRetain : (f &&& 0x20 != 0) = (will.map Prod.snd).getD false
  username : (f &&& 0x80 != 0) = username
  password : (f &&& 0x40 != 0) = password

theorem connectFlags_bits (cleanStart : Bool) {will : Option (UInt8 × Bool)}
    (username password : Bool)
    (h : ∀ w ∈ will, w.1 ≤ 2) :
    ConnectBits (connectFlags cleanStart will username password) cleanStart will username
      password := by
  rcases will with _ | ⟨q, r⟩
  · cases cleanStart <;> cases username <;> cases password <;> constructor <;> rfl
  · have hq : q ≤ 2 := h (q, r) rfl
    rcases le_two hq with rfl | rfl | rfl <;> cases r <;> cases cleanStart <;> cases username <;>
      cases password <;> constructor <;> rfl

/-- The flags of a PUBLISH, bit by bit. -/
structure PublishBits (f : UInt8) (dup : Bool) (qos : UInt8) (retain : Bool) : Prop where
  dup : (f &&& 0x08 != 0) = dup
  qos : f >>> 1 &&& 0x03 = qos
  retain : (f &&& 0x01 != 0) = retain
  type : (0x30 ||| f) >>> 4 = 3
  flags : (0x30 ||| f) &&& 0x0F = f

variable {qos : UInt8} {c : Connect} {p : Properties} {t : PType}

theorem publishFlags_bits {dup : Bool} (retain : Bool) (hq : qos ≤ 2) (hd : dup = true → qos ≠ 0) :
    PublishBits (publishFlags dup qos retain) dup qos retain := by
  rcases le_two hq with rfl | rfl | rfl
  · cases dup with
    | true => exact absurd rfl (hd rfl)
    | false => cases retain <;> constructor <;> rfl
  · cases dup <;> cases retain <;> constructor <;> rfl
  · cases dup <;> cases retain <;> constructor <;> rfl

/-- The options of a subscription, bit by bit. -/
structure OptionBits (f qos retainHandling : UInt8) (noLocal retainAsPublished : Bool) : Prop where
  reserved : (f &&& 0xC0 != 0) = false
  qos : f &&& 0x03 = qos
  retainHandling : f >>> 4 &&& 0x03 = retainHandling
  noLocal : (f &&& 0x04 != 0) = noLocal
  retainAsPublished : (f &&& 0x08 != 0) = retainAsPublished

theorem subscriptionOptions_bits {retainHandling : UInt8} (noLocal retainAsPublished : Bool)
    (hq : qos ≤ 2) (hr : retainHandling ≤ 2) :
    OptionBits (subscriptionOptions qos retainHandling noLocal retainAsPublished) qos retainHandling
      noLocal retainAsPublished := by
  rcases le_two hq with rfl | rfl | rfl <;> rcases le_two hr with rfl | rfl | rfl <;>
    cases noLocal <;> cases retainAsPublished <;> constructor <;> rfl

/-! ## CONNECT -/

def Will.bytes (w : Will) : Bytes :=
  w.properties.bytes .willContext ++ (putString w.topic ++ putBinary w.payload)

def Connect.flags (c : Connect) : UInt8 :=
  connectFlags c.cleanStart (c.will.map fun w => (w.qos, w.retain)) (c.username != [])
    c.password.isSome

def usernameBytes (username : Bytes) : Bytes := if username = [] then [] else putString username

def Connect.bytes (c : Connect) : Bytes :=
  putString protocolName ++ ([protocolVersion5] ++ ([c.flags] ++ (putUint16 c.keepAlive ++
    (c.properties.bytes .connect ++ (putString c.clientID ++ ((c.will.map Will.bytes).getD [] ++
      (usernameBytes c.username ++ (c.password.map putBinary).getD [])))))))

theorem Will.encode_ok {w : Will} (h : w.Legal) : w.encode = .ok w.bytes := by
  rw [encode, checkLen_ok.2 h.topic.length, checkLen_ok.2 h.payload,
    Properties.encode_ok h.properties]
  rfl

theorem Connect.encode_ok (h : c.Legal) : c.encode = .ok (0, c.bytes) := by
  have hqos : checkWillQoS c.will = .ok () := by
    cases hw : c.will with
    | none => rfl
    | some w =>
      have hq : qosValid w.qos = true := decide_eq_true (h.will w hw).qos
      exact refuse_ok.2 (by rw [hq]; rfl)
  have hwill : encodeWill c.will = .ok ((c.will.map Will.bytes).getD []) := by
    cases hw : c.will with
    | none => rfl
    | some w => exact Will.encode_ok (h.will w hw)
  have huser : encodeUsername c.username = .ok (usernameBytes c.username) := by
    rw [encodeUsername, usernameBytes, checkLen_ok.2 h.username.length]
    split <;> rfl
  have hpw : encodePassword c.password = .ok ((c.password.map putBinary).getD []) := by
    cases hp : c.password with
    | none => rfl
    | some pw =>
      rw [encodePassword, checkLen_ok.2 (h.password pw hp)]
      rfl
  rw [encode, checkLen_ok.2 h.clientID.length, hqos, Properties.encode_ok h.properties, hwill,
    huser, hpw]
  rfl

theorem Properties.body_le {ctx : PType} {n : Nat} (h : (p.bytes ctx).length ≤ n) :
    (p.body ctx).length ≤ n := by
  rw [bytes, List.length_append] at h
  omega

theorem Will.reads {w : Will} (h : w.Legal) (hb : w.bytes.length ≤ maxVarByteInt) :
    Reads (decodeWill w.qos w.retain) w.bytes w.canon := by
  rw [bytes, List.length_append] at hb
  refine (readProperties_reads h.properties (by simp) (Properties.body_le (by omega))).bind ?_
  refine (string_reads h.topic).bind ?_
  exact (binary_reads h.payload).bindPure (reads_pure _)

theorem Connect.reads_will (h : c.Legal)
    (hb : ((c.will.map Will.bytes).getD []).length ≤ maxVarByteInt) {retain : Bool}
    (hq : qos = (c.will.map Will.qos).getD 0) (hr : retain = (c.will.map Will.retain).getD false) :
    Reads (onlyIf c.will.isSome none (some <$> decodeWill qos retain))
      ((c.will.map Will.bytes).getD [])
      c.canon.will := by
  rw [canon]
  cases hw : c.will with
  | none => exact reads_pure none
  | some w =>
    rw [hw] at hb hq hr
    subst hq hr
    exact (Will.reads (h.will w hw) hb).map some

theorem Connect.reads_username (h : c.Legal) :
    Reads (onlyIf (c.username != []) [] string) (usernameBytes c.username) c.username := by
  by_cases hu : c.username = []
  · rw [hu]
    exact reads_pure []
  · rw [usernameBytes, if_neg hu, show (c.username != []) = true by simpa using hu]
    exact string_reads h.username

theorem Connect.reads_password (h : c.Legal) :
    Reads (onlyIf c.password.isSome none decodePassword) ((c.password.map putBinary).getD [])
      c.canon.password := by
  rw [canon]
  cases hp : c.password with
  | none => exact reads_pure none
  | some pw =>
    refine (binary_reads (h.password pw hp)).bindPure ?_
    by_cases he : pw = []
    · subst he
      exact reads_pure none
    · have hf : (some pw).filter (· != []) = some pw := by simp [Option.filter, he]
      rw [if_neg he, hf]
      exact reads_pure (some pw)

theorem Connect.reads (h : c.Legal) (hb : c.bytes.length ≤ maxVarByteInt) :
    ReadsAll decodeConnect c.bytes c.canon := by
  have hq : ∀ w ∈ c.will.map fun w => (w.qos, w.retain), w.1 ≤ 2 := by
    intro w hw
    obtain ⟨w', hw', rfl⟩ := Option.mem_map.1 hw
    exact (h.will w' hw').qos
  have hbits := connectFlags_bits c.cleanStart (c.username != []) c.password.isSome hq
  change ConnectBits c.flags _ _ _ _ at hbits
  have hsome : (c.will.map fun w => (w.qos, w.retain)).isSome = c.will.isSome := Option.isSome_map
  have hlen : (c.properties.bytes .connect).length ≤ maxVarByteInt ∧
      ((c.will.map Will.bytes).getD []).length ≤ maxVarByteInt := by
    simp only [bytes, List.length_append] at hb
    omega
  have hname : IsString protocolName := ⟨by decide, [0x4D, 0x51, 0x54, 0x54], rfl, by decide⟩
  refine (string_reads hname).bindAll ((reads_check _ (by decide)).skipAll ?_)
  refine (reads_one _ protocolVersion5).bindAll ((reads_check _ (by decide)).skipAll ?_)
  refine (reads_one _ c.flags).bindAll ?_
  dsimp only
  rw [hbits.willFlag, hsome, hbits.willQoS, hbits.willRetain, hbits.username, hbits.password,
    hbits.cleanStart, Option.map_map, Option.map_map]
  refine (reads_check _ hbits.reserved).skipAll ?_
  have hno : (!c.will.isSome && (c.will.map Will.qos).getD 0 != 0) = false := by
    cases c.will <;> simp
  have hret : (!c.will.isSome && (c.will.map Will.retain).getD false) = false := by
    cases c.will <;> simp
  have hval : (c.will.isSome && !qosValid ((c.will.map Will.qos).getD 0)) = false := by
    cases hw : c.will with
    | none => rfl
    | some w =>
      have hv : qosValid w.qos = true := decide_eq_true (h.will w hw).qos
      simp [hv]
  refine (reads_check _ hno).skipAll
    ((reads_check _ hret).skipAll ((reads_check _ hval).skipAll ?_))
  refine (uint16_reads c.keepAlive).bindAll ?_
  refine (readProperties_reads h.properties (by simp) (Properties.body_le hlen.1)).bindAll ?_
  have hauth : ((c.properties.legalIn .connect).authenticationData != [] &&
      (c.properties.legalIn .connect).authenticationMethod == []) = false := by
    change (c.properties.authenticationData != [] && c.properties.authenticationMethod == []) =
      false
    by_cases hd : c.properties.authenticationData = []
    · simp [hd]
    · simp [h.authentication hd]
  refine (reads_check _ hauth).skipAll ((string_reads h.clientID).bindAll ?_)
  refine (reads_will h hlen.2 rfl rfl).bindAll ((reads_username h).bindAll ?_)
  exact (reads_password h).bindEnd (readsAll_finish (readsAll_pure _))

/-! ## CONNACK and PUBLISH -/

def Connack.bytes (c : Connack) : Bytes :=
  [bit (c.sessionPresent && !isError c.reasonCode) 0x01] ++
    ([c.reasonCode] ++ c.properties.bytes .connack)

theorem Connack.encode_ok {c : Connack} (h : c.Legal) : c.encode = .ok (0, c.bytes) := by
  rw [encode, Properties.encode_ok h.properties]
  rfl

theorem Connack.reads {c : Connack} (h : c.Legal) (hb : c.bytes.length ≤ maxVarByteInt) :
    ReadsAll decodeConnack c.bytes
      { c.canon with sessionPresent := c.sessionPresent && !isError c.reasonCode } := by
  have hlen : (c.properties.bytes .connack).length ≤ maxVarByteInt := by
    simp only [bytes, List.length_append] at hb
    omega
  generalize hp : (c.sessionPresent && !isError c.reasonCode) = present
  have hres : (bit present 0x01 &&& 0xFE != 0) = false := by cases present <;> rfl
  have hbit : (bit present 0x01 &&& 0x01 != 0) = present := by cases present <;> rfl
  rw [bytes, hp]
  refine (reads_one _ _).bindAll ((reads_check _ hres).skipAll ?_)
  refine (reads_one _ c.reasonCode).bindAll ?_
  rw [hbit]
  refine (readProperties_reads h.properties (by simp) (Properties.body_le hlen)).bindEnd ?_
  exact readsAll_finish (readsAll_pure _)

def Publish.bytes (p : Publish) : Bytes :=
  putString p.topic ++ ((if 0 < p.qos then putUint16 p.packetID else []) ++
    (p.properties.bytes .publish ++ p.payload))

/-- What is read of a PUBLISH is encoded as the PUBLISH was. -/
theorem Publish.bytes_canon (p : Publish) : p.canon.bytes = p.bytes := by
  have hid : (if 0 < p.qos then putUint16 p.canon.packetID else []) =
      if 0 < p.qos then putUint16 p.packetID else [] := by
    split_ifs with hq
    · have hne : p.qos ≠ 0 := by
        intro h0
        rw [h0] at hq
        exact absurd hq (by decide)
      rw [Publish.canon, if_neg hne]
    · rfl
  have hprops : p.canon.properties.bytes .publish = p.properties.bytes .publish := by
    rw [Properties.bytes, Properties.bytes, Properties.body, Properties.body, Publish.canon,
      Properties.legalIn_legalIn]
  rw [Publish.bytes, Publish.bytes, hprops, ← hid]
  rfl

theorem Publish.encode_ok {p : Publish} (h : p.Legal) :
    p.encode = .ok (publishFlags p.dup p.qos p.retain, p.bytes) := by
  have hq : qosValid p.qos = true := decide_eq_true h.qos
  rw [encode, refuse_ok.2 (by rw [hq]; rfl), checkLen_ok.2 h.topic.length,
    Properties.encode_ok h.properties]
  rfl

theorem qos_pos (q : UInt8) : 0 < q ↔ q ≠ 0 := by
  rw [UInt8.lt_iff_toNat_lt, ne_eq, ← UInt8.toNat_inj]
  have h0 : (0 : UInt8).toNat = 0 := rfl
  omega

theorem Publish.reads_packetID {p : Publish} (h : p.Legal) :
    Reads (onlyIf (decide (0 < p.qos)) 0 do
      let id ← uint16
      check (id == 0) (.protocol (.publishPacketID p.qos))
      pure id) (if 0 < p.qos then putUint16 p.packetID else []) p.canon.packetID := by
  rw [canon]
  by_cases hq : p.qos = 0
  · rw [hq]
    exact reads_pure 0
  · have hpos : 0 < p.qos := (qos_pos p.qos).2 hq
    have hid : (p.packetID == 0) = false := by simpa using h.packetID hq
    rw [if_pos hpos, decide_eq_true hpos, if_neg hq]
    exact (uint16_reads p.packetID).bindPure ((reads_check _ hid).skip (reads_pure p.packetID))

theorem Publish.reads {p : Publish} (h : p.Legal) (hb : p.bytes.length ≤ maxVarByteInt) :
    ReadsAll (decodePublish (publishFlags p.dup p.qos p.retain)) p.bytes p.canon := by
  have hbits := publishFlags_bits p.retain h.qos h.dup
  have hlen : (p.properties.bytes .publish).length ≤ maxVarByteInt := by
    simp only [bytes, List.length_append] at hb
    omega
  have hq : qosValid p.qos = true := decide_eq_true h.qos
  have hdup : (p.qos == 0 && p.dup) = false := by
    rw [Bool.and_eq_false_iff]
    by_cases hd : p.dup = true
    · exact .inl (by simpa using h.dup hd)
    · exact .inr (by simpa using hd)
  have hnamed : (p.topic == [] && (p.properties.legalIn .publish).topicAlias.isNone) = false := by
    change (p.topic == [] && p.properties.topicAlias.isNone) = false
    rw [Bool.and_eq_false_iff]
    rcases h.named with ht | ha
    · exact .inl (by simpa using ht)
    · refine .inr ?_
      cases hp : p.properties.topicAlias with
      | none => exact absurd hp ha
      | some a => rfl
  rw [decodePublish, hbits.dup, hbits.qos, hbits.retain, hq]
  refine (reads_check _ rfl).skipAll ((reads_check _ hdup).skipAll ?_)
  refine (string_reads h.topic).bindAll ((reads_packetID h).bindAll ?_)
  refine (readProperties_reads h.properties (by simp) (Properties.body_le hlen)).bindAll ?_
  exact (reads_check _ hnamed).skipAll rfl

/-! ## Reason Codes -/

/-- What the short forms leave of a Reason Code and its properties. -/
def reasonBytes (t : PType) (code : UInt8) (p : Properties) : Bytes :=
  if p.body t = [] then (if code = 0 then [] else [code]) else [code] ++ p.bytes t

theorem Properties.bytes_eq_zero : p.bytes t = [0] ↔ p.body t = [] := by
  rw [bytes]
  constructor
  · intro h
    have hl := congrArg List.length h
    have hpos : 0 < (appendVarByteInt (p.body t).length).length :=
      List.length_pos_iff.2 (appendVarByteInt_ne_nil _)
    rw [List.length_append, List.length_singleton] at hl
    exact List.length_eq_zero_iff.1 (by omega)
  · intro h
    rw [h]
    rfl

theorem encodeReason_ok (h : p.Legal) (code : UInt8) :
    encodeReason t code p = .ok (reasonBytes t code p) := by
  rw [encodeReason, Properties.encode_ok h, reasonBytes]
  by_cases hb : p.body t = []
  · have hz : p.bytes t = [0] := Properties.bytes_eq_zero.2 hb
    rw [hz, if_pos hb]
    by_cases hc : code = 0
    · subst hc
      rfl
    · have hc' : (code == 0) = false := by simpa using hc
      simp [hc, hc', Bind.bind, Except.bind, Pure.pure, Except.pure]
  · have hz : (p.bytes t == [0]) = false := by
      simpa using fun h => hb (Properties.bytes_eq_zero.1 h)
    simp [hb, hz, Bind.bind, Except.bind, Pure.pure, Except.pure]

theorem Properties.legalIn_of_body_nil (h : p.body t = []) : p.legalIn t = {} := by
  have hi : (p.legalIn t).items = [] := by
    rw [List.eq_nil_iff_forall_not_mem]
    intro it hit
    rw [body, List.flatMap_eq_nil_iff] at h
    exact it.put_ne_nil (h it hit)
  rw [← (p.legalIn t).foldl_items, hi]
  rfl

theorem decodeReason_reads (h : p.Legal) (code : UInt8)
    (h1 : t = .subscribe → p.subscriptionIdentifiers.length ≤ 1)
    (hb : (reasonBytes t code p).length ≤ maxVarByteInt) :
    ReadsAll (decodeReason t) (reasonBytes t code p) (code, p.legalIn t) := by
  by_cases hbody : p.body t = []
  · rw [reasonBytes, if_pos hbody, Properties.legalIn_of_body_nil hbody]
    by_cases hc : code = 0
    · rw [if_pos hc, hc]
      exact readsAll_atEnd_nil (readsAll_pure _)
    · rw [if_neg hc]
      refine readsAll_atEnd_cons (by simp) ((reads_one _ code).bindEnd ?_)
      exact readsAll_atEnd_nil (readsAll_pure _)
  · rw [reasonBytes, if_neg hbody] at hb ⊢
    rw [List.length_append] at hb
    refine readsAll_atEnd_cons (by simp) ((reads_one _ code).bindAll ?_)
    refine readsAll_atEnd_cons (by simp [Properties.bytes, hbody]) ?_
    refine (readProperties_reads h h1 (Properties.body_le (by omega))).bindEnd ?_
    exact readsAll_finish (readsAll_pure _)

def Ack.bytes (a : Ack) (t : PType) : Bytes :=
  putUint16 a.packetID ++ reasonBytes t a.reasonCode a.properties

theorem Ack.encode_ok {a : Ack} (h : a.properties.Legal) (t : PType) :
    a.encode t = .ok (reservedFlags t, a.bytes t) := by
  rw [encode, encodeReason_ok h]
  rfl

theorem Ack.reads {a : Ack} (h : a.properties.Legal) (ht : t ≠ .subscribe)
    (hb : (a.bytes t).length ≤ maxVarByteInt) : ReadsAll (decodeAck t) (a.bytes t) (a.canon t) := by
  rw [bytes, List.length_append] at hb
  refine (uint16_reads a.packetID).bindAll ?_
  have hr := decodeReason_reads h a.reasonCode (fun he => absurd he ht) (by omega)
  exact hr.map fun reason =>
    ({ packetID := a.packetID, reasonCode := reason.1, properties := reason.2 } : Ack)

theorem Reason.encode_ok {d : Reason} (h : d.properties.Legal) (t : PType) :
    d.encode t = .ok (0, reasonBytes t d.reasonCode d.properties) := by
  rw [encode, encodeReason_ok h]
  rfl

theorem Reason.reads {d : Reason} (h : d.properties.Legal) (ht : t ≠ .subscribe)
    (hb : (reasonBytes t d.reasonCode d.properties).length ≤ maxVarByteInt) :
    ReadsAll (decodeReasonOnly t) (reasonBytes t d.reasonCode d.properties) (d.canon t) := by
  have hr := decodeReason_reads h d.reasonCode (fun he => absurd he ht) hb
  exact hr.map fun reason => ({ reasonCode := reason.1, properties := reason.2 } : Reason)

/-! ## Lists -/

theorem encodeAll_ok {α : Type} {enc : α → Except Err Bytes} {put : α → Bytes} {xs : List α}
    (h : ∀ x ∈ xs, enc x = .ok (put x)) : encodeAll enc xs = .ok (xs.flatMap put) := by
  induction xs with
  | nil => rfl
  | cons x xs ih =>
    rw [encodeAll, h x List.mem_cons_self, ih fun y hy => h y (List.mem_cons_of_mem x hy)]
    rfl

theorem foldl_append_singleton {α : Type} (xs : List α) :
    ∀ acc : List α, xs.foldl (fun acc x => acc ++ [x]) acc = acc ++ xs := by
  induction xs with
  | nil => intro acc; simp
  | cons x xs ih => intro acc; rw [List.foldl_cons, ih]; simp

/-- A loop that appends what it reads reads a list. -/
theorem whileMore_append {α : Type} {round : List α → Reader (List α)} {put : α → Bytes}
    {xs : List α}
    (h : ∀ x ∈ xs, put x ≠ [] ∧ ∀ acc, Reads (round acc) (put x) (acc ++ [x])) :
    ReadsAll (whileMore round []) (xs.flatMap put) xs := by
  have hround : ∀ (acc : List α) (x : α) (ys : List α), (∀ y ∈ x :: ys, y ∈ xs) →
      put x ≠ [] ∧ Reads (round acc) (put x) (acc ++ [x]) ∧ ∀ y ∈ ys, y ∈ xs := by
    intro acc x ys hys
    obtain ⟨hne, hr⟩ := h x (hys x List.mem_cons_self)
    exact ⟨hne, hr acc, fun y hy => hys y (List.mem_cons_of_mem x hy)⟩
  have hread : ReadsAll (whileMore round []) (xs.flatMap put)
      (xs.foldl (fun acc x => acc ++ [x]) []) :=
    whileMore_readsAll (fun _ ys => ∀ y ∈ ys, y ∈ xs) hround (fun _ hy => hy) fun x hx => (h x hx).1
  rwa [foldl_append_singleton, List.nil_append] at hread

def Subscription.bytes (s : Subscription) : Bytes :=
  putString s.filter ++ [subscriptionOptions s.qos s.retainHandling s.noLocal s.retainAsPublished]

theorem Subscription.encode_ok {s : Subscription} (h : s.Legal) : s.encode = .ok s.bytes := by
  have hq : qosValid s.qos = true := decide_eq_true h.qos
  have hr : decide (2 < s.retainHandling) = false :=
      decide_eq_false (UInt8.not_lt.2 h.retainHandling)
  rw [encode, checkLen_ok.2 h.filter.length, refuse_ok.2 (by rw [hq]; rfl), refuse_ok.2 hr]
  rfl

theorem Subscription.reads {s : Subscription} (h : s.Legal) (acc : List Subscription) :
    Reads (subscriptionRound acc) s.bytes (acc ++ [s]) := by
  have hbits := subscriptionOptions_bits s.noLocal s.retainAsPublished h.qos h.retainHandling
  have hq : qosValid s.qos = true := decide_eq_true h.qos
  have hr : decide (2 < s.retainHandling) = false :=
      decide_eq_false (UInt8.not_lt.2 h.retainHandling)
  refine (string_reads h.filter).bind ((reads_one _ _).bindPure ?_)
  dsimp only
  rw [hbits.qos, hbits.retainHandling, hbits.noLocal, hbits.retainAsPublished, hq, hr]
  refine (reads_check _ hbits.reserved).skip
    ((reads_check _ rfl).skip ((reads_check _ rfl).skip ?_))
  exact reads_pure _

def Subscribe.bytes (s : Subscribe) : Bytes :=
  putUint16 s.packetID ++ (s.properties.bytes .subscribe ++ s.subscriptions.flatMap
    Subscription.bytes)

theorem Subscribe.encode_ok {s : Subscribe} (h : s.Legal) :
    s.encode = .ok (reservedFlags .subscribe, s.bytes) := by
  have hne : (s.subscriptions == []) = false := by simpa using h.nonempty
  rw [encode, refuse_ok.2 hne, Properties.encode_ok h.properties,
    encodeAll_ok fun x hx => Subscription.encode_ok (h.subscriptions x hx)]
  rfl

theorem Subscribe.reads {s : Subscribe} (h : s.Legal) (hb : s.bytes.length ≤ maxVarByteInt) :
    ReadsAll decodeSubscribe s.bytes
      { s with properties := s.properties.legalIn .subscribe } := by
  have hlen : (s.properties.bytes .subscribe).length ≤ maxVarByteInt := by
    simp only [bytes, List.length_append] at hb
    omega
  have hid : (s.packetID == 0) = false := by simpa using h.packetID
  have hne : (s.subscriptions == []) = false := by simpa using h.nonempty
  have hsubs : ReadsAll (whileMore subscriptionRound [])
      (s.subscriptions.flatMap Subscription.bytes)
      s.subscriptions :=
    whileMore_append fun x hx =>
      ⟨by simp [Subscription.bytes], Subscription.reads (h.subscriptions x hx)⟩
  refine (uint16_reads s.packetID).bindAll ((reads_check _ hid).skipAll ?_)
  refine (readProperties_reads h.properties (fun _ => h.single) (Properties.body_le hlen)).bindAll
    ?_
  exact hsubs.bindEnd ((reads_check _ hne).skipAll (readsAll_pure _))

def Unsubscribe.bytes (u : Unsubscribe) : Bytes :=
  putUint16 u.packetID ++ (u.properties.bytes .unsubscribe ++ u.filters.flatMap putString)

theorem encodeFilter_ok {f : Bytes} (h : IsString f) : encodeFilter f = .ok (putString f) := by
  rw [encodeFilter, checkLen_ok.2 h.length]
  rfl

theorem Unsubscribe.encode_ok {u : Unsubscribe} (h : u.Legal) :
    u.encode = .ok (reservedFlags .unsubscribe, u.bytes) := by
  have hne : (u.filters == []) = false := by simpa using h.nonempty
  rw [encode, refuse_ok.2 hne, Properties.encode_ok h.properties,
    encodeAll_ok fun x hx => encodeFilter_ok (h.filters x hx)]
  rfl

theorem Unsubscribe.reads {u : Unsubscribe} (h : u.Legal) (hb : u.bytes.length ≤ maxVarByteInt) :
    ReadsAll decodeUnsubscribe u.bytes
      { u with properties := u.properties.legalIn .unsubscribe } := by
  have hlen : (u.properties.bytes .unsubscribe).length ≤ maxVarByteInt := by
    simp only [bytes, List.length_append] at hb
    omega
  have hid : (u.packetID == 0) = false := by simpa using h.packetID
  have hne : (u.filters == []) = false := by simpa using h.nonempty
  have hfilters : ReadsAll (whileMore filterRound []) (u.filters.flatMap putString) u.filters :=
    whileMore_append fun f hf => ⟨by simp [putString, putBinary, putUint16], fun acc =>
      (string_reads (h.filters f hf)).bindPure (reads_pure _)⟩
  refine (uint16_reads u.packetID).bindAll ((reads_check _ hid).skipAll ?_)
  refine (readProperties_reads h.properties (by simp) (Properties.body_le hlen)).bindAll ?_
  exact hfilters.bindEnd ((reads_check _ hne).skipAll (readsAll_pure _))

def Codes.bytes (c : Codes) (t : PType) : Bytes :=
  putUint16 c.packetID ++ (c.properties.bytes t ++ c.reasonCodes)

theorem Codes.encode_ok {c : Codes} (h : c.Legal) (t : PType) :
    encodeReasonCodeList t c = .ok (0, c.bytes t) := by
  have hne : (c.reasonCodes == []) = false := by simpa using h.nonempty
  rw [encodeReasonCodeList, refuse_ok.2 hne, Properties.encode_ok h.properties]
  rfl

theorem Codes.reads {c : Codes} (h : c.Legal) (ht : t ≠ .subscribe)
    (hb : (c.bytes t).length ≤ maxVarByteInt) :
    ReadsAll (decodeReasonCodeList t) (c.bytes t) (c.canon t) := by
  have hlen : (c.properties.bytes t).length ≤ maxVarByteInt := by
    simp only [bytes, List.length_append] at hb
    omega
  have hne : (c.reasonCodes == []) = false := by simpa using h.nonempty
  have hcodes : ReadsAll (whileMore codeRound []) (c.reasonCodes.flatMap fun b => [b])
      c.reasonCodes :=
    whileMore_append fun b _ => ⟨by simp, fun acc => (reads_one _ b).bindPure (reads_pure _)⟩
  rw [List.flatMap_singleton'] at hcodes
  refine (uint16_reads c.packetID).bindAll ?_
  refine (readProperties_reads h.properties (fun he => absurd he ht)
    (Properties.body_le hlen)).bindAll ?_
  exact hcodes.bindEnd ((reads_check _ hne).skipAll (readsAll_pure _))

end Natsmqtt5.Wire
