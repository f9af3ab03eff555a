import Natsmqtt5.Wire.Properties

/-!
# Properties read back

A `Properties` is the same as its list of items: `encode` writes those that are legal in the packet,
and `readProperties` adds those it reads to an empty one. `PropID.Legal` says which values a
property may have, apart from any code.

Results:
* `Properties.foldl_items`: the items of a `Properties`, added one by one, give it back.
* `readProperties_reads`: what `encode` writes is read back as the part that is legal in the
  context.
* `readProperties_takes`: what `readProperties` accepts is legal, and written again it takes no more
  bytes.
-/

namespace Natsmqtt5.Wire

open Parse

/-! ## Values by property -/

/-- The properties whose values are kept one after another. -/
def PropID.appends : PropID → Bool
  | .subscriptionID | .user => true
  | _ => false

/-- A value that was read, unless it is an empty string, which is not told from an absent one. -/
def Kind.present : (k : Kind) → k.Val → List k.Val
  | .string, v => Wire.present v
  | .binary, v => Wire.present v
  | .byte, v => [v]
  | .uint16, v => [v]
  | .uint32, v => [v]
  | .varByteInt, v => [v]
  | .stringPair, v => [v]

theorem Properties.get_set_self (p : Properties) (id : PropID) (v : id.Val) :
    (p.set id v).get id = (if id.appends then p.get id else []) ++ id.kind.present v := by
  cases id <;> rfl

variable {id : PropID} {p : Properties} {it : Item} {v : id.Val} {k : Kind} {ctx : PType}

theorem Properties.get_set_of_ne (p : Properties) {id' : PropID} (v : id.Val) (h : id' ≠ id) :
    (p.set id v).get id' = p.get id' := by
  cases id <;> cases id' <;> first | rfl | exact absurd rfl h

theorem present_inj {s t : Bytes} (h : present s = present t) : s = t := by
  rw [present, present] at h
  split at h
  · split at h
    · simp [*]
    · cases h
  · split at h
    · cases h
    · simpa using h

theorem toList_inj {α : Type} {a b : Option α} (h : a.toList = b.toList) : a = b := by
  cases a <;> cases b <;> simp_all

theorem Properties.ext_get {q : Properties} (h : ∀ id, p.get id = q.get id) : p = q := by
  cases p
  cases q
  congr 1
  · exact toList_inj (h .payloadFormat)
  · exact toList_inj (h .messageExpiry)
  · exact present_inj (h .contentType)
  · exact present_inj (h .responseTopic)
  · exact present_inj (h .correlationData)
  · exact h .subscriptionID
  · exact toList_inj (h .sessionExpiry)
  · exact present_inj (h .assignedClientID)
  · exact toList_inj (h .serverKeepAlive)
  · exact present_inj (h .authMethod)
  · exact present_inj (h .authData)
  · exact toList_inj (h .requestProblemInfo)
  · exact toList_inj (h .willDelayInterval)
  · exact toList_inj (h .requestResponse)
  · exact present_inj (h .responseInfo)
  · exact present_inj (h .serverReference)
  · exact present_inj (h .reasonString)
  · exact toList_inj (h .receiveMaximum)
  · exact toList_inj (h .topicAliasMaximum)
  · exact toList_inj (h .topicAlias)
  · exact toList_inj (h .maximumQoS)
  · exact toList_inj (h .retainAvailable)
  · exact h .user
  · exact toList_inj (h .maximumPacketSize)
  · exact toList_inj (h .wildcardSubAvail)
  · exact toList_inj (h .subIDAvail)
  · exact toList_inj (h .sharedSubAvail)

/-- The part of a `Properties` that satisfies `ok`. -/
def Properties.restrict (p : Properties) (ok : PropID → Bool) : Properties where
  payloadFormat := if ok .payloadFormat then p.payloadFormat else none
  messageExpiryInterval := if ok .messageExpiry then p.messageExpiryInterval else none
  contentType := if ok .contentType then p.contentType else []
  responseTopic := if ok .responseTopic then p.responseTopic else []
  correlationData := if ok .correlationData then p.correlationData else []
  subscriptionIdentifiers := if ok .subscriptionID then p.subscriptionIdentifiers else []
  sessionExpiryInterval := if ok .sessionExpiry then p.sessionExpiryInterval else none
  assignedClientID := if ok .assignedClientID then p.assignedClientID else []
  serverKeepAlive := if ok .serverKeepAlive then p.serverKeepAlive else none
  authenticationMethod := if ok .authMethod then p.authenticationMethod else []
  authenticationData := if ok .authData then p.authenticationData else []
  requestProblemInfo := if ok .requestProblemInfo then p.requestProblemInfo else none
  willDelayInterval := if ok .willDelayInterval then p.willDelayInterval else none
  requestResponseInfo := if ok .requestResponse then p.requestResponseInfo else none
  responseInformation := if ok .responseInfo then p.responseInformation else []
  serverReference := if ok .serverReference then p.serverReference else []
  reasonString := if ok .reasonString then p.reasonString else []
  receiveMaximum := if ok .receiveMaximum then p.receiveMaximum else none
  topicAliasMaximum := if ok .topicAliasMaximum then p.topicAliasMaximum else none
  topicAlias := if ok .topicAlias then p.topicAlias else none
  maximumQoS := if ok .maximumQoS then p.maximumQoS else none
  retainAvailable := if ok .retainAvailable then p.retainAvailable else none
  user := if ok .user then p.user else []
  maximumPacketSize := if ok .maximumPacketSize then p.maximumPacketSize else none
  wildcardSubAvailable := if ok .wildcardSubAvail then p.wildcardSubAvailable else none
  subIDAvailable := if ok .subIDAvail then p.subIDAvailable else none
  sharedSubAvailable := if ok .sharedSubAvail then p.sharedSubAvailable else none

/-- The properties legal in a context: the others are dropped. -/
def Properties.legalIn (p : Properties) (ctx : PType) : Properties :=
  p.restrict fun id => id.allowedIn ctx

theorem Properties.get_legalIn (p : Properties) (ctx : PType) (id : PropID) :
    (p.legalIn ctx).get id = if id.allowedIn ctx then p.get id else [] := by
  cases id <;> simp only [legalIn, restrict, get] <;> split <;> rfl

theorem PropID.mem_all (id : PropID) : id ∈ PropID.all := by
  cases id <;> decide

theorem PropID.nodup_all : PropID.all.Nodup := by
  decide

theorem PropID.ofCode_code (id : PropID) : PropID.ofCode id.code = some id := by
  cases id <;> rfl

theorem PropID.code_lt (id : PropID) : id.code < 128 := by
  cases id <;> decide

theorem Properties.mem_items : it ∈ p.items ↔ it.val ∈ p.get it.id := by
  simp only [items, List.mem_flatMap, List.mem_map]
  constructor
  · rintro ⟨id, -, v, hv, rfl⟩
    exact hv
  · intro h
    exact ⟨it.id, it.id.mem_all, it.val, h, rfl⟩

/-- What is legal in a context is what is left of the items. -/
theorem Properties.items_legalIn (p : Properties) (ctx : PType) :
    (p.legalIn ctx).items = p.items.filter fun it => it.id.allowedIn ctx := by
  rw [items, items, List.filter_flatMap]
  congr 1
  funext id
  rw [get_legalIn, List.filter_map]
  cases h : id.allowedIn ctx <;> simp [Function.comp_def, h]

/-! ## Putting the items together again -/

/-- `readProperty` on a value that was read. -/
def Properties.add (p : Properties) (it : Item) : Properties := p.set it.id it.val

/-- Values of one property leave the others alone. -/
theorem Properties.get_foldl_of_ne {id' : PropID} (h : id' ≠ id) (vs : List id.Val) :
    ∀ p : Properties, ((vs.map (Item.mk id)).foldl add p).get id' = p.get id' := by
  induction vs with
  | nil => intro p; rfl
  | cons v vs ih =>
    intro p
    rw [List.map_cons, List.foldl_cons, ih]
    exact p.get_set_of_ne v h

/-- A property that keeps one value holds at most one, and no empty string. -/
theorem Properties.get_single (p : Properties) (h : id.appends = false) :
    p.get id = [] ∨ ∃ v, p.get id = [v] ∧ id.kind.present v = [v] := by
  have hs (s : Bytes) : present s = [] ∨ ∃ v, present s = [v] ∧ present v = [v] := by
    by_cases h0 : s = []
    · exact .inl (if_pos h0)
    · exact .inr ⟨s, if_neg h0, if_neg h0⟩
  have ho {α : Type} (o : Option α) : o.toList = [] ∨ ∃ v, o.toList = [v] ∧ [v] = [v] := by
    cases o with
    | none => exact .inl rfl
    | some v => exact .inr ⟨v, rfl, rfl⟩
  cases id <;> first | exact hs _ | exact ho _ | cases h

/-- The values of one property, added to a `Properties` without it, are there afterwards. -/
theorem Properties.get_foldl_self (q : Properties) (id : PropID) (p : Properties)
    (hp : p.get id = []) : (((q.get id).map (Item.mk id)).foldl add p).get id = q.get id := by
  cases ha : id.appends with
  | true =>
    have hv (v : id.Val) : id.kind.present v = [v] := by
      cases id <;> first | rfl | cases ha
    have hadd (vs : List id.Val) :
        ∀ r : Properties, ((vs.map (Item.mk id)).foldl add r).get id = r.get id ++ vs := by
      induction vs with
      | nil => intro r; simp
      | cons v vs ih =>
        intro r
        rw [List.map_cons, List.foldl_cons, ih, add, get_set_self, ha, hv, if_pos rfl,
          List.append_assoc, List.singleton_append]
    rw [hadd, hp, List.nil_append]
  | false =>
    rcases q.get_single ha with h | ⟨v, h, hv⟩
    · rw [h]
      exact hp
    · rw [h, List.map_singleton, List.foldl_cons, List.foldl_nil, add, get_set_self, ha, hv]
      rfl

/-- Segment by segment, the items of `q` put each property of `q` in its place. -/
theorem Properties.get_foldl_segments (q : Properties) (ids : List PropID) :
    ∀ p : Properties, ids.Nodup → (∀ id ∈ ids, p.get id = []) → ∀ id,
      ((ids.flatMap fun id => (q.get id).map (Item.mk id)).foldl add p).get id =
        if id ∈ ids then q.get id else p.get id := by
  induction ids with
  | nil => intro p _ _ id; rfl
  | cons i ids ih =>
    intro p hnd hp id
    obtain ⟨hi, hnd⟩ := List.nodup_cons.1 hnd
    rw [List.flatMap_cons, List.foldl_append]
    have hp' : ∀ j ∈ ids, (((q.get i).map (Item.mk i)).foldl add p).get j = [] := by
      intro j hj
      have hne : j ≠ i := by
        rintro rfl
        exact hi hj
      rw [get_foldl_of_ne hne]
      exact hp j (List.mem_cons_of_mem i hj)
    rw [ih _ hnd hp' id]
    by_cases hmem : id ∈ ids
    · rw [if_pos hmem, if_pos (List.mem_cons_of_mem i hmem)]
    · rw [if_neg hmem]
      by_cases hid : id = i
      · subst hid
        rw [if_pos List.mem_cons_self]
        exact q.get_foldl_self id p (hp id List.mem_cons_self)
      · rw [if_neg (by simp [hid, hmem])]
        exact get_foldl_of_ne hid _ p

theorem Properties.get_empty (id : PropID) : ({} : Properties).get id = [] := by
  cases id <;> rfl

theorem Properties.foldl_items (q : Properties) : q.items.foldl add {} = q := by
  apply ext_get
  intro id
  rw [items, q.get_foldl_segments PropID.all {} PropID.nodup_all (fun id _ => get_empty id) id,
    if_pos id.mem_all]

/-! ## Legal values -/

/-- A value its encoding can carry. -/
def Kind.Ok : (k : Kind) → k.Val → Prop
  | .string, v => IsString v
  | .binary, v => v.length ≤ 65535
  | .varByteInt, v => 0 ≤ v ∧ v ≤ maxVarByteInt
  | .stringPair, v => IsString v.1 ∧ IsString v.2
  | .byte, _ | .uint16, _ | .uint32, _ => True

/-- The values the specification allows a property among those: flags are 0 or 1, and some integers
are not 0. -/
def PropID.Allows : (id : PropID) → id.Val → Prop
  | .payloadFormat, v | .requestProblemInfo, v | .requestResponse, v | .maximumQoS, v
  | .retainAvailable, v | .wildcardSubAvail, v | .subIDAvail, v | .sharedSubAvail, v => v ≤ 1
  | .subscriptionID, v => v ≠ 0
  | .receiveMaximum, v => v ≠ 0
  | .topicAlias, v => v ≠ 0
  | .maximumPacketSize, v => v ≠ 0
  | .messageExpiry, _ | .contentType, _ | .responseTopic, _ | .correlationData, _
  | .sessionExpiry, _ | .assignedClientID, _ | .serverKeepAlive, _ | .authMethod, _ | .authData, _
  | .willDelayInterval, _ | .responseInfo, _ | .serverReference, _ | .reasonString, _
  | .topicAliasMaximum, _ | .user, _ => True

/-- A legal value of a property. -/
structure PropID.Legal (id : PropID) (v : id.Val) : Prop where
  ok : id.kind.Ok v
  allows : id.Allows v

theorem flagByte_ok {fault : UInt8 → ProtocolFault} {v : UInt8} : flagByte fault v = .ok () ↔
    v ≤ 1 := by
  rw [flagByte, refuse_ok, decide_eq_false_iff_not, UInt8.not_lt]

theorem nonZero_ok {α : Type} [DecidableEq α] {e : Err} {v z : α} :
    refuse (v == z) e = .ok () ↔ v ≠ z := by
  rw [refuse_ok, beq_eq_false_iff_ne]

theorem PropID.accept_ok : id.accept v = .ok () ↔ id.Allows v := by
  cases id <;> first | exact flagByte_ok | exact nonZero_ok | exact iff_of_true rfl trivial

theorem not_outside {v m : Int} (hlo : 0 ≤ v) (hhi : v ≤ m) (hne : v ≠ 0) : ¬ (v < 1 ∨ m < v) := by
  omega

theorem PropID.Legal.checkEncode (h : id.Legal v) : id.checkEncode v = .ok () := by
  have hok := h.ok
  cases id with
  | subscriptionID => exact if_neg (not_outside hok.1 hok.2 h.allows)
  | user =>
    have h1 : checkLen .userPropertyName v.1 = .ok () := checkLen_ok.2 hok.1.length
    have h2 : checkLen .userPropertyValue v.2 = .ok () := checkLen_ok.2 hok.2.length
    simp only [PropID.checkEncode, h1, h2]
    rfl
  | contentType | responseTopic | assignedClientID | authMethod | responseInfo | serverReference
  | reasonString => exact checkLen_ok.2 hok.length
  | correlationData | authData => exact checkLen_ok.2 hok
  | _ => rfl

theorem Kind.read_reads {v : k.Val} (h : k.Ok v) : Reads k.read (k.put v) v := by
  cases k with
  | byte => exact reads_one _ v
  | uint16 => exact uint16_reads v
  | uint32 => exact uint32_reads v
  | string => exact string_reads h
  | binary => exact binary_reads h
  | varByteInt =>
    refine (varByteInt_reads (Int.toNat_le.2 h.2)).bindPure ?_
    rw [Int.toNat_of_nonneg h.1]
    exact reads_pure v
  | stringPair => exact stringPair_reads h.1 h.2

theorem Kind.read_takes (k : Kind) : Takes k.read fun v cs => cs.length = (k.put v).length ∧
    k.Ok v := by
  cases k with
  | byte => exact takes_one.mono fun v cs h => ⟨by rw [h]; rfl, trivial⟩
  | uint16 => exact uint16_takes.mono fun v cs h => ⟨h, trivial⟩
  | uint32 => exact uint32_takes.mono fun v cs h => ⟨h, trivial⟩
  | string =>
    refine string_takes.mono fun v cs h => ⟨?_, h.2⟩
    rw [h.1]
    exact (length_putString v).symm
  | binary =>
    refine binary_takes.mono fun v cs h => ⟨?_, h.2⟩
    rw [h.1]
    exact (length_putBinary v).symm
  | varByteInt =>
    refine varByteInt_takes.bind fun v cs h => takes_pure ⟨?_, ?_⟩
    · rw [List.append_nil, h.1]
      rfl
    · exact ⟨Int.natCast_nonneg v, Int.ofNat_le.2 h.2⟩
  | stringPair =>
    refine stringPair_takes.mono fun v cs h => ⟨?_, h.2⟩
    rw [h.1]
    simp [Kind.put, putStringPair]

/-! ## One round -/

theorem appendVarByteInt_small {v : Nat} (h : v < 128) : appendVarByteInt v = [UInt8.ofNat v] := by
  rw [appendVarByteInt_eq, if_neg (by omega), Nat.mod_eq_of_lt h]

theorem Item.put_ne_nil (it : Item) : it.put ≠ [] := by
  simp [Item.put]

theorem readProperty_reads (p : Properties) (h : id.Legal v) :
    Reads (readProperty p id) (id.kind.put v) (p.set id v) :=
  (Kind.read_reads h.ok).bindPure ((reads_lift (PropID.accept_ok.2 h.allows)).skip (reads_pure _))

/-- A round reads a legal property that may come here. -/
theorem propertyRound_reads {st : Properties × List PropID}
    (hl : it.id.Legal it.val) (ha : it.id.allowedIn ctx = true)
    (hs : it.id ∈ st.2 → it.id.repeatable ctx = true) :
    Reads (propertyRound ctx st) it.put (st.1.add it, it.id :: st.2) := by
  have hlt := it.id.code_lt
  have hcode : Reads varByteInt [UInt8.ofNat it.id.code] it.id.code := by
    rw [← appendVarByteInt_small hlt]
    exact varByteInt_reads (by rw [maxVarByteInt]; omega)
  refine hcode.bind ?_
  rw [PropID.ofCode_code]
  have hrep : (st.2.contains it.id && !it.id.repeatable ctx) = false := by
    rw [Bool.and_eq_false_iff]
    by_cases hmem : it.id ∈ st.2
    · exact .inr (by simp [hs hmem])
    · exact .inl (by simpa using hmem)
  refine (reads_check _ (by rw [ha]; rfl)).skip ((reads_check _ hrep).skip ?_)
  exact (readProperty_reads st.1 hl).bindPure (reads_pure _)

theorem readProperty_takes (p : Properties) (id : PropID) :
    Takes (readProperty p id) fun q cs =>
      ∃ v, q = p.set id v ∧ cs.length = (id.kind.put v).length ∧ id.Legal v := by
  refine id.kind.read_takes.bind fun v cs hv => takes_lift.bind fun _ ds hd => takes_pure ?_
  rw [hd.1, List.append_nil, List.append_nil]
  exact ⟨v, rfl, hv.1, hv.2, PropID.accept_ok.1 hd.2⟩

/-- What a round accepts is a legal property that may come here, in as many bytes as it is written
in. -/
theorem propertyRound_takes (ctx : PType) (st : Properties × List PropID) :
    Takes (propertyRound ctx st) fun st' cs =>
      ∃ it : Item, st' = (st.1.add it, it.id :: st.2) ∧ cs.length = it.put.length ∧
        it.id.Legal it.val ∧ it.id.allowedIn ctx = true ∧
        (it.id ∈ st.2 → it.id.repeatable ctx = true) := by
  refine varByteInt_takes.bind fun raw cs hraw => ?_
  cases hid : PropID.ofCode raw with
  | none => exact takes_throw
  | some id =>
    refine takes_check.bind fun _ _ ha => takes_check.bind fun _ _ hs => ?_
    refine (readProperty_takes st.1 id).bind fun q ds hq => takes_pure ?_
    obtain ⟨v, rfl, hlen, hl⟩ := hq
    have hcode : id.code = raw := by
      have h := List.find?_some hid
      simpa using h
    refine ⟨⟨id, v⟩, rfl, ?_, hl, by simpa using ha.2, fun hmem => ?_⟩
    · rw [ha.1, hs.1, hraw.1, ← hcode, appendVarByteInt_small id.code_lt]
      simp [Item.put, hlen]
    · have h := hs.2
      simpa [hmem] using h

/-! ## What is written is read -/

/-- Every value of every property is legal. -/
def Properties.Legal (p : Properties) : Prop := ∀ id, ∀ v ∈ p.get id, id.Legal v

/-- At most one Subscription Identifier, where a packet may not repeat it. -/
def Properties.Single (p : Properties) (ctx : PType) : Prop :=
  ctx = .publish ∨ p.subscriptionIdentifiers.length ≤ 1

/-- The properties `encode` writes. -/
def Properties.body (p : Properties) (ctx : PType) : Bytes := (p.legalIn ctx).items.flatMap Item.put

/-- With the Property Length before them. -/
def Properties.bytes (p : Properties) (ctx : PType) : Bytes :=
  appendVarByteInt (p.body ctx).length ++ p.body ctx

theorem putItems_ok {its : List Item} (h : ∀ it ∈ its, it.id.checkEncode it.val = .ok ()) :
    putItems ctx its = .ok ((its.filter fun it => it.id.allowedIn ctx).flatMap Item.put) := by
  induction its with
  | nil => rfl
  | cons it its ih =>
    have hrest := ih fun j hj => h j (List.mem_cons_of_mem it hj)
    rw [putItems, h it List.mem_cons_self, hrest]
    cases ha : it.id.allowedIn ctx with
    | true | false =>
      rw [List.filter_cons, ha]
      rfl

theorem Properties.encode_ok (h : p.Legal) (ctx : PType) : p.encode ctx = .ok (p.bytes ctx) := by
  have hi : ∀ it ∈ p.items, it.id.checkEncode it.val = .ok () := fun it hit =>
    (h it.id it.val (mem_items.1 hit)).checkEncode
  rw [encode, putItems_ok hi, bytes, body, items_legalIn]
  rfl

theorem PropID.appends_repeatable (ctx : PType) (ha : id.appends = true)
    (hs : id ≠ .subscriptionID ∨ ctx = .publish) : id.repeatable ctx = true := by
  cases id with
  | subscriptionID =>
    have hctx : ctx = .publish := hs.resolve_left fun h => h rfl
    rw [hctx]
    rfl
  | user => rfl
  | _ => cases ha

/-- No property is written twice that may not be. -/
theorem Properties.items_pairwise (h : p.Single ctx) :
    p.items.Pairwise fun a b => a.id = b.id → a.id.repeatable ctx = true := by
  rw [items, List.pairwise_flatMap]
  constructor
  · intro id _
    rw [List.pairwise_map]
    by_cases hone : (p.get id).length ≤ 1
    · match hv : p.get id, hone with
      | [], _ => exact List.Pairwise.nil
      | [v], _ => exact List.pairwise_singleton _ v
    · -- More than one value: the property is one that keeps them all.
      have ha : id.appends = true := by
        by_contra hna
        rcases p.get_single (by simpa using hna) with hg | ⟨v, hg, -⟩
        · simp [hg] at hone
        · simp [hg] at hone
      have hs : id ≠ .subscriptionID ∨ ctx = .publish := by
        rcases h with h | h
        · exact .inr h
        · refine .inl ?_
          rintro rfl
          exact hone h
      exact List.pairwise_of_forall fun a b _ => PropID.appends_repeatable ctx ha hs
  · refine PropID.nodup_all.imp fun {i j} hij a ha b hb hab => ?_
    obtain ⟨v, -, rfl⟩ := List.mem_map.1 ha
    obtain ⟨w, -, rfl⟩ := List.mem_map.1 hb
    exact absurd hab hij

theorem Properties.readItems (hl : p.Legal)
    (ha : ∀ id, p.get id ≠ [] → id.allowedIn ctx = true) (h1 : p.Single ctx) :
    ∃ seen, ReadsAll (whileMore (propertyRound ctx) ({}, [])) (p.items.flatMap Item.put)
      (p, seen) := by
  let app (st : Properties × List PropID) (it : Item) : Properties × List PropID :=
    (st.1.add it, it.id :: st.2)
  let I (st : Properties × List PropID) (its : List Item) : Prop :=
    (∀ it ∈ its, it.id.Legal it.val ∧ it.id.allowedIn ctx = true) ∧
      (its.Pairwise fun a b => a.id = b.id → a.id.repeatable ctx = true) ∧
      ∀ it ∈ its, it.id ∈ st.2 → it.id.repeatable ctx = true
  have hround : ∀ st it its, I st (it :: its) →
      it.put ≠ [] ∧ Reads (propertyRound ctx st) it.put (app st it) ∧ I (app st it) its := by
    rintro st it its ⟨hleg, hpair, hseen⟩
    obtain ⟨hfirst, hpair⟩ := List.pairwise_cons.1 hpair
    obtain ⟨hl1, ha1⟩ := hleg it List.mem_cons_self
    refine ⟨it.put_ne_nil, propertyRound_reads hl1 ha1 (hseen it List.mem_cons_self),
      fun j hj => hleg j (List.mem_cons_of_mem it hj), hpair, fun j hj hmem => ?_⟩
    rcases List.mem_cons.1 hmem with he | hmem
    · rw [he]
      exact hfirst j hj he.symm
    · exact hseen j (List.mem_cons_of_mem it hj) hmem
  have hstart : I ({}, []) p.items := by
    refine ⟨fun it hit => ?_, items_pairwise h1, fun it _ hmem => absurd hmem List.not_mem_nil⟩
    have hv := mem_items.1 hit
    exact ⟨hl it.id it.val hv, ha it.id (List.ne_nil_of_mem hv)⟩
  have hread := whileMore_readsAll I hround hstart fun it _ => it.put_ne_nil
  have hfst : ∀ (its : List Item) (st : Properties × List PropID),
      (its.foldl app st).1 = its.foldl add st.1 := by
    intro its
    induction its with
    | nil => intro st; rfl
    | cons it its ih => intro st; exact ih (app st it)
  refine ⟨(p.items.foldl app ({}, [])).2, ?_⟩
  have hp : (p.items.foldl app ({}, [])) = (p, (p.items.foldl app ({}, [])).2) :=
    Prod.ext ((hfst p.items ({}, [])).trans p.foldl_items) rfl
  rwa [hp] at hread

theorem Properties.Legal.legalIn (h : p.Legal) (ctx : PType) : (p.legalIn ctx).Legal := by
  intro id v hv
  rw [get_legalIn] at hv
  split at hv
  · exact h id v hv
  · cases hv

/-- A context without Subscription Identifiers drops them all. -/
theorem Properties.single_legalIn
    (h : ctx = .subscribe → p.subscriptionIdentifiers.length ≤ 1) : (p.legalIn ctx).Single ctx := by
  have hg := p.get_legalIn ctx .subscriptionID
  change (p.legalIn ctx).subscriptionIdentifiers = _ at hg
  by_cases hp : ctx = .publish
  · exact .inl hp
  · refine .inr ?_
    rw [hg]
    split
    · rename_i ha
      have hs : ctx = .subscribe := by
        cases ctx <;> first | rfl | exact absurd rfl hp | cases ha
      exact h hs
    · simp

/-- What `encode` writes is read back as the part that is legal in the context. -/
theorem readProperties_reads (hl : p.Legal)
    (h1 : ctx = .subscribe → p.subscriptionIdentifiers.length ≤ 1)
    (hlen : (p.body ctx).length ≤ maxVarByteInt) :
    Reads (readProperties ctx) (p.bytes ctx) (p.legalIn ctx) := by
  have ha : ∀ id, (p.legalIn ctx).get id ≠ [] → id.allowedIn ctx = true := by
    intro id hid
    rw [Properties.get_legalIn] at hid
    by_contra hna
    exact hid (if_neg hna)
  obtain ⟨seen, hread⟩ := Properties.readItems (hl.legalIn ctx) ha (Properties.single_legalIn h1)
  refine (varByteInt_reads hlen).bind ?_
  exact (within_reads _ hread).bindPure (reads_pure (p.legalIn ctx))

/-! ## What is read can be written -/

theorem Kind.eq_of_mem_present {v w : k.Val} (h : w ∈ k.present v) : w = v := by
  have hs {s t : Bytes} (h : t ∈ Wire.present s) : t = s := by
    rw [Wire.present] at h
    split at h
    · cases h
    · exact List.mem_singleton.1 h
  cases k <;> first | exact hs h | exact List.mem_singleton.1 h

/-- Adding an item adds nothing else. -/
theorem Properties.mem_items_add {it' : Item} (h : it' ∈ (p.add it).items) :
    it' ∈ p.items ∨ it' = it := by
  rw [mem_items] at h
  obtain ⟨id, w⟩ := it'
  obtain ⟨id₀, v⟩ := it
  by_cases hid : id = id₀
  · subst hid
    rw [add, get_set_self] at h
    rcases List.mem_append.1 h with h | h
    · split at h
      · exact .inl (mem_items.2 h)
      · cases h
    · have hw : w = v := Kind.eq_of_mem_present h
      exact .inr (by rw [hw])
  · rw [add, p.get_set_of_ne v hid] at h
    exact .inl (mem_items.2 h)

/-- The bytes one property takes. -/
def Properties.segLen (p : Properties) (id : PropID) : Nat :=
  ((p.get id).map fun v => 1 + (id.kind.put v).length).sum

theorem length_flatMap_put (p : Properties) (ids : List PropID) :
    ((ids.flatMap fun id => (p.get id).map (Item.mk id)).flatMap Item.put).length =
      (ids.map p.segLen).sum := by
  induction ids with
  | nil => rfl
  | cons id ids ih =>
    have hseg : (((p.get id).map (Item.mk id)).flatMap Item.put).length = p.segLen id := by
      rw [List.length_flatMap, List.map_map, Properties.segLen]
      congr 2
      funext v
      simp [Item.put, Nat.add_comm]
    rw [List.flatMap_cons, List.flatMap_append, List.length_append, ih, hseg, List.map_cons,
      List.sum_cons]

theorem Kind.sum_present_le (v : k.Val) (f : k.Val → Nat) : ((k.present v).map f).sum ≤ f v := by
  have hs (s : Bytes) (f : Bytes → Nat) : ((Wire.present s).map f).sum ≤ f s := by
    rw [Wire.present]
    split
    · exact Nat.zero_le _
    · simp
  have h1 {α : Type} (v : α) (f : α → Nat) : ([v].map f).sum ≤ f v := by simp
  cases k <;> first | exact hs v f | exact h1 v f

theorem Properties.segLen_add_self (p : Properties) (it : Item) :
    (p.add it).segLen it.id ≤ p.segLen it.id + it.put.length := by
  have hput : it.put.length = 1 + (it.id.kind.put it.val).length := by
    rw [Item.put, List.length_cons, Nat.add_comm]
  have hpres := Kind.sum_present_le it.val fun v => 1 + (it.id.kind.put v).length
  rw [segLen, add, get_set_self, List.map_append, List.sum_append]
  split
  · rw [segLen]
    omega
  · simp only [List.map_nil, List.sum_nil]
    omega

theorem Properties.segLen_add_of_ne (p : Properties) (it : Item) (h : id ≠ it.id) :
    (p.add it).segLen id = p.segLen id := by
  rw [segLen, add, p.get_set_of_ne it.val h, segLen]

/-- A sum over distinct indices where one term grows by at most `c`. -/
theorem sum_map_le_add {ι : Type} {f g : ι → Nat} {i : ι} {c : Nat} {l : List ι} (hl : l.Nodup)
    (hi : g i ≤ f i + c) (hne : ∀ j, j ≠ i → g j = f j) : (l.map g).sum ≤ (l.map f).sum + c := by
  induction l with
  | nil => simp
  | cons j l ih =>
    obtain ⟨hj, hl⟩ := List.nodup_cons.1 hl
    rw [List.map_cons, List.map_cons, List.sum_cons, List.sum_cons]
    by_cases hji : j = i
    · subst hji
      have hrest : l.map g = l.map f := List.map_congr_left fun k hk => hne k fun h => hj (h ▸ hk)
      rw [hrest]
      omega
    · have := hne j hji
      have := ih hl
      omega

theorem Properties.length_add_le (p : Properties) (it : Item) :
    ((p.add it).items.flatMap Item.put).length ≤ (p.items.flatMap Item.put).length +
        it.put.length := by
  rw [items, items, length_flatMap_put, length_flatMap_put]
  exact sum_map_le_add PropID.nodup_all (p.segLen_add_self it) fun id h => p.segLen_add_of_ne it h

theorem Properties.legalIn_eq
    (h : ∀ it ∈ p.items, it.id.allowedIn ctx = true) : p.legalIn ctx = p := by
  apply ext_get
  intro id
  rw [get_legalIn]
  split
  · rfl
  · rename_i hna
    symm
    rw [List.eq_nil_iff_forall_not_mem]
    intro v hv
    exact hna (h ⟨id, v⟩ (mem_items.2 hv))

theorem Properties.legalIn_legalIn (p : Properties) (ctx : PType) :
    (p.legalIn ctx).legalIn ctx = p.legalIn ctx := by
  refine Properties.legalIn_eq fun it hit => ?_
  rw [items_legalIn] at hit
  exact (List.mem_filter.mp hit).2

/-- What a round keeps: legal properties, each allowed here, written in no more bytes than were
read. -/
structure Properties.Read (ctx : PType) (st : Properties × List PropID) (cs : Bytes) : Prop where
  legal : ∀ it ∈ st.1.items, it.id.Legal it.val
  allowed : ∀ it ∈ st.1.items, it.id.allowedIn ctx = true
  length : (st.1.items.flatMap Item.put).length ≤ cs.length
  seen : .subscriptionID ∉ st.2 → st.1.subscriptionIdentifiers = []
  single : st.1.Single ctx

theorem Properties.Read.add {st : Properties × List PropID} {cs ds : Bytes}
    (h : Properties.Read ctx st cs) (hlen : ds.length = it.put.length) (hl : it.id.Legal it.val)
    (ha : it.id.allowedIn ctx = true) (hs : it.id ∈ st.2 → it.id.repeatable ctx = true) :
    Properties.Read ctx (st.1.add it, it.id :: st.2) (cs ++ ds) where
  legal j hj := by
    rcases mem_items_add hj with hj | rfl
    · exact h.legal j hj
    · exact hl
  allowed j hj := by
    rcases mem_items_add hj with hj | rfl
    · exact h.allowed j hj
    · exact ha
  length := by
    have hle := st.1.length_add_le it
    have hold := h.length
    change ((st.1.add it).items.flatMap Item.put).length ≤ _
    rw [List.length_append]
    omega
  seen hn := by
    have hne : PropID.subscriptionID ≠ it.id := fun he => hn (by simp [he])
    have hg := st.1.get_set_of_ne it.val hne
    exact hg.trans (h.seen fun hmem => hn (List.mem_cons_of_mem _ hmem))
  single := by
    rcases h.single with hp | hle
    · exact .inl hp
    · by_cases hid : PropID.subscriptionID = it.id
      · by_cases hpub : ctx = .publish
        · exact .inl hpub
        · -- Not to be repeated here, so that this one is the first.
          obtain ⟨id, v⟩ := it
          cases hid
          have hnot : PropID.subscriptionID ∉ st.2 := by
            intro hmem
            have hr := hs hmem
            simp [PropID.repeatable, hpub] at hr
          refine .inr ?_
          change (st.1.subscriptionIdentifiers ++ [v]).length ≤ 1
          rw [h.seen hnot]
          simp
      · have hg := st.1.get_set_of_ne it.val hid
        refine .inr ?_
        change (st.1.add it).subscriptionIdentifiers = _ at hg
        rw [hg]
        exact hle

theorem appendVarByteInt_mono {a : Nat} : ∀ {b : Nat}, a ≤ b →
    (appendVarByteInt a).length ≤ (appendVarByteInt b).length := by
  induction a using Nat.strongRecOn with
  | ind a ih =>
    intro b hab
    rw [appendVarByteInt_eq a, appendVarByteInt_eq b]
    by_cases ha : 0 < a / 128
    · have hle : a / 128 ≤ b / 128 := Nat.div_le_div_right hab
      rw [if_pos ha, if_pos (by omega), List.length_cons, List.length_cons]
      have := ih (a / 128) (by omega) hle
      omega
    · rw [if_neg ha]
      split <;> simp

/-- What the rounds keep of a `Properties` that starts empty. -/
theorem propertyRounds_takes (ctx : PType) :
    Takes (whileMore (propertyRound ctx) ({}, [])) (Properties.Read ctx) := by
  refine whileMore_takes (Properties.Read ctx) (fun st cs h => ?_) ?_
  · refine (propertyRound_takes ctx st).mono fun st' ds hst => ?_
    obtain ⟨it, rfl, hlen, hl, ha, hs⟩ := hst
    exact h.add hlen hl ha hs
  · have hnil : ∀ it, it ∉ ({} : Properties).items := by
      intro it hit
      rw [Properties.mem_items, Properties.get_empty] at hit
      cases hit
    exact ⟨fun it hit => absurd hit (hnil it), fun it hit => absurd hit (hnil it), Nat.le_refl 0,
      fun _ => rfl, .inr (Nat.zero_le 1)⟩

/-- The properties read are no longer than the Property Length says. -/
theorem readProperties_length (ctx : PType) :
    Takes (readProperties ctx) fun p _ => (p.items.flatMap Item.put).length ≤ maxVarByteInt := by
  refine varByteInt_takes.bind fun n cs hn =>
    (within_takes (propertyRounds_takes ctx)).bind fun st ds hds => takes_pure ?_
  obtain ⟨hlen, es, rest, rfl, hr⟩ := hds
  have hle := hr.length
  have hmax := hn.2
  rw [List.length_append] at hlen
  omega

/-- What `readProperties` accepts is legal, and written again it takes no more bytes. -/
theorem readProperties_takes (ctx : PType) :
    Takes (readProperties ctx) fun p cs => p.Legal ∧ p.legalIn ctx = p ∧
      (ctx = .subscribe → p.subscriptionIdentifiers.length ≤ 1) ∧
      (p.bytes ctx).length ≤ cs.length := by
  refine varByteInt_takes.bind fun n cs hn =>
    (within_takes (propertyRounds_takes ctx)).bind fun st ds hds => takes_pure ?_
  obtain ⟨hlen, es, rest, rfl, hr⟩ := hds
  have heq : st.1.legalIn ctx = st.1 := Properties.legalIn_eq hr.allowed
  have hbody : (st.1.body ctx).length ≤ n := by
    rw [Properties.body, heq]
    have hle := hr.length
    rw [List.length_append] at hlen
    omega
  have hone : ctx = .subscribe → st.1.subscriptionIdentifiers.length ≤ 1 := by
    intro hctx
    rcases hr.single with hp | hle
    · rw [hctx] at hp
      cases hp
    · exact hle
  refine ⟨fun id v hv => hr.legal ⟨id, v⟩ (Properties.mem_items.2 hv), heq, hone, ?_⟩
  have hmono := appendVarByteInt_mono hbody
  rw [Properties.bytes, List.append_nil, List.length_append, List.length_append, hlen, hn.1]
  omega

end Natsmqtt5.Wire
