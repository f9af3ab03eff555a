import Natsmqtt5.Message

/-!
# What is forwarded of a PUBLISH

`fromNATS` of `toNATS` (`message.go:118-202`): the headers one broker writes are read by the broker
that delivers. A User Property is one header value, its name, a blank and its value, and only `%`
and the control bytes are escaped in it: a blank in the name is read as the end of the name.

Results:
* `unescapeHeader_escapeHeader`: the escapes are read back, of every byte string.
* `user_read`: what is read of a User Property has no blank in its name, and is the property if it
  had none.
* **`properties_forwarded`**: every field is read back if and only if no User Property has a blank
  in its name.
* `user_property_altered`: a name with a blank.
-/

namespace Natsmqtt5

/-! ## Escapes -/

theorem hexVal_hex {n : UInt8} (h : n < 16) : hexVal (hex n) = some n := by
  have hall : ∀ n : Fin 16, hexVal (hex (UInt8.ofNat n)) = some (UInt8.ofNat n) := by decide
  have hn := hall ⟨n.toNat, h⟩
  rwa [UInt8.ofNat_toNat] at hn

/-- The two halves of a byte, and the byte of two halves. -/
theorem halves (ch : UInt8) :
    ch >>> 4 < 16 ∧ ch &&& 0x0F < 16 ∧ ((ch >>> 4) <<< 4 ||| (ch &&& 0x0F)) = ch := by
  have hall : ∀ n : Fin 256, UInt8.ofNat n >>> 4 < 16 ∧ UInt8.ofNat n &&& 0x0F < 16 ∧
      ((UInt8.ofNat n >>> 4) <<< 4 ||| (UInt8.ofNat n &&& 0x0F)) = UInt8.ofNat n := by
    decide +kernel
  have hch := hall ⟨ch.toNat, ch.toNat_lt⟩
  rwa [UInt8.ofNat_toNat] at hch

theorem unescapeHeader_cons {ch : UInt8} (h : ch ≠ 37) (s : Bytes) :
    unescapeHeader (ch :: s) = ch :: unescapeHeader s := by
  rw [unescapeHeader]
  rintro a b rest rfl
  exact absurd rfl h

theorem unescapeHeader_escape (ch : UInt8) (s : Bytes) :
    unescapeHeader (37 :: hex (ch >>> 4) :: hex (ch &&& 0x0F) :: s) = ch :: unescapeHeader s := by
  obtain ⟨hhi, hlo, hboth⟩ := halves ch
  rw [unescapeHeader, hexVal_hex hhi, hexVal_hex hlo]
  simp only [hboth]

/-- **The escapes are read back.** -/
theorem unescapeHeader_escapeHeader (s : Bytes) : unescapeHeader (escapeHeader s) = s := by
  induction s with
  | nil => rfl
  | cons ch s ih =>
    unfold escapeHeader at ih ⊢
    rw [List.flatMap_cons]
    split_ifs with hunsafe
    · rw [List.cons_append, List.cons_append, List.cons_append, List.nil_append,
        unescapeHeader_escape, ih]
    · have hne : ch ≠ 37 := by
        rintro rfl
        exact hunsafe (by decide)
      rw [List.singleton_append, unescapeHeader_cons hne, ih]

theorem blank_notMem_escapeHeader {s : Bytes} (h : 32 ∉ s) : 32 ∉ escapeHeader s := by
  have hhex : ∀ n : UInt8, n < 16 → hex n ≠ 32 := by
    intro n hn heq
    have hval := hexVal_hex hn
    rw [heq] at hval
    cases hval
  unfold escapeHeader
  rw [List.mem_flatMap]
  rintro ⟨ch, hch, hmem⟩
  split_ifs at hmem
  · obtain ⟨hhi, hlo, -⟩ := halves ch
    simp [(hhex _ hhi).symm, (hhex _ hlo).symm] at hmem
  · exact h (List.mem_singleton.mp hmem ▸ hch)

theorem cut_append {k : Bytes} (h : 32 ∉ k) (v : Bytes) : cut (k ++ 32 :: v) = some (k, v) := by
  induction k with
  | nil => rfl
  | cons ch k ih =>
    have hne : ch ≠ 32 := fun heq => h (heq ▸ List.mem_cons_self)
    have htail : 32 ∉ k := fun hmem => h (List.mem_cons_of_mem _ hmem)
    rw [List.cons_append, cut, ih htail]
    · rfl
    · exact hne

/-! ## Numbers -/

theorem digit_digitChar {d : Nat} (h : d < 10) (n : Nat) :
    digit n d.digitChar.toNat.toUInt8 = some (n * 10 + d) := by
  have hall : ∀ d : Fin 10, 48 ≤ d.1.digitChar.toNat.toUInt8 ∧ d.1.digitChar.toNat.toUInt8 ≤ 57 ∧
      d.1.digitChar.toNat.toUInt8.toNat - 48 = d := by decide
  obtain ⟨hlo, hhi, hval⟩ := hall ⟨d, h⟩
  simp only at hlo hhi hval
  rw [digit, if_pos ⟨hlo, hhi⟩, hval]

/-- A number is read back from its digits. -/
theorem foldlM_digit_itoa (n : Nat) : (itoa n).foldlM digit 0 = some n := by
  induction n using Nat.strong_induction_on with
  | _ n ih =>
    unfold itoa at ih ⊢
    by_cases hn : n < 10
    · rw [Nat.toDigits_of_lt_base hn]
      simpa using digit_digitChar hn 0
    · have hlast : n % 10 < 10 := Nat.mod_lt _ (by decide)
      rw [Nat.toDigits_of_base_le (by decide) (Nat.not_lt.mp hn), List.map_append,
        List.foldlM_append, ih (n / 10) (by omega)]
      have hdigit := digit_digitChar hlast (n / 10)
      rw [Nat.div_add_mod'] at hdigit
      simpa using hdigit

theorem digits_itoa (n : Nat) : digits (itoa n) = some n := by
  have hne : itoa n ≠ [] := by simp [itoa, Nat.toDigits_ne_nil]
  rw [digits, if_neg hne, foldlM_digit_itoa]

theorem parseUint32_itoa (n : UInt32) : parseUint32 (itoa n.toNat) = some n := by
  have hlt : n.toNat < 4294967296 := n.toNat_lt
  rw [parseUint32, digits_itoa, Option.bind_some, if_pos hlt]
  simp

/-! ## The round trip -/

/-- The properties that are forwarded: those of a PUBLISH that are not of one connection. -/
def Wire.Properties.forwarded (props : Properties) : Properties :=
  { payloadFormat := props.payloadFormat
    messageExpiryInterval := props.messageExpiryInterval
    contentType := props.contentType
    responseTopic := props.responseTopic
    correlationData := props.correlationData
    user := props.user }

theorem escapeHeader_append (s t : Bytes) :
    escapeHeader (s ++ t) = escapeHeader s ++ escapeHeader t :=
  List.flatMap_append

/-- What is read of a User Property. -/
theorem user_read (up : Bytes × Bytes) : ∃ up' : Bytes × Bytes, 32 ∉ up'.1 ∧
    (32 ∉ up.1 → up' = up) ∧
    (cut (escapeHeader up.1 ++ 32 :: escapeHeader up.2)).map
      (fun p => (⟨unescapeHeader p.1, unescapeHeader p.2⟩ : Bytes × Bytes)) = some up' := by
  obtain ⟨key, value⟩ := up
  by_cases hkey : 32 ∈ key
  · -- the name ends at its first blank
    obtain ⟨front, rest, rfl, hfront⟩ := List.eq_append_cons_of_mem hkey
    refine ⟨⟨front, unescapeHeader (escapeHeader rest ++ 32 :: escapeHeader value)⟩, hfront,
      fun h => absurd hkey h, ?_⟩
    have hblank : escapeHeader (32 :: rest) = 32 :: escapeHeader rest := rfl
    rw [escapeHeader_append, hblank, List.append_assoc, List.cons_append,
      cut_append (blank_notMem_escapeHeader hfront), Option.map_some, unescapeHeader_escapeHeader]
  · refine ⟨⟨key, value⟩, hkey, fun _ => rfl, ?_⟩
    rw [cut_append (blank_notMem_escapeHeader hkey), Option.map_some, unescapeHeader_escapeHeader,
      unescapeHeader_escapeHeader]

theorem map_user_iff {ups : List (Bytes × Bytes)} :
    (ups.map fun up => escapeHeader up.1 ++ 32 :: escapeHeader up.2).filterMap
      (fun raw => (cut raw).map fun p =>
        (⟨unescapeHeader p.1, unescapeHeader p.2⟩ : Bytes × Bytes)) = ups ↔
      ∀ up ∈ ups, 32 ∉ up.1 := by
  refine ⟨fun h up hup => ?_, fun h => ?_⟩
  · rw [← h] at hup
    obtain ⟨raw, hraw, hread⟩ := List.mem_filterMap.mp hup
    obtain ⟨up₀, -, rfl⟩ := List.mem_map.mp hraw
    obtain ⟨up', hblank, -, hread'⟩ := user_read up₀
    rw [hread'] at hread
    exact Option.some.inj hread ▸ hblank
  · rw [List.filterMap_map]
    refine (List.filterMap_congr fun up hup => ?_).trans List.filterMap_some
    obtain ⟨up', -, hsame, hread⟩ := user_read up
    rw [Function.comp, hread, hsame (h up hup)]

/-- An escaped text that is left out when it is empty. -/
theorem unescape_headD (s : Bytes) :
    unescapeHeader ((if s = [] then [] else [escapeHeader s]).headD []) = s := by
  split_ifs with h
  · rw [h]
    rfl
  · exact unescapeHeader_escapeHeader s

/-- **Properties are forwarded unaltered**: the QoS, the RETAIN flag, the origin and every property
are read back, if and only if no User Property has a blank in its name. -/
theorem properties_forwarded (originClientID id : Bytes) (p : Publish)
    (hformat : ∀ f, p.properties.payloadFormat = some f → f = 0 ∨ f = 1) :
    fromNATS (toNATS originClientID id p) =
        ⟨p.qos, p.retain, originClientID, p.properties.forwarded⟩ ↔
      ∀ up ∈ p.properties.user, 32 ∉ up.1 := by
  have hretain : decide ((if p.retain then [[49]] else ([] : List Bytes)).headD [] = [49]) =
      p.retain := by
    cases p.retain <;> rfl
  have hexpiry : parseUint32 (((p.properties.messageExpiryInterval.map fun n =>
      [itoa n.toNat]).getD []).headD []) = p.properties.messageExpiryInterval := by
    cases p.properties.messageExpiryInterval with
    | none => rfl
    | some n => exact parseUint32_itoa n
  have hread : formatOf (((p.properties.payloadFormat.map fun f =>
      [itoa f.toNat]).getD []).headD []) = p.properties.payloadFormat := by
    cases hf : p.properties.payloadFormat with
    | none => rfl
    | some f =>
      rcases hformat f hf with rfl | rfl
      · rfl
      · rfl
  rw [← map_user_iff]
  unfold fromNATS Wire.Properties.forwarded
  simp only [header_toNATS, Header.get, Wire.Properties.values_headers, Publish.values_base,
    List.nil_append, List.headD_cons, unescape_headD, qosOf_itoa, hretain, hexpiry, hread,
    FromNATS.mk.injEq, Wire.Properties.mk.injEq, true_and, and_true]

/-- A PUBLISH with a property of every kind. -/
def fullPublish : Publish where
  qos := .qos2
  retain := true
  properties := {
    payloadFormat := some 1
    messageExpiryInterval := some 60
    contentType := [116]
    responseTopic := [114, 37]
    correlationData := [0, 10, 255]
    user := [⟨[97], [98, 32, 99]⟩, ⟨[97], []⟩] }
  payload := [1]

theorem properties_forwarded_full :
    fromNATS (toNATS [99] [105] fullPublish) =
      ⟨.qos2, true, [99], fullPublish.properties.forwarded⟩ :=
  (properties_forwarded [99] [105] fullPublish fun _ h => .inr (Option.some.inj h).symm).mpr
    (by simp [fullPublish])

/-- A User Property named `a b` arrives as one named `a`. -/
theorem user_property_altered :
    ∃ p : Publish, p.properties.user = [⟨[97, 32, 98], [99]⟩] ∧
      (fromNATS (toNATS [] [105] p)).props.user = [⟨[97], [98, 32, 99]⟩] :=
  ⟨⟨.qos0, false, { user := [⟨[97, 32, 98], [99]⟩] }, []⟩, rfl, by decide⟩

end Natsmqtt5
