import Natsmqtt5.Wire.Encodable

/-!
# Variable Byte Integers and the size of a packet

`appendVarByteInt`, `varByteIntLen`, the two decoders and `EncodedLen` (`codec.go`, `packet.go`)
agree on the whole range, and on every input that a decoder accepts.

Results:
* `length_appendVarByteInt`: the table of lengths.
* `varByteInt_agree`: the decoders invert the encoder and accept nothing else, and `EncodedLen` is
  the length of what `Encode` returns.
-/

namespace Natsmqtt5.Wire

def encodedLen (p : Packet) : Except Err Nat := do
  let r ← p.encode
  pure (1 + varByteIntLen r.2.length + r.2.length)

variable {v : Nat} {bs rest : Bytes}

/-- Each round takes seven bits off. -/
theorem length_appendVarByteInt_round (h : 128 ≤ v) :
    (appendVarByteInt v).length = (appendVarByteInt (v / 128)).length + 1 := by
  have hmore : 0 < v / 128 := by omega
  rw [appendVarByteInt_eq, if_pos hmore, List.length_cons]

theorem length_appendVarByteInt_last (h : v < 128) : (appendVarByteInt v).length = 1 := by
  rw [appendVarByteInt_small h, List.length_singleton]

theorem length_appendVarByteInt (h : v ≤ maxVarByteInt) :
    (appendVarByteInt v).length = varByteIntLen v := by
  rw [maxVarByteInt] at h
  unfold varByteIntLen
  split_ifs with h1 h2 h3
  · exact length_appendVarByteInt_last h1
  · rw [length_appendVarByteInt_round (by omega), length_appendVarByteInt_last (by omega)]
  · rw [length_appendVarByteInt_round (by omega), length_appendVarByteInt_round (by omega),
      length_appendVarByteInt_last (by omega)]
  · rw [length_appendVarByteInt_round (by omega), length_appendVarByteInt_round (by omega),
      length_appendVarByteInt_round (by omega), length_appendVarByteInt_last (by omega)]

theorem varByteInt_accepts (h : varByteInt.run bs = .ok (v, rest)) :
    bs = appendVarByteInt v ++ rest ∧ v ≤ maxVarByteInt := by
  obtain ⟨cs, rfl, rfl, hv⟩ := varByteInt_takes bs v rest h
  exact ⟨rfl, hv⟩

theorem remainingLength_accepts {r : Nat × Nat} (h : readRemainingLength.run bs = .ok (r, rest)) :
    bs = appendVarByteInt r.1 ++ rest ∧ r.2 = (appendVarByteInt r.1).length ∧
      r.1 ≤ maxVarByteInt := by
  obtain ⟨cs, rfl, rfl, hw, hv⟩ := remainingLength_takes bs r rest h
  exact ⟨rfl, hw, hv⟩

theorem encodedLen_eq {p : Packet} (h : encode p = .ok bs) : encodedLen p = .ok bs.length := by
  unfold encode at h
  obtain ⟨r, hr, h⟩ := bind_ok_iff.mp h
  obtain ⟨_, hfits, h⟩ := bind_ok_iff.mp h
  have hle : r.2.length ≤ maxVarByteInt := Nat.not_lt.mp (of_decide_eq_false (refuse_ok.mp hfits))
  obtain rfl := Except.ok.inj h
  unfold encodedLen
  rw [hr, List.length_append, List.length_append, length_appendVarByteInt hle,
    List.length_singleton, ← Nat.add_assoc]
  rfl

/-- What is read back, what is accepted, that both decoders accept it, and the size of a packet. -/
theorem varByteInt_agree :
    (∀ v, v ≤ 268435455 → ∀ rest, varByteInt.run (appendVarByteInt v ++ rest) = .ok (v, rest) ∧
      readRemainingLength.run (appendVarByteInt v ++ rest) = .ok ((v, varByteIntLen v), rest) ∧
      (appendVarByteInt v).length = varByteIntLen v) ∧
    (∀ bs v rest, varByteInt.run bs = .ok (v, rest) → bs = appendVarByteInt v ++ rest) ∧
    (∀ bs v width rest, readRemainingLength.run bs = .ok ((v, width), rest) →
      bs = appendVarByteInt v ++ rest) ∧
    (∀ bs v rest, varByteInt.run bs = .ok (v, rest) ↔
      ∃ width, readRemainingLength.run bs = .ok ((v, width), rest)) ∧
    ∀ p bs, encode p = .ok bs → encodedLen p = .ok bs.length := by
  refine ⟨?_, fun bs v rest h => (varByteInt_accepts h).1,
    fun bs v width rest h => (remainingLength_accepts h).1, fun bs v rest => ⟨?_, ?_⟩,
    fun p bs => encodedLen_eq⟩
  · intro v hv rest
    have hlen := length_appendVarByteInt hv
    have hread := remainingLength_reads hv rest
    rw [hlen] at hread
    exact ⟨varByteInt_reads hv rest, hread, hlen⟩
  · intro h
    obtain ⟨rfl, hv⟩ := varByteInt_accepts h
    exact ⟨_, remainingLength_reads hv rest⟩
  · rintro ⟨width, h⟩
    obtain ⟨rfl, -, hv⟩ := remainingLength_accepts h
    exact varByteInt_reads hv rest

end Natsmqtt5.Wire
