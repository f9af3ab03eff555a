import Mathlib.Data.Fintype.Basic

/-!
# Base64

The standard encoding of bytes as text: three bytes are four characters of six bits each, and the
last ones are padded with `=`. Decoding skips line ends, and does not look at the bits that padding
leaves over.

Results:
* `decode_encode`: what was encoded is read back.
* `comma_not_mem_encode`: the text has no comma.
-/

namespace Base64

/-- The character of a value below 64. -/
def char (n : Nat) : UInt8 :=
  if n < 26 then (n + 65).toUInt8
  else if n < 52 then (n + 71).toUInt8
  else if n < 62 then (n - 4).toUInt8
  else if n = 62 then 43
  else 47

def value (c : UInt8) : Option Nat :=
  if 65 ≤ c ∧ c ≤ 90 then some (c.toNat - 65)
  else if 97 ≤ c ∧ c ≤ 122 then some (c.toNat - 71)
  else if 48 ≤ c ∧ c ≤ 57 then some (c.toNat + 4)
  else if c = 43 then some 62
  else if c = 47 then some 63
  else none

def encode : List UInt8 → List UInt8
  | [] => []
  | [a] => [char (a.toNat / 4), char (a.toNat % 4 * 16), 61, 61]
  | [a, b] =>
    [char (a.toNat / 4), char (a.toNat % 4 * 16 + b.toNat / 16), char (b.toNat % 16 * 4), 61]
  | a :: b :: c :: rest =>
    char (a.toNat / 4) :: char (a.toNat % 4 * 16 + b.toNat / 16) ::
      char (b.toNat % 16 * 4 + c.toNat / 64) :: char (c.toNat % 64) :: encode rest

/-- The bytes of four characters at a time. Padding ends the text. -/
def quanta : List UInt8 → Option (List UInt8)
  | [] => some []
  | a :: b :: c :: d :: rest => do
    let x ← value a
    let y ← value b
    let first := (x * 4 + y / 16).toUInt8
    if d = 61 ∧ rest = [] then
      if c = 61 then some [first]
      else
        let z ← value c
        some [first, (y % 16 * 16 + z / 4).toUInt8]
    else
      let z ← value c
      let w ← value d
      let out ← quanta rest
      some (first :: (y % 16 * 16 + z / 4).toUInt8 :: (z % 4 * 64 + w).toUInt8 :: out)
  | _ => none

def decode (s : List UInt8) : Option (List UInt8) := quanta (s.filter fun c => c ≠ 10 ∧ c ≠ 13)

variable {n : Nat}

theorem value_char (h : n < 64) : value (char n) = some n := by
  have hall : ∀ n : Fin 64, value (char n) = some n.1 := by decide
  exact hall ⟨n, h⟩

/-- The characters are not those that mean something else. -/
theorem char_ne (h : n < 64) : char n ≠ 61 ∧ char n ≠ 10 ∧ char n ≠ 13 ∧ char n ≠ 44 := by
  have hall : ∀ n : Fin 64, char n ≠ 61 ∧ char n ≠ 10 ∧ char n ≠ 13 ∧ char n ≠ 44 := by decide
  exact hall ⟨n, h⟩

theorem quarter_lt (a : UInt8) : a.toNat / 4 < 64 := by
  have := a.toNat_lt
  omega

theorem second_lt (a b : UInt8) : a.toNat % 4 * 16 + b.toNat / 16 < 64 := by
  have := b.toNat_lt
  omega

theorem third_lt (b c : UInt8) : b.toNat % 16 * 4 + c.toNat / 64 < 64 := by
  have := c.toNat_lt
  omega

theorem mem_encode {c : UInt8} : ∀ {s : List UInt8}, c ∈ encode s →
    c = 61 ∨ ∃ n < 64, c = char n
  | [], h => by cases h
  | [a], h => by
    simp only [encode, List.mem_cons, List.not_mem_nil, or_false, or_self] at h
    rcases h with rfl | rfl | rfl
    · exact .inr ⟨_, quarter_lt a, rfl⟩
    · exact .inr ⟨_, by omega, rfl⟩
    · exact .inl rfl
  | [a, b], h => by
    simp only [encode, List.mem_cons, List.not_mem_nil, or_false] at h
    rcases h with rfl | rfl | rfl | rfl
    · exact .inr ⟨_, quarter_lt a, rfl⟩
    · exact .inr ⟨_, second_lt a b, rfl⟩
    · exact .inr ⟨_, by omega, rfl⟩
    · exact .inl rfl
  | a :: b :: d :: rest, h => by
    simp only [encode, List.mem_cons] at h
    rcases h with rfl | rfl | rfl | rfl | h
    · exact .inr ⟨_, quarter_lt a, rfl⟩
    · exact .inr ⟨_, second_lt a b, rfl⟩
    · exact .inr ⟨_, third_lt b d, rfl⟩
    · exact .inr ⟨_, Nat.mod_lt _ (by decide), rfl⟩
    · exact mem_encode h

theorem comma_not_mem_encode (s : List UInt8) : 44 ∉ encode s := by
  intro h
  rcases mem_encode h with h | ⟨n, hn, h⟩
  · cases h
  · exact (char_ne hn).2.2.2 h.symm

theorem toUInt8_eq {a : UInt8} {n : Nat} (h : n = a.toNat) : n.toUInt8 = a := by
  rw [h]
  exact UInt8.ofNat_toNat

theorem quanta_encode : ∀ s : List UInt8, quanta (encode s) = some s
  | [] => rfl
  | [a] => by
    have hfirst : a.toNat / 4 * 4 + a.toNat % 4 * 16 / 16 = a.toNat := by omega
    simp only [encode, quanta, value_char (quarter_lt a),
      value_char (show a.toNat % 4 * 16 < 64 by omega), Option.bind_eq_bind, Option.bind_some,
      and_self, if_true, toUInt8_eq hfirst]
  | [a, b] => by
    have hb := b.toNat_lt
    have hlast : b.toNat % 16 * 4 < 64 := by omega
    have hfirst : a.toNat / 4 * 4 + (a.toNat % 4 * 16 + b.toNat / 16) / 16 = a.toNat := by omega
    have hsecond : (a.toNat % 4 * 16 + b.toNat / 16) % 16 * 16 + b.toNat % 16 * 4 / 4 =
        b.toNat := by omega
    simp only [encode, quanta, value_char (quarter_lt a), value_char (second_lt a b),
      value_char hlast, Option.bind_eq_bind, Option.bind_some, and_self, if_true,
      if_neg (char_ne hlast).1, toUInt8_eq hfirst, toUInt8_eq hsecond]
  | a :: b :: c :: rest => by
    have hb := b.toNat_lt
    have hc := c.toNat_lt
    have hlast : c.toNat % 64 < 64 := Nat.mod_lt _ (by decide)
    have hfirst : a.toNat / 4 * 4 + (a.toNat % 4 * 16 + b.toNat / 16) / 16 = a.toNat := by omega
    have hsecond : (a.toNat % 4 * 16 + b.toNat / 16) % 16 * 16 +
        (b.toNat % 16 * 4 + c.toNat / 64) / 4 = b.toNat := by omega
    have hthird : (b.toNat % 16 * 4 + c.toNat / 64) % 4 * 64 + c.toNat % 64 = c.toNat := by omega
    simp only [encode, quanta, value_char (quarter_lt a), value_char (second_lt a b),
      value_char (third_lt b c), value_char hlast, Option.bind_eq_bind, Option.bind_some,
      (char_ne hlast).1, false_and, if_false, quanta_encode rest, toUInt8_eq hfirst,
      toUInt8_eq hsecond, toUInt8_eq hthird]

theorem decode_encode (s : List UInt8) : decode (encode s) = some s := by
  have hkeep : (encode s).filter (fun c => c ≠ 10 ∧ c ≠ 13) = encode s := by
    refine List.filter_eq_self.mpr fun c hc => ?_
    rcases mem_encode hc with rfl | ⟨n, hn, rfl⟩
    · rfl
    · simp [(char_ne hn).2.1, (char_ne hn).2.2.1]
  rw [decode, hkeep]
  exact quanta_encode s

end Base64
