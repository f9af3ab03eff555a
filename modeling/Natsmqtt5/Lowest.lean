import Mathlib.Data.List.Basic

/-!
# The lowest sequence

`lowestSeq` (`session.go:1222-1231`) and the loop of `awayFloor`: stream sequences of which 0 says
that there is none.

* `AtOrBelow`: a position at or below another one, if that is one.
* `lowestSeq_le`, `lowestSeq_mem`: the lowest of the sequences that are set is at or below each of
  them, and is one of them.
-/

namespace Natsmqtt5

/-- The lower of two sequences, of those that are set: one turn of the loops. -/
def lowest (a q : Nat) : Nat := if q ≠ 0 ∧ (a = 0 ∨ q < a) then q else a

/-- The lowest of the sequences that are set, or 0 when none is. -/
def lowestSeq (seqs : List Nat) : Nat := seqs.foldl lowest 0

/-- `a` is a position at or below `q`, if `q` is one. -/
def AtOrBelow (a q : Nat) : Prop := q ≠ 0 → a ≠ 0 ∧ a ≤ q
  deriving Decidable

theorem lowest_new (a q : Nat) : AtOrBelow (lowest a q) q := by
  intro hq
  unfold lowest
  split <;> omega

variable {a q : Nat} {seqs : List Nat}

theorem AtOrBelow.lowest (h : AtOrBelow a q) (q' : Nat) : AtOrBelow (lowest a q') q := by
  intro hq
  have := h hq
  unfold Natsmqtt5.lowest
  split <;> omega

theorem AtOrBelow.foldl (h : AtOrBelow a q) (seqs : List Nat) :
    AtOrBelow (seqs.foldl Natsmqtt5.lowest a) q := by
  induction seqs generalizing a with
  | nil => exact h
  | cons q' seqs ih => exact ih (h.lowest q')

theorem foldl_lowest (hq : q ∈ seqs) (a : Nat) : AtOrBelow (seqs.foldl lowest a) q := by
  induction seqs generalizing a with
  | nil => simp at hq
  | cons q' seqs ih =>
    obtain rfl | hq := List.mem_cons.mp hq
    · exact (lowest_new a q).foldl seqs
    · exact ih hq _

theorem AtOrBelow.trans {b : Nat} (h : AtOrBelow a b) (h' : AtOrBelow b q) : AtOrBelow a q := by
  intro hq
  have hb := h' hq
  have ha := h hb.1
  omega

theorem AtOrBelow.refl (q : Nat) : AtOrBelow q q := fun hq => ⟨hq, Nat.le_refl q⟩

theorem lowestSeq_le (hq : q ∈ seqs) : AtOrBelow (lowestSeq seqs) q := foldl_lowest hq 0

theorem foldl_lowest_mem : seqs.foldl lowest a = a ∨ seqs.foldl lowest a ∈ seqs := by
  induction seqs generalizing a with
  | nil => exact .inl rfl
  | cons q seqs ih =>
    rw [List.foldl_cons]
    rcases ih with hrest | hrest
    · rw [hrest]
      unfold lowest
      split
      · exact .inr List.mem_cons_self
      · exact .inl rfl
    · exact .inr (List.mem_cons_of_mem _ hrest)

theorem lowestSeq_mem (seqs : List Nat) : lowestSeq seqs = 0 ∨ lowestSeq seqs ∈ seqs :=
  foldl_lowest_mem

end Natsmqtt5
