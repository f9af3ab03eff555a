import Mathlib.Algebra.Order.BigOperators.Group.Finset

/-!
# Tallies over parties without number

A resource is held in shares by any number of parties. The tally says that the shares of any
finitely many of them, and `n` more, are within a limit; a step of one party keeps it if what that
party gains is matched by what it gives up, by `n` or by the limit.
-/

namespace Natsmqtt5

variable {ι : Type*} {f : ι → Nat} {n m : Nat}

/-- The shares of any finitely many parties, and `n`, are `m` at most. -/
def Tally (f : ι → Nat) (n m : Nat) : Prop := ∀ A : Finset ι, ∑ i ∈ A, f i + n ≤ m

theorem Tally.single (h : Tally f n m) (i : ι) : f i + n ≤ m := by
  simpa using h {i}

theorem Tally.rest (h : Tally f n m) : n ≤ m := by
  simpa using h ∅

theorem tally_of_zero (hf : ∀ i, f i = 0) (hn : n ≤ m) : Tally f n m := by
  intro A
  rw [Finset.sum_eq_zero fun i _ => hf i, Nat.zero_add]
  exact hn

/-- The share of `i` changes. -/
theorem Tally.update [DecidableEq ι] (h : Tally f n m) (i : ι) {v n' m' : Nat}
    (hle : v + n' + m ≤ f i + n + m') : Tally (Function.update f i v) n' m' := by
  intro A
  have hold := h (insert i (A.erase i))
  rw [Finset.sum_insert (Finset.notMem_erase i A)] at hold
  have hsub : ∑ j ∈ A, Function.update f i v j ≤ v + ∑ j ∈ A.erase i, f j := by
    calc ∑ j ∈ A, Function.update f i v j
        ≤ ∑ j ∈ insert i (A.erase i), Function.update f i v j :=
          Finset.sum_le_sum_of_subset (Finset.subset_insert_iff.mpr (Finset.Subset.refl _))
      _ = v + ∑ j ∈ A.erase i, f j := by
          rw [Finset.sum_insert (Finset.notMem_erase i A), Function.update_self]
          congr 1
          exact Finset.sum_congr rfl fun j hj =>
            Function.update_of_ne (Finset.ne_of_mem_erase hj) _ _
  omega

end Natsmqtt5
