import Mathlib.Data.Option.Basic

/-!
# One key of a compare-and-swap store

A bucket's key has the revision of the last write to it, which may have been a delete, and a value
unless the last write was one. Every write takes a new revision above all earlier ones; `gap` is how
many revisions other keys took in between. `create` needs that there is no value, `update` and
`delete` that the last revision is the one the writer names.
-/

namespace Kv

universe u

/-- A key of the store. -/
structure Bucket (α : Type u) where
  last : Nat := 0
  value : Option α := none

variable {α : Type u} {b b' : Bucket α} {gap rev : Nat} {a : α}

/-- The revision the next write gets. -/
def Bucket.nextRev (b : Bucket α) (gap : Nat) : Nat := b.last + 1 + gap

/-- The value with its revision. -/
def Bucket.get (b : Bucket α) : Option (α × Nat) := b.value.map fun a => (a, b.last)

/-- Write a value where there is none. -/
def Bucket.create (b : Bucket α) (gap : Nat) (a : α) : Option (Bucket α) :=
  if b.value.isNone then some ⟨b.nextRev gap, some a⟩ else none

/-- Write over revision `rev`. -/
def Bucket.update (b : Bucket α) (gap : Nat) (a : α) (rev : Nat) : Option (Bucket α) :=
  if b.last = rev then some ⟨b.nextRev gap, some a⟩ else none

/-- Delete revision `rev`. -/
def Bucket.delete (b : Bucket α) (gap : Nat) (rev : Nat) : Option (Bucket α) :=
  if b.last = rev then some ⟨b.nextRev gap, none⟩ else none

theorem Bucket.last_lt_nextRev (b : Bucket α) (gap : Nat) : b.last < b.nextRev gap := by
  unfold nextRev
  omega

theorem Bucket.get_eq_some : b.get = some (a, rev) ↔ b.value = some a ∧ b.last = rev := by
  unfold get
  cases b.value with
  | none => simp
  | some x => simp

theorem Bucket.create_eq_some :
    b.create gap a = some b' ↔ b.value = none ∧ b' = ⟨b.nextRev gap, some a⟩ := by
  unfold create
  split
  · rename_i h
    simp [Option.isNone_iff_eq_none.mp h, eq_comm]
  · rename_i h
    simp only [Option.isNone_iff_eq_none] at h
    simp [h]

theorem Bucket.update_eq_some :
    b.update gap a rev = some b' ↔ b.last = rev ∧ b' = ⟨b.nextRev gap, some a⟩ := by
  unfold update
  split
  · rename_i h
    simp [h, eq_comm]
  · rename_i h
    simp [h]

theorem Bucket.delete_eq_some :
    b.delete gap rev = some b' ↔ b.last = rev ∧ b' = ⟨b.nextRev gap, none⟩ := by
  unfold delete
  split
  · rename_i h
    simp [h, eq_comm]
  · rename_i h
    simp [h]

end Kv
