import Mathlib.Data.List.Nodup
import Mathlib.Data.List.Perm.Basic

/-!
# A table of numbered slots, the least recently used first out

A table that one side keeps and the other side is told about. It is a list of entries, the most
recently used in front; an entry has a key and a slot, and the slots in use are `1` to the number of
entries. An entry that is used moves to the front, a new one takes the next slot, and when there is
none the slot of the last. What the other side is told of each new entry is its slot and its key.

Results:
* `Slots.perm`, `Slots.push`, `Slots.replace`: the slots stay `1` to the number of entries.
* `Told.perm`, `Told.push`, `Told.replace`: the other side has the same table.
-/

namespace Recency

open Function

variable {α K : Type} {key : α → K} {slot : α → Nat} {l l' : List α} {a b : α}
  {m : Nat → Option K}

/-- The keys are distinct, and the slots are `1` to the number of entries. -/
structure Slots (key : α → K) (slot : α → Nat) (l : List α) : Prop where
  keys : (l.map key).Nodup
  slots : (l.map slot).Perm (List.range' 1 l.length)

/-- The other side has a key in a slot exactly when an entry says so. -/
def Told (key : α → K) (slot : α → Nat) (l : List α) (m : Nat → Option K) : Prop :=
  ∀ n k, m n = some k ↔ ∃ a ∈ l, slot a = n ∧ key a = k

theorem Slots.nil : Slots key slot [] := ⟨List.nodup_nil, .nil⟩

theorem Told.nil : Told key slot [] fun _ => none := by
  intro n k
  simp

theorem Slots.perm (h : Slots key slot l) (hp : l'.Perm l) : Slots key slot l' := by
  refine ⟨(hp.map key).nodup_iff.mpr h.keys, ?_⟩
  rw [hp.length_eq]
  exact (hp.map slot).trans h.slots

theorem Told.perm (h : Told key slot l m) (hp : l'.Perm l) : Told key slot l' m := by
  intro n k
  rw [h n k]
  simp only [hp.mem_iff]

theorem Slots.range (h : Slots key slot l) (ha : a ∈ l) : 1 ≤ slot a ∧ slot a ≤ l.length := by
  have hmem := h.slots.mem_iff.mp (List.mem_map_of_mem (f := slot) ha)
  rw [List.mem_range'_1] at hmem
  omega

theorem Slots.nodup_slots (h : Slots key slot l) : (l.map slot).Nodup :=
  h.slots.nodup_iff.mpr List.nodup_range'

/-- A new entry in the next slot. -/
theorem Slots.push (h : Slots key slot l) (hk : key a ∉ l.map key) (hs : slot a = l.length + 1) :
    Slots key slot (a :: l) := by
  refine ⟨List.nodup_cons.mpr ⟨hk, h.keys⟩, ?_⟩
  rw [List.map_cons, List.length_cons, List.range'_1_concat, hs, Nat.add_comm]
  exact (h.slots.cons _).trans (List.perm_append_singleton _ _).symm

/-- A new entry in the slot of the last, which goes. -/
theorem Slots.replace (h : Slots key slot (l ++ [b])) (hk : key a ∉ l.map key)
    (hs : slot a = slot b) : Slots key slot (a :: l) := by
  refine ⟨List.nodup_cons.mpr ⟨hk, ?_⟩, ?_⟩
  · have hkeys := h.keys
    rw [List.map_append] at hkeys
    exact hkeys.of_append_left
  · have hslots := h.slots
    rw [List.map_append, List.length_append] at hslots
    rw [List.map_cons, hs]
    exact (List.perm_append_singleton _ _).symm.trans hslots

/-- A new entry in a slot that no entry of `l` has. -/
theorem told_cons (hfree : slot a ∉ l.map slot) (h : ∀ n, n ≠ slot a → ∀ k,
    m n = some k ↔ ∃ x ∈ l, slot x = n ∧ key x = k) :
    Told key slot (a :: l) (update m (slot a) (some (key a))) := by
  intro n k
  by_cases hn : n = slot a
  · subst hn
    rw [update_self]
    constructor
    · intro hk
      exact ⟨a, List.mem_cons_self, rfl, Option.some.inj hk⟩
    · rintro ⟨x, hx, hslot, rfl⟩
      rcases List.mem_cons.mp hx with rfl | hx
      · rfl
      · exact absurd (List.mem_map.mpr ⟨x, hx, hslot⟩) hfree
  · rw [update_of_ne hn, h n hn k]
    constructor
    · rintro ⟨x, hx, hslot⟩
      exact ⟨x, List.mem_cons_of_mem a hx, hslot⟩
    · rintro ⟨x, hx, hslot, hkey⟩
      rcases List.mem_cons.mp hx with rfl | hx
      · exact absurd hslot.symm hn
      · exact ⟨x, hx, hslot, hkey⟩

theorem Told.push (h : Told key slot l m) (hl : Slots key slot l) (hs : slot a = l.length + 1) :
    Told key slot (a :: l) (update m (slot a) (some (key a))) := by
  refine told_cons (fun hmem => ?_) fun n _ k => h n k
  obtain ⟨x, hx, hxa⟩ := List.mem_map.mp hmem
  have := (hl.range hx).2
  omega

theorem Told.replace (h : Told key slot (l ++ [b]) m) (hl : Slots key slot (l ++ [b]))
    (hs : slot a = slot b) :
    Told key slot (a :: l) (update m (slot a) (some (key a))) := by
  have hnodup := hl.nodup_slots
  rw [List.map_append, List.map_singleton, List.nodup_append] at hnodup
  refine told_cons (fun hmem => ?_) fun n hn k => ?_
  · exact hnodup.2.2 _ hmem (slot b) (List.mem_singleton_self _) hs
  · rw [h n k]
    constructor
    · rintro ⟨x, hx, hslot, hkey⟩
      rcases List.mem_append.mp hx with hx | hx
      · exact ⟨x, hx, hslot, hkey⟩
      · rw [List.mem_singleton.mp hx, ← hs] at hslot
        exact absurd hslot.symm hn
    · rintro ⟨x, hx, hslot⟩
      exact ⟨x, List.mem_append_left _ hx, hslot⟩

end Recency
