import Mathlib.Data.List.Basic

/-!
# Lists with a key

A map kept as a list of its values in the order they were put, each with its key inside. Looking a
key up, erasing it, putting a value and changing one in place, and what a lookup finds after each.
-/

namespace Keyed

variable {α K : Type} [DecidableEq K] (key : α → K) {l : List α} {k j : K} {a : α}

def find (l : List α) (k : K) : Option α := l.find? fun a => key a = k

def erase (l : List α) (k : K) : List α := l.filter fun a => key a ≠ k

/-- The value goes to the end, and replaces one with its key. -/
def put (l : List α) (a : α) : List α := erase key l (key a) ++ [a]

def modify (f : α → α) (l : List α) (k : K) : List α :=
  l.map fun a => if key a = k then f a else a

theorem key_of_find (h : find key l k = some a) : key a = k := by
  simpa using List.find?_some h

theorem mem_of_find (h : find key l k = some a) : a ∈ l := List.mem_of_find?_eq_some h

theorem mem_erase : a ∈ erase key l k ↔ a ∈ l ∧ key a ≠ k := by
  simp [erase]

@[simp] theorem find_erase_self : find key (erase key l k) k = none := by
  unfold find erase
  rw [List.find?_eq_none]
  intro x hx
  simpa using (List.mem_filter.mp hx).2

@[simp] theorem find_erase_of_ne (h : j ≠ k) : find key (erase key l k) j = find key l j := by
  unfold find erase
  rw [List.find?_filter]
  congr 1
  funext x
  by_cases hx : key x = j
  · simp [hx, h]
  · simp [hx]

@[simp] theorem find_put_self : find key (put key l a) (key a) = some a := by
  have h : find key (erase key l (key a)) (key a) = none := find_erase_self key
  unfold put
  unfold find at h ⊢
  rw [List.find?_append, h]
  simp

@[simp] theorem find_put_of_ne (h : j ≠ key a) : find key (put key l a) j = find key l j := by
  have hj := find_erase_of_ne key (l := l) h
  unfold put
  unfold find at hj ⊢
  rw [List.find?_append, hj]
  simp [h.symm]

theorem mem_put {x : α} : x ∈ put key l a ↔ (x ∈ l ∧ key x ≠ key a) ∨ x = a := by
  simp [put, mem_erase]

theorem keys_erase : ((erase key l k).map key).Sublist (l.map key) :=
  List.filter_sublist.map key

theorem nodup_put (h : (l.map key).Nodup) : ((put key l a).map key).Nodup := by
  unfold put
  rw [List.map_append, List.nodup_append]
  refine ⟨h.sublist (keys_erase key), by simp, fun k hk j hj hkj => ?_⟩
  obtain ⟨x, hx, rfl⟩ := List.mem_map.mp hk
  obtain rfl := List.mem_singleton.mp hj
  exact ((mem_erase key).mp hx).2 hkj

variable {f : α → α} (hf : ∀ a, key (f a) = key a)

include hf

theorem keys_modify : (modify key f l k).map key = l.map key := by
  unfold modify
  rw [List.map_map]
  refine List.map_congr_left fun a _ => ?_
  simp only [Function.comp_apply]
  split
  · exact hf a
  · rfl

/-- A change of every value that leaves the keys alone. -/
theorem find_map : find key (l.map f) k = (find key l k).map f := by
  unfold find
  rw [List.find?_map]
  congr 2
  funext x
  simp [hf]

theorem find_modify_self : find key (modify key f l k) k = (find key l k).map f := by
  unfold modify
  rw [find_map key]
  · cases h : find key l k with
    | none => rfl
    | some a => simp [key_of_find key h]
  · intro a
    split
    · exact hf a
    · rfl

theorem find_modify_of_ne (h : j ≠ k) : find key (modify key f l k) j = find key l j := by
  unfold modify
  rw [find_map key]
  · cases hj : find key l j with
    | none => rfl
    | some a => simp [key_of_find key hj, h]
  · intro a
    split
    · exact hf a
    · rfl

end Keyed
