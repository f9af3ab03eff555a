import Mathlib.Data.List.Basic

/-!
# Fitting a list into bounded pieces

A search for how much of a list may stay, by steps that each take some of it away, and a division of
a list into pieces of bounded size, greedy from the front.

Results:
* `search_eq`: the search is its loop; `search_ok`, `search_le`: what it finds.
* `flatten_pack`, `pack_pieces`: the pieces are the list in order, none is empty, and a piece above
  the bound is a single element.
-/

namespace Fit

/-! ## The search -/

/-- The first of `n`, `next n` and so on that is `ok`, or 0. Each is smaller than the one before, so
`n` rounds are enough. -/
def search.go (next : Nat → Nat) (ok : Nat → Bool) : (rounds n : Nat) → Nat
  | 0, _ => 0
  | rounds + 1, n => if n = 0 then 0 else if ok n then n else go next ok rounds (next n)

def search (next : Nat → Nat) (ok : Nat → Bool) (n : Nat) : Nat := search.go next ok n n

section Search

variable {next : Nat → Nat} {ok : Nat → Bool} (hnext : ∀ n, 0 < n → next n < n)

include hnext

theorem go_enough {r r' n : Nat} (h : n ≤ r) (h' : n ≤ r') :
    search.go next ok r n = search.go next ok r' n := by
  induction r generalizing r' n with
  | zero =>
    obtain rfl : n = 0 := by omega
    cases r' <;> simp [search.go]
  | succ r ih =>
    cases r' with
    | zero =>
      obtain rfl : n = 0 := by omega
      simp [search.go]
    | succ r' =>
      simp only [search.go]
      split_ifs with hn
      · rfl
      · rfl
      · have hlt := hnext n (by omega)
        exact ih (by omega) (by omega)

/-- The search is its loop. -/
theorem search_eq (n : Nat) : search next ok n =
    if n = 0 then 0 else if ok n then n else search next ok (next n) := by
  cases n with
  | zero => rfl
  | succ n =>
    have hlt := hnext (n + 1) (by omega)
    rw [search, search.go, search, go_enough hnext (Nat.le_of_lt_succ hlt) (Nat.le_refl _)]

theorem search_le (n : Nat) : search next ok n ≤ n := by
  induction n using Nat.strongRecOn with
  | ind n ih =>
    rw [search_eq hnext]
    split_ifs with hn
    · exact Nat.zero_le _
    · exact Nat.le_refl n
    · have hlt := hnext n (by omega)
      exact Nat.le_trans (ih _ hlt) (Nat.le_of_lt hlt)

theorem search_ok (n : Nat) : search next ok n = 0 ∨ ok (search next ok n) = true := by
  induction n using Nat.strongRecOn with
  | ind n ih =>
    rw [search_eq hnext]
    split_ifs with hn hok
    · exact .inl rfl
    · exact .inr hok
    · exact ih _ (hnext n (by omega))

end Search

/-! ## The pieces -/

section Pack

variable {α : Type} (size : α → Nat) (ends : α → Bool) (cap base : Nat)

/-- The size of a list. -/
def total : List α → Nat
  | [] => 0
  | a :: as => size a + total as

/-- A piece begins with `base`. The next element goes into it unless it would pass `cap` then or
the element before it ends its piece. -/
def pack.go : (piece : List α) → (prev : α) → (used : Nat) → List α → List (List α)
  | piece, _, _, [] => [piece]
  | piece, prev, used, a :: as =>
    if cap < used + size a ∨ ends prev then piece :: go [a] a (base + size a) as
    else go (piece ++ [a]) a (used + size a) as

def pack : List α → List (List α)
  | [] => []
  | a :: as => pack.go size ends cap base [a] a (base + size a) as

variable {size ends cap base}

theorem total_append (l l' : List α) : total size (l ++ l') = total size l + total size l' := by
  induction l with
  | nil => simp [total]
  | cons a l ih => simp only [List.cons_append, total, ih]; omega

/-- What holds of the pieces: in order they are the list. -/
theorem flatten_go (piece : List α) (prev : α) (used : Nat) (as : List α) :
    (pack.go size ends cap base piece prev used as).flatten = piece ++ as := by
  induction as generalizing piece prev used with
  | nil => simp [pack.go]
  | cons a as ih =>
    simp only [pack.go]
    split_ifs
    · rw [List.flatten_cons, ih, List.singleton_append]
    · rw [ih, List.append_assoc, List.singleton_append]

theorem flatten_pack (l : List α) : (pack size ends cap base l).flatten = l := by
  cases l with
  | nil => rfl
  | cons a as => exact flatten_go [a] a _ as

/-- A piece is not empty, and is within the bound or a single element. -/
theorem go_pieces {piece : List α} {prev : α} {used : Nat} {as : List α} (hne : piece ≠ [])
    (hused : used = base + total size piece) (hcap : used ≤ cap ∨ ∃ a, piece = [a]) :
    ∀ x ∈ pack.go size ends cap base piece prev used as,
      x ≠ [] ∧ (base + total size x ≤ cap ∨ ∃ a, x = [a]) := by
  induction as generalizing piece prev used with
  | nil =>
    intro x hx
    rw [pack.go, List.mem_singleton] at hx
    subst hx
    exact ⟨hne, hused ▸ hcap⟩
  | cons a as ih =>
    intro x hx
    simp only [pack.go] at hx
    split_ifs at hx with hcut
    · rcases List.mem_cons.mp hx with rfl | hx
      · exact ⟨hne, hused ▸ hcap⟩
      · exact ih (List.cons_ne_nil _ _) (by simp [total]) (.inr ⟨a, rfl⟩) x hx
    · have hfit : used + size a ≤ cap := Nat.le_of_not_lt fun h => hcut (.inl h)
      refine ih (by simp) ?_ (.inl hfit) x hx
      rw [total_append, hused]
      simp only [total]
      omega

theorem pack_pieces (l : List α) : ∀ x ∈ pack size ends cap base l,
    x ≠ [] ∧ (base + total size x ≤ cap ∨ ∃ a, x = [a]) := by
  cases l with
  | nil => exact List.forall_mem_nil _
  | cons a as => exact go_pieces (List.cons_ne_nil _ _) (by simp [total]) (.inr ⟨a, rfl⟩)

end Pack

end Fit
