import Mathlib.Data.List.Perm.Basic

/-!
# Sets kept apart

A list of descriptions, each of a set of things, no two of which overlap. A new one is folded in: an
entry that has it all swallows it, it swallows an entry it has all of, and it is joined with an
entry that it crosses, until it overlaps none of those that are left. How overlapping and having all
of another are decided, and what the join of two is, are parameters.

Results:
* `add_eq_some`: the loop ends, with one round for each entry at most and one more.
* `Laws.add`: the entries stay apart, and everything described before is described after.
-/

namespace Apart

variable {α σ : Type} {p : α → Bool} {l rest : List α} {b : α}

/-- The first entry with a property, and the others. -/
def pick (p : α → Bool) : List α → Option (α × List α)
  | [] => none
  | a :: as => if p a then some (a, as) else (pick p as).map fun r => (r.1, a :: r.2)

theorem pick_none (h : pick p l = none) : ∀ a ∈ l, p a = false := by
  induction l with
  | nil => exact List.forall_mem_nil _
  | cons a as ih =>
    unfold pick at h
    split_ifs at h with hp
    exact List.forall_mem_cons.mpr ⟨Bool.eq_false_iff.mpr hp, ih (Option.map_eq_none_iff.mp h)⟩

theorem pick_some (h : pick p l = some (b, rest)) :
    p b = true ∧ l.Perm (b :: rest) ∧ rest.Sublist l := by
  induction l generalizing rest with
  | nil => cases h
  | cons a as ih =>
    unfold pick at h
    split_ifs at h with hp
    · cases h
      exact ⟨hp, .refl _, List.sublist_cons_self _ _⟩
    · obtain ⟨⟨b', rest'⟩, hr, heq⟩ := Option.map_eq_some_iff.mp h
      obtain ⟨rfl, rfl⟩ := Prod.mk.inj heq
      obtain ⟨hb, hperm, hsub⟩ := ih hr
      exact ⟨hb, (hperm.cons a).trans (List.Perm.swap b' a rest'), hsub.cons_cons a⟩

section Add

variable (overlap swallows : α → α → Bool) (join : α → α → α) {Valid : α → Prop}
  {Has : α → σ → Prop} {f : α}

/-- The rounds of the loop, none when they are not enough. -/
def addLoop : Nat → List α → α → Option (List α)
  | 0, _, _ => none
  | n + 1, out, f =>
    match pick (overlap · f) out with
    | none => some (out ++ [f])
    | some (h, rest) =>
      if swallows h f then some out
      else addLoop n rest (if swallows f h then f else join h f)

/-- A round for each entry, and one more. -/
def add (out : List α) (f : α) : Option (List α) :=
  addLoop overlap swallows join (out.length + 1) out f

variable {overlap swallows join} {out : List α} {n : Nat}

/-- The loop ends: each round but the last takes an entry away. -/
theorem addLoop_eq_some (h : out.length < n) (f : α) :
    ∃ out', addLoop overlap swallows join n out f = some out' := by
  induction n generalizing out f with
  | zero => exact absurd h (Nat.not_lt_zero _)
  | succ n ih =>
    unfold addLoop
    split
    · exact ⟨_, rfl⟩
    · rename_i b rest hpick
      obtain ⟨-, hperm, -⟩ := pick_some hpick
      have hlen := hperm.length_eq
      rw [List.length_cons] at hlen
      split_ifs
      · exact ⟨_, rfl⟩
      · exact ih (by omega) _
      · exact ih (by omega) _

theorem add_eq_some (out : List α) (f : α) : ∃ out', add overlap swallows join out f = some out' :=
  addLoop_eq_some (Nat.lt_succ_self _) f

/-- What the parameters have to do with the things described, for the descriptions that `Valid`
allows. -/
structure Laws (overlap swallows : α → α → Bool) (join : α → α → α) (Valid : α → Prop)
    (Has : α → σ → Prop) : Prop where
  meets : ∀ {a b s}, Valid a → Valid b → Has a s → Has b s → overlap a b = true
  takes : ∀ {a b s}, Valid a → Valid b → swallows a b = true → Has b s → Has a s
  valid : ∀ {a b}, Valid a → Valid b → overlap a b = true → Valid (join a b)
  left : ∀ {a b s}, Valid a → Valid b → overlap a b = true → Has a s → Has (join a b) s
  right : ∀ {a b s}, Valid a → Valid b → overlap a b = true → Has b s → Has (join a b) s

/-- Entries that are kept apart. -/
structure Kept (overlap : α → α → Bool) (Valid : α → Prop) (out : List α) : Prop where
  valid : ∀ a ∈ out, Valid a
  apart : out.Pairwise fun a b => overlap a b = false

/-- Something described by an entry. -/
def Described (Has : α → σ → Prop) (out : List α) (s : σ) : Prop := ∃ a ∈ out, Has a s

theorem Laws.disjoint (laws : Laws overlap swallows join Valid Has)
    (h : Kept overlap Valid out) : out.Pairwise fun a b => ∀ s, ¬ (Has a s ∧ Has b s) := by
  refine h.apart.imp_of_mem fun {a b} ha hb hab s hs => ?_
  rw [laws.meets (h.valid a ha) (h.valid b hb) hs.1 hs.2] at hab
  cases hab

theorem described_of_perm (hperm : out.Perm (b :: rest)) {s : σ} :
    Described Has out s ↔ Has b s ∨ Described Has rest s := by
  unfold Described
  simp only [hperm.mem_iff, List.mem_cons, exists_eq_or_imp]

theorem Laws.addLoop (laws : Laws overlap swallows join Valid Has) {out' : List α}
    (hout : Kept overlap Valid out) (hf : Valid f)
    (h : Apart.addLoop overlap swallows join n out f = some out') :
    Kept overlap Valid out' ∧ ∀ s, Described Has out s ∨ Has f s → Described Has out' s := by
  induction n generalizing out f with
  | zero => cases h
  | succ n ih =>
    unfold Apart.addLoop at h
    split at h
    · rename_i hpick
      cases h
      refine ⟨⟨List.forall_mem_append.mpr ⟨hout.valid, List.forall_mem_singleton.mpr hf⟩, ?_⟩, ?_⟩
      · refine List.pairwise_append.mpr
          ⟨hout.apart, List.pairwise_singleton _ _, fun a ha b hb => ?_⟩
        rw [List.mem_singleton.mp hb]
        exact pick_none hpick a ha
      · rintro s (⟨a, ha, hs⟩ | hs)
        · exact ⟨a, List.mem_append_left _ ha, hs⟩
        · exact ⟨f, List.mem_append_right _ (List.mem_singleton_self f), hs⟩
    · rename_i b rest hpick
      obtain ⟨hover, hperm, hsub⟩ := pick_some hpick
      have hb : Valid b := hout.valid b (hperm.mem_iff.mpr List.mem_cons_self)
      have hrest : Kept overlap Valid rest :=
        ⟨fun a ha => hout.valid a (hsub.subset ha), hout.apart.sublist hsub⟩
      split_ifs at h with hbf hfb
      · cases h
        refine ⟨hout, ?_⟩
        rintro s (hs | hs)
        · exact hs
        · exact (described_of_perm hperm).mpr (.inl (laws.takes hb hf hbf hs))
      · obtain ⟨hkept, hdesc⟩ := ih hrest hf h
        refine ⟨hkept, ?_⟩
        rintro s (hs | hs)
        · rcases (described_of_perm hperm).mp hs with hs | hs
          · exact hdesc s (.inr (laws.takes hf hb hfb hs))
          · exact hdesc s (.inl hs)
        · exact hdesc s (.inr hs)
      · obtain ⟨hkept, hdesc⟩ := ih hrest (laws.valid hb hf hover) h
        refine ⟨hkept, ?_⟩
        rintro s (hs | hs)
        · rcases (described_of_perm hperm).mp hs with hs | hs
          · exact hdesc s (.inr (laws.left hb hf hover hs))
          · exact hdesc s (.inl hs)
        · exact hdesc s (.inr (laws.right hb hf hover hs))

/-- **One more.** The entries stay apart, and nothing that was described is lost. -/
theorem Laws.add (laws : Laws overlap swallows join Valid Has)
    (hout : Kept overlap Valid out) (hf : Valid f) :
    ∃ out', Apart.add overlap swallows join out f = some out' ∧ Kept overlap Valid out' ∧
      ∀ s, Described Has out s ∨ Has f s → Described Has out' s := by
  obtain ⟨out', h⟩ : ∃ out', Apart.add overlap swallows join out f = some out' :=
    add_eq_some out f
  exact ⟨out', h, laws.addLoop hout hf h⟩

end Add

end Apart
