import Mathlib.Data.List.Basic

/-!
# Patterns over a sequence of tokens

A pattern is a sequence of literal tokens and wildcards: `one` stands for one token, `rest`, which
comes last, for all the tokens that are left. `covers least` is matching where `rest` has to stand
for at least `least` of them: with 1 the tokens are those below a node, with 0 the node itself is
among them.

Results:
* `covers_zero_iff`: a pattern with `rest` covers, from 0, what it covers from 1 and what it covers
  without its `rest`.
* `covers_map`: matching does not see how the tokens are spelt.
* `overlap_of_covers`, `covers_of_swallows`, `covers_join_left`, `covers_join_right`: two patterns
  against each other, where `rest` stands for at least one token.
-/

namespace Wildcard

/-- A token of a pattern. -/
inductive Token (τ : Type*)
  | lit (t : τ)
  | one
  | rest
  deriving DecidableEq

variable {τ υ : Type*} {p : Token τ} {ps : List (Token τ)}

def Token.map (f : τ → υ) : Token τ → Token υ
  | .lit t => .lit (f t)
  | .one => .one
  | .rest => .rest

/-- `rest` comes last. -/
def Proper (ps : List (Token τ)) : Prop := ∀ qs rs, ps = qs ++ .rest :: rs → rs = []

theorem Proper.tail (h : Proper (p :: ps)) : Proper ps := by
  intro qs rs heq
  exact h (p :: qs) rs (by rw [heq, List.cons_append])

section Covers

variable [DecidableEq τ] {ps qs : List (Token τ)} {ts : List τ} {least : Nat}

def covers (least : Nat) : List (Token τ) → List τ → Bool
  | [], ts => ts.isEmpty
  | .rest :: ps, ts => ps.isEmpty && decide (least ≤ ts.length)
  | .lit _ :: _, [] => false
  | .lit p :: ps, t :: ts => decide (p = t) && covers least ps ts
  | .one :: _, [] => false
  | .one :: ps, _ :: ts => covers least ps ts

@[simp] theorem covers_nil : covers least ([] : List (Token τ)) ts = ts.isEmpty := by
  rw [covers]

@[simp] theorem covers_rest : covers least (.rest :: ps) ts =
    (ps.isEmpty && decide (least ≤ ts.length)) := by
  rw [covers]

/-- Where `rest` may stand for nothing: it stands for something, or the pattern without it covers
the tokens. -/
theorem covers_zero_iff (h : Proper ps) :
    covers 0 ps ts = true ↔
      covers 1 ps ts = true ∨ ∃ qs, ps = qs ++ [.rest] ∧ covers 1 qs ts = true := by
  induction ps generalizing ts with
  | nil => simp
  | cons p ps ih =>
    have hsub : ∀ {us : List τ} {q : Token τ}, q ≠ .rest →
        ((∃ qs, q :: ps = qs ++ [.rest] ∧ covers 1 qs us = true) ↔
          ∃ qs, ps = qs ++ [.rest] ∧ covers 1 (q :: qs) us = true) := by
      intro us q hq
      constructor
      · rintro ⟨qs, heq, hc⟩
        cases qs with
        | nil => exact absurd (List.cons.inj heq).1 hq
        | cons q' qs =>
          obtain ⟨rfl, rfl⟩ := List.cons.inj heq
          exact ⟨qs, rfl, hc⟩
      · rintro ⟨qs, rfl, hc⟩
        exact ⟨q :: qs, rfl, hc⟩
    cases p with
    | rest =>
      obtain rfl : ps = [] := h [] ps rfl
      have hnil : (∃ qs : List (Token τ), [.rest] = qs ++ [.rest] ∧ covers 1 qs ts = true) ↔
          ts = [] := by
        constructor
        · rintro ⟨qs, heq, hc⟩
          obtain rfl : qs = [] := by simpa using heq
          simpa using hc
        · rintro rfl
          exact ⟨[], rfl, rfl⟩
      rw [hnil]
      cases ts with
      | nil => simp
      | cons t ts => simp
    | lit p =>
      rw [hsub (by simp)]
      cases ts with
      | nil => simp [covers]
      | cons t ts =>
        simp only [covers, Bool.and_eq_true, decide_eq_true_eq, ih h.tail]
        constructor
        · rintro ⟨hp, hc | ⟨qs, rfl, hc⟩⟩
          · exact .inl ⟨hp, hc⟩
          · exact .inr ⟨qs, rfl, hp, hc⟩
        · rintro (⟨hp, hc⟩ | ⟨qs, rfl, hp, hc⟩)
          · exact ⟨hp, .inl hc⟩
          · exact ⟨hp, .inr ⟨qs, rfl, hc⟩⟩
    | one =>
      rw [hsub (by simp)]
      cases ts with
      | nil => simp [covers]
      | cons t ts => simp only [covers, ih h.tail]

end Covers

/-- Matching does not see how the tokens are spelt, if no two of them are spelt alike. -/
theorem covers_map [DecidableEq τ] [DecidableEq υ] {f : τ → υ} {S : τ → Prop}
    (hf : ∀ a b, S a → S b → f a = f b → a = b) {least : Nat} {ts : List τ}
    (hps : ∀ t, .lit t ∈ ps → S t) (hts : ∀ t ∈ ts, S t) :
    covers least (ps.map (Token.map f)) (ts.map f) = covers least ps ts := by
  induction ps generalizing ts with
  | nil => simp
  | cons p ps ih =>
    have hps' : ∀ t, .lit t ∈ ps → S t := fun t ht => hps t (List.mem_cons_of_mem _ ht)
    cases p with
    | rest => simp [Token.map]
    | lit p =>
      cases ts with
      | nil => simp [Token.map, covers]
      | cons t ts =>
        have heq : (f p = f t) ↔ p = t :=
          ⟨hf p t (hps p List.mem_cons_self) (hts t List.mem_cons_self), congrArg f⟩
        simp only [List.map_cons, Token.map, covers, heq,
          ih hps' fun t ht => hts t (List.mem_cons_of_mem _ ht)]
    | one =>
      cases ts with
      | nil => simp [Token.map, covers]
      | cons t ts =>
        simp only [List.map_cons, Token.map, covers,
          ih hps' fun t ht => hts t (List.mem_cons_of_mem _ ht)]

/-! ## Two patterns -/

section Two

variable [DecidableEq τ]

/-- Some tokens are covered by both. -/
def overlap : List (Token τ) → List (Token τ) → Bool
  | [], [] => true
  | [], _ :: _ => false
  | _ :: _, [] => false
  | p :: ps, q :: qs =>
    if p = .rest ∨ q = .rest then true
    else if p ≠ q ∧ p ≠ .one ∧ q ≠ .one then false
    else overlap ps qs

/-- Whatever the second covers is covered by the first. -/
def swallows : List (Token τ) → List (Token τ) → Bool
  | [], qs => qs.isEmpty
  | p :: ps, qs =>
    if p = .rest then !qs.isEmpty
    else
      match qs with
      | [] => false
      | q :: qs =>
        if q = .rest then false
        else if p ≠ .one ∧ p ≠ q then false
        else swallows ps qs

/-- A pattern that covers what either of two covers that overlap. -/
def join : List (Token τ) → List (Token τ) → List (Token τ)
  | p :: ps, q :: qs =>
    if p = .rest ∨ q = .rest then [.rest]
    else (if p = q then p else .one) :: join ps qs
  | [], _ => []
  | _ :: _, [] => []

variable {ps qs : List (Token τ)} {ts : List τ}

omit [DecidableEq τ] in
theorem one_ne_rest : (Token.one : Token τ) ≠ .rest := by
  intro h
  cases h

/-- The first token of what a pattern covers that does not start with `rest`. -/
theorem covers_cons (hp : p ≠ .rest) : covers 1 (p :: ps) ts = true ↔
      ∃ t us, ts = t :: us ∧ (p = .one ∨ p = .lit t) ∧ covers 1 ps us = true := by
  cases p with
  | rest => exact absurd rfl hp
  | lit a | one =>
    cases ts with
    | nil => simp [covers]
    | cons t us => simp [covers]

theorem ne_nil_of_covers (h : covers 1 (p :: ps) ts = true) : ts ≠ [] := by
  by_cases hp : p = .rest
  · subst hp
    rw [covers_rest, Bool.and_eq_true, decide_eq_true_iff] at h
    exact List.ne_nil_of_length_pos h.2
  · obtain ⟨t, us, rfl, -⟩ := (covers_cons hp).mp h
    exact List.cons_ne_nil t us

theorem overlap_of_covers (hp : covers 1 ps ts = true) (hq : covers 1 qs ts = true) :
    overlap ps qs = true := by
  induction ps generalizing qs ts with
  | nil =>
    rw [covers_nil, List.isEmpty_iff] at hp
    subst hp
    cases qs with
    | nil => rfl
    | cons q qs => exact absurd rfl (ne_nil_of_covers hq)
  | cons p ps ih =>
    cases qs with
    | nil =>
      rw [covers_nil, List.isEmpty_iff] at hq
      exact absurd hq (ne_nil_of_covers hp)
    | cons q qs =>
      unfold overlap
      split_ifs with hrest hne
      · rfl
      · rw [not_or] at hrest
        obtain ⟨t, us, rfl, hpt, -⟩ := (covers_cons hrest.1).mp hp
        obtain ⟨t', us', heq, hqt, -⟩ := (covers_cons hrest.2).mp hq
        obtain ⟨rfl, rfl⟩ := List.cons.inj heq
        refine absurd ?_ hne.1
        rw [hpt.resolve_left hne.2.1, hqt.resolve_left hne.2.2]
      · rw [not_or] at hrest
        obtain ⟨t, us, rfl, -, hp'⟩ := (covers_cons hrest.1).mp hp
        obtain ⟨t', us', heq, -, hq'⟩ := (covers_cons hrest.2).mp hq
        obtain ⟨rfl, rfl⟩ := List.cons.inj heq
        exact ih hp' hq'

theorem covers_of_swallows (hproper : Proper ps) (h : swallows ps qs = true)
    (hq : covers 1 qs ts = true) : covers 1 ps ts = true := by
  induction ps generalizing qs ts with
  | nil =>
    unfold swallows at h
    rw [List.isEmpty_iff] at h
    rwa [h] at hq
  | cons p ps ih =>
    unfold swallows at h
    split_ifs at h with hrest
    · subst hrest
      obtain rfl : ps = [] := hproper [] ps rfl
      cases qs with
      | nil => cases h
      | cons q qs =>
        have hne := ne_nil_of_covers hq
        rw [covers_rest, Bool.and_eq_true, decide_eq_true_iff]
        exact ⟨rfl, List.length_pos_iff.mpr hne⟩
    · cases qs with
      | nil => cases h
      | cons q qs =>
        dsimp only at h
        split_ifs at h with hq' hne
        obtain ⟨t, us, rfl, hqt, hus⟩ := (covers_cons hq').mp hq
        refine (covers_cons hrest).mpr ⟨t, us, rfl, ?_, ih hproper.tail h hus⟩
        by_cases hone : p = .one
        · exact .inl hone
        · rw [not_and, not_not] at hne
          obtain rfl := hne hone
          exact .inr (hqt.resolve_left hone)

theorem join_comm : join ps qs = join qs ps := by
  induction ps generalizing qs with
  | nil => cases qs <;> rfl
  | cons p ps ih =>
    cases qs with
    | nil => rfl
    | cons q qs =>
      unfold join
      rw [ih]
      by_cases hrest : p = .rest ∨ q = .rest
      · rw [if_pos hrest, if_pos hrest.symm]
      · have hrest' : ¬ (q = .rest ∨ p = .rest) := fun h => hrest h.symm
        rw [if_neg hrest, if_neg hrest']
        by_cases heq : p = q
        · rw [if_pos heq, if_pos heq.symm, heq]
        · have hne : ¬ q = p := fun h => heq h.symm
          rw [if_neg heq, if_neg hne]

theorem overlap_comm : overlap ps qs = overlap qs ps := by
  induction ps generalizing qs with
  | nil => cases qs <;> rfl
  | cons p ps ih =>
    cases qs with
    | nil => rfl
    | cons q qs =>
      unfold overlap
      rw [ih]
      by_cases hrest : p = .rest ∨ q = .rest
      · rw [if_pos hrest, if_pos hrest.symm]
      · have hrest' : ¬ (q = .rest ∨ p = .rest) := fun h => hrest h.symm
        rw [if_neg hrest, if_neg hrest']
        by_cases hne : p ≠ q ∧ p ≠ .one ∧ q ≠ .one
        · rw [if_pos hne, if_pos ⟨hne.1.symm, hne.2.2, hne.2.1⟩]
        · have hne' : ¬ (q ≠ p ∧ q ≠ .one ∧ p ≠ .one) := fun h => hne ⟨h.1.symm, h.2.2, h.2.1⟩
          rw [if_neg hne, if_neg hne']

theorem proper_join : Proper (join ps qs) := by
  induction ps generalizing qs with
  | nil =>
    intro as bs h
    cases as <;> cases h
  | cons p ps ih =>
    cases qs with
    | nil =>
      intro as bs h
      cases as <;> cases h
    | cons q qs =>
      unfold join
      split_ifs with hrest heq
      · intro as bs h
        cases as with
        | nil => exact (List.cons.inj h).2.symm
        | cons a as =>
          have := (List.cons.inj h).2
          cases as <;> cases this
      · rw [not_or] at hrest
        intro as bs h
        cases as with
        | nil => exact absurd (List.cons.inj h).1 hrest.1
        | cons a as => exact ih as bs (List.cons.inj h).2
      · intro as bs h
        cases as with
        | nil => cases (List.cons.inj h).1
        | cons a as => exact ih as bs (List.cons.inj h).2

theorem covers_join_left (h : overlap ps qs = true) (hp : covers 1 ps ts = true) :
    covers 1 (join ps qs) ts = true := by
  induction ps generalizing qs ts with
  | nil =>
    cases qs with
    | nil => exact hp
    | cons q qs => cases h
  | cons p ps ih =>
    cases qs with
    | nil => cases h
    | cons q qs =>
      unfold overlap at h
      unfold join
      split_ifs at h ⊢ with hrest hne heq
      · rw [covers_rest, Bool.and_eq_true, decide_eq_true_iff]
        exact ⟨rfl, List.length_pos_iff.mpr (ne_nil_of_covers hp)⟩
      · rw [not_or] at hrest
        obtain ⟨t, us, rfl, hpt, hus⟩ := (covers_cons hrest.1).mp hp
        exact (covers_cons hrest.1).mpr ⟨t, us, rfl, hpt, ih h hus⟩
      · rw [not_or] at hrest
        obtain ⟨t, us, rfl, -, hus⟩ := (covers_cons hrest.1).mp hp
        exact (covers_cons one_ne_rest).mpr ⟨t, us, rfl, .inl rfl, ih h hus⟩

theorem covers_join_right (h : overlap ps qs = true) (hq : covers 1 qs ts = true) :
    covers 1 (join ps qs) ts = true := by
  rw [join_comm]
  rw [overlap_comm] at h
  exact covers_join_left h hq

omit [DecidableEq τ] in
/-- Tokens in front that are not `rest`. -/
theorem proper_append (h : .rest ∉ ps) (hq : Proper qs) : Proper (ps ++ qs) := by
  induction ps with
  | nil => exact hq
  | cons p ps ih =>
    intro as bs heq
    cases as with
    | nil =>
      rw [List.cons_append, List.nil_append] at heq
      exact absurd ((List.cons.inj heq).1 ▸ List.mem_cons_self) h
    | cons a as =>
      rw [List.cons_append, List.cons_append] at heq
      exact ih (fun hmem => h (List.mem_cons_of_mem _ hmem)) as bs (List.cons.inj heq).2

/-- Tokens in front that cover the same number of tokens in front. -/
theorem covers_append {us : List τ} (h : List.Forall₂ (fun p t => p = .one ∨ p = .lit t) ps us)
    (hq : covers 1 qs ts = true) : covers 1 (ps ++ qs) (us ++ ts) = true := by
  induction h with
  | nil => exact hq
  | @cons p t ps us hpt _ ih =>
    have hp : p ≠ .rest := by
      rintro rfl
      rcases hpt with hpt | hpt <;> cases hpt
    exact (covers_cons hp).mpr ⟨t, us ++ ts, rfl, hpt, ih⟩

end Two

end Wildcard
