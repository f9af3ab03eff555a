import Mathlib.Data.List.Basic

/-!
# A record kept behind a counter

A `source` changes, and a record of it is written from time to time, part by part: a writer loads a
counter, copies the record, reads the parts it writes one after the other (`todo`) and then puts its
copy in the record's place, with the counter's value as the record's `mark`. Only one writer is at
work at a time, but the source may change between two of its reads. Whoever changes the source adds
one to the counter. A writer that finds the mark at the counter's value has nothing to write.

A writer without a `stamp` did not load the counter: it writes some parts and leaves the mark.

* `Fresh i get quiet l`: part `i` of the record, `get` of the source, is up to date whenever the
  mark is, unless `quiet` is false. `quiet` stands for "no change waits for its addition", so that a
  change that is counted afterwards makes it false until then.
* `Seen deps β G l`: whoever loaded the counter at `β` or later wrote a record with `G`, a property
  of the parts `deps`.
* `Kept deps G l`: the record has `G`, and so will the next one.

Results:
* `Fresh.bump`, `Fresh.change`, `Fresh.of_not_covered`, `Fresh.start`, `Fresh.read`, `Fresh.finish`,
  `Fresh.abort`, and most of these for `Seen` and `Kept`: what keeps them.
* `Seen.bump`: a property is seen by everyone who loads the counter after an addition.
* `Seen.kept_of_mark`, `Seen.kept_finish`: a writer that has loaded the counter since leaves the
  property in the record, also when it finds nothing to write.
-/

variable {σ L ι : Type} {V : ι → Type}

/-- A writer at work: the counter's value it loaded, its copy of the record, and the parts it has
still to read. -/
structure Ledger.Writer (L : Type) {ι : Type} (V : ι → Type) where
  stamp : Option (Nat × L)
  draft : ∀ i, V i
  todo : List ι

structure Ledger (σ L : Type) {ι : Type} (V : ι → Type) where
  source : σ
  record : ∀ i, V i
  count : Nat := 0
  mark : Option (Nat × L) := none
  writer : Option (Ledger.Writer L V) := none

namespace Ledger

open Function

/-! ## What is done -/

/-- The counter is added to. -/
def bump (l : Ledger σ L V) : Ledger σ L V := { l with count := l.count + 1 }

def change (l : Ledger σ L V) (s : σ) : Ledger σ L V := { l with source := s }

def start (l : Ledger σ L V) (w : Writer L V) : Ledger σ L V := { l with writer := some w }

/-- The writer puts `v` for part `i`. -/
def read [DecidableEq ι] (l : Ledger σ L V) (w : Writer L V) (i : ι) (v : V i) (todo : List ι) :
    Ledger σ L V :=
  l.start { w with draft := update w.draft i v, todo := todo }

/-- The writer is done. -/
def finish (l : Ledger σ L V) (r : ∀ i, V i) (mark : Option (Nat × L)) : Ledger σ L V :=
  { l with record := r, mark := mark, writer := none }

/-- The writer gives up. -/
def abort (l : Ledger σ L V) : Ledger σ L V := { l with writer := none }

/-! ## The counter -/

/-- Nothing was added since the mark. -/
def Current (l : Ledger σ L V) : Prop := ∃ x, l.mark = some (l.count, x)

/-- Part `i` is taken to be up to date: in the record, or by the writer. -/
def Covered (l : Ledger σ L V) (i : ι) : Prop :=
  l.Current ∨ ∃ w ∈ l.writer, (∃ x, w.stamp = some (l.count, x)) ∧ i ∉ w.todo

/-- Whether a counter's value with something beside it is `n` can be looked up. -/
instance (m : Option (Nat × L)) (n : Nat) : Decidable (∃ x, m = some (n, x)) :=
  decidable_of_iff (m.map Prod.fst = some n) (by simp)

instance (l : Ledger σ L V) : Decidable l.Current :=
  inferInstanceAs (Decidable (∃ x, l.mark = some (l.count, x)))

instance [DecidableEq ι] (l : Ledger σ L V) (i : ι) : Decidable (l.Covered i) :=
  inferInstanceAs (Decidable (l.Current ∨
    ∃ w ∈ l.writer, (∃ x, w.stamp = some (l.count, x)) ∧ i ∉ w.todo))

/-- Nobody is ahead of the counter. -/
structure Counted (l : Ledger σ L V) : Prop where
  mark : ∀ n x, l.mark = some (n, x) → n ≤ l.count
  stamp : ∀ w n x, l.writer = some w → w.stamp = some (n, x) → n ≤ l.count

variable {l : Ledger σ L V} {w : Writer L V} {s : σ} {deps : List ι} {β : Nat}
  {G G' : (∀ i, V i) → Prop}

namespace Counted

theorem of_none (hm : l.mark = none) (hw : l.writer = none) : Counted l where
  mark n x h := absurd (hm.symm.trans h).symm (Option.some_ne_none (n, x))
  stamp w _ _ h := absurd (hw.symm.trans h).symm (Option.some_ne_none w)

theorem bump (h : Counted l) : Counted l.bump where
  mark n x hn := Nat.le_succ_of_le (h.mark n x hn)
  stamp w n x hw hn := Nat.le_succ_of_le (h.stamp w n x hw hn)

theorem change (h : Counted l) : Counted (l.change s) := ⟨h.mark, h.stamp⟩

theorem start (h : Counted l) (hw : ∀ n x, w.stamp = some (n, x) → n ≤ l.count) :
    Counted (l.start w) where
  mark := h.mark
  stamp := by
    intro w' n x hw' hn
    cases hw'
    exact hw n x hn

theorem read [DecidableEq ι] (h : Counted l) (hw : l.writer = some w) (i : ι) (v : V i)
    (todo : List ι) : Counted (l.read w i v todo) :=
  h.start fun n x hn => h.stamp w n x hw hn

theorem finish {r : ∀ i, V i} {m : Option (Nat × L)}
    (hm : ∀ n x, m = some (n, x) → n ≤ l.count) : Counted (l.finish r m) where
  mark := hm
  stamp _ _ _ hw := nomatch hw

theorem abort (h : Counted l) : Counted l.abort where
  mark := h.mark
  stamp _ _ _ hw := nomatch hw

theorem not_current_bump (h : Counted l) : ¬ l.bump.Current := by
  rintro ⟨x, hx⟩
  have := h.mark _ x hx
  simp only [Ledger.bump] at this
  omega

end Counted

/-! ## A part that is up to date -/

structure Fresh (i : ι) (get : σ → V i) (quiet : Prop) (l : Ledger σ L V) : Prop where
  record : quiet → l.Current → l.record i = get l.source
  draft : quiet → ∀ w x, l.writer = some w → w.stamp = some (l.count, x) → i ∉ w.todo →
    w.draft i = get l.source
  /-- The writer that leaves the mark keeps or reads the part. -/
  copy : quiet → ∀ w, l.writer = some w → w.stamp = none → l.Current → w.draft i = get l.source

namespace Fresh

variable {i : ι} {get : σ → V i} {q q' : Prop} {r : ∀ i, V i}

theorem mono (h : Fresh i get q l) (hq : q' → q) : Fresh i get q' l where
  record hq' := h.record (hq hq')
  draft hq' := h.draft (hq hq')
  copy hq' := h.copy (hq hq')

theorem of_not (hq : ¬ q) : Fresh i get q l where
  record hq' := absurd hq' hq
  draft hq' := absurd hq' hq
  copy hq' := absurd hq' hq

/-- Where nobody takes the part to be up to date, it may change. -/
theorem of_not_covered (hc : ¬ l.Covered i) : Fresh i get q l where
  record _ h := absurd (.inl h) hc
  draft _ w x hw hx hi := absurd (.inr ⟨w, hw, ⟨x, hx⟩, hi⟩) hc
  copy _ _ _ _ h := absurd (.inl h) hc

/-- An addition: nobody takes any part to be up to date. -/
theorem bump (hc : Counted l) : Fresh i get q l.bump where
  record _ h := absurd h hc.not_current_bump
  draft _ w x hw hx _ := by
    have := hc.stamp w _ x hw hx
    simp only [Ledger.bump] at this
    omega
  copy _ _ _ _ h := absurd h hc.not_current_bump

theorem change (h : Fresh i get q l) (hs : get s = get l.source) : Fresh i get q (l.change s) where
  record hq hc := (h.record hq hc).trans hs.symm
  draft hq w x hw hx hi := (h.draft hq w x hw hx hi).trans hs.symm
  copy hq w hw hx hc := (h.copy hq w hw hx hc).trans hs.symm

theorem start (h : Fresh i get q l)
    (hstamp : q → ∀ n x, w.stamp = some (n, x) → i ∉ w.todo → w.draft i = get l.source)
    (hcopy : w.stamp = none → w.draft i = l.record i ∨ w.draft i = get l.source) :
    Fresh i get q (l.start w) where
  record := h.record
  draft := by
    intro hq w' x hw' hx hi
    cases hw'
    exact hstamp hq _ x hx hi
  copy := by
    intro hq w' hw' hx hc
    cases hw'
    exact (hcopy hx).elim (fun hr => hr.trans (h.record hq hc)) id

/-- The next part is read, and the others are as they were. -/
theorem read [DecidableEq ι] (h : Fresh i get q l) (hw : l.writer = some w) {j : ι} {v : V j}
    {todo : List ι} (htodo : ∀ k, k ∉ todo → k = j ∨ k ∉ w.todo)
    (hv : ∀ hj : j = i, hj ▸ v = get l.source) : Fresh i get q (l.read w j v todo) := by
  have hdraft : (j = i ∧ update w.draft j v i = get l.source) ∨
      (j ≠ i ∧ update w.draft j v i = w.draft i) := by
    by_cases hj : j = i
    · subst hj
      exact .inl ⟨rfl, (update_self j v w.draft).trans (hv rfl)⟩
    · exact .inr ⟨hj, update_of_ne (Ne.symm hj) v w.draft⟩
  constructor
  · exact h.record
  · intro hq w' x hw' hx hi
    cases hw'
    rcases hdraft with ⟨-, hd⟩ | ⟨hj, hd⟩
    · exact hd
    · have hi' : i ∉ w.todo := (htodo i hi).resolve_left fun he => hj he.symm
      exact hd.trans (h.draft hq w x hw hx hi')
  · intro hq w' hw' hx hc
    cases hw'
    rcases hdraft with ⟨-, hd⟩ | ⟨-, hd⟩
    · exact hd
    · exact hd.trans (h.copy hq w hw hx hc)

/-- The writer's copy of the part goes into the record, with the writer's stamp, or with the mark
as it was. -/
theorem finish (h : Fresh i get q l) (hw : l.writer = some w) (hi : i ∉ w.todo)
    (hr : r i = w.draft i) {m : Option (Nat × L)}
    (hm : m = none ∨ m = w.stamp ∨ w.stamp = none ∧ m = l.mark) : Fresh i get q (l.finish r m) where
  record := by
    rintro hq ⟨x, hx⟩
    have hx : m = some (l.count, x) := hx
    rcases hm with hm | hm | ⟨hn, hm⟩
    · rw [hx] at hm
      exact nomatch hm
    · exact hr.trans (h.draft hq w x hw (hm.symm.trans hx) hi)
    · exact hr.trans (h.copy hq w hw hn ⟨x, hm.symm.trans hx⟩)
  draft _ _ _ hw' := nomatch hw'
  copy _ _ hw' := nomatch hw'

/-- A record that is not marked may be anything. -/
theorem finish_unmarked : Fresh i get q (l.finish r none) where
  record := by
    rintro _ ⟨x, hx⟩
    exact nomatch hx
  draft _ _ _ hw' := nomatch hw'
  copy _ _ hw' := nomatch hw'

theorem abort (h : Fresh i get q l) : Fresh i get q l.abort where
  record := h.record
  draft _ _ _ hw' := nomatch hw'
  copy _ _ hw' := nomatch hw'

end Fresh

/-! ## A property that everyone sees from some moment on -/

structure Seen (deps : List ι) (β : Nat) (G : (∀ i, V i) → Prop) (l : Ledger σ L V) : Prop where
  record : ∀ n x, l.mark = some (n, x) → β ≤ n → G l.record
  draft : ∀ w n x, l.writer = some w → w.stamp = some (n, x) → β ≤ n →
    (∀ i ∈ deps, i ∉ w.todo) → G w.draft
  copy : ∀ w n x, l.writer = some w → w.stamp = none → l.mark = some (n, x) → β ≤ n → G w.draft

structure Kept (deps : List ι) (G : (∀ i, V i) → Prop) (l : Ledger σ L V) : Prop where
  record : G l.record
  draft : ∀ w, l.writer = some w → (∀ i ∈ deps, i ∉ w.todo) → G w.draft

namespace Seen

theorem imp (h : Seen deps β G l) (hG : ∀ r, G r → G' r) : Seen deps β G' l where
  record n x hm hn := hG _ (h.record n x hm hn)
  draft w n x hw hx hn hd := hG _ (h.draft w n x hw hx hn hd)
  copy w n x hw hx hm hn := hG _ (h.copy w n x hw hx hm hn)

/-- Nobody has loaded the counter since the addition, and whoever does will see. -/
theorem bump (hc : Counted l) : Seen deps (l.count + 1) G l.bump where
  record n x hm hn := absurd (hc.mark n x hm) (by omega)
  draft w n x hw hx hn _ := absurd (hc.stamp w n x hw hx) (by omega)
  copy _ n x _ _ hm hn := absurd (hc.mark n x hm) (by omega)

theorem bump_of_seen (h : Seen deps β G l) : Seen deps β G l.bump := { h with }

theorem change (h : Seen deps β G l) : Seen deps β G (l.change s) := { h with }

/-- A writer with a stamp has its reads to do, one without copies the record. -/
theorem start (h : Seen deps β G l) (hstamp : w.stamp ≠ none → ∃ i ∈ deps, i ∈ w.todo)
    (hcopy : w.stamp = none → G l.record → G w.draft) : Seen deps β G (l.start w) where
  record := h.record
  draft := by
    intro w' n x hw' hx _ hd
    cases hw'
    obtain ⟨i, hi, ht⟩ := hstamp (by rw [hx]; exact Option.some_ne_none _)
    exact absurd ht (hd i hi)
  copy := by
    intro w' n x hw' hx hm hn
    cases hw'
    exact hcopy hx (h.record n x hm hn)

theorem read [DecidableEq ι] (h : Seen deps β G l) (hw : l.writer = some w) {j : ι} {v : V j}
    {todo : List ι} (htodo : ∀ k, k ∉ todo → k = j ∨ k ∉ w.todo)
    (hv : j ∈ deps → G (update w.draft j v))
    (hG : j ∉ deps → G w.draft → G (update w.draft j v)) :
    Seen deps β G (l.read w j v todo) where
  record := h.record
  draft := by
    intro w' n x hw' hx hn hd
    cases hw'
    by_cases hj : j ∈ deps
    · exact hv hj
    · refine hG hj (h.draft w n x hw hx hn fun i hi => ?_)
      exact (htodo i (hd i hi)).resolve_left fun he => hj (he ▸ hi)
  copy := by
    intro w' n x hw' hx hm hn
    cases hw'
    by_cases hj : j ∈ deps
    · exact hv hj
    · exact hG hj (h.copy w n x hw hx hm hn)

variable {r : ∀ i, V i} {m : Option (Nat × L)} {n : Nat} {x : L}

/-- The record that a writer leaves, marked with its stamp or with the mark as it was. -/
theorem finish (h : Seen deps β G l) (hw : l.writer = some w) (hd : ∀ i ∈ deps, i ∉ w.todo)
    (hr : G w.draft → G r)
    (hm : m = none ∨ m = w.stamp ∨ w.stamp = none ∧ m = l.mark) : Seen deps β G (l.finish r m) where
  record := by
    intro n x hx hn
    have hx : m = some (n, x) := hx
    rcases hm with hm | hm | ⟨hs, hm⟩
    · rw [hx] at hm
      exact nomatch hm
    · exact hr (h.draft w n x hw (hm.symm.trans hx) hn hd)
    · exact hr (h.copy w n x hw hs (hm.symm.trans hx) hn)
  draft _ _ _ hw' := nomatch hw'
  copy _ _ _ hw' := nomatch hw'

/-- A writer that finds nothing to write leaves a record that has the property. -/
theorem kept_of_mark (h : Seen deps β G l) (hm : l.mark = some (n, x))
    (hn : β ≤ n) (hw : l.writer = none) : Kept deps G l where
  record := h.record n x hm hn
  draft w hw' _ := by
    rw [hw] at hw'
    exact nomatch hw'

theorem kept_finish (h : Seen deps β G l) (hw : l.writer = some w)
    (hs : w.stamp = some (n, x)) (hn : β ≤ n) (hd : ∀ i ∈ deps, i ∉ w.todo)
    (hr : G w.draft → G r) : Kept deps G (l.finish r m) where
  record := hr (h.draft w n x hw hs hn hd)
  draft _ hw' := nomatch hw'

end Seen

namespace Kept

theorem imp (h : Kept deps G l) (hG : ∀ r, G r → G' r) : Kept deps G' l where
  record := hG _ h.record
  draft w hw hd := hG _ (h.draft w hw hd)

theorem bump (h : Kept deps G l) : Kept deps G l.bump := ⟨h.record, h.draft⟩

theorem change (h : Kept deps G l) : Kept deps G (l.change s) := ⟨h.record, h.draft⟩

theorem start (h : Kept deps G l)
    (hw : (∀ i ∈ deps, i ∉ w.todo) → G l.record → G w.draft) : Kept deps G (l.start w) where
  record := h.record
  draft := by
    intro w' hw' hd
    cases hw'
    exact hw hd h.record

theorem read [DecidableEq ι] (h : Kept deps G l) (hw : l.writer = some w) {j : ι} {v : V j}
    {todo : List ι} (htodo : ∀ k, k ∉ todo → k = j ∨ k ∉ w.todo)
    (hv : j ∈ deps → G (update w.draft j v))
    (hG : j ∉ deps → G w.draft → G (update w.draft j v)) :
    Kept deps G (l.read w j v todo) where
  record := h.record
  draft := by
    intro w' hw' hd
    cases hw'
    by_cases hj : j ∈ deps
    · exact hv hj
    · refine hG hj (h.draft w hw fun i hi => ?_)
      exact (htodo i (hd i hi)).resolve_left fun he => hj (he ▸ hi)

theorem finish (h : Kept deps G l) (hw : l.writer = some w) (hd : ∀ i ∈ deps, i ∉ w.todo)
    {r : ∀ i, V i} (hr : G w.draft → G r) {m : Option (Nat × L)} :
    Kept deps G (l.finish r m) where
  record := hr (h.draft w hw hd)
  draft _ hw' := nomatch hw'

end Kept

end Ledger
