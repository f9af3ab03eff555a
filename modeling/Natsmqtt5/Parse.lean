import Mathlib.Data.List.Basic

/-!
# Parsers over a list of symbols

A parser takes symbols from the front of its input, or fails. Two judgements say what it does, and
each has one rule for each way parsers are put together.

* `Reads p bs a`: on `bs`, whatever follows, `p` takes exactly `bs` and returns `a`. `ReadsAll p bs
  a` is the same where nothing follows, for parsers that look for the end of the input.
* `Takes p Q`: whenever `p` succeeds, `Q` holds of what it returned and the symbols it took.

Results:
* `Reads.bind`, `Reads.bindAll`, `Takes.bind`: one parser after another.
* `whileMore_readsAll`, `whileMore_takes`: a loop that runs while there is input, by an invariant.
* `whileMore_end`: such a loop ends at the end of the input when every round takes something.
* `within_reads`, `within_takes`: a parser confined to a stretch of known length.
-/

/-- A parser over symbols of type `β` that fails with an `ε`. -/
abbrev Parse (β ε : Type) : Type → Type := StateT (List β) (Except ε)

namespace Parse

variable {β ε α γ σ ι : Type} {p : Parse β ε α} {a : α} {bs cs : List β} {b : γ}
  {f : α → Parse β ε γ} {step : σ → Parse β ε σ} {enc : ι → List β} {Q : α → List β → Prop}

/-- `p` reads `bs` as `a`, whatever follows it. -/
def Reads (p : Parse β ε α) (bs : List β) (a : α) : Prop :=
  ∀ rest, p.run (bs ++ rest) = .ok (a, rest)

/-- `p` reads `bs` as `a` when nothing follows it. -/
def ReadsAll (p : Parse β ε α) (bs : List β) (a : α) : Prop :=
  p.run bs = .ok (a, [])

/-- What `p` returns, with the symbols it takes for it, satisfies `Q`. -/
def Takes (p : Parse β ε α) (Q : α → List β → Prop) : Prop :=
  ∀ bs a rest, p.run bs = .ok (a, rest) → ∃ cs, bs = cs ++ rest ∧ Q a cs

/-! ## Parsers -/

/-- Fails with `e` when `c` holds. -/
def check (c : Bool) (e : ε) : Parse β ε Unit :=
  if c then throw e else pure ()

/-- One symbol. -/
def one (short : ε) : Parse β ε β := fun bs =>
  match bs with
  | [] => .error short
  | b :: rest => .ok (b, rest)

/-- The next `n` symbols. `short` is told how many there are when they are fewer. -/
def takeN (n : Nat) (short : Nat → ε) : Parse β ε (List β) := fun bs =>
  if bs.length < n then .error (short bs.length) else .ok (bs.take n, bs.drop n)

/-- Everything that is left. -/
def takeRest : Parse β ε (List β) := fun bs => .ok (bs, [])

/-- Whether nothing is left. -/
def atEnd : Parse β ε Bool := fun bs => .ok (bs.isEmpty, bs)

/-- Fails when something is left. -/
def finish (e : Nat → ε) : Parse β ε Unit := fun bs =>
  if bs.isEmpty then .ok ((), bs) else .error (e bs.length)

/-- `p` where `c` holds, and `d` without reading where it does not. -/
def onlyIf (c : Bool) (d : α) (p : Parse β ε α) : Parse β ε α := if c then p else pure d

/-- Runs `p` on the next `n` symbols alone. -/
def within (n : Nat) (short : Nat → ε) (p : Parse β ε α) : Parse β ε α := fun bs =>
  if bs.length < n then .error (short bs.length)
  else match p.run (bs.take n) with
    | .error e => .error e
    | .ok (a, _) => .ok (a, bs.drop n)

/-- At most `n` rounds of `step`, while there is input. -/
def rounds (step : σ → Parse β ε σ) : Nat → σ → Parse β ε σ
  | 0, s => pure s
  | n + 1, s => do
    if (← atEnd) then pure s
    else do
      let s' ← step s
      rounds step n s'

/-- Rounds of `step` while there is input. A round that succeeds takes a symbol, so that there are
never more of them than symbols. -/
def whileMore (step : σ → Parse β ε σ) (s : σ) : Parse β ε σ := fun bs =>
  (rounds step bs.length s).run bs

/-! ## Reading what was written -/

theorem Reads.all (h : Reads p bs a) : ReadsAll p bs a := by
  have hr := h []
  rwa [List.append_nil] at hr

theorem reads_pure (a : α) : Reads (pure a : Parse β ε α) [] a := fun _ => rfl

theorem readsAll_pure (a : α) : ReadsAll (pure a : Parse β ε α) [] a := rfl

theorem Reads.bind (hp : Reads p bs a) (hf : Reads (f a) cs b) : Reads (p >>= f) (bs ++ cs) b := by
  intro rest
  rw [StateT.run_bind, List.append_assoc, hp]
  exact hf rest

theorem Reads.bindAll
    (hp : Reads p bs a) (hf : ReadsAll (f a) cs b) : ReadsAll (p >>= f) (bs ++ cs) b := by
  rw [ReadsAll, StateT.run_bind, hp]
  exact hf

/-- A parser that takes nothing stands before the rest. -/
theorem Reads.skip (hp : Reads p [] a) (hf : Reads (f a) cs b) : Reads (p >>= f) cs b := by
  have h := hp.bind hf
  rwa [List.nil_append] at h

theorem Reads.skipAll (hp : Reads p [] a) (hf : ReadsAll (f a) cs b) : ReadsAll (p >>= f) cs b := by
  have h := hp.bindAll hf
  rwa [List.nil_append] at h

/-- The last parser of a sequence takes what is left of the input. -/
theorem Reads.bindPure (hp : Reads p bs a) (hf : Reads (f a) [] b) : Reads (p >>= f) bs b := by
  have h := hp.bind hf
  rwa [List.append_nil] at h

theorem Reads.bindEnd (hp : Reads p bs a) (hf : ReadsAll (f a) [] b) : ReadsAll (p >>= f) bs b := by
  have h := hp.bindAll hf
  rwa [List.append_nil] at h

theorem Reads.map (f : α → γ) (h : Reads p bs a) : Reads (f <$> p) bs (f a) := by
  intro rest
  rw [StateT.run_map, h]
  rfl

theorem ReadsAll.map (f : α → γ) (h : ReadsAll p bs a) : ReadsAll (f <$> p) bs (f a) := by
  rw [ReadsAll, StateT.run_map, h]
  rfl

theorem ReadsAll.bindEnd
    (hp : ReadsAll p bs a) (hf : ReadsAll (f a) [] b) : ReadsAll (p >>= f) bs b := by
  rw [ReadsAll, StateT.run_bind, hp]
  exact hf

theorem reads_check (e : ε) (h : c = false) : Reads (check c e : Parse β ε Unit) [] () := by
  subst h
  exact fun _ => rfl

theorem reads_lift {x : Except ε α} (h : x = .ok a) : Reads (liftM x : Parse β ε α) [] a := by
  subst h
  exact fun _ => rfl

theorem reads_one (short : ε) (b : β) : Reads (one short) [b] b := fun _ => rfl

theorem reads_takeN (bs : List β) (short : Nat → ε) : Reads (takeN bs.length short) bs bs := by
  intro rest
  simp [takeN, StateT.run]

/-- Nothing is left at the end of the input. -/
theorem readsAll_finish {e : Nat → ε} {f : Unit → Parse β ε γ} (h : ReadsAll (f ()) [] b) :
    ReadsAll (finish e >>= f) [] b := h

/-- At the end of the input `atEnd` says so. -/
theorem readsAll_atEnd_nil {f : Bool → Parse β ε γ} (h : ReadsAll (f true) [] b) :
    ReadsAll (atEnd >>= f) [] b := h

/-- Before the end of the input `atEnd` takes nothing and says it is not there. -/
theorem readsAll_atEnd_cons {f : Bool → Parse β ε γ} (hb : bs ≠ [])
    (h : ReadsAll (f false) bs b) : ReadsAll (atEnd >>= f) bs b := by
  cases bs with
  | nil => exact absurd rfl hb
  | cons x xs => exact h

theorem within_reads (short : Nat → ε)
    (h : ReadsAll p bs a) : Reads (within bs.length short p) bs a := by
  intro rest
  have hr : p.run ((bs ++ rest).take bs.length) = .ok (a, []) := by
    rw [List.take_left]
    exact h
  have hl : ¬ (bs ++ rest).length < bs.length := by
    rw [List.length_append]
    omega
  simp only [within, StateT.run] at hr ⊢
  rw [if_neg hl, hr, List.drop_left]

/-- A loop reads a sequence of items, one in a round. `I s is` says that `is` may still
come in `s`. -/
theorem rounds_readsAll {app : σ → ι → σ} (I : σ → List ι → Prop)
    (hI : ∀ s i is, I s (i :: is) → enc i ≠ [] ∧ Reads (step s) (enc i) (app s i) ∧ I (app s i) is)
    (is : List ι) : ∀ (n : Nat) (s : σ), I s is → is.length ≤ n →
      ReadsAll (rounds step n s) (is.flatMap enc) (is.foldl app s) := by
  induction is with
  | nil =>
    intro n s _ _
    cases n with
    | zero => rfl
    | succ n => rfl
  | cons i is ih =>
    intro n s hs hn
    obtain ⟨hne, hr, hs'⟩ := hI s i is hs
    cases n with
    | zero => exact absurd hn (by simp)
    | succ n =>
      have hrest := ih n (app s i) hs' (by simpa using hn)
      have hne' : enc i ++ is.flatMap enc ≠ [] := by simp [hne]
      exact readsAll_atEnd_cons hne' (hr.bindAll hrest)

theorem length_le_flatMap (is : List ι) (h : ∀ i ∈ is, enc i ≠ []) :
    is.length ≤ (is.flatMap enc).length := by
  induction is with
  | nil => simp
  | cons i is ih =>
    have hi : 0 < (enc i).length := List.length_pos_iff.2 (h i (by simp))
    have hrest := ih fun j hj => h j (List.mem_cons_of_mem i hj)
    rw [List.flatMap_cons, List.length_append, List.length_cons]
    omega

theorem whileMore_readsAll {app : σ → ι → σ} (I : σ → List ι → Prop)
    (hI : ∀ s i is, I s (i :: is) → enc i ≠ [] ∧ Reads (step s) (enc i) (app s i) ∧ I (app s i) is)
    {is : List ι} {s : σ} (hs : I s is) (hne : ∀ i ∈ is, enc i ≠ []) :
    ReadsAll (whileMore step s) (is.flatMap enc) (is.foldl app s) :=
  rounds_readsAll I hI is _ s hs (length_le_flatMap is hne)

/-! ## What was read -/

theorem Takes.mono {R : α → List β → Prop} (h : Takes p Q)
    (hq : ∀ a cs, Q a cs → R a cs) : Takes p R := by
  intro bs a rest hr
  obtain ⟨cs, hcs, hQ⟩ := h bs a rest hr
  exact ⟨cs, hcs, hq a cs hQ⟩

theorem takes_pure (h : Q a []) : Takes (pure a : Parse β ε α) Q := by
  intro bs b rest hr
  cases hr
  exact ⟨[], rfl, h⟩

theorem Takes.bind {R : γ → List β → Prop} (hp : Takes p Q)
    (hf : ∀ a cs, Q a cs → Takes (f a) fun b ds => R b (cs ++ ds)) : Takes (p >>= f) R := by
  intro bs b rest hr
  rw [StateT.run_bind] at hr
  cases hm : p.run bs with
  | error e =>
    rw [hm] at hr
    cases hr
  | ok am =>
    rw [hm] at hr
    obtain ⟨cs, hcs, hQ⟩ := hp bs am.1 am.2 hm
    obtain ⟨ds, hds, hR⟩ := hf am.1 cs hQ am.2 b rest hr
    exact ⟨cs ++ ds, by rw [hcs, hds, List.append_assoc], hR⟩

theorem Takes.map {f : α → γ} {Q : γ → List β → Prop}
    (h : Takes p fun a cs => Q (f a) cs) : Takes (f <$> p) Q := by
  intro bs b rest hr
  rw [StateT.run_map] at hr
  cases hm : p.run bs with
  | error e =>
    rw [hm] at hr
    cases hr
  | ok am =>
    rw [hm] at hr
    cases hr
    exact h bs am.1 am.2 hm

theorem takes_onlyIf {c : Bool} {d : α}
    (hp : c = true → Takes p Q) (hd : c = false → Q d []) : Takes (onlyIf c d p) Q := by
  cases c with
  | true => exact hp rfl
  | false => exact takes_pure (hd rfl)

theorem Takes.ite {c : Prop} [Decidable c] {q : Parse β ε α}
    (hp : c → Takes p Q) (hq : ¬ c → Takes q Q) : Takes (if c then p else q) Q := by
  split
  · exact hp ‹_›
  · exact hq ‹_›

theorem takes_throw {e : ε} : Takes (throw e : Parse β ε α) Q := by
  intro bs a rest hr
  cases hr

theorem takes_check {e : ε} :
    Takes (check c e : Parse β ε Unit) fun _ cs => cs = [] ∧ c = false := by
  intro bs a rest hr
  cases c with
  | true => cases hr
  | false =>
    cases hr
    exact ⟨[], rfl, rfl, rfl⟩

theorem takes_lift {x : Except ε α} :
    Takes (liftM x : Parse β ε α) fun a cs => cs = [] ∧ x = .ok a := by
  intro bs a rest hr
  cases x with
  | error e => cases hr
  | ok b =>
    cases hr
    exact ⟨[], rfl, rfl, rfl⟩

theorem takes_one {short : ε} : Takes (one short : Parse β ε β) fun b cs => cs = [b] := by
  intro bs a rest hr
  cases bs with
  | nil => cases hr
  | cons b bs =>
    cases hr
    exact ⟨[a], rfl, rfl⟩

theorem takes_takeN {n : Nat} {short : Nat → ε} :
    Takes (takeN n short : Parse β ε (List β)) fun bs cs => cs = bs ∧ bs.length = n := by
  intro bs a rest hr
  simp only [takeN, StateT.run] at hr
  split at hr <;> cases hr
  refine ⟨bs.take n, (List.take_append_drop n bs).symm, rfl, ?_⟩
  rw [List.length_take]
  omega

theorem takes_takeRest : Takes (takeRest : Parse β ε (List β)) fun bs cs => cs = bs := by
  intro bs a rest hr
  cases hr
  exact ⟨bs, (List.append_nil bs).symm, rfl⟩

theorem takes_atEnd : Takes (atEnd : Parse β ε Bool) fun _ cs => cs = [] := by
  intro bs a rest hr
  cases hr
  exact ⟨[], rfl, rfl⟩

theorem takes_finish {e : Nat → ε} : Takes (finish e : Parse β ε Unit) fun _ cs => cs = [] := by
  intro bs a rest hr
  simp only [finish, StateT.run] at hr
  split at hr <;> cases hr
  exact ⟨[], rfl, rfl⟩

/-- What a confined parser returns came from the front of the stretch it was confined to. -/
theorem within_takes {n : Nat} {short : Nat → ε} (h : Takes p Q) :
    Takes (within n short p) fun a cs => cs.length = n ∧ ∃ ds rest, cs = ds ++ rest ∧ Q a ds := by
  intro bs a rest hr
  simp only [within, StateT.run] at hr
  split at hr
  · cases hr
  · rename_i hl
    cases hp : p (bs.take n) with
    | error e =>
      rw [hp] at hr
      cases hr
    | ok am =>
      rw [hp] at hr
      obtain ⟨ds, hds, hQ⟩ := h (bs.take n) am.1 am.2 hp
      cases hr
      refine ⟨bs.take n, (List.take_append_drop n bs).symm, ?_, ds, am.2, hds, hQ⟩
      rw [List.length_take]
      omega

/-- An invariant of every round, over the symbols taken so far, holds when the loop ends. -/
theorem rounds_takes (I : σ → List β → Prop)
    (h : ∀ s cs, I s cs → Takes (step s) fun s' ds => I s' (cs ++ ds)) (k : Nat) :
    ∀ (s : σ) (cs : List β), I s cs → Takes (rounds step k s) fun s' ds => I s' (cs ++ ds) := by
  induction k with
  | zero =>
    intro s cs hs
    refine takes_pure ?_
    rwa [List.append_nil]
  | succ k ih =>
    intro s cs hs
    refine takes_atEnd.bind fun e _ hj => ?_
    subst hj
    refine Takes.ite (fun _ => takes_pure ?_) fun _ => ?_
    · rwa [List.append_nil, List.append_nil]
    · refine (h s cs hs).bind fun s' ds hs' => ?_
      refine (ih s' (cs ++ ds) hs').mono fun s'' ds' hI => ?_
      rwa [List.nil_append, ← List.append_assoc]

theorem whileMore_takes (I : σ → List β → Prop)
    (h : ∀ s cs, I s cs → Takes (step s) fun s' ds => I s' (cs ++ ds)) {s : σ} (hs : I s []) :
    Takes (whileMore step s) I := by
  intro bs a rest hr
  obtain ⟨cs, hcs, hI⟩ := rounds_takes I h bs.length s [] hs bs a rest hr
  exact ⟨cs, hcs, hI⟩

end Parse
