import Natsmqtt5.Checkpoint.Model

/-!
# `persistMu`

The ledger's writer belongs to the one call that holds `persistMu`: `checkpointSession` writes with
a stamp and `persistSession` without.
-/

namespace Natsmqtt5.Checkpoint

variable {μ θ : Type}

/-- A call that holds `persistMu`, and whether its writer has a stamp. -/
def Call.holds : Call μ → Option Bool
  | .writing _ => some true
  | .saving => some false
  | _ => none

structure Owned (st : State μ θ) : Prop where
  writer : ∀ t b, (st.calls t).holds = some b → ∃ w, st.ledger.writer = some w ∧ w.stamp.isSome = b
  unique : ∀ t u b c, (st.calls t).holds = some b → (st.calls u).holds = some c → t = u

namespace Owned

variable {st : State μ θ} {t : θ} {l : Ledger (Session μ) Nat (Value μ)} {c : Call μ}
  {w : Ledger.Writer Nat (Value μ)} {b : Bool}

theorem start (s : Session μ) (r : ∀ i, Value μ i) (queue : Bool) :
    Owned (State.start s r queue : State μ θ) where
  writer := nofun
  unique := nofun

/-- The calls and the writer are as they were. -/
theorem same (h : Owned st) {queue : Bool} (hw : l.writer = st.ledger.writer) :
    Owned { st with ledger := l, queue := queue } where
  writer u b hu := hw ▸ h.writer u b hu
  unique := h.unique

/-- The writer reads on. -/
theorem read (h : Owned st) (hw : st.ledger.writer = some w) (i : Part) (todo : List Part) :
    Owned (st.read w i todo) where
  writer u b hu := by
    obtain ⟨w', hw', hb⟩ := h.writer u b hu
    rw [hw] at hw'
    cases hw'
    exact ⟨_, rfl, hb⟩
  unique := h.unique

variable [DecidableEq θ] {u : θ}

theorem setCall_of_ne (hu : u ≠ t) : (st.setCall t c).calls u = st.calls u :=
  Function.update_of_ne hu ..

theorem setCall_self : (st.setCall t c).calls t = c := Function.update_self ..

/-- Who holds `persistMu` once call `t` is at `c`. -/
theorem holds_setCall (h : ((st.setCall t c).calls u).holds = some b) :
    (u = t ∧ c.holds = some b) ∨ (u ≠ t ∧ (st.calls u).holds = some b) := by
  by_cases hut : u = t
  · subst hut
    rw [setCall_self] at h
    exact .inl ⟨rfl, h⟩
  · rw [setCall_of_ne hut] at h
    exact .inr ⟨hut, h⟩

/-- A call without `persistMu` moves on, still without it. -/
theorem moved (h : Owned st) {rels : List Rel} (hnew : c.holds = none)
    (hw : l.writer = st.ledger.writer) :
    Owned ({ st with ledger := l, relIDs := rels }.setCall t c) := by
  have hold : ∀ {u b}, (({ st with ledger := l, relIDs := rels }.setCall t c).calls u).holds =
      some b → (st.calls u).holds = some b := by
    intro u b hu
    obtain ⟨-, hu⟩ | ⟨-, hu⟩ := holds_setCall hu
    · rw [hnew] at hu
      contradiction
    · exact hu
  exact ⟨fun u b hu => hw ▸ h.writer u b (hold hu),
    fun u v b c hu hv => h.unique u v b c (hold hu) (hold hv)⟩

/-- A call takes `persistMu`, which was free. -/
theorem taken (h : Owned st) (hfree : st.ledger.writer = none)
    (hnew : c.holds = some w.stamp.isSome) : Owned ((st.startWriter w).setCall t c) := by
  have hold : ∀ {u b}, (((st.startWriter w).setCall t c).calls u).holds = some b →
      u = t ∧ w.stamp.isSome = b := by
    intro u b hu
    obtain ⟨hut, hc⟩ | ⟨-, hu⟩ := holds_setCall hu
    · exact ⟨hut, Option.some.inj (hnew.symm.trans hc)⟩
    · obtain ⟨w', hw', -⟩ := h.writer u b hu
      rw [hfree] at hw'
      contradiction
  exact ⟨fun u b hu => ⟨w, rfl, (hold hu).2⟩,
    fun u v b c hu hv => (hold hu).1.trans (hold hv).1.symm⟩

/-- The call that has `persistMu` gives it back. -/
theorem released (h : Owned st) (hold : (st.calls t).holds = some b)
    (hnew : c.holds = none) : Owned ({ st with ledger := l }.setCall t c) := by
  have hnone : ∀ u b, (({ st with ledger := l }.setCall t c).calls u).holds ≠ some b := by
    intro u b' hu
    obtain ⟨-, hu⟩ | ⟨hut, hu⟩ := holds_setCall hu
    · rw [hnew] at hu
      contradiction
    · exact hut (h.unique u t b' b hu hold)
  exact ⟨fun u b hu => absurd hu (hnone u b), fun u _ b _ hu => absurd hu (hnone u b)⟩

end Owned

theorem After.call_holds (k : After μ) : k.call.holds = none := by
  cases k with
  | idle | sending | queueing | releasing => rfl

variable [DecidableEq μ] [DecidableEq θ] {cfg : Config} {st st' : State μ θ} {t : θ}

theorem run_owned {ch : Choice μ} (h : Owned st) {c : Call μ} (hc : st.calls t = c)
    (hs : c.run cfg st t ch = some st') : Owned st' := by
  cases c with
  | idle | gathering ready => exact absurd hs.symm (Option.some_ne_none st')
  | noting p ready =>
    simp only [Call.run] at hs
    split at hs <;> cases hs <;> exact h.moved rfl rfl
  | sending ready =>
    cases ready with
    | nil =>
      cases hs
      exact h.moved rfl rfl
    | cons p ready =>
      cases hs
      refine h.moved ?_ rfl
      split <;> rfl
  | releasing rels =>
    cases rels with
    | nil | cons r rels =>
      cases hs
      exact h.moved rfl rfl
  | bumping checkpoint next =>
    cases hs
    refine h.moved ?_ rfl
    split
    · rfl
    · exact next.call_holds
  | checkpointing next =>
    simp only [Call.run, Option.ite_none_right_eq_some] at hs
    obtain ⟨hfree, hs⟩ := hs
    split at hs <;> cases hs
    · exact h.moved next.call_holds rfl
    · exact h.taken (Option.isNone_iff_eq_none.mp hfree) rfl
  | writing next =>
    have hold : (st.calls t).holds = some true := by rw [hc]; rfl
    simp only [Call.run] at hs
    split at hs
    · contradiction
    · rename_i w hw
      split at hs
      · cases hs
        exact h.read hw _ _
      · split_ifs at hs <;> cases hs <;> exact h.released hold next.call_holds
  | persisting =>
    simp only [Call.run, Option.ite_none_right_eq_some] at hs
    obtain ⟨hfree, hs⟩ := hs
    cases hs
    exact h.taken (Option.isNone_iff_eq_none.mp hfree) rfl
  | saving =>
    have hold : (st.calls t).holds = some false := by rw [hc]; rfl
    simp only [Call.run] at hs
    split at hs
    · contradiction
    · rename_i w hw
      split at hs
      · cases hs
        exact h.read hw _ _
      · split_ifs at hs <;> cases hs <;> exact h.released hold rfl
  | _ =>
    cases hs
    exact h.moved rfl rfl

/-- Every step keeps the writer with the call that holds `persistMu`. -/
theorem step_owned {a : Act μ θ} (h : Owned st) (hs : step cfg st a = some st') : Owned st' := by
  cases a <;> simp only [step] at hs
  case moves p =>
    simp only [Option.ite_none_right_eq_some] at hs
    obtain ⟨-, hs⟩ := hs
    cases hs
    exact h.same rfl
  case tick dt | queueUp =>
    cases hs
    exact h.same rfl
  case event t e =>
    obtain ⟨-, rfl⟩ := State.begin_eq_some.mp hs
    refine h.moved ?_ rfl
    cases e with
    | acknowledged | awaited | forgotten | received | forwarded | refused | released | scanned
    | reauthorized | overdue | resendDropped | expired | since | displaced => rfl
  case deliver t | checkpoint t | persist t =>
    obtain ⟨-, rfl⟩ := State.begin_eq_some.mp hs
    exact h.moved rfl rfl
  case prepare t d packetID =>
    split at hs
    · simp only [Option.ite_none_right_eq_some] at hs
      obtain ⟨-, hs⟩ := hs
      cases hs
      exact h.moved rfl rfl
    · contradiction
  case flush t =>
    split at hs <;> cases hs
    refine h.moved ?_ rfl
    split <;> rfl
  case pubrec t id =>
    simp only [Option.ite_none_right_eq_some] at hs
    obtain ⟨-, rfl⟩ := State.begin_eq_some.mp hs.2
    exact h.moved rfl rfl
  case drain t =>
    split at hs
    · contradiction
    · obtain ⟨-, rfl⟩ := State.begin_eq_some.mp hs
      exact h.moved rfl rfl
  case run t ch => exact run_owned h rfl hs

end Natsmqtt5.Checkpoint
