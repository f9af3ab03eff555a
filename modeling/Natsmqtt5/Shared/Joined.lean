import Natsmqtt5.Shared.Members

/-!
# A joined group keeps its backlog

A session is a member from the write of its entry on, and its consumer is made under the group's
lock, so that a last leaver either finds the entry or deletes the consumer before this session makes
it. `leaveGroup` (`sharedmembers.go:420`) looks whether the session holds the filter before `leave`
(`sharedmembers.go:261-283`) reads the entry: a SUBSCRIBE of the same session in between has its
entry deleted.

Results:
* `run_inv`: as long as no leave races with a join, `leave` deletes an entry only while no session
  of its Client Identifier holds the filter or is about to.
* `joined_group_keeps_backlog`: in those runs a session that holds the filter has its entry, and the
  consumer has not been deleted since `joinGroup` returned.
* `joined_group_loses_backlog`, `entry_lost`: runs with each of the races, which end otherwise.
-/

namespace Natsmqtt5.Shared

variable {γ σ κ θ : Type}

/-! ## The invariant -/

/-- The call is on its way to delete an entry, or the consumer. -/
@[simp] def Call.deletes : Call σ κ → Bool
  | .reading _ | .deleting _ _ | .dropping _ => true
  | _ => false

section Statements

variable [DecidableEq γ] (client : σ → γ) (st : State γ σ κ θ)

/-- No session of the Client Identifier of `s` wants the filter if its entry is as `p` says. -/
def Free (s : σ) (p : Entry γ σ → Prop) : Prop :=
  ∀ e, st.entry (client s) = some e → p e → ∀ s', client s' = client s → ¬ Wants st s'

/-- What every reached state has. -/
structure Inv : Prop where
  /-- What runs under the lock holds it. -/
  locked : ∀ t c, st.calls t = some c → c.underLock → st.lock = some t
  entry : ∀ s, Wants st s → st.entry (client s) ≠ none
  /-- Once the group is found empty under the lock, nobody can come to depend on the consumer. -/
  dropping : ∀ t s, st.calls t = some (.dropping s) → ∀ s', ¬ Depends st s'
  sub : ∀ s n, st.subs s = some n → st.deleted = n
  installing : ∀ t c s n, st.calls t = some (.installing c s n) → st.deleted = n
  fresh : ∀ g e, st.entry g = some e → e.rev ≤ st.last
  /-- What `leaveGroup` saw still holds when the entry is read, and when it is deleted. -/
  reading : ∀ t s, st.calls t = some (.reading s) → Free client st s fun e => e.written = s
  deleting : ∀ t s rev, st.calls t = some (.deleting s rev) →
    rev ≤ st.last ∧ Free client st s fun e => e.rev = rev

/-- No leave of the Client Identifier of `s` is about to delete its entry. -/
structure Unseen (s : σ) : Prop where
  reading : ∀ t x, st.calls t = some (.reading x) → client x = client s →
    ∀ e, st.entry (client s) = some e → e.written ≠ x
  deleting : ∀ t x rev, st.calls t = some (.deleting x rev) → client x = client s →
    ∀ e, st.entry (client s) = some e → e.rev ≠ rev

end Statements

variable [DecidableEq γ] {client : σ → γ} {st st' : State γ σ κ θ} {t : θ} {s : σ}

namespace Inv

theorem init : Inv client ({} : State γ σ κ θ) where
  locked _ _ h := nomatch h
  entry _ h := h.elim (absurd rfl) fun ⟨_, h⟩ => nomatch h
  dropping _ _ h := nomatch h
  sub _ _ h := nomatch h
  installing _ _ _ _ h := nomatch h
  fresh _ _ h := nomatch h
  reading _ _ h := nomatch h
  deleting _ _ _ h := nomatch h

theorem lock (hi : Inv client st) (h : st.lock = none) :
    Inv client { st with lock := some t } :=
  { hi with
    locked u c hu hl := by
      have := hi.locked u c hu hl
      rw [h] at this
      exact nomatch this }

/-- The call that held the lock has gone on, and nobody else is under it. -/
theorem unlock (hi : Inv client st) (h : st.lock = some t)
    (ht : ∀ c, st.calls t = some c → c.underLock = false) :
    Inv client { st with lock := none } :=
  { hi with
    locked u c hu hl := by
      have hlock := hi.locked u c hu hl
      rw [h] at hlock
      rw [← Option.some.inj hlock] at hu
      exact absurd hl (by simp [ht c hu, -Call.underLock]) }

/-- An entry of `s` is written while no leave of `s` is about to read it. What another leave has
read is of an older revision, and what it is about to read is not its own. -/
theorem put (hi : Inv client st) (hread : ∀ u, st.calls u ≠ some (.reading s)) :
    Inv client (st.put (client s) s) ∧ Unseen client (st.put (client s) s) s := by
  have hcase : ∀ g e, (st.put (client s) s).entry g = some e →
      e = ⟨client s, s, st.last + 1⟩ ∨ st.entry g = some e := by
    intro g e he
    by_cases hg : g = client s
    · rw [hg, State.entry_put_self] at he
      exact .inl (Option.some.inj he).symm
    · rw [State.entry_put_of_ne hg] at he
      exact .inr he
  have hold : ∀ u x rev, st.calls u = some (.deleting x rev) → rev ≠ st.last + 1 :=
    fun u x rev hu => Nat.ne_of_lt (Nat.lt_succ_of_le (hi.deleting u x rev hu).1)
  refine ⟨{ hi with
    entry := fun s' h => ?_
    fresh := fun g e he => ?_
    reading := fun u x hu e he hx => ?_
    deleting := fun u x rev hu => ⟨(hi.deleting u x rev hu).1.trans (Nat.le_succ _),
      fun e he hx => ?_⟩ }, fun u x hu _ e he hx => ?_, fun u x rev hu _ e he hx => ?_⟩
  · by_cases hg : client s' = client s
    · rw [hg, State.entry_put_self]
      exact Option.some_ne_none _
    · rw [State.entry_put_of_ne hg]
      exact hi.entry s' h
  · rcases hcase g e he with rfl | he
    · exact Nat.le_refl _
    · exact (hi.fresh g e he).trans (Nat.le_succ _)
  · rcases hcase _ e he with rfl | he
    · have hx : s = x := hx
      exact absurd (hx ▸ hu) (hread u)
    · exact hi.reading u x hu e he hx
  · rcases hcase _ e he with rfl | he
    · exact absurd hx.symm (hold u x rev hu)
    · exact (hi.deleting u x rev hu).2 e he hx
  · rw [State.entry_put_self] at he
    cases he
    have hx : s = x := hx
    exact hread u (hx ▸ hu)
  · rw [State.entry_put_self] at he
    cases he
    exact hold u x rev hu hx.symm

theorem delete (hi : Inv client st) {g : γ} (h : ∀ s', client s' = g → ¬ Wants st s') :
    Inv client (st.delete g) := by
  have hcase : ∀ g' e, (st.delete g).entry g' = some e → st.entry g' = some e := by
    intro g' e he
    by_cases hg : g' = g
    · rw [hg, State.entry_delete_self] at he
      cases he
    · exact State.entry_delete_of_ne hg ▸ he
  exact { hi with
    entry := fun s' hw => by
      rw [State.entry_delete_of_ne fun hg => h s' hg hw]
      exact hi.entry s' hw
    fresh := fun g' e he => (hi.fresh g' e (hcase g' e he)).trans (Nat.le_succ _)
    reading := fun u x hu e he => hi.reading u x hu e (hcase _ e he)
    deleting := fun u x rev hu => ⟨(hi.deleting u x rev hu).1.trans (Nat.le_succ _),
      fun e he => (hi.deleting u x rev hu).2 e (hcase _ e he)⟩ }

/-- The consumer goes when nobody depends on it. -/
theorem drop (hi : Inv client st) (h : ∀ s', ¬ Depends st s') :
    Inv client { st with consumer := false, deleted := st.deleted + 1 } :=
  { hi with
    sub s n hs := absurd (.inl (by rw [hs]; exact Option.some_ne_none n)) (h s)
    installing t c s n hc := absurd (.inr ⟨t, by rw [hc]; rfl⟩) (h s) }

section Subs

variable [DecidableEq σ]

/-- Nobody comes to want the filter or to depend on the consumer. -/
theorem setSub (hi : Inv client st) {n : Option Nat} (hn : ∀ k ∈ n, st.deleted = k)
    (hs : n = none ∨ Depends st s) : Inv client (st.setSub s n) := by
  have hheld : ∀ s', (st.setSub s n).subs s' ≠ none → Depends st s' ∧ Wants st s' := by
    intro s' h
    by_cases heq : s' = s
    · rw [heq, State.setSub_self] at h
      have hd := hs.resolve_left h
      exact heq ▸ ⟨hd, hd.wants⟩
    · rw [State.setSub_of_ne heq] at h
      exact ⟨.inl h, .inl h⟩
  have hwants : ∀ s', Wants (st.setSub s n) s' → Wants st s' :=
    fun s' h => h.elim (fun h => (hheld s' h).2) .inr
  exact { hi with
    entry := fun s' h => hi.entry s' (hwants s' h)
    dropping := fun u x hu s' h => hi.dropping u x hu s' (h.elim (fun h => (hheld s' h).1) .inr)
    sub := fun s' k h => by
      by_cases heq : s' = s
      · rw [heq, State.setSub_self] at h
        exact hn k h
      · rw [State.setSub_of_ne heq] at h
        exact hi.sub s' k h
    reading := fun u x hu e he hx s' hs' hw => hi.reading u x hu e he hx s' hs' (hwants s' hw)
    deleting := fun u x rev hu => (hi.deleting u x rev hu).imp id
      fun hf e he hx s' hs' hw => hf e he hx s' hs' (hwants s' hw) }

theorem clearSub (hi : Inv client st) (s : σ) : Inv client (st.setSub s none) :=
  hi.setSub nofun (.inl rfl)

end Subs

variable [DecidableEq θ] {c : Option (Call σ κ)}

/-- Call `t` moves to `c`. -/
theorem setCall (hi : Inv client st) (hlock : ∀ x ∈ c, x.underLock → st.lock = some t)
    (hjoins : ∀ s, c.bind Call.joins = some s →
      st.entry (client s) ≠ none ∧ (Wants st s ∨ Unseen client st s))
    (hmade : ∀ s, c.bind Call.made = some s →
      Depends st s ∨ ∀ u s', st.calls u = some (.dropping s') → u = t)
    (hdrop : ∀ s, c = some (.dropping s) → ∀ s', ¬ Depends st s')
    (hinst : ∀ c' s n, c = some (.installing c' s n) → st.deleted = n)
    (hread : ∀ s, c = some (.reading s) → Free client st s fun e => e.written = s)
    (hdel : ∀ s rev, c = some (.deleting s rev) →
      rev ≤ st.last ∧ Free client st s fun e => e.rev = rev) :
    Inv client (st.setCall t c) := by
  have hcall : ∀ u x, (st.setCall t c).calls u = some x → u = t ∧ c = some x ∨
      u ≠ t ∧ st.calls u = some x := by
    intro u x hu
    by_cases ht : u = t
    · rw [ht, State.setCall_self] at hu
      exact .inl ⟨ht, hu⟩
    · rw [State.setCall_of_ne ht] at hu
      exact .inr ⟨ht, hu⟩
  have hvia : ∀ {f : Call σ κ → Option σ} {s'}, (∃ u, ((st.setCall t c).calls u).bind f = some s') →
      (∃ u, (st.calls u).bind f = some s') ∨ c.bind f = some s' := by
    rintro f s' ⟨u, hu⟩
    obtain ⟨x, hx, hf⟩ := Option.bind_eq_some_iff.mp hu
    rcases hcall u x hx with ⟨-, hx⟩ | ⟨-, hx⟩
    · exact .inr (by rw [hx]; exact hf)
    · exact .inl ⟨u, by rw [hx]; exact hf⟩
  have hwants : ∀ s', Wants (st.setCall t c) s' → Wants st s' ∨ c.bind Call.joins = some s' :=
    fun s' h => h.elim (fun h => .inl (.inl h)) fun h => (hvia h).imp_left .inr
  constructor
  · intro u x hu
    rcases hcall u x hu with ⟨rfl, hx⟩ | ⟨-, hx⟩
    · exact hlock x hx
    · exact hi.locked u x hx
  · intro s' h
    exact (hwants s' h).elim (hi.entry s') fun h => (hjoins s' h).1
  · intro u x hu s' hs'
    have hdep : Depends st s' ∨ c.bind Call.made = some s' :=
      hs'.elim (fun h => .inl (.inl h)) fun h => (hvia h).imp_left .inr
    rcases hcall u _ hu with ⟨-, hx⟩ | ⟨ht, hx⟩
    · refine hdep.elim (hdrop x hx s') fun h => ?_
      rw [hx] at h
      cases h
    · rcases hdep with h | h
      · exact hi.dropping u x hx s' h
      · exact (hmade s' h).elim (hi.dropping u x hx s') fun h => ht (h u x hx)
  · exact hi.sub
  · intro u c' s' n hu
    exact (hcall u _ hu).elim (fun h => hinst c' s' n h.2) fun h => hi.installing u c' s' n h.2
  · exact hi.fresh
  · intro u x hu e he hx s' hs' hw
    rcases hcall u _ hu with ⟨-, hc⟩ | ⟨-, hc⟩
    · refine (hwants s' hw).elim (hread x hc e he hx s' hs') fun h => ?_
      rw [hc] at h
      cases h
    · refine (hwants s' hw).elim (hi.reading u x hc e he hx s' hs') fun h => ?_
      refine (hjoins s' h).2.elim (hi.reading u x hc e he hx s' hs') fun hun => ?_
      exact hun.reading u x hc hs'.symm e (hs' ▸ he) hx
  · intro u x rev hu
    rcases hcall u _ hu with ⟨-, hc⟩ | ⟨-, hc⟩
    · refine (hdel x rev hc).imp id fun hf e he hx s' hs' hw => ?_
      refine (hwants s' hw).elim (hf e he hx s' hs') fun h => ?_
      rw [hc] at h
      cases h
    · refine (hi.deleting u x rev hc).imp id fun hf e he hx s' hs' hw => ?_
      refine (hwants s' hw).elim (hf e he hx s' hs') fun h => ?_
      refine (hjoins s' h).2.elim (hf e he hx s' hs') fun hun => ?_
      exact hun.deleting u x rev hc hs'.symm e (hs' ▸ he) hx

/-- A call that ends, or goes on to a step outside the SUBSCRIBE that deletes nothing. -/
theorem setCall_plain (hi : Inv client st)
    (hlock : ∀ x ∈ c, x.underLock → st.lock = some t) (hjoins : c.bind Call.joins = none)
    (hc : ∀ x ∈ c, x.deletes = false) : Inv client (st.setCall t c) := by
  have hno : ∀ {x : Call σ κ}, c = some x → x.deletes = true → False := by
    intro x hx hd
    rw [hc x hx] at hd
    cases hd
  refine hi.setCall hlock (fun s h => ?_) (fun s h => ?_) (fun s h => (hno h rfl).elim)
    (fun c' s n h => ?_) (fun s h => (hno h rfl).elim) fun s rev h => (hno h rfl).elim
  · exact absurd h (by simp [hjoins])
  · obtain ⟨x, hx, hm⟩ := Option.bind_eq_some_iff.mp h
    rw [hx, Option.bind_some, joins_of_made hm] at hjoins
    cases hjoins
  · rw [h] at hjoins
    cases hjoins

/-- A SUBSCRIBE goes on, for a session that has its entry. -/
theorem setCall_joining {x : Call σ κ} (hi : Inv client st) (hx : x.joins = some s)
    (hlock : x.underLock → st.lock = some t)
    (hs : st.entry (client s) ≠ none ∧ (Wants st s ∨ Unseen client st s))
    (hmade : x.made = some s → Depends st s ∨ ∀ u s', st.calls u = some (.dropping s') → u = t)
    (hinst : ∀ c' s n, x = .installing c' s n → st.deleted = n) :
    Inv client (st.setCall t (some x)) := by
  refine hi.setCall (fun y hy => ?_) (fun s' h => ?_) (fun s' h => ?_) (fun s' h => ?_)
    (fun c' s' n h => hinst c' s' n (Option.some.inj h)) (fun s' h => ?_) fun s' rev h => ?_
  · cases hy
    exact hlock
  · cases hx.symm.trans h
    exact hs
  · cases hx.symm.trans (joins_of_made h)
    exact hmade h
  all_goals
    cases h
    cases hx

end Inv

/-! ## Steps keep the invariant -/

variable [DecidableEq σ] [DecidableEq κ] [DecidableEq θ]

/-- The next step of a call keeps the invariant. -/
theorem run_inv (hi : Inv client st) {c : Call σ κ} (hc : st.calls t = some c)
    (hok : c.Apart client st) (h : c.run client st t = some st') : Inv client st' := by
  have hjoined : ∀ s, c.joins = some s → Wants st s := fun s hs => .inr ⟨t, by rw [hc]; exact hs⟩
  have hplain : ∀ {x : Option (Call σ κ)}, x.bind Call.joins = none →
      (∀ y ∈ x, y.underLock = false) → (∀ y ∈ x, y.deletes = false) →
      Inv client (st.setCall t x) := fun hj hl hd =>
    hi.setCall_plain (fun y hy h => absurd h (by simp [hl y hy, -Call.underLock])) hj hd
  cases c with
  | joining c s =>
    cases h
    obtain ⟨hput, hunseen⟩ := hi.put hok
    refine hput.setCall_joining rfl (by simp) ⟨?_, .inr hunseen⟩ (by simp) (by simp)
    rw [State.entry_put_self]
    exact Option.some_ne_none _
  | locking c s =>
    simp only [Call.run, Option.ite_none_right_eq_some] at h
    obtain ⟨hfree, h⟩ := h
    cases h
    have hw := hjoined s rfl
    exact (hi.lock hfree).setCall_joining rfl (fun _ => rfl) ⟨hi.entry s hw, .inl hw⟩ (by simp)
      (by simp)
  | creating c s =>
    cases h
    have hheld : st.lock = some t := hi.locked t _ hc rfl
    have hw := hjoined s rfl
    have hi' : Inv client { st with consumer := true } := { hi with }
    refine hi'.setCall_joining rfl (fun _ => hheld) ⟨hi.entry s hw, .inl hw⟩ (fun _ => .inr ?_)
      (by simp)
    -- whoever is about to delete the consumer would hold the lock too
    intro u x hu
    have hlock := hi.locked u _ hu rfl
    rw [hheld] at hlock
    exact (Option.some.inj hlock).symm
  | returning c s made =>
    cases h
    have hheld : st.lock = some t := hi.locked t _ hc rfl
    cases made with
    | false =>
      exact (hplain (x := some (.leaving s)) rfl (by simp) (by simp)).unlock hheld
        (by simp [State.setCall_self])
    | true =>
      have hd : Depends st s := .inr ⟨t, by rw [hc]; rfl⟩
      refine (hi.setCall_joining (x := .installing c s st.deleted) rfl (by simp)
        ⟨hi.entry s hd.wants, .inl hd.wants⟩ (fun _ => .inl hd) fun c' s' n hn => ?_).unlock hheld
        (by simp [State.setCall_self])
      injection hn
  | installing c s n =>
    have hd : Depends st s := .inr ⟨t, by rw [hc]; rfl⟩
    have hn := hi.installing t c s n hc
    simp only [Call.run] at h
    split at h <;> cases h
    · exact (hi.setSub (by simpa using hn) (.inr hd)).setCall_plain (by simp) rfl (by simp)
    · exact hplain rfl (by simp) (by simp)
  | leaving s =>
    cases h
    split
    · exact hplain rfl (by simp) (by simp)
    · rename_i hheld
      have hnone : st.subs s = none := by simpa using hheld
      obtain ⟨hself, hothers⟩ := hok hnone
      refine hi.setCall (by simp) (by simp) (by simp) (by simp) (by simp) (fun s' hs' e he hw => ?_)
        (by simp)
      cases hs'
      intro s' hs' hwants
      by_cases heq : s' = s
      · -- The session holds no subscription, and no SUBSCRIBE of its own is on the way.
        subst heq
        rcases hwants with hne | ⟨u, hu⟩
        · exact hne hnone
        · exact hself u hu
      · exact hothers e he hw s' hs' heq hwants
  | reading s =>
    simp only [Call.run] at h
    split at h <;> cases h
    · rename_i e he
      split
      · rename_i hw
        refine hi.setCall (by simp) (by simp) (by simp) (by simp) (by simp) (by simp)
          fun s' rev hs' => ?_
        cases hs'
        exact ⟨hi.fresh _ e he, fun _ _ _ => hi.reading t s hc e he hw⟩
      · exact hplain rfl (by simp) (by simp)
    · exact hplain rfl (by simp) (by simp)
  | deleting s rev =>
    simp only [Call.run] at h
    split at h <;> cases h
    · rename_i hrev
      obtain ⟨e, he, hr⟩ := Option.map_eq_some_iff.mp hrev
      exact (hi.delete ((hi.deleting t s rev hc).2 e he hr)).setCall_plain (by simp) rfl (by simp)
    · exact hplain rfl (by simp) (by simp)
  | ending s =>
    simp only [Call.run, Option.ite_none_right_eq_some] at h
    obtain ⟨hfree, h⟩ := h
    cases h
    exact (hi.lock hfree).setCall_plain (fun _ _ _ => rfl) rfl (by simp)
  | recounting s =>
    cases h
    have hheld : st.lock = some t := hi.locked t _ hc rfl
    split
    · rename_i hempty
      refine hi.setCall (fun _ _ _ => hheld) (by simp) (by simp) (fun _ _ s' hd => ?_) (by simp)
        (by simp) (by simp)
      -- a session that depends on the consumer has its entry, and there is none
      exact hi.entry s' hd.wants (State.entry_of_isEmpty hempty)
    · exact hi.setCall_plain (fun _ _ _ => hheld) rfl (by simp)
  | dropping s =>
    cases h
    have hheld : st.lock = some t := hi.locked t _ hc rfl
    exact (hi.drop (hi.dropping t s hc)).setCall_plain (fun _ _ _ => hheld) rfl (by simp)
  | unlocking s =>
    cases h
    exact (hplain (x := none) rfl (by simp) (by simp)).unlock (hi.locked t _ hc rfl)
      (by simp [State.setCall_self])
  | refreshing s =>
    cases h
    exact (hi.put hok).1.setCall_plain (by simp) rfl (by simp)
  | counting s | rechecking s =>
    cases h
    split
    · exact hplain rfl (by simp) (by simp)
    · exact hplain rfl (by simp) (by simp)

omit [DecidableEq σ] [DecidableEq κ] in
/-- A failed request keeps the invariant. -/
theorem fail_inv (hi : Inv client st) {c : Call σ κ} (hc : st.calls t = some c)
    {c' : Option (Call σ κ)} (h : c.fail = some c') : Inv client (st.setCall t c') := by
  cases c with
  | creating c s | recounting s | dropping s =>
    cases h
    have hheld : st.lock = some t := hi.locked t _ hc rfl
    exact hi.setCall_plain (fun _ _ _ => hheld) rfl (by simp)
  | joining | reading s | deleting s rev | counting s | refreshing s =>
    cases h
    exact hi.setCall_plain (by simp) rfl (by simp)
  | _ => cases h

theorem step_inv {a : Act σ κ θ} (hi : Inv client st) (hok : Apart client st a)
    (h : step client st a = some st') : Inv client st' := by
  cases a with
  | attach s c | detach s =>
    cases h
    exact { hi with }
  | unsubscribe t c s | remove t s =>
    simp only [step, Option.ite_none_right_eq_some] at h
    obtain ⟨-, h⟩ := h
    cases h
    exact (hi.clearSub s).setCall_plain (by simp) rfl (by simp)
  | moved s =>
    cases h
    exact hi.clearSub s
  | subscribe t c s | refresh t s =>
    simp only [step, Option.ite_none_right_eq_some] at h
    obtain ⟨-, h⟩ := h
    cases h
    exact hi.setCall_plain (by simp) rfl (by simp)
  | run t =>
    obtain ⟨c, hc, h⟩ := Option.bind_eq_some_iff.mp h
    exact run_inv hi hc (hok c hc) h
  | fail t =>
    obtain ⟨c', hf, rfl⟩ := Option.map_eq_some_iff.mp h
    obtain ⟨c, hc, hf⟩ := Option.bind_eq_some_iff.mp hf
    exact fail_inv hi hc hf

/-! ## The group keeps its backlog -/

instance [Fintype θ] (s : σ) : Decidable (Wants st s) :=
  inferInstanceAs (Decidable (st.subs s ≠ none ∨ ∃ t, (st.calls t).bind Call.joins = some s))

instance [Fintype σ] [Fintype θ] (c : Call σ κ) : Decidable (c.Apart client st) := by
  unfold Call.Apart
  split <;> infer_instance

instance [Fintype σ] [Fintype θ] (a : Act σ κ θ) : Decidable (Apart client st a) := by
  unfold Apart
  split <;> infer_instance

/-- **A joined group keeps its backlog.** In every run in which no leave races with a join, a
session that holds the filter has its entry, and the consumer has not been deleted since the
SUBSCRIBE's `joinGroup` returned. -/
theorem joined_group_keeps_backlog
    (h : Lts.Reach (step client) (Apart client) ({} : State γ σ κ θ) st) {n : Nat}
    (hs : st.subs s = some n) :
    (∃ e, st.entry (client s) = some e) ∧ st.deleted = n := by
  have hi : Inv client st := h.invariant Inv.init fun _ _ _ hi hok hs => step_inv hi hok hs
  refine ⟨Option.ne_none_iff_exists'.mp (hi.entry s (.inl ?_)), hi.sub s n hs⟩
  rw [hs]
  exact Option.some_ne_none n

/-- A SUBSCRIBE, an UNSUBSCRIBE that ends the group, and a SUBSCRIBE of another session. -/
def inTurn : List (Act Bool Unit Lts.Two) :=
  [.attach true (), .attach false (), .subscribe .first () true] ++
    List.replicate 5 (.run .first) ++ [.unsubscribe .first () true] ++
    List.replicate 8 (.run .first) ++ [.subscribe .second () false] ++
    List.replicate 5 (.run .second)

theorem joined_group_keeps_backlog_inTurn :
    ∃ st : State Bool Bool Unit Lts.Two,
      Lts.Reach (step id) (Apart id) {} st ∧ st.subs false = some 1 ∧
        (∃ e, st.entry false = some e) ∧ st.deleted = 1 := by
  obtain ⟨st, hr, hs⟩ := Lts.reach_of_exec_any (step id) (Apart id)
    ({} : State Bool Bool Unit Lts.Two) inTurn (fun st => decide (st.subs false = some 1))
    (by decide)
  have hs := of_decide_eq_true hs
  exact ⟨st, hr, hs, joined_group_keeps_backlog hr hs⟩

/-- A connection that has lost the session finds, in `leaveGroup`, that the session does not hold
the filter. The connection that took it subscribes; then `leave` reads the new entry, of the same
session, and deletes it, and the consumer with it. -/
def displaced : List (Act Unit Lts.Two Lts.Two) :=
  [.attach () .first, .subscribe .first .first (), .attach () .second] ++
    List.replicate 6 (.run .first) ++ [.subscribe .second .second ()] ++
    List.replicate 5 (.run .second) ++ List.replicate 6 (.run .first)

theorem joined_group_loses_backlog :
    ∃ st : State Unit Unit Lts.Two Lts.Two, Lts.Reach (step id) Lts.free {} st ∧
      st.subs () = some 0 ∧ st.calls .second = none ∧ st.entry () = none ∧ st.deleted = 1 ∧
      st.consumer = false := by
  obtain ⟨st, hr, hs⟩ := Lts.reach_of_exec_any (step id) Lts.free
    ({} : State Unit Unit Lts.Two Lts.Two) displaced
    (fun st => decide (st.subs () = some 0) && (st.calls .second).isNone &&
      (st.entry ()).isNone && decide (st.deleted = 1) && !st.consumer)
    (by decide)
  simp only [Bool.and_eq_true, decide_eq_true_eq, Option.isNone_iff_eq_none,
    Bool.not_eq_true'] at hs
  obtain ⟨⟨⟨⟨hsub, hcall⟩, hentry⟩, hdel⟩, hcons⟩ := hs
  exact ⟨st, hr, hsub, hcall, hentry, hdel, hcons⟩

/-- A SUBSCRIBE of the session is past the write of its entry when the displaced connection leaves;
the session has written its entry over that of another of the same client and leaves; and its
refresh does so after its leave has looked. -/
def races : List (List (Act Lts.Two Lts.Two Lts.Two)) :=
  [[.attach .first .first, .subscribe .first .first .first] ++ List.replicate 4 (.run .first) ++
      [.attach .first .second, .run .first, .subscribe .second .second .first, .run .second] ++
      List.replicate 3 (.run .first) ++ List.replicate 4 (.run .second),
    [.attach .first .first, .attach .second .second, .subscribe .first .first .first] ++
      List.replicate 5 (.run .first) ++ [.subscribe .second .second .second] ++
      List.replicate 5 (.run .second) ++ [.unsubscribe .second .second .second] ++
      List.replicate 3 (.run .second),
    [.attach .first .first, .attach .second .second, .subscribe .second .second .second] ++
      List.replicate 5 (.run .second) ++ [.subscribe .first .first .first] ++
      List.replicate 5 (.run .first) ++ [.refresh .first .second,
        .unsubscribe .second .second .second, .run .second, .run .first, .run .second,
        .run .second]]

/-- Each of the other races has a session lose its entry. -/
theorem entry_lost : ∀ run ∈ races, ∃ st : State Unit Lts.Two Lts.Two Lts.Two,
    Lts.Reach (step fun _ => ()) Lts.free {} st ∧ st.subs .first = some 0 ∧ st.entry () = none := by
  intro run hrun
  have hall : ∀ run ∈ races, (Lts.exec (step fun _ => ()) Lts.free
      ({} : State Unit Lts.Two Lts.Two Lts.Two) run).any (fun st =>
        decide (st.subs .first = some 0) && (st.entry ()).isNone) = true := by
    decide
  obtain ⟨st, hr, hs⟩ := Lts.reach_of_exec_any _ _ _ run _ (hall run hrun)
  rw [Bool.and_eq_true, decide_eq_true_eq, Option.isNone_iff_eq_none] at hs
  exact ⟨st, hr, hs⟩

end Natsmqtt5.Shared
