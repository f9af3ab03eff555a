import Natsmqtt5.Store.Fence

/-!
# The two fences hold a stale writer out

Every revision a session or a write under way holds was written under the claim its generation
stands for (`Session.Ok`), and the revision of a present record was written under the latest claim
(`Inv.current`). So a compare-and-swap that succeeds is the latest claimant's (`writes_fenced`).

That the latest claimant's session holds the bucket's revision needs one thing more: `bindRecord`
does not compare the revision it is given with the one the session holds, and the claims of two
connections of one broker can be bound in the other order than they were written.

Results:
* `writes_fenced`: over every run, no write goes through under a claim when a later one has been
  written, and the record is what the newest write left.
* `fenced_record_writes`: when `bindRecord` is never given a revision below the session's, the
  latest claimant's session also holds the bucket's revision whenever none of its writes is between
  store and commit.
* `claim_bound_late`: two claims bound in the other order leave the claimant's session at a revision
  the bucket has left behind.
-/

namespace Natsmqtt5.Store.Fence

open Function

variable {κ : Type} {sess : Session} {under : Nat → Option Nat} {s t : State κ} {c c' : κ}
  {i gap k rev gen : Nat} {p q : Place} {r record : Record}

/-! ## The invariant -/

/-- The claim a place stands for. -/
def Place.claimNo : Place → Option Nat
  | .claimed _ _ k => some k
  | .bound _ _ k => some k
  | _ => none

/-- What a session holds was written under the claims its generations stand for. -/
structure Session.Ok (under : Nat → Option Nat) (sess : Session) : Prop where
  bound : 0 < sess.claimGen → sess.record.isSome = true
  holds : sess.record.isSome = true →
    0 < sess.claimGen ∧ under sess.rev = some (sess.claimOf sess.claimGen)
  storing : ∀ gen record put rev, sess.write = some (.storing gen record put rev) →
    0 < gen ∧ gen ≤ sess.claimGen ∧ under rev = some (sess.claimOf gen)
  committing : ∀ gen record rev, sess.write = some (.committing gen record rev) →
    0 < gen ∧ gen ≤ sess.claimGen ∧ under rev = some (sess.claimOf gen)

structure Inv (s : State κ) : Prop where
  /-- Claims are numbered, and each is one connection's. -/
  number : ∀ c k, (s.place c).claimNo = some k → k ≤ s.claims
  unique : ∀ c c' k, (s.place c).claimNo = some k → (s.place c').claimNo = some k → c = c'
  /-- Revisions grow with the claims they are written under. -/
  written : ∀ r k, s.under r = some k → k ≤ s.claims ∧ r ≤ s.bucket.last
  grows : ∀ r r' k k', s.under r = some k → s.under r' = some k' → k < k' → r < r'
  current : s.under s.bucket.last = if s.bucket.value.isSome then some s.claims else none
  claimedAt : ∀ c record rev k, s.place c = .claimed record rev k → s.under rev = some k
  sessions : ∀ i, (s.session i).Ok s.under
  /-- Each generation of a session is the binding of one claim. -/
  binder : ∀ i g, 0 < g → g ≤ (s.session i).claimGen →
    ∃ c, s.place c = .bound i g ((s.session i).claimOf g)
  boundAs : ∀ c i g k, s.place c = .bound i g k →
    0 < g ∧ g ≤ (s.session i).claimGen ∧ (s.session i).claimOf g = k
  latest : latestClaim s.log = s.claims
  fenced : Fenced s.log
  result : result s.log = s.bucket.value

theorem inv_empty : Inv (State.empty : State κ) where
  number := nofun
  unique := nofun
  written := nofun
  grows := nofun
  current := rfl
  claimedAt := nofun
  sessions i :=
    { bound := fun h => absurd h (Nat.lt_irrefl 0)
      holds := nofun
      storing := nofun
      committing := fun _ _ _ h => by cases h }
  binder i g h h' := by
    have : g ≤ 0 := h'
    omega
  boundAs := nofun
  latest := rfl
  fenced := trivial
  result := rfl

/-- Writing a new revision does not change what the old ones were written under. -/
theorem Session.Ok.mono {under' : Nat → Option Nat} (h : sess.Ok under)
    (hle : ∀ r k, under r = some k → under' r = some k) : sess.Ok under' where
  bound := h.bound
  holds hr := ⟨(h.holds hr).1, hle _ _ (h.holds hr).2⟩
  storing gen record put rev hw := by
    obtain ⟨h1, h2, h3⟩ := h.storing gen record put rev hw
    exact ⟨h1, h2, hle _ _ h3⟩
  committing gen record rev hw := by
    obtain ⟨h1, h2, h3⟩ := h.committing gen record rev hw
    exact ⟨h1, h2, hle _ _ h3⟩

/-- No revision above the last one has been written. -/
theorem Inv.under_next (h : Inv s) (gap : Nat) : s.under (s.bucket.nextRev gap) = none := by
  cases hu : s.under (s.bucket.nextRev gap) with
  | none => rfl
  | some k =>
    have hle := (h.written _ k hu).2
    have hlt := s.bucket.last_lt_nextRev gap
    omega

theorem Inv.under_extend (h : Inv s) (gap : Nat) (v : Option Nat) (r k : Nat)
    (hu : s.under r = some k) : update s.under (s.bucket.nextRev gap) v r = some k := by
  have hne : r ≠ s.bucket.nextRev gap := by
    rintro rfl
    rw [h.under_next gap] at hu
    cases hu
  rw [update_of_ne hne]
  exact hu

/-- What an updated function has at a point. -/
theorem update_eq {α β : Type} [DecidableEq α] {f : α → β} {a b : α} {v w : β}
    (h : update f a v b = w) : (b = a ∧ v = w) ∨ (b ≠ a ∧ f b = w) := by
  by_cases hb : b = a
  · subst hb
    exact .inl ⟨rfl, by simpa using h⟩
  · exact .inr ⟨hb, by simpa [hb] using h⟩

/-- A revision written under a claim that is still the last one: the record is there, and the claim
is the latest. This is the fence between brokers. -/
theorem Inv.latest_of_last (h : Inv s) (hu : s.under s.bucket.last = some k) :
    s.bucket.value.isSome = true ∧ k = s.claims := by
  rw [h.current] at hu
  split at hu <;> cases hu
  rename_i hv
  exact ⟨hv, rfl⟩

/-! ### Small changes -/

/-- A connection moved to a place without a claim: those with one are where they were. -/
theorem goto_place [DecidableEq κ] (hnew : p.claimNo = none)
    (hp : (s.goto c p).place c' = q) (hq : q.claimNo = some k) : s.place c' = q := by
  rcases update_eq hp with ⟨rfl, rfl⟩ | ⟨-, hp⟩
  · rw [hnew] at hq
    cases hq
  · exact hp

/-- Moving a connection that has no claim and gets none. -/
theorem Inv.goto [DecidableEq κ] (h : Inv s) (hold : (s.place c).claimNo = none)
    (hnew : p.claimNo = none) : Inv (s.goto c p) :=
  { h with
    number c' k hk := h.number c' k (by rwa [goto_place hnew rfl hk])
    unique c' c'' k hk hk' :=
      h.unique c' c'' k (by rwa [goto_place hnew rfl hk]) (by rwa [goto_place hnew rfl hk'])
    claimedAt c' record rev k hp := h.claimedAt c' record rev k (goto_place hnew hp rfl)
    binder i g hg hle := by
      obtain ⟨c', hp⟩ := h.binder i g hg hle
      have hc : c' ≠ c := by
        rintro rfl
        rw [hp] at hold
        cases hold
      exact ⟨c', by simpa [State.goto, hc] using hp⟩
    boundAs c' i g k hp := h.boundAs c' i g k (goto_place hnew hp rfl) }

/-- What holds of each session after one of them is changed. -/
theorem forall_setSession {P : Nat → Session → Prop} (hi : P i sess)
    (hother : ∀ j, P j (s.session j)) (j : Nat) : P j ((s.setSession i sess).session j) := by
  by_cases hj : j = i
  · subst hj; simpa [State.setSession] using hi
  · simpa [State.setSession, hj] using hother j

/-- Changing a session without binding another claim to it. -/
theorem Inv.setSession (h : Inv s)
    (hgen : sess.claimGen = (s.session i).claimGen) (hof : sess.claimOf = (s.session i).claimOf)
    (hok : sess.Ok s.under) : Inv (s.setSession i sess) := by
  have hsame : ∀ j, ((s.setSession i sess).session j).claimGen = (s.session j).claimGen ∧
      ((s.setSession i sess).session j).claimOf = (s.session j).claimOf :=
    forall_setSession (P := fun j x => x.claimGen = (s.session j).claimGen ∧
      x.claimOf = (s.session j).claimOf) ⟨hgen, hof⟩ fun _ => ⟨rfl, rfl⟩
  exact
    { h with
      sessions := forall_setSession hok h.sessions
      binder j g hg hle := by
        rw [(hsame j).1] at hle
        rw [(hsame j).2]
        exact h.binder j g hg hle
      boundAs c' j g k hp := by
        rw [(hsame j).1, (hsame j).2]
        exact h.boundAs c' j g k hp }

/-- A write of the session is given up, or over. -/
theorem Session.Ok.clear (h : sess.Ok under) : Session.Ok under { sess with write := none } :=
  { h with
    storing := nofun
    committing _ _ _ hw := by cases hw }

/-! ### Writes to the bucket -/

/-- A delete: what was written before stays as it was, and the record is gone. -/
theorem Inv.delete (h : Inv s) (gap : Nat) (e : Event)
    (hlatest : latestClaim (e :: s.log) = s.claims)
    (hfenced : Fenced (e :: s.log)) (hresult : Fence.result (e :: s.log) = none) :
    Inv { s with bucket := ⟨s.bucket.nextRev gap, none⟩, log := e :: s.log } :=
  { h with
    written r k hu := by
      obtain ⟨h1, h2⟩ := h.written r k hu
      exact ⟨h1, h2.trans (s.bucket.last_lt_nextRev gap).le⟩
    current := h.under_next gap
    latest := hlatest
    fenced := hfenced
    result := hresult }

/-- A write under the latest claim `k`, which may be the one that makes it the latest. -/
theorem Inv.put (h : Inv s) (gap : Nat) {claims : Nat} (e : Event) (hle : s.claims ≤ claims)
    (hlatest : latestClaim (e :: s.log) = claims) (hfenced : Fenced (e :: s.log))
    (hresult : Fence.result (e :: s.log) = some r) : Inv { s with
      bucket := ⟨s.bucket.nextRev gap, some r⟩
      claims := claims
      under := update s.under (s.bucket.nextRev gap) (some claims)
      log := e :: s.log } :=
  { h with
    number c k hk := (h.number c k hk).trans hle
    written r k hu := by
      rcases update_eq hu with ⟨rfl, hk⟩ | ⟨-, hu⟩
      · cases hk
        exact ⟨le_rfl, le_rfl⟩
      · obtain ⟨h1, h2⟩ := h.written r k hu
        exact ⟨h1.trans hle, h2.trans (s.bucket.last_lt_nextRev gap).le⟩
    grows r r' k k' hu hu' hlt := by
      rcases update_eq hu with ⟨hr, hk⟩ | ⟨-, h1⟩ <;>
        rcases update_eq hu' with ⟨hr', hk'⟩ | ⟨-, h2⟩
      · cases hk; cases hk'; omega
      · -- nothing is written under a claim after the latest
        have := (h.written r' k' h2).1
        cases hk
        omega
      · rw [hr']
        exact (h.written r k h1).2.trans_lt (s.bucket.last_lt_nextRev gap)
      · exact h.grows r r' k k' h1 h2 hlt
    current := by simp
    claimedAt c record rev k hp := h.under_extend gap _ rev k (h.claimedAt c record rev k hp)
    sessions i := (h.sessions i).mono (h.under_extend gap _)
    latest := hlatest
    fenced := hfenced
    result := hresult }

/-- A connection that has a claim is not one that has none. -/
theorem ne_of_claimNo (hold : (s.place c).claimNo = none)
    (hp : s.place c' = q) (hq : q.claimNo = some k) : c' ≠ c := by
  rintro rfl
  rw [hp, hq] at hold
  cases hold

/-- Who has which claim after a claim's own write. -/
theorem claimWritten_claimNo [DecidableEq κ] {b : Kv.Bucket Record}
    (hk : ((s.claimWritten c b r).place c').claimNo = some k) :
    (c' = c ∧ k = s.claims + 1) ∨ (s.place c').claimNo = some k := by
  by_cases hc : c' = c
  · subst hc
    simp only [State.claimWritten, update_self, Place.claimNo, Option.some.injEq] at hk
    exact .inl ⟨rfl, hk.symm⟩
  · exact .inr (by simpa [State.claimWritten, hc] using hk)

/-- The next claim is no connection's yet. -/
theorem Inv.claimNo_ne (h : Inv s) (c : κ) : (s.place c).claimNo ≠ some (s.claims + 1) := by
  intro hk
  have := h.number c _ hk
  omega

/-- A claim's own write. -/
theorem claimWritten_inv [DecidableEq κ] (h : Inv s) (hold : (s.place c).claimNo = none)
    (r : Record) : Inv (s.claimWritten c ⟨s.bucket.nextRev gap, some r⟩ r) := by
  have hput := h.put gap (.claimed (s.claims + 1) r) (Nat.le_succ s.claims) rfl h.fenced rfl
  exact
    { hput with
      number c' k hk := by
        rcases claimWritten_claimNo hk with ⟨-, rfl⟩ | hk
        · exact le_rfl
        · exact hput.number c' k hk
      unique c' c'' k hk hk' := by
        rcases claimWritten_claimNo hk with ⟨hc, he⟩ | h1 <;>
          rcases claimWritten_claimNo hk' with ⟨hc', he'⟩ | h2
        · rw [hc, hc']
        · exact absurd (he ▸ h2) (h.claimNo_ne c'')
        · exact absurd (he' ▸ h1) (h.claimNo_ne c')
        · exact h.unique c' c'' k h1 h2
      claimedAt c' record rev k hp := by
        rcases update_eq hp with ⟨-, he⟩ | ⟨-, hp⟩
        · cases he
          simp [State.claimWritten]
        · exact hput.claimedAt c' record rev k hp
      binder i g hg hle := by
        obtain ⟨c', hp⟩ := h.binder i g hg hle
        have hc := ne_of_claimNo hold hp rfl
        exact ⟨c', by simpa [State.claimWritten, hc] using hp⟩
      boundAs c' i g k hp := by
        rcases update_eq hp with ⟨-, he⟩ | ⟨-, hp⟩
        · cases he
        · exact h.boundAs c' i g k hp }

/-! ### Binding -/

theorem claimOf_bindRecord {g : Nat}
    (hg : g ≤ sess.claimGen) : (bindRecord sess record rev k).claimOf g = sess.claimOf g :=
  update_of_ne (by omega) _ _

/-- `bindRecord` makes a new generation for the claim, which keeps the older ones as they were. -/
theorem Session.Ok.bindRecord (h : sess.Ok under) (hunder : under rev = some k) :
    (bindRecord sess record rev k).Ok under where
  bound _ := rfl
  holds _ := ⟨Nat.succ_pos _, by simpa [Fence.bindRecord, Bound.bindRecord] using hunder⟩
  storing gen record' put rev' hw := by
    obtain ⟨h1, h2, h3⟩ := h.storing gen record' put rev' hw
    rw [claimOf_bindRecord h2]
    exact ⟨h1, Nat.le_succ_of_le h2, h3⟩
  committing gen record' rev' hw := by
    obtain ⟨h1, h2, h3⟩ := h.committing gen record' rev' hw
    rw [claimOf_bindRecord h2]
    exact ⟨h1, Nat.le_succ_of_le h2, h3⟩

/-- The state once claim `k` of `c` is bound to session `i`. -/
def State.bind [DecidableEq κ] (s : State κ) (c : κ) (i : Nat) (record : Record) (rev k : Nat) :
    State κ :=
  (s.setSession i (bindRecord (s.session i) record rev k)).goto c
    (.bound i (bindRecord (s.session i) record rev k).claimGen k)

section Bind

variable [DecidableEq κ] {record : Record} {rev k : Nat} {c' : κ}

/-- Every connection keeps the claim it has. -/
theorem bind_claimNo (hp : s.place c = .claimed record rev k) :
    ((s.bind c i record rev k).place c').claimNo = (s.place c').claimNo := by
  by_cases hc : c' = c
  · subst hc
    simp [State.bind, State.goto, hp, Place.claimNo]
  · simp [State.bind, State.goto, State.setSession, hc]

theorem bind_session_self : (s.bind c i record rev k).session i =
    bindRecord (s.session i) record rev k := by
  simp [State.bind, State.goto, State.setSession]

theorem bind_session_of_ne {j : Nat} (hj : j ≠ i) :
    (s.bind c i record rev k).session j = s.session j := by
  simp [State.bind, State.goto, State.setSession, hj]

theorem bind_inv (h : Inv s) (hp : s.place c = .claimed record rev k) :
    Inv (s.bind c i record rev k) :=
  { h with
    number c' k' hk := h.number c' k' (bind_claimNo hp ▸ hk)
    unique c' c'' k' hk hk' := h.unique c' c'' k' (bind_claimNo hp ▸ hk) (bind_claimNo hp ▸ hk')
    claimedAt c' record' rev' k' hp' := by
      rcases update_eq hp' with ⟨-, he⟩ | ⟨-, hp'⟩
      · cases he
      · exact h.claimedAt c' record' rev' k' hp'
    sessions := forall_setSession ((h.sessions i).bindRecord (h.claimedAt c record rev k hp))
      h.sessions
    binder j g hg hle := by
      have hplace : ∀ c' j g k', s.place c' = .bound j g k' →
          (s.bind c i record rev k).place c' = .bound j g k' := by
        intro c' j g k' hp'
        have hc : c' ≠ c := by
          rintro rfl
          rw [hp] at hp'
          cases hp'
        simpa [State.bind, State.goto, State.setSession, hc] using hp'
      by_cases hj : j = i
      · subst hj
        rw [bind_session_self] at hle ⊢
        by_cases hlast : g = (s.session j).claimGen + 1
        · subst hlast
          exact ⟨c, by simp [State.bind, State.goto, bindRecord, Bound.bindRecord]⟩
        · have hle' : g ≤ (s.session j).claimGen := Nat.lt_succ_iff.mp (hle.lt_of_ne hlast)
          obtain ⟨c', hp'⟩ := h.binder j g hg hle'
          exact ⟨c', claimOf_bindRecord hle' ▸ hplace c' j g _ hp'⟩
      · rw [bind_session_of_ne hj] at hle ⊢
        obtain ⟨c', hp'⟩ := h.binder j g hg hle
        exact ⟨c', hplace c' j g _ hp'⟩
    boundAs c' j g k' hp' := by
      rcases update_eq hp' with ⟨-, he⟩ | ⟨-, hp'⟩
      · cases he
        rw [bind_session_self]
        exact ⟨Nat.succ_pos _, le_rfl, update_self ..⟩
      · obtain ⟨h1, h2, h3⟩ := h.boundAs c' j g k' hp'
        by_cases hj : j = i
        · subst hj
          rw [bind_session_self, claimOf_bindRecord h2]
          exact ⟨h1, Nat.le_succ_of_le h2, h3⟩
        · rw [bind_session_of_ne hj]
          exact ⟨h1, h2, h3⟩ }

end Bind

/-! ### Steps -/

/-- What a step can do. -/
inductive Moves [DecidableEq κ] (s : State κ) (a : Act κ) : State κ → Prop
  | goto {c : κ} {p : Place} (hold : (s.place c).claimNo = none) (hnew : p.claimNo = none) :
    Moves s a (s.goto c p)
  | cleared {c : κ} {p : Place} {gap : Nat} (hold : (s.place c).claimNo = none)
    (hnew : p.claimNo = none) :
    Moves s a ({ s with
      bucket := ⟨s.bucket.nextRev gap, none⟩, log := .cleared :: s.log }.goto c p)
  | claimed {c : κ} {gap : Nat} {r : Record} (hold : (s.place c).claimNo = none) :
    Moves s a (s.claimWritten c ⟨s.bucket.nextRev gap, some r⟩ r)
  | bound {c : κ} {i : Nat} {record : Record} {rev k : Nat}
    (hp : s.place c = .claimed record rev k) (ha : a = .bindRecord c i) :
    Moves s a (s.bind c i record rev k)
  /-- A write begins at the revision the session holds, under the session's own generation. -/
  | begun {i : Nat} {r record : Record} {put : Option Record}
    (hr : (s.session i).record = some r) (hw : (s.session i).write = none) :
    Moves s a (s.setSession i { s.session i with
      write := some (.storing (s.session i).claimGen record put (s.session i).rev) })
  | lost {i gen rev : Nat} {record : Record} {put : Option Record}
    (hw : (s.session i).write = some (.storing gen record put rev)) :
    Moves s a (s.setSession i { s.session i with write := none })
  | put {i gen gap : Nat} {record r : Record}
    (hw : (s.session i).write = some (.storing gen record (some r) s.bucket.last)) :
    Moves s a ({ s with
      bucket := ⟨s.bucket.nextRev gap, some r⟩
      under := update s.under (s.bucket.nextRev gap) (some ((s.session i).claimOf gen))
      log := .wrote ((s.session i).claimOf gen) (some r) :: s.log }.setSession i
        { s.session i with write := some (.committing gen record (s.bucket.nextRev gap)) })
  | deleted {i gen gap : Nat} {record : Record}
    (hw : (s.session i).write = some (.storing gen record none s.bucket.last)) :
    Moves s a ({ s with
      bucket := ⟨s.bucket.nextRev gap, none⟩
      log := .wrote ((s.session i).claimOf gen) none :: s.log }.setSession i
        { s.session i with write := some (.committing gen record s.bucket.last) })
  | committed {i gen rev : Nat} {record : Record}
    (hw : (s.session i).write = some (.committing gen record rev)) :
    Moves s a (s.setSession i (commitRecord (s.session i) gen record rev))

section Moves

variable [DecidableEq κ] {a : Act κ}

theorem tryCreate_moves (hold : (s.place c).claimNo = none) (q : Claim) (attempt gap : Nat) :
    Moves s a (tryCreate s c q attempt gap) := by
  unfold tryCreate
  simp only
  split
  · rename_i b hb
    obtain ⟨-, rfl⟩ := Kv.Bucket.create_eq_some.mp hb
    exact .claimed hold
  · exact .goto hold rfl

theorem claimWrite_moves (hold : (s.place c).claimNo = none) (q : Claim) (attempt gap : Nat)
    (entry : Option (Record × Nat)) : Moves s a (claimWrite s c q attempt gap entry) := by
  unfold claimWrite
  split
  · exact tryCreate_moves hold q attempt gap
  · rename_i r rev
    split
    · split
      · rename_i b hb
        obtain ⟨-, rfl⟩ := Kv.Bucket.delete_eq_some.mp hb
        exact .cleared hold rfl
      · exact .goto hold rfl
    · simp only
      split
      · rename_i b hb
        obtain ⟨-, rfl⟩ := Kv.Bucket.update_eq_some.mp hb
        exact .claimed hold
      · exact .goto hold rfl

theorem storeWrite_moves {gen : Nat} {put : Option Record}
    (hw : (s.session i).write = some (.storing gen record put rev)) (gap : Nat) :
    Moves s a (storeWrite s i gen record put rev gap) := by
  unfold storeWrite
  simp only
  split
  · split
    · rename_i b hb
      obtain ⟨rfl, rfl⟩ := Kv.Bucket.update_eq_some.mp hb
      exact .put hw
    · exact .lost hw
  · split
    · rename_i b hb
      obtain ⟨rfl, rfl⟩ := Kv.Bucket.delete_eq_some.mp hb
      exact .deleted hw
    · exact .lost hw

theorem step_moves (hs : step s a = some t) : Moves s a t := by
  cases a <;> simp only [step] at hs
  case get c q =>
    split at hs
    · rename_i attempt hp
      split at hs <;> cases hs
      exact .goto (by rw [hp]; rfl) rfl
    · cases hs
  case claimWrite c gap =>
    split at hs <;> cases hs
    · rename_i q attempt entry hp
      exact claimWrite_moves (by rw [hp]; rfl) q attempt gap entry
    · rename_i q attempt hp
      exact tryCreate_moves (by rw [hp]; rfl) q attempt gap
  case bindRecord c i =>
    split at hs <;> cases hs
    rename_i record rev k hp
    exact .bound hp rfl
  case snapshot c kind live =>
    split at hs
    · split at hs <;> cases hs
      rename_i r rev hw hsnap
      obtain ⟨hr, rfl, rfl⟩ := Bound.snapshot_eq_some.mp hsnap
      exact .begun hr hw
    · cases hs
  case late i live =>
    split at hs
    · rename_i r hw hr
      split at hs <;> cases hs
      exact .begun hr hw
    · cases hs
  case store i gap =>
    split at hs <;> cases hs
    rename_i gen record put rev hw
    exact storeWrite_moves hw gap
  case commit i =>
    split at hs <;> cases hs
    rename_i gen record rev hw
    exact .committed hw

/-- Every step keeps the invariant, whatever the order. -/
theorem step_inv (h : Inv s) (hs : step s a = some t) : Inv t := by
  cases step_moves hs with
  | goto hold hnew => exact h.goto hold hnew
  | cleared hold hnew => exact (h.delete _ .cleared h.latest h.fenced rfl).goto hold hnew
  | claimed hold => exact claimWritten_inv h hold _
  | bound hp _ => exact bind_inv h hp
  | @begun i r record put hr hw =>
    obtain ⟨hpos, hunder⟩ := (h.sessions i).holds (by rw [hr]; rfl)
    refine h.setSession rfl rfl { h.sessions i with
      storing _ _ _ _ hst := ?_, committing _ _ _ hst := by cases hst }
    cases hst
    exact ⟨hpos, le_rfl, hunder⟩
  | lost hw => exact h.setSession rfl rfl (h.sessions _).clear
  | @put i gen gap record r hw =>
    -- a write of a session goes through only under the latest claim
    obtain ⟨hpos, hle, hunder⟩ := (h.sessions i).storing _ _ _ _ hw
    obtain ⟨-, hk⟩ := h.latest_of_last hunder
    rw [hk]
    have hput := h.put gap (.wrote s.claims (some r)) le_rfl h.latest ⟨h.latest.symm, h.fenced⟩ rfl
    refine hput.setSession rfl rfl { hput.sessions i with
      storing := nofun
      committing _ _ _ hst := ?_ }
    cases hst
    exact ⟨hpos, hle, by simp [hk]⟩
  | @deleted i gen gap record hw =>
    obtain ⟨hpos, hle, hunder⟩ := (h.sessions i).storing _ _ _ _ hw
    obtain ⟨-, hk⟩ := h.latest_of_last hunder
    rw [hk]
    have hdel := h.delete gap (.wrote s.claims none) h.latest ⟨h.latest.symm, h.fenced⟩ rfl
    refine hdel.setSession rfl rfl { hdel.sessions i with
      storing := nofun
      committing _ _ _ hst := ?_ }
    cases hst
    exact ⟨hpos, hle, hunder⟩
  | @committed i gen rev record hw =>
    -- `commitRecord` puts back a revision of the writer's own claim
    obtain ⟨hpos, -, hunder⟩ := (h.sessions i).committing gen record rev hw
    have hok := (h.sessions i).clear
    unfold commitRecord Bound.commitRecord
    split
    · rename_i hgen
      subst hgen
      exact h.setSession rfl rfl { hok with bound _ := rfl, holds _ := ⟨hpos, hunder⟩ }
    · exact h.setSession rfl rfl hok

end Moves

/-- **No write goes through under a superseded claim**, in any order of the steps, and the record is
what the newest write left. -/
theorem writes_fenced [DecidableEq κ] (h : Lts.Reach step Lts.free (State.empty : State κ) s) :
    Fenced s.log ∧ s.bucket.value = result s.log := by
  have hinv : Inv s := h.invariant inv_empty fun _ _ _ hi _ hs => step_inv hi hs
  exact ⟨hinv.fenced, hinv.result.symm⟩

/-! ## The revision the claimant holds -/

/-- The latest claimant's session is at the bucket's revision, or about to commit it. -/
structure Current (s : State κ) : Prop where
  claimed : ∀ c record rev, s.place c = .claimed record rev s.claims →
    s.bucket.value.isSome = true → rev = s.bucket.last
  bound : ∀ c i gen, s.place c = .bound i gen s.claims → (s.session i).claimGen = gen
  commits : ∀ c i gen record rev, s.place c = .bound i gen s.claims →
    (s.session i).write = some (.committing gen record rev) → s.bucket.value.isSome = true →
      rev = s.bucket.last
  holds : ∀ c i gen, s.place c = .bound i gen s.claims → ¬ (s.session i).Committing gen →
    s.bucket.value.isSome = true → (s.session i).rev = s.bucket.last

theorem current_empty : Current (State.empty : State κ) where
  claimed := nofun
  bound := nofun
  commits := nofun
  holds := nofun

/-- A step that leaves the claims, the bucket and every place that has a claim alone, and changes no
session. -/
theorem Current.goto [DecidableEq κ] (h : Current s) (hnew : p.claimNo = none) :
    Current (s.goto c p) where
  claimed c' record rev hp := h.claimed c' record rev (goto_place hnew hp rfl)
  bound c' i gen hp := h.bound c' i gen (goto_place hnew hp rfl)
  commits c' i gen record rev hp := h.commits c' i gen record rev (goto_place hnew hp rfl)
  holds c' i gen hp := h.holds c' i gen (goto_place hnew hp rfl)

/-- Once the record is deleted there is no revision to hold. -/
theorem Current.delete (h : Current s) (gap : Nat) (log : List Event) :
    Current { s with bucket := ⟨s.bucket.nextRev gap, none⟩, log := log } where
  claimed := nofun
  bound := h.bound
  commits := nofun
  holds := nofun

theorem claimWritten_current [DecidableEq κ] (h : Inv s) (r : Record) (gap : Nat) :
    Current (s.claimWritten c ⟨s.bucket.nextRev gap, some r⟩ r) := by
  -- nobody is bound with the new claim yet
  have hnone : ∀ {c' i gen}, (s.claimWritten c ⟨s.bucket.nextRev gap, some r⟩ r).place c' ≠
      .bound i gen (s.claims + 1) := by
    intro c' i gen hp
    rcases update_eq hp with ⟨-, he⟩ | ⟨-, hp⟩
    · cases he
    · exact h.claimNo_ne c' (by rw [hp]; rfl)
  constructor
  case claimed =>
    intro c' record rev hp _
    rcases update_eq hp with ⟨-, he⟩ | ⟨-, hp⟩
    · cases he
      rfl
    · exact absurd (by rw [hp]; rfl) (h.claimNo_ne c')
  case bound => exact fun _ _ _ hp => absurd hp hnone
  case commits => exact fun _ _ _ _ _ hp => absurd hp hnone
  case holds => exact fun _ _ _ hp => absurd hp hnone

/-- Changing a session that stays at its generation: its write and its revision have to be those of
the latest claimant, if that is who it serves. -/
theorem Current.setSession (h : Current s) (hgen : sess.claimGen = (s.session i).claimGen)
    (hcommits : ∀ c gen record rev, s.place c = .bound i gen s.claims →
      sess.write = some (.committing gen record rev) → s.bucket.value.isSome = true →
        rev = s.bucket.last)
    (hholds : ∀ c gen, s.place c = .bound i gen s.claims → ¬ sess.Committing gen →
      s.bucket.value.isSome = true → sess.rev = s.bucket.last) : Current (s.setSession i sess) where
  claimed := h.claimed
  bound c j gen hp := by
    have hg := h.bound c j gen hp
    exact (forall_setSession (P := fun j sess => sess.claimGen = (s.session j).claimGen) hgen
      (fun _ => rfl) j).trans hg
  commits c j gen record rev hp := by
    exact forall_setSession (P := fun j sess => s.place c = .bound j gen s.claims →
      sess.write = some (.committing gen record rev) → s.bucket.value.isSome = true →
        rev = s.bucket.last) (hcommits c gen record rev)
      (fun j hp => h.commits c j gen record rev hp) j hp
  holds c j gen hp := by
    exact forall_setSession (P := fun j sess => s.place c = .bound j gen s.claims →
      ¬ sess.Committing gen → s.bucket.value.isSome = true → sess.rev = s.bucket.last)
      (hholds c gen) (fun j hp => h.holds c j gen hp) j hp

/-- A write that is not in its commit begins or ends. -/
theorem Current.setWrite (h : Current s) {w : Option Write}
    (hold : ∀ gen, ¬ (s.session i).Committing gen)
    (hnew : ∀ gen record rev, w ≠ some (.committing gen record rev)) :
    Current (s.setSession i { s.session i with write := w }) :=
  h.setSession rfl (fun _ gen record rev _ hw => absurd hw (hnew gen record rev))
    fun c gen hp _ => h.holds c i gen hp (hold gen)

theorem not_committing_of_storing
    {put : Option Record} (hw : sess.write = some (.storing gen record put rev)) (g : Nat) :
    ¬ sess.Committing g := by
  rintro ⟨record', rev', hw'⟩
  rw [hw] at hw'
  cases hw'

/-- The writer is the latest claimant, so the revision it is about to commit is the bucket's. -/
theorem put_current (hi : Inv s) (h : Current s)
    (hw : (s.session i).write = some (.storing gen record (some r) s.bucket.last)) (gap : Nat)
    (under : Nat → Option Nat) (log : List Event) : Current ({ s with
      bucket := ⟨s.bucket.nextRev gap, some r⟩, under := under, log := log }.setSession i
        { s.session i with write := some (.committing gen record (s.bucket.nextRev gap)) }) := by
  obtain ⟨hpos, hle, hunder⟩ := (hi.sessions i).storing _ _ _ _ hw
  obtain ⟨-, hk⟩ := hi.latest_of_last hunder
  obtain ⟨d, hd⟩ := hi.binder i gen hpos hle
  rw [hk] at hd
  -- the latest claimant is the connection that bound this generation
  have honly : ∀ c' q, s.place c' = q → q.claimNo = some s.claims → q = .bound i gen s.claims := by
    intro c' q hp hq
    rw [← hp, hi.unique c' d s.claims (by rw [hp, hq]) (by rw [hd]; rfl), hd]
  constructor
  case claimed =>
    intro c' record' rev' hp
    cases honly c' _ hp rfl
  case bound =>
    intro c' j g hp
    cases honly c' _ hp rfl
    simpa [State.setSession] using h.bound c' i gen hp
  case commits =>
    intro c' j g record' rev' hp hw' _
    cases honly c' _ hp rfl
    simp only [State.setSession, update_self, Option.some.injEq,
      Write.committing.injEq] at hw'
    exact hw'.2.2.symm
  case holds =>
    intro c' j g hp hnc _
    cases honly c' _ hp rfl
    exact absurd ⟨record, s.bucket.nextRev gap, by simp [State.setSession]⟩ hnc

theorem commit_current (h : Current s)
    (hw : (s.session i).write = some (.committing gen record rev)) :
    Current (s.setSession i (commitRecord (s.session i) gen record rev)) := by
  refine h.setSession ?_ (fun _ _ _ _ _ hw' => by simp [commitRecord] at hw') ?_
  · unfold commitRecord Bound.commitRecord
    split <;> rfl
  · intro c g hp _ hv
    have hg := h.bound c i g hp
    simp only [commitRecord, Bound.commitRecord]
    split
    · rename_i hgen
      subst hgen
      rw [hg] at hw
      exact h.commits c i g record rev hp hw hv
    · rename_i hgen
      refine h.holds c i g hp ?_ hv
      rintro ⟨record', rev', hw'⟩
      rw [hw] at hw'
      cases hw'
      exact hgen hg.symm

/-- Binding in order: an earlier claim is not bound over the latest one. -/
theorem bind_current [DecidableEq κ] (hi : Inv s) (h : Current s)
    (hp : s.place c = .claimed record rev k)
    (hord : (s.session i).record.isSome = true → (s.session i).rev ≤ rev) :
    Current (s.bind c i record rev k) := by
  have hunder := hi.claimedAt c record rev k hp
  -- a connection bound with the latest claim is another one, on another session
  have hapart : ∀ c' j g, c' ≠ c → s.place c' = .bound j g s.claims → j ≠ i := by
    rintro c' j g hc hp' rfl
    have hkne : k ≠ s.claims := by
      rintro rfl
      exact hc (hi.unique c' c s.claims (by rw [hp']; rfl) (by rw [hp]; rfl))
    have hkle : k ≤ s.claims := hi.number c k (by rw [hp]; rfl)
    obtain ⟨hg0, -, hgof⟩ := hi.boundAs c' j g s.claims hp'
    have hgen := h.bound c' j g hp'
    have hok := hi.sessions j
    have hrec := hok.bound (by omega)
    have hrev := (hok.holds hrec).2
    rw [hgen, hgof] at hrev
    have hlt := hi.grows rev (s.session j).rev k s.claims hunder hrev (by omega)
    have hle := hord hrec
    omega
  constructor
  case claimed =>
    intro c' record' rev' hp' hv
    rcases update_eq hp' with ⟨-, he⟩ | ⟨-, hp'⟩
    · cases he
    · exact h.claimed c' record' rev' hp' hv
  case bound =>
    intro c' j g hp'
    rcases update_eq hp' with ⟨-, he⟩ | ⟨hc, hp'⟩
    · obtain ⟨rfl, rfl, -⟩ := Place.bound.inj he
      rw [bind_session_self]
    · rw [bind_session_of_ne (hapart c' j g hc hp')]
      exact h.bound c' j g hp'
  case commits =>
    intro c' j g record' rev' hp' hw hv
    rcases update_eq hp' with ⟨-, he⟩ | ⟨hc, hp'⟩
    · obtain ⟨rfl, rfl, -⟩ := Place.bound.inj he
      rw [bind_session_self] at hw
      exact absurd ((hi.sessions i).committing _ _ _ hw).2.1 (Nat.not_succ_le_self _)
    · rw [bind_session_of_ne (hapart c' j g hc hp')] at hw
      exact h.commits c' j g record' rev' hp' hw hv
  case holds =>
    intro c' j g hp' hnc hv
    rcases update_eq hp' with ⟨-, he⟩ | ⟨hc, hp'⟩
    · obtain ⟨rfl, rfl, hk⟩ := Place.bound.inj he
      rw [bind_session_self]
      exact h.claimed c record rev (hp.trans (congrArg _ hk)) hv
    · rw [bind_session_of_ne (hapart c' j g hc hp')] at hnc ⊢
      exact h.holds c' j g hp' hnc hv

theorem step_current [DecidableEq κ] (hi : Inv s) (h : Current s) {a : Act κ} (hok : InOrder s a)
    (hs : step s a = some t) : Current t := by
  cases step_moves hs with
  | goto _ hnew => exact h.goto hnew
  | cleared _ hnew => exact (h.delete _ _).goto hnew
  | claimed _ => exact claimWritten_current hi _ _
  | bound hp ha =>
    subst ha
    simp only [InOrder, hp] at hok
    exact bind_current hi h hp hok
  | begun _ hw =>
    refine h.setWrite ?_ (by simp)
    rintro g ⟨record', rev', hw'⟩
    rw [hw] at hw'
    cases hw'
  | lost hw => exact h.setWrite (not_committing_of_storing hw) (by simp)
  | put hw => exact put_current hi h hw _ _ _
  | deleted hw =>
    exact (h.delete _ _).setSession rfl (by simp) (by simp)
  | committed hw => exact commit_current h hw

/-- **Fenced record writes.** In every run whose bindings come in order: no write goes through under
a claim when a later one has been written; the record is what the newest write left, so the result
of the latest claimant's writes; and the session the latest claimant is bound to holds the record's
revision whenever none of the claimant's writes is between store and commit. -/
theorem fenced_record_writes [DecidableEq κ] (s : State κ)
    (h : Lts.Reach step InOrder (State.empty : State κ) s) :
    Fenced s.log ∧ s.bucket.value = result s.log ∧
      ∀ c i gen, s.place c = .bound i gen (latestClaim s.log) →
        ¬ (s.session i).Committing gen → s.bucket.value.isSome = true →
          (s.session i).rev = s.bucket.last := by
  have hinv : ∀ s, Lts.Reach step InOrder (State.empty : State κ) s → Inv s := fun s hr =>
    hr.invariant inv_empty fun _ _ _ hi _ hs => step_inv hi hs
  have hcur : Current s := h.invariant_of hinv current_empty
    fun _ _ _ hi hc hok hs => step_current hi hc hok hs
  obtain ⟨hfenced, hresult⟩ := writes_fenced (h.mono fun _ _ _ => trivial)
  refine ⟨hfenced, hresult, ?_⟩
  rw [(hinv s h).latest]
  exact hcur.holds

/-! ## Connections of one broker -/

/-- A CONNECT to broker 1. -/
def request : Claim := { owner := 1, now := 0 }

/-- Connection 0 serves session 0 and stores a subscription; connection 1 takes it over. -/
def orderedRun : List (Act Nat) :=
  [.get 0 request, .claimWrite 0 0, .bindRecord 0 0,
    .snapshot 0 .persist { subscriptions := [{ filter := "a" }] }, .store 0 0, .commit 0,
    .get 1 request, .claimWrite 1 0, .bindRecord 1 0]

/-- Connections 1 and 2 both take session 0 over. Claim 2 is written after claim 1 and bound before
it. -/
def boundLateRun : List (Act Nat) :=
  [.get 0 request, .claimWrite 0 0, .bindRecord 0 0,
    .get 1 request, .claimWrite 1 0, .get 2 request, .claimWrite 2 0,
    .bindRecord 2 0, .bindRecord 1 0]

theorem fenced_record_writes_ordered :
    ∃ s : State Nat, Lts.Reach step InOrder State.empty s ∧ Fenced s.log ∧
      (s.session 0).rev = s.bucket.last := by
  obtain ⟨s, hreach, hs⟩ := Lts.reach_of_exec_any step InOrder State.empty orderedRun
    (fun s => decide (s.place 1 = .bound 0 2 (latestClaim s.log) ∧ (s.session 0).write = none ∧
      s.bucket.value.isSome = true)) (by decide)
  obtain ⟨hp, hw, hv⟩ := of_decide_eq_true hs
  obtain ⟨hfenced, -, hrev⟩ := fenced_record_writes s hreach
  refine ⟨s, hreach, hfenced, hrev 1 0 2 hp ?_ hv⟩
  rintro ⟨record, rev, hw'⟩
  rw [hw] at hw'
  cases hw'

/-- Bound in the other order, the latest claimant's session is at the revision of the claim before,
with no write under way. -/
theorem claim_bound_late :
    ∃ s : State Nat, Lts.Reach step Lts.free State.empty s ∧
      s.place 2 = .bound 0 2 (latestClaim s.log) ∧ (s.session 0).write = none ∧
      s.bucket.value.isSome = true ∧ (s.session 0).rev ≠ s.bucket.last := by
  exact Lts.exists_reach boundLateRun (by decide)

end Natsmqtt5.Store.Fence
