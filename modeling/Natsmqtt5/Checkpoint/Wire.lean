import Natsmqtt5.Checkpoint.Needs

/-!
# The record comes before the wire

A new QoS 2 PUBLISH goes out after `recordQoS2`, and a PUBREL that answers a PUBREC after
`drainPubrels` has had the record written. Both count first and then call `checkpointSession`: if
that returns early, the mark is at least their own count, so that the record was written by someone
who loaded the counter after it and so read the entries after they were tracked.

Results:
* `record_before_wire`: in every run whose record writes succeed, at the moment a new QoS 2 PUBLISH
  is written the record lists its entry, if it is still in flight, and its id among the delivered
  ones, if it was noted within the rewind and the skew; and at the moment a PUBREL is written the
  record lists the identifier with `Rel`, if the exchange is not over.
* `record_without_id`: a PUBLISH whose record came later than that, and does not list the id.
-/

namespace Natsmqtt5.Checkpoint

variable {μ θ : Type} {cfg : Config}

/-! ## The invariant -/

/-- What every reached state has. -/
structure Recorded (cfg : Config) (st : State μ θ) : Prop where
  owned : Owned st
  counted : st.ledger.Counted
  numbered : st.session.Numbered
  queue : st.queue = true
  position : st.session.position.Before cfg st.session.now
  writer : ∀ w, st.ledger.writer = some w → .position ∉ w.todo ∧
    (.delivered ∈ w.todo → (w.draft .position).Before cfg st.session.now)
  calls : ∀ t, CallOk cfg st.ledger (st.calls t)
  rels : ∀ r ∈ st.relIDs, ∀ n ∈ r.needs, n.Source cfg st.session

theorem After.call_needs (k : After μ) : k.call.needs = k.needs := by
  cases k with
  | idle | sending | queueing | releasing => rfl

/-- Without a QoS 2 message there is nothing to record. -/
theorem needs_eq_nil {ready : List (Prepared μ)} (h : (ready.any fun p => p.o.qos2) = false) :
    ready.flatMap Prepared.needs = [] := by
  rw [List.flatMap_eq_nil_iff]
  intro p hp
  have hq : p.o.qos2 = false := by simpa using List.any_eq_false.mp h p hp
  simp [Prepared.needs, hq]

/-- What is left to do after a checkpoint. -/
theorem CallOk.after {l : Ledger (Session μ) Nat (Value μ)} {k : After μ}
    (hsrc : ∀ n ∈ k.needs, n.Source cfg l.source)
    (hhas : k.call.sends = true → ∀ n ∈ k.needs, Has cfg l n) : CallOk cfg l k.call := by
  refine ⟨k.call_needs ▸ hsrc, ?_⟩
  cases k with
  | idle | queueing r => trivial
  | sending ready | releasing rels => exact hhas rfl

variable {st st' : State μ θ} {t : θ} [DecidableEq θ]

namespace Recorded

omit [DecidableEq θ] in
theorem start {s : Session μ} (hs : s.Numbered) (r : ∀ i, Value μ i) :
    Recorded cfg (State.start s r true : State μ θ) where
  owned := .start s r true
  counted := .of_none rfl rfl
  numbered := ⟨hs.le, hs.ids⟩
  queue := rfl
  position := .inl rfl
  writer := nofun
  calls _ := ⟨List.forall_mem_nil _, trivial⟩
  rels := List.forall_mem_nil _

variable {l : Ledger (Session μ) Nat (Value μ)} {rels : List Rel} {c : Call μ} {s : Session μ}
  {w : Ledger.Writer Nat (Value μ)}

/-- Call `t` moves to `c`, and the ledger with it. -/
theorem next (h : Recorded cfg st) (hs : Follows cfg st.session l.source)
    (he : Evolves cfg st.ledger l) (hcount : l.Counted)
    (hwriter : ∀ w, l.writer = some w → .position ∉ w.todo ∧
      (.delivered ∈ w.todo → (w.draft .position).Before cfg l.source.now))
    (hsame : ∀ u, u ≠ t → (∃ k, st.calls u = .writing k) → SameStamp st.ledger l)
    (hrels : ∀ r ∈ rels, r ∈ st.relIDs ∨ ∀ n ∈ r.needs, n.Source cfg l.source)
    (ho : Owned ({ st with ledger := l, relIDs := rels }.setCall t c)) (hnew : CallOk cfg l c) :
    Recorded cfg ({ st with ledger := l, relIDs := rels }.setCall t c) where
  owned := ho
  counted := hcount
  numbered := hs.numbered h.numbered
  queue := h.queue
  position := hs.position h.position
  writer := hwriter
  calls u := by
    by_cases hut : u = t
    · rw [hut, Owned.setCall_self]
      exact hnew
    · rw [Owned.setCall_of_ne hut]
      exact (h.calls u).evolves he (hsame u hut)
  rels r hr n hn := (hrels r hr).elim (fun hr => he.source n (h.rels r hr n hn)) fun hs => hs n hn

omit [DecidableEq θ] in
theorem writer_follows (h : Recorded cfg st) (hs : Follows cfg st.session s) :
    ∀ w, st.ledger.writer = some w → .position ∉ w.todo ∧
      (.delivered ∈ w.todo → (w.draft .position).Before cfg s.now) := by
  intro w hw
  exact ⟨(h.writer w hw).1, fun hd => ((h.writer w hw).2 hd).imp_right fun hle => hle.trans hs.now⟩

/-- Only a call moves, with the PUBRELs to send. -/
theorem queued (h : Recorded cfg st)
    (hrels : ∀ r ∈ rels, r ∈ st.relIDs ∨ ∀ n ∈ r.needs, n.Source cfg st.session)
    (ho : Owned ({ st with relIDs := rels }.setCall t c)) (hnew : CallOk cfg st.ledger c) :
    Recorded cfg ({ st with relIDs := rels }.setCall t c) :=
  h.next (.refl _) (.refl _) h.counted h.writer (fun _ _ _ w _ hw hx => ⟨w, hw, hx⟩) hrels ho hnew

theorem moved (h : Recorded cfg st) (ho : Owned (st.setCall t c))
    (hnew : CallOk cfg st.ledger c) : Recorded cfg (st.setCall t c) :=
  h.queued (fun _ => .inl) ho hnew

/-- A call moves with a change of the session. -/
theorem changed (h : Recorded cfg st) (hs : Follows cfg st.session s)
    (ho : Owned ((st.change s).setCall t c)) (hnew : CallOk cfg (st.ledger.change s) c) :
    Recorded cfg ((st.change s).setCall t c) :=
  h.next hs (.change hs) h.counted.change (h.writer_follows hs)
    (fun _ _ _ w _ hw hx => ⟨w, hw, hx⟩) (fun _ => .inl) ho hnew

omit [DecidableEq θ] in
/-- The session changes by itself. -/
theorem session (h : Recorded cfg st) (hs : Follows cfg st.session s)
    (ho : Owned (st.change s)) : Recorded cfg (st.change s) where
  owned := ho
  counted := h.counted.change
  numbered := hs.numbered h.numbered
  queue := h.queue
  position := hs.position h.position
  writer := h.writer_follows hs
  calls u := (h.calls u).evolves (.change hs) fun _ w _ hw hx => ⟨w, hw, hx⟩
  rels r hr n hn := (h.rels r hr n hn).follows hs

theorem bumped (h : Recorded cfg st) (ho : Owned (st.bump.setCall t c))
    (hnew : CallOk cfg st.ledger.bump c) : Recorded cfg (st.bump.setCall t c) :=
  h.next (.refl _) (.bump _) h.counted.bump h.writer (fun _ _ _ w _ hw hx => ⟨w, hw, hx⟩)
    (fun _ => .inl) ho hnew

/-- A checkpoint begins. -/
theorem started (h : Recorded cfg st) (hfree : st.ledger.writer = none)
    (hw : (w.stamp ≠ none ∧ .inflight ∈ w.todo ∧ .delivered ∈ w.todo) ∨
      w.stamp = none ∧ w.draft = st.ledger.record)
    (hstamp : ∀ n x, w.stamp = some (n, x) → n ≤ st.ledger.count)
    (hpos : .position ∉ w.todo ∧
      (.delivered ∈ w.todo → (w.draft .position).Before cfg st.session.now))
    (ho : Owned ((st.startWriter w).setCall t c))
    (hnew : CallOk cfg (st.ledger.start w) c) :
    Recorded cfg ((st.startWriter w).setCall t c) := by
  refine h.next (.refl _) (.start hw) (h.counted.start hstamp) (fun w' hw' => ?_)
    (fun u _ hu => ?_) (fun _ => .inl) ho hnew
  · cases hw'
    exact hpos
  · -- nobody else holds `persistMu`
    obtain ⟨k, hk⟩ := hu
    obtain ⟨w', hw', -⟩ := h.owned.writer u true (by rw [hk]; rfl)
    rw [hfree] at hw'
    contradiction

omit [DecidableEq θ] in
/-- The writer reads its next part. -/
theorem read (h : Recorded cfg st) (hw : st.ledger.writer = some w) {j : Part}
    {todo : List Part} (htodo : w.todo = j :: todo) :
    Recorded cfg (st.read w j todo) := by
  obtain ⟨hnot, hlate⟩ := h.writer w hw
  have hj : j ≠ .position := by
    rintro rfl
    rw [htodo] at hnot
    exact hnot List.mem_cons_self
  have he : Evolves cfg st.ledger (st.read w j todo).ledger := by
    refine .read hw htodo hj fun hd => hlate ?_
    rw [htodo, ← hd]
    exact List.mem_cons_self
  have hsame : SameStamp st.ledger (st.read w j todo).ledger := by
    intro w' x hw' hx
    cases hw'
    exact ⟨w, hw, hx⟩
  exact { owned := h.owned.read hw j todo
          counted := h.counted.read hw j _ todo
          numbered := h.numbered
          queue := h.queue
          position := h.position
          writer := by
            intro w' hw'
            cases hw'
            rw [htodo] at hnot hlate
            refine ⟨fun hp => hnot (List.mem_cons_of_mem _ hp), fun hd => ?_⟩
            change (Function.update w.draft j (get j st.session) .position).Before cfg _
            rw [Function.update_of_ne hj.symm]
            exact hlate (List.mem_cons_of_mem _ hd)
          calls := fun u => (h.calls u).evolves he fun _ => hsame
          rels := h.rels }

/-- The writer is done. -/
theorem finished (h : Recorded cfg st) (hw : st.ledger.writer = some w) (htodo : w.todo = [])
    {r : ∀ i, Value μ i}
    (hr : ∀ n : Need μ, n.Met cfg st.session w.draft → n.Met cfg st.session r)
    {m : Option (Nat × Nat)} (hm : m = none ∨ m = w.stamp ∨ w.stamp = none ∧ m = st.ledger.mark)
    (ho : Owned ((st.finish r m).setCall t c))
    (hnew : CallOk cfg (st.ledger.finish r m) c) :
    Recorded cfg ((st.finish r m).setCall t c) := by
  refine h.next (.refl _) (.finish hw htodo hr hm) (.finish fun n x hx => ?_)
    nofun nofun (fun _ => .inl) ho hnew
  rcases hm with rfl | rfl | ⟨-, rfl⟩
  · contradiction
  · exact h.counted.stamp w n x hw hx
  · exact h.counted.mark n x hx

end Recorded

/-! ## Steps keep the invariant -/

variable {s : Session μ}

/-- The entry that was just tracked is the one with its place. -/
theorem source_trackInflight (hn : s.Numbered) (o : Outbound) (hq : o.queueSeq ≠ 0) :
    (Need.flight o.packetID (s.sendSeq + 1) false : Need μ).Source cfg (s.trackInflight o) := by
  refine ⟨Nat.le_refl _, fun o' ho' hseq => ?_⟩
  rcases (Keyed.mem_put Outbound.packetID).mp ho' with ⟨hmem, -⟩ | rfl
  · exact absurd (hseq ▸ hn.le o' hmem) (Nat.not_succ_le_self _)
  · exact ⟨rfl, .inr hq, fun h => absurd h Bool.false_ne_true⟩

/-- The entry that was just marked is past its PUBREC. -/
theorem source_awaitPubcomp (hn : s.Numbered) {id : Nat} {o : Outbound} (ho : s.entry id = some o) :
    (Need.flight id o.seq true : Need μ).Source cfg (s.awaitPubcomp id) := by
  have hmem : o ∈ s.inflight := Keyed.mem_of_find _ ho
  have hid : o.packetID = id := Keyed.key_of_find _ ho
  refine ⟨hn.le o hmem, fun o' ho' hseq => ?_⟩
  obtain ⟨x, hx, rfl⟩ := List.mem_map.mp ho'
  have hxid : x.packetID = id := by
    refine (hn.ids x hx o hmem ?_).trans hid
    rw [← hseq]
    split
    · rfl
    · rfl
  rw [if_pos hxid]
  exact ⟨hxid, .inl rfl, fun _ => rfl⟩

variable [DecidableEq μ] {cfg : Config}

/-- Record writes succeed and leave nothing out, and every QoS 2 message has a queue copy. -/
def WritesSucceed (_ : State μ θ) : Act μ θ → Prop
  | .run _ ch => ch.fails = false ∧ ch.cut = {}
  | .prepare _ d _ => d.qos2 = true → max d.seq d.recordSeq ≠ 0
  | _ => True

theorem run_recorded {ch : Choice μ} (h : Recorded cfg st) {c : Call μ}
    (hc : st.calls t = c) (hfails : ch.fails = false) (hcut : ch.cut = {})
    (hs : c.run cfg st t ch = some st') : Recorded cfg st' := by
  have ho : Owned st' := run_owned h.owned hc hs
  obtain ⟨hsrc, hstage⟩ : CallOk cfg st.ledger c := hc ▸ h.calls t
  cases c with
  | idle | gathering ready => exact absurd hs.symm (Option.some_ne_none st')
  | tracking p ready =>
    cases hs
    have hf : Follows cfg st.session (st.session.trackInflight p.o) := .trackInflight _ _
    refine h.changed hf ho ⟨fun n hn => ?_, trivial⟩
    rcases List.mem_append.mp hn with hn | hn
    · split at hn
      · rename_i hq2
        obtain rfl := List.mem_singleton.mp hn
        exact source_trackInflight h.numbered p.o (hstage hq2)
      · exact absurd hn List.not_mem_nil
    · exact (hsrc n hn).follows hf
  | noting p ready =>
    have hflight : p.o.qos2 = true →
        (Need.flight p.o.packetID p.o.seq false).Source cfg st.session := by
      intro hq2
      refine hsrc _ (List.mem_append_left _ ?_)
      rw [if_pos hq2]
      exact List.mem_cons_self
    simp only [Call.run] at hs
    split at hs <;> cases hs
    · rename_i id hid _
      have hf : Follows cfg st.session
          (st.session.noteDelivered cfg.window id p.d.seq ch.pruned ch.drop) := .noteDelivered ..
      refine h.changed hf ho ⟨fun n hn => ?_, trivial⟩
      simp only [Call.needs, List.flatMap_append, List.flatMap_cons, List.flatMap_nil,
        List.append_nil, List.mem_append] at hn
      rcases hn with hn | hn
      · exact (hsrc n (List.mem_append_right _ hn)).follows hf
      · unfold Prepared.needs at hn
        split at hn
        · rename_i hq2
          rcases List.mem_cons.mp hn with rfl | hn
          · exact (hflight hq2).follows hf
          · simp only [hid, Option.map_some, Option.toList_some, List.mem_singleton] at hn
            rw [hn]
            exact noted_noteDelivered ..
        · exact absurd hn List.not_mem_nil
    · rename_i hno
      have hid : p.d.id = none := by
        cases hd : p.d.id with
        | none => rfl
        | some id => exact (hno id hd h.queue).elim
      refine h.moved ho ⟨fun n hn => ?_, trivial⟩
      simp only [Call.needs, List.flatMap_append, List.flatMap_cons, List.flatMap_nil,
        List.append_nil, List.mem_append] at hn
      rcases hn with hn | hn
      · exact hsrc n (List.mem_append_right _ hn)
      · unfold Prepared.needs at hn
        split at hn
        · rename_i hq2
          rw [hid] at hn
          obtain rfl := List.mem_singleton.mp hn
          exact hflight hq2
        · exact absurd hn List.not_mem_nil
  | sending ready =>
    cases ready with
    | nil =>
      cases hs
      exact h.moved ho ⟨List.forall_mem_nil _, trivial⟩
    | cons p ready =>
      cases hs
      have hsub : ∀ n ∈ ready.flatMap Prepared.needs, n ∈ (p :: ready).flatMap Prepared.needs :=
        fun n hn => List.mem_append_right _ hn
      refine h.moved ho ?_
      split <;> exact ⟨fun n hn => hsrc n (hsub n hn), fun n hn => hstage n (hsub n hn)⟩
  | discarding p ready =>
    cases hs
    have hf : Follows cfg st.session (st.session.completeInflight p.o.packetID false) :=
      .completeInflight ..
    exact h.changed hf ho ⟨fun n hn => (hsrc n hn).follows hf,
      fun n hn => (Evolves.change hf).has n (hsrc n hn) (hstage n hn)⟩
  | awaiting id =>
    cases hs
    refine h.changed (.awaitPubcomp ..) ho ⟨fun n hn => ?_, .inr rfl⟩
    simp only [Call.needs, After.needs, Rel.needs, Option.mem_toList, Option.map_map,
      Option.map_eq_some_iff] at hn
    obtain ⟨o, hentry, rfl⟩ := hn
    exact source_awaitPubcomp h.numbered hentry
  | queueing r =>
    cases hs
    refine h.queued (fun r' hr' => ?_) ho ⟨List.forall_mem_nil _, trivial⟩
    rcases List.mem_append.mp hr' with hr' | hr'
    · exact .inl hr'
    · obtain rfl := List.mem_singleton.mp hr'
      exact .inr hsrc
  | releasing rels =>
    cases rels with
    | nil =>
      cases hs
      exact h.moved ho ⟨List.forall_mem_nil _, trivial⟩
    | cons r rels =>
      cases hs
      have hsub : ∀ n : Need μ, n ∈ rels.flatMap Rel.needs → n ∈ (r :: rels).flatMap Rel.needs :=
        fun n hn => List.mem_append_right _ hn
      have hf : Follows cfg st.session (st.session.settleOwned r.id) := .settleOwned ..
      exact h.changed hf ho ⟨fun n hn => (hsrc n (hsub n hn)).follows hf,
        fun n hn => (Evolves.change hf).has n (hsrc n (hsub n hn)) (hstage n (hsub n hn))⟩
  | bumping checkpoint k =>
    cases hs
    refine h.bumped ho ?_
    split
    · exact ⟨hsrc, st.ledger.count + 1, Nat.le_refl _, fun _ _ => Ledger.Seen.bump h.counted⟩
    · rename_i hnot
      refine .after hsrc fun hsend => ?_
      rcases hstage with hcp | hk
      · exact absurd hcp hnot
      · rw [hk] at hsend
        exact absurd hsend Bool.false_ne_true
  | checkpointing k =>
    obtain ⟨β, hβ, hsees⟩ := hstage
    simp only [Call.run, Option.ite_none_right_eq_some] at hs
    obtain ⟨hfree, hs⟩ := hs
    have hfree : st.ledger.writer = none := Option.isNone_iff_eq_none.mp hfree
    split at hs <;> cases hs
    · rename_i hskip
      -- the early return: whoever wrote the record loaded the counter after this call's count
      simp only [State.skips, Bool.and_eq_true, decide_eq_true_eq] at hskip
      refine h.moved ho (.after hsrc fun _ n hn => ?_)
      exact Ledger.Seen.kept_of_mark (hsees n hn) hskip.1 hβ hfree
    · have hw : (st.checkpointer.stamp ≠ none ∧ .inflight ∈ st.checkpointer.todo ∧
          .delivered ∈ st.checkpointer.todo) ∨
          st.checkpointer.stamp = none ∧ st.checkpointer.draft = st.ledger.record := by
        refine .inl ⟨Option.some_ne_none _, ?_, ?_⟩
        · simp [State.checkpointer, State.reads, h.queue]
        · simp [State.checkpointer, State.reads, h.queue]
      refine h.started hfree hw (fun n x hx => ?_) ⟨?_, fun _ => ?_⟩ ho
        ⟨hsrc, β, fun w x y hw' hx => ?_, fun n hn => ?_⟩
      · cases hx
        exact Nat.le_refl _
      · simp [State.checkpointer, State.reads, h.queue]
      · simp only [State.checkpointer, h.queue, if_true, Function.update_self]
        exact h.position
      · cases hw'
        cases hx
        exact hβ
      · exact (Evolves.start hw).sees n β (hsrc n hn) (hsees n hn)
  | writing k =>
    obtain ⟨β, hβ, hsees⟩ := hstage
    obtain ⟨w, hw, hstamp⟩ := h.owned.writer t true (by rw [hc]; rfl)
    obtain ⟨⟨x, y⟩, hxy⟩ := Option.isSome_iff_exists.mp hstamp
    simp only [Call.run, hw] at hs
    split at hs
    · rename_i htodo
      cases hs
      exact h.read hw htodo
    · rename_i htodo
      rw [hfails, hcut] at hs
      simp only [Bool.false_eq_true, if_false, cut_apply_empty] at hs
      have hd : ∀ n : Need μ, ∀ i ∈ n.deps, i ∉ w.todo := by
        intro n i _
        rw [htodo]
        exact List.not_mem_nil
      split at hs <;> cases hs
      · refine h.finished hw htodo (fun _ hm => hm) (.inr (.inl rfl)) ho
          (.after hsrc fun _ n hn => ?_)
        exact Ledger.Seen.kept_finish (hsees n hn) hw hxy (hβ w x y hw hxy) (hd n) fun hm => hm
      · refine h.finished hw htodo (fun _ hm => Need.met_withoutStored _ hm) (.inl rfl) ho
          (.after hsrc fun _ n hn => ?_)
        exact Ledger.Seen.kept_finish (hsees n hn) hw hxy (hβ w x y hw hxy) (hd n)
          fun hm => Need.met_withoutStored _ hm
  | persisting =>
    simp only [Call.run, Option.ite_none_right_eq_some] at hs
    obtain ⟨hfree, hs⟩ := hs
    cases hs
    refine h.started (Option.isNone_iff_eq_none.mp hfree) (.inr ⟨rfl, rfl⟩)
      (by rintro _ _ ⟨⟩) ⟨?_, fun hd => absurd hd ?_⟩ ho
      ⟨List.forall_mem_nil _, trivial⟩
    · simp [State.persister]
    · simp [State.persister]
  | saving =>
    obtain ⟨w, hw, hstamp⟩ := h.owned.writer t false (by rw [hc]; rfl)
    simp only [Call.run, hw] at hs
    split at hs
    · rename_i htodo
      cases hs
      exact h.read hw htodo
    · rename_i htodo
      rw [hfails] at hs
      simp only [Bool.false_eq_true, if_false] at hs
      cases hs
      exact h.finished hw htodo (fun _ hm => hm) (.inr (.inr ⟨by simpa using hstamp, rfl⟩)) ho
        ⟨List.forall_mem_nil _, trivial⟩

theorem step_recorded {a : Act μ θ} (h : Recorded cfg st) (hok : WritesSucceed st a)
    (hs : step cfg st a = some st') : Recorded cfg st' := by
  have ho : Owned st' := step_owned h.owned hs
  cases a <;> simp only [step] at hs
  case tick dt =>
    cases hs
    exact h.session (.tick ..) ho
  case moves p =>
    simp only [Option.ite_none_right_eq_some] at hs
    obtain ⟨hp, hs⟩ := hs
    cases hs
    exact h.session (.of_eq rfl rfl rfl (fun _ => .inr hp) rfl) ho
  case queueUp =>
    cases hs
    exact { h with owned := ho, queue := rfl }
  case event t e =>
    obtain ⟨-, rfl⟩ := State.begin_eq_some.mp hs
    refine h.changed (e.follows _) ho ?_
    cases e with
    | acknowledged | awaited | forwarded | released | scanned =>
      exact ⟨List.forall_mem_nil _, .inr rfl⟩
    | _ => exact ⟨List.forall_mem_nil _, trivial⟩
  case deliver t | persist t =>
    obtain ⟨-, rfl⟩ := State.begin_eq_some.mp hs
    exact h.moved ho ⟨List.forall_mem_nil _, trivial⟩
  case checkpoint t =>
    obtain ⟨-, rfl⟩ := State.begin_eq_some.mp hs
    exact h.moved ho ⟨List.forall_mem_nil _, 0, Nat.zero_le _, List.forall_mem_nil _⟩
  case prepare t d packetID =>
    split at hs
    · rename_i ready hc
      simp only [Option.ite_none_right_eq_some] at hs
      obtain ⟨-, hs⟩ := hs
      cases hs
      have hsrc := (h.calls t).source
      rw [hc] at hsrc
      exact h.bumped ho ⟨hsrc, hok⟩
    · contradiction
  case flush t =>
    split at hs <;> cases hs
    rename_i ready hc
    have hsrc := (h.calls t).source
    rw [hc] at hsrc
    refine h.moved ho ?_
    split
    · exact ⟨hsrc, .inl rfl⟩
    · rename_i hany
      refine ⟨hsrc, ?_⟩
      have hnil : ready.flatMap Prepared.needs = [] := needs_eq_nil (by simpa using hany)
      exact fun n hn => absurd (hnil ▸ hn) List.not_mem_nil
  case pubrec t id =>
    simp only [Option.ite_none_right_eq_some] at hs
    obtain ⟨-, rfl⟩ := State.begin_eq_some.mp hs.2
    exact h.moved ho ⟨List.forall_mem_nil _, trivial⟩
  case drain t =>
    split at hs
    · contradiction
    · obtain ⟨-, rfl⟩ := State.begin_eq_some.mp hs
      refine h.queued (List.forall_mem_nil _) ho ⟨fun n hn => ?_, .inl rfl⟩
      obtain ⟨r, hr, hn⟩ := List.mem_flatMap.mp hn
      exact h.rels r hr n hn
  case run t ch => exact run_recorded h rfl hok.1 hok.2 hs

/-! ## What is on the record when a packet goes out -/

/-- In every run whose record writes succeed: when a new QoS 2 PUBLISH is written, the record lists
its entry under its identifier, unless the entry has left the in-flight messages, and lists its id
as delivered, unless it was noted longer ago than the rewind and the skew; and when the PUBREL for a
PUBREC is written, the record lists the identifier with `Rel`, unless the exchange is over. -/
theorem record_before_wire {s : Session μ} (hs : s.Numbered) (r : ∀ i, Value μ i)
    (h : Lts.Reach (step cfg) WritesSucceed (State.start s r true : State μ θ) st) :
    (∀ t p, st.writes t = some (.publish p) → p.o.qos2 = true →
      ((∃ x ∈ st.ledger.record .inflight, x.id = p.o.packetID ∧ x.seq = p.o.seq) ∨
        ∀ o ∈ st.session.inflight, o.seq ≠ p.o.seq) ∧
      ∀ id, p.d.id = some id →
        (∃ m ∈ listed cfg.window (st.ledger.record .position) (st.ledger.record .delivered),
          m.id = id) ∨ p.notedAt + cfg.remembered < st.session.now) ∧
    ∀ t rel seq, st.writes t = some (.pubrel rel) → rel.seq = some seq →
      (∃ x ∈ st.ledger.record .inflight, x.id = rel.id ∧ x.seq = seq ∧ x.rel = true) ∨
        ∀ o ∈ st.session.inflight, o.seq ≠ seq := by
  have hi : Recorded cfg st :=
    h.invariant (Recorded.start hs r) fun _ _ _ hr hok => step_recorded hr hok
  refine ⟨fun t p hw hq2 => ?_, fun t rel seq hw hseq => ?_⟩
  · unfold State.writes at hw
    split at hw
    · rename_i p' ready hc
      obtain rfl : p' = p := by simpa using hw
      have hhas : ∀ n ∈ (p' :: ready).flatMap Prepared.needs, Has cfg st.ledger n := by
        have hstage := (hi.calls t).stage
        rw [hc] at hstage
        exact hstage
      have hneeds : ∀ n ∈ p'.needs, Has cfg st.ledger n :=
        fun n hn => hhas n (List.mem_append_left _ hn)
      unfold Prepared.needs at hneeds
      rw [if_pos hq2] at hneeds
      constructor
      · refine (hneeds _ List.mem_cons_self).record.imp_left ?_
        rintro ⟨x, hx, hxseq, hxid, -⟩
        exact ⟨x, hx, hxid, hxseq⟩
      · intro id hid
        refine (hneeds (.noted id p'.notedAt) (List.mem_cons_of_mem _ ?_)).record
        simp [hid]
    · cases hw
    · contradiction
  · unfold State.writes at hw
    split at hw
    · cases hw
    · rename_i r' rels hc
      obtain rfl : r' = rel := by simpa using hw
      have hhas : ∀ n ∈ (r' :: rels).flatMap Rel.needs, Has cfg st.ledger n := by
        have hstage := (hi.calls t).stage
        rw [hc] at hstage
        exact hstage
      have hneed : (Need.flight r'.id seq true : Need μ) ∈ r'.needs := by simp [Rel.needs, hseq]
      refine (hhas _ (List.mem_append_left _ hneed)).record.imp_left ?_
      rintro ⟨x, hx, hxseq, hxid, -, hrel⟩
      exact ⟨x, hx, hxid, hxseq, hrel rfl⟩
    · contradiction

instance (st : State μ θ) (a : Act μ θ) : Decidable (WritesSucceed st a) :=
  match a with
  | .run _ ch => inferInstanceAs (Decidable (ch.fails = false ∧ ch.cut = {}))
  | .prepare _ d _ => inferInstanceAs (Decidable (d.qos2 = true → max d.seq d.recordSeq ≠ 0))
  | .tick _ | .moves _ | .queueUp | .event _ _ | .deliver _ | .flush _ | .pubrec _ _ | .drain _
  | .checkpoint _ | .persist _ => .isTrue trivial

/-- A new session, with a record of it. -/
def fresh : State Bool Unit := State.start {} (fun i => get i {}) true

/-- Two QoS 2 messages are prepared; `dt` passes before their record is written. -/
def burst (dt : Nat) : List (Act Bool Unit) :=
  [.deliver (), .prepare () { id := some true, qos2 := true, seq := 5 } 1, .run () {}, .run () {},
    .prepare () { id := some false, qos2 := true, seq := 6 } 2, .run () {}, .run () {},
    .tick (1 + dt), .moves ⟨6, dt⟩, .flush ()] ++ List.replicate 8 (.run () {})

/-- The first of them is about to be written. -/
def State.sendsFirst (st : State Bool Unit) : Bool :=
  match st.calls () with
  | .sending (p :: _) => p.o.qos2 && p.d.id == some true && st.session.inflight.any fun o =>
      o.seq == p.o.seq
  | _ => false

theorem sendsFirst_writes {st : State Bool Unit} (h : st.sendsFirst = true) :
    ∃ p, st.writes () = some (.publish p) ∧ p.o.qos2 = true ∧ p.d.id = some true ∧
      ∃ o ∈ st.session.inflight, o.seq = p.o.seq := by
  unfold State.sendsFirst at h
  split at h
  · rename_i p _ hc
    simp only [Bool.and_eq_true, beq_iff_eq, List.any_eq_true] at h
    refine ⟨p, ?_, h.1.1, h.1.2, h.2⟩
    simp [State.writes, hc]
  · contradiction

theorem record_before_wire_burst :
    ∃ st, Lts.Reach (step ⟨1, 2⟩) WritesSucceed fresh st ∧ ∃ p, st.writes () = some (.publish p) ∧
      p.d.id = some true ∧ ((∃ x ∈ st.ledger.record .inflight, x.id = p.o.packetID ∧
        x.seq = p.o.seq) ∨ ∀ o ∈ st.session.inflight, o.seq ≠ p.o.seq) := by
  obtain ⟨st, hr, hs⟩ := Lts.reach_of_exec_any (step ⟨1, 2⟩) WritesSucceed fresh (burst 0)
    State.sendsFirst (by decide)
  obtain ⟨p, hw, hq2, hid, -⟩ := sendsFirst_writes hs
  have hnum : ({} : Session Bool).Numbered := ⟨List.forall_mem_nil _, List.forall_mem_nil _⟩
  exact ⟨st, hr, p, hw, hid, ((record_before_wire hnum _ hr).1 () p hw hq2).1⟩

/-- The record is written ten moments after the first message was noted, eight more than the rewind,
and its position is that of the second: the id of the first is not in it. -/
theorem record_without_id :
    ∃ st, Lts.Reach (step ⟨1, 2⟩) WritesSucceed fresh st ∧ ∃ p, st.writes () = some (.publish p) ∧
      p.o.qos2 = true ∧ p.d.id = some true ∧ (∃ o ∈ st.session.inflight, o.seq = p.o.seq) ∧
      ∀ m ∈ listed 2 (st.ledger.record .position) (st.ledger.record .delivered), m.id ≠ true := by
  obtain ⟨st, hr, hs⟩ := Lts.reach_of_exec_any (step ⟨1, 2⟩) WritesSucceed fresh (burst 9)
    (fun st : State Bool Unit => st.sendsFirst && decide (∀ m ∈
      listed 2 (st.ledger.record .position) (st.ledger.record .delivered), m.id ≠ true)) (by decide)
  simp only [Bool.and_eq_true, decide_eq_true_eq] at hs
  obtain ⟨p, hw, hq2, hid, hin⟩ := sendsFirst_writes hs.1
  exact ⟨st, hr, p, hw, hq2, hid, hin, hs.2⟩

end Natsmqtt5.Checkpoint
