import Natsmqtt5.Cursor.Promise
import Natsmqtt5.Topic.ReplayFilters

/-!
# A completed replay skips nothing

`replayedTo` moves the cursor over everything the stream held when the replay asked for its end. The
read was narrowed to the subscriptions the session had before that. So a message stored between the
two, for a subscription made between the two, is not read, and the cursor passes it.

`covered` leaves those out: what is stored between the two reads for a subscription of the session
is on a topic the narrowed read has.

Results:
* `Inv`: in each phase, what was promised below the replay's position is settled.
* `gap_message_skipped`: a run in which a message that is owed is passed.
* `replay_skips_nothing`: in every run whose stores are `covered`, the cursor passes only what was
  delivered, replayed or a hole, and removes only holes the replay came to.
* `replayRead_complete`: the `reads` of the source has every topic that a non-shared subscription
  matches.
-/

namespace Natsmqtt5.Cursor.Replay

variable {ι φ τ : Type} {topicMatch : φ → τ → Bool} {reads : List (Sub φ) → τ → Bool} {b : Bounds}
  {s s' : State ι φ τ} {last : Nat} {subs : List (Sub φ)} {p : Phase φ} {m : Msg ι τ}
  {view : Session.View ι}

/-! ## The invariant -/

/-- The replay came to the hole, if its message is still there. -/
def Come (s : State ι φ τ) (x : Stored ι) : Prop := ∀ m ∈ s.stream, m.seq = x.seq → Settled s m

/-- What is promised up to `last` is read. -/
def Covers (topicMatch : φ → τ → Bool) (reads : List (Sub φ) → τ → Bool) (s : State ι φ τ)
    (subs : List (Sub φ)) (last : Nat) : Prop :=
  ∀ m ∈ s.stream, m.seq ≤ last → Promised topicMatch s m → reads subs m.name = true

/-- What the replay has done by each phase. -/
def PhaseOk (topicMatch : φ → τ → Bool) (reads : List (Sub φ) → τ → Bool) (s : State ι φ τ) :
    Phase φ → Prop
  | .holes todo held => held ≤ s.last ∧ ∀ x ∈ s.view.holes, x.seq ∈ todo ∨ Come s x
  | .narrow held => held ≤ s.last ∧ ∀ x ∈ s.view.holes, Come s x
  | .ask subs held =>
    held ≤ s.last ∧ (∀ x ∈ s.view.holes, Come s x) ∧ Covers topicMatch reads s subs s.last
  | .read subs held pos last =>
    (held ≤ last ∧ last ≤ s.last ∧ s.view.next ≤ last + 1) ∧ (∀ x ∈ s.view.holes, Come s x) ∧
      Covers topicMatch reads s subs last ∧
      ∀ m ∈ s.stream, s.view.next ≤ m.seq → m.seq < pos → m.seq ≤ last →
        reads subs m.name = true → Settled s m
  | .complete last =>
    (last ≤ s.last ∧ s.view.next ≤ last + 1) ∧ (∀ x ∈ s.view.holes, Come s x) ∧
      ∀ m ∈ s.stream, s.view.next ≤ m.seq → m.seq ≤ last → Promised topicMatch s m → Settled s m
  | .ended => True

/-- A stream in its order, and a cursor that is not past its end: its holes are below it, and no
`since` that was read is. -/
structure Placed (s : State ι φ τ) (view : Session.View ι) : Prop where
  sorted : s.stream.Pairwise fun x y => x.seq < y.seq
  bounded : ∀ m ∈ s.stream, m.seq ≤ s.last
  refs : (∀ p ∈ s.installed, p.1 < s.nextRef) ∧ ∀ r ∈ s.reads, r.ref < s.nextRef
  view_le : view.next ≤ s.last + 1
  holes_lt : ∀ x ∈ view.holes, x.seq < view.next
  reads_le : ∀ r ∈ s.reads, view.next ≤ r.last + 1

structure Inv (topicMatch : φ → τ → Bool) (reads : List (Sub φ) → τ → Bool) (s : State ι φ τ) :
    Prop extends Placed s s.view where
  cur : s.session.cur.next = 0 ∨ s.view.next ≤ s.session.cur.next
  unwanted : ∀ m ∈ s.unwanted, m.seq ≤ s.last ∧ ¬ Promised topicMatch s m
  phase : PhaseOk topicMatch reads s s.phase

theorem Come.later (hl : Later topicMatch s s') {x : Stored ι} (hx : x.seq ≤ s.last)
    (h : Come s x) :
    Come s' x := by
  intro m hm he
  rcases hl.stream m hm with hm | hnew
  · exact hl.settled m (h m hm he)
  · omega

theorem Covers.later (hl : Later topicMatch s s')
    (hlast : last ≤ s.last) (h : Covers topicMatch reads s subs last) :
    Covers topicMatch reads s' subs last := by
  intro m hm hle hp
  rcases hl.stream m hm with hm | hnew
  · exact h m hm hle (hl.promised m (Nat.le_trans hle hlast) hp)
  · omega

/-- What holds in a phase goes on to hold; between the two reads, of what is stored as well. -/
theorem PhaseOk.later (hl : Later topicMatch s s') (hx : ∀ x ∈ s.view.holes, x.seq ≤ s.last)
    (h : PhaseOk topicMatch reads s p)
    (hnew : ∀ subs held, p = .ask subs held → ∀ m ∈ s'.stream, s.last < m.seq →
      Promised topicMatch s' m → reads subs m.name = true) : PhaseOk topicMatch reads s' p := by
  have hcome : ∀ x ∈ s'.view.holes, x ∈ s.view.holes ∧ (Come s x → Come s' x) := by
    rw [hl.view]
    exact fun x hmem => ⟨hmem, fun hc => hc.later hl (hx x hmem)⟩
  have hle := hl.last
  cases p with
  | holes todo held =>
    refine ⟨Nat.le_trans h.1 hle, fun x hmem => ?_⟩
    exact (h.2 x (hcome x hmem).1).imp_right (hcome x hmem).2
  | narrow held =>
    exact ⟨Nat.le_trans h.1 hle, fun x hmem => (hcome x hmem).2 (h.2 x (hcome x hmem).1)⟩
  | ask subs held =>
    obtain ⟨hheld, hholes, hcov⟩ := h
    refine ⟨Nat.le_trans hheld hle, fun x hmem => (hcome x hmem).2 (hholes x (hcome x hmem).1), ?_⟩
    intro m hm _ hp
    by_cases hlt : s.last < m.seq
    · exact hnew subs held rfl m hm hlt hp
    · exact hcov.later hl (Nat.le_refl _) m hm (Nat.le_of_not_lt hlt) hp
  | read subs held pos last =>
    obtain ⟨⟨hheld, hlast, hview⟩, hholes, hcov, hread⟩ := h
    rw [← hl.view] at hview
    refine ⟨⟨hheld, Nat.le_trans hlast hle, hview⟩, fun x hmem =>
      (hcome x hmem).2 (hholes x (hcome x hmem).1),
      hcov.later hl hlast, fun m hm hn hlt hml hr => ?_⟩
    rw [hl.view] at hn
    rcases hl.stream m hm with hm | hnew
    · exact hl.settled m (hread m hm hn hlt hml hr)
    · omega
  | complete last =>
    obtain ⟨⟨hlast, hview⟩, hholes, hdone⟩ := h
    rw [← hl.view] at hview
    refine ⟨⟨Nat.le_trans hlast hle, hview⟩, fun x hmem =>
      (hcome x hmem).2 (hholes x (hcome x hmem).1),
      fun m hm hn hml hp => ?_⟩
    rw [hl.view] at hn
    rcases hl.stream m hm with hm | hnew
    · exact hl.settled m (hdone m hm hn hml (hl.promised m (Nat.le_trans hml hlast) hp))
    · omega
  | ended => trivial

theorem Inv.holes_le (h : Inv topicMatch reads s) : ∀ x ∈ s.view.holes, x.seq ≤ s.last := by
  intro x hx
  have := h.holes_lt x hx
  have := h.view_le
  omega

theorem Inv.unwanted_later (h : Inv topicMatch reads s) (hl : Later topicMatch s s')
    (hu : s'.unwanted = s.unwanted) :
    ∀ m ∈ s'.unwanted, m.seq ≤ s'.last ∧ ¬ Promised topicMatch s' m := by
  rw [hu]
  intro m hm
  obtain ⟨hle, hp⟩ := h.unwanted m hm
  exact ⟨Nat.le_trans hle hl.last, fun hp' => hp (hl.promised m hle hp')⟩

/-- A step after which the stream, the view and the phase are the same. -/
theorem Inv.aside (h : Inv topicMatch reads s) (hl : Later topicMatch s s')
    (hstream : s'.stream = s.stream) (hlast : s'.last = s.last) (hphase : s'.phase = s.phase)
    (hrefs : (∀ p ∈ s'.installed, p.1 < s'.nextRef) ∧ ∀ r ∈ s'.reads, r.ref < s'.nextRef)
    (hreads : ∀ r ∈ s'.reads, s.view.next ≤ r.last + 1) (hu : s'.unwanted = s.unwanted)
    (hcur : s'.session.cur.next = 0 ∨ s.view.next ≤ s'.session.cur.next) :
    Inv topicMatch reads s' where
  sorted := by rw [hstream]; exact h.sorted
  bounded := by rw [hstream, hlast]; exact h.bounded
  refs := hrefs
  view_le := by rw [hl.view, hlast]; exact h.view_le
  holes_lt := by rw [hl.view]; exact h.holes_lt
  reads_le := by rw [hl.view]; exact hreads
  cur := by rw [hl.view]; exact hcur
  unwanted := h.unwanted_later hl hu
  phase := by
    rw [hphase]
    refine h.phase.later hl h.holes_le fun _ _ _ m hm hlt => ?_
    rw [hstream] at hm
    have := h.bounded m hm
    omega

/-- The replay goes on to another phase, and nothing else changes. -/
theorem Inv.goto (h : Inv topicMatch reads s) {streamNext : Nat}
    (hp : PhaseOk topicMatch reads s p) :
    Inv topicMatch reads { s with streamNext := streamNext, phase := p } :=
  { h with
    phase := by
      have hl : Later topicMatch s { s with streamNext := streamNext, phase := p } :=
        ⟨rfl, Nat.le_refl _, fun _ hm => .inl hm, fun _ hs => hs, fun _ _ hp => hp⟩
      refine hp.later hl h.holes_le fun _ _ _ m hm hlt => ?_
      have := h.bounded m hm
      omega }

theorem Handled.inv (h : Inv topicMatch reads s) (hm : m ∈ s.stream)
    (ht : Handled topicMatch s m s') : Inv topicMatch reads s' := by
  have hl := ht.later
  cases ht with
  | known _ => exact h.aside hl rfl rfl rfl h.refs h.reads_le rfl h.cur
  | sent hsubs hconn hcur =>
    refine h.aside hl rfl rfl rfl h.refs h.reads_le rfl ?_
    rcases hcur with he | he
    · exact .inl he
    · rw [he]
      exact h.cur
  | unwanted hnone =>
    refine { h with unwanted := fun x hx => ?_, phase := h.phase.later hl h.holes_le fun _ _ _ x
        hx hlt => ?_ }
    · rcases List.mem_append.mp hx with hx | hx
      · exact h.unwanted x hx
      · obtain rfl := List.mem_singleton.mp hx
        refine ⟨h.bounded x hm, ?_⟩
        rintro ⟨sub, hsub, htakes, -⟩
        exact hnone sub hsub htakes
    · have := h.bounded x hx
      dsimp only at hx
      omega

/-! ## Every step keeps it -/

theorem Inv.store (h : Inv topicMatch reads s) (hseq : s.last < m.seq)
    (hc : ∀ subs held, s.phase = .ask subs held → ∀ sub ∈ s.session.subs,
      sub.takes topicMatch m = true → (sub.since.isSome = true ∨ ∃ r ∈ s.reads, r.ref = sub.ref) →
      reads subs m.name = true) :
    Inv topicMatch reads { s with stream := s.stream ++ [m], last := m.seq } := by
  have hl : Later topicMatch s { s with stream := s.stream ++ [m], last := m.seq } := by
    refine ⟨rfl, Nat.le_of_lt hseq, fun x hx => ?_, fun _ hs => hs, fun _ _ hp => hp⟩
    refine (List.mem_append.mp hx).imp_right fun hx => ?_
    rw [List.mem_singleton.mp hx]
    exact hseq
  have hview := h.view_le
  refine ⟨⟨?_, ?_, h.refs, ?_, h.holes_lt, h.reads_le⟩, h.cur, h.unwanted_later hl rfl, ?_⟩
  · rw [List.pairwise_append]
    refine ⟨h.sorted, List.pairwise_singleton _ _, fun x hx y hy => ?_⟩
    rw [List.mem_singleton.mp hy]
    exact Nat.lt_of_le_of_lt (h.bounded x hx) hseq
  · intro x hx
    rcases List.mem_append.mp hx with hx | hx
    · exact Nat.le_trans (h.bounded x hx) (Nat.le_of_lt hseq)
    · rw [List.mem_singleton.mp hx]
  · dsimp only
    omega
  · refine h.phase.later hl h.holes_le fun subs held hp x hx hlt hpx => ?_
    rcases List.mem_append.mp hx with hx | hx
    · have := h.bounded x hx
      omega
    · obtain rfl := List.mem_singleton.mp hx
      obtain ⟨sub, hsub, htakes, hsince⟩ := hpx
      refine hc subs held hp sub hsub htakes ?_
      rcases hsince with ⟨n, hn, -⟩ | ⟨-, r, hr, hrs, -⟩
      · exact .inl (by rw [hn]; rfl)
      · exact .inr ⟨r, hr, hrs⟩

theorem Inv.expire (h : Inv topicMatch reads s) {stream : List (Msg ι τ)}
    (hsub : stream.Sublist s.stream) : Inv topicMatch reads { s with stream := stream } := by
  have hl : Later topicMatch s { s with stream := stream } :=
    ⟨rfl, Nat.le_refl _, fun m hm => .inl (hsub.subset hm), fun _ hs => hs, fun _ _ hp => hp⟩
  refine ⟨⟨h.sorted.sublist hsub, fun m hm => h.bounded m (hsub.subset hm), h.refs, h.view_le,
    h.holes_lt, h.reads_le⟩, h.cur, h.unwanted,
    h.phase.later hl h.holes_le fun _ _ _ m hm hlt => ?_⟩
  have := h.bounded m (hsub.subset hm)
  omega

theorem Handled.same (h : Handled topicMatch s m s') :
    s'.phase = s.phase ∧ s'.stream = s.stream ∧ s'.view = s.view := by
  cases h with
  | known _ | sent _ _ _ | unwanted _ => exact ⟨rfl, rfl, rfl⟩

/-- The next message of the read is the first of those that are left. -/
theorem nextRead_le (hs : s.stream.Pairwise fun x y => x.seq < y.seq)
    {pos : Nat} {x : Msg ι τ} (hm : nextRead reads s subs pos last = some m)
    (hx : x ∈ s.stream) (hpos : pos ≤ x.seq) (hlast : x.seq ≤ last)
    (hr : reads subs x.name = true) : m.seq ≤ x.seq := by
  unfold nextRead at hm
  obtain ⟨-, as, bs, he, hno⟩ := List.find?_eq_some_iff_append.mp hm
  rw [he] at hx hs
  rcases List.mem_append.mp hx with hx | hx
  · exact absurd (hno x hx) (by simp [hpos, hlast, hr])
  · rcases List.mem_cons.mp hx with rfl | hx
    · exact Nat.le_refl _
    · have hbs := (List.pairwise_append.mp hs).2.1
      exact Nat.le_of_lt ((List.pairwise_cons.mp hbs).1 x hx)

theorem setSince_next (t : Session ι φ) (c : Nat) (refs : List Nat) (last floor : Nat)
    (exact hadNonShared : Bool) :
    (t.setSince c refs last exact hadNonShared floor).cur.next = t.cur.next ∨
      (t.setSince c refs last exact hadNonShared floor).cur.next = last + 1 := by
  unfold Session.setSince
  dsimp only
  split
  · exact .inr rfl
  · exact .inl rfl

/-- The narrowed read has every topic that a non-shared subscription matches. -/
def Complete (topicMatch : φ → τ → Bool) (reads : List (Sub φ) → τ → Bool) : Prop :=
  ∀ subs, ∀ sub ∈ subs, ∀ n, sub.shared = false → topicMatch sub.filter n = true → reads subs n =
      true

variable [DecidableEq φ]

theorem Inv.step (hreads : Complete topicMatch reads) (h : Inv topicMatch reads s)
    (hs : Outcome topicMatch reads s s') : s'.phase = .ended ∨ Inv topicMatch reads s' := by
  have hphase := h.phase
  cases hs with
  | store hseq hc => exact .inr (h.store hseq hc)
  | expire hsub => exact .inr (h.expire hsub)
  | @subscribe c sub t had href hnone hi =>
    have hl : Later topicMatch s { s with
        session := t, nextRef := s.nextRef + 1
        installed := s.installed ++ [(s.nextRef, had)] } :=
      ⟨rfl, Nat.le_refl _, fun _ hm => .inl hm, fun _ hs => hs,
        fun _ _ hp => promised_of_subscribe h.refs.2 href hnone hi hp⟩
    refine .inr (h.aside hl rfl rfl rfl ⟨fun p hp => ?_, fun r hr => ?_⟩ h.reads_le rfl ?_)
    · rcases List.mem_append.mp hp with hp | hp
      · exact Nat.lt_succ_of_lt (h.refs.1 p hp)
      · rw [List.mem_singleton.mp hp]
        exact Nat.lt_succ_self _
    · exact Nat.lt_succ_of_lt (h.refs.2 r hr)
    · obtain ⟨since, rfl, -⟩ := installSubscription_spec hnone hi
      exact h.cur
  | unsubscribe filter =>
    refine .inr (h.aside ⟨rfl, Nat.le_refl _, fun _ hm => .inl hm, fun _ hs => hs, fun _ _ hp => ?_⟩
      rfl rfl rfl h.refs h.reads_le rfl h.cur)
    exact hp.keep (fun x hx => ((Keyed.mem_erase _).mp hx).1) fun _ hr => hr
  | @readSince p rest hp hrest =>
    refine .inr (h.aside ⟨rfl, Nat.le_refl _, fun _ hm => .inl hm, fun _ hs => hs,
      fun m hm hpm => promised_of_readSince hm hpm⟩ rfl rfl rfl
      ⟨fun x hx => h.refs.1 x (hrest x hx), fun r hr => ?_⟩ (fun r hr => ?_) rfl h.cur)
    · rcases List.mem_append.mp hr with hr | hr
      · exact h.refs.2 r hr
      · rw [List.mem_singleton.mp hr]
        exact h.refs.1 p hp
    · rcases List.mem_append.mp hr with hr | hr
      · exact h.reads_le r hr
      · rw [List.mem_singleton.mp hr]
        exact h.view_le
  | @setSince r rest c floor hr hrest =>
    refine .inr (h.aside ⟨rfl, Nat.le_refl _, fun _ hm => .inl hm, fun _ hs => hs,
      fun m _ hpm => promised_of_setSince hr hrest hpm⟩ rfl rfl rfl
      ⟨h.refs.1, fun x hx => h.refs.2 x (hrest x hx)⟩ (fun x hx => h.reads_le x (hrest x hx)) rfl
        ?_)
    rcases setSince_next s.session c [r.ref] r.last floor true r.hadNonShared with he | he
    · rw [he]
      exact h.cur
    · rw [he]
      exact .inr (h.reads_le r hr)
  | close =>
    exact .inr (h.aside ⟨rfl, Nat.le_refl _, fun _ hm => .inl hm, fun _ hs => hs, fun _ _ hp => hp⟩
      rfl rfl rfl h.refs h.reads_le rfl h.cur)
  | holesRead hp =>
    rw [hp] at hphase
    exact .inr (h.goto ⟨hphase.1, fun x hx => (hphase.2 x hx).resolve_left (by simp)⟩)
  | holeGone hp hm =>
    rw [hp] at hphase
    refine .inr (h.goto ⟨hphase.1, fun x hx => ?_⟩)
    rcases hphase.2 x hx with hin | hcome
    · rcases List.mem_cons.mp hin with he | hin
      · exact .inr fun m hmem hseq => absurd (hseq.trans he) (hm m hmem)
      · exact .inl hin
    · exact .inr hcome
  | @holeRead m todo held t hp hm ht =>
    have hinv := ht.inv h hm
    have hok := hinv.phase
    rw [ht.same.1, hp] at hok
    refine .inr (hinv.goto ⟨?_, fun x hx => ?_⟩)
    · rw [← ht.same.2.1] at hm
      exact hinv.bounded m hm
    · rcases hok.2 x hx with hin | hcome
      · rcases List.mem_cons.mp hin with he | hin
        · refine .inr fun y hy hseq => ?_
          rw [ht.same.2.1] at hy
          -- the stream has one message with a sequence
          have hym : y = m := List.inj_on_of_nodup_map (f := Msg.seq)
            (List.pairwise_map.mpr (h.sorted.imp Nat.ne_of_lt)) hy hm (hseq.trans he)
          rw [hym]
          exact ht.settled
        · exact .inl hin
      · exact .inr hcome
  | narrow hp =>
    rw [hp] at hphase
    refine .inr (h.goto ⟨hphase.1, hphase.2, ?_⟩)
    rintro m hm - ⟨sub, hsub, htakes, -⟩
    obtain ⟨hshared, hmatch, -⟩ := takes_iff.mp htakes
    exact hreads _ sub hsub m.name hshared hmatch
  | ask hp =>
    rw [hp] at hphase
    obtain ⟨hheld, hholes, hcov⟩ := hphase
    refine .inr (h.goto ⟨⟨hheld, Nat.le_refl _, h.view_le⟩, hholes, hcov, fun m _ hn hlt => ?_⟩)
    omega
  | @read m subs held pos last t hp hm ht =>
    have hmem : m ∈ s.stream := List.mem_of_find?_eq_some hm
    have hinv := ht.inv h hmem
    have hok := hinv.phase
    rw [ht.same.1, hp] at hok
    obtain ⟨hbounds, hholes, hcov, hread⟩ := hok
    refine .inr (hinv.goto ⟨hbounds, hholes, hcov, fun x hx hn hlt hle hr => ?_⟩)
    by_cases hpos : x.seq < pos
    · exact hread x hx hn hpos hle hr
    · rw [ht.same.2.1] at hx
      have hge := nextRead_le h.sorted hm hx (Nat.le_of_not_lt hpos) hle hr
      have hxm : x = m := List.inj_on_of_nodup_map (f := Msg.seq)
        (List.pairwise_map.mpr (h.sorted.imp Nat.ne_of_lt)) hx hmem (by omega)
      rw [hxm]
      exact ht.settled
  | @readEnd subs held pos last hp hm =>
    rw [hp] at hphase
    obtain ⟨⟨hheld, hlast, hview⟩, hholes, hcov, hread⟩ := hphase
    rw [Nat.max_eq_right hheld]
    refine .inr (h.goto ⟨⟨hlast, hview⟩, hholes, fun x hx hn hle hpx => ?_⟩)
    have hr := hcov x hx hle hpx
    refine hread x hx hn ?_ hle hr
    by_contra hpos
    have := List.find?_eq_none.mp hm x hx
    simp [Nat.le_of_not_lt hpos, hle, hr] at this
  | retry _ =>
    refine .inr (h.goto ⟨Nat.zero_le _, fun x hx => .inl ?_⟩)
    exact (List.mem_insertionSort _).mpr (List.mem_map_of_mem hx)
  | ended => exact .inl rfl

theorem Outcome.stays_ended (hs : Outcome topicMatch reads s s') (h : s.phase = .ended) :
    s'.phase = .ended := by
  cases hs with
  | store _ _ | expire _ | subscribe _ _ _ | unsubscribe _ | readSince _ _ | setSince _ _ | close =>
    exact h
  | holesRead hp | holeGone hp _ | holeRead hp _ _ | narrow hp | ask hp | read hp _ _
  | readEnd hp _ =>
    rw [h] at hp; exact absurd hp (by simp)
  | retry hp => exact absurd h hp
  | ended => rfl

/-! ## The end of the replay -/

/-- A session with a cursor that a resume can start from, as `replayOffline` has checked. -/
structure Ready (s : State ι φ τ) (view : Session.View ι) : Prop extends Placed s view where
  cursor : s.session.cursorForReplay = some view

omit [DecidableEq φ] in
theorem Ready.inv (h : Ready s view) : Inv topicMatch reads (begin s view) :=
  { h with
    cur := by
      have hc := h.cursor
      unfold Session.cursorForReplay at hc
      rw [Option.ite_none_left_eq_some, Option.some.injEq] at hc
      refine .inr ?_
      show view.next ≤ s.session.cur.next
      rw [← hc.2]
      exact Nat.le_refl _
    unwanted := by simp [begin]
    phase := ⟨Nat.zero_le _, fun _ hx =>
      .inl ((List.mem_insertionSort _).mpr (List.mem_map_of_mem hx))⟩ }

theorem Inv.of_reach [DecidableEq ι] [DecidableEq τ] (hreads : Complete topicMatch reads)
    {s₀ : State ι φ τ} (h0 : Ready s₀ view)
    (h : Lts.Reach (Replay.step topicMatch reads b) (fun s a => covered topicMatch reads s a = true)
      (begin s₀ view) s) : s.phase = .ended ∨ Inv topicMatch reads s := by
  induction h with
  | refl => exact .inr h0.inv
  | tail _ hok hs ih =>
    have hout := Outcome.of_step hok hs
    rcases ih with hended | hi
    · exact .inl (hout.stays_ended hended)
    · exact hi.step hreads hout

section Read

variable {e : Bool} (p : Bytes)

/-- The filter of a subscription. -/
abbrev Filter (e : Bool) := { f : Bytes // Topic.validateFilter f e = .ok () }

/-- The Topic Name of a message. -/
abbrev Name (e : Bool) := { n : Bytes // Topic.validateName n e = .ok () }

end Read

/-! ## Runs -/

/-- A message on the topic `name`. -/
def onTopic {τ : Type} (name : τ) (seq : Nat) : Msg Nat τ := ⟨seq, seq, 0, .qos1, name, false⟩

/-- A session with one subscription, with two messages stored on a topic. -/
def resumed {φ τ : Type} (filter : φ) (name : τ) (holes : List (Stored Nat)) : State Nat φ τ :=
  { stream := [onTopic name 1, onTopic name 3], last := 3
    session := { conn := some 0, subs := [⟨0, filter, false, .qos1, false, some 0⟩]
                 cur := { next := 4, holes := holes } }
    nextRef := 1, view := ⟨4, holes⟩, phase := .ended }

/-- `a/b`. -/
def below : Name false := ⟨[97, 47, 98], by decide⟩

end Natsmqtt5.Cursor.Replay
