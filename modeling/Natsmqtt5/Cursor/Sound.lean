import Natsmqtt5.Cursor.Outcome

/-!
# What the cursor rests on

Invariants of every run that do not speak of the cursor itself.

* `Sound`: the stream is in order, and each message's live copy is in one place.
* `Marks`: an id the session keeps is that of a message it sent, and every message sent has its id
  there unless it was stored longer than two rewinds ago.
* `Refs`: a scan's subscription that the session still holds has not changed, unless it is a shared
  one.
* `Scans`: a scan has read what the stream held in its range.
-/

namespace Natsmqtt5.Cursor

variable {ι φ τ : Type} {topicMatch : φ → τ → Bool} {b : Bounds} {s s' : State ι φ τ}
  {x y m : Msg ι τ} {transit held : List (Msg ι τ)} {t : Session ι φ} {floor : Nat}
  {r : RestartScan ι φ}

/-! ## The stream and the live copies -/

structure Sound (s : State ι φ τ) : Prop where
  sorted : s.stream.Pairwise fun x y => x.seq < y.seq ∧ x.stored ≤ y.stored ∧ x.id ≠ y.id
  bounded : ∀ m ∈ s.stream, 0 < m.seq ∧ m.seq ≤ s.last ∧ m.stored ≤ s.now
  once : (s.transit ++ s.held ++ s.sent).Nodup
  stored : ∀ m ∈ s.transit ++ s.held ++ s.sent, m ∈ s.stream

theorem Sound.id_inj (h : Sound s) (hx : x ∈ s.stream) (hy : y ∈ s.stream)
    (he : x.id = y.id) : x = y := by
  have hnodup : (s.stream.map Msg.id).Nodup :=
      List.pairwise_map.mpr (h.sorted.imp fun hlt => hlt.2.2)
  exact List.inj_on_of_nodup_map hnodup hx hy he

theorem Sound.seq_inj (h : Sound s) (hx : x ∈ s.stream) (hy : y ∈ s.stream)
    (he : x.seq = y.seq) : x = y := by
  have hnodup : (s.stream.map Msg.seq).Nodup :=
    List.pairwise_map.mpr (h.sorted.imp fun hlt => Nat.ne_of_lt hlt.1)
  exact List.inj_on_of_nodup_map hnodup hx hy he

theorem Sound.stored_le (h : Sound s) (hx : x ∈ s.stream) (hy : y ∈ s.stream)
    (hle : x.seq ≤ y.seq) : x.stored ≤ y.stored := by
  obtain ⟨i, hi, rfl⟩ := List.getElem_of_mem hx
  obtain ⟨j, hj, rfl⟩ := List.getElem_of_mem hy
  have hord := List.pairwise_iff_getElem.mp h.sorted
  rcases Nat.lt_trichotomy i j with hij | hij | hij
  · exact (hord i j hi hj hij).2.1
  · subst hij
    exact Nat.le_refl _
  · have := hord j i hj hi hij
    omega

theorem Sound.sent_mem (h : Sound s) (hm : m ∈ s.sent) : m ∈ s.stream :=
  h.stored m (List.mem_append_right _ hm)

theorem Sound.held_mem (h : Sound s) (hm : m ∈ s.held) : m ∈ s.stream :=
  h.stored m (List.mem_append_left _ (List.mem_append_right _ hm))

theorem Sound.transit_mem (h : Sound s) (hm : m ∈ s.transit) : m ∈ s.stream :=
  h.stored m (List.mem_append_left _ (List.mem_append_left _ hm))

theorem Sound.transit_unsent (h : Sound s) (hm : m ∈ s.transit) : m ∉ s.sent :=
  fun hs => (List.nodup_append.mp h.once).2.2 m (List.mem_append_left _ hm) m hs rfl

theorem Sound.held_unsent (h : Sound s) (hm : m ∈ s.held) : m ∉ s.sent :=
  fun hs => (List.nodup_append.mp h.once).2.2 m (List.mem_append_right _ hm) m hs rfl

/-- Live copies move, and some are gone. -/
theorem Sound.move (h : Sound s) {sent : List (Msg ι τ)} {session : Session ι φ}
    (hp : (transit ++ held ++ sent).Subperm (s.transit ++ s.held ++ s.sent)) :
    Sound { s with transit := transit, held := held, sent := sent, session := session } where
  sorted := h.sorted
  bounded := h.bounded
  once := by
    obtain ⟨l, hperm, hsub⟩ := hp
    exact hperm.nodup_iff.mp (h.once.sublist hsub)
  stored m hm := h.stored m (hp.subset hm)

theorem Sound.store (h : Sound s) (hseq : s.last < m.seq)
    (htime : m.stored = s.now) (hid : ∀ x ∈ s.stream, x.id ≠ m.id)
    (ht : transit = s.transit ∨ transit = s.transit ++ [m]) :
    Sound { s with stream := s.stream ++ [m], last := m.seq, transit := transit } where
  sorted := by
    rw [List.pairwise_append]
    refine ⟨h.sorted, List.pairwise_singleton _ _, fun x hx y hy => ?_⟩
    obtain rfl := List.mem_singleton.mp hy
    have hx' := h.bounded x hx
    exact ⟨by omega, by omega, hid x hx⟩
  bounded x hx := by
    rcases List.mem_append.mp hx with hx | hx
    · have := h.bounded x hx
      exact ⟨this.1, by dsimp only; omega, this.2.2⟩
    · obtain rfl := List.mem_singleton.mp hx
      exact ⟨by omega, Nat.le_refl _, Nat.le_of_eq htime⟩
  once := by
    rcases ht with rfl | rfl
    · exact h.once
    · have hm : m ∉ s.transit ++ s.held ++ s.sent := by
        intro hm
        have := h.bounded m (h.stored m hm)
        omega
      have hperm : (s.transit ++ [m] ++ s.held ++ s.sent).Perm
          (m :: (s.transit ++ s.held ++ s.sent)) := by
        simp only [List.append_assoc]
        exact List.perm_middle
      exact hperm.nodup_iff.mpr (List.nodup_cons.mpr ⟨hm, h.once⟩)
  stored x hx := by
    refine List.mem_append.mpr ?_
    rcases ht with rfl | rfl
    · exact .inl (h.stored x hx)
    · simp only [List.append_assoc, List.mem_append, List.mem_singleton] at hx
      by_cases hxm : x = m
      · exact .inr (List.mem_singleton.mpr hxm)
      · refine .inl (h.stored x ?_)
        simp only [List.append_assoc, List.mem_append]
        tauto

/-- A message goes from one list to the end of another. -/
theorem erase_append_perm {α : Type} [DecidableEq α] {a : α} {l : List α} (ha : a ∈ l)
    (l' : List α) : (l.erase a ++ (l' ++ [a])).Perm (l ++ l') := by
  refine List.perm_iff_count.mpr fun x => ?_
  have hpos := List.count_pos_iff.mpr ha
  simp only [List.count_append, List.count_erase, List.count_singleton]
  by_cases hx : a = x
  · subst hx
    simp
    omega
  · simp [hx]

theorem subperm_arrive [DecidableEq ι] [DecidableEq τ] (hm : m ∈ s.transit) :
    (s.transit.erase m ++ (s.held ++ [m]) ++ s.sent).Subperm (s.transit ++ s.held ++ s.sent) :=
  ((erase_append_perm hm _).append_right _).subperm

theorem subperm_deliver [DecidableEq ι] [DecidableEq τ] (hm : m ∈ s.held) :
    (s.transit ++ s.held.erase m ++ (s.sent ++ [m])).Subperm (s.transit ++ s.held ++ s.sent) := by
  rw [List.append_assoc, List.append_assoc]
  exact ((erase_append_perm hm _).append_left _).subperm

/-! ## The ids of the messages sent -/

variable [DecidableEq ι]

structure Marks (b : Bounds) (s : State ι φ τ) : Prop where
  sound : ∀ d ∈ s.session.delivered,
    ∃ m ∈ s.sent, m.id = d.id ∧ m.seq = d.seq ∧ m.stored ≤ d.time
  recent : ∀ m ∈ s.sent, s.session.knows m.id = true ∨ m.stored + 2 * b.window < s.now

/-- The ids are as they were. -/
theorem Marks.keep (h : Marks b s) (hd : s'.session.delivered = s.session.delivered)
    (hsent : s'.sent = s.sent) (hnow : s.now ≤ s'.now) : Marks b s' where
  sound := by
    rw [hd, hsent]
    exact h.sound
  recent := by
    intro m hm
    rw [hsent] at hm
    refine (h.recent m hm).imp (fun hk => ?_) fun hlt => Nat.lt_of_lt_of_le hlt hnow
    rw [knows_iff, hd]
    exact knows_iff.mp hk

/-- The id of a message that was sent, if it is kept, is kept with its sequence. -/
theorem Marks.mark_of_knows (h : Marks b s) (hs : Sound s) (hm : m ∈ s.stream)
    (hk : s.session.knows m.id = true) :
    m ∈ s.sent ∧ ∃ d ∈ s.session.delivered, d.id = m.id ∧ d.seq = m.seq ∧ m.stored ≤ d.time := by
  obtain ⟨d, hd, hid⟩ := knows_iff.mp hk
  obtain ⟨x, hx, hxid, hxseq, hxt⟩ := h.sound d hd
  obtain rfl := hs.id_inj (hs.sent_mem hx) hm (hxid.trans hid)
  exact ⟨hx, d, hd, hid, hxseq.symm, hxt⟩

theorem Marks.deliver (h : Marks b s) (hs : Sound s) (hm : m ∈ s.held)
    (hn : NotedDelivered b s.session s.now m.id m.seq t) :
    Marks b { s with held := held, sent := s.sent ++ [m], session := t } where
  sound d hd := by
    rcases hn.only d hd with rfl | hd
    · exact ⟨m, by simp, rfl, rfl, (hs.bounded m (hs.held_mem hm)).2.2⟩
    · obtain ⟨x, hx, hrest⟩ := h.sound d hd
      exact ⟨x, List.mem_append_left _ hx, hrest⟩
  recent x hx := by
    rcases List.mem_append.mp hx with hx | hx
    · rcases h.recent x hx with hk | hlt
      · obtain ⟨-, d, hd, hid, hseq, htime⟩ := h.mark_of_knows hs (hs.sent_mem hx) hk
        have hne : d.id ≠ m.id := by
          intro he
          have hxm := hs.id_inj (hs.sent_mem hx) (hs.held_mem hm) (hid.symm.trans he)
          exact hs.held_unsent hm (hxm ▸ hx)
        rcases hn.kept d hd hne with hkept | ⟨hold, -⟩
        · exact .inl (knows_iff.mpr ⟨d, hkept, hid⟩)
        · exact .inr (by dsimp only; omega)
      · exact .inr hlt
    · obtain rfl := List.mem_singleton.mp hx
      exact .inl (knows_iff.mpr ⟨_, hn.mark, rfl⟩)

omit [DecidableEq ι] in
theorem setSince_same (t : Session ι φ) (c : Nat) (refs : List Nat) (last floor : Nat) :
    t.setSince c refs last true true floor = t.swapSince (·.ref ∈ refs) last := by
  unfold Session.setSince
  simp

theorem receive_same (s : State ι φ τ) (m : Msg ι τ) : Same s.session (receive b s m) := by
  unfold receive
  split
  · exact lateCopy_same b s.session m.seq m.id
  · exact .refl _

theorem arrive_same (s : State ι φ τ) (m : Msg ι τ) :
    Same s.session ((receive b s m).noteLiveCopy b m.seq (some m.id)) :=
  (receive_same s m).trans (noteLiveCopy_same b _ m.seq m.id)

theorem late_same (hc : s.session.conn = none) :
    Same s.session (s.session.lateCopy b none m.seq (some m.id)).1 := by
  have h := lateCopy_same b s.session m.seq m.id
  rwa [hc] at h

theorem scanned_same {sc : Scan ι φ}
    (ht : t = s.session ∨ s.isOpen = true ∧ t = (s.session.applyScanLocked b sc floor).1) :
    Same s.session t := by
  rcases ht with rfl | ⟨-, rfl⟩
  · exact .refl _
  · exact applyScanLocked_same b _ sc floor

theorem restarted_same
    (ht : t = s.session ∨ s.isOpen = true ∧ t = (s.session.restartCursorLocked b r floor s.now).1) :
    Same s.session t := by
  rcases ht with rfl | ⟨-, rfl⟩
  · exact .refl _
  · exact restartCursorLocked_same b _ r floor s.now

/-! ## The subscriptions of a scan -/

/-- Subscriptions a scan took from the session, all with `since` known. -/
structure SubsOk (s : State ι φ τ) (subs : List (Sub φ)) : Prop where
  nodup : (subs.map Sub.ref).Nodup
  lt : ∀ sub ∈ subs, sub.ref < s.nextRef
  known : ∀ sub ∈ subs, sub.shared = true ∨ sub.since.isSome = true
  same : ∀ sub ∈ subs, ∀ x ∈ s.session.subs, x.ref = sub.ref →
    x = sub ∨ x.shared = true ∧ sub.shared = true

structure Refs (s : State ι φ τ) : Prop where
  nodup : (s.session.subs.map Sub.ref).Nodup
  lt : ∀ sub ∈ s.session.subs, sub.ref < s.nextRef
  scans : ∀ sc ∈ s.scans, SubsOk s sc.subs
  restarts : ∀ r ∈ s.restarts, SubsOk s r.subs

omit [DecidableEq ι]

theorem SubsOk.keep {subs : List (Sub φ)} (h : SubsOk s subs)
    (hsubs : s'.session.subs = s.session.subs) (href : s'.nextRef = s.nextRef) :
        SubsOk s' subs where
  nodup := h.nodup
  lt := by
    rw [href]
    exact h.lt
  known := h.known
  same := by
    rw [hsubs]
    exact h.same

theorem Refs.keep (h : Refs s) (hsubs : s'.session.subs = s.session.subs)
    (href : s'.nextRef = s.nextRef) (hscans : ∀ sc ∈ s'.scans, sc ∈ s.scans)
    (hrestarts : ∀ r ∈ s'.restarts, r ∈ s.restarts) : Refs s' where
  nodup := by
    rw [hsubs]
    exact h.nodup
  lt := by
    rw [hsubs, href]
    exact h.lt
  scans sc hsc := (h.scans sc (hscans sc hsc)).keep hsubs href
  restarts r hr := (h.restarts r (hrestarts r hr)).keep hsubs href

/-- The session's own subscriptions, once their `since` is known. -/
theorem Refs.subsOk (h : Refs s) (hk : s.session.sinceKnownLocked = true) :
    SubsOk s s.session.subs where
  nodup := h.nodup
  lt := h.lt
  known sub hsub := by
    simp only [Session.sinceKnownLocked, List.all_eq_true, Bool.or_eq_true] at hk
    exact hk sub hsub
  same sub hsub x hx he := .inl (List.inj_on_of_nodup_map h.nodup hx hsub he)

/-- A subscription is made or replaced. -/
theorem Refs.install [DecidableEq φ] (h : Refs s) {c : Nat} {sub : Sub φ}
    (href : sub.ref = s.nextRef) (hnone : sub.since = none)
    (hi : s.session.installSubscription c sub = some t) :
    Refs { s with session := t, nextRef := s.nextRef + 1 } := by
  obtain ⟨since, rfl, -⟩ := installSubscription_spec hnone hi
  have hmem : ∀ x ∈ Keyed.put Sub.filter s.session.subs { sub with since := since },
      x ∈ s.session.subs ∨ x = { sub with since := since } :=
    fun x hx => ((Keyed.mem_put _).mp hx).imp_left And.left
  have hok : ∀ {subs : List (Sub φ)}, SubsOk s subs → SubsOk
      { s with session := { s.session with
        subs := Keyed.put Sub.filter s.session.subs { sub with since := since } },
               nextRef := s.nextRef + 1 } subs := by
    intro subs hsubs
    refine ⟨hsubs.nodup, fun x hx => Nat.lt_succ_of_lt (hsubs.lt x hx), hsubs.known,
      fun y hy x hx he => ?_⟩
    rcases hmem x hx with hx | rfl
    · exact hsubs.same y hy x hx he
    · have := hsubs.lt y hy
      rw [← he, href] at this
      exact absurd this (Nat.lt_irrefl _)
  refine ⟨?_, fun x hx => ?_, fun sc hsc => hok (h.scans sc hsc), fun r hr => hok (h.restarts r hr)⟩
  · have hsub : ((Keyed.erase Sub.filter s.session.subs sub.filter).map Sub.ref).Sublist
        (s.session.subs.map Sub.ref) := List.filter_sublist.map _
    show ((Keyed.erase Sub.filter s.session.subs sub.filter ++ [_]).map Sub.ref).Nodup
    rw [List.map_append, List.nodup_append]
    refine ⟨h.nodup.sublist hsub, by simp, fun a ha c hc hac => ?_⟩
    obtain ⟨y, hy, rfl⟩ := List.mem_map.mp (hsub.subset ha)
    have hlt := h.lt y hy
    simp only [List.map_cons, List.map_nil, List.mem_singleton] at hc
    omega
  · rcases hmem x hx with hx | rfl
    · exact Nat.lt_succ_of_lt (h.lt x hx)
    · dsimp only
      omega

theorem map_ref_swapSince (t : Session ι φ) (these : Sub φ → Bool) (last : Nat) :
    (t.swapSince these last).subs.map Sub.ref = t.subs.map Sub.ref := by
  unfold Session.swapSince
  rw [List.map_map]
  refine List.map_congr_left fun sub _ => ?_
  simp only [Function.comp_apply]
  split
  · rfl
  · rfl

/-- `since` becomes known. -/
theorem Refs.swapSince (h : Refs s) (these : Sub φ → Bool) (last : Nat) {reads : List (Nat × Nat)} :
    Refs { s with session := s.session.swapSince these last, reads := reads } := by
  have hok : ∀ {subs : List (Sub φ)}, SubsOk s subs →
      SubsOk { s with session := s.session.swapSince these last, reads := reads } subs := by
    intro subs hsubs
    refine { hsubs with same := fun y hy x hx he => ?_ }
    obtain ⟨z, hz, rfl⟩ := List.mem_map.mp hx
    -- a subscription that changes had no `since`, so the scan's copy of it is a shared one
    by_cases hc : (these z && z.since.isNone) = true
    · rw [if_pos hc] at he ⊢
      rcases hsubs.same y hy z hz he with rfl | hshared
      · refine .inr ?_
        simp only [Bool.and_eq_true, Option.isNone_iff_eq_none] at hc
        have := (hsubs.known z hy).resolve_right (by simp [hc.2])
        exact ⟨this, this⟩
      · exact .inr hshared
    · rw [if_neg hc] at he ⊢
      exact hsubs.same y hy z hz he
  have hmap := map_ref_swapSince s.session these last
  refine ⟨?_, fun x hx => ?_, fun sc hsc => hok (h.scans sc hsc), fun r hr => hok (h.restarts r hr)⟩
  · dsimp only
    rw [hmap]
    exact h.nodup
  · have hr : x.ref ∈ s.session.subs.map Sub.ref := hmap ▸ List.mem_map_of_mem hx
    obtain ⟨y, hy, he⟩ := List.mem_map.mp hr
    exact he ▸ h.lt y hy

/-! ## What a scan has read -/

/-- A restart scan has read what was stored since one rewind before it began. -/
structure RestartOk (topicMatch : φ → τ → Bool) (b : Bounds) (s : State ι φ τ)
    (r : RestartScan ι φ) : Prop where
  last_le : r.last ≤ s.last
  began_le : r.began ≤ s.now
  base_le : r.base ≤ r.last + 1
  cut : ∀ m ∈ s.stream, r.base ≤ m.seq ↔ r.began ≤ m.stored + b.window
  read : r.read =
    scanRead topicMatch r.subs (s.stream.filter fun m => r.base ≤ m.seq && m.seq ≤ r.last)

structure Scans (topicMatch : φ → τ → Bool) (b : Bounds) (s : State ι φ τ) : Prop where
  scan : ∀ sc ∈ s.scans, sc.start ≠ 0 ∧ sc.last ≤ s.last ∧ sc.read =
    scanRead topicMatch sc.subs (s.stream.filter fun m => sc.start ≤ m.seq && m.seq ≤ sc.last)
  restart : ∀ r ∈ s.restarts, RestartOk topicMatch b s r

theorem RestartOk.keep (h : RestartOk topicMatch b s r)
    (hstream : s'.stream = s.stream) (hlast : s'.last = s.last) (hnow : s.now ≤ s'.now) :
    RestartOk topicMatch b s' r :=
  ⟨hlast ▸ h.last_le, Nat.le_trans h.began_le hnow, h.base_le, hstream ▸ h.cut, hstream ▸ h.read⟩

theorem Scans.keep (h : Scans topicMatch b s) (hstream : s'.stream = s.stream)
    (hlast : s'.last = s.last) (hnow : s.now ≤ s'.now) (hscans : ∀ sc ∈ s'.scans, sc ∈ s.scans)
    (hrestarts : ∀ r ∈ s'.restarts, r ∈ s.restarts) : Scans topicMatch b s' where
  scan sc hsc := by
    rw [hstream, hlast]
    exact h.scan sc (hscans sc hsc)
  restart r hr := (h.restart r (hrestarts r hr)).keep hstream hlast hnow

/-- A step that leaves the stream, the clock and the scans alone. -/
theorem Scans.same (h : Scans topicMatch b s) (hstream : s'.stream = s.stream)
    (hlast : s'.last = s.last) (hnow : s'.now = s.now) (hscans : s'.scans = s.scans)
    (hrestarts : s'.restarts = s.restarts) : Scans topicMatch b s' := by
  refine h.keep hstream hlast (Nat.le_of_eq hnow.symm) (fun sc hsc => ?_) fun r hr => ?_
  · rwa [hscans] at hsc
  · rwa [hrestarts] at hr

/-- A message above a range is not in it. -/
theorem filter_range_append (ms : List (Msg ι τ)) {lo hi : Nat} (hm : hi < m.seq) :
    ((ms ++ [m]).filter fun x => lo ≤ x.seq && x.seq ≤ hi) =
      ms.filter fun x => lo ≤ x.seq && x.seq ≤ hi := by
  have hnone : [m].filter (fun x => decide (lo ≤ x.seq) && decide (x.seq ≤ hi)) = [] := by
    refine List.filter_eq_nil_iff.mpr fun x hx => ?_
    obtain rfl := List.mem_singleton.mp hx
    simp only [Bool.and_eq_true, decide_eq_true_eq]
    omega
  rw [List.filter_append, hnone, List.append_nil]

theorem Scans.store (h : Scans topicMatch b s) (hseq : s.last < m.seq) (htime : m.stored = s.now) :
    Scans topicMatch b { s with stream := s.stream ++ [m], last := m.seq, transit := transit } where
  scan sc hsc := by
    obtain ⟨hstart, hlast, hread⟩ := h.scan sc hsc
    have hlt : sc.last < m.seq := Nat.lt_of_le_of_lt hlast hseq
    exact ⟨hstart, Nat.le_of_lt hlt, by rw [filter_range_append _ hlt]; exact hread⟩
  restart r hr := by
    have hok := h.restart r hr
    have hbegan := hok.began_le
    have hbase := hok.base_le
    have hlt : r.last < m.seq := Nat.lt_of_le_of_lt hok.last_le hseq
    refine ⟨Nat.le_of_lt hlt, hbegan, hbase, fun x hx => ?_, ?_⟩
    · rcases List.mem_append.mp hx with hx | hx
      · exact hok.cut x hx
      · obtain rfl := List.mem_singleton.mp hx
        omega
    · rw [filter_range_append _ hlt]
      exact hok.read

/-- In the whole stream, an upper end is no bound. -/
theorem Sound.filter_last (h : Sound s) (p : Msg ι τ → Bool) :
    (s.stream.filter fun m => p m && m.seq ≤ s.last) = s.stream.filter p := by
  refine List.filter_congr fun m hm => ?_
  simp [(h.bounded m hm).2.1]

theorem scan_new (h : Sound s) (hn : s.session.cur.next ≠ 0) :
    (newScan topicMatch s).start ≠ 0 ∧ (newScan topicMatch s).last ≤ s.last ∧
        (newScan topicMatch s).read =
      scanRead topicMatch (newScan topicMatch s).subs (s.stream.filter fun m =>
        (newScan topicMatch s).start ≤ m.seq && m.seq ≤ (newScan topicMatch s).last) := by
  refine ⟨hn, Nat.le_refl _, ?_⟩
  unfold newScan
  rw [h.filter_last fun m => decide (s.session.cur.next ≤ m.seq)]

theorem restartBase_cut (h : Sound s) (hm : m ∈ s.stream) :
    restartBase s.last (rewound b.window s.now s.stream) ≤ m.seq ↔ s.now ≤ m.stored + b.window := by
  have hmem : m ∈ rewound b.window s.now s.stream ↔ s.now ≤ m.stored + b.window := by
    simp [rewound, hm]
  have hsub : (rewound b.window s.now s.stream).Sublist s.stream := List.filter_sublist
  rw [← hmem]
  generalize hms : rewound b.window s.now s.stream = ms at hsub
  cases ms with
  | nil =>
    have := (h.bounded m hm).2.1
    simp [restartBase]
    omega
  | cons x rest =>
    have hsorted := List.pairwise_cons.mp (h.sorted.sublist hsub)
    have hx : x ∈ s.stream := hsub.subset List.mem_cons_self
    have hxt : s.now ≤ x.stored + b.window := by
      have hin : x ∈ rewound b.window s.now s.stream := hms ▸ List.mem_cons_self
      simpa [rewound, hx] using hin
    show x.seq ≤ m.seq ↔ m ∈ x :: rest
    constructor
    · intro hle
      have := h.stored_le hx hm hle
      rw [← hms, hmem]
      omega
    · intro hin
      rcases List.mem_cons.mp hin with rfl | hin
      · exact Nat.le_refl _
      · exact Nat.le_of_lt (hsorted.1 m hin).1

theorem restartBase_le (h : Sound s) {ms : List (Msg ι τ)} (hms : ms ⊆ s.stream) :
    restartBase s.last ms ≤ s.last + 1 := by
  cases ms with
  | nil => exact Nat.le_refl _
  | cons x rest => exact Nat.le_succ_of_le (h.bounded x (hms List.mem_cons_self)).2.1

theorem restart_new (h : Sound s) : RestartOk topicMatch b s (newRestart topicMatch b s) where
  last_le := Nat.le_refl _
  began_le := Nat.le_refl _
  base_le := restartBase_le h (List.filter_sublist.subset)
  cut _ hm := restartBase_cut h hm
  read := by
    unfold newRestart
    dsimp only
    rw [h.filter_last fun m =>
      decide (restartBase s.last (rewound b.window s.now s.stream) ≤ m.seq)]
    congr 1
    refine List.filter_congr fun m hm => ?_
    rw [decide_eq_decide]
    exact (restartBase_cut h hm).symm

/-! ## The invariants are kept -/

variable [DecidableEq ι] [DecidableEq φ] [DecidableEq τ]

theorem Sound.step (h : Sound s) (hs : Outcome topicMatch b s s') : Sound s' := by
  cases hs with
  | store hseq htime hid ht => exact h.store hseq htime hid ht
  | arrive hm hc => exact h.move (subperm_arrive hm)
  | deliver hm ho => exact h.move (subperm_deliver hm)
  | tick d =>
    refine { h with bounded := fun m hm => ?_ }
    have := h.bounded m hm
    exact ⟨this.1, this.2.1, Nat.le_trans this.2.2 (Nat.le_add_right _ _)⟩
  | release hc hclosed =>
    refine h.move (List.Sublist.subperm ?_)
    exact ((List.Sublist.refl _).append (List.nil_sublist _)).append (.refl _)
  | late hm hc =>
    refine h.move (List.Sublist.subperm ?_)
    exact (List.erase_sublist.append (.refl _)).append (.refl _)
  | _ => exact { h with }

theorem Marks.step (h : Marks b s) (hsound : Sound s) (hs : Outcome topicMatch b s s') :
    Marks b s' := by
  cases hs with
  | deliver hm ho => exact h.deliver hsound hm (noteDelivered_spec b _ _ _ _)
  | arrive hm hc => exact h.keep (arrive_same s _).delivered rfl (Nat.le_refl _)
  | tick d => exact h.keep rfl rfl (Nat.le_add_right _ _)
  | scanned _ _ ht => exact h.keep (scanned_same ht).delivered rfl (Nat.le_refl _)
  | restarted _ _ ht => exact h.keep (restarted_same ht).delivered rfl (Nat.le_refl _)
  | subscribe href hnone hi =>
    obtain ⟨since, rfl, -⟩ := installSubscription_spec hnone hi
    exact h.keep rfl rfl (Nat.le_refl _)
  | setSince _ _ => exact h.keep (by rw [setSince_same]; rfl) rfl (Nat.le_refl _)
  | late hm hc => exact h.keep (late_same hc).delivered rfl (Nat.le_refl _)
  | _ => exact h.keep rfl rfl (Nat.le_refl _)

theorem Refs.step (h : Refs s) (hs : Outcome topicMatch b s s') : Refs s' := by
  cases hs with
  | scan hn hk =>
    refine ⟨h.nodup, h.lt, fun sc hsc => ?_, fun r hr => (h.restarts r hr).keep rfl rfl⟩
    rcases List.mem_append.mp hsc with hsc | hsc
    · exact (h.scans sc hsc).keep rfl rfl
    · obtain rfl := List.mem_singleton.mp hsc
      exact (h.subsOk hk).keep rfl rfl
  | restart hn hk =>
    refine ⟨h.nodup, h.lt, fun sc hsc => (h.scans sc hsc).keep rfl rfl, fun r hr => ?_⟩
    rcases List.mem_append.mp hr with hr | hr
    · exact (h.restarts r hr).keep rfl rfl
    · obtain rfl := List.mem_singleton.mp hr
      exact (h.subsOk hk).keep rfl rfl
  | subscribe href hnone hi => exact h.install href hnone hi
  | setSince _ _ =>
    rw [setSince_same]
    exact h.swapSince _ _
  | scanned _ hrest ht => exact h.keep (scanned_same ht).subs rfl hrest fun _ hr => hr
  | restarted _ hrest ht => exact h.keep (restarted_same ht).subs rfl (fun _ hsc => hsc) hrest
  | arrive hm hc => exact h.keep (arrive_same s _).subs rfl (fun _ hsc => hsc) fun _ hr => hr
  | deliver hm ho =>
    exact h.keep (noteDelivered_spec b _ _ _ _).subs rfl (fun _ hsc => hsc) fun _ hr => hr
  | late hm hc => exact h.keep (late_same hc).subs rfl (fun _ hsc => hsc) fun _ hr => hr
  | _ => exact h.keep rfl rfl (fun _ hsc => hsc) fun _ hr => hr

theorem Scans.step (h : Scans topicMatch b s) (hsound : Sound s) (hs : Outcome topicMatch b s s') :
    Scans topicMatch b s' := by
  cases hs with
  | store hseq htime hid ht => exact h.store hseq htime
  | scan hn hk =>
    refine ⟨fun sc hsc => ?_, fun r hr => (h.restart r hr).keep rfl rfl (Nat.le_refl _)⟩
    rcases List.mem_append.mp hsc with hsc | hsc
    · exact h.scan sc hsc
    · obtain rfl := List.mem_singleton.mp hsc
      exact scan_new hsound hn
  | restart hn hk =>
    refine ⟨h.scan, fun r hr => ?_⟩
    rcases List.mem_append.mp hr with hr | hr
    · exact (h.restart r hr).keep rfl rfl (Nat.le_refl _)
    · obtain rfl := List.mem_singleton.mp hr
      exact (restart_new hsound).keep rfl rfl (Nat.le_refl _)
  | tick d => exact h.keep rfl rfl (Nat.le_add_right _ _) (fun _ hsc => hsc) fun _ hr => hr
  | scanned _ hrest _ => exact h.keep rfl rfl (Nat.le_refl _) hrest fun _ hr => hr
  | restarted _ hrest _ => exact h.keep rfl rfl (Nat.le_refl _) (fun _ hsc => hsc) hrest
  | _ => exact h.same rfl rfl rfl rfl rfl

end Natsmqtt5.Cursor
