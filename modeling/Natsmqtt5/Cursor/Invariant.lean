import Natsmqtt5.Cursor.Sound
import Natsmqtt5.Frontier

/-!
# The invariant of the replay cursor

A session with a cursor accounts for what it is owed: `Frontier.Ok` holds of the stream, with `base`
and `next` the cursor's, a message done when it was sent, and known when the session keeps its id.

Results:
* `Front`: that, with the cursor not past the stream's end, and nothing that the connection holds
  below `base`.
* `cursor_accounts`: in every run from a session whose cursor a SUBSCRIBE has just set, the session
  has no cursor or `Front` holds.
-/

namespace Natsmqtt5.Cursor

variable {ι φ τ : Type} [DecidableEq ι] {topicMatch : φ → τ → Bool} {b : Bounds}
  {s s' : State ι φ τ} {t t' : Session ι φ} {m : Msg ι τ} {subs : List (Sub φ)}
  {ms : List (Msg ι τ)} {next lo hi : Nat} {sc : Scan ι φ} {r : RestartScan ι φ}

/-- A subscription in force is owed the message. -/
def Owed (topicMatch : φ → τ → Bool) (s : State ι φ τ) (t : Session ι φ) (m : Msg ι τ) : Prop :=
  m ∈ s.stream ∧ ∃ sub ∈ t.subs, sub.owes topicMatch m = true

def Hole (s : State ι φ τ) (t : Session ι φ) (m : Msg ι τ) : Prop :=
  m ∈ s.stream ∧ (⟨m.id, m.seq⟩ : Stored ι) ∈ t.cur.holes

def Known (s : State ι φ τ) (t : Session ι φ) (m : Msg ι τ) : Prop :=
  m ∈ s.stream ∧ t.knows m.id = true

structure Front (topicMatch : φ → τ → Bool) (s : State ι φ τ) (t : Session ι φ) : Prop where
  ok : Frontier.Ok Msg.seq t.cur.base t.cur.next (Owed topicMatch s t) (· ∈ s.sent) (Hole s t)
    (Known s t)
  base_le : t.cur.base ≤ t.cur.next
  next_le : t.cur.next ≤ s.last + 1
  held : ∀ m ∈ s.held, t.cur.base ≤ m.seq
  stored : ∀ x ∈ t.cur.holes, ∃ m ∈ s.stream, x = ⟨m.id, m.seq⟩

/-- The cursor, if there is one, accounts for the stream. -/
def Accounts (topicMatch : φ → τ → Bool) (s : State ι φ τ) (t : Session ι φ) : Prop :=
  t.cur.next ≠ 0 → Front topicMatch s t

theorem accounts_of_zero (h : t.cur.next = 0) : Accounts topicMatch s t := fun hn => absurd h hn

/-! ## What is no change for the cursor -/

theorem Front.keep (h : Front topicMatch s t) (hstream : s'.stream = s.stream)
    (hlast : s'.last = s.last) (hsent : s'.sent = s.sent)
        (hheld : ∀ m ∈ s'.held, t.cur.base ≤ m.seq)
    (hsubs : ∀ m, Owed topicMatch s t' m → m.seq < t.cur.next → Owed topicMatch s t m)
    (hdelivered : t'.delivered = t.delivered) (hnext : t'.cur.next = t.cur.next)
    (hbase : t'.cur.base = t.cur.base) (hholes : t'.cur.holes = t.cur.holes) :
    Front topicMatch s' t' where
  ok := by
    have hhole : Hole s' t' = Hole s t := by unfold Hole; rw [hstream, hholes]
    have hknown : Known s' t' = Known s t := by
      unfold Known Session.knows
      rw [hstream, hdelivered]
    rw [hnext, hbase, hsent, hhole, hknown]
    refine h.ok.owe fun m hm hlt => hsubs m ?_ hlt
    unfold Owed at hm ⊢
    rwa [hstream] at hm
  base_le := by rw [hnext, hbase]; exact h.base_le
  next_le := by rw [hnext, hlast]; exact h.next_le
  held := by rw [hbase]; exact hheld
  stored := by rw [hholes, hstream]; exact h.stored

/-- The stream, and what was sent and is held, are as they were. -/
theorem Accounts.quiet (h : Accounts topicMatch s t) (hstream : s'.stream = s.stream)
    (hlast : s'.last = s.last) (hsent : s'.sent = s.sent) (hheld : s'.held = s.held) :
    Accounts topicMatch s' t := by
  intro hn
  refine (h hn).keep hstream hlast hsent (fun m hm => ?_) (fun _ hm _ => hm) rfl rfl rfl rfl
  rw [hheld] at hm
  exact (h hn).held m hm

theorem Accounts.alike (h : Accounts topicMatch s t) (ha : Alike t t') :
    Accounts topicMatch s t' := by
  intro hn
  have hf := h (by rwa [ha.cur] at hn)
  refine hf.keep rfl rfl rfl hf.held (fun m hm _ => ?_) ha.same.delivered ?_ ?_ ?_
  · unfold Owed at hm ⊢
    rwa [ha.same.subs] at hm
  · rw [ha.cur]
  · rw [ha.cur]
  · rw [ha.cur]

/-! ## A live copy below the cursor -/

omit [DecidableEq ι] in
theorem eq_of_stored (hs : Sound s) {x y : Msg ι τ} (hx : x ∈ s.stream) (hy : y ∈ s.stream)
    (he : (⟨x.id, x.seq⟩ : Stored ι) = ⟨y.id, y.seq⟩) : x = y := by
  rw [Stored.mk.injEq] at he
  exact hs.id_inj hx hy he.1

theorem Front.addHole (h : Front topicMatch s t) (hs : Sound s) (hm : m ∈ s.stream)
    (hsent : m ∉ s.sent) (hb : t.cur.base ≤ m.seq) (hlt : m.seq < t.cur.next)
    {holes : List (Stored ι)} (hh : ∀ x, x ∈ holes ↔ x ∈ t.cur.holes ∨ x = ⟨m.id, m.seq⟩) :
    Front topicMatch s (t.withHoles holes) :=
  { h with
    ok := by
      refine h.ok.addHole (x := m) (fun y => ?_) hsent hb hlt
      unfold Hole
      show (y ∈ s.stream ∧ _ ∈ holes) ↔ _
      rw [hh]
      constructor
      · rintro ⟨hy, hin | he⟩
        · exact .inl ⟨hy, hin⟩
        · exact .inr (eq_of_stored hs hy hm he)
      · rintro (⟨hy, hin⟩ | rfl)
        · exact ⟨hy, .inl hin⟩
        · exact ⟨hm, .inr rfl⟩
    stored x hx := by
      rcases (hh x).mp hx with hx | rfl
      · exact h.stored x hx
      · exact ⟨m, hm, rfl⟩ }

/-- The hole of a live copy, and that the copy is not below `base` if there is still a cursor. -/
theorem Accounts.lateHole (h : Accounts topicMatch s t) (hs : Sound s)
    (hm : m ∈ s.stream) (hsent : m ∉ s.sent) :
    Accounts topicMatch s (t.lateHole b m.seq (some m.id)) ∧
      ((t.lateHole b m.seq (some m.id)).cur.next ≠ 0 →
        (t.lateHole b m.seq (some m.id)).cur.base ≤ m.seq) := by
  unfold Session.lateHole
  split
  · rename_i hbelow
    have hf := h hbelow.1
    have hadd := HoleAdded.of_eq b t m.seq m.id
    generalize t.addHoleLocked b m.seq (some m.id) = result at hadd
    cases hadd with
    | dropped hd => exact ⟨accounts_of_zero hd.next, fun hn => absurd hd.next hn⟩
    | had hb _ => exact ⟨h, fun _ => hb⟩
    | added hb _ _ hh => exact ⟨fun _ => hf.addHole hs hm hsent hb hbelow.2 hh, fun _ => hb⟩
  · rename_i habove
    refine ⟨h, fun hn => ?_⟩
    have hf := h hn
    have hle : t.cur.next ≤ m.seq := by
      by_contra hlt
      exact habove ⟨hn, Nat.lt_of_not_le hlt⟩
    exact Nat.le_trans hf.base_le hle

theorem noteLiveCopy_eq (hs : Sound s) (hm : m ∈ s.stream) :
    t.noteLiveCopy b m.seq (some m.id) = t.lateHole b m.seq (some m.id) := by
  unfold Session.noteLiveCopy Session.lateHole
  rw [if_neg (Nat.ne_of_gt (hs.bounded m hm).1)]

/-! ## A delivery -/

theorem Front.deliver (h : Front topicMatch s t) (hs : Sound s)
    (hmarks : Marks b { s with session := t })
    {m : Msg ι τ} (hm : m ∈ s.held) {held : List (Msg ι τ)} (hheld : ∀ x ∈ held, x ∈ s.held)
    {now : Nat} (hn : NotedDelivered b t now m.id m.seq t') (hnext : t'.cur.next ≠ 0)
    (hsent : s'.sent = s.sent ++ [m]) (hstream : s'.stream = s.stream) (hlast : s'.last = s.last)
    (hs' : s'.held = held) (hpos : t.cur.next ≠ 0) : Front topicMatch s' t' := by
  have hms : m ∈ s.stream := hs.held_mem hm
  obtain ⟨hcn, hcb, -, hch⟩ := hn.cur.resolve_left hnext
  have hpre : ∀ x : Stored ι, x ∈ t'.cur.holes ↔ x ∈ t.cur.holes ∧ x.id ≠ m.id := by
    intro x
    rw [hch]
    exact Keyed.mem_erase _
  refine ⟨?_, by rw [hcn, hcb]; exact h.base_le, by rw [hcn, hlast]; exact h.next_le, ?_, ?_⟩
  · rw [hcn, hcb]
    have howed : ∀ x, Owed topicMatch s' t' x ↔ Owed topicMatch s t x := by
      intro x
      unfold Owed
      rw [hstream, hn.subs]
    have hfinish : Frontier.Ok Msg.seq t.cur.base t.cur.next (Owed topicMatch s t) (· ∈ s'.sent)
        (Hole s' t') (Known s' t') := by
      refine h.ok.finish (x := m) (fun y => by rw [hsent]; simp) (fun y => ?_) ?_
        (fun y hy hle => ?_)
        fun y hy => ?_
      · unfold Hole
        rw [hstream, hpre, and_assoc]
        refine and_congr_right fun hy => and_congr_right fun _ =>
          not_congr ⟨fun he => ?_, fun he => ?_⟩
        · exact hs.id_inj hy hms he
        · rw [he]
      · exact ⟨hstream ▸ hms, knows_iff.mpr ⟨_, hn.mark, rfl⟩⟩
      · -- a note from the cursor up is kept
        refine ⟨hstream ▸ hy.1, ?_⟩
        obtain ⟨-, d, hd, hid, hseq, -⟩ :=
          hmarks.mark_of_knows { hs with }
          hy.1 hy.2
        by_cases hym : d.id = m.id
        · exact knows_iff.mpr ⟨_, hn.mark, by rw [← hid, hym]⟩
        · rcases hn.kept d hd hym with hkept | ⟨-, hlt⟩
          · exact knows_iff.mpr ⟨d, hkept, hid⟩
          · have := hlt hpos
            omega
      · obtain ⟨hys, hyk⟩ := hy
        rw [hstream] at hys
        obtain ⟨d, hd, hid⟩ := knows_iff.mp hyk
        rcases hn.only d hd with rfl | hd
        · exact .inr (hs.id_inj hys hms hid.symm)
        · exact .inl ⟨hys, knows_iff.mpr ⟨d, hd, hid⟩⟩
    exact hfinish.owe fun x hx _ => (howed x).mp hx
  · rw [hs', hcb]
    exact fun x hx => h.held x (hheld x hx)
  · intro x hx
    rw [hstream]
    exact h.stored x ((hpre x).mp hx).1

/-! ## Scans -/

omit [DecidableEq ι] in
theorem mem_scanRead {e : Scanned ι} :
    e ∈ scanRead topicMatch subs ms ↔ ∃ m ∈ ms, (∃ sub ∈ subs, sub.takes topicMatch m = true) ∧
      e = ⟨m.seq, some m.id, subs.any (·.owes topicMatch m)⟩ := by
  unfold scanRead owedBy
  simp only [List.mem_map, List.mem_filter, List.any_eq_true]
  constructor
  · rintro ⟨m, ⟨hm, htakes⟩, rfl⟩
    exact ⟨m, hm, htakes, rfl⟩
  · rintro ⟨m, hm, htakes, rfl⟩
    exact ⟨m, ⟨hm, htakes⟩, rfl⟩

omit [DecidableEq ι] in
theorem inOrder_scanRead
    (h : ms.Pairwise fun x y => x.seq < y.seq) : InOrder (scanRead topicMatch subs ms) := by
  unfold InOrder scanRead
  rw [List.pairwise_map]
  exact h.sublist List.filter_sublist

/-- What a scan of a range makes a hole of. -/
theorem found_iff (hs : Sound s) (hm : m ∈ s.stream) :
    Found t next (scanRead topicMatch subs (s.stream.filter fun x => lo ≤ x.seq && x.seq ≤ hi))
      ⟨m.id, m.seq⟩ ↔
      (∃ sub ∈ subs, sub.owes topicMatch m = true) ∧ lo ≤ m.seq ∧ m.seq ≤ hi ∧ m.seq < next ∧
        t.knows m.id = false := by
  unfold Found
  constructor
  · rintro ⟨⟨e, he, howed, -, hseq⟩, hlt, hk⟩
    obtain ⟨x, hx, -, rfl⟩ := mem_scanRead.mp he
    simp only [List.mem_filter, Bool.and_eq_true, decide_eq_true_eq] at hx
    obtain rfl := hs.seq_inj hx.1 hm hseq
    exact ⟨List.any_eq_true.mp howed, hx.2.1, hx.2.2, hlt, hk⟩
  · rintro ⟨⟨sub, hsub, howes⟩, hlo, hhi, hlt, hk⟩
    refine ⟨⟨_, mem_scanRead.mpr ⟨m, ?_, ⟨sub, hsub, (owes_iff.mp howes).1⟩, rfl⟩, ?_, rfl, rfl⟩,
      hlt, hk⟩
    · simp [hm, hlo, hhi]
    · exact List.any_eq_true.mpr ⟨sub, hsub, howes⟩

theorem found_stored {p : Msg ι τ → Bool} {x : Stored ι}
    (h : Found t next (scanRead topicMatch subs (s.stream.filter p)) x) :
    ∃ m ∈ s.stream, x = ⟨m.id, m.seq⟩ := by
  obtain ⟨⟨e, he, -, hid, hseq⟩, -⟩ := h
  obtain ⟨m, hm, -, rfl⟩ := mem_scanRead.mp he
  rw [Option.some.injEq] at hid
  dsimp only at hseq
  exact ⟨m, (List.mem_filter.mp hm).1, by rw [hid, hseq]⟩

omit [DecidableEq ι] in
/-- A scan whose subscriptions are the session's owes what they do. -/
theorem SubsOk.owes_iff (h : SubsOk s subs)
    (hsame : s.session.sameSubsLocked subs = true) (m : Msg ι τ) :
    (∃ sub ∈ subs, sub.owes topicMatch m = true) ↔
      ∃ sub ∈ s.session.subs, sub.owes topicMatch m = true := by
  have hshared : ∀ {sub : Sub φ}, sub.shared = true → ¬ sub.owes topicMatch m = true := by
    intro sub hsub howes
    have := (takes_iff.mp (Cursor.owes_iff.mp howes).1).1
    simp [this] at hsub
  constructor
  · rintro ⟨sub, hsub, howes⟩
    simp only [Session.sameSubsLocked, Bool.and_eq_true, List.all_eq_true, List.any_eq_true,
      beq_iff_eq] at hsame
    obtain ⟨x, hx, href⟩ := hsame.2 sub hsub
    rcases h.same sub hsub x hx href with rfl | hsh
    · exact ⟨x, hx, howes⟩
    · exact absurd howes (hshared hsh.2)
  · rintro ⟨x, hx, howes⟩
    obtain ⟨sub, hsub, href⟩ := sameSubsLocked_spec hsame h.nodup hx
    rcases h.same sub hsub x hx href.symm with rfl | hsh
    · exact ⟨x, hsub, howes⟩
    · exact absurd howes (hshared hsh.1)

/-- The holes of a scan that is applied are what the session is owed there and has no id for. -/
theorem found_iff_owed (hs : Sound s) (hok : SubsOk s subs)
    (hsame : s.session.sameSubsLocked subs = true) (hnext : next ≤ hi + 1) (hm : m ∈ s.stream) :
    Found s.session next
      (scanRead topicMatch subs (s.stream.filter fun x => lo ≤ x.seq && x.seq ≤ hi)) ⟨m.id, m.seq⟩ ↔
      Owed topicMatch s s.session m ∧ lo ≤ m.seq ∧ m.seq < next ∧ ¬ Known s s.session m := by
  rw [found_iff hs hm, hok.owes_iff hsame]
  unfold Owed Known
  constructor
  · rintro ⟨howed, hlo, -, hlt, hk⟩
    exact ⟨⟨hm, howed⟩, hlo, hlt, fun hkn => by simp [hk] at hkn⟩
  · rintro ⟨⟨-, howed⟩, hlo, hlt, hk⟩
    exact ⟨howed, hlo, by omega, hlt, by simpa [hm] using hk⟩

theorem fits_scan (h : Front topicMatch s s.session) (hs : Sound s) (hread : sc.read =
      scanRead topicMatch sc.subs (s.stream.filter fun m => sc.start ≤ m.seq && m.seq ≤ sc.last))
    (hstart : s.session.cur.next = sc.start) : Fits s.session sc.read := by
  have hlo : ∀ e ∈ sc.read, sc.start ≤ e.seq := by
    intro e he
    rw [hread] at he
    obtain ⟨m, hm, -, rfl⟩ := mem_scanRead.mp he
    simp only [List.mem_filter, Bool.and_eq_true, decide_eq_true_eq] at hm
    exact hm.2.1
  refine ⟨?_, fun e he => ?_, fun e he => ?_, fun e he x hx => ?_⟩
  · rw [hread]
    exact inOrder_scanRead ((hs.sorted.imp fun hlt => hlt.1).sublist List.filter_sublist)
  · rw [hread] at he
    obtain ⟨m, -, -, rfl⟩ := mem_scanRead.mp he
    rfl
  · exact Nat.le_trans h.base_le (hstart ▸ hlo e he)
  · obtain ⟨m, hm, rfl⟩ := h.stored x hx
    have hlt := (h.ok.within m ⟨hm, hx⟩).2
    have := hlo e he
    dsimp only
    omega

theorem scanNext_bounds {start last : Nat} (h : start ≤ last + 1) (floor : Nat) :
    start ≤ Session.scanNext start last floor ∧ Session.scanNext start last floor ≤ last + 1 := by
  unfold Session.scanNext
  split
  · omega
  · exact ⟨h, Nat.le_refl _⟩

theorem Accounts.applied (h : Accounts topicMatch s s.session) (hs : Sound s)
    (hscans : Scans topicMatch b s) (hsc : sc ∈ s.scans) (floor : Nat) :
    ScanApplied s.session sc floor (s.session.applyScanLocked b sc floor).1 := by
  obtain ⟨hstart, -, hread⟩ := hscans.scan sc hsc
  exact .of_eq b fun _ hnext => fits_scan (h (hnext ▸ hstart)) hs hread hnext

theorem Accounts.scanned (h : Accounts topicMatch s s.session) (hs : Sound s) (hrefs : Refs s)
    (hscans : Scans topicMatch b s) (hsc : sc ∈ s.scans) {floor : Nat} :
    Accounts topicMatch s (s.session.applyScanLocked b sc floor).1 := by
  obtain ⟨hstart, hlast, hread⟩ := hscans.scan sc hsc
  have happlied := h.applied hs hscans hsc floor
  generalize (s.session.applyScanLocked b sc floor).1 = result at happlied
  cases happlied with
  | unchanged => exact h
  | dropped hd => exact accounts_of_zero hd.next
  | @moved hcur hle hsame hknown next above hnext holes hh =>
    intro _
    have hf := h (hcur ▸ hstart)
    have hbounds := scanNext_bounds hle floor
    rw [← hnext] at hbounds
    refine ⟨?_, ?_, ?_, hf.held, fun x hx => ?_⟩
    · refine hf.ok.advance (hcur ▸ hbounds.1) hf.base_le fun m => ?_
      unfold Hole
      show (m ∈ s.stream ∧ _ ∈ holes) ↔ _
      rw [hh, hread]
      constructor
      · rintro ⟨hm, hin | hfound⟩
        · exact .inl ⟨hm, hin⟩
        · rw [found_iff_owed hs (hrefs.scans sc hsc) hsame hbounds.2 hm, ← hcur] at hfound
          exact .inr hfound
      · rintro (⟨hm, hin⟩ | howed)
        · exact ⟨hm, .inl hin⟩
        · refine ⟨howed.1.1, .inr ?_⟩
          rw [found_iff_owed hs (hrefs.scans sc hsc) hsame hbounds.2 howed.1.1, ← hcur]
          exact howed
    · exact Nat.le_trans hf.base_le (hcur ▸ hbounds.1)
    · exact Nat.le_trans hbounds.2 (Nat.succ_le_succ hlast)
    · rcases (hh x).mp hx with hx | hfound
      · exact hf.stored x hx
      · rw [hread] at hfound
        exact found_stored hfound

/-! ## Restart scans -/

theorem Scans.restarted (h : Scans topicMatch b s) (hs : Sound s)
    (hr : r ∈ s.restarts) (floor now : Nat) :
    Restarted b s.session r floor now (s.session.restartCursorLocked b r floor now).1 := by
  have hsorted : (s.stream.filter fun m => r.base ≤ m.seq && m.seq ≤ r.last).Pairwise
      fun x y => x.seq < y.seq := (hs.sorted.imp fun hlt => hlt.1).sublist List.filter_sublist
  refine .of_eq b ?_
  rw [(h.restart r hr).read]
  exact inOrder_scanRead hsorted

theorem Accounts.restarted (h : Accounts topicMatch s s.session) (hs : Sound s)
    (hmarks : Marks b s) (hrefs : Refs s) (hscans : Scans topicMatch b s) (hr : r ∈ s.restarts) :
    Accounts topicMatch s (s.session.restartCursorLocked b r (owedFloor s.held) s.now).1 := by
  have hok := hscans.restart r hr
  have hdone := hscans.restarted hs hr (owedFloor s.held) s.now
  generalize (s.session.restartCursorLocked b r (owedFloor s.held) s.now).1 = result at hdone
  cases hdone with
  | unchanged => exact h
  | @set hsame hknown htime hfloor next above hnext holes hh =>
    intro _
    have hle : r.base ≤ next ∧ next ≤ r.last + 1 := by
      have := hok.base_le
      rw [hnext]
      split
      · rename_i hcond
        exact ⟨hfloor hcond.1, by omega⟩
      · exact ⟨this, Nat.le_refl _⟩
    refine ⟨?_, hle.1, Nat.le_trans hle.2 (Nat.succ_le_succ hok.last_le), fun m hm => ?_,
      fun x hx => ?_⟩
    · refine Frontier.Ok.of_read ?_ ?_ hle.1 fun m => ?_
      · rintro m ⟨hm, hk⟩
        exact (hmarks.mark_of_knows hs hm hk).1
      · -- an id is kept for two rewinds, and the scan began less than one ago
        intro m hm hbase
        have hcut := (hok.cut m (hs.sent_mem hm)).mp hbase
        refine ⟨hs.sent_mem hm, (hmarks.recent m hm).resolve_right ?_⟩
        omega
      · unfold Hole
        show (m ∈ s.stream ∧ _ ∈ holes) ↔ _
        rw [hh, hok.read]
        constructor
        · rintro ⟨hm, hfound⟩
          exact (found_iff_owed hs (hrefs.restarts r hr) hsame hle.2 hm).mp hfound
        · intro howed
          exact ⟨howed.1.1, (found_iff_owed hs (hrefs.restarts r hr) hsame hle.2 howed.1.1).mpr
            howed⟩
    · have hpos := (hs.bounded m (hs.held_mem hm)).1
      have hlow : owedFloor s.held ≠ 0 ∧ owedFloor s.held ≤ m.seq :=
        lowestSeq_le (List.mem_map_of_mem hm) (Nat.ne_of_gt hpos)
      exact Nat.le_trans (hfloor hlow.1) hlow.2
    · have hfound := (hh x).mp hx
      rw [hok.read] at hfound
      exact found_stored hfound

/-! ## Stores and subscriptions -/

theorem Front.store (h : Front topicMatch s t) (hs : Sound s)
    (hmarks : Marks b { s with session := t })
    {m : Msg ι τ} (hseq : s.last < m.seq) (hid : ∀ x ∈ s.stream, x.id ≠ m.id)
    {transit : List (Msg ι τ)} :
    Front topicMatch { s with stream := s.stream ++ [m], last := m.seq, transit := transit } t where
  ok := by
    have hnew : ∀ {p : Msg ι τ → Prop}, ¬ p m →
        (fun x => x ∈ s.stream ++ [m] ∧ p x) = fun x => x ∈ s.stream ∧ p x := by
      intro p hp
      funext x
      refine propext ⟨fun hx => ⟨?_, hx.2⟩, fun hx => ⟨List.mem_append_left _ hx.1, hx.2⟩⟩
      refine (List.mem_append.mp hx.1).resolve_right fun hxm => hp ?_
      rw [← List.mem_singleton.mp hxm]
      exact hx.2
    have hhole : (⟨m.id, m.seq⟩ : Stored ι) ∉ t.cur.holes := by
      intro hin
      obtain ⟨x, hx, he⟩ := h.stored _ hin
      rw [Stored.mk.injEq] at he
      exact hid x hx he.1.symm
    have hknown : ¬ t.knows m.id = true := by
      intro hk
      obtain ⟨d, hd, hdid⟩ := knows_iff.mp hk
      obtain ⟨x, hx, hxid, -⟩ := hmarks.sound d hd
      exact hid x (hs.sent_mem hx) (hxid.trans hdid)
    unfold Hole Known
    rw [hnew hhole, hnew hknown]
    refine h.ok.owe fun x hx hlt => ⟨(List.mem_append.mp hx.1).resolve_right fun hxm => ?_, hx.2⟩
    have := h.next_le
    rw [List.mem_singleton.mp hxm] at hlt
    omega
  base_le := h.base_le
  next_le := by
    have := h.next_le
    dsimp only
    omega
  held := h.held
  stored x hx := by
    obtain ⟨y, hy, he⟩ := h.stored x hx
    exact ⟨y, List.mem_append_left _ hy, he⟩

/-- What `readSince` has read is not below the cursor. -/
def Reads (s : State ι φ τ) : Prop :=
  ∀ p ∈ s.reads, p.1 < s.nextRef ∧ ∀ sub ∈ s.session.subs, sub.ref = p.1 → sub.shared = false →
    sub.since = none → s.session.cur.next ≤ p.2 + 1

omit [DecidableEq ι] in
theorem Reads.keep (h : Reads s) (hreads : ∀ p ∈ s'.reads, p ∈ s.reads)
    (href : s'.nextRef = s.nextRef) (hsubs : s'.session.subs = s.session.subs)
    (hnext : s'.session.cur.next = s.session.cur.next ∨ s'.session.cur.next = 0) : Reads s' := by
  intro p hp
  obtain ⟨hlt, hsub⟩ := h p (hreads p hp)
  rw [href, hsubs]
  refine ⟨hlt, fun sub hmem he hsh hnone => ?_⟩
  have := hsub sub hmem he hsh hnone
  omega

omit [DecidableEq ι] in
/-- A cursor moves only when every `since` is known. -/
theorem Reads.of_known (h : Reads s) (hreads : ∀ p ∈ s'.reads, p ∈ s.reads)
    (href : s'.nextRef = s.nextRef) (hsubs : s'.session.subs = s.session.subs)
    (hk : s.session.sinceKnownLocked = true) : Reads s' := by
  intro p hp
  rw [href, hsubs]
  refine ⟨(h p (hreads p hp)).1, fun sub hmem he hsh hnone => ?_⟩
  simp only [Session.sinceKnownLocked, List.all_eq_true, Bool.or_eq_true] at hk
  have := hk sub hmem
  simp [hsh, hnone] at this

theorem lateHole_next (b : Bounds) (t : Session ι φ) (seq : Nat) (id : ι) :
    (t.lateHole b seq (some id)).cur.next = t.cur.next ∨
      (t.lateHole b seq (some id)).cur.next = 0 := by
  unfold Session.lateHole
  split
  · have hadd := HoleAdded.of_eq b t seq id
    generalize t.addHoleLocked b seq (some id) = result at hadd
    cases hadd with
    | dropped hd => exact .inr hd.next
    | had _ _ => exact .inl rfl
    | added _ _ _ _ => exact .inl rfl
  · exact .inl rfl

/-! ## Every step keeps it -/

structure Inv (topicMatch : φ → τ → Bool) (b : Bounds) (s : State ι φ τ) : Prop where
  sound : Sound s
  marks : Marks b s
  refs : Refs s
  scans : Scans topicMatch b s
  reads : Reads s
  accounts : Accounts topicMatch s s.session

theorem Accounts.receive (h : Accounts topicMatch s s.session) (hs : Sound s)
    (hm : m ∈ s.transit) : Accounts topicMatch s (receive b s m) := by
  unfold Cursor.receive
  split
  · rw [lateCopy_eq]
    exact (h.lateHole hs (hs.transit_mem hm) (hs.transit_unsent hm)).1.alike (noteLate_alike _ _ _)
  · exact h

theorem receive_next (s : State ι φ τ) (m : Msg ι τ) :
    (receive b s m).cur.next = s.session.cur.next ∨ (receive b s m).cur.next = 0 := by
  unfold Cursor.receive
  split
  · rw [lateCopy_eq, (noteLate_alike _ _ _).cur]
    exact lateHole_next b _ _ _
  · exact .inl rfl

theorem late_eq (hc : s.session.conn = none) : (s.session.lateCopy b none m.seq (some m.id)).1 =
      ((s.session.lateHole b m.seq (some m.id)).noteLate m.seq
        ((s.session.lateHole b m.seq (some m.id)).cur.holes.length !=
          s.session.cur.holes.length)).1 := by
  have h := lateCopy_eq b s.session m.seq (some m.id)
  rw [hc] at h
  rw [h]

variable [DecidableEq φ] [DecidableEq τ]

theorem Inv.accounts_step (h : Inv topicMatch b s) (hs : Outcome topicMatch b s s') :
    Accounts topicMatch s' s'.session := by
  cases hs with
  | store hseq htime hid ht => exact fun hn => (h.accounts hn).store h.sound h.marks hseq hid
  | @arrive m hm hc =>
    have hms := h.sound.transit_mem hm
    obtain ⟨hacc, hbase⟩ := (h.accounts.receive (b := b) h.sound hm).lateHole (b := b) h.sound hms
      (h.sound.transit_unsent hm)
    dsimp only
    rw [noteLiveCopy_eq h.sound hms]
    intro hn
    have hf := hacc hn
    refine hf.keep rfl rfl rfl (fun x hx => ?_) (fun x hx _ => hx) rfl rfl rfl rfl
    rcases List.mem_append.mp hx with hx | hx
    · exact hf.held x hx
    · rw [List.mem_singleton.mp hx]
      exact hbase hn
  | @deliver m hm ho =>
    have hnoted := noteDelivered_spec b s.session s.now m.id m.seq
    intro hn
    have hpos : s.session.cur.next ≠ 0 := (hnoted.cur.resolve_left hn).1 ▸ hn
    exact (h.accounts hpos).deliver h.sound h.marks hm (fun x hx => List.mem_of_mem_erase hx) hnoted
      hn
      rfl rfl rfl rfl hpos
  | scanned hsc hrest ht =>
    rcases ht with rfl | ⟨-, rfl⟩
    · exact h.accounts.quiet rfl rfl rfl rfl
    · exact (h.accounts.scanned h.sound h.refs h.scans hsc).quiet rfl rfl rfl rfl
  | restarted hr hrest ht =>
    rcases ht with rfl | ⟨-, rfl⟩
    · exact h.accounts.quiet rfl rfl rfl rfl
    · exact (h.accounts.restarted h.sound h.marks h.refs h.scans hr).quiet rfl rfl rfl rfl
  | @subscribe c sub t href hnone hi =>
    intro hn
    have howed : ∀ m, Owed topicMatch s t m → Owed topicMatch s s.session m := by
      rintro m ⟨hm, x, hx, howes⟩
      exact ⟨hm, owes_of_installed hnone hi hx howes⟩
    obtain ⟨since, rfl, -⟩ := installSubscription_spec hnone hi
    have hf := h.accounts hn
    exact hf.keep rfl rfl rfl hf.held (fun m hm _ => howed m hm) rfl rfl rfl rfl
  | @setSince ref last c floor rest hr hrest =>
    dsimp only
    rw [setSince_same]
    intro hn
    have hf := h.accounts hn
    refine hf.keep rfl rfl rfl hf.held (fun m hm hlt => ⟨hm.1, ?_⟩) rfl rfl rfl rfl
    obtain ⟨x, hx, howes⟩ := hm.2
    obtain ⟨y, hy, hold | ⟨href, hsince, htakes, hlast⟩⟩ := owes_of_swapSince hx howes
    · exact ⟨y, hy, hold⟩
    · -- the cursor is not above what was read, so nothing below it is new
      have hle := (h.reads _ hr).2 y hy (by simpa using href) (takes_iff.mp htakes).1 hsince
      dsimp only at hle
      omega
  | drop => exact accounts_of_zero rfl
  | late hm hc =>
    dsimp only
    rw [late_eq hc]
    have hacc := (h.accounts.lateHole (b := b) h.sound (h.sound.transit_mem hm)
      (h.sound.transit_unsent hm)).1
    exact (hacc.alike (noteLate_alike _ _ _)).quiet rfl rfl rfl rfl
  | release hc hclosed =>
    intro hn
    exact (h.accounts hn).keep rfl rfl rfl (by simp) (fun _ hx _ => hx) rfl rfl rfl rfl
  | _ => exact h.accounts.quiet rfl rfl rfl rfl

theorem Inv.reads_step (h : Inv topicMatch b s) (hs : Outcome topicMatch b s s') : Reads s' := by
  cases hs with
  | @arrive m hm hc =>
    refine h.reads.keep (fun _ hp => hp) rfl (arrive_same s m).subs ?_
    dsimp only
    rw [noteLiveCopy_eq h.sound (h.sound.transit_mem hm)]
    rcases lateHole_next b (receive b s m) m.seq m.id with he | he
    · rw [he]
      exact receive_next s m
    · exact .inr he
  | @deliver m hm ho =>
    have hnoted := noteDelivered_spec b s.session s.now m.id m.seq
    exact h.reads.keep (fun _ hp => hp) rfl hnoted.subs (hnoted.cur.symm.imp_left And.left)
  | @scanned sc rest hsc hrest t ht =>
    rcases ht with rfl | ⟨-, rfl⟩
    · exact h.reads.keep (fun _ hp => hp) rfl rfl (.inl rfl)
    · have happlied := h.accounts.applied h.sound h.scans hsc (owedFloor s.held)
      have hsame := applyScanLocked_same b s.session sc (owedFloor s.held)
      generalize (s.session.applyScanLocked b sc (owedFloor s.held)).1 = result at happlied hsame
      cases happlied with
      | unchanged => exact h.reads.keep (fun _ hp => hp) rfl rfl (.inl rfl)
      | dropped hd => exact h.reads.keep (fun _ hp => hp) rfl hsame.subs (.inr hd.next)
      | moved _ _ _ hknown _ _ => exact h.reads.of_known (fun _ hp => hp) rfl rfl hknown
  | @restarted r rest hr hrest t ht =>
    rcases ht with rfl | ⟨-, rfl⟩
    · exact h.reads.keep (fun _ hp => hp) rfl rfl (.inl rfl)
    · have hdone := h.scans.restarted h.sound hr (owedFloor s.held) s.now
      generalize (s.session.restartCursorLocked b r (owedFloor s.held) s.now).1 = result at hdone
      cases hdone with
      | unchanged => exact h.reads.keep (fun _ hp => hp) rfl rfl (.inl rfl)
      | set _ hknown _ _ _ _ => exact h.reads.of_known (fun _ hp => hp) rfl rfl hknown
  | @subscribe c sub t href hnone hi =>
    obtain ⟨since, rfl, -⟩ := installSubscription_spec hnone hi
    intro p hp
    obtain ⟨hlt, hsub⟩ := h.reads p hp
    refine ⟨Nat.lt_succ_of_lt hlt, fun x hx he => ?_⟩
    rcases (Keyed.mem_put _).mp hx with ⟨hx, -⟩ | rfl
    · exact hsub x hx he
    · rw [← he, href] at hlt
      exact absurd hlt (Nat.lt_irrefl _)
  | readSince hsub =>
    intro p hp
    rcases List.mem_append.mp hp with hp | hp
    · exact h.reads p hp
    · obtain rfl := List.mem_singleton.mp hp
      refine ⟨h.refs.lt _ hsub, fun _ _ _ _ _ => ?_⟩
      by_cases hn : s.session.cur.next = 0
      · dsimp only
        omega
      · exact (h.accounts hn).next_le
  | @setSince ref last c floor rest hr hrest =>
    intro p hp
    obtain ⟨hlt, hsub⟩ := h.reads p (hrest p hp)
    dsimp only
    rw [setSince_same]
    refine ⟨hlt, fun x hx he hsh hnone => ?_⟩
    obtain ⟨y, hy, rfl⟩ := List.mem_map.mp hx
    by_cases hc : (decide (y.ref ∈ [ref]) && y.since.isNone) = true
    · rw [if_pos hc] at hnone
      exact absurd hnone (by simp)
    · rw [if_neg hc] at he hsh hnone
      exact hsub y hy he hsh hnone
  | late hm hc =>
    refine h.reads.keep (fun _ hp => hp) rfl (late_same hc).subs ?_
    dsimp only
    rw [late_eq hc, (noteLate_alike _ _ _).cur]
    exact lateHole_next b _ _ _
  | drop => exact h.reads.keep (fun _ hp => hp) rfl rfl (.inr rfl)
  | _ => exact h.reads.keep (fun _ hp => hp) rfl rfl (.inl rfl)

theorem Inv.step (h : Inv topicMatch b s) (hs : Outcome topicMatch b s s') :
    Inv topicMatch b s' where
  sound := h.sound.step hs
  marks := h.marks.step h.sound hs
  refs := h.refs.step hs
  scans := h.scans.step h.sound hs
  reads := h.reads_step hs
  accounts := h.accounts_step hs

/-! ## Runs -/

/-- A session whose cursor `setSince` has set: nothing is owed below it, nothing was sent yet, and
no scan is under way. -/
structure Start (s : State ι φ τ) : Prop where
  sound : Sound s
  held : s.held = []
  sent : s.sent = []
  scans : s.scans = []
  restarts : s.restarts = []
  reads : s.reads = []
  delivered : s.session.delivered = []
  nodup : (s.session.subs.map Sub.ref).Nodup
  lt : ∀ sub ∈ s.session.subs, sub.ref < s.nextRef
  since : ∀ sub ∈ s.session.subs, ∀ n, sub.since = some n → s.session.cur.next ≤ n + 1
  next_le : s.session.cur.next ≤ s.last + 1
  holes : s.session.cur.holes = []
  base : s.session.cur.base = 0
  attached : s.session.conn.isSome = true ∧ s.closed = false
  away : s.session.away = {} ∧ s.session.lateSeq = 0

omit [DecidableEq φ] [DecidableEq τ] in
theorem Start.front (h : Start s) : Front topicMatch s s.session where
  ok :=
    { below := by
        rintro m ⟨-, sub, hsub, howes⟩ - hlt
        obtain ⟨-, n, hn, hlast⟩ := owes_iff.mp howes
        have := h.since sub hsub n hn
        omega
      above := by simp [h.sent]
      undone := by simp [h.sent]
      within := by simp [Hole, h.holes]
      sound := by simp [Known, Session.knows, Keyed.find, h.delivered] }
  base_le := by simp [h.base]
  next_le := h.next_le
  held := by simp [h.held]
  stored := by simp [h.holes]

omit [DecidableEq φ] [DecidableEq τ] in
theorem Start.inv (h : Start s) : Inv topicMatch b s where
  sound := h.sound
  marks := ⟨by simp [h.delivered], by simp [h.sent]⟩
  refs := ⟨h.nodup, h.lt, by simp [h.scans], by simp [h.restarts]⟩
  scans := ⟨by simp [h.scans], by simp [h.restarts]⟩
  reads := by simp [Reads, h.reads]
  accounts _ := h.front

theorem Inv.of_reach {s₀ : State ι φ τ} (h0 : Start s₀)
    (h : Lts.Reach (Cursor.step topicMatch b) Lts.free s₀ s) : Inv topicMatch b s :=
  h.invariant h0.inv fun _ _ _ hi _ hs => hi.step (.of_step hs)

/-- What a replay from the cursor rests on. -/
structure CursorOk (topicMatch : φ → τ → Bool) (s : State ι φ τ) : Prop where
  /-- What is owed between `base` and `next` was sent, or is a hole. -/
  below : ∀ m ∈ s.stream, (∃ sub ∈ s.session.subs, sub.owes topicMatch m = true) →
    s.session.cur.base ≤ m.seq → m.seq < s.session.cur.next →
    m ∈ s.sent ∨ ⟨m.id, m.seq⟩ ∈ s.session.cur.holes
  /-- What was sent from `next` on has its id in `session.delivered`. -/
  above : ∀ m ∈ s.sent, s.session.cur.next ≤ m.seq → s.session.knows m.id = true
  /-- A hole is a message that was not sent, from `base` up to `next`. -/
  holes : ∀ x ∈ s.session.cur.holes, ∃ m ∈ s.stream, x = ⟨m.id, m.seq⟩ ∧ m ∉ s.sent ∧
    s.session.cur.base ≤ m.seq ∧ m.seq < s.session.cur.next
  /-- The connection holds nothing below `base`. -/
  held : ∀ m ∈ s.held, s.session.cur.base ≤ m.seq
  /-- The cursor is not past the stream's end. -/
  next_le : s.session.cur.next ≤ s.last + 1

omit [DecidableEq φ] [DecidableEq τ] in
theorem Front.cursorOk (h : Front topicMatch s s.session) : CursorOk topicMatch s where
  below m hm howed hb hn := (h.ok.below m ⟨hm, howed⟩ hb hn).imp_right And.right
  above m hm hn := (h.ok.above m hm hn).2
  holes x hx := by
    obtain ⟨m, hm, rfl⟩ := h.stored x hx
    obtain ⟨hb, hn⟩ := h.ok.within m ⟨hm, hx⟩
    exact ⟨m, hm, rfl, h.ok.undone m ⟨hm, hx⟩, hb, hn⟩
  held := h.held
  next_le := h.next_le

/-- **The invariants of the replay cursor.** In every run from a session whose cursor has just been
set, a session that has a cursor accounts by it for all it is owed. -/
theorem cursor_accounts {s₀ : State ι φ τ} (h0 : Start s₀)
    (h : Lts.Reach (Cursor.step topicMatch b) Lts.free s₀ s) (hn : s.session.cur.next ≠ 0) :
    CursorOk topicMatch s :=
  ((Inv.of_reach h0 h).accounts hn).cursorOk

/-- A client that has subscribed to one topic, on an empty stream. -/
def subscribed : State Nat Nat Nat :=
  { session := { conn := some 0
                 subs := [⟨0, 0, false, .qos1, false, some 0⟩]
                 cur := { next := 1 } }
    nextRef := 1 }

theorem start_subscribed : Start subscribed where
  sound := ⟨.nil, by simp [subscribed], by simp [subscribed], by simp [subscribed]⟩
  held := rfl
  sent := rfl
  scans := rfl
  restarts := rfl
  reads := rfl
  delivered := rfl
  nodup := by decide
  lt := by decide
  since := by simp [subscribed]
  next_le := by decide
  holes := rfl
  base := rfl
  attached := by decide
  away := ⟨rfl, rfl⟩

/-- A message on that topic, stored at time 0 under its sequence. -/
def published (seq : Nat) : Msg Nat Nat := ⟨seq, seq, 0, .qos1, 0, false⟩

/-- The live copy of the first of two messages never comes. A scan finds it, the cursor outgrows a
bound, and a restart scan finds it again. -/
def restartedRun : List (Act Nat Nat Nat) :=
  [.store (published 1) false, .store (published 2) true, .arrive (published 2),
    .deliver (published 2),
   .beginScan, .applyScan 0, .drop, .beginRestart, .applyRestart 0]

/-- The result holds of a run with a scan and a restart. -/
theorem cursor_accounts_restarted :
    ∃ s, Lts.Reach (step (· == ·) ⟨100, 1, 9, 9⟩) Lts.free subscribed s ∧
      (s.session.cur.base = 1 ∧ s.session.cur.next = 3 ∧ s.session.cur.holes = [⟨1, 1⟩]) ∧
      CursorOk (· == ·) s := by
  exact Lts.exists_reach_of restartedRun (by decide) fun s hr hcur =>
    cursor_accounts start_subscribed hr (by rw [hcur.2.1]; decide)

/-- **`session.delivered` tells what was sent.** In every run from a session whose cursor has just
been set: an id in it is of a message that was sent, under its sequence, and no id of a message
stored within the last two windows is pruned. -/
theorem delivered_tells_sent {s₀ : State ι φ τ} (h0 : Start s₀)
    (h : Lts.Reach (Cursor.step topicMatch b) Lts.free s₀ s) :
    (∀ d ∈ s.session.delivered, ∃ m ∈ s.sent, m.id = d.id ∧ m.seq = d.seq ∧ m.stored ≤ d.time) ∧
      ∀ m ∈ s.sent, s.now ≤ m.stored + 2 * b.window → s.session.knows m.id = true := by
  have hmarks := (Inv.of_reach h0 h).marks
  exact ⟨hmarks.sound, fun m hm hle => (hmarks.recent m hm).resolve_right (Nat.not_lt.mpr hle)⟩

theorem delivered_tells_sent_restarted :
    ∃ s, Lts.Reach (step (· == ·) ⟨100, 1, 9, 9⟩) Lts.free subscribed s ∧
      published 2 ∈ s.sent ∧ s.session.knows 2 = true := by
  obtain ⟨s, hr, hm, hn⟩ : ∃ s, Lts.Reach (step (· == ·) ⟨100, 1, 9, 9⟩) Lts.free subscribed s ∧
    published 2 ∈ s.sent ∧ s.now = 0 := Lts.exists_reach restartedRun (by decide)
  exact ⟨s, hr, hm, (delivered_tells_sent start_subscribed hr).2 _ hm (by simp [hn])⟩

end Natsmqtt5.Cursor
