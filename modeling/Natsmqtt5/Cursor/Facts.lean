import Natsmqtt5.Cursor.Session

/-!
# What the cursor's functions do

One statement for each function of the session, so that a proof about runs opens none of them.

* `HoleAdded.of_eq`: `addHoleLocked` drops the cursor, or leaves it with the hole.
* `addHoles_spec`, `restartHoles_spec`: the loops of a scan and a restart scan over what was read.
* `noteDelivered_spec`: the ids `noteDelivered` keeps, and the hole it closes.
* `ScanApplied.of_eq`, `Restarted.of_eq`: what applying a scan and a restart scan can do.
-/

namespace Natsmqtt5.Cursor

/-! ## Ids and holes -/

section Facts

variable {ι φ : Type} [DecidableEq ι] {b : Bounds} {s s' : Session ι φ} {cur : ReplayCursor ι}
  {holes : List (Stored ι)} {read : List (Scanned ι)} {m : Scanned ι} {d : Mark ι} {id : ι}
  {next now floor : Nat}

omit [DecidableEq ι] in
theorem find_isSome {α K : Type} [DecidableEq K] {key : α → K} {l : List α} {k : K} :
    (Keyed.find key l k).isSome = true ↔ ∃ a ∈ l, key a = k := by
  unfold Keyed.find
  rw [List.find?_isSome]
  simp

omit [DecidableEq ι] in
theorem mem_of_getElem? {α : Type} {l : List α} {i : Nat} {a : α} (h : l[i]? = some a) :
    a ∈ l ∧ ∀ x ∈ l.eraseIdx i, x ∈ l :=
  ⟨List.mem_of_getElem? h, fun _ hx => List.mem_of_mem_eraseIdx hx⟩

theorem knows_iff : s.knows id = true ↔ ∃ d ∈ s.delivered, d.id = id := find_isSome

/-- The cursor and the late copies may differ, and nothing else. -/
structure Same (s s' : Session ι φ) : Prop where
  conn : s'.conn = s.conn
  subs : s'.subs = s.subs
  delivered : s'.delivered = s.delivered

omit [DecidableEq ι] in
theorem Same.refl (s : Session ι φ) : Same s s := ⟨rfl, rfl, rfl⟩

omit [DecidableEq ι] in
theorem Same.trans {s'' : Session ι φ} (h : Same s s') (h' : Same s' s'') : Same s s'' :=
  ⟨h'.conn.trans h.conn, h'.subs.trans h.subs, h'.delivered.trans h.delivered⟩

/-- Late arrivals are as they were, or forgotten. -/
structure SameLate (s s' : Session ι φ) : Prop where
  lateSeq : s'.lateSeq = s.lateSeq ∨ s'.lateSeq = 0
  away : s'.away = { s.away with lateSeq := s'.away.lateSeq }
  awayLate : s'.away.lateSeq = s.away.lateSeq ∨ s'.away.lateSeq = 0

omit [DecidableEq ι] in
theorem SameLate.trans {s'' : Session ι φ} (h : SameLate s s') (h' : SameLate s' s'') :
    SameLate s s'' where
  lateSeq := h'.lateSeq.elim (fun he => he ▸ h.lateSeq) .inr
  away := by rw [h'.away, h.away]
  awayLate := h'.awayLate.elim (fun he => he ▸ h.awayLate) .inr

/-- What dropping the cursor leaves. -/
structure Dropped (s s' : Session ι φ) : Prop extends SameLate s s' where
  next : s'.cur.next = 0
  base : s'.cur.base = 0
  gen : s.cur.gen < s'.cur.gen
  same : Same s s'

omit [DecidableEq ι] in
theorem keepSafe_eq (s : Session ι φ) (seq : Nat) : s.keepSafe seq = seq ∨ s.keepSafe seq = 0 := by
  unfold Session.keepSafe
  split
  · exact .inr rfl
  · exact .inl rfl

omit [DecidableEq ι] in
theorem dropCursorLocked_dropped (s : Session ι φ) : Dropped s s.dropCursorLocked where
  next := rfl
  base := rfl
  gen := Nat.lt_succ_self _
  same := ⟨rfl, rfl, rfl⟩
  lateSeq := keepSafe_eq s _
  away := rfl
  awayLate := keepSafe_eq s _

/-- The session with its holes changed. -/
def Session.withHoles (s : Session ι φ) (holes : List (Stored ι)) : Session ι φ :=
  { s with cur := { s.cur with holes := holes } }

/-- What `addHoleLocked` can do. -/
inductive HoleAdded (s : Session ι φ) (seq : Nat) (id : ι) : Session ι φ × Bool → Prop
  | dropped {s' : Session ι φ} (h : Dropped s s') : HoleAdded s seq id (s', false)
  | had (hb : s.cur.base ≤ seq) (h : s.knows id = true ∨ ∃ x ∈ s.cur.holes, x.seq = seq) :
      HoleAdded s seq id (s, true)
  | added (hb : s.cur.base ≤ seq) (hk : s.knows id = false) (hn : ∀ x ∈ s.cur.holes, x.seq ≠ seq)
      {holes : List (Stored ι)} (hh : ∀ x, x ∈ holes ↔ x ∈ s.cur.holes ∨ x = ⟨id, seq⟩) :
      HoleAdded s seq id (s.withHoles holes, true)

theorem HoleAdded.of_eq (b : Bounds) (s : Session ι φ) (seq : Nat) (id : ι) :
    HoleAdded s seq id (s.addHoleLocked b seq (some id)) := by
  simp only [Session.addHoleLocked]
  split
  · exact .dropped (dropCursorLocked_dropped s)
  · rename_i hb
    replace hb := Nat.le_of_not_lt hb
    split
    · rename_i hk
      exact .had hb (.inl hk)
    · rename_i hk
      split
      · rename_i hh
        exact .had hb (.inr (find_isSome.mp hh))
      · rename_i hh
        have hn : ∀ x ∈ s.cur.holes, x.seq ≠ seq := fun x hx he => hh (find_isSome.mpr ⟨x, hx, he⟩)
        split
        · exact .dropped (dropCursorLocked_dropped s)
        · refine .added hb (Bool.eq_false_iff.mpr hk) hn fun x => ?_
          rw [Keyed.mem_put]
          exact or_congr_left (and_iff_left_of_imp (hn x))

theorem addHoleLocked_same (b : Bounds) (s : Session ι φ) (seq : Nat) (id : Option ι) :
    Same s (s.addHoleLocked b seq id).1 := by
  cases id with
  | none => exact (dropCursorLocked_dropped s).same
  | some id =>
    have h := HoleAdded.of_eq b s seq id
    generalize s.addHoleLocked b seq (some id) = result at h
    cases h with
    | dropped h => exact h.same
    | had _ _ => exact .refl s
    | added _ _ _ _ => exact ⟨rfl, rfl, rfl⟩

/-! ## The loops of the scans -/

/-- What a read leaves in holes below `next`. -/
def Found (s : Session ι φ) (next : Nat) (read : List (Scanned ι)) (x : Stored ι) : Prop :=
  (∃ m ∈ read, m.owed = true ∧ m.id = some x.id ∧ m.seq = x.seq) ∧ x.seq < next ∧
    s.knows x.id = false

/-- The read is in the order of the stream. -/
def InOrder (read : List (Scanned ι)) : Prop := read.Pairwise fun x y => x.seq < y.seq

theorem not_found_of_le (ho : InOrder (m :: read))
    (hm : next ≤ m.seq) (x : Stored ι) : ¬ Found s next (m :: read) x := by
  rintro ⟨⟨y, hy, -, -, hseq⟩, hlt, -⟩
  rcases List.mem_cons.mp hy with rfl | hy
  · omega
  · have := (List.pairwise_cons.mp ho).1 y hy
    omega

theorem found_cons {x : Stored ι} : Found s next (m :: read) x ↔ Found s next read x ∨
      m.owed = true ∧ m.id = some x.id ∧ m.seq = x.seq ∧ x.seq < next ∧ s.knows x.id = false := by
  unfold Found
  simp only [List.mem_cons, exists_eq_or_imp]
  constructor
  · rintro ⟨⟨howed, hid, hseq⟩ | hin, hlt, hk⟩
    · exact .inr ⟨howed, hid, hseq, hlt, hk⟩
    · exact .inl ⟨hin, hlt, hk⟩
  · rintro (⟨hin, hlt, hk⟩ | ⟨howed, hid, hseq, hlt, hk⟩)
    · exact ⟨.inr hin, hlt, hk⟩
    · exact ⟨.inl ⟨howed, hid, hseq⟩, hlt, hk⟩

/-- A read that a cursor can be moved over: in order, with ids, and above all holes. -/
structure Fits (s : Session ι φ) (read : List (Scanned ι)) : Prop where
  order : InOrder read
  ids : ∀ m ∈ read, m.id.isSome
  base : ∀ m ∈ read, s.cur.base ≤ m.seq
  clear : ∀ m ∈ read, ∀ x ∈ s.cur.holes, x.seq ≠ m.seq

omit [DecidableEq ι] in
theorem Fits.tail (h : Fits s (m :: read)) : Fits s read where
  order := (List.pairwise_cons.mp h.order).2
  ids m' hm' := h.ids m' (List.mem_cons_of_mem _ hm')
  base m' hm' := h.base m' (List.mem_cons_of_mem _ hm')
  clear m' hm' := h.clear m' (List.mem_cons_of_mem _ hm')

/-- The loop of `applyScanLocked`. -/
theorem addHoles_spec (b : Bounds) (next : Nat) (hf : Fits s read) :
    (∃ holes, s.addHoles b next read = (s.withHoles holes, true) ∧
      ∀ x, x ∈ holes ↔ x ∈ s.cur.holes ∨ Found s next read x) ∨
    ∃ s', s.addHoles b next read = (s', false) ∧ Dropped s s' := by
  induction read generalizing s with
  | nil =>
    refine .inl ⟨s.cur.holes, rfl, fun x => ?_⟩
    simp [Found]
  | cons m read ih =>
    rw [Session.addHoles]
    split
    · rename_i hle
      refine .inl ⟨s.cur.holes, rfl, fun x => ?_⟩
      simp [not_found_of_le hf.order hle x]
    · rename_i hlt
      split
      · rename_i howed
        -- not owed: the loop goes on with the same session
        have hskip : ∀ x, Found s next (m :: read) x ↔ Found s next read x := by
          intro x
          rw [found_cons, or_iff_left]
          simp_all
        simp only [hskip]
        exact ih hf.tail
      · rename_i howed
        simp only [Bool.not_eq_true, Bool.not_eq_false'] at howed
        obtain ⟨id, hmid⟩ := Option.isSome_iff_exists.mp (hf.ids m List.mem_cons_self)
        have hadd := HoleAdded.of_eq b s m.seq id
        rw [hmid]
        generalize s.addHoleLocked b m.seq (some id) = result at hadd
        cases hadd with
        | dropped h => exact .inr ⟨_, rfl, h⟩
        | had hbase h =>
          have hk : s.knows id = true := by
            refine h.resolve_right ?_
            rintro ⟨x, hx, he⟩
            exact hf.clear m List.mem_cons_self x hx he
          have hskip : ∀ x, Found s next (m :: read) x ↔ Found s next read x := by
            intro x
            rw [found_cons, or_iff_left]
            rintro ⟨-, hx, -, -, hkx⟩
            rw [hmid, Option.some.injEq] at hx
            rw [← hx, hk] at hkx
            exact absurd hkx (by simp)
          simp only [hskip]
          exact ih hf.tail
        | added hbase hk _ hh =>
          rename_i holes
          have hfits : Fits (s.withHoles holes) read := by
            refine { hf.tail with clear := fun m' hm' x hx => ?_ }
            rcases (hh x).mp hx with hx | rfl
            · exact hf.tail.clear m' hm' x hx
            · exact Nat.ne_of_lt ((List.pairwise_cons.mp hf.order).1 m' hm')
          have hxm : ∀ x : Stored ι, x = ⟨id, m.seq⟩ ↔ m.owed = true ∧ m.id = some x.id ∧
              m.seq = x.seq ∧ x.seq < next ∧ s.knows x.id = false := by
            intro x
            constructor
            · rintro rfl
              exact ⟨howed, hmid, rfl, Nat.lt_of_not_le hlt, hk⟩
            · rintro ⟨-, hid', hseq, -⟩
              rw [hmid, Option.some.injEq] at hid'
              rw [hid', hseq]
          refine (ih hfits).imp ?_ ?_
          · rintro ⟨holes', he, hx'⟩
            refine ⟨holes', he, fun x => ?_⟩
            rw [hx' x, found_cons, ← hxm]
            show (x ∈ holes ∨ Found s next read x) ↔ _
            rw [hh x]
            tauto
          · rintro ⟨s', he, hd⟩
            have hsame : Same s s' := { hd.same with }
            exact ⟨s', he, { hd with same := hsame }⟩

/-- What applying a scan can do. -/
inductive ScanApplied (s : Session ι φ) (sc : Scan ι φ) (floor : Nat) : Session ι φ → Prop
  | unchanged : ScanApplied s sc floor s
  | dropped {s' : Session ι φ} (h : Dropped s s') : ScanApplied s sc floor s'
  | moved (hstart : s.cur.next = sc.start) (hle : sc.start ≤ sc.last + 1)
      (hsame : s.sameSubsLocked sc.subs = true) (hknown : s.sinceKnownLocked = true)
      {next above : Nat} (hnext : next = Session.scanNext sc.start sc.last floor)
      {holes : List (Stored ι)} (hh : ∀ x, x ∈ holes ↔ x ∈ s.cur.holes ∨ Found s next sc.read x) :
      ScanApplied s sc floor
        { s with cur := { s.cur with next := next, holes := holes, above := above } }

theorem ScanApplied.of_eq (b : Bounds) {sc : Scan ι φ}
    (hf : s.cur.gen = sc.gen → s.cur.next = sc.start → Fits s sc.read) :
    ScanApplied s sc floor (s.applyScanLocked b sc floor).1 := by
  unfold Session.applyScanLocked
  split
  · exact .unchanged
  · rename_i hgen
    simp only [not_or, not_not] at hgen
    split
    · exact .dropped (dropCursorLocked_dropped s)
    · rename_i hle
      split
      · exact .unchanged
      · rename_i hsame
        split
        · exact .unchanged
        · rename_i hknown
          rcases addHoles_spec b (Session.scanNext sc.start sc.last floor) (hf hgen.1 hgen.2) with
            ⟨holes, he, hh⟩ | ⟨s', he, hd⟩
          · simp only [he]
            exact .moved hgen.2 (Nat.le_of_not_lt hle) (by simpa using hsame)
              (by simpa using hknown)
              rfl hh
          · simp only [he]
            exact .dropped hd

theorem addHoles_same (b : Bounds) (next : Nat) (read : List (Scanned ι)) (s : Session ι φ) :
    Same s (s.addHoles b next read).1 := by
  induction read generalizing s with
  | nil => exact .refl s
  | cons m read ih =>
    rw [Session.addHoles]
    split
    · exact .refl s
    · split
      · exact ih s
      · have h := addHoleLocked_same b s m.seq m.id
        split
        · rename_i t ht
          rw [ht] at h
          exact h.trans (ih t)
        · rename_i t ht
          rw [ht] at h
          exact h

theorem applyScanLocked_same (b : Bounds) (s : Session ι φ) (sc : Scan ι φ) (floor : Nat) :
    Same s (s.applyScanLocked b sc floor).1 := by
  unfold Session.applyScanLocked
  split
  · exact .refl s
  · split
    · exact (dropCursorLocked_dropped s).same
    · split
      · exact .refl s
      · split
        · exact .refl s
        · have h := addHoles_same b (Session.scanNext sc.start sc.last floor) sc.read s
          dsimp only
          split
          · rename_i t ht
            rw [ht] at h
            exact h
          · rename_i t ht
            rw [ht] at h
            exact { h with }

/-! ## Restarting the cursor -/

/-- The loop of `restartCursorLocked`. -/
theorem restartHoles_spec (ho : InOrder read) (h : s.restartHoles next read = some holes) :
    (∀ x, x ∈ holes ↔ Found s next read x) ∧ holes.Pairwise fun x y => x.seq < y.seq := by
  induction read generalizing holes with
  | nil =>
    simp only [Session.restartHoles, Option.some.injEq] at h
    subst h
    simp [Found]
  | cons m read ih =>
    have htail := List.pairwise_cons.mp ho
    rw [Session.restartHoles] at h
    split at h
    · rename_i hle
      cases h
      exact ⟨fun x => by simp [not_found_of_le ho hle x], .nil⟩
    · rename_i hlt
      split at h
      · rename_i hskip
        refine ⟨fun x => ?_, (ih htail.2 h).2⟩
        rw [(ih htail.2 h).1 x, found_cons, or_iff_left]
        rintro ⟨howed, hid, -, -, hk⟩
        rw [hid, howed] at hskip
        simp [hk] at hskip
      · rename_i hkeep
        simp only [Bool.or_eq_true, Bool.not_eq_true', not_or, Bool.not_eq_false] at hkeep
        cases hid : m.id with
        | none => rw [hid] at h; exact absurd h (by simp)
        | some id =>
          rw [hid] at h hkeep
          obtain ⟨rest, hrest, rfl⟩ := Option.map_eq_some_iff.mp h
          have hr := ih htail.2 hrest
          refine ⟨fun x => ?_, List.pairwise_cons.mpr ⟨fun y hy => ?_, hr.2⟩⟩
          · rw [List.mem_cons, hr.1 x, found_cons, or_comm]
            refine or_congr_right ⟨?_, ?_⟩
            · rintro rfl
              exact ⟨hkeep.1, hid, rfl, Nat.lt_of_not_le hlt, by simpa using hkeep.2⟩
            · rintro ⟨-, hx, hseq, -⟩
              rw [hid, Option.some.injEq] at hx
              rw [hx, hseq]
          · obtain ⟨⟨z, hz, -, -, hseq⟩, -⟩ := (hr.1 y).mp hy
            rw [← hseq]
            exact htail.1 z hz

omit [DecidableEq ι] in
/-- Holes with sequences of their own are all kept. -/
theorem mem_foldl_addHole (ho : holes.Pairwise fun x y => x.seq < y.seq)
        (hc : ∀ x ∈ cur.holes, ∀ y ∈ holes, x.seq ≠ y.seq) (x : Stored ι) :
    x ∈ (holes.foldl ReplayCursor.addHole cur).holes ↔ x ∈ cur.holes ∨ x ∈ holes := by
  induction holes generalizing cur with
  | nil => simp
  | cons h holes ih =>
    have htail := List.pairwise_cons.mp ho
    have hmem : ∀ y, y ∈ (cur.addHole h).holes ↔ y ∈ cur.holes ∨ y = h := by
      intro y
      unfold ReplayCursor.addHole
      rw [Keyed.mem_put]
      exact or_congr_left (and_iff_left_of_imp fun hy => hc y hy h List.mem_cons_self)
    rw [List.foldl_cons, ih htail.2, hmem, List.mem_cons, or_assoc]
    intro y hy z hz
    rcases (hmem y).mp hy with hy | rfl
    · exact hc y hy z (List.mem_cons_of_mem _ hz)
    · exact Nat.ne_of_lt (htail.1 z hz)

omit [DecidableEq ι] in
theorem foldl_addHole_eq : holes.foldl ReplayCursor.addHole cur =
      { cur with holes := (holes.foldl ReplayCursor.addHole cur).holes } := by
  induction holes generalizing cur with
  | nil => rfl
  | cons h holes ih =>
    rw [List.foldl_cons, ih]
    rfl

/-- What applying a restart scan can do. -/
inductive Restarted (b : Bounds) (s : Session ι φ) (r : RestartScan ι φ) (floor now : Nat) :
    Session ι φ → Prop
  | unchanged : Restarted b s r floor now s
  | set (hsame : s.sameSubsLocked r.subs = true) (hknown : s.sinceKnownLocked = true)
      (htime : now < r.began + b.window) (hfloor : floor ≠ 0 → r.base ≤ floor)
      {next above : Nat}
      (hnext : next = if floor ≠ 0 ∧ floor < r.last + 1 then floor else r.last + 1)
      {holes : List (Stored ι)} (hh : ∀ x, x ∈ holes ↔ Found s next r.read x) :
      Restarted b s r floor now
        { s with cur := { s.cur with next := next, holes := holes, gen := s.cur.gen + 1,
                                     above := above, pin := 0, base := r.base } }

theorem Restarted.of_eq (b : Bounds) {r : RestartScan ι φ}
    (ho : InOrder r.read) : Restarted b s r floor now (s.restartCursorLocked b r floor now).1 := by
  unfold Session.restartCursorLocked
  split
  · exact .unchanged
  · rename_i hguard
    simp only [not_or, not_not, Bool.not_eq_true', Bool.not_eq_false] at hguard
    split
    · exact .unchanged
    · rename_i htime
      split
      · exact .unchanged
      · rename_i hfloor
        simp only [not_and, Nat.not_lt] at hfloor
        dsimp only
        generalize hnext : (if floor ≠ 0 ∧ floor < r.last + 1 then floor else r.last + 1) = next
        cases hholes : s.restartHoles next r.read with
        | none => exact .unchanged
        | some holes =>
          dsimp only
          split
          · exact .unchanged
          · split
            · exact .unchanged
            · obtain ⟨hmem, hord⟩ := restartHoles_spec ho hholes
              rw [foldl_addHole_eq]
              refine .set hguard.2.2.2.2 hguard.2.2.2.1 (Nat.lt_of_not_le htime) hfloor hnext.symm
                fun x => ?_
              rw [mem_foldl_addHole hord (by simp [Session.setCursorLocked]), hmem x]
              simp [Session.setCursorLocked]

theorem restartCursorLocked_same (b : Bounds) (s : Session ι φ) (r : RestartScan ι φ)
    (floor now : Nat) : Same s (s.restartCursorLocked b r floor now).1 := by
  unfold Session.restartCursorLocked
  generalize (if floor ≠ 0 ∧ floor < r.last + 1 then floor else r.last + 1) = next
  split
  · exact .refl s
  · split
    · exact .refl s
    · split
      · exact .refl s
      · dsimp only
        split
        · exact .refl s
        · split
          · exact .refl s
          · split
            · exact .refl s
            · exact ⟨rfl, rfl, rfl⟩

/-! ## Deliveries -/

/-- What `noteDelivered` does: the new id is kept, an older one unless it is stale and the cursor
does not need it; the hole of the message is closed, or the cursor is dropped. -/
structure NotedDelivered (b : Bounds) (s : Session ι φ) (now : Nat) (id : ι) (seq : Nat)
    (s' : Session ι φ) : Prop extends SameLate s s' where
  subs : s'.subs = s.subs
  conn : s'.conn = s.conn
  mark : ⟨id, now, seq⟩ ∈ s'.delivered
  only : ∀ d ∈ s'.delivered, d = ⟨id, now, seq⟩ ∨ d ∈ s.delivered
  kept : ∀ d ∈ s.delivered, d.id ≠ id →
    d ∈ s'.delivered ∨ d.time + 2 * b.window < now ∧ (s.cur.next ≠ 0 → d.seq < s.cur.next)
  cur : s'.cur.next = 0 ∨
    s'.cur.next = s.cur.next ∧ s'.cur.base = s.cur.base ∧ s'.cur.gen = s.cur.gen ∧
      s'.cur.holes = Keyed.erase Stored.id s.cur.holes id
  gen : s.cur.gen ≤ s'.cur.gen

theorem mark_spec (s : Session ι φ) (now : Nat) (id : ι) (seq : Nat) :
    NotedDelivered b s now id seq (s.mark now id seq) where
  subs := rfl
  conn := rfl
  mark := (Keyed.mem_put _).mpr (.inr rfl)
  only _ hd := ((Keyed.mem_put _).mp hd).symm.imp_right And.left
  kept _ hd hne := .inl ((Keyed.mem_put _).mpr (.inl ⟨hd, hne⟩))
  cur := .inr ⟨rfl, rfl, rfl, rfl⟩
  gen := Nat.le_refl _
  lateSeq := .inl rfl
  away := rfl
  awayLate := .inl rfl

omit [DecidableEq ι] in
theorem keeps_of_le (hn : s.cur.next ≠ 0) (hd : s.cur.next ≤ d.seq) :
    s.keeps d = true := by
  have hlow : lowestSeq [s.cur.next, s.cur.pin] ≠ 0 ∧
      lowestSeq [s.cur.next, s.cur.pin] ≤ s.cur.next :=
    lowestSeq_le List.mem_cons_self hn
  simp only [Session.keeps, Bool.and_eq_true, bne_iff_ne, decide_eq_true_eq]
  exact ⟨hlow.1, Nat.le_trans hlow.2 hd⟩

omit [DecidableEq ι] in
/-- An id is kept by the bound, or is stale and below the cursor. -/
theorem mem_pruned (hd : d ∈ s.delivered) :
    (d ∈ s.delivered.filter fun m => s.keeps m || !s.stale b now m) ∨
      d.time + 2 * b.window < now ∧ (s.cur.next ≠ 0 → d.seq < s.cur.next) := by
  by_cases hkeep : s.keeps d = true
  · exact .inl (List.mem_filter.mpr ⟨hd, by simp [hkeep]⟩)
  · by_cases hstale : s.stale b now d = true
    · refine .inr ⟨?_, fun hn => ?_⟩
      · simp only [Session.stale, Bool.and_eq_true, decide_eq_true_eq] at hstale
        exact hstale.1
      · by_contra hle
        exact hkeep (keeps_of_le hn (Nat.le_of_not_lt hle))
    · exact .inl (List.mem_filter.mpr ⟨hd, by simp [hstale]⟩)

theorem prune_spec {seq : Nat}
    (h : NotedDelivered b s now id seq s') (hcur : s'.cur.next = s.cur.next) :
    NotedDelivered b s now id seq (s'.prune b now) := by
  unfold Session.prune
  split
  · generalize hpr : (s'.delivered.filter fun m => s'.keeps m || !s'.stale b now m) = pruned
    have hmark : ⟨id, now, seq⟩ ∈ pruned := by
      rw [← hpr]
      refine (mem_pruned h.mark).resolve_right ?_
      rintro ⟨hlt, -⟩
      dsimp only at hlt
      omega
    have honly : ∀ d ∈ pruned, d = ⟨id, now, seq⟩ ∨ d ∈ s.delivered := by
      rw [← hpr]
      exact fun d hd => h.only d (List.mem_filter.mp hd).1
    have hkept : ∀ d ∈ s.delivered, d.id ≠ id →
        d ∈ pruned ∨ d.time + 2 * b.window < now ∧ (s.cur.next ≠ 0 → d.seq < s.cur.next) := by
      intro d hd hne
      rcases h.kept d hd hne with hin | hold
      · rw [← hpr, ← hcur]
        exact mem_pruned hin
      · exact .inr hold
    dsimp only
    split
    · have hd := dropCursorLocked_dropped { s' with delivered := pruned }
      exact ⟨h.toSameLate.trans ⟨hd.lateSeq, hd.away, hd.awayLate⟩, h.subs, h.conn, hmark, honly,
        hkept, .inl hd.next, Nat.le_trans h.gen (Nat.le_of_lt hd.gen)⟩
    · exact { h with mark := hmark, only := honly, kept := hkept }
  · exact h

theorem noteDelivered_spec (b : Bounds) (s : Session ι φ) (now : Nat) (id : ι) (seq : Nat) :
    NotedDelivered b s now id seq (s.noteDelivered b now id seq).1 := by
  have h := prune_spec (mark_spec (b := b) s now id seq) rfl
  unfold Session.noteDelivered Session.askScan
  split
  · split
    · exact { h with }
    · exact { h with }
  · exact h

/-! ## Late copies -/

/-- Sessions that differ at most in what they know of late copies. -/
structure Alike (s s' : Session ι φ) : Prop where
  same : Same s s'
  cur : s'.cur = s.cur

omit [DecidableEq ι] in
theorem noteLate_alike (s : Session ι φ) (seq : Nat) (holed : Bool) :
    Alike s (s.noteLate seq holed).1 := by
  unfold Session.noteLate
  generalize (if s.cur.base ≠ 0 then s.windowSafeLocked seq else s.lateSeqSafeLocked seq) = safe
  dsimp only
  split
  · split
    · exact ⟨⟨rfl, rfl, rfl⟩, rfl⟩
    · exact ⟨.refl _, rfl⟩
  · split
    · exact ⟨.refl _, rfl⟩
    · split
      · exact ⟨.refl _, rfl⟩
      · exact ⟨⟨rfl, rfl, rfl⟩, rfl⟩

theorem lateHole_same (b : Bounds) (s : Session ι φ) (seq : Nat) (id : ι) :
    Same s (s.lateHole b seq (some id)) := by
  unfold Session.lateHole
  split
  · exact addHoleLocked_same b s seq id
  · exact .refl s

theorem noteLiveCopy_same (b : Bounds) (s : Session ι φ) (seq : Nat) (id : ι) :
    Same s (s.noteLiveCopy b seq (some id)) := by
  unfold Session.noteLiveCopy
  split
  · exact .refl s
  · exact lateHole_same b s seq id

/-- A late copy that does not find another connection. -/
theorem lateCopy_eq (b : Bounds) (s : Session ι φ) (seq : Nat) (id : Option ι) :
    s.lateCopy b s.conn seq id = (s.lateHole b seq id).noteLate seq
      ((s.lateHole b seq id).cur.holes.length != s.cur.holes.length) := by
  unfold Session.lateCopy
  have hfilter : s.conn.filter (some · ≠ s.conn) = none := by
    cases s.conn with
    | none => rfl
    | some c => simp
  rw [hfilter]

theorem lateCopy_same (b : Bounds) (s : Session ι φ) (seq : Nat) (id : ι) :
    Same s (s.lateCopy b s.conn seq (some id)).1 := by
  rw [lateCopy_eq]
  exact (lateHole_same b s seq id).trans (noteLate_alike _ _ _).same

end Facts

/-! ## Subscriptions -/

section Subscriptions

variable {ι φ τ : Type} {topicMatch : φ → τ → Bool} {sub : Sub φ} {m : Msg ι τ}

theorem minQoS_ne_qos0 {a c : QoS} : minQoS a c ≠ .qos0 ↔ a ≠ .qos0 ∧ c ≠ .qos0 := by
  cases a <;> cases c <;> decide

theorem takes_iff :
    sub.takes topicMatch m = true ↔ sub.shared = false ∧ topicMatch sub.filter m.name = true ∧
      (sub.noLocal = true → m.own = false) ∧ m.qos ≠ .qos0 ∧ sub.grantedQoS ≠ .qos0 := by
  unfold Sub.takes
  rw [← minQoS_ne_qos0]
  cases sub.noLocal <;> cases m.own <;> simp [and_assoc]

theorem owes_iff : sub.owes topicMatch m = true ↔
      sub.takes topicMatch m = true ∧ ∃ n, sub.since = some n ∧ n < m.seq := by
  unfold Sub.owes
  cases sub.since <;> simp

/-- A subscription that keeps its predecessor's `since` takes no message the other did not. -/
theorem takes_of_keepsSince {old : Sub φ} (hk : keepsSince old sub = true)
    (hf : old.filter = sub.filter) (h : sub.takes topicMatch m = true) :
    old.takes topicMatch m = true := by
  simp only [keepsSince, Bool.and_eq_true, Bool.not_eq_true', Bool.or_eq_true, bne_iff_ne] at hk
  obtain ⟨⟨⟨⟨-, hshared⟩, hqos⟩, hlocal⟩, -⟩ := hk
  obtain ⟨-, hmatch, hown, hm, -⟩ := takes_iff.mp h
  refine takes_iff.mpr ⟨hshared, hf ▸ hmatch, fun hold => hown ?_, hm, hqos⟩
  exact hlocal.resolve_left (by simp [hold])

variable [DecidableEq φ] {s : Session ι φ}

/-- What `installSubscription` does with a subscription whose `since` is not known. -/
theorem installSubscription_spec {c : Nat} {s' : Session ι φ} (hsub : sub.since = none)
    (h : s.installSubscription c sub = some s') :
    ∃ since, s' = { s with subs := Keyed.put Sub.filter s.subs { sub with since := since } } ∧
      ∀ n, since = some n → ∃ old ∈ s.subs, old.filter = sub.filter ∧ keepsSince old sub = true ∧
        old.since = some n := by
  unfold Session.installSubscription at h
  split at h
  · cases h
  · rw [Option.some.injEq] at h
    refine ⟨_, h.symm, fun n hn => ?_⟩
    rw [hsub, Option.or_none] at hn
    obtain ⟨old, hfind, hold⟩ := Option.bind_eq_some_iff.mp hn
    split at hold
    · rename_i hkeeps
      exact ⟨old, Keyed.mem_of_find _ hfind, Keyed.key_of_find _ hfind, hkeeps, hold⟩
    · cases hold

/-- Nothing is owed to a new subscription that was not owed before. -/
theorem owes_of_installed {x : Sub φ} {c : Nat} {s' : Session ι φ} (hsub : sub.since = none)
    (h : s.installSubscription c sub = some s') (hx : x ∈ s'.subs)
    (ho : x.owes topicMatch m = true) : ∃ y ∈ s.subs, y.owes topicMatch m = true := by
  obtain ⟨since, rfl, hsince⟩ := installSubscription_spec hsub h
  rcases (Keyed.mem_put _).mp hx with ⟨hx, -⟩ | rfl
  · exact ⟨x, hx, ho⟩
  · obtain ⟨htakes, n, hn, hlt⟩ := owes_iff.mp ho
    obtain ⟨old, hold, hfilter, hkeeps, hos⟩ := hsince n hn
    exact ⟨old, hold, owes_iff.mpr ⟨takes_of_keepsSince hkeeps hfilter htakes, n, hos, hlt⟩⟩

omit [DecidableEq φ] in
/-- What is owed once `since` is known was owed before, or is above it. -/
theorem owes_of_swapSince {x : Sub φ} {these : Sub φ → Bool} {last : Nat}
    (hx : x ∈ (s.swapSince these last).subs) (ho : x.owes topicMatch m = true) :
    ∃ y ∈ s.subs, y.owes topicMatch m = true ∨
      these y = true ∧ y.since = none ∧ y.takes topicMatch m = true ∧ last < m.seq := by
  obtain ⟨y, hy, rfl⟩ := List.mem_map.mp hx
  refine ⟨y, hy, ?_⟩
  by_cases hnone : these y = true ∧ y.since = none
  · obtain ⟨hthese, hs⟩ := hnone
    rw [hthese, hs] at ho
    obtain ⟨htakes, n, hn, hlt⟩ := owes_iff.mp ho
    simp only [Option.isNone_none, Bool.and_self, if_true, Option.some.injEq] at hn
    exact .inr ⟨hthese, hs, htakes, by omega⟩
  · rw [if_neg (by simpa using hnone)] at ho
    exact .inl ho

omit [DecidableEq φ] in
/-- A scan's subscriptions that are the session's are all of them. -/
theorem sameSubsLocked_spec {subs : List (Sub φ)} (hsame : s.sameSubsLocked subs = true)
    (hnodup : (subs.map Sub.ref).Nodup) {held : Sub φ} (hheld : held ∈ s.subs) :
    ∃ sub ∈ subs, sub.ref = held.ref := by
  simp only [Session.sameSubsLocked, Bool.and_eq_true, beq_iff_eq, List.all_eq_true,
    List.any_eq_true] at hsame
  obtain ⟨hlen, hall⟩ := hsame
  have hsub : subs.map Sub.ref ⊆ s.subs.map Sub.ref := by
    intro r hr
    obtain ⟨sub, hmem, rfl⟩ := List.mem_map.mp hr
    obtain ⟨x, hx, he⟩ := hall sub hmem
    exact List.mem_map.mpr ⟨x, hx, he⟩
  have hperm := (List.subperm_of_subset hnodup hsub).perm_of_length_le (by simp [hlen])
  have hr := hperm.symm.subset (List.mem_map_of_mem hheld)
  exact List.mem_map.mp hr

end Subscriptions

end Natsmqtt5.Cursor
