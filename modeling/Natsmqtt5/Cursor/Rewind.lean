import Natsmqtt5.Cursor.Invariant

/-!
# The rewind

A session without a cursor replays from a time, one rewind before its connection ended, or from a
sequence its absence names (`replayOffline` in `offline.go`). The source says of a cursor that was
restarted after a drop that it is never worse than that.

* `rewindSends`: what `replayOffline` sends without a cursor, `cursorSends`: what `replayFromCursor`
  sends, both from one absence, on a stream that is read to its end.
* `AwayOk`: the cursor's `base` is not above anything the rewind of the absence reaches.

Results:
* `cursor_sends_what_rewind_sends`: in every run, what is owed, was not sent and the rewind would
  send is sent from the cursor.
-/

namespace Natsmqtt5.Cursor

/-! ## The two replays -/

/-- Where a replay without a cursor starts. -/
inductive Rewind
  | since (time : Int)
  | fromSeq (seq : Nat)

section Replays

variable {ι φ τ : Type} [DecidableEq ι]

def storedAfter (stream : List (Msg ι τ)) (seq : Nat) (t : Int) : Bool :=
  (Keyed.find Msg.seq stream seq).any fun m => t < m.stored

/-- The rewind time, and whether the ids that were delivered since are known. -/
def rewindTime (window : Nat) (a : Away) : Int × Bool :=
  let time := a.time.getD 0
  match a.restored, a.rewoundTo with
  | false, _ => (time - window, true)
  | true, some t => (t, true)
  | true, none => (time, false)

/-- The choice of `replayOffline`. -/
def rewindStart (window : Nat) (stream : List (Msg ι τ)) (a : Away) : Rewind :=
  let (since, rewindable) := rewindTime window a
  let fromSeq :=
    if a.lateSeq ≠ 0 ∧ (a.fromSeq = 0 ∨ a.lateSeq < a.fromSeq) ∧
        ¬ (a.fromSeq = 0 ∧ storedAfter stream a.lateSeq since) then a.lateSeq
    else a.fromSeq
  if fromSeq = 0 ∨ rewindable ∧ storedAfter stream fromSeq since then .since since
  else .fromSeq fromSeq

def Rewind.reads : Rewind → Msg ι τ → Bool
  | .since t, m => t ≤ m.stored
  | .fromSeq seq, m => seq ≤ m.seq

def Session.View.reads (v : Session.View ι) (m : Msg ι τ) : Bool :=
  v.next ≤ m.seq || (Keyed.find Stored.seq v.holes m.seq).isSome

variable (topicMatch : φ → τ → Bool)

/-- What a replay sends of what it reads: `deliverQueued` of each message without a known id. -/
def replaySends (s : Session ι φ) (stream : List (Msg ι τ)) (reads : Msg ι τ → Bool) :
    List (Msg ι τ) :=
  stream.filter fun m => reads m && !s.knows m.id && s.subs.any (·.takes topicMatch m)

def rewindSends (window : Nat) (s : Session ι φ) (stream : List (Msg ι τ)) (a : Away) :
    List (Msg ι τ) :=
  replaySends topicMatch s stream (rewindStart window stream a).reads

def cursorSends (s : Session ι φ) (stream : List (Msg ι τ)) (v : Session.View ι) : List (Msg ι τ) :=
  replaySends topicMatch s stream v.reads

end Replays

/-! ## What the rewind reaches -/

section Reaches

variable {ι φ τ : Type}

/-- A start below which the absence names nothing. -/
theorem rewindStart_reads {window base : Nat} {stream : List (Msg ι τ)} {a : Away} {m : Msg ι τ}
    (hr : a.restored = false) (hfrom : a.fromSeq ≠ 0 → base ≤ a.fromSeq)
    (hlate : a.lateSeq ≠ 0 → base ≤ a.lateSeq)
    (htime : a.time.getD 0 ≤ m.stored + window → base ≤ m.seq)
    (h : (rewindStart window stream a).reads m = true) : base ≤ m.seq := by
  unfold rewindStart rewindTime at h
  rw [hr] at h
  dsimp only at h
  generalize hfs : (if a.lateSeq ≠ 0 ∧ (a.fromSeq = 0 ∨ a.lateSeq < a.fromSeq) ∧ ¬ (a.fromSeq = 0 ∧
    storedAfter stream a.lateSeq ((a.time.getD 0 : Int) - window) = true) then a.lateSeq
    else a.fromSeq) = fromSeq at h
  have hge : fromSeq ≠ 0 → base ≤ fromSeq := by
    rw [← hfs]
    split
    · exact hlate
    · exact hfrom
  split at h
  · simp only [Rewind.reads, decide_eq_true_eq] at h
    exact htime (by omega)
  · rename_i hseq
    simp only [Rewind.reads, decide_eq_true_eq] at h
    exact Nat.le_trans (hge fun h0 => hseq (.inl h0)) h

variable [DecidableEq ι]

omit [DecidableEq ι] in
theorem view_reads {s : State ι φ τ} {t : Session ι φ} {m : Msg ι τ}
    (h : Hole s t m ∨ t.cur.next ≤ m.seq) : t.cursorViewLocked.reads m = true := by
  unfold Session.View.reads Session.cursorViewLocked
  rw [Bool.or_eq_true, find_isSome, decide_eq_true_eq]
  rcases h with hhole | hle
  · exact .inr ⟨_, hhole.2, rfl⟩
  · exact .inl hle

end Reaches

/-! ## The absence and the cursor -/

variable {ι φ τ : Type} [DecidableEq ι] {topicMatch : φ → τ → Bool} {b : Bounds}
  {s s' : State ι φ τ} {t t' : Session ι φ}

/-- Nothing the rewind of the session's absence reaches is below the cursor's `base`; before there
is an absence, nothing a rewind that began now would reach. -/
structure AwayOk (b : Bounds) (s : State ι φ τ) (t : Session ι φ) : Prop where
  opened : s.closed = false → t.lateSeq = 0
  attached : t.conn.isSome = true → t.away = {}
  restored : t.away.restored = false
  time : t.cur.next ≠ 0 → ∀ m ∈ s.stream, t.away.time.getD s.now ≤ m.stored + b.window →
    t.cur.base ≤ m.seq
  fromSeq : t.cur.next ≠ 0 → t.away.fromSeq ≠ 0 → t.cur.base ≤ t.away.fromSeq
  late : t.cur.next ≠ 0 → t.lateSeq ≠ 0 → t.cur.base ≤ t.lateSeq
  awayLate : t.cur.next ≠ 0 → t.away.lateSeq ≠ 0 → t.cur.base ≤ t.away.lateSeq

/-- The cursor is as it was or gone, and late copies are at most forgotten. -/
structure Quiet (t t' : Session ι φ) : Prop where
  conn : t'.conn = t.conn
  cur : t'.cur.next = 0 ∨ t'.cur.next = t.cur.next ∧ t'.cur.base = t.cur.base
  lateSeq : t'.lateSeq = t.lateSeq ∨ t'.lateSeq = 0
  away : t'.away = { t.away with lateSeq := t'.away.lateSeq }
  awayLate : t'.away.lateSeq = t.away.lateSeq ∨ t'.away.lateSeq = 0

omit [DecidableEq ι] in
theorem Quiet.refl (t : Session ι φ) : Quiet t t := ⟨rfl, .inr ⟨rfl, rfl⟩, .inl rfl, rfl, .inl rfl⟩

omit [DecidableEq ι] in
theorem Dropped.quiet (h : Dropped t t') : Quiet t t' :=
  { h with conn := h.same.conn, cur := .inl h.next }

theorem NotedDelivered.quiet {now seq : Nat} {id : ι} (h : NotedDelivered b t now id seq t') :
    Quiet t t' :=
  { h with cur := h.cur.imp_right fun hc => ⟨hc.1, hc.2.1⟩ }

theorem lateHole_quiet (b : Bounds) (t : Session ι φ) (seq : Nat) (id : ι) :
    Quiet t (t.lateHole b seq (some id)) := by
  unfold Session.lateHole
  split
  · have hadd := HoleAdded.of_eq b t seq id
    generalize t.addHoleLocked b seq (some id) = result at hadd
    cases hadd with
    | dropped hd => exact hd.quiet
    | had _ _ => exact .refl t
    | added _ _ _ _ => exact ⟨rfl, .inr ⟨rfl, rfl⟩, .inl rfl, rfl, .inl rfl⟩
  · exact .refl t

omit [DecidableEq ι] in
theorem AwayOk.quiet (h : AwayOk b s t) (hq : Quiet t t') (hstream : s'.stream = s.stream)
    (hnow : s.now ≤ s'.now) (hclosed : s'.closed = s.closed) : AwayOk b s' t' := by
  obtain ⟨hconn, hcur, hlate, haway, hawayLate⟩ := hq
  have hset : t'.cur.next ≠ 0 → t.cur.next ≠ 0 ∧ t'.cur.base = t.cur.base := by
    intro hn
    obtain ⟨hnext, hbase⟩ := hcur.resolve_left hn
    exact ⟨hnext ▸ hn, hbase⟩
  constructor
  · intro hopen
    rcases hlate with he | he
    · exact he.trans (h.opened (hclosed ▸ hopen))
    · exact he
  · intro hc
    rw [hconn] at hc
    have h0 := h.attached hc
    rw [h0] at haway hawayLate
    rw [haway]
    rcases hawayLate with he | he <;> rw [he]
  · rw [haway]
    exact h.restored
  · intro hn m hm hle
    obtain ⟨hn, hbase⟩ := hset hn
    rw [hstream] at hm
    rw [hbase]
    refine h.time hn m hm (Nat.le_trans ?_ hle)
    have htime : t'.away.time = t.away.time := by rw [haway]
    rw [htime]
    cases t.away.time with
    | none => exact hnow
    | some _ => exact Nat.le_refl _
  · intro hn hfrom
    rw [haway] at hfrom ⊢
    rw [(hset hn).2]
    exact h.fromSeq (hset hn).1 hfrom
  · intro hn hl
    have he := hlate.resolve_right hl
    rw [(hset hn).2]
    rw [he] at hl ⊢
    exact h.late (hset hn).1 hl
  · intro hn hl
    have he := hawayLate.resolve_right hl
    rw [(hset hn).2]
    rw [he] at hl ⊢
    exact h.awayLate (hset hn).1 hl

/-! ## Late copies -/

/-- What `noteLate` notes: the copy, with the connection's late copies or with the absence. -/
inductive LateNoted (t : Session ι φ) (seq : Nat) : Session ι φ → Prop
  | unchanged : LateNoted t seq t
  | ending (hc : t.conn.isSome = true) :
      LateNoted t seq { t with lateSeq := lowestSeq [t.lateSeq, seq] }
  | away (hc : t.conn = none) : LateNoted t seq { t with away := { t.away with lateSeq := seq } }

omit [DecidableEq ι] in
theorem LateNoted.of_eq (t : Session ι φ) (seq : Nat) (holed : Bool) :
    LateNoted t seq (t.noteLate seq holed).1 := by
  unfold Session.noteLate
  generalize (if t.cur.base ≠ 0 then t.windowSafeLocked seq else t.lateSeqSafeLocked seq) = safe
  dsimp only
  split
  · rename_i hc
    split
    · exact .ending hc
    · exact .unchanged
  · rename_i hc
    split
    · exact .unchanged
    · split
      · exact .unchanged
      · exact .away (Option.not_isSome_iff_eq_none.mp hc)

omit [DecidableEq ι] in
theorem AwayOk.noteLate (h : AwayOk b s t) {seq : Nat} (holed : Bool)
    (hc : t.conn.isSome = true → s.closed = true) (hseq : t.cur.next ≠ 0 → t.cur.base ≤ seq) :
    AwayOk b s (t.noteLate seq holed).1 := by
  have hnoted := LateNoted.of_eq t seq holed
  generalize (t.noteLate seq holed).1 = t' at hnoted
  cases hnoted with
  | unchanged => exact h
  | ending hconn =>
    refine { h with opened := fun hopen => ?_, late := fun hn hl => ?_ }
    · rw [hc hconn] at hopen
      exact absurd hopen (by simp)
    · -- the lowest of two that are both at or above `base`
      have hmem := (lowestSeq_mem [t.lateSeq, seq]).resolve_left hl
      dsimp only at hl ⊢
      rcases List.mem_cons.mp hmem with he | hmem
      · rw [he] at hl ⊢
        exact h.late hn hl
      · rw [List.mem_singleton.mp hmem]
        exact hseq hn
  | away hconn =>
    refine { h with attached := fun hsome => ?_, awayLate := fun hn _ => hseq hn }
    rw [hconn] at hsome
    exact absurd hsome (by simp)

/-! ## The end of the connection -/

omit [DecidableEq ι] in
theorem AwayOk.release (h : AwayOk b s t) (hf : t.cur.next ≠ 0 → ∀ m ∈ s.held, t.cur.base ≤ m.seq)
    (hc : t.conn.isSome = true) :
    AwayOk b s
      { t.markAwayLocked { time := some s.now, fromSeq := owedFloor s.held } with conn :=
          none } := by
  have haway := h.attached hc
  have hmark : t.markAwayLocked { time := some s.now, fromSeq := owedFloor s.held } =
      { t with lateSeq := 0, away := ⟨some s.now, false, none, owedFloor s.held,
        lowestSeq [0, t.lateSeq, 0]⟩ } := by
    simp [Session.markAwayLocked, haway]
  have htime := h.time
  rw [haway] at htime
  rw [hmark]
  refine ⟨fun _ => rfl, by simp, rfl, htime, fun hn hfrom => ?_, by simp, fun hn hl => ?_⟩
  · have hmem := (lowestSeq_mem (s.held.map Msg.seq)).resolve_left hfrom
    obtain ⟨m, hm, he⟩ := List.mem_map.mp hmem
    show t.cur.base ≤ lowestSeq (s.held.map Msg.seq)
    rw [← he]
    exact hf hn m hm
  · have hmem := (lowestSeq_mem [0, t.lateSeq, 0]).resolve_left hl
    have he : lowestSeq [0, t.lateSeq, 0] = t.lateSeq := by
      simp only [List.mem_cons, List.not_mem_nil, or_false] at hmem
      exact (hmem.resolve_left hl).resolve_right hl
    dsimp only at hl ⊢
    rw [he] at hl ⊢
    exact h.late hn hl

/-! ## Every step keeps it -/

omit [DecidableEq ι] in
theorem AwayOk.restarted (h : AwayOk b s t) (ho : s.closed = false ∧ t.conn.isSome = true)
    {r : RestartScan ι φ} (hr : RestartOk topicMatch b s r) {cur : ReplayCursor ι}
    (hbase : cur.base = r.base) : AwayOk b s { t with cur := cur } :=
  { h with
    time _ m hm hle := by
      have := hr.began_le
      rw [h.attached ho.2] at hle
      rw [hbase]
      refine (hr.cut m hm).mpr (Nat.le_trans this hle)
    fromSeq _ hfrom := absurd (by rw [h.attached ho.2]) hfrom
    late _ hl := absurd (h.opened ho.1) hl
    awayLate _ hl := absurd (by rw [h.attached ho.2]) hl }

theorem AwayOk.receive (h : AwayOk b s s.session) (hs : Sound s)
    (hacc : Accounts topicMatch s s.session) {m : Msg ι τ} (hm : m ∈ s.transit) :
    AwayOk b s (receive b s m) := by
  unfold Cursor.receive
  split
  · rename_i hclosed
    rw [lateCopy_eq]
    have hbase := (hacc.lateHole (b := b) hs (hs.transit_mem hm) (hs.transit_unsent hm)).2
    exact (h.quiet (lateHole_quiet b _ _ _) rfl (Nat.le_refl _) rfl).noteLate _ (fun _ => hclosed)
      hbase
  · exact h

variable [DecidableEq φ] [DecidableEq τ]

theorem AwayOk.step (h : AwayOk b s s.session) (hi : Inv topicMatch b s)
    (hs : Outcome topicMatch b s s') : AwayOk b s' s'.session := by
  cases hs with
  | @store m hseq htime hid transit ht =>
    refine { h with time := fun hn x hx hle => ?_ }
    rcases List.mem_append.mp hx with hx | hx
    · exact h.time hn x hx hle
    · rw [List.mem_singleton.mp hx]
      have hf := hi.accounts hn
      exact Nat.le_trans (Nat.le_trans hf.base_le hf.next_le) hseq
  | @arrive m hm hc =>
    dsimp only
    rw [noteLiveCopy_eq hi.sound (hi.sound.transit_mem hm)]
    exact (h.receive hi.sound hi.accounts hm).quiet (lateHole_quiet b _ _ _) rfl (Nat.le_refl _) rfl
  | @deliver m hm ho =>
    exact h.quiet (noteDelivered_spec b s.session s.now m.id m.seq).quiet rfl (Nat.le_refl _) rfl
  | tick d => exact h.quiet (.refl _) rfl (Nat.le_add_right _ _) rfl
  | @scanned sc rest hsc hrest t ht =>
    rcases ht with rfl | ⟨-, rfl⟩
    · exact h.quiet (.refl _) rfl (Nat.le_refl _) rfl
    · have happlied := hi.accounts.applied hi.sound hi.scans hsc (owedFloor s.held)
      generalize (s.session.applyScanLocked b sc (owedFloor s.held)).1 = result at happlied
      cases happlied with
      | unchanged => exact h.quiet (.refl _) rfl (Nat.le_refl _) rfl
      | dropped hd => exact h.quiet hd.quiet rfl (Nat.le_refl _) rfl
      | moved hstart hle _ _ hnext _ =>
        have hn : s.session.cur.next ≠ 0 := hstart ▸ (hi.scans.scan sc hsc).1
        exact ⟨h.opened, h.attached, h.restored, fun _ => h.time hn, fun _ => h.fromSeq hn,
          fun _ => h.late hn, fun _ => h.awayLate hn⟩
  | @restarted r rest hr hrest t ht =>
    rcases ht with rfl | ⟨ho, rfl⟩
    · exact h.quiet (.refl _) rfl (Nat.le_refl _) rfl
    · have hdone := hi.scans.restarted hi.sound hr (owedFloor s.held) s.now
      generalize (s.session.restartCursorLocked b r (owedFloor s.held) s.now).1 = result at hdone
      cases hdone with
      | unchanged => exact h.quiet (.refl _) rfl (Nat.le_refl _) rfl
      | set _ _ _ _ _ _ =>
        simp only [State.isOpen, Bool.and_eq_true, Bool.not_eq_true'] at ho
        refine AwayOk.quiet (s := s) ?_ (.refl _) rfl (Nat.le_refl _) rfl
        exact h.restarted ho.symm (hi.scans.restart r hr) rfl
  | subscribe href hnone hinst =>
    obtain ⟨since, rfl, -⟩ := installSubscription_spec hnone hinst
    exact h.quiet ⟨rfl, .inr ⟨rfl, rfl⟩, .inl rfl, rfl, .inl rfl⟩ rfl (Nat.le_refl _) rfl
  | setSince _ _ =>
    dsimp only
    rw [setSince_same]
    exact h.quiet ⟨rfl, .inr ⟨rfl, rfl⟩, .inl rfl, rfl, .inl rfl⟩ rfl (Nat.le_refl _) rfl
  | drop => exact h.quiet (dropCursorLocked_dropped _).quiet rfl (Nat.le_refl _) rfl
  | close hc =>
    exact { h with opened := fun hopen => absurd hopen (by simp) }
  | release hc hclosed =>
    exact (h.release (fun hn => (hi.accounts hn).held) hc).quiet (.refl _) rfl (Nat.le_refl _) rfl
  | @late m hm hc =>
    dsimp only
    rw [late_eq hc]
    have hbase := (hi.accounts.lateHole (b := b) hi.sound (hi.sound.transit_mem hm)
      (hi.sound.transit_unsent hm)).2
    have hq := lateHole_quiet b s.session m.seq m.id
    refine ((h.quiet hq rfl (Nat.le_refl _) rfl).noteLate _ (fun hsome => ?_) hbase).quiet (.refl _)
      rfl
      (Nat.le_refl _) rfl
    rw [hq.conn, hc] at hsome
    exact absurd hsome (by simp)
  | scan _ _ | restart _ _ | readSince _ => exact h.quiet (.refl _) rfl (Nat.le_refl _) rfl

omit [DecidableEq ι] [DecidableEq φ] [DecidableEq τ] in
theorem Start.awayOk (h : Start s) : AwayOk b s s.session := by
  obtain ⟨haway, hlate⟩ := h.away
  refine ⟨fun _ => hlate, fun _ => haway, by rw [haway], fun _ m _ _ => ?_, fun _ hfrom => ?_,
    fun _ hl => absurd hlate hl, fun _ hl => ?_⟩
  · rw [h.base]
    exact Nat.zero_le _
  · exact absurd (by rw [haway]) hfrom
  · exact absurd (by rw [haway]) hl

theorem AwayOk.of_reach {s₀ : State ι φ τ} (h0 : Start s₀)
    (h : Lts.Reach (Cursor.step topicMatch b) Lts.free s₀ s) : AwayOk b s s.session :=
  @Lts.Reach.invariant_of _ _ _ _ _ (Inv topicMatch b) (fun x => AwayOk b x x.session)
    (fun _ hr => Inv.of_reach h0 hr) h0.awayOk (fun _ _ _ hi ha _ hs => ha.step hi (.of_step hs)) s
        h

/-- **A restarted cursor is never worse than the rewind.** In every run, the replay that starts from
the cursor sends whatever is owed to a subscription in force, was not sent before, and would be sent
by the replay without a cursor from the same absence; the cursor is one that `replayOffline` does
not drop. -/
theorem cursor_sends_what_rewind_sends {s₀ : State ι φ τ} (h0 : Start s₀)
    (h : Lts.Reach (Cursor.step topicMatch b) Lts.free s₀ s) {a : Away} {v : Session.View ι}
    (ha : s.session.takeAway = some (a, t)) (hv : t.cursorForReplay = some v) :
    v.next ≤ s.last + 1 ∧
    ∀ m ∈ rewindSends topicMatch b.window t s.stream a, m ∉ s.sent →
      (∃ sub ∈ t.subs, sub.owes topicMatch m = true) → m ∈ cursorSends topicMatch t s.stream v := by
  have haway := AwayOk.of_reach h0 h
  unfold Session.takeAway at ha
  rw [Option.ite_none_right_eq_some, Option.some.injEq, Prod.mk.injEq] at ha
  obtain ⟨htime, rfl, rfl⟩ := ha
  unfold Session.cursorForReplay at hv
  rw [Option.ite_none_left_eq_some, Option.some.injEq] at hv
  obtain ⟨hn, rfl⟩ := hv
  have hf := (Inv.of_reach h0 h).accounts hn
  refine ⟨hf.next_le, fun m hm hsent howed => ?_⟩
  simp only [rewindSends, cursorSends, replaySends, List.mem_filter, Bool.and_eq_true] at hm ⊢
  obtain ⟨hmem, ⟨hreads, hknows⟩, htakes⟩ := hm
  obtain ⟨time, ht⟩ := Option.isSome_iff_exists.mp htime
  have hbase : s.session.cur.base ≤ m.seq := by
    refine rewindStart_reads haway.restored (haway.fromSeq hn) (haway.awayLate hn) (fun hle => ?_)
      hreads
    refine haway.time hn m hmem ?_
    rw [ht] at hle ⊢
    exact hle
  have hfound : Hole s s.session m ∨ s.session.cur.next ≤ m.seq :=
    hf.ok.covers ⟨hmem, howed⟩ hbase hsent
  exact ⟨hmem, ⟨view_reads hfound, hknows⟩, htakes⟩

/-- The client of `restartedRun` goes away, and the live copy of a third message finds no
connection. -/
def lateRun : List (Act Nat Nat Nat) :=
  restartedRun ++ [.store (published 3) true, .close, .release, .late (published 3)]

/-- A session with a cursor is away, and `ms` are owed to it and were not sent. -/
def awaitsReplay (ms : List (Msg Nat Nat)) (s : State Nat Nat Nat) (a : Away)
    (t : Session Nat Nat) : Bool :=
  t.cursorForReplay.isSome && decide (rewindSends (· == ·) 100 t s.stream a = ms ∧
    ∀ m ∈ ms, m ∉ s.sent ∧ ∃ sub ∈ t.subs, sub.owes (· == ·) m = true)

/-- Of the three messages, the rewind sends the first and the third, and so does the cursor. -/
theorem cursor_sends_what_rewind_sends_late :
    ∃ (s : State Nat Nat Nat) (a : Away) (t : Session Nat Nat) (v : Session.View Nat),
      Lts.Reach (step (· == ·) ⟨100, 1, 9, 9⟩) Lts.free subscribed s ∧
      (s.session.takeAway = some (a, t) ∧ t.cursorForReplay = some v) ∧
      rewindSends (· == ·) 100 t s.stream a = [published 1, published 3] ∧
      ∀ m ∈ [published 1, published 3], m ∈ cursorSends (· == ·) t s.stream v := by
  obtain ⟨s, hr, hs⟩ := Lts.reach_of_exec_any (step (· == ·) ⟨100, 1, 9, 9⟩) Lts.free subscribed
    lateRun (fun s => s.session.takeAway.any fun p =>
      awaitsReplay [published 1, published 3] s p.1 p.2) (by decide)
  obtain ⟨p, ha, hs⟩ := (Option.any_eq_true _ _).mp hs
  rw [awaitsReplay, Bool.and_eq_true, Option.isSome_iff_exists] at hs
  obtain ⟨⟨v, hv⟩, hs⟩ := hs
  obtain ⟨hrew, hall⟩ := of_decide_eq_true hs
  refine ⟨s, p.1, p.2, v, hr, ⟨ha, hv⟩, hrew, fun m hm => ?_⟩
  exact (cursor_sends_what_rewind_sends start_subscribed hr ha hv).2 m (hrew ▸ hm) (hall m hm).1
    (hall m hm).2

end Natsmqtt5.Cursor
