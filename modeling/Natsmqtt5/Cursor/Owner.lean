import Natsmqtt5.Lts
import Natsmqtt5.Cursor.Facts
import Natsmqtt5.Restore.Model

/-!
# The owner of the scan flag

`noteDelivered` (`session.go`) sets `cur.scanning` and tells its caller to start a `scanCursor` loop
(`cursor.go`); only the end of such a loop clears the flag. `conn.noteDelivered` starts the loop.
`restoreSessionState` (`restore.go`) notes the messages in flight of a record and drops the answer.

A loop goes through a look at the cursor, a read of the stream and the move of the cursor, for a
scan or for a restart, and then through `scanAgain`; each is a step, and what a read gives is any
value. Everything else that changes a session's cursor is one operation of `Op`. Deliveries may be
noted by any connection at any time.

Results:
* `restored_scanning`: when a restored session has the flag.
* `scan_flag_owned`: the flag always has a loop, from a new session and from a record with fewer
  than `cursorScanAfter` messages in flight that are noted with a sequence; and from no other.
* `scan_flag_ownerless`: a record with 1024 of them.
-/

namespace Natsmqtt5.Cursor.Owner

open Lts
open Spill (StoredInflight Codec loadSpill)

/-! ## The scan loop -/

/-- Where a turn of `scanCursor` stands. -/
inductive Phase (φ : Type)
  | look
  /-- `restartCursor`, before it reads. -/
  | restart (gen : Nat)
  /-- A scan, before it reads. -/
  | read (start gen : Nat)
  | applyRestart (r : RestartScan Bytes φ)
  | applyScan (sc : Scan Bytes φ)
  /-- `scanOnce` has returned. -/
  | ended (again : Bool)

/-- A `scanCursor` loop, for the connection `conn`. -/
structure Loop (φ : Type) where
  conn : Nat
  phase : Phase φ

/-- What a read of the stream gives. -/
structure Read where
  began : Nat
  base : Nat
  last : Nat
  read : List (Scanned Bytes)

section Steps

variable {φ : Type} [DecidableEq φ]

/-- `scanOnce` up to its read; `blocked` when the queue is off, or the connection closed or
resuming. -/
def look (s : Session Bytes φ) (blocked : Bool) : Session Bytes φ × Phase φ :=
  if blocked then (s, .ended false)
  else
    let start := s.cur.next
    let known := s.sinceKnownLocked
    let pinned := s.cur.pin != 0
    let gen := s.cur.gen
    let s := if start = 0 then { s with cur := { s.cur with above := 0 } } else s
    if start = 0 ∧ known ∧ !pinned then (s, .restart gen)
    else if start = 0 ∨ !known then (s, .ended false)
    else (s, .read start gen)

/-- The read, `none` when it fails or there is nothing to narrow it to. -/
def gather (s : Session Bytes φ) (result : Option Read) : Phase φ → Option (Phase φ)
  | .restart gen =>
    some (match result with
      | some r => .applyRestart ⟨gen, s.subs, r.began, r.base, r.last, r.read⟩
      | none => .ended false)
  | .read start gen =>
    some (match result with
      | some r => .applyScan ⟨gen, start, r.last, s.subs, r.read⟩
      | none => .ended false)
  | _ => none

/-- `applyRestart` and `applyScan` on the connection `c`; `refused` when it is closed, or resuming
for a restart. -/
def apply (b : Bounds) (s : Session Bytes φ) (c : Nat) (refused : Bool) (floor now : Nat) :
    Phase φ → Option (Session Bytes φ × Phase φ)
  | .applyRestart r =>
    if s.conn ≠ some c ∨ refused then some (s, .ended false)
    else some ((s.restartCursorLocked b r floor now).1, .ended false)
  | .applyScan sc =>
    if s.conn ≠ some c ∨ refused then some (s, .ended false)
    else
      let r := s.applyScanLocked b sc floor
      some (r.1, .ended (r.2.moved || r.2.stale))
  | _ => none

/-- `scanAgain`: the connection to scan again for, or `none` having ended the scan. -/
def scanAgain (b : Bounds) (s : Session Bytes φ) (again : Bool) : Session Bytes φ × Option Nat :=
  let asked := s.cur.asked
  let s := { s with cur := { s.cur with asked := false } }
  let due := again && s.cur.next != 0 && b.scanAfter ≤ s.cur.above
  if (asked || due) ∧ s.conn.isSome then (s, s.conn)
  else ({ s with cur := { s.cur with scanning := false } }, none)

/-! ## What else changes the session -/

/-- The other operations on a session: its connections come and go, one taking it over from
another, live and late copies come, subscriptions are made and removed, and replays run. -/
inductive Op (φ : Type)
  | attach (c : Nat)
  | release (a : Away)
  | liveCopy (seq : Nat) (id : Option Bytes)
  | lateCopy (origin : Option Nat) (seq : Nat) (id : Option Bytes)
  | installSubscription (c : Nat) (sub : Sub φ)
  | removeSubscription (filter : φ)
  | setSince (c : Nat) (refs : List Nat) (last : Nat) (exact hadNonShared : Bool) (floor : Nat)
  | dropCursor
  | takeAway
  | pinForReplay (seq : Nat)
  | unpin
  | replayedTo (c : Nat) (closed : Bool) (had : Option (Session.View Bytes))
      (start last floor : Nat)

def pinForReplay (s : Session Bytes φ) (seq : Nat) : Session Bytes φ :=
  if s.cur.next = 0 then { s with cur := { s.cur with pin := max seq 1 } } else s

def Op.run (b : Bounds) (s : Session Bytes φ) : Op φ → Session Bytes φ
  | .attach c => { s with conn := some c }
  | .release a => { s.markAwayLocked a with conn := none }
  | .liveCopy seq id => s.noteLiveCopy b seq id
  | .lateCopy origin seq id => (s.lateCopy b origin seq id).1
  | .installSubscription c sub => (s.installSubscription c sub).getD s
  | .removeSubscription filter => { s with subs := Keyed.erase Sub.filter s.subs filter }
  | .setSince c refs last exact hadNonShared floor =>
    s.setSince c refs last exact hadNonShared floor
  | .dropCursor => s.dropCursorLocked
  | .takeAway => (s.takeAway.map Prod.snd).getD s
  | .pinForReplay seq => Owner.pinForReplay s seq
  | .unpin => { s with cur := { s.cur with pin := 0 } }
  | .replayedTo c closed had start last floor => s.replayedTo c closed had start last floor

/-! ## The system -/

/-- A session and the loops that were started for it and have not ended. -/
structure State (φ : Type) where
  session : Session Bytes φ
  loops : List (Loop φ) := []

inductive Act (φ : Type)
  /-- `conn.noteDelivered`. -/
  | note (c now : Nat) (id : Bytes) (seq : Nat)
  -- the steps of the loop `i`
  | look (i : Nat) (blocked : Bool)
  | gather (i : Nat) (result : Option Read)
  | apply (i : Nat) (refused : Bool) (floor now : Nat)
  | scanAgain (i : Nat)
  | other (op : Op φ)

/-- A delivery, and the loop it asks for. -/
def note (b : Bounds) (s : State φ) (c now : Nat) (id : Bytes) (seq : Nat) : State φ :=
  let r := s.session.noteDelivered b now id seq
  { session := r.1, loops := if r.2 then s.loops ++ [⟨c, .look⟩] else s.loops }

def step (b : Bounds) (s : State φ) : Act φ → Option (State φ)
  | .note c now id seq => some (note b s c now id seq)
  | .look i blocked =>
    match s.loops[i]? with
    | some ⟨c, .look⟩ =>
      let r := look s.session blocked
      some { session := r.1, loops := s.loops.set i ⟨c, r.2⟩ }
    | _ => none
  | .gather i result => do
    let l ← s.loops[i]?
    let phase ← gather s.session result l.phase
    some { s with loops := s.loops.set i ⟨l.conn, phase⟩ }
  | .apply i refused floor now => do
    let l ← s.loops[i]?
    let r ← apply b s.session l.conn refused floor now l.phase
    some { session := r.1, loops := s.loops.set i ⟨l.conn, r.2⟩ }
  | .scanAgain i =>
    match s.loops[i]? with
    | some ⟨_, .ended again⟩ =>
      let r := scanAgain b s.session again
      match r.2 with
      | some c => some { session := r.1, loops := s.loops.set i ⟨c, .look⟩ }
      | none => some { session := r.1, loops := s.loops.eraseIdx i }
    | _ => none
  | .other op => some { s with session := op.run b s.session }

/-! ## Where a session starts -/

def restoreCursorLocked (s : Session Bytes φ) (next : Nat) (holes : List (Stored Bytes)) :
    Session Bytes φ :=
  if next = 0 then s
  else
    let cur := { s.cur with next := next, holes := [], gen := s.cur.gen + 1 }
    let owed := holes.filter fun h => h.seq < next && h.id != [] && !s.knows h.id
    { s with cur := owed.foldl .addHole cur }

/-- What a record says of the absence. -/
structure AwayRecord where
  away : Away
  delivered : List (Stored Bytes)
  cursor : Nat
  holes : List (Stored Bytes)

def markAwayRestored (s : Session Bytes φ) (now : Nat) (r : AwayRecord) : Session Bytes φ :=
  let s := restoreCursorLocked { s with away := { r.away with restored := true } } r.cursor r.holes
  { s with
    delivered := r.delivered.foldl (fun ds d => Keyed.put Mark.id ds ⟨d.id, now, d.seq⟩) s.delivered
    maxDeliveredSeq := r.delivered.foldl (fun q d => max q d.seq) s.maxDeliveredSeq }

/-- A record as a claim found it. -/
structure Record where
  inflight : List StoredInflight
  spill : List Bytes
  away : Option AwayRecord := none

/-- The in-flight entries of the record and of its chunks. -/
def Record.entries (c : Codec) (broker : Restore.Broker) (r : Record) : List StoredInflight :=
  r.inflight ++ (loadSpill c broker.blobs r.spill).1

/-- `s.noteDelivered` for each message that is restored, whose answer is dropped; the `i`-th is at
`clock i`. -/
def noteAll (b : Bounds) (clock : Nat → Nat) : Nat → Session Bytes φ → List (Bytes × Nat) →
    Session Bytes φ
  | _, s, [] => s
  | i, s, (id, seq) :: noted =>
    noteAll b clock (i + 1) (s.noteDelivered b (clock i) id seq).1 noted

/-- How a session starts: new, or restored by `broker` from a record. -/
inductive Start
  | new
  | restored (clock : Nat → Nat) (c : Codec) (broker : Restore.Broker) (r : Record)

def Start.session (b : Bounds) : Start → Session Bytes φ
  | .new => {}
  | .restored clock c broker r =>
    let s := noteAll b clock 0 {} (Restore.restoreSessionState c broker r.inflight r.spill).noted
    match r.away with
    | some a => markAwayRestored s broker.now a
    | none => s

def Start.state (b : Bounds) (start : Start) : State φ := { session := start.session b }

end Steps

/-! ## What leaves the flag alone -/

section Flag

variable {φ : Type} (b : Bounds) (s : Session Bytes φ) {now seq : Nat} {id : Bytes}

theorem addHoleLocked_scanning (seq : Nat) (id : Option Bytes) :
    (s.addHoleLocked b seq id).1.cur.scanning = s.cur.scanning := by
  cases id with
  | none => rfl
  | some id =>
    unfold Session.addHoleLocked
    dsimp only
    split_ifs <;> rfl

theorem foldl_addHole_scanning (holes : List (Stored Bytes)) (cur : ReplayCursor Bytes) :
    (holes.foldl .addHole cur).scanning = cur.scanning := by
  induction holes generalizing cur with
  | nil => rfl
  | cons h holes ih => exact ih (cur.addHole h)

theorem lateHole_scanning (seq : Nat) (id : Option Bytes) :
    (s.lateHole b seq id).cur.scanning = s.cur.scanning := by
  unfold Session.lateHole
  split_ifs
  · exact addHoleLocked_scanning b s seq id
  · rfl

theorem noteLiveCopy_scanning (seq : Nat) (id : Option Bytes) :
    (s.noteLiveCopy b seq id).cur.scanning = s.cur.scanning := by
  unfold Session.noteLiveCopy
  split_ifs
  · rfl
  · exact addHoleLocked_scanning b s seq id
  · rfl

theorem lateCopy_scanning (origin : Option Nat) (seq : Nat) (id : Option Bytes) :
    (s.lateCopy b origin seq id).1.cur.scanning = s.cur.scanning := by
  unfold Session.lateCopy
  split
  · rfl
  · exact (congrArg _ (noteLate_alike _ _ _).cur).trans (lateHole_scanning b s seq id)

theorem settleHoles_scanning (last : Nat) (holes : List (Stored Bytes))
    (cur : ReplayCursor Bytes) :
    (holes.foldl (Session.settleHoles last) cur).scanning = cur.scanning := by
  induction holes generalizing cur with
  | nil => rfl
  | cons h holes ih =>
    refine (ih (Session.settleHoles last cur h)).trans ?_
    unfold Session.settleHoles
    split_ifs <;> rfl

theorem replayedTo_scanning (c : Nat) (closed : Bool) (had : Option (Session.View Bytes))
    (start last floor : Nat) :
    (s.replayedTo c closed had start last floor).cur.scanning = s.cur.scanning := by
  unfold Session.replayedTo
  generalize (if floor ≠ 0 ∧ floor < last + 1 then floor else last + 1) = next
  cases had with
  | none =>
    dsimp only
    split_ifs <;> rfl
  | some view =>
    dsimp only
    split_ifs
    · rfl
    · rfl
    · exact settleHoles_scanning last view.holes _
    · exact settleHoles_scanning last view.holes _

/-- No other operation sets the flag or clears it. -/
theorem run_scanning [DecidableEq φ] (op : Op φ) : (op.run b s).cur.scanning = s.cur.scanning := by
  cases op with
  | attach c => rfl
  | release a => rfl
  | liveCopy seq id => exact noteLiveCopy_scanning b s seq id
  | lateCopy origin seq id => exact lateCopy_scanning b s origin seq id
  | installSubscription c sub =>
    change ((s.installSubscription c sub).getD s).cur.scanning = _
    unfold Session.installSubscription
    split_ifs <;> rfl
  | removeSubscription filter => rfl
  | setSince c refs last exact hadNonShared floor =>
    change (s.setSince c refs last exact hadNonShared floor).cur.scanning = _
    unfold Session.setSince
    dsimp only
    split_ifs <;> rfl
  | dropCursor => rfl
  | takeAway =>
    change ((s.takeAway.map Prod.snd).getD s).cur.scanning = _
    unfold Session.takeAway
    split_ifs <;> rfl
  | pinForReplay seq =>
    change (Owner.pinForReplay s seq).cur.scanning = _
    unfold Owner.pinForReplay
    split_ifs <;> rfl
  | unpin => rfl
  | replayedTo c closed had start last floor =>
    exact replayedTo_scanning s c closed had start last floor

/-- A loop that ends clears the flag. -/
theorem scanAgain_ended {again : Bool} (h : (scanAgain b s again).2 = none) :
    (scanAgain b s again).1.cur.scanning = false := by
  unfold scanAgain at h ⊢
  dsimp only at h ⊢
  split_ifs at h ⊢ with hgo
  · change s.conn = none at h
    rw [h] at hgo
    cases hgo.2
  · rfl

/-- A delivery up to the question whether to scan. -/
def marked (now : Nat) (id : Bytes) (seq : Nat) : Session Bytes φ :=
  (s.mark now id seq).prune b now

/-- A delivery that reaches the threshold. -/
def Due : Prop := b.scanAfter ≤ s.cur.above ∧ (s.cur.next ≠ 0 ∨ s.cur.pin = 0)

theorem marked_scanning (now : Nat) (id : Bytes) (seq : Nat) :
    (marked b s now id seq).cur.scanning = s.cur.scanning := by
  unfold marked Session.prune
  split_ifs <;> rfl

/-- The answer, and what is left of the question in the session. -/
theorem askScan_due (h : Due b s) :
    (s.askScan b).2 = !s.cur.scanning ∧
      (s.askScan b).1.cur = { s.cur with
        scanning := true, asked := s.cur.asked || s.cur.scanning } := by
  unfold Due at h
  unfold Session.askScan
  rw [if_pos h]
  cases hs : s.cur.scanning with
  | true => simp [← hs]
  | false => simp

theorem noteDelivered_due
    (h : Due b (marked b s now id seq)) : (s.noteDelivered b now id seq).2 = !s.cur.scanning ∧
      (s.noteDelivered b now id seq).1.cur = { (marked b s now id seq).cur with
        scanning := true, asked := (marked b s now id seq).cur.asked || s.cur.scanning } := by
  obtain ⟨hstart, hcur⟩ := askScan_due b (marked b s now id seq) h
  rw [marked_scanning] at hstart hcur
  exact ⟨hstart, hcur⟩

theorem noteDelivered_not_due (h : ¬ Due b (marked b s now id seq)) :
    s.noteDelivered b now id seq = (marked b s now id seq, false) :=
  if_neg h

end Flag

/-! ## Restored sessions -/

section Restored

variable {φ : Type} (b : Bounds) {n : Nat}

/-- A restored session before it has a cursor: the flag says whether enough was noted. -/
structure Noted (s : Session Bytes φ) (n : Nat) : Prop where
  next : s.cur.next = 0
  pin : s.cur.pin = 0
  above : s.cur.above = n
  scanning : s.cur.scanning = decide (b.scanAfter ≤ n)

variable {b} {s : Session Bytes φ}

/-- Without a cursor the bound on the ids drops nothing. -/
theorem prune_cur (hnext : s.cur.next = 0) (hpin : s.cur.pin = 0)
    (now : Nat) : (s.prune b now).cur = s.cur := by
  have hkeeps : s.delivered.countP s.keeps = 0 := by
    refine List.countP_eq_zero.mpr fun m _ => ?_
    unfold Session.keeps
    rw [hnext, hpin]
    exact Bool.false_ne_true
  unfold Session.prune
  rw [hkeeps, if_neg (Nat.not_lt_zero _)]
  split_ifs <;> rfl

theorem Noted.noteDelivered (h : Noted b s n) (now : Nat) (id : Bytes) (seq : Nat) :
    Noted b (s.noteDelivered b now id seq).1 (n + if seq ≠ 0 then 1 else 0) := by
  have hcur : (marked b s now id seq).cur = (s.mark now id seq).cur :=
    prune_cur (s := s.mark now id seq) h.next h.pin now
  have habove : (marked b s now id seq).cur.above = n + if seq ≠ 0 then 1 else 0 := by
    rw [hcur]
    change (if s.cur.next ≠ 0 ∧ s.cur.next ≤ seq ∨ s.cur.next = 0 ∧ seq ≠ 0 then s.cur.above + 1
      else s.cur.above) = _
    rw [h.next, h.above]
    split_ifs with h1 h2 <;> simp_all
  have hnext : (marked b s now id seq).cur.next = 0 := hcur ▸ h.next
  have hpin : (marked b s now id seq).cur.pin = 0 := hcur ▸ h.pin
  have hflag : (marked b s now id seq).cur.scanning = decide (b.scanAfter ≤ n) :=
    (marked_scanning b s now id seq).trans h.scanning
  have hdue : Due b (marked b s now id seq) ↔ b.scanAfter ≤ n + if seq ≠ 0 then 1 else 0 := by
    rw [Due, habove]
    exact and_iff_left (.inr hpin)
  by_cases hafter : b.scanAfter ≤ n + if seq ≠ 0 then 1 else 0
  · have hcur' := (noteDelivered_due b s (hdue.mpr hafter)).2
    refine ⟨?_, ?_, ?_, ?_⟩ <;> rw [hcur']
    · exact hnext
    · exact hpin
    · exact habove
    · exact (decide_eq_true hafter).symm
  · rw [noteDelivered_not_due b s (fun h => hafter (hdue.mp h))]
    refine ⟨hnext, hpin, habove, hflag.trans ?_⟩
    rw [decide_eq_false hafter, decide_eq_false fun hle => hafter (Nat.le_trans hle (by omega))]

theorem noteAll_noted (clock : Nat → Nat) (noted : List (Bytes × Nat)) (i : Nat) (h : Noted b s n) :
    Noted b (noteAll b clock i s noted) (n + noted.countP (·.2 ≠ 0)) := by
  induction noted generalizing i n s with
  | nil => exact h
  | cons x noted ih =>
    have hnext := ih (i + 1) (h.noteDelivered (clock i) x.1 x.2)
    have hcount : (x :: noted).countP (·.2 ≠ 0) =
        (if x.2 ≠ 0 then 1 else 0) + noted.countP (·.2 ≠ 0) := by
      rw [List.countP_cons, Nat.add_comm]
      simp only [decide_eq_true_eq]
    rw [hcount, ← Nat.add_assoc]
    exact hnext

/-- An entry whose message is noted as delivered with a sequence. -/
def counts (c : Codec) (broker : Restore.Broker) (st : StoredInflight) : Bool :=
  match Restore.restoreEntry c broker st with
  | some o => o.msgID != [] && o.queueSeq != 0
  | none => false

theorem step_noted (c : Codec) (broker : Restore.Broker) (r : Restore.Restored)
    (st : StoredInflight) :
    (r.step c broker st).noted.countP (·.2 ≠ 0) =
      r.noted.countP (·.2 ≠ 0) + if counts c broker st then 1 else 0 := by
  have hack : (r.acknowledge st).noted = r.noted := by
    unfold Restore.Restored.acknowledge
    split_ifs <;> rfl
  unfold Restore.Restored.step counts
  cases Restore.restoreEntry c broker st with
  | none => exact congrArg _ hack
  | some o =>
    dsimp only
    rw [hack]
    by_cases hid : o.msgID = []
    · simp [hid]
    · by_cases hseq : o.queueSeq = 0
      · simp [hid, hseq]
      · simp [hid, hseq]

theorem restoreSessionState_noted (c : Codec) (broker : Restore.Broker) (r : Record) :
    (Restore.restoreSessionState c broker r.inflight r.spill).noted.countP (·.2 ≠ 0) =
      (r.entries c broker).countP (counts c broker) := by
  suffices h : ∀ (entries : List StoredInflight) (acc : Restore.Restored),
      (entries.foldl (Restore.Restored.step c broker) acc).noted.countP (·.2 ≠ 0) =
        acc.noted.countP (·.2 ≠ 0) + entries.countP (counts c broker) by
    exact (h _ _).trans (Nat.zero_add _)
  intro entries
  induction entries with
  | nil => exact fun _ => rfl
  | cons st entries ih =>
    intro acc
    rw [List.foldl_cons, ih, step_noted, List.countP_cons]
    omega

theorem markAwayRestored_scanning (s : Session Bytes φ) (now : Nat) (r : AwayRecord) :
    (markAwayRestored s now r).cur.scanning = s.cur.scanning := by
  change (restoreCursorLocked { s with away := { r.away with restored := true } } r.cursor
    r.holes).cur.scanning = _
  unfold restoreCursorLocked
  split_ifs
  · rfl
  · exact foldl_addHole_scanning _ _

/-- **A restored session.** It has the flag when the record has as many messages in flight that are
noted as delivered with a sequence as a scan waits for. -/
theorem restored_scanning (h : 0 < b.scanAfter) (clock : Nat → Nat) (c : Codec)
    (broker : Restore.Broker) (r : Record) :
    ((Start.restored clock c broker r).session b : Session Bytes φ).cur.scanning =
      decide (b.scanAfter ≤ (r.entries c broker).countP (counts c broker)) := by
  have hnew : Noted b ({} : Session Bytes φ) 0 :=
    ⟨rfl, rfl, rfl, (decide_eq_false (Nat.not_le_of_lt h)).symm⟩
  have hnoted := (noteAll_noted clock
    (Restore.restoreSessionState c broker r.inflight r.spill).noted 0 hnew).scanning
  rw [Nat.zero_add, restoreSessionState_noted] at hnoted
  unfold Start.session
  dsimp only
  split
  · exact (markAwayRestored_scanning _ _ _).trans hnoted
  · exact hnoted

end Restored

/-! ## The owner -/

section Owned

variable {φ : Type} [DecidableEq φ] (b : Bounds) {s : State φ}

/-- The flag has a loop, so that a delivery that reaches the threshold starts one or asks the one
that runs to go on. -/
structure Owned (s : State φ) : Prop where
  owner : s.session.cur.scanning = true → s.loops ≠ []
  delivery : ∀ c now id seq, Due b (marked b s.session now id seq) →
    (s.loops = [] → (note b s c now id seq).loops = [⟨c, .look⟩]) ∧
      (s.session.cur.scanning = true → (note b s c now id seq).session.cur.asked = true)

omit [DecidableEq φ] in
theorem Owned.of_owner (h : s.session.cur.scanning = true → s.loops ≠ []) : Owned b s where
  owner := h
  delivery c now id seq hdue := by
    obtain ⟨hstart, hcur⟩ := noteDelivered_due b s.session hdue
    constructor
    · intro hnil
      have hflag : s.session.cur.scanning = false :=
        Bool.eq_false_iff.mpr fun hs => h hs hnil
      rw [hflag] at hstart
      unfold note
      dsimp only
      rw [hstart, hnil]
      rfl
    · intro hs
      unfold note
      dsimp only
      rw [hcur, hs, Bool.or_true]

variable {b}

omit [DecidableEq φ] in
theorem set_ne_nil {loops : List (Loop φ)} {i : Nat} {l m : Loop φ} (h : loops[i]? = some l) :
    loops.set i m ≠ [] := by
  intro hnil
  rw [List.set_eq_nil_iff] at hnil
  rw [hnil] at h
  cases h

/-- No step leaves the flag without a loop: only a delivery sets it, which starts one, and only the
end of a loop, which clears it, takes one away. -/
theorem step_owner {t : State φ} {a : Act φ} (h : s.session.cur.scanning = true → s.loops ≠ [])
    (hs : step b s a = some t) : t.session.cur.scanning = true → t.loops ≠ [] := by
  cases a <;> simp only [step] at hs
  case note c now id seq =>
    cases hs
    intro hflag
    by_cases hdue : Due b (marked b s.session now id seq)
    · obtain ⟨hstart, -⟩ := noteDelivered_due b s.session hdue
      unfold note
      dsimp only
      rw [hstart]
      cases hscan : s.session.cur.scanning with
      | true => exact h hscan
      | false => exact List.append_ne_nil_of_right_ne_nil _ (List.cons_ne_nil _ _)
    · unfold note at hflag ⊢
      dsimp only at hflag ⊢
      rw [noteDelivered_not_due b s.session hdue] at hflag ⊢
      exact h ((marked_scanning b s.session now id seq).symm.trans hflag)
  case look i blocked =>
    split at hs <;> cases hs
    rename_i hl
    exact fun _ => set_ne_nil hl
  case gather i result =>
    simp only [Option.bind_eq_bind, Option.bind_eq_some_iff] at hs
    obtain ⟨l, hl, phase, -, hs⟩ := hs
    cases hs
    exact fun _ => set_ne_nil hl
  case apply i refused floor now =>
    simp only [Option.bind_eq_bind, Option.bind_eq_some_iff] at hs
    obtain ⟨l, hl, r, -, hs⟩ := hs
    cases hs
    exact fun _ => set_ne_nil hl
  case scanAgain i =>
    split at hs
    · rename_i again hl
      split at hs <;> cases hs
      · exact fun _ => set_ne_nil hl
      · rename_i hnone
        intro hflag
        rw [scanAgain_ended b s.session hnone] at hflag
        cases hflag
    · cases hs
  case other op =>
    cases hs
    intro hflag
    exact h ((run_scanning b s.session op).symm.trans hflag)

/-- The records that note fewer messages than a scan waits for. -/
def Start.Few (b : Bounds) : Start → Prop
  | .new => True
  | .restored _ c broker r => (r.entries c broker).countP (counts c broker) < b.scanAfter

/-- **The owner of the scan flag.** In every run from a new session, or from a record with fewer
messages in flight that are noted with a sequence than a scan waits for, the flag has a loop, and a
delivery that reaches the threshold starts a loop when none runs; and from no other record. -/
theorem scan_flag_owned (hafter : 0 < b.scanAfter) (start : Start) :
    (∀ s : State φ, Reach (step b) free (start.state b) s → Owned b s) ↔ start.Few b := by
  have hinit : (start.session b : Session Bytes φ).cur.scanning = false ↔ start.Few b := by
    cases start with
    | new => exact iff_of_true rfl trivial
    | restored clock c broker r =>
      rw [restored_scanning hafter, decide_eq_false_iff_not, Nat.not_le]
      exact Iff.rfl
  constructor
  · intro h
    refine hinit.mp (Bool.eq_false_iff.mpr fun hflag => ?_)
    exact (h _ .refl).owner hflag rfl
  · intro hfew s hreach
    have howner : s.session.cur.scanning = true → s.loops ≠ [] := by
      refine Reach.invariant (fun hflag => ?_) (fun _ _ _ h _ hs => step_owner h hs) hreach
      change (start.session b : Session Bytes φ).cur.scanning = true at hflag
      rw [hinit.mpr hfew] at hflag
      cases hflag
    exact .of_owner b howner

/-! ## Two records -/

/-- The bounds of the source, with a window of five minutes. -/
def bounds : Bounds := ⟨300000000000, 1024, 16384, 1024⟩

/-- A broker with a copy of every message in its queue. -/
def broker : Restore.Broker where
  blobs _ := none
  queue n := some ⟨some [97], ⟨[5], [(.msgID, itoa n)]⟩, 0⟩
  now := 0

/-- A record with `n` messages in flight at QoS 1, each with its copy in the queue. -/
def inFlight (n : Nat) : Record where
  inflight := (List.range n).map fun i => { id := UInt16.ofNat (i + 1), qos := 1, seq := i + 1 }
  spill := []

/-- One message in flight. -/
theorem scan_flag_owned_one : Owned bounds
    ((Start.restored (fun _ => 0) Spill.backlogCodec broker (inFlight 1)).state bounds :
      State Bytes) := by
  refine (scan_flag_owned (by decide) _).mpr ?_ _ .refl
  change ((inFlight 1).entries Spill.backlogCodec broker).countP
    (counts Spill.backlogCodec broker) < 1024
  decide +kernel

omit [DecidableEq φ] in
/-- Where the flag is set and no loop runs, no delivery starts one. -/
theorem note_of_flag (hflag : s.session.cur.scanning = true) (hnil : s.loops = [])
    (c now : Nat) (id : Bytes) (seq : Nat) : (note b s c now id seq).loops = [] := by
  have hnote : (s.session.noteDelivered b now id seq).2 = false := by
    by_cases hdue : Due b (marked b s.session now id seq)
    · rw [(noteDelivered_due b s.session hdue).1, hflag]
      rfl
    · rw [noteDelivered_not_due b s.session hdue]
  unfold note
  dsimp only
  rw [hnote]
  exact hnil

theorem ownerless_of_flag {start : Start}
    (h : (start.session b : Session Bytes φ).cur.scanning = true) :
    ∃ s : State φ, Reach (step b) free (start.state b) s ∧ s.session.cur.scanning = true ∧
      s.loops = [] ∧ ∀ c now id seq, (note b s c now id seq).loops = [] :=
  ⟨start.state b, .refl, h, rfl, note_of_flag h rfl⟩

theorem counts_inFlight :
    ((inFlight 1024).entries Spill.backlogCodec broker).countP
      (counts Spill.backlogCodec broker) = 1024 := by
  decide +kernel

/-- 1024 messages in flight, as a client with the default Receive Maximum may have: the session is
restored with the flag set and no loop, and no delivery starts one. -/
theorem scan_flag_ownerless :
    ∃ s : State Bytes, Reach (step bounds) free
      ((Start.restored (fun _ => 0) Spill.backlogCodec broker (inFlight 1024)).state bounds) s ∧
      s.session.cur.scanning = true ∧ s.loops = [] ∧
      ∀ c now id seq, (note bounds s c now id seq).loops = [] := by
  refine ownerless_of_flag ?_
  rw [restored_scanning (by decide), counts_inFlight]
  decide

end Owned

end Natsmqtt5.Cursor.Owner
