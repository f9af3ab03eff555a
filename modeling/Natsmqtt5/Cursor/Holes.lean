import Natsmqtt5.Lts
import Natsmqtt5.Cursor.Session

/-!
# The two maps of the holes

`replayCursor` keeps its holes twice: `holes` by sequence and `holeAt` by id, and its comment calls
one the reverse of the other. `addHole` writes both without looking at what `holeAt` had under the
id, and `removeHole` deletes the one sequence `holeAt` names. A message that is stored twice under
one id can so be a hole at two sequences, of which delivering it takes one away.

Here the maps are kept apart. What the rest of the session does is arbitrary (`Act.other`); the
steps are those that touch a map. `restoreCursorLocked` may be given any record.

Results:
* **`holes_inverse`**: in every run that makes a hole only for an id no other hole carries, the maps
  are inverse, and delivering a message leaves no hole with its id.
* `holes_share_id`: the live copies of two messages with one id leave two holes, and delivering it
  leaves one of them.
-/

namespace Natsmqtt5.Cursor.Holes

open Function

variable {ι φ : Type} [DecidableEq ι] {seq : Nat} {new : List (Stored ι)} {read : List (Scanned ι)}

/-- A session whose `cur.holes` is the map by sequence, and the map by id. -/
structure Maps (ι φ : Type) where
  session : Session ι φ := {}
  holeAt : ι → Option Nat := fun _ => none

/-- `cur.holes[seq]`. -/
def Maps.hole (t : Maps ι φ) (seq : Nat) : Option ι :=
  (Keyed.find Stored.seq t.session.cur.holes seq).map Stored.id

/-! ## The functions -/

namespace Maps

def addHole (t : Maps ι φ) (h : Stored ι) : Maps ι φ where
  session := { t.session with cur := t.session.cur.addHole h }
  holeAt := update t.holeAt h.id (some h.seq)

def removeHole (t : Maps ι φ) (id : ι) : Maps ι φ :=
  match t.holeAt id with
  | some seq =>
    { session := { t.session with cur := { t.session.cur with
        holes := Keyed.erase Stored.seq t.session.cur.holes seq } }
      holeAt := update t.holeAt id none }
  | none => t

def setCursorLocked (t : Maps ι φ) (next : Nat) : Maps ι φ :=
  { session := t.session.setCursorLocked next }

def dropCursorLocked (t : Maps ι φ) : Maps ι φ := { session := t.session.dropCursorLocked }

def addHoleLocked (b : Bounds) (t : Maps ι φ) (seq : Nat) : Option ι → Maps ι φ × Bool
  | none => (t.dropCursorLocked, false)
  | some id =>
    if seq < t.session.cur.base then (t.dropCursorLocked, false)
    else if t.session.knows id then (t, true)
    else if (t.hole seq).isSome then (t, true)
    else if b.holes ≤ t.session.cur.holes.length then (t.dropCursorLocked, false)
    else (t.addHole ⟨id, seq⟩, true)

def noteLiveCopy (b : Bounds) (t : Maps ι φ) (seq : Nat) (id : Option ι) : Maps ι φ :=
  if seq = 0 then t
  else if t.session.cur.next ≠ 0 ∧ seq < t.session.cur.next then (t.addHoleLocked b seq id).1
  else t

def lateCopy (b : Bounds) (t : Maps ι φ) (origin : Option Nat) (seq : Nat) (id : Option ι) :
    Maps ι φ :=
  match t.session.conn.filter (some · ≠ origin) with
  | some _ => t
  | none =>
    let t' := if t.session.cur.next ≠ 0 ∧ seq < t.session.cur.next then (t.addHoleLocked b seq id).1
      else t
    let holed := t'.session.cur.holes.length != t.session.cur.holes.length
    { t' with session := (t'.session.noteLate seq holed).1 }

/-- The loop of `applyScanLocked`. -/
def addHoles (b : Bounds) (next : Nat) : Maps ι φ → List (Scanned ι) → Maps ι φ × Bool
  | t, [] => (t, true)
  | t, m :: read =>
    if next ≤ m.seq then (t, true)
    else if !m.owed then addHoles b next t read
    else
      match t.addHoleLocked b m.seq m.id with
      | (t', true) => addHoles b next t' read
      | (t', false) => (t', false)

def applyScanLocked (b : Bounds) (t : Maps ι φ) (sc : Scan ι φ) (floor : Nat) : Maps ι φ :=
  let s := t.session
  if s.cur.gen ≠ sc.gen ∨ s.cur.next ≠ sc.start then t
  else if sc.last + 1 < sc.start then t.dropCursorLocked
  else if !s.sameSubsLocked sc.subs || !s.sinceKnownLocked then t
  else
    let next := Session.scanNext sc.start sc.last floor
    match t.addHoles b next sc.read with
    | (t', false) => t'
    | (t', true) =>
      { t' with session := { t'.session with cur := { t'.session.cur with
          next := next, above := t'.session.countAboveLocked next } } }

/-- How far a restart gets. -/
def restartNext (r : RestartScan ι φ) (floor : Nat) : Nat :=
  if floor ≠ 0 ∧ floor < r.last + 1 then floor else r.last + 1

def restartCursorLocked (b : Bounds) (t : Maps ι φ) (r : RestartScan ι φ) (floor now : Nat) :
    Maps ι φ :=
  let s := t.session
  if s.cur.next ≠ 0 ∨ s.cur.gen ≠ r.gen ∨ s.cur.pin ≠ 0 ∨ !s.sinceKnownLocked ∨
      !s.sameSubsLocked r.subs then t
  else if r.began + b.window ≤ now then t
  else if floor ≠ 0 ∧ floor < r.base then t
  else
    let next := restartNext r floor
    match s.restartHoles next r.read with
    | none => t
    | some holes =>
      if b.holes < holes.length then t
      else if b.ids < s.countAboveLocked next then t
      else
        let t' := holes.foldl addHole (t.setCursorLocked next)
        { t' with session := { t'.session with cur := { t'.session.cur with
            base := r.base, above := s.countAboveLocked next } } }

/-- `noteDelivered` up to the bound on the ids. -/
def mark (t : Maps ι φ) (now : Nat) (id : ι) (seq : Nat) : Maps ι φ :=
  let t' := t.removeHole id
  let cur := t'.session.cur
  { t' with session := { t'.session with
      delivered := Keyed.put Mark.id t.session.delivered ⟨id, now, seq⟩
      maxDeliveredSeq := max t.session.maxDeliveredSeq seq
      cur := { cur with
        above := if cur.next ≠ 0 ∧ cur.next ≤ seq ∨ cur.next = 0 ∧ seq ≠ 0 then cur.above + 1
          else cur.above } } }

/-- The part of `noteDelivered` that bounds the ids. -/
def prune (b : Bounds) (t : Maps ι φ) (now : Nat) : Maps ι φ :=
  let s := t.session
  if 64 < s.delivered.length ∧ s.delivered.length % 64 = 0 then
    let t' := { t with session := { s with
      delivered := s.delivered.filter fun m => s.keeps m || !s.stale b now m } }
    if b.ids < s.delivered.countP s.keeps then t'.dropCursorLocked else t'
  else t

def noteDelivered (b : Bounds) (t : Maps ι φ) (now : Nat) (id : ι) (seq : Nat) : Maps ι φ :=
  let t' := (t.mark now id seq).prune b now
  { t' with session := (t'.session.askScan b).1 }

/-- The holes of the replay's view that it passed are settled, in the order the map gives them. -/
def settleHoles (last : Nat) (t : Maps ι φ) (h : Stored ι) : Maps ι φ :=
  if h.seq ≤ last ∧ t.hole h.seq = some h.id then t.removeHole h.id else t

def replayedTo (t : Maps ι φ) (c : Nat) (closed : Bool) (had : Option (Session.View ι))
    (start last floor : Nat) : Maps ι φ :=
  let pinned := t.session.cur.pin
  let t := { t with session := { t.session with cur := { t.session.cur with pin := 0 } } }
  if t.session.conn ≠ some c ∨ closed then t
  else
    let t := { t with session := t.session.swapSince (fun _ => true) last }
    let next := if floor ≠ 0 ∧ floor < last + 1 then floor else last + 1
    match had with
    | none =>
      if t.session.cur.next ≠ 0 ∨ pinned = 0 ∨ start < pinned ∨ floor ≠ 0 ∧ floor < start then t
      else
        let t := t.setCursorLocked next
        { t with session := { t.session with cur := { t.session.cur with
            above := t.session.countAboveLocked next } } }
    | some view =>
      if t.session.cur.next = 0 then t
      else
        let t := view.holes.foldl (settleHoles last) t
        if t.session.cur.next < next then
          { t with session := { t.session with cur := { t.session.cur with
              next := next, above := t.session.countAboveLocked next } } }
        else t

/-- The holes of a record that `restoreCursorLocked` takes. -/
def restorable (t : Maps ι φ) (next : Nat) (holes : List (Option ι × Nat)) : List (Stored ι) :=
  holes.filterMap fun h =>
    if h.2 < next then (h.1.filter (!t.session.knows ·)).map (⟨·, h.2⟩) else none

def restoreCursorLocked (t : Maps ι φ) (next : Nat) (holes : List (Option ι × Nat)) : Maps ι φ :=
  if next = 0 then t
  else
    let cur := { t.session.cur with next := next, holes := [], gen := t.session.cur.gen + 1 }
    (t.restorable next holes).foldl addHole { session := { t.session with cur := cur } }

end Maps

/-! ## Runs -/

inductive Act (ι φ : Type)
  | live (seq : Nat) (id : Option ι)
  | late (origin : Option Nat) (seq : Nat) (id : Option ι)
  | scan (sc : Scan ι φ) (floor : Nat)
  | restart (r : RestartScan ι φ) (floor now : Nat)
  | deliver (now : Nat) (id : ι) (seq : Nat)
  | replayed (c : Nat) (closed : Bool) (had : Option (Session.View ι)) (start last floor : Nat)
  | drop
  /-- `setSince` starts a cursor. -/
  | set (next : Nat)
  | restore (next : Nat) (holes : List (Option ι × Nat))
  /-- Anything else the session does, which leaves the holes alone. -/
  | other (session : Session ι φ)

def step (b : Bounds) (t : Maps ι φ) : Act ι φ → Option (Maps ι φ)
  | .live seq id => some (t.noteLiveCopy b seq id)
  | .late origin seq id => some (t.lateCopy b origin seq id)
  | .scan sc floor => some (t.applyScanLocked b sc floor)
  | .restart r floor now => some (t.restartCursorLocked b r floor now)
  | .deliver now id seq => some (t.noteDelivered b now id seq)
  | .replayed c closed had start last floor => some (t.replayedTo c closed had start last floor)
  | .drop => some t.dropCursorLocked
  | .set next => some (t.setCursorLocked next)
  | .restore next holes => some (t.restoreCursorLocked next holes)
  | .other s => some { t with session := { s with cur := { s.cur with
      holes := t.session.cur.holes } } }

/-! ## The holes a step makes -/

/-- The messages of a read below `next` that are owed and were not delivered. -/
def Maps.unsent (t : Maps ι φ) (next : Nat) (read : List (Scanned ι)) : List (Stored ι) :=
  ((read.takeWhile (·.seq < next)).filter (·.owed)).filterMap fun m =>
    (m.id.filter (!t.session.knows ·)).map (⟨·, m.seq⟩)

/-- Those at a sequence that has no hole yet. -/
def Maps.fresh (t : Maps ι φ) (next : Nat) (read : List (Scanned ι)) : List (Stored ι) :=
  (t.unsent next read).filter fun h => (t.hole h.seq).isNone

/-- Among the holes there are and those that are made, each of these has an id and a sequence of its
own. -/
def Single (old new : List (Stored ι)) : Prop :=
  ∀ x ∈ new, ∀ y ∈ old ++ new, x.id = y.id ↔ x.seq = y.seq

/-- The step makes a hole only for an id no other hole carries. -/
def OneEach (t : Maps ι φ) : Act ι φ → Prop
  | .live seq id => Single t.session.cur.holes (t.fresh t.session.cur.next [⟨seq, id, true⟩])
  | .late origin seq id => t.session.conn.filter (some · ≠ origin) = none →
      Single t.session.cur.holes (t.fresh t.session.cur.next [⟨seq, id, true⟩])
  | .scan sc floor => t.session.cur.gen = sc.gen → t.session.cur.next = sc.start →
      t.session.sameSubsLocked sc.subs = true →
        Single t.session.cur.holes (t.fresh (Session.scanNext sc.start sc.last floor) sc.read)
  | .restart r floor _ => t.session.cur.gen = r.gen → t.session.cur.next = 0 →
      t.session.sameSubsLocked r.subs = true →
        Single [] (t.unsent (Maps.restartNext r floor) r.read)
  | .restore next holes => Single [] (t.restorable next holes)
  | _ => True

instance (old new : List (Stored ι)) : Decidable (Single old new) :=
  inferInstanceAs (Decidable (∀ x ∈ new, ∀ y ∈ old ++ new, x.id = y.id ↔ x.seq = y.seq))

instance (t : Maps ι φ) (a : Act ι φ) : Decidable (OneEach t a) := by
  cases a <;> unfold OneEach <;> infer_instance

/-! ## The invariant -/

/-- `holes[seq] = id` if and only if `holeAt[id] = seq`. -/
def Inverse (t : Maps ι φ) : Prop := ∀ seq id, t.hole seq = some id ↔ t.holeAt id = some seq

variable {t : Maps ι φ} {x : Stored ι} {b : Bounds} {next : Nat} {s : Session ι φ}

omit [DecidableEq ι] in
theorem inverse_cleared (h : s.cur.holes = []) : Inverse { session := s } := by
  intro seq id
  simp [Maps.hole, h, Keyed.find]

omit [DecidableEq ι] in
/-- What is not the holes does not matter. -/
theorem Inverse.congr (h : Inverse t)
    (hs : s.cur.holes = t.session.cur.holes) : Inverse { t with session := s } := by
  intro seq id
  have hiff := h seq id
  unfold Maps.hole at hiff ⊢
  rwa [hs]

theorem hole_addHole (seq : Nat) :
    (t.addHole x).hole seq = if seq = x.seq then some x.id else t.hole seq := by
  unfold Maps.hole Maps.addHole ReplayCursor.addHole
  by_cases h : seq = x.seq
  · subst h
    simp
  · simp [h]

omit [DecidableEq ι] in
theorem mem_of_hole {id : ι} (h : t.hole seq = some id) : ⟨id, seq⟩ ∈ t.session.cur.holes := by
  obtain ⟨y, hy, rfl⟩ := Option.map_eq_some_iff.mp h
  have hseq := Keyed.key_of_find _ hy
  subst hseq
  exact Keyed.mem_of_find _ hy

theorem Inverse.addHole (h : Inverse t) (hseq : ∀ id, t.hole x.seq = some id → x.id = id)
    (hid : ∀ seq, t.holeAt x.id = some seq → x.seq = seq) : Inverse (t.addHole x) := by
  intro seq id
  rw [hole_addHole]
  simp only [Maps.addHole, update_apply]
  by_cases hs : seq = x.seq <;> by_cases hi : id = x.id
  · simp [hs, hi]
  · subst hs
    rw [if_pos rfl, if_neg hi, ← h x.seq id]
    exact ⟨fun hx => absurd (Option.some.inj hx).symm hi, fun hx => absurd (hseq id hx).symm hi⟩
  · subst hi
    rw [if_neg hs, if_pos rfl, h seq x.id]
    exact ⟨fun hx => absurd (hid seq hx).symm hs, fun hx => absurd (Option.some.inj hx).symm hs⟩
  · rw [if_neg hs, if_neg hi]
    exact h seq id

theorem Inverse.removeHole (h : Inverse t) (id : ι) : Inverse (t.removeHole id) := by
  unfold Maps.removeHole
  split
  · rename_i q hq
    intro seq i
    simp only [Maps.hole, update_apply]
    by_cases hs : seq = q <;> by_cases hi : i = id
    · subst hs hi
      simp
    · subst hs
      simp only [Keyed.find_erase_self, Option.map_none, if_neg hi, reduceCtorEq, false_iff]
      rw [← h seq i, (h seq id).mpr hq]
      exact fun he => hi (Option.some.inj he).symm
    · subst hi
      simp only [Keyed.find_erase_of_ne _ hs, if_true, reduceCtorEq, iff_false]
      intro hx
      rw [(h seq i).mp hx] at hq
      exact hs (Option.some.inj hq)
    · simp only [Keyed.find_erase_of_ne _ hs, if_neg hi]
      exact h seq i
  · exact h

/-- The id of the removed hole is gone from both maps. -/
theorem Inverse.hole_removeHole (h : Inverse t) (id : ι) (seq : Nat) :
    (t.removeHole id).hole seq ≠ some id := by
  intro hx
  have hat := (h.removeHole id seq id).mp hx
  unfold Maps.removeHole at hat
  split at hat
  · simp at hat
  · rename_i hnone
    rw [hnone] at hat
    cases hat

/-! ## Adding holes -/

omit [DecidableEq ι] in
theorem Single.mono {old old' new' : List (Stored ι)} (h : Single old new) (hnew : new' ⊆ new)
    (hold : ∀ y ∈ old', y ∈ old ++ new) : Single old' new' := by
  intro x hx y hy
  refine h x (hnew hx) y ?_
  obtain hy | hy := List.mem_append.mp hy
  · exact hold y hy
  · exact List.mem_append_right _ (hnew hy)

theorem Inverse.add_single (h : Inverse t)
    (hs : Single t.session.cur.holes new) (hx : x ∈ new) : Inverse (t.addHole x) := by
  refine h.addHole (fun id hq => ?_) fun seq hq => ?_
  · exact (hs x hx _ (List.mem_append_left _ (mem_of_hole hq))).mpr rfl
  · exact (hs x hx _ (List.mem_append_left _ (mem_of_hole ((h _ _).mpr hq)))).mp rfl

theorem holes_addHole (hx : x ∈ new) :
    ∀ y ∈ (t.addHole x).session.cur.holes, y ∈ t.session.cur.holes ++ new := by
  intro y hy
  obtain ⟨hy, -⟩ | rfl := (Keyed.mem_put _).mp hy
  · exact List.mem_append_left _ hy
  · exact List.mem_append_right _ hx

theorem Inverse.foldl_addHole (h : Inverse t)
    (hs : Single t.session.cur.holes new) : Inverse (new.foldl Maps.addHole t) := by
  induction new generalizing t with
  | nil => exact h
  | cons x new ih =>
    have hx : x ∈ x :: new := List.mem_cons_self
    exact ih (h.add_single hs hx) (hs.mono (List.subset_cons_self x new) (holes_addHole hx))

theorem unsent_cons (next : Nat) (m : Scanned ι) (read : List (Scanned ι)) :
    t.unsent next (m :: read) =
      if m.seq < next then
        (if m.owed then ((m.id.filter (!t.session.knows ·)).map (⟨·, m.seq⟩)).toList else []) ++
          t.unsent next read
      else [] := by
  unfold Maps.unsent
  by_cases hlt : m.seq < next
  · cases ho : m.owed
    · simp [hlt, ho]
    · cases hid : m.id.filter (!t.session.knows ·) <;> simp [hlt, ho, hid]
  · simp [hlt]

/-- The loop of a scan. Each message it makes a hole is one of `fresh`. -/
theorem Inverse.addHoles (h : Inverse t)
    (hs : Single t.session.cur.holes (t.fresh next read)) : Inverse (t.addHoles b next read).1 := by
  induction read generalizing t with
  | nil => exact h
  | cons m read ih =>
    unfold Maps.addHoles
    split
    · exact h
    · rename_i hlt
      have hcons := unsent_cons (t := t) next m read
      rw [if_pos (Nat.lt_of_not_le hlt)] at hcons
      have hsub : t.fresh next read ⊆ t.fresh next (m :: read) := by
        unfold Maps.fresh
        rw [hcons, List.filter_append]
        exact List.subset_append_right _ _
      have hrest := hs.mono hsub fun y hy => List.mem_append_left _ hy
      split
      · exact ih h hrest
      · rename_i howed
        have howed : m.owed = true := by simpa using howed
        cases hid : m.id with
        | none => exact inverse_cleared rfl
        | some id =>
          unfold Maps.addHoleLocked
          by_cases hbase : m.seq < t.session.cur.base
          · simp only [if_pos hbase]
            exact inverse_cleared rfl
          by_cases hk : t.session.knows id = true
          · simp only [if_neg hbase, if_pos hk]
            exact ih h hrest
          by_cases hhole : (t.hole m.seq).isSome = true
          · simp only [if_neg hbase, if_neg hk, if_pos hhole]
            exact ih h hrest
          by_cases hlen : b.holes ≤ t.session.cur.holes.length
          · simp only [if_neg hbase, if_neg hk, if_neg hhole, if_pos hlen]
            exact inverse_cleared rfl
          simp only [if_neg hbase, if_neg hk, if_neg hhole, if_neg hlen]
          have hx : ⟨id, m.seq⟩ ∈ t.fresh next (m :: read) := by
            unfold Maps.fresh
            rw [hcons]
            simp [howed, hid, hk, Option.not_isSome_iff_eq_none.mp hhole]
          refine ih (h.add_single hs hx) (hs.mono (fun y hy => ?_) (holes_addHole hx))
          obtain ⟨hy, hnone⟩ := List.mem_filter.mp hy
          refine hsub (List.mem_filter.mpr ⟨hy, ?_⟩)
          rw [hole_addHole] at hnone
          split at hnone
          · simp at hnone
          · exact hnone

/-- One message is a read of its own. -/
theorem Inverse.addHoleLocked (h : Inverse t) {id : Option ι} (hlt : seq < next)
    (hs : Single t.session.cur.holes (t.fresh next [⟨seq, id, true⟩])) :
    Inverse (t.addHoleLocked b seq id).1 := by
  have hloop := h.addHoles (b := b) hs
  simp only [Maps.addHoles, if_neg (Nat.not_le.mpr hlt), Bool.not_true, Bool.false_eq_true,
    if_false] at hloop
  split at hloop <;> rename_i he <;> rwa [he]

theorem restartHoles_eq {hs : List (Stored ι)}
    (h : t.session.restartHoles next read = some hs) : hs = t.unsent next read := by
  induction read generalizing hs with
  | nil => simpa [Session.restartHoles, Maps.unsent, eq_comm] using h
  | cons m read ih =>
    rw [unsent_cons]
    unfold Session.restartHoles at h
    by_cases hlt : next ≤ m.seq
    · rw [if_pos hlt] at h
      rw [if_neg (Nat.not_lt.mpr hlt)]
      exact (Option.some.inj h).symm
    · rw [if_neg hlt] at h
      rw [if_pos (Nat.lt_of_not_le hlt)]
      cases howed : m.owed with
      | false => simpa [howed] using ih (by simpa [howed] using h)
      | true =>
        cases hid : m.id with
        | none => simp [howed, hid] at h
        | some id =>
          cases hk : t.session.knows id with
          | true => simpa [Option.filter, hk] using ih (by simpa [howed, hid, hk] using h)
          | false =>
            simp only [howed, hid, hk, Option.any_some, Bool.not_true, Bool.or_false,
              Bool.false_eq_true, if_false, Option.map_eq_some_iff] at h
            obtain ⟨hs', hrest, rfl⟩ := h
            simp [Option.filter, hk, ih hrest]

/-! ## Steps -/

theorem Inverse.settleHoles (h : Inverse t) (last : Nat) (holes : List (Stored ι)) :
    Inverse (holes.foldl (Maps.settleHoles last) t) := by
  induction holes generalizing t with
  | nil => exact h
  | cons y holes ih =>
    refine ih ?_
    unfold Maps.settleHoles
    split
    · exact h.removeHole y.id
    · exact h

omit [DecidableEq ι] in
theorem Inverse.moved (h : Inverse t) (next above : Nat) :
    Inverse (if t.session.cur.next < next then
      { t with session := { t.session with cur := { t.session.cur with
          next := next, above := above } } } else t) := by
  split <;> exact h

omit [DecidableEq ι] in
theorem Inverse.prune (h : Inverse t) (now : Nat) : Inverse (t.prune b now) := by
  unfold Maps.prune
  simp only
  split
  · split
    · exact inverse_cleared rfl
    · exact h
  · exact h

omit [DecidableEq ι] in
theorem askScan_holes (s : Session ι φ) : (s.askScan b).1.cur.holes = s.cur.holes := by
  unfold Session.askScan
  split_ifs <;> rfl

omit [DecidableEq ι] in
theorem noteLate_holes (s : Session ι φ) (seq : Nat) (holed : Bool) :
    (s.noteLate seq holed).1.cur.holes = s.cur.holes := by
  unfold Session.noteLate
  dsimp only
  split_ifs <;> rfl

theorem Inverse.step {t' : Maps ι φ} {a : Act ι φ} (h : Inverse t) (hok : OneEach t a)
    (hs : step b t a = some t') : Inverse t' := by
  cases a with
  | live seq id =>
    cases hs
    unfold Maps.noteLiveCopy
    split
    · exact h
    · split
      · rename_i hlt
        exact h.addHoleLocked hlt.2 hok
      · exact h
  | late origin seq id =>
    cases hs
    unfold Maps.lateCopy
    split
    · exact h
    · rename_i hnone
      refine Inverse.congr ?_ (noteLate_holes _ _ _)
      split
      · rename_i hlt
        exact h.addHoleLocked hlt.2 (hok hnone)
      · exact h
  | scan sc floor =>
    cases hs
    unfold Maps.applyScanLocked
    simp only
    split
    · exact h
    · rename_i hsame
      push Not at hsame
      split
      · exact inverse_cleared rfl
      · split
        · exact h
        · rename_i hsubs
          simp only [Bool.or_eq_true, Bool.not_eq_true', not_or, Bool.not_eq_false] at hsubs
          have hloop := h.addHoles (b := b) (hok hsame.1 hsame.2 hsubs.1)
          split <;> rename_i he <;> rw [he] at hloop <;> exact hloop
  | restart r floor now =>
    cases hs
    unfold Maps.restartCursorLocked
    simp only
    split
    · exact h
    · rename_i hsame
      push Not at hsame
      split
      · exact h
      · split
        · exact h
        · split
          · exact h
          · rename_i holes hholes
            split
            · exact h
            · split
              · exact h
              · obtain rfl := restartHoles_eq hholes
                have hsubs : t.session.sameSubsLocked r.subs = true := by simpa using hsame.2.2.2.2
                exact Inverse.foldl_addHole (inverse_cleared rfl) (hok hsame.2.1 hsame.1 hsubs)
  | deliver now id seq =>
    cases hs
    have hmark : Inverse (t.mark now id seq) := h.removeHole id
    exact (hmark.prune now).congr (askScan_holes _)
  | replayed c closed had start last floor =>
    cases hs
    unfold Maps.replayedTo
    simp only
    split
    · exact h
    · split
      · split
        · exact h
        · exact inverse_cleared rfl
      · split
        · exact h
        · refine Inverse.moved (Inverse.settleHoles ?_ last _) _ _
          exact h
  | drop => cases hs; exact inverse_cleared rfl
  | set next => cases hs; exact inverse_cleared rfl
  | restore next holes =>
    cases hs
    unfold Maps.restoreCursorLocked
    split
    · exact h
    · exact Inverse.foldl_addHole (inverse_cleared rfl) hok
  | other s => cases hs; exact h

theorem Inverse.noteDelivered (h : Inverse t) (now : Nat) (id : ι) (seq q : Nat) :
    (t.noteDelivered b now id seq).hole q ≠ some id := by
  unfold Maps.noteDelivered Maps.hole
  simp only [askScan_holes]
  unfold Maps.prune
  simp only
  split
  · split
    · simp [Maps.dropCursorLocked, Session.dropCursorLocked, Session.setCursorLocked, Keyed.find]
    · exact h.hole_removeHole id q
  · exact h.hole_removeHole id q

/-- **The hole maps are inverse** in every run that makes a hole only for an id no other hole
carries, and delivering a message removes every hole that carries its id. -/
theorem holes_inverse (b : Bounds) (t : Maps ι φ) (h : Lts.Reach (step b) OneEach {} t) :
    (∀ seq id, t.hole seq = some id ↔ t.holeAt id = some seq) ∧
      ∀ now id seq q, (t.noteDelivered b now id seq).hole q ≠ some id := by
  have hinv : Inverse t := h.invariant (inverse_cleared rfl) fun _ _ _ hi hok hs => hi.step hok hs
  exact ⟨hinv, hinv.noteDelivered⟩

/-- Two live copies below a cursor at 10, with the ids they carry. -/
def copies (id id' : Nat) : List (Act Nat Nat) :=
  [.set 10, .live 5 (some id), .live 7 (some id')]

/-- With an id each, delivering the second leaves the hole of the first. -/
theorem holes_inverse_two : ∃ t : Maps Nat Nat,
    Lts.Reach (step ⟨0, 8, 8, 8⟩) OneEach {} t ∧ t.hole 5 = some 1 ∧ t.holeAt 2 = some 7 ∧
      ∀ q, (t.noteDelivered ⟨0, 8, 8, 8⟩ 0 2 7).hole q ≠ some 2 := by
  have hrun : ∃ t : Maps Nat Nat, Lts.Reach (step ⟨0, 8, 8, 8⟩) OneEach {} t ∧
      t.hole 5 = some 1 ∧ t.holeAt 2 = some 7 := Lts.exists_reach (copies 1 2) (by decide)
  obtain ⟨t, hreach, h5, h2⟩ := hrun
  exact ⟨t, hreach, h5, h2, fun q => (holes_inverse _ t hreach).2 0 2 7 q⟩

/-- With one id, both are holes, and delivering it leaves the first. -/
theorem holes_share_id : ∃ t : Maps Nat Nat,
    Lts.Reach (step ⟨0, 8, 8, 8⟩) Lts.free {} t ∧ t.hole 5 = some 1 ∧ t.holeAt 1 = some 7 ∧
      (t.noteDelivered ⟨0, 8, 8, 8⟩ 0 1 7).hole 5 = some 1 := by
  exact Lts.exists_reach (copies 1 1) (by decide)

end Natsmqtt5.Cursor.Holes
