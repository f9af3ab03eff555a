import Natsmqtt5.Keyed
import Natsmqtt5.Lowest
import Natsmqtt5.Packet

/-!
# The replay cursor of a session

The half of `cursor.go` and `session.go` that a session's replay cursor lives in: what it accounts
for (`next`, the holes below it, and `base` when it was restarted), the ids of the messages that
were delivered, and the absence a replay starts from.

Each definition is the source function of its name with the session's locks held; the floor of the
connection (`owedFloor`) and the clock come as arguments. Sequences and times are numbers; 0 is no
sequence, as in the source, and a time that is not set is `none`. A message without an id is `none`
where the source has the empty string. The map `holeAt` is the inverse of `holes` and is not kept
apart from it. The counter `activity`, which a change of the cursor raises for the checkpoint, and
the NATS bindings of a subscription are left out.
-/

namespace Natsmqtt5.Cursor

/-! ## Messages and subscriptions -/

/-- A message as the queue stream holds it, with the time it was stored. -/
structure Msg (ι τ : Type) where
  seq : Nat
  id : ι
  stored : Nat
  qos : QoS
  name : τ
  /-- The session's own client published it. -/
  own : Bool
  deriving DecidableEq

/-- `subscription`. -/
structure Sub (φ : Type) where
  /-- Which object it is; `sameSubsLocked` compares pointers. -/
  ref : Nat
  filter : φ
  shared : Bool
  grantedQoS : QoS
  noLocal : Bool
  /-- `none` for `sinceUnknown`. -/
  since : Option Nat
  deriving DecidableEq

def minQoS (a b : QoS) : QoS := if a.toNat < b.toNat then a else b

/-- `storedDelivered`: an id with the sequence of its queue copy. -/
structure Stored (ι : Type) where
  id : ι
  seq : Nat
  deriving DecidableEq

section Owed

variable {ι φ τ : Type} (topicMatch : φ → τ → Bool)

/-- One turn of the loop of `owedBy`: the subscription matches the message at QoS 1 or 2. -/
def Sub.takes (sub : Sub φ) (m : Msg ι τ) : Bool :=
  !sub.shared && topicMatch sub.filter m.name && !(sub.noLocal && m.own) &&
    minQoS m.qos sub.grantedQoS != .qos0

/-- It does, and was made before the message was stored. -/
def Sub.owes (sub : Sub φ) (m : Msg ι τ) : Bool :=
  sub.takes topicMatch m && sub.since.any (· < m.seq)

/-- `owedBy`: whether one of the subscriptions matches, and whether one that does was
made before. -/
def owedBy (subs : List (Sub φ)) (m : Msg ι τ) : Bool × Bool :=
  (subs.any (·.takes topicMatch m), subs.any (·.owes topicMatch m))

end Owed

def keepsSince {φ : Type} (old sub : Sub φ) : Bool :=
  !sub.shared && !old.shared && old.grantedQoS != .qos0 && (!old.noLocal || sub.noLocal) &&
    old.since.isSome

/-! ## The session -/

/-- `deliveredMark`, with the id it is kept under. -/
structure Mark (ι : Type) where
  id : ι
  time : Nat
  seq : Nat
  deriving DecidableEq

structure ReplayCursor (ι : Type) where
  next : Nat := 0
  holes : List (Stored ι) := []
  gen : Nat := 0
  above : Nat := 0
  scanning : Bool := false
  asked : Bool := false
  pin : Nat := 0
  base : Nat := 0

structure Away where
  time : Option Nat := none
  restored : Bool := false
  rewoundTo : Option Nat := none
  fromSeq : Nat := 0
  lateSeq : Nat := 0

/-- The fields of `session` that the cursor's functions read. -/
structure Session (ι φ : Type) where
  conn : Option Nat := none
  subs : List (Sub φ) := []
  delivered : List (Mark ι) := []
  maxDeliveredSeq : Nat := 0
  cur : ReplayCursor ι := {}
  lateSeq : Nat := 0
  /-- `awayAt` and the fields beside it. -/
  away : Away := {}
  /-- The session has a stored record. -/
  recorded : Bool := false

/-- The bounds in force: `window`, `cursorScanAfter`, `cursorIDBound` and `maxReplayHoles`. -/
structure Bounds where
  window : Nat
  scanAfter : Nat
  ids : Nat
  holes : Nat

def deliveredSeqWindow : Nat := 8192

section Functions

variable {ι φ : Type} [DecidableEq ι] [DecidableEq φ]

namespace ReplayCursor

def addHole (r : ReplayCursor ι) (h : Stored ι) : ReplayCursor ι :=
  { r with holes := Keyed.put Stored.seq r.holes h }

def removeHole (r : ReplayCursor ι) (id : ι) : ReplayCursor ι :=
  { r with holes := Keyed.erase Stored.id r.holes id }

end ReplayCursor

namespace Session

/-- The ids in `session.delivered`. -/
def knows (s : Session ι φ) (id : ι) : Bool := (Keyed.find Mark.id s.delivered id).isSome

def windowSafeLocked (s : Session ι φ) (seq : Nat) : Bool :=
  s.maxDeliveredSeq == 0 || s.maxDeliveredSeq ≤ seq + deliveredSeqWindow

def setCursorLocked (s : Session ι φ) (next : Nat) : Session ι φ :=
  { s with cur := { s.cur with next := next, holes := [], gen := s.cur.gen + 1, above := 0,
                               pin := 0, base := 0 } }

/-- A late copy that the rule without a cursor does not make safe is forgotten. -/
def keepSafe (s : Session ι φ) (seq : Nat) : Nat :=
  if seq ≠ 0 ∧ !s.windowSafeLocked seq then 0 else seq

def dropCursorLocked (s : Session ι φ) : Session ι φ :=
  { s.setCursorLocked 0 with
    lateSeq := s.keepSafe s.lateSeq
    away := { s.away with lateSeq := s.keepSafe s.away.lateSeq } }

/-- `addHoleLocked`, with whether the cursor is still set. -/
def addHoleLocked (b : Bounds) (s : Session ι φ) (seq : Nat) : Option ι → Session ι φ × Bool
  | none => (s.dropCursorLocked, false)
  | some id =>
    if seq < s.cur.base then (s.dropCursorLocked, false)
    else if s.knows id then (s, true)
    else if (Keyed.find Stored.seq s.cur.holes seq).isSome then (s, true)
    else if b.holes ≤ s.cur.holes.length then (s.dropCursorLocked, false)
    else ({ s with cur := s.cur.addHole ⟨id, seq⟩ }, true)

def noteLiveCopy (b : Bounds) (s : Session ι φ) (seq : Nat) (id : Option ι) : Session ι φ :=
  if seq = 0 then s
  else if s.cur.next ≠ 0 ∧ seq < s.cur.next then (s.addHoleLocked b seq id).1
  else s

def sinceKnownLocked (s : Session ι φ) : Bool := s.subs.all fun sub =>
    sub.shared || sub.since.isSome

def sameSubsLocked (s : Session ι φ) (subs : List (Sub φ)) : Bool :=
  subs.length == s.subs.length && subs.all fun sub => s.subs.any (·.ref == sub.ref)

def countAboveLocked (s : Session ι φ) (seq : Nat) : Nat :=
  s.delivered.countP fun m => seq ≤ m.seq

end Session

/-! ## Scans -/

structure Scanned (ι : Type) where
  seq : Nat
  id : Option ι
  owed : Bool

/-- What a scan of the cursor hands to `applyScan`. -/
structure Scan (ι φ : Type) where
  gen : Nat
  start : Nat
  last : Nat
  subs : List (Sub φ)
  read : List (Scanned ι)

structure RestartScan (ι φ : Type) where
  gen : Nat
  subs : List (Sub φ)
  began : Nat
  base : Nat
  last : Nat
  read : List (Scanned ι)

/-- What `applyScanLocked` reports. -/
structure Applied where
  moved : Bool := false
  applied : Bool := false
  stale : Bool := false

namespace Session

/-- The loop of `applyScanLocked`: `false` when the cursor was dropped. -/
def addHoles (b : Bounds) (next : Nat) : Session ι φ → List (Scanned ι) → Session ι φ × Bool
  | s, [] => (s, true)
  | s, m :: read =>
    if next ≤ m.seq then (s, true)
    else if !m.owed then addHoles b next s read
    else
      match s.addHoleLocked b m.seq m.id with
      | (s', true) => addHoles b next s' read
      | (s', false) => (s', false)

/-- How far a read up to `last` moves a cursor at `start`. -/
def scanNext (start last floor : Nat) : Nat :=
  if floor ≠ 0 ∧ floor < last + 1 then max floor start else last + 1

def applyScanLocked (b : Bounds) (s : Session ι φ) (sc : Scan ι φ) (floor : Nat) :
    Session ι φ × Applied :=
  if s.cur.gen ≠ sc.gen ∨ s.cur.next ≠ sc.start then (s, {})
  else if sc.last + 1 < sc.start then (s.dropCursorLocked, {})
  else if !s.sameSubsLocked sc.subs then (s, { stale := true })
  else if !s.sinceKnownLocked then (s, {})
  else
    let next := scanNext sc.start sc.last floor
    match s.addHoles b next sc.read with
    | (s', false) => (s', {})
    | (s', true) =>
      ({ s' with cur := { s'.cur with next := next, above := s'.countAboveLocked next } },
        { moved := decide (s'.cur.next < next), applied := true })

/-- The loop of `restartCursorLocked`: the holes, or `none` when one has no id. -/
def restartHoles (s : Session ι φ) (next : Nat) : List (Scanned ι) → Option (List (Stored ι))
  | [] => some []
  | m :: read =>
    if next ≤ m.seq then some []
    else if !m.owed || m.id.any s.knows then restartHoles s next read
    else
      match m.id with
      | none => none
      | some id => (restartHoles s next read).map (⟨id, m.seq⟩ :: ·)

/-- `restartCursorLocked`; it changes nothing when it refuses. -/
def restartCursorLocked (b : Bounds) (s : Session ι φ) (r : RestartScan ι φ) (floor now : Nat) :
    Session ι φ × Bool :=
  if s.cur.next ≠ 0 ∨ s.cur.gen ≠ r.gen ∨ s.cur.pin ≠ 0 ∨ !s.sinceKnownLocked ∨
      !s.sameSubsLocked r.subs then (s, false)
  else if r.began + b.window ≤ now then (s, false)
  else if floor ≠ 0 ∧ floor < r.base then (s, false)
  else
    let next := if floor ≠ 0 ∧ floor < r.last + 1 then floor else r.last + 1
    match s.restartHoles next r.read with
    | none => (s, false)
    | some holes =>
      if b.holes < holes.length then (s, false)
      else if b.ids < s.countAboveLocked next then (s, false)
      else
        let s' := s.setCursorLocked next
        let cur := { s'.cur with base := r.base, above := s.countAboveLocked next }
        ({ s' with cur := holes.foldl .addHole cur }, true)

/-! ## Deliveries and late copies -/

/-- `noteDelivered` up to the bound on the ids. -/
def mark (s : Session ι φ) (now : Nat) (id : ι) (seq : Nat) : Session ι φ :=
  let cur := s.cur.removeHole id
  { s with
    delivered := Keyed.put Mark.id s.delivered ⟨id, now, seq⟩
    maxDeliveredSeq := max s.maxDeliveredSeq seq
    cur := { cur with
      above := if cur.next ≠ 0 ∧ cur.next ≤ seq ∨ cur.next = 0 ∧ seq ≠ 0 then cur.above + 1
        else cur.above } }

/-- An id that the cursor, or a replay that may start one, needs. -/
def keeps (s : Session ι φ) (m : Mark ι) : Bool :=
  let keep := lowestSeq [s.cur.next, s.cur.pin]
  keep != 0 && keep ≤ m.seq

/-- An id no replay reaches any more. -/
def stale (b : Bounds) (s : Session ι φ) (now : Nat) (m : Mark ι) : Bool :=
  m.time + 2 * b.window < now && (m.seq == 0 || m.seq + deliveredSeqWindow < s.maxDeliveredSeq)

/-- The part of `noteDelivered` that bounds the ids. -/
def prune (b : Bounds) (s : Session ι φ) (now : Nat) : Session ι φ :=
  if 64 < s.delivered.length ∧ s.delivered.length % 64 = 0 then
    let s' := { s with delivered := s.delivered.filter fun m => s.keeps m || !s.stale b now m }
    if b.ids < s.delivered.countP s.keeps then s'.dropCursorLocked else s'
  else s

/-- The end of `noteDelivered`: whether the caller starts a scan. -/
def askScan (b : Bounds) (s : Session ι φ) : Session ι φ × Bool :=
  if b.scanAfter ≤ s.cur.above ∧ (s.cur.next ≠ 0 ∨ s.cur.pin = 0) then
    if !s.cur.scanning then ({ s with cur := { s.cur with scanning := true } }, true)
    else ({ s with cur := { s.cur with asked := true } }, false)
  else (s, false)

def noteDelivered (b : Bounds) (s : Session ι φ) (now : Nat) (id : ι) (seq : Nat) :
    Session ι φ × Bool :=
  ((s.mark now id seq).prune b now).askScan b

def lateSeqSafeLocked (s : Session ι φ) (seq : Nat) : Bool :=
  if s.cur.next ≠ 0 then
    s.cur.next ≤ seq || (Keyed.find Stored.seq s.cur.holes seq).isSome
  else s.windowSafeLocked seq

/-- What `lateCopy` returns: the connection the copy belongs to, or whether the record has to be
written again. -/
inductive LateCopy
  | successor (c : Nat)
  | noted (persist : Bool)
  deriving DecidableEq

/-- The hole a late copy leaves below the cursor. -/
def lateHole (b : Bounds) (s : Session ι φ) (seq : Nat) (id : Option ι) : Session ι φ :=
  if s.cur.next ≠ 0 ∧ seq < s.cur.next then (s.addHoleLocked b seq id).1 else s

/-- `lateCopy` once the hole is made. -/
def noteLate (s : Session ι φ) (seq : Nat) (holed : Bool) : Session ι φ × LateCopy :=
  let safe := if s.cur.base ≠ 0 then s.windowSafeLocked seq else s.lateSeqSafeLocked seq
  if s.conn.isSome then
    (if safe then { s with lateSeq := lowestSeq [s.lateSeq, seq] } else s, .noted false)
  else if s.away.time.isNone then (s, .noted false)
  else if !safe || (s.away.lateSeq != 0 && s.away.lateSeq ≤ seq) then
    (s, .noted (holed && s.recorded))
  else ({ s with away := { s.away with lateSeq := seq } }, .noted s.recorded)

def lateCopy (b : Bounds) (s : Session ι φ) (origin : Option Nat) (seq : Nat) (id : Option ι) :
    Session ι φ × LateCopy :=
  match s.conn.filter (some · ≠ origin) with
  | some c => (s, .successor c)
  | none =>
    let s' := s.lateHole b seq id
    s'.noteLate seq (s'.cur.holes.length != s.cur.holes.length)

/-! ## The absence -/

def markAwayLocked (s : Session ι φ) (a : Away) : Session ι φ :=
  let lateSeq := lowestSeq [a.lateSeq, s.lateSeq, s.away.lateSeq]
  let a := { a with lateSeq := lateSeq }
  let a :=
    if s.away.time.isSome then
      { a with
        time := s.away.time, restored := s.away.restored, rewoundTo := s.away.rewoundTo
        fromSeq :=
          if s.away.fromSeq = 0 then 0
          else if a.fromSeq = 0 ∨ s.away.fromSeq < a.fromSeq then s.away.fromSeq
          else a.fromSeq }
    else a
  { s with lateSeq := 0, away := a }

/-- `takeAway`, with the session it leaves. -/
def takeAway (s : Session ι φ) : Option (Away × Session ι φ) :=
  if s.away.time.isSome then some (s.away, { s with away := {} }) else none

/-! ## Subscriptions -/

/-- `installSubscription`, of a subscription that is bound. -/
def installSubscription (s : Session ι φ) (c : Nat) (sub : Sub φ) : Option (Session ι φ) :=
  if s.conn ≠ some c then none
  else
    let since := (Keyed.find Sub.filter s.subs sub.filter).bind fun old =>
      if keepsSince old sub then old.since else none
    some { s with subs := Keyed.put Sub.filter s.subs { sub with since := since.or sub.since } }

/-- `since.CompareAndSwap(sinceUnknown, last)` on the subscriptions that `these` picks. -/
def swapSince (s : Session ι φ) (these : Sub φ → Bool) (last : Nat) : Session ι φ :=
  { s with subs := s.subs.map fun sub =>
      if these sub && sub.since.isNone then { sub with since := some last } else sub }

def setSince (s : Session ι φ) (c : Nat) (refs : List Nat) (last : Nat) (exact hadNonShared : Bool)
    (floor : Nat) : Session ι φ :=
  let s' := s.swapSince (·.ref ∈ refs) last
  if exact && s'.cur.next == 0 && !hadNonShared && floor == 0 && s'.conn == some c &&
      s'.sinceKnownLocked then
    s'.setCursorLocked (last + 1)
  else s'

/-! ## Replays -/

/-- `cursorView`. -/
structure View (ι : Type) where
  next : Nat
  holes : List (Stored ι)

def cursorViewLocked (s : Session ι φ) : View ι := ⟨s.cur.next, s.cur.holes⟩

def cursorForReplay (s : Session ι φ) : Option (View ι) :=
  if s.cur.next = 0 then none else some s.cursorViewLocked

/-- The holes of the replay's view that it passed are settled. -/
def settleHoles (last : Nat) (cur : ReplayCursor ι) (h : Stored ι) : ReplayCursor ι :=
  if h.seq ≤ last ∧ h ∈ cur.holes then cur.removeHole h.id else cur

/-- `replayedTo`, on the session's own connection `c`; `had` is `none` without a cursor. -/
def replayedTo (s : Session ι φ) (c : Nat) (closed : Bool) (had : Option (View ι))
    (start last floor : Nat) : Session ι φ :=
  let pinned := s.cur.pin
  let s := { s with cur := { s.cur with pin := 0 } }
  if s.conn ≠ some c ∨ closed then s
  else
    let s := s.swapSince (fun _ => true) last
    let next := if floor ≠ 0 ∧ floor < last + 1 then floor else last + 1
    match had with
    | none =>
      if s.cur.next ≠ 0 ∨ pinned = 0 ∨ start < pinned ∨ floor ≠ 0 ∧ floor < start then s
      else
        let s := s.setCursorLocked next
        { s with cur := { s.cur with above := s.countAboveLocked next } }
    | some view =>
      if s.cur.next = 0 then s
      else
        let cur := view.holes.foldl (settleHoles last) s.cur
        if cur.next < next then
          { s with cur := { cur with next := next, above := s.countAboveLocked next } }
        else { s with cur := cur }

end Session

end Functions

end Natsmqtt5.Cursor
