import Natsmqtt5.Lts
import Natsmqtt5.Cursor.Session

/-!
# A session with a replay cursor

The runs `cursor.go` has to be safe in, up to the end of one connection: messages are stored in the
queue stream and their live copies reach the connection in any order, or never; the connection sends
what it holds; scans read the stream at one moment and are applied at another; subscriptions are
made and replaced; the connection ends and is released; copies come after that.

One step is what the source does with the session locked. `placeQueued` and the `noteLiveCopy` after
it are one step, and so is a scan's read of the stream, from `scanOnce`'s look at the cursor to the
end of the read. Any number of scans may be under way. A scan reads everything stored in its range;
that the source reads only the subjects of the session's filters leaves out nothing they match. A
message has at most one live copy.

A session that has subscribed has a non-shared subscription from then on, since subscriptions are
replaced and not removed here: `setSince` never starts a cursor again. `sent` are the messages the
client was sent.
-/

namespace Natsmqtt5.Cursor

structure State (ι φ τ : Type) where
  now : Nat := 0
  stream : List (Msg ι τ) := []
  /-- The stream's last sequence. -/
  last : Nat := 0
  session : Session ι φ := {}
  /-- The live copies on their way. -/
  transit : List (Msg ι τ) := []
  /-- What the connection holds and has not sent: waiting, in hand or turned away. -/
  held : List (Msg ι τ) := []
  closed : Bool := false
  scans : List (Scan ι φ) := []
  restarts : List (RestartScan ι φ) := []
  /-- The number of the next subscription. -/
  nextRef : Nat := 0
  /-- What `readSince` has read for a subscription and not set. -/
  reads : List (Nat × Nat) := []
  sent : List (Msg ι τ) := []

inductive Act (ι φ τ : Type)
  | store (m : Msg ι τ) (live : Bool)
  /-- A live copy reaches the session's connection. -/
  | arrive (m : Msg ι τ)
  | deliver (m : Msg ι τ)
  | tick (d : Nat)
  | beginScan
  | applyScan (i : Nat)
  | beginRestart
  | applyRestart (i : Nat)
  | subscribe (filter : φ) (shared : Bool) (grantedQoS : QoS) (noLocal : Bool)
  | readSince (ref : Nat)
  | setSince (i : Nat)
  /-- The cursor outgrows a bound. -/
  | drop
  | close
  | release
  /-- A live copy finds no connection. -/
  | late (m : Msg ι τ)

section Steps

variable {ι φ τ : Type}

def owedFloor (held : List (Msg ι τ)) : Nat := lowestSeq (held.map Msg.seq)

/-- What a scan keeps of the messages it reads. -/
def scanRead (topicMatch : φ → τ → Bool) (subs : List (Sub φ)) (ms : List (Msg ι τ)) :
    List (Scanned ι) :=
  (ms.filter fun m => (owedBy topicMatch subs m).1).map fun m =>
    ⟨m.seq, some m.id, (owedBy topicMatch subs m).2⟩

/-- The messages a restart scan begun at `now` reads. -/
def rewound (window now : Nat) (ms : List (Msg ι τ)) : List (Msg ι τ) :=
  ms.filter fun m => now ≤ m.stored + window

/-- The first sequence it reads. -/
def restartBase (last : Nat) (ms : List (Msg ι τ)) : Nat := (ms.head?.map Msg.seq).getD (last + 1)

def State.isOpen (s : State ι φ τ) : Bool := s.session.conn.isSome && !s.closed

variable [DecidableEq ι] [DecidableEq φ] [DecidableEq τ]
variable (topicMatch : φ → τ → Bool) (b : Bounds)

/-- `scanOnce`, on a session with a cursor. -/
def beginScan (s : State ι φ τ) : Option (State ι φ τ) :=
  if s.isOpen ∧ s.session.cur.next ≠ 0 ∧ s.session.sinceKnownLocked then
    let start := s.session.cur.next
    some { s with
      scans := s.scans ++ [⟨s.session.cur.gen, start, s.last, s.session.subs,
        scanRead topicMatch s.session.subs (s.stream.filter fun m => start ≤ m.seq)⟩] }
  else none

/-- `restartCursor`, on one without. -/
def beginRestart (s : State ι φ τ) : Option (State ι φ τ) :=
  if s.isOpen ∧ s.session.cur.next = 0 ∧ s.session.sinceKnownLocked ∧ s.session.cur.pin = 0 ∧
      s.session.subs.any (!·.shared) then
    let ms := rewound b.window s.now s.stream
    some { s with
      restarts := s.restarts ++ [⟨s.session.cur.gen, s.session.subs, s.now, restartBase s.last ms,
        s.last, scanRead topicMatch s.session.subs ms⟩] }
  else none

/-- A copy that reaches the connection when it has ended goes to the session as well. -/
def receive (s : State ι φ τ) (m : Msg ι τ) : Session ι φ :=
  if s.closed then (s.session.lateCopy b s.session.conn m.seq (some m.id)).1 else s.session

def step (s : State ι φ τ) : Act ι φ τ → Option (State ι φ τ)
  | .store m live =>
    if s.last < m.seq ∧ m.stored = s.now ∧ ∀ x ∈ s.stream, x.id ≠ m.id then
      some { s with
        stream := s.stream ++ [m], last := m.seq
        transit := if live then s.transit ++ [m] else s.transit }
    else none
  | .arrive m =>
    if m ∈ s.transit ∧ s.session.conn.isSome then
      some { s with
        transit := s.transit.erase m, held := s.held ++ [m]
        session := (receive b s m).noteLiveCopy b m.seq (some m.id) }
    else none
  | .deliver m =>
    if m ∈ s.held ∧ s.isOpen then
      some { s with
        held := s.held.erase m, sent := s.sent ++ [m]
        session := (s.session.noteDelivered b s.now m.id m.seq).1 }
    else none
  | .tick d => some { s with now := s.now + d }
  | .beginScan => beginScan topicMatch s
  | .applyScan i =>
    match s.scans[i]? with
    | some sc =>
      let s' := { s with scans := s.scans.eraseIdx i }
      if s.isOpen then
        some { s' with session := (s.session.applyScanLocked b sc (owedFloor s.held)).1 }
      else some s'
    | none => none
  | .beginRestart => beginRestart topicMatch b s
  | .applyRestart i =>
    match s.restarts[i]? with
    | some r =>
      let s' := { s with restarts := s.restarts.eraseIdx i }
      if s.isOpen then
        some { s' with
          session := (s.session.restartCursorLocked b r (owedFloor s.held) s.now).1 }
      else some s'
    | none => none
  | .subscribe filter shared grantedQoS noLocal =>
    match s.session.conn with
    | some c =>
      (s.session.installSubscription c ⟨s.nextRef, filter, shared, grantedQoS, noLocal, none⟩).map
        fun session => { s with session := session, nextRef := s.nextRef + 1 }
    | none => none
  | .readSince ref =>
    if s.session.subs.any fun sub => sub.ref == ref && !sub.shared && sub.since.isNone then
      some { s with reads := s.reads ++ [(ref, s.last)] }
    else none
  | .setSince i =>
    match s.reads[i]? with
    | some (ref, last) =>
      some { s with
        reads := s.reads.eraseIdx i
        session := s.session.setSince (s.session.conn.getD 0) [ref] last true true
          (owedFloor s.held) }
    | none => none
  | .drop => some { s with session := s.session.dropCursorLocked }
  | .close => if s.session.conn.isSome then some { s with closed := true } else none
  | .release =>
    if s.session.conn.isSome ∧ s.closed then
      some { s with
        held := []
        session := { s.session.markAwayLocked
          { time := some s.now, fromSeq := owedFloor s.held } with
          conn := none } }
    else none
  | .late m =>
    if m ∈ s.transit ∧ s.session.conn = none then
      some { s with
        transit := s.transit.erase m
        session := (s.session.lateCopy b none m.seq (some m.id)).1 }
    else none

end Steps

end Natsmqtt5.Cursor
