import Mathlib.Data.List.Sort
import Natsmqtt5.Lts
import Natsmqtt5.Cursor.Session

/-!
# A replay from the cursor

`replayFromCursor` of `offline.go`, on the delivery goroutine of a connection that has resumed a
session, with what other goroutines do meanwhile: messages are stored in the queue stream, or go
from it with the stream's age limit; a SUBSCRIBE is handled (`installSubscription`, then
`readSince`, then `setSince`) and an UNSUBSCRIBE; the connection ends. No live copy of a message
reaches the connection.

The replay takes the holes of its view one by one (`replayHoles`). Then it takes the session's
subscriptions, which say what is read (`replayRead`), asks for the stream's end (`ledInfo` in
`replayFrom`), and reads the stream up to there. A read that fails begins again (`readUntilDone`).
When it is through, `replayedTo` moves the cursor. Each of these is a step of its own.

`reads subs` are the topics that `replayRead subs` has the server send. A message that has expired,
or is too large for the client, counts as replayed, and so does one sent twice because two
subscriptions match it. `unwanted` are the messages the replay came to when no subscription matched
them.
-/

namespace Natsmqtt5.Cursor.Replay

/-- Where the replay stands; `held` is the highest hole that was read. -/
inductive Phase (φ : Type)
  /-- `replayHoles`, with the sequences it has still to come to. -/
  | holes (todo : List Nat) (held : Nat)
  /-- Before `c.sess.subscriptions()`. -/
  | narrow (held : Nat)
  /-- `replayFrom`, before `ledInfo`. -/
  | ask (subs : List (Sub φ)) (held : Nat)
  /-- The stream is read up to `last`; what is below `pos` was read. -/
  | read (subs : List (Sub φ)) (held pos last : Nat)
  /-- Complete, before `replayedTo`. -/
  | complete (last : Nat)
  | ended

/-- What `readSince` has read and not set. -/
structure Read where
  ref : Nat
  last : Nat
  hadNonShared : Bool

structure State (ι φ τ : Type) where
  stream : List (Msg ι τ) := []
  /-- The stream's last sequence. -/
  last : Nat := 0
  session : Session ι φ := {}
  closed : Bool := false
  streamNext : Nat := 0
  /-- The number of the next subscription. -/
  nextRef : Nat := 0
  /-- Subscriptions that were installed, before their `readSince`, with `hadNonShared`. -/
  installed : List (Nat × Bool) := []
  reads : List Read := []
  /-- The cursor the replay started from. -/
  view : Session.View ι
  /-- `deliveredIDs`, when it started. -/
  delivered : List ι := []
  phase : Phase φ
  replayed : List ι := []
  unwanted : List (Msg ι τ) := []

inductive Act (ι φ τ : Type)
  | store (m : Msg ι τ)
  /-- A message reaches the stream's age limit. -/
  | expire (m : Msg ι τ)
  | subscribe (filter : φ) (shared : Bool) (grantedQoS : QoS) (noLocal : Bool)
  | unsubscribe (filter : φ)
  | readSince (i : Nat)
  | setSince (i : Nat)
  | close
  -- the replay, at the time `now`
  | nextHole (now : Nat)
  | narrow
  | ask
  | next (now : Nat)
  /-- A read fails and begins again. -/
  | retry
  /-- It is given up, or the connection has ended. -/
  | fail
  /-- `replayedTo`. -/
  | finish

section Steps

variable {ι φ τ : Type}

def viewStart (v : Session.View ι) : Nat := (v.holes.map Stored.seq).foldl min v.next

/-- The sequences `replayHoles` goes through. -/
def holeSeqs (v : Session.View ι) : List Nat := (v.holes.map Stored.seq).insertionSort (· ≤ ·)

variable [DecidableEq ι] [DecidableEq φ] [DecidableEq τ]
variable (topicMatch : φ → τ → Bool) (reads : List (Sub φ) → τ → Bool) (b : Bounds)

/-- `handle`, of a message at a hole or from the cursor on. -/
def handle (s : State ι φ τ) (now : Nat) (m : Msg ι τ) : State ι φ τ :=
  let s := { s with streamNext := m.seq + 1 }
  if m.id ∈ s.delivered ∨ m.id ∈ s.replayed then s
  else if s.session.subs.any (·.takes topicMatch m) then
    { s with
      replayed := s.replayed ++ [m.id]
      session := (s.session.noteDelivered b now m.id m.seq).1 }
  else { s with unwanted := s.unwanted ++ [m] }

/-- The next message of the read. -/
def nextRead (s : State ι φ τ) (subs : List (Sub φ)) (pos last : Nat) : Option (Msg ι τ) :=
  s.stream.find? fun m => pos ≤ m.seq && m.seq ≤ last && reads subs m.name

/-- The connection that replays. -/
def State.conn (s : State ι φ τ) : Nat := s.session.conn.getD 0

def step (s : State ι φ τ) : Act ι φ τ → Option (State ι φ τ)
  | .store m =>
    if s.last < m.seq then some { s with stream := s.stream ++ [m], last := m.seq } else none
  | .expire m => some { s with stream := s.stream.erase m }
  | .subscribe filter shared grantedQoS noLocal =>
    let hadNonShared := s.session.subs.any (!·.shared)
    (s.session.installSubscription s.conn
        ⟨s.nextRef, filter, shared, grantedQoS, noLocal, none⟩).map
      fun session =>
        { s with
          session := session, nextRef := s.nextRef + 1
          installed := s.installed ++ [(s.nextRef, hadNonShared)] }
  | .unsubscribe filter =>
    some { s with session := { s.session with subs := Keyed.erase Sub.filter s.session.subs filter }
      }
  | .readSince i =>
    match s.installed[i]? with
    | some (ref, hadNonShared) =>
      some { s with
        installed := s.installed.eraseIdx i
        reads := s.reads ++ [⟨ref, s.last, hadNonShared⟩] }
    | none => none
  | .setSince i =>
    match s.reads[i]? with
    | some r =>
      some { s with
        reads := s.reads.eraseIdx i
        session := s.session.setSince s.conn [r.ref] r.last true r.hadNonShared s.streamNext }
    | none => none
  | .close => some { s with closed := true }
  | .nextHole now =>
    match s.phase with
    | .holes [] held => if s.closed then none else some { s with phase := .narrow held }
    | .holes (seq :: todo) held =>
      match Keyed.find Msg.seq s.stream seq with
      | some m =>
        if s.closed then none
        else some { handle topicMatch b s now m with phase := .holes todo seq }
      | none => some { s with phase := .holes todo held }
    | _ => none
  | .narrow =>
    match s.phase with
    | .narrow held => some { s with phase := .ask s.session.subs held }
    | _ => none
  | .ask =>
    match s.phase with
    | .ask subs held => some { s with phase := .read subs held s.view.next s.last }
    | _ => none
  | .next now =>
    match s.phase with
    | .read subs held pos last =>
      if s.closed then none
      else
        match nextRead reads s subs pos last with
        | some m =>
          some { handle topicMatch b s now m with phase := .read subs held (m.seq + 1) last }
        | none => some { s with streamNext := 0, phase := .complete (max held last) }
    | _ => none
  | .retry =>
    match s.phase with
    | .holes _ _ | .ask _ _ | .read _ _ _ _ => some { s with phase := .holes (holeSeqs s.view) 0 }
    | _ => none
  | .fail =>
    match s.phase with
    | .complete _ | .ended => none
    | _ => some { s with phase := .ended }
  | .finish =>
    match s.phase with
    | .complete last =>
      some { s with
        phase := .ended
        session := s.session.replayedTo s.conn s.closed (some s.view) (viewStart s.view) last
          s.streamNext }
    | _ => none

/-- The state in which `replayFromCursor` begins, on a session with the cursor `view`. -/
def begin (s : State ι φ τ) (view : Session.View ι) : State ι φ τ :=
  { s with
    view := view
    delivered := s.session.delivered.map Mark.id
    streamNext := viewStart view
    phase := .holes (holeSeqs view) 0
    replayed := [], unwanted := [] }

end Steps

end Natsmqtt5.Cursor.Replay
