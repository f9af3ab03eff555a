import Natsmqtt5.Cursor.Session
import Natsmqtt5.Ledger
import Natsmqtt5.Lts

/-!
# Checkpoints of a connected session

One connection of a persisted session with checkpoints on, from the moment its replay position is
taken until it ends: `checkpoint.go`, the delivery of `subscribe.go` (`deliverBurst`, `prepare`,
`recordQoS2`, `sendPrepared`), the acknowledgements of `publish.go` (`handlePubrec`, `queuePubrel`,
`drainPubrels` and the rest) and the functions of `session.go` that change what a record says.

The session is the source of a `Ledger`, whose record is the session's record, whose counter is
`conn.activity` and whose mark is `conn.cpMark`. `checkpointSession` is the ledger's writer: it
holds `persistMu`, loads the counter and the position, and reads the parts under separate holds of
the session's lock. `persistSession` is a writer without a stamp.

Goroutines are calls in progress (`Call`): any number of deliveries, PUBRECs, drains, checkpoints
and persists may be under way, each at the place of its next access to what they share. What else
happens to the session is an `Event`, with what follows it: `Event.next` begins with `bumping` where
the source counts the change in `c.activity` after making it.

Delivered ids and the position are read with the rest, but only those ids that the position asks for
are listed (`listed`). The subscriptions, payloads and Will of a record are left out, and so is the
release that ends the connection.
-/

namespace Natsmqtt5.Checkpoint

open Natsmqtt5.Cursor (Mark)

/-! ## The session -/

/-- `delivery`, of a message at QoS 1 or 2. -/
structure Delivery (μ : Type) where
  /-- The message's id, `none` for a message that has none. -/
  id : Option μ := none
  qos2 : Bool := false
  seq : Nat := 0
  recordSeq : Nat := 0
  /-- It is held in JetStream (`ackSubject`). -/
  held : Bool := false
  /-- Its PUBLISH can be kept in the record or beside it (`encodeStorable`, `blobLimit`). -/
  storable : Bool := true

structure Outbound where
  packetID : Nat
  qos2 : Bool
  queueSeq : Nat := 0
  held : Bool := false
  storable : Bool := true
  awaitingPubcomp : Bool := false
  /-- Its place in the order of sending, which no other entry ever has. -/
  seq : Nat := 0
  deriving DecidableEq

/-- The acknowledgement that ends an exchange. -/
def owedAck (o : Outbound) : AckType := if o.qos2 then .pubcomp else .puback

/-- `withdrawal`, with its age in connections (`storedWithdrawn`). -/
structure Withdrawal where
  id : Nat
  owed : AckType
  age : Nat := 0
  deriving DecidableEq

/-- An identifier of `receivedQoS2`. -/
structure Received where
  id : Nat
  forwarding : Bool := true
  deriving DecidableEq

structure Cursor (μ : Type) where
  next : Nat := 0
  holes : List (Nat × μ) := []
  base : Nat := 0
  /-- `sinceKnownLocked`. -/
  sinceKnown : Bool := true
  deriving DecidableEq

/-- `away`: where a replay begins. -/
structure Position where
  fromSeq : Nat := 0
  time : Nat := 0
  deriving DecidableEq

structure Session (μ : Type) where
  inflight : List Outbound := []
  sendSeq : Nat := 0
  received : List Received := []
  withdrawn : List Withdrawal := []
  delivered : List (Mark μ) := []
  cursor : Cursor μ := {}
  /-- `livePosition`, of the connection's queues. -/
  position : Position := {}
  now : Nat := 0

namespace Session

variable {μ : Type} [DecidableEq μ]

def entry (s : Session μ) (id : Nat) : Option Outbound :=
  Keyed.find Outbound.packetID s.inflight id

def trackInflight (s : Session μ) (o : Outbound) : Session μ :=
  { s with sendSeq := s.sendSeq + 1,
           inflight := Keyed.put Outbound.packetID s.inflight { o with seq := s.sendSeq + 1 } }

/-- `completeInflightLocked`. `other`: the entry was resent on a connection that is not the one its
acknowledgement came on. -/
def completeInflight (s : Session μ) (id : Nat) (other : Bool) : Session μ :=
  match s.entry id with
  | none => s
  | some o =>
    { s with inflight := Keyed.erase Outbound.packetID s.inflight id,
             withdrawn := if other then
               Keyed.put Withdrawal.id s.withdrawn { id := id, owed := owedAck o }
             else s.withdrawn }

def awaitPubcomp (s : Session μ) (id : Nat) : Session μ :=
  { s with inflight := Keyed.modify Outbound.packetID
             (fun o => { o with awaitingPubcomp := true }) s.inflight id }

/-- The hold is given up; who is told is not modelled. -/
def settleOwned (s : Session μ) (id : Nat) : Session μ :=
  { s with inflight := Keyed.modify Outbound.packetID
             (fun o => { o with held := o.held && !o.awaitingPubcomp }) s.inflight id }

/-- The entries that satisfy `p` go, and their identifiers stay owed. -/
def withdraw (s : Session μ) (p : Outbound → Bool) : Session μ :=
  { s with inflight := s.inflight.filter fun o => !p o,
           withdrawn := (s.inflight.filter p).foldl
             (fun ws o => Keyed.put Withdrawal.id ws { id := o.packetID, owed := owedAck o })
             s.withdrawn }

/-- `ids` are those whose Topic Name matches a denied filter and no surviving one. -/
def withdrawInflight (s : Session μ) (ids : List Nat) : Session μ :=
  s.withdraw fun o => !o.awaitingPubcomp && decide (o.packetID ∈ ids)

/-- `ids` are those held for longer than the limit. -/
def heldSubjects (s : Session μ) (ids : List Nat) : Session μ :=
  s.withdraw fun o => o.held && !o.awaitingPubcomp && decide (o.packetID ∈ ids)

def forgetWithdrawn (s : Session μ) (id : Nat) (owed : AckType) : Session μ :=
  if (Keyed.find Withdrawal.id s.withdrawn id).any fun w => w.owed = owed then
    { s with withdrawn := Keyed.erase Withdrawal.id s.withdrawn id }
  else s

def receiveQoS2 (s : Session μ) (id : Nat) : Session μ :=
  if (Keyed.find Received.id s.received id).isSome then s
  else { s with received := Keyed.put Received.id s.received { id := id } }

def qos2Forwarded (s : Session μ) (id : Nat) : Session μ :=
  { s with received := Keyed.modify Received.id (fun r => { r with forwarding := false })
             s.received id }

def releaseQoS2 (s : Session μ) (id : Nat) : Session μ :=
  { s with received := Keyed.erase Received.id s.received id }

/-- `window` is the rewind. `pruned` are the ids forgotten, which are too old for a replay, and
`drop` is whether the ids above the cursor have outgrown their bound. -/
def noteDelivered (window : Nat) (s : Session μ) (id : μ) (seq : Nat) (pruned : List μ)
    (drop : Bool) : Session μ :=
  { s with delivered := (Keyed.put Mark.id s.delivered ⟨id, s.now, seq⟩).filter fun m =>
             !(decide (m.id ∈ pruned) && decide (m.time + 2 * window < s.now)),
           cursor := if drop then { s.cursor with next := 0, holes := [] }
             else { s.cursor with holes := s.cursor.holes.filter fun h => h.2 ≠ id } }

end Session

/-! ## The record -/

/-- The parts of a record, in the order `checkpointSession` reads them. -/
inductive Part
  | position
  | withdrawn
  | delivered
  | cursor
  | inflight
  | received
  deriving DecidableEq

/-- `storedInflight`, with the place of the entry in the order of sending. -/
structure Stored where
  id : Nat
  qos2 : Bool
  rel : Bool
  /-- It names a queue copy (`Seq`). -/
  queued : Bool
  seq : Nat
  deriving DecidableEq

/-- What a record says for each part. For the delivered ids it is the ids remembered and the cursor
at that moment, of which `listed` takes those that belong to the record. -/
@[reducible] def Value (μ : Type) : Part → Type
  | .position => Position
  | .withdrawn => List Withdrawal
  | .delivered => List (Mark μ) × Nat
  | .cursor => Option (Nat × List (Nat × μ))
  | .inflight => List Stored
  | .received => List Nat

/-- Whether `inflightState` keeps the entry. -/
def Outbound.recorded (o : Outbound) : Bool :=
  o.awaitingPubcomp || decide (o.queueSeq ≠ 0) || o.storable

def Outbound.stored (o : Outbound) : Stored :=
  ⟨o.packetID, o.qos2, o.awaitingPubcomp, decide (o.queueSeq ≠ 0), o.seq⟩

/-- `cursorIntoLocked`, when nothing was dropped. -/
def Cursor.stored {μ : Type} (c : Cursor μ) : Option (Nat × List (Nat × μ)) :=
  if c.next = 0 ∨ c.base ≠ 0 ∨ c.sinceKnown = false then none else some (c.next, c.holes)

variable {μ : Type}

def get : (i : Part) → Session μ → Value μ i
  | .position, s => s.position
  | .withdrawn, s => s.withdrawn
  | .delivered, s => (s.delivered, s.cursor.next)
  | .cursor, s => s.cursor.stored
  | .inflight, s => (s.inflight.filter Outbound.recorded).map Outbound.stored
  | .received, s => (s.received.filter fun r => !r.forwarding).map Received.id

/-- `deliveredSinceLocked`: the ids a record lists, from its position and what was read. A mark at
or after `DeliveredSince`, the window before the position's time, is listed whatever its sequence.
-/
def listed (window : Nat) (p : Position) (d : List (Mark μ) × Nat) : List (Mark μ) :=
  d.1.filter fun m =>
    (decide (lowestSeq [p.fromSeq, d.2] ≠ 0) && decide (lowestSeq [p.fromSeq, d.2] ≤ m.seq)) ||
      decide (p.time ≤ m.time + window)

/-! ## Calls -/

/-- `prepared`: the delivery with its entry, and when its id was noted. -/
structure Prepared (μ : Type) where
  d : Delivery μ
  o : Outbound
  notedAt : Nat := 0

/-- A PUBREL to send, with the exchange it belongs to, if there still was one. -/
structure Rel where
  id : Nat
  seq : Option Nat
  deriving DecidableEq

/-- What a call goes on with after it has counted its change or written the record. -/
inductive After (μ : Type)
  | idle
  /-- `sendPrepared`, for each. -/
  | sending (ready : List (Prepared μ))
  | queueing (r : Rel)
  /-- `drainPubrels`, the record written: `settleOwned` and the PUBREL, for each. -/
  | releasing (rels : List Rel)

inductive Call (μ : Type)
  | idle
  /-- `deliverBurst`, between two deliveries. -/
  | gathering (ready : List (Prepared μ))
  /-- `prepare`, the activity counted: `trackInflight`. -/
  | tracking (p : Prepared μ) (ready : List (Prepared μ))
  /-- `prepare`: `noteDelivered`. -/
  | noting (p : Prepared μ) (ready : List (Prepared μ))
  | sending (ready : List (Prepared μ))
  /-- `sendPrepared` of one that is too large: `completeInflight`. -/
  | discarding (p : Prepared μ) (ready : List (Prepared μ))
  /-- `handlePubrec`, the entry found: `awaitPubcomp`. -/
  | awaiting (id : Nat)
  | queueing (r : Rel)
  | releasing (rels : List Rel)
  /-- `c.activity.Add(1)`, and then `checkpointSession` if `checkpoint`. -/
  | bumping (checkpoint : Bool) (next : After μ)
  /-- `checkpointSession`: `persistMu`. -/
  | checkpointing (next : After μ)
  /-- `checkpointSession`, with `persistMu`. -/
  | writing (next : After μ)
  /-- `persistSession`: `persistMu`. -/
  | persisting
  | saving

def After.call : After μ → Call μ
  | .idle => .idle
  | .sending ready => .sending ready
  | .queueing r => .queueing r
  | .releasing rels => .releasing rels

/-- What changes the session otherwise. -/
inductive Event (μ : Type)
  /-- `handlePuback`, `handlePubcomp`, and `handlePubrec` of a Reason Code of 0x80 or more. -/
  | acknowledged (id : Nat) (other : Bool)
  | awaited (id : Nat)
  /-- `forgetWithdrawn`, of a PUBACK or PUBCOMP that is owed. -/
  | forgotten (id : Nat) (owed : AckType)
  /-- `handlePublish` of a QoS 2 message: before it is forwarded, and after. -/
  | received (id : Nat)
  | forwarded (id : Nat)
  /-- `rejectPublish`. -/
  | refused (id : Nat)
  /-- `handlePubrel`. -/
  | released (id : Nat)
  /-- `applyScan`, `noteLiveCopy`, `replayedTo`, `setSince`: whatever they make of the cursor. -/
  | scanned (c : Cursor μ)
  /-- `Reauthorize`. -/
  | reauthorized (ids : List Nat)
  /-- `holdLoop`, at the hold limit. -/
  | overdue (ids : List Nat)
  /-- `retransmit` of a message that has expired, or is too large for this client. -/
  | resendDropped (id : Nat) (other : Bool)
  /-- `prepare` of a message that has expired. -/
  | expired (id : μ) (seq : Nat) (pruned : List μ) (drop : Bool)
  /-- `installSubscription` and `setSince`. -/
  | since (known : Bool)
  /-- The same on a connection that this one displaced, whose counter is another one. -/
  | displaced (e : Event μ)

namespace Event

variable [DecidableEq μ] (window : Nat)

def apply : Event μ → Session μ → Session μ
  | .acknowledged id other, s => s.completeInflight id other
  | .awaited id, s => s.awaitPubcomp id
  | .forgotten id owed, s => s.forgetWithdrawn id owed
  | .received id, s => s.receiveQoS2 id
  | .forwarded id, s => s.qos2Forwarded id
  | .refused id, s => s.releaseQoS2 id
  | .released id, s => s.releaseQoS2 id
  | .scanned c, s => { s with cursor := c }
  | .reauthorized ids, s => s.withdrawInflight ids
  | .overdue ids, s => s.heldSubjects ids
  | .resendDropped id other, s => s.completeInflight id other
  | .expired id seq pruned drop, s => s.noteDelivered window id seq pruned drop
  | .since known, s => { s with cursor := { s.cursor with sinceKnown := known } }
  | .displaced e, s => e.apply s

/-- What the caller does next. -/
def next : Event μ → Call μ
  | .acknowledged _ _ | .awaited _ | .scanned _ => .bumping false .idle
  -- `checkpointNow`
  | .forwarded _ | .released _ => .bumping true .idle
  | .reauthorized _ => .persisting
  | .forgotten _ _ | .received _ | .refused _ | .overdue _ | .resendDropped _ _
  | .expired _ _ _ _ | .since _ | .displaced _ => .idle

end Event

/-! ## Steps -/

structure State (μ θ : Type) where
  ledger : Ledger (Session μ) Nat (Value μ)
  /-- The offline queue is up. -/
  queue : Bool := true
  relIDs : List Rel := []
  calls : θ → Call μ := fun _ => .idle

/-- What a write leaves out of the record: in-flight entries and received identifiers for the
limits or for a chunk that could not be stored, the cursor with delivered ids. -/
structure Cut where
  inflight : List Nat := []
  received : List Nat := []
  cursor : Bool := false
  deriving DecidableEq

/-- What a step of a call does not decide itself. -/
structure Choice (μ : Type) where
  pruned : List μ := []
  drop : Bool := false
  tooLarge : Bool := false
  /-- `blobsStale`. -/
  stale : Bool := false
  /-- `save` fails. -/
  fails : Bool := false
  cut : Cut := {}
  /-- `stashBlobs`: the entries without a queue copy whose payload could not be stored. -/
  notStored : List Nat := []

inductive Act (μ θ : Type)
  | tick (dt : Nat)
  | moves (p : Position)
  | queueUp
  | event (t : θ) (e : Event μ)
  | deliver (t : θ)
  | prepare (t : θ) (d : Delivery μ) (packetID : Nat)
  | flush (t : θ)
  | pubrec (t : θ) (id : Nat)
  | drain (t : θ)
  | checkpoint (t : θ)
  | persist (t : θ)
  | run (t : θ) (c : Choice μ)

/-- `checkpointSkew` and the session's `window`. -/
structure Config where
  skew : Nat
  window : Nat

variable {θ : Type} [DecidableEq μ] [DecidableEq θ] (cfg : Config)

namespace State

def session (st : State μ θ) : Session μ := st.ledger.source

def setCall (st : State μ θ) (t : θ) (c : Call μ) : State μ θ :=
  { st with calls := Function.update st.calls t c }

def bump (st : State μ θ) : State μ θ := { st with ledger := st.ledger.bump }

def change (st : State μ θ) (s : Session μ) : State μ θ := { st with ledger := st.ledger.change s }

def startWriter (st : State μ θ) (w : Ledger.Writer Nat (Value μ)) : State μ θ :=
  { st with ledger := st.ledger.start w }

def read (st : State μ θ) (w : Ledger.Writer Nat (Value μ)) (i : Part) (todo : List Part) :
    State μ θ :=
  { st with ledger := st.ledger.read w i (get i st.session) todo }

def finish (st : State μ θ) (r : ∀ i, Value μ i) (mark : Option (Nat × Nat)) : State μ θ :=
  { st with ledger := st.ledger.finish r mark }

def abort (st : State μ θ) : State μ θ := { st with ledger := st.ledger.abort }

/-- The early return of `checkpointSession`. -/
def skips (st : State μ θ) (stale : Bool) : Bool :=
  decide (st.ledger.mark = some (st.ledger.count, st.session.position.fromSeq)) && !stale

/-- What `checkpointSession` reads, after the position: with the queue off nothing about the
replay. -/
def reads (st : State μ θ) : List Part :=
  if st.queue then [.withdrawn, .delivered, .cursor, .inflight, .received]
  else [.withdrawn, .inflight, .received]

/-- `checkpointSession`, past its early return: the counter and the position are loaded, and the
record is copied. -/
def checkpointer (st : State μ θ) : Ledger.Writer Nat (Value μ) where
  stamp := some (st.ledger.count, st.session.position.fromSeq)
  draft := if st.queue then Function.update st.ledger.record .position st.session.position
    else st.ledger.record
  todo := st.reads

/-- `persistSession`: `snapshot` of the last record. -/
def persister (st : State μ θ) : Ledger.Writer Nat (Value μ) where
  stamp := none
  draft := st.ledger.record
  todo := [.withdrawn]

end State

/-- The record without what a write leaves out. -/
def Cut.apply (c : Cut) (r : ∀ i, Value μ i) : ∀ i, Value μ i
  | .position => r .position
  | .withdrawn => r .withdrawn
  | .delivered => r .delivered
  | .cursor => if c.cursor then none else r .cursor
  | .inflight => (r .inflight).filter fun x => x.id ∉ c.inflight
  | .received => (r .received).filter fun x => x ∉ c.received

omit [DecidableEq μ] in
theorem cut_apply_empty (r : ∀ i, Value μ i) : Cut.apply {} r = r := by
  funext i
  cases i with
  | inflight => simp [Cut.apply]
  | received => simp [Cut.apply]
  | _ => rfl

/-- The record without the entries whose payload was not stored. Only one that has neither a queue
copy nor a PUBREL to send has a payload. -/
def withoutStored (ids : List Nat) (r : ∀ i, Value μ i) : ∀ i, Value μ i
  | .inflight => (r .inflight).filter fun x => !(decide (x.id ∈ ids) && !x.rel && !x.queued)
  | i => r i

/-- The next step of call `t`, which is at `c`. -/
def Call.run (st : State μ θ) (t : θ) (ch : Choice μ) : Call μ → Option (State μ θ)
  | .idle | .gathering _ => none
  | .tracking p ready =>
    let s := st.session.trackInflight p.o
    let p := { p with o := { p.o with seq := s.sendSeq } }
    some ((st.change s).setCall t (.noting p ready))
  | .noting p ready =>
    match p.d.id, st.queue with
    | some id, true =>
      some ((st.change (st.session.noteDelivered cfg.window id p.d.seq ch.pruned ch.drop)).setCall t
        (.gathering (ready ++ [{ p with notedAt := st.session.now }])))
    | _, _ => some (st.setCall t (.gathering (ready ++ [p])))
  | .sending [] => some (st.setCall t .idle)
  | .sending (p :: ready) =>
    some (st.setCall t (if ch.tooLarge then .discarding p ready else .sending ready))
  | .discarding p ready =>
    some ((st.change (st.session.completeInflight p.o.packetID false)).setCall t (.sending ready))
  | .awaiting id =>
    let r : Rel := ⟨id, (st.session.entry id).map Outbound.seq⟩
    some ((st.change (st.session.awaitPubcomp id)).setCall t (.bumping false (.queueing r)))
  | .queueing r => some ({ st with relIDs := st.relIDs ++ [r] }.setCall t .idle)
  | .releasing [] => some (st.setCall t .idle)
  | .releasing (r :: rels) =>
    some ((st.change (st.session.settleOwned r.id)).setCall t (.releasing rels))
  | .bumping checkpoint next =>
    some (st.bump.setCall t (if checkpoint then .checkpointing next else next.call))
  | .checkpointing next =>
    if st.ledger.writer.isNone then
      if st.skips ch.stale then some (st.setCall t next.call)
      else some ((st.startWriter st.checkpointer).setCall t (.writing next))
    else none
  | .writing next =>
    match st.ledger.writer with
    | none => none
    | some w =>
      match w.todo with
      | i :: todo => some (st.read w i todo)
      | [] =>
        if ch.fails then some (st.abort.setCall t next.call)
        else if ch.notStored = [] then
          some ((st.finish (ch.cut.apply w.draft) w.stamp).setCall t next.call)
        else
          -- the mark is cleared: the next tick tries again
          some ((st.finish (ch.cut.apply (withoutStored ch.notStored w.draft))
            none).setCall t next.call)
  | .persisting =>
    if st.ledger.writer.isNone then
      some ((st.startWriter st.persister).setCall t .saving)
    else none
  | .saving =>
    match st.ledger.writer with
    | none => none
    | some w =>
      match w.todo with
      | i :: todo => some (st.read w i todo)
      | [] =>
        if ch.fails then some (st.abort.setCall t .idle)
        else some ((st.finish w.draft st.ledger.mark).setCall t .idle)

/-- Call `t` begins as `c`. -/
def State.begin (st : State μ θ) (t : θ) (c : Call μ) : Option (State μ θ) :=
  match st.calls t with
  | .idle => some (st.setCall t c)
  | _ => none

omit [DecidableEq μ] in
theorem State.begin_eq_some {st st' : State μ θ} {t : θ} {c : Call μ} :
    st.begin t c = some st' ↔ st.calls t = .idle ∧ st' = st.setCall t c := by
  unfold State.begin
  split
  · rename_i h
    simp [h, eq_comm]
  · rename_i h
    simp only [reduceCtorEq, false_iff, not_and]
    exact fun hc => absurd hc h

def step (st : State μ θ) : Act μ θ → Option (State μ θ)
  | .tick dt => some (st.change { st.session with now := st.session.now + dt })
  | .moves p =>
    if p.time + cfg.skew ≤ st.session.now then some (st.change { st.session with position := p })
    else none
  | .queueUp => some { st with queue := true }
  | .event t e => (st.change (e.apply cfg.window st.session)).begin t e.next
  | .deliver t => st.begin t (.gathering [])
  | .prepare t d packetID =>
    match st.calls t with
    | .gathering ready =>
      -- `nextID`
      if (st.session.entry packetID).isNone ∧
          (Keyed.find Withdrawal.id st.session.withdrawn packetID).isNone then
        some (st.bump.setCall t (.tracking
          { d := d,
            o := { packetID := packetID, qos2 := d.qos2, queueSeq := max d.seq d.recordSeq,
                   held := d.held, storable := d.storable } } ready))
      else none
    | _ => none
  | .flush t =>
    match st.calls t with
    | .gathering ready =>
      -- `recordQoS2`
      some (st.setCall t (if ready.any fun p => p.o.qos2 then
        .bumping true (.sending ready) else .sending ready))
    | _ => none
  | .pubrec t id =>
    if (st.session.entry id).any Outbound.qos2 then st.begin t (.awaiting id) else none
  | .drain t =>
    if st.relIDs = [] then none
    else { st with relIDs := [] }.begin t (.bumping true (.releasing st.relIDs))
  | .checkpoint t => st.begin t (.checkpointing .idle)
  | .persist t => st.begin t .persisting
  | .run t ch => (st.calls t).run cfg st t ch

/-- A packet for the client. -/
inductive Packet (μ : Type)
  | publish (p : Prepared μ)
  | pubrel (r : Rel)

/-- What the next step of call `t` writes. -/
def State.writes (st : State μ θ) (t : θ) : Option (Packet μ) :=
  match st.calls t with
  | .sending (p :: _) => some (.publish p)
  | .releasing (r :: _) => some (.pubrel r)
  | _ => none

/-- A connection at its start: nothing was written or counted yet. -/
def State.start (s : Session μ) (r : ∀ i, Value μ i) (queue : Bool) : State μ θ where
  ledger := { source := { s with position := {} }, record := r }
  queue := queue

end Natsmqtt5.Checkpoint
