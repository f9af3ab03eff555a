import Natsmqtt5.Lts

/-!
# Delivery with the offline queue on

A connection's delivery goroutine (`deliverLoop`, `subscribe.go:541-597`) when every QoS 1 and 2
message has a copy in the queue stream: live copies arrive (`placeQueued`, `catchup.go:49-90`) and
wait in the connection's queue; the goroutine takes them off in bursts (`deliverBurst`,
`subscribe.go:619-685`), or, once one was turned away because the queue was full, sends what waits
(`drainDeliveries`, `catchup.go:311-338`) and then reads the stream in rounds (`catchUp`,
`catchup.go:119-182`). A resumed connection begins with a read of the stream too (`replayOffline`,
`replayFromCursor`, `offline.go:657-855`). `awayFloor` (`catchup.go:272-305`) says where the next
connection has to start.

A message is of a type `δ` with a queue sequence `seq`, 0 for one without a stored copy; it stands
for its id as well. One step is what the goroutine does between two looks at what others write, one
receive from the queue, or one write. Whether the send quota has room, whether a message has expired
or is no longer wanted, and whether a write or a read succeeds is the action's choice. QoS 0, shared
subscriptions and `Options.ReconnectCatchUp` (`held`, `owedOnly`, `retryAfterDrop`) are left out,
and a connection begins when the goroutine of the one before it has stopped.

The session's delivered ids are never forgotten here. The model keeps for itself, of the session,
`arrived`, the live copies that came, `prepared`, the messages put in flight as new ones, `replays`,
those of them that a read put in flight, and `sent`, those written as new ones, newest first, where
a message that is too large for the client counts as sent; and of the connection its number, how
often it has caught up, `accepted` (queued) and `dropped` (replayed before, expired or unwanted).
-/

namespace Natsmqtt5.CatchUp

/-! ## State -/

/-- The most deliveries that `deliverBurst` prepares before it writes. -/
def maxDeliveryBurst : Nat := 32

/-- One read of the stream: what it is to send, and what it knows not to. -/
structure Read (δ : Type) where
  /-- It is the resume replay. -/
  resume : Bool
  /-- It reads these and everything at or above `next`. -/
  holes : List δ
  next : Nat
  /-- `deliveredIDs` when it began. -/
  known : List δ
  /-- The sequences `drainDeliveries` sent. -/
  done : List Nat
  deriving DecidableEq

/-- Where the delivery goroutine stands. `ds` are deliveries it has taken off the queue and not
prepared, `ready` those it has prepared and not written. -/
inductive Loop (δ : Type)
  /-- Before the resume replay. -/
  | starting
  /-- At the select of `deliverLoop`. -/
  | idle
  /-- `deliverBurst`, at its receives. -/
  | taking (ds : List δ)
  /-- At the head of the loop over `ds`, for the first time or again. -/
  | checking (first : Bool) (ds ready : List δ)
  /-- At `prepare` of the head of `ds`, which is in hand. -/
  | preparing (ds ready : List δ)
  /-- `flush`; `ds` are still to be prepared after it. -/
  | flushing (ready ds : List δ)
  /-- `drainDeliveries`, with what it has sent. -/
  | draining (done : List Nat)
  /-- `deliverTracked`, at `prepare`. -/
  | tracking (d : δ) (done : List Nat)
  /-- `deliverTracked`, at the write. -/
  | writing (d : δ) (done : List Nat)
  /-- At the head of the rounds of `catchUp`. -/
  | rounds (done : List Nat)
  /-- A read, with the messages it has still to come to. -/
  | reading (r : Read δ) (todo : List δ)
  /-- A read at `prepare` of `m`. -/
  | handling (r : Read δ) (m : δ) (todo : List δ)
  /-- A read at the write of `m`. -/
  | sending (r : Read δ) (m : δ) (todo : List δ)
  /-- The goroutine has returned. -/
  | stopped
  deriving DecidableEq

/-- The session, the stream and the session's last connection. -/
structure State (δ : Type) where
  /-- The queue stream. -/
  stream : List δ := []
  /-- `session.delivered`. -/
  delivered : List δ := []
  prepared : List δ := []
  sent : List δ := []
  arrived : List δ := []
  /-- With the connection whose read it was, and how often that one had caught up. -/
  replays : List (δ × Nat × Nat) := []
  -- the connection
  conns : Nat := 0
  catchUps : Nat := 0
  closed : Bool := false
  loop : Loop δ := .starting
  /-- `c.deliveries`. -/
  queue : List δ := []
  behind : Bool := false
  /-- A signal waits in `c.catchup`. -/
  catchup : Bool := false
  fromSeq : Nat := 0
  streamNext : Nat := 0
  inHand : Nat := 0
  replayed : List δ := []
  replayedBefore : List δ := []
  /-- `c.resume` is set. -/
  resume : Bool := false
  accepted : List δ := []
  dropped : List δ := []

/-! ## Steps -/

/-- What `prepare` finds. -/
inductive Prepare
  | ok
  /-- No send quota is free. -/
  | noQuota
  /-- The subscription is gone. -/
  | unwanted
  | expired
  /-- No Packet Identifier is free. -/
  | exhausted
  deriving DecidableEq

/-- How a read of the stream ends. -/
inductive End
  | finished
  | canceled
  | failed
  deriving DecidableEq

/-- What happens: to the session from outside, or one move of the goroutine. -/
inductive Act (δ : Type)
  /-- A publisher stores a message. -/
  | store (d : δ)
  /-- A live copy reaches the connection. `raced` says that the connection ends, if it does, after
  `placeQueued` has looked. -/
  | place (d : δ) (raced : Bool)
  | close
  /-- The session is resumed by a new connection. -/
  | connect
  -- `deliverLoop` and `deliverBurst`
  | replay (holes : List δ) (next start : Nat)
  | noReplay
  | take (wanted : Bool)
  | endTake
  | check
  | prepare (p : Prepare)
  | flush
  | send (ok : Bool)
  | stop
  -- `catchUp` and the reads of the stream
  | catchUp
  | drain (wanted : Bool)
  | round
  | read
  /-- A resume replay whose read failed begins again. -/
  | reread
  | endRead (e : End)
  /-- `deliver`, up to the write, and the write. -/
  | deliver (p : Prepare)
  | write (ok : Bool)

section Steps

variable {δ : Type} [DecidableEq δ]

/-- `wasReplayed`: the connection sent the message from the stream, in this catch-up or the one
before. -/
def State.wasReplayed (s : State δ) (d : δ) : Bool := d ∈ s.replayed || d ∈ s.replayedBefore

/-- `noteOwedLocked`. -/
def State.noteOwed (s : State δ) (q : Nat) : State δ :=
  { s with fromSeq := if s.fromSeq = 0 ∨ q < s.fromSeq then q else s.fromSeq }

/-- `d` is put in flight, and noted as delivered. -/
def State.track (s : State δ) (d : δ) : State δ :=
  { s with prepared := s.prepared ++ [d], delivered := s.delivered ++ [d] }

/-- `prepare` finds that `d` is not to be sent: one that has expired counts as delivered. -/
def State.discard (s : State δ) (d : δ) (expired : Bool) : State δ :=
  { s with
    dropped := s.dropped ++ [d]
    delivered := if expired then s.delivered ++ [d] else s.delivered }

/-- The goroutine returns an error: the connection is closed. -/
def State.fail (s : State δ) : State δ := { s with closed := true, loop := .stopped }

/-- `inHand` is cleared, unless the connection has ended. -/
def State.letGo (s : State δ) : State δ := if s.closed then s else { s with inHand := 0 }

/-- The next position of a read, unless the connection has ended. -/
def State.advance (s : State δ) (q : Nat) : State δ :=
  if s.closed then s else { s with streamNext := q }

/-- What a read comes to. -/
def Read.select (seq : δ → Nat) (r : Read δ) (stream : List δ) : List δ :=
  stream.filter fun m => m ∈ r.holes || r.next ≤ seq m

/-- `placeQueued`: a live copy is noted as owed, queued, or turned away. -/
def placeQueued (depth : Nat) (seq : δ → Nat) (s : State δ) (d : δ) (raced : Bool) : State δ :=
  let s := { s with arrived := s.arrived ++ [d] }
  if s.closed && !raced then s.noteOwed (seq d)
  else if !s.behind && s.queue.length < depth then
    { s with queue := s.queue ++ [d], accepted := s.accepted ++ [d] }
  else if !s.behind && s.closed then s.noteOwed (seq d)
  else { s.noteOwed (seq d) with behind := true, catchup := true }

/-- The body of the loop of `deliverBurst`, from `prepare` on. With the queue on, `keepUnsent` does
nothing: what is left of the burst is dropped. -/
def prepareStep (s : State δ) (d : δ) (ds ready : List δ) (p : Prepare) : Option (State δ) :=
  match p with
  | .ok => some { s.track d with loop := .checking false ds (ready ++ [d]) }
  | .noQuota =>
    -- with nothing prepared, `prepare` waits until the connection ends
    if ready = [] then
      if s.closed then some { s with loop := .flushing [] [] } else none
    else some { s with loop := .flushing ready (d :: ds) }
  | .unwanted | .expired =>
    some { s.discard d (p = .expired) with
      loop := if s.closed then .flushing ready [] else .checking false ds ready }
  | .exhausted => some s.fail

/-- `deliverTracked` and the handlers of the reads, up to the write. -/
def deliverStep (seq : δ → Nat) (s : State δ) (p : Prepare) : Option (State δ) :=
  match s.loop with
  | .tracking d done =>
    match p with
    | .ok => some { s.track d with loop := .writing d done }
    | .noQuota => if s.closed then some { s with loop := .draining done } else none
    | .unwanted | .expired =>
      some { (s.discard d (p = .expired)).letGo with loop := .draining done }
    | .exhausted => some s.letGo.fail
  | .handling r m todo =>
    match p with
    | .ok =>
      some { s.track m with
        replays := s.replays ++ [(m, s.conns, s.catchUps)], loop := .sending r m todo }
    | .noQuota =>
      if s.closed then some { s with replayed := s.replayed ++ [m], loop := .reading r todo }
      else none
    | .unwanted | .expired =>
      some { (s.discard m (p = .expired)).advance (seq m + 1) with
        replayed := s.replayed ++ [m], loop := .reading r todo }
    | .exhausted => some s.fail
  | _ => none

/-- The write of `deliver`. -/
def writeStep (seq : δ → Nat) (s : State δ) (ok : Bool) : Option (State δ) :=
  match s.loop with
  | .writing d done =>
    if !ok then some s.letGo.fail
    else if s.closed then none
    else some { s.letGo with sent := d :: s.sent, loop := .draining done }
  | .sending r m todo =>
    if !ok then some s.fail
    else if s.closed then none
    else some { s.advance (seq m + 1) with
      sent := m :: s.sent, replayed := s.replayed ++ [m], loop := .reading r todo }
  | _ => none

/-- The end of a read: of the resume replay, or of a round. -/
def endReadStep (s : State δ) (e : End) : Option (State δ) :=
  match s.loop with
  | .reading r todo =>
    match e with
    | .finished =>
      if todo = [] ∨ s.closed then
        some { s with
          streamNext := 0
          resume := if r.resume then false else s.resume
          loop := if r.resume then .idle else .rounds r.done }
      else none
    | .canceled =>
      if s.closed then some { s with loop := if r.resume then .idle else .rounds r.done } else none
    | .failed =>
      if r.resume then some { s with streamNext := 0, resume := false, loop := .idle }
      else some s.fail
  | _ => none

/-- `drainDeliveries` takes one more; at its end `catchUp` rotates the replayed ids. -/
def drainStep (seq : δ → Nat) (s : State δ) (done : List Nat) (wanted : Bool) : State δ :=
  let rotated :=
    { s with
      replayedBefore := s.replayed, replayed := [], catchUps := s.catchUps + 1,
      loop := .rounds done }
  if s.closed then rotated
  else
    match s.queue with
    | [] => rotated
    | d :: queue =>
      if s.wasReplayed d || !wanted then { s with queue := queue, dropped := s.dropped ++ [d] }
      else
        { s with
          queue := queue
          inHand := seq d
          loop := .tracking d (if seq d = 0 then done else seq d :: done) }

/-- The head of a round of `catchUp`. -/
def roundStep (seq : δ → Nat) (s : State δ) (done : List Nat) : State δ :=
  if s.fromSeq = 0 then { s with behind := false, loop := .idle }
  else
    let r : Read δ := ⟨false, [], s.fromSeq, s.delivered, done⟩
    { s with fromSeq := 0, streamNext := s.fromSeq, loop := .reading r (r.select seq s.stream) }

/-- One step; `none` where the goroutine does not stand at what the action names. -/
def step (depth : Nat) (seq : δ → Nat) (s : State δ) : Act δ → Option (State δ)
  | .store d => some { s with stream := s.stream ++ [d] }
  | .place d raced => some (placeQueued depth seq s d raced)
  | .close => some { s with closed := true }
  | .connect =>
    match s.loop with
    | .stopped =>
      some { stream := s.stream, delivered := s.delivered, prepared := s.prepared, sent := s.sent,
             arrived := s.arrived, replays := s.replays, conns := s.conns + 1 }
    | _ => none
  | .replay holes next start =>
    match s.loop with
    | .starting =>
      let r : Read δ := ⟨true, holes, next, s.delivered, []⟩
      some { s with resume := true, streamNext := start,
                    loop := .reading r (r.select seq s.stream) }
    | _ => none
  | .noReplay =>
    match s.loop with
    | .starting => some { s with loop := .idle }
    | _ => none
  | .take wanted =>
    match s.loop, s.queue with
    | .idle, d :: queue =>
      if s.closed then none
      else if s.wasReplayed d || !wanted then
        some { s with queue := queue, dropped := s.dropped ++ [d] }
      else some { s with queue := queue, loop := .taking [d] }
    | .taking ds, d :: queue =>
      if maxDeliveryBurst ≤ ds.length then none
      else if s.wasReplayed d || !wanted then
        some { s with queue := queue, dropped := s.dropped ++ [d] }
      else some { s with queue := queue, loop := .taking (ds ++ [d]) }
    | _, _ => none
  | .endTake =>
    match s.loop with
    | .taking ds =>
      if maxDeliveryBurst ≤ ds.length ∨ s.queue = [] then
        some { s with loop := .checking true ds [] }
      else none
    | _ => none
  | .check =>
    match s.loop with
    | .checking _ [] ready => some { s with loop := .flushing ready [] }
    | .checking _ (d :: ds) ready =>
      if s.closed then some { s with loop := .idle }
      else some { s with inHand := seq d, loop := .preparing (d :: ds) ready }
    | _ => none
  | .prepare p =>
    match s.loop with
    | .preparing (d :: ds) ready => prepareStep s d ds ready p
    | _ => none
  | .flush =>
    match s.loop with
    | .flushing [] [] => some { s.letGo with loop := .idle }
    | .flushing [] ds => some { s with loop := .preparing ds [] }
    | _ => none
  | .send ok =>
    match s.loop with
    | .flushing (d :: ready) ds =>
      if !ok then some (if ds = [] then s.letGo.fail else s.fail)
      else if s.closed then none
      else some { s with sent := d :: s.sent, loop := .flushing ready ds }
    | _ => none
  | .stop =>
    if s.closed then
      match s.loop with
      | .starting | .idle => some { s with loop := .stopped }
      | _ => none
    else none
  | .catchUp =>
    match s.loop with
    | .idle =>
      if s.catchup && !s.closed then some { s with catchup := false, loop := .draining [] }
      else none
    | _ => none
  | .drain wanted =>
    match s.loop with
    | .draining done => some (drainStep seq s done wanted)
    | _ => none
  | .round =>
    match s.loop with
    | .rounds done => some (roundStep seq s done)
    | _ => none
  | .read =>
    match s.loop with
    | .reading r (m :: todo) =>
      if s.closed then some { s with loop := .reading r todo }
      else if m ∈ r.known ∨ s.wasReplayed m ∨ seq m ∈ r.done then
        some { s with streamNext := seq m + 1, loop := .reading r todo }
      else some { s with loop := .handling r m todo }
    | _ => none
  | .reread =>
    match s.loop with
    | .reading r _ =>
      if r.resume && !s.closed then some { s with loop := .reading r (r.select seq s.stream) }
      else none
    | _ => none
  | .endRead e => endReadStep s e
  | .deliver p => deliverStep seq s p
  | .write ok => writeStep seq s ok

end Steps

end Natsmqtt5.CatchUp
