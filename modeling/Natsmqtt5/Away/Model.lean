import Natsmqtt5.Lts

/-!
# Delivery without an offline queue

A broker with no offline queue (`holdsAway`) has one copy of a QoS 1 or 2 message, in memory. It
moves from the NATS handler (`routeAway` in `away.go`) to a connection's queue (`enqueueHeld`), from
there to the delivery goroutine (`deliverLoop`, `deliverBurst` and `prepare` in `subscribe.go`,
which tracks it in flight and then writes it), or, when the connection ends first, to the session
(`sealAndHold`, `holdAway`) and from there to the next connection (`attach`). Several connections of
one session are here at once: a successor attaches while its predecessor ends.

A message is the number of its arrival, counted where a handler puts it into a queue or the buffer;
handlers run at any pace, and any number of them at once (`routing`). One step is what the source
does under one lock, one receive from the queue, or one write. Whether the send quota has room,
whether a message has expired or its subscription is gone, and whether a write succeeds is the
action's choice. The session's expiry is not 0 and it is not discarded; QoS 0 messages are left out.

The model keeps for itself `last`, the connection that attached last; `tracked`, what was ever put
in flight; and `sent`, newest first, where a message that is too large for the client, or has
expired when its resend comes, counts as sent.
-/

namespace Natsmqtt5.Away

/-! ## State -/

def deliveryQueueDepth : Nat := 2048

def maxDeliveryBurst : Nat := 32

/-- Where a connection's delivery goroutine stands. `ds` are deliveries it has taken off the queue
and not prepared, `ready` those it has prepared and not written. -/
inductive Loop
  /-- The connection has not attached. -/
  | offline
  /-- Before `retransmit`. -/
  | starting
  /-- `retransmit`, with what it has still to resend. -/
  | resending (todo : List Nat)
  /-- At the select of `deliverLoop`. -/
  | idle
  /-- `deliverBurst`, taking more. -/
  | taking (ds : List Nat)
  | preparing (ds ready : List Nat)
  /-- `flush`; `ds` are still to be prepared after it. -/
  | flushing (ready ds : List Nat)
  /-- The goroutine has returned, or was never started. -/
  | stopped
  deriving DecidableEq

structure Conn where
  closed : Bool := false
  sealed : Bool := false
  loop : Loop := .offline
  /-- `c.deliveries`. -/
  queue : List Nat := []
  unsent : List Nat := []
  /-- What `sealAndHold` has collected and not passed to the session. -/
  held : List Nat := []
  /-- How many handlers `routeAway` has sent here that have not queued their message. -/
  routing : Nat := 0
  /-- `holdAway` has returned. -/
  finished : Bool := false

structure State (κ : Type) where
  /-- `session.conn`. -/
  conn : Option κ := none
  away : List Nat := []
  awayLost : Bool := false
  /-- The messages in flight, in the order they were tracked. -/
  inflight : List Nat := []
  conns : κ → Conn := fun _ => {}
  last : Option κ := none
  /-- The number of the next message. -/
  next : Nat := 0
  tracked : List Nat := []
  sent : List Nat := []
  /-- Expired, or without a subscription. -/
  dropped : List Nat := []

/-! ## Steps -/

/-- What `prepare` finds. -/
inductive Prepare
  | ok
  /-- No send quota is free. -/
  | noQuota
  /-- Unsubscribed, or expired. -/
  | unwanted
  /-- No Packet Identifier is free. -/
  | exhausted
  deriving DecidableEq

/-- How a write of a PUBLISH ends. -/
inductive Write
  | sent
  /-- Too large for the client, or expired. -/
  | discarded
  | failed
  deriving DecidableEq

inductive Act (κ : Type)
  /-- A handler asks `routeAway`. -/
  | route
  /-- A handler that was sent to `c` queues its message. -/
  | enqueue (c : κ)
  | attach (c : κ)
  /-- The peer, or the broker, closes the connection. -/
  | close (c : κ)
  -- the delivery goroutine
  | retransmit (c : κ)
  | resend (c : κ) (w : Write)
  | take (c : κ) (wanted : Bool)
  | endTake (c : κ)
  | prepare (c : κ) (p : Prepare)
  | flush (c : κ)
  | send (c : κ) (w : Write)
  | stop (c : κ)
  -- the end of the connection
  | sealQueue (c : κ)
  /-- `holdAway`, which leaves out what its subscription no longer wants. -/
  | hold (c : κ) (unwanted : List Nat)
  | detach (c : κ)
  /-- The client acknowledges a message. -/
  | ack (n : Nat)

section Steps

variable {κ : Type} [DecidableEq κ]

def State.setConn (s : State κ) (c : κ) (k : Conn) : State κ :=
  { s with conns := Function.update s.conns c k }

def State.goto (s : State κ) (c : κ) (l : Loop) : State κ :=
  s.setConn c { s.conns c with loop := l }

/-- `routeAway`: a handler goes to the session's connection, or the message is held. -/
def routeAway (limit : Nat) (s : State κ) : State κ :=
  match s.conn.filter fun c => !(s.conns c).sealed with
  | some c => s.setConn c { s.conns c with routing := (s.conns c).routing + 1 }
  | none =>
    if s.awayLost then { s with next := s.next + 1 }
    else if limit ≤ s.away.length then
      { s with away := [], awayLost := true, next := s.next + 1 }
    else { s with away := s.away ++ [s.next], next := s.next + 1 }

/-- `holdAway`, of what is still wanted. -/
def holdAway (limit : Nat) (s : State κ) (older : List Nat) : State κ :=
  if older = [] then s
  else if s.awayLost then s
  else if limit < older.length + s.away.length then { s with away := [], awayLost := true }
  else { s with away := older ++ s.away }

/-- The delivery goroutine fails: the connection is closed. -/
def State.fail (s : State κ) (c : κ) : State κ :=
  s.setConn c { s.conns c with closed := true, loop := .stopped }

/-- A message is written, or treated as if it had been. -/
def State.write (s : State κ) (n : Nat) (w : Write) : State κ :=
  { s with
    sent := n :: s.sent
    inflight := if w = .discarded then s.inflight.erase n else s.inflight }

/-- `deliverBurst` leaves what it has not prepared for `sealAndHold`. -/
def State.keepUnsent (s : State κ) (c : κ) (ds : List Nat) (l : Loop) : State κ :=
  s.setConn c { s.conns c with unsent := (s.conns c).unsent ++ ds, loop := l }

/-- The body of the loop of `deliverBurst`. -/
def prepareStep (s : State κ) (c : κ) (d : Nat) (ds ready : List Nat) (p : Prepare) :
    Option (State κ) :=
  let closed := (s.conns c).closed
  match p with
  | .ok =>
    if closed then some (s.keepUnsent c (d :: ds) .stopped)
    else
      some ({ s with inflight := s.inflight ++ [d], tracked := s.tracked ++ [d] }.goto c
        (.preparing ds (ready ++ [d])))
  | .noQuota =>
    -- with nothing prepared, `prepare` waits until the connection ends
    if ready = [] then
      if closed then some (s.keepUnsent c (d :: ds) (.flushing [] [])) else none
    else some (s.goto c (.flushing ready (d :: ds)))
  | .unwanted =>
    if closed then some (s.keepUnsent c (d :: ds) (.flushing ready []))
    else some ({ s with dropped := s.dropped ++ [d] }.goto c (.preparing ds ready))
  | .exhausted =>
    -- the identifiers in use are those of messages that were tracked
    if 65535 ≤ s.tracked.length then some (s.fail c) else none

def step (limit : Nat) (s : State κ) : Act κ → Option (State κ)
  | .route => some (routeAway limit s)
  | .enqueue c =>
    let k := s.conns c
    if k.routing = 0 then none
    else
      let k := { k with routing := k.routing - 1 }
      if k.sealed then some (routeAway limit (s.setConn c k))
      else if k.queue.length < deliveryQueueDepth then
        some { s.setConn c { k with queue := k.queue ++ [s.next] } with next := s.next + 1 }
      else some { s.setConn c k with next := s.next + 1 }
  | .attach c =>
    match (s.conns c).loop with
    | .offline =>
      some { s.setConn c { s.conns c with loop := .starting, queue := (s.conns c).queue ++ s.away }
        with conn := some c, last := some c, away := [] }
    | _ => none
  | .close c => some (s.setConn c { s.conns c with closed := true })
  | .retransmit c =>
    match (s.conns c).loop with
    | .starting => some (s.goto c (.resending s.inflight))
    | _ => none
  | .resend c w =>
    match (s.conns c).loop with
    | .resending [] => some (s.goto c .idle)
    | .resending (n :: todo) =>
      if n ∉ s.inflight then some (s.goto c (.resending todo))
      else if w = .failed then some (s.fail c)
      else if (s.conns c).closed then none
      else some ((s.write n w).goto c (.resending todo))
    | _ => none
  | .take c wanted =>
    match (s.conns c).loop, (s.conns c).queue with
    | .idle, d :: queue =>
      if (s.conns c).closed then none
      else if wanted then some (s.setConn c { s.conns c with queue := queue, loop := .taking [d] })
      else
        some { s.setConn c { s.conns c with queue := queue } with dropped := s.dropped ++ [d] }
    | .taking ds, d :: queue =>
      if maxDeliveryBurst ≤ ds.length then none
      else if wanted then
        some (s.setConn c { s.conns c with queue := queue, loop := .taking (ds ++ [d]) })
      else
        some { s.setConn c { s.conns c with queue := queue } with dropped := s.dropped ++ [d] }
    | _, _ => none
  | .endTake c =>
    match (s.conns c).loop with
    | .taking ds =>
      if maxDeliveryBurst ≤ ds.length ∨ (s.conns c).queue = [] then
        some (s.goto c (.preparing ds []))
      else none
    | _ => none
  | .prepare c p =>
    match (s.conns c).loop with
    | .preparing (d :: ds) ready => prepareStep s c d ds ready p
    | _ => none
  | .flush c =>
    match (s.conns c).loop with
    | .preparing [] ready => some (s.goto c (.flushing ready []))
    | .flushing [] [] => some (s.goto c .idle)
    | .flushing [] ds => some (s.goto c (.preparing ds []))
    | _ => none
  | .send c w =>
    match (s.conns c).loop with
    | .flushing (n :: ready) ds =>
      if w = .failed then some (s.fail c)
      else if (s.conns c).closed then none
      else some ((s.write n w).goto c (.flushing ready ds))
    | _ => none
  | .stop c =>
    if (s.conns c).closed then
      match (s.conns c).loop with
      | .starting | .resending _ | .idle => some (s.goto c .stopped)
      | _ => none
    else none
  | .sealQueue c =>
    let k := s.conns c
    if k.loop = .stopped ∧ k.sealed = false then
      some (s.setConn c { k with sealed := true, held := k.unsent ++ k.queue, unsent := [],
                                 queue := [] })
    else none
  | .hold c unwanted =>
    let k := s.conns c
    if k.sealed = true ∧ k.finished = false then
      some (holdAway limit
        { s.setConn c { k with held := [], finished := true } with
          dropped := s.dropped ++ k.held.filter (· ∈ unwanted) }
        (k.held.filter (· ∉ unwanted)))
    else none
  | .detach c =>
    if (s.conns c).finished ∧ s.conn = some c then some { s with conn := none } else none
  | .ack n => if n ∈ s.sent then some { s with inflight := s.inflight.erase n } else none

end Steps

end Natsmqtt5.Away
