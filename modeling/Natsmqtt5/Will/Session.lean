import Natsmqtt5.Lts

/-!
# The Will of a session in memory

One session and the connections that use it, one after the other or overlapping: the steps of their
handshakes that touch the Will (`takeOverSession` and `negotiate`: `cancelWills`, `attach`,
`setWill`), the end of a connection (`finish`, `scheduleWill` and the goroutine it starts), a normal
DISCONNECT and the discards of `Broker.Reauthorize`. One step is what the source does under the
session's lock.

A connection sets one Will at most, so a Will and its stored record have the connection's name. What
becomes of the record is in `Will/Store.lean`: `publish` here is the decision to call `wills.fire`,
and the outcome of `wills.ended` and of `register` is the action's choice.

The model keeps `log`, newest first, for what was decided and when.
-/

namespace Natsmqtt5.Will.InMemory

/-! ## The session -/

/-- `session`: what the Will's functions read. -/
structure Session (κ : Type) where
  conn : Option κ := none
  will : Option κ := none
  willDelay : Nat := 0
  willLease : Option κ := none
  willConn : Option κ := none
  pendingWill : Option κ := none

section Functions

variable {κ : Type} [DecidableEq κ]

/-- `setWill`, with the record of the Will it replaced. -/
def Session.setWill (s : Session κ) (c w : κ) (delay : Nat) (lease : Option κ) :
    Session κ × Option κ :=
  ({ s with will := some w, willDelay := delay, willLease := lease, willConn := some c },
    if s.will.isSome then s.willLease else none)

/-- `takeWill`: the session after it, and the record of the Will. -/
def Session.takeWill (s : Session κ) (c : κ) : Session κ × Option κ :=
  if s.willConn = some c then
    ({ s with will := none, willDelay := 0, willLease := none, willConn := none }, s.willLease)
  else (s, none)

/-- `takeWillToPublish`: the Will, its delay and its record. -/
def Session.takeWillToPublish (s : Session κ) (c : κ) :
    Session κ × Option (κ × Nat × Option κ) :=
  match s.will with
  | none => (s, none)
  | some w =>
    if s.willConn = some c then
      ({ s with will := none, willDelay := 0, willConn := none, pendingWill := some w },
        some (w, s.willDelay, s.willLease))
    else (s, none)

def Session.cancelWills (s : Session κ) : Session κ × Option κ :=
  if s.will.isNone ∧ s.pendingWill.isNone then (s, none)
  else
    ({ s with will := none, willDelay := 0, willLease := none, willConn := none,
              pendingWill := none }, s.willLease)

/-- `takePendingWill`: the session after it, if `w` is still pending. -/
def Session.takePendingWill (s : Session κ) (w : κ) : Option (Session κ) :=
  if s.pendingWill = some w then some { s with pendingWill := none } else none

def Session.discardWill (s : Session κ) (w : κ) : Session κ × Option κ :=
  let (s, l) := if s.will = some w then
      ({ s with will := none, willDelay := 0, willLease := none }, s.willLease)
    else (s, none)
  if s.pendingWill = some w then ({ s with pendingWill := none, willLease := none }, s.willLease)
  else (s, l)

def Session.attach (s : Session κ) (c : κ) : Session κ :=
  { s with conn := some c, pendingWill := none }

def Session.detach (s : Session κ) (c : κ) : Session κ :=
  if s.conn = some c then { s with conn := none } else s

end Functions

/-! ## State -/

/-- Where a connection stands. -/
inductive Place (κ : Type)
  | offline
  /-- `takeOverSession` is done; `cancelWills` comes next. -/
  | connecting
  /-- `attach` comes next, then the drop of what was cancelled. -/
  | attaching (cancelled : Option κ)
  /-- `setWill` comes next, if the CONNECT has a Will. -/
  | attached
  /-- The handshake is done. -/
  | connected (hasWill : Bool)
  /-- `scheduleWill`, no delay: `takePendingWill` comes next. -/
  | firing (w : κ) (lease : Option κ)
  /-- `scheduleWill`, with a delay: `wills.ended` comes next. -/
  | ending (w : κ) (lease : Option κ)
  | detaching
  | gone
  deriving DecidableEq

/-- The goroutine of `scheduleWill`. -/
inductive Timer (κ : Type)
  | idle
  | waiting (w : κ) (lease : Option κ)
  /-- `hasConn` said no; `takePendingWill` comes next. -/
  | checked (w : κ) (lease : Option κ)

/-- What the statements about whole runs see. -/
inductive Event (κ : Type)
  | attached (c : κ)
  | set (w : κ)
  /-- A handshake cancelled the Wills of the session. -/
  | cancelled
  /-- `Broker.Reauthorize` discarded the Will. -/
  | discarded (w : κ)
  /-- The connection ended with a normal DISCONNECT. -/
  | normal (c : κ)
  /-- `wills.fire`. -/
  | published (w : κ)
  /-- `wills.drop`. -/
  | dropped (lease : Option κ)
  deriving DecidableEq

structure State (κ : Type) where
  sess : Session κ := {}
  place : κ → Place κ := fun _ => .offline
  timer : κ → Timer κ := fun _ => .idle
  log : List (Event κ) := []

/-! ## Steps -/

inductive Act (κ : Type)
  /-- `takeOverSession`; without `found`, the session is new. -/
  | takeOver (c : κ) (found : Bool)
  /-- The handshake fails before the session is its own. -/
  | fail (c : κ)
  | cancelWills (c : κ)
  | attach (c : κ)
  /-- `register` and `setWill`; `stored` says that the record was written. -/
  | setWill (c : κ) (delay : Nat) (stored : Bool)
  /-- The CONNECT has no Will. -/
  | withoutWill (c : κ)
  /-- `finish` after a normal DISCONNECT. -/
  | takeWill (c : κ)
  /-- `scheduleWill`; `expiry` is what `sess.expiry` says. -/
  | scheduleWill (c : κ) (expiry : Nat)
  | takePendingWill (c : κ)
  /-- `wills.ended`, and what it says. -/
  | ended (c : κ) (ok : Bool)
  | detach (c : κ)
  /-- The delay is over, or the broker is closing. -/
  | timer (c : κ)
  | timerTake (c : κ)
  /-- `Broker.Reauthorize` -/
  | discardWill (w : κ)

section Step

variable {κ : Type} [DecidableEq κ]

def State.goto (s : State κ) (c : κ) (p : Place κ) : State κ :=
  { s with place := Function.update s.place c p }

def State.setTimer (s : State κ) (c : κ) (t : Timer κ) : State κ :=
  { s with timer := Function.update s.timer c t }

def State.note (s : State κ) (e : Event κ) : State κ := { s with log := e :: s.log }

/-- `cancelWills` in a handshake. -/
def State.cancel (s : State κ) : State κ × Option κ :=
  let (sess, l) := s.sess.cancelWills
  ({ s with sess := sess }.note .cancelled, l)

/-- `takePendingWill`, and `wills.fire` if it was still there. -/
def State.decide (s : State κ) (w : κ) : State κ :=
  match s.sess.takePendingWill w with
  | none => s
  | some sess => { s with sess := sess }.note (.published w)

/-- The rest of `scheduleWill` under the lock. -/
def State.schedule (s : State κ) (c : κ) (expiry : Nat) : State κ :=
  match s.sess.takeWillToPublish c with
  | (_, none) => s.goto c .detaching
  | (sess, some (w, delay, lease)) =>
    { s with sess := sess }.goto c
      (if min delay expiry = 0 then .firing w lease else .ending w lease)

def step (s : State κ) : Act κ → Option (State κ)
  | .takeOver c found =>
    match s.place c with
    | .offline =>
      if found then
        let (s, l) := s.cancel
        some ((s.note (.dropped l)).goto c .connecting)
      else some (s.goto c .connecting)
    | _ => none
  | .fail c =>
    match s.place c with
    | .connecting => some (s.goto c .gone)
    | _ => none
  | .cancelWills c =>
    match s.place c with
    | .connecting =>
      let (s, l) := s.cancel
      some (s.goto c (.attaching l))
    | _ => none
  | .attach c =>
    match s.place c with
    | .attaching l =>
      some (((({ s with sess := s.sess.attach c }).note (.attached c)).note (.dropped l)).goto c
        .attached)
    | _ => none
  | .setWill c delay stored =>
    match s.place c with
    | .attached =>
      let (sess, l) := s.sess.setWill c c delay (if stored then some c else none)
      some ((({ s with sess := sess }.note (.dropped l)).note (.set c)).goto c (.connected true))
    | _ => none
  | .withoutWill c =>
    match s.place c with
    | .attached => some (s.goto c (.connected false))
    | _ => none
  | .takeWill c =>
    match s.place c with
    | .connected _ =>
      let (sess, l) := s.sess.takeWill c
      some ((({ s with sess := sess }.note (.dropped l)).note (.normal c)).goto c .detaching)
    | _ => none
  | .scheduleWill c expiry =>
    match s.place c with
    | .attached => some (s.schedule c expiry)
    | .connected _ => some (s.schedule c expiry)
    | _ => none
  | .takePendingWill c =>
    match s.place c with
    | .firing w _ => some ((s.decide w).goto c .detaching)
    | _ => none
  | .ended c ok =>
    match s.place c with
    | .ending w lease =>
      if ok then some ((s.setTimer c (.waiting w lease)).goto c .detaching)
      else some ({ s with sess := (s.sess.takePendingWill w).getD s.sess }.goto c .detaching)
    | _ => none
  | .detach c =>
    match s.place c with
    | .detaching => some ({ s with sess := s.sess.detach c }.goto c .gone)
    | _ => none
  | .timer c =>
    match s.timer c with
    | .waiting w lease =>
      if s.sess.conn.isSome then some ((s.note (.dropped lease)).setTimer c .idle)
      else some (s.setTimer c (.checked w lease))
    | _ => none
  | .timerTake c =>
    match s.timer c with
    | .checked w _ => some ((s.decide w).setTimer c .idle)
    | _ => none
  | .discardWill w =>
    let (sess, l) := s.sess.discardWill w
    some (({ s with sess := sess }.note (.dropped l)).note (.discarded w))

end Step

end Natsmqtt5.Will.InMemory
