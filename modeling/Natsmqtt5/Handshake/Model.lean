import Natsmqtt5.Lts

/-!
# CONNECT: one open connection for a Client Identifier

`negotiate` (`handshake.go:82-320`) with the session functions it calls, for any number of
handshakes that use one Client Identifier on one broker, and the end of their connections
(`conn.finish`, `conn.go:435-478`). `Broker.sessions` has one entry for that identifier, so it
is an `Option` here; a session is named by when it was made (`newSession`), as two sessions of one
client are two objects in the source.

Each handshake is at one of the places between two critical sections of `negotiate` (`Place`):
`takeOverSession`, the claim of the stored record, `newSession`, `setPrincipal` with `setExpiry`,
`attach`, the close of the connection it displaced, `registerSession`, `resumeSubscriptions` and
the write of the CONNACK. A connection can also be closed at any moment by its peer. `finish` runs
after the read loop, or after a handshake that failed once it had its session: it detaches the
connection, and where the session's expiry is 0 by then it discards the session and drops it from
`Broker.sessions`, whether or not the session is another connection's.

`OneConnection.lean` proves what a run of them keeps.

Left out: everything of `negotiate` before `takeOverSession`, the Will, and what is restored from
the record.
-/

namespace Natsmqtt5.Handshake

open Function

/-! ## State -/

/-- A session object. -/
abbrev SessionID := Nat

/-- `session`: what taking it over reads. -/
structure Session (κ : Type) where
  conn : Option κ := none
  discarded : Bool := false
  expirySeconds : Nat := 0
  disconnectedAt : Nat := 0
  awayLost : Bool := false

/-- What the CONNECT asked for. -/
structure Connect where
  cleanStart : Bool
  /-- `sessionExpiry`: the interval it asked for, capped, and 0 when it named none. -/
  expiry : Nat
  deriving DecidableEq

/-- How far a handshake has come. -/
inductive Place (κ : Type)
  /-- No CONNECT was read. -/
  | offline
  /-- `takeOverSession` comes next. -/
  | takingOver (p : Connect)
  /-- `store.claim` comes next. -/
  | claiming (p : Connect) (sess : Option SessionID) (resumed : Bool)
  /-- `newSession` comes next where there is none. -/
  | making (p : Connect) (sess : Option SessionID) (resumed : Bool)
  /-- `setPrincipal` and `setExpiry` come next. -/
  | naming (p : Connect) (sess : SessionID) (resumed : Bool)
  /-- `attach` comes next. -/
  | attaching (sess : SessionID) (resumed : Bool)
  /-- `attach` returned the connection `prev`, whose `close` comes next. -/
  | displacing (sess : SessionID) (resumed : Bool) (prev : Option κ)
  /-- `registerSession` comes next. -/
  | registering (sess : SessionID) (resumed : Bool)
  /-- `resumeSubscriptions` comes next for a resumed session, then the CONNACK. -/
  | resuming (sess : SessionID) (resumed : Bool)
  /-- The CONNACK write comes next. -/
  | answering (sess : SessionID) (resumed : Bool)
  /-- CONNACK Success was written, and `negotiate` returned. -/
  | connected (sess : SessionID) (resumed : Bool)
  /-- `negotiate` returned an error and has set no session. -/
  | failed
  /-- It returned an error later: `finish` comes next. -/
  | ended (sess : SessionID)
  /-- `finish` has detached the connection. -/
  | finishing (sess : SessionID)
  /-- It has discarded the session: `releaseSession` comes next. -/
  | releasing (sess : SessionID)
  /-- It has returned. -/
  | finished
  deriving DecidableEq

/-- `conn`: its handshake, and whether it is closed. -/
structure Conn (κ : Type) where
  closed : Bool := false
  place : Place κ := .offline

/-- The broker, as one Client Identifier sees it. -/
structure State (κ : Type) where
  /-- `Broker.sessions[clientID]`. -/
  registered : Option SessionID
  session : SessionID → Session κ
  /-- The sessions below it have been made. -/
  nextSession : SessionID
  conns : κ → Conn κ

/-- A broker that has not seen the client. -/
def State.fresh {κ : Type} : State κ where
  registered := none
  session := fun _ => {}
  nextSession := 0
  conns := fun _ => {}

/-! ## The functions of the session -/

section Functions

variable {κ : Type} [DecidableEq κ]

/-- `expiredLocked`, at time `now` in seconds. -/
def expiredLocked (sess : Session κ) (now : Nat) : Bool :=
  if sess.discarded then true
  else if sess.conn.isSome then false
  else if sess.expirySeconds = 0 then true
  else if sess.expirySeconds = 0xFFFFFFFF then false
  else decide (sess.expirySeconds < now - sess.disconnectedAt)

/-- `claimForResume`: the session after it, or `none` when it may not be resumed. -/
def claimForResume (sess : Session κ) (now : Nat) : Option (Session κ) :=
  if expiredLocked sess now || sess.awayLost then none
  else if sess.conn.isNone then some { sess with disconnectedAt := now }
  else some sess

def discard (sess : Session κ) : Session κ := { sess with discarded := true }

def State.setSession (s : State κ) (i : SessionID) (sess : Session κ) : State κ :=
  { s with session := update s.session i sess }

/-- `conn.close`. -/
def State.close (s : State κ) (c : κ) : State κ :=
  { s with conns := update s.conns c { s.conns c with closed := true } }

def State.goto (s : State κ) (c : κ) (p : Place κ) : State κ :=
  { s with conns := update s.conns c { s.conns c with place := p } }

/-- `conn.close` of a connection that may be missing. -/
def State.closeOpt (s : State κ) : Option κ → State κ
  | some c => s.close c
  | none => s

/-- `session.takeOver`: shut the session's connection. -/
def takeOver (s : State κ) (i : SessionID) : State κ := s.closeOpt (s.session i).conn

/-- `takeOverSession`: the state after it, and the session the CONNECT may resume. -/
def takeOverSession (s : State κ) (cleanStart : Bool) (now : Nat) : State κ × Option SessionID :=
  match s.registered with
  | none => (s, none)
  | some i =>
    let s := takeOver s i
    match if cleanStart then none else claimForResume (s.session i) now with
    | none => ({ s.setSession i (discard (s.session i)) with registered := none }, none)
    | some sess => (s.setSession i sess, some i)

def newSession (s : State κ) : State κ × SessionID :=
  ({ s with
      session := update s.session s.nextSession {}
      nextSession := s.nextSession + 1 }, s.nextSession)

/-- `attach`: the state after it, and the connection it displaced, if that is another one. -/
def attach (s : State κ) (i : SessionID) (c : κ) : State κ × Option κ :=
  (s.setSession i { s.session i with conn := some c, disconnectedAt := 0 },
    (s.session i).conn.filter fun prev => prev ≠ c)

def registerSession (s : State κ) (i : SessionID) : State κ := { s with registered := some i }

/-- `session.detach`. -/
def detach (s : State κ) (i : SessionID) (c : κ) (now : Nat) : State κ :=
  if (s.session i).conn = some c then
    s.setSession i { s.session i with conn := none, disconnectedAt := now }
  else s

def releaseSession (s : State κ) (i : SessionID) : State κ :=
  { s with registered := if s.registered = some i then none else s.registered }

end Functions

/-! ## Steps -/

section Steps

variable {κ : Type} [DecidableEq κ]

/-- The steps of the handshakes. -/
inductive Act (κ : Type)
  | connect (c : κ) (p : Connect)
  | takeOverSession (c : κ) (now : Nat)
  /-- `store.claim` answers whether a stored session is present, or fails. Without persistence
  nothing is stored. -/
  | claim (c : κ) (present : Option Bool)
  | newSession (c : κ)
  | setPrincipal (c : κ)
  | attach (c : κ)
  | closePrev (c : κ)
  | registerSession (c : κ)
  /-- `resumeSubscriptions` restores the filters, or fails and refuses the client. -/
  | resumeSubscriptions (c : κ) (ok : Bool)
  | connack (c : κ)
  /-- `finish` up to `detach`, at time `now`. -/
  | finish (c : κ) (now : Nat)
  /-- It asks for the session's expiry. -/
  | discard (c : κ)
  | releaseSession (c : κ)
  /-- The peer closes the connection. -/
  | close (c : κ)

/-- One step. A refusal closes the connection, as does the return of an error from `negotiate`. -/
def step (s : State κ) : Act κ → Option (State κ)
  | .connect c p =>
    match (s.conns c).place with
    | .offline => some (s.goto c (.takingOver p))
    | _ => none
  | .takeOverSession c now =>
    match (s.conns c).place with
    | .takingOver p =>
      let (s, sess) := takeOverSession s p.cleanStart now
      some (s.goto c (.claiming p sess sess.isSome))
    | _ => none
  | .claim c present =>
    match (s.conns c).place with
    | .claiming p sess resumed =>
      match present with
      | none => some ((s.close c).goto c .failed)
      | some present =>
        some (s.goto c (.making p sess (resumed || (sess.isNone && present))))
    | _ => none
  | .newSession c =>
    match (s.conns c).place with
    | .making p (some i) resumed => some (s.goto c (.naming p i resumed))
    | .making p none resumed =>
      let (s, i) := newSession s
      some (s.goto c (.naming p i resumed))
    | _ => none
  | .setPrincipal c =>
    match (s.conns c).place with
    | .naming p i resumed =>
      some ((s.setSession i { s.session i with expirySeconds := p.expiry }).goto c
        (.attaching i resumed))
    | _ => none
  | .attach c =>
    match (s.conns c).place with
    | .attaching i resumed =>
      let (s, prev) := attach s i c
      some (s.goto c (.displacing i resumed prev))
    | _ => none
  | .closePrev c =>
    match (s.conns c).place with
    | .displacing i resumed prev => some ((s.closeOpt prev).goto c (.registering i resumed))
    | _ => none
  | .registerSession c =>
    match (s.conns c).place with
    | .registering i resumed => some ((registerSession s i).goto c (.resuming i resumed))
    | _ => none
  | .resumeSubscriptions c ok =>
    match (s.conns c).place with
    | .resuming i resumed =>
      if resumed && !ok then some ((s.close c).goto c (.ended i))
      else some (s.goto c (.answering i resumed))
    | _ => none
  | .connack c =>
    match (s.conns c).place with
    | .answering i resumed =>
      if (s.conns c).closed then some (s.goto c (.ended i))
      else some (s.goto c (.connected i resumed))
    | _ => none
  | .finish c now =>
    match (s.conns c).place with
    | .connected i _ | .ended i => some (detach (s.goto c (.finishing i)) i c now)
    | _ => none
  | .discard c =>
    match (s.conns c).place with
    | .finishing i =>
      if (s.session i).expirySeconds = 0 then
        some ((s.setSession i (discard (s.session i))).goto c (.releasing i))
      else some (s.goto c .finished)
    | _ => none
  | .releaseSession c =>
    match (s.conns c).place with
    | .releasing i => some ((releaseSession s i).goto c .finished)
    | _ => none
  | .close c => some (s.close c)

/-! ## Statements -/

/-- A handshake that has not begun or has returned. -/
def Place.Returned : Place κ → Prop
  | .offline | .connected _ _ | .failed | .ended _ | .finishing _ | .releasing _ | .finished => True
  | _ => False

/-- No handshake is under way. -/
def State.AllReturned (s : State κ) : Prop := ∀ c, (s.conns c).place.Returned

/-- `c` was sent CONNACK Success with session `i`, and is open. -/
def State.OpenOn (s : State κ) (c : κ) (i : SessionID) : Prop :=
  (s.conns c).closed = false ∧ ∃ resumed, (s.conns c).place = .connected i resumed

/-- The broker between CONNECTs: with or without a session in memory, connected or not. -/
structure Quiescent (s : State κ) : Prop where
  returned : s.AllReturned
  /-- An open connection serves the registered session, whose connection it is. -/
  serves : ∀ c i, s.OpenOn c i → s.registered = some i ∧ (s.session i).conn = some c
  /-- Sessions and what refers to them have been made. -/
  made : ∀ i, s.registered = some i → i < s.nextSession
  madeConn : ∀ c i resumed, (s.conns c).place = .connected i resumed → i < s.nextSession

/-- A session is not registered over another one that has an open connection, and not dropped while
it has one itself. -/
def NotOver (s : State κ) : Act κ → Prop
  | .registerSession c =>
    match (s.conns c).place with
    | .registering i _ =>
      ∀ j ∈ s.registered, j ≠ i → ∀ c' ∈ (s.session j).conn, (s.conns c').closed = true
    | _ => True
  | .releaseSession c =>
    match (s.conns c).place with
    | .releasing i => s.registered = some i → ∀ c' ∈ (s.session i).conn, (s.conns c').closed = true
    | _ => True
  | _ => True

instance (p : Place κ) : Decidable p.Returned := by
  unfold Place.Returned
  split <;> infer_instance

instance [Fintype κ] (s : State κ) : Decidable s.AllReturned :=
  inferInstanceAs (Decidable (∀ c, (s.conns c).place.Returned))

instance (s : State κ) (c : κ) (i : SessionID) : Decidable (s.OpenOn c i) :=
  inferInstanceAs (Decidable ((s.conns c).closed = false ∧
    ∃ resumed, (s.conns c).place = .connected i resumed))

instance (s : State κ) (a : Act κ) : Decidable (NotOver s a) := by
  unfold NotOver
  split <;> first | infer_instance | (split <;> infer_instance)

end Steps

end Natsmqtt5.Handshake
