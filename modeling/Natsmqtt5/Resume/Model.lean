import Natsmqtt5.Handshake.Model
import Natsmqtt5.Kv
import Natsmqtt5.Store.Session

/-!
# CONNECT with a stored session, over several brokers

`negotiate` (`handshake.go:202-284`) on a broker that stores sessions: a session lives in the memory
of any number of brokers and in one record of the bucket. A CONNECT with Clean Start 0 looks the
session up in its broker's memory (`takeOverSession`, `broker.go:485-514`), claims the record
(`sessionstore.go:453-566`), and then serves what it found: the session in memory with the filters
that are live in it, or a new session whose filters are rebuilt one by one from the record
(`resumeSubscriptions`). The other brokers learn of the claim from the watch on the bucket
(`onUpdate`, `sessionLost`, `broker.go:706-724`), in order and as late as they like.

A broker is named by the number it writes into `Record.owner`. A claim that loses its
compare-and-swap reads again and has changed nothing, so a successful claim is one step; deleting a
record that may not be resumed and making a new one are two. `attach` and the close of the
connection it displaces are one step. A connection that has bound the record may write it at any
moment: the code does so after a SUBSCRIBE and an UNSUBSCRIBE, at checkpoints, when it resumes and
when it ends.

There is no Authorizer, and NATS accepts every subscription. The in-flight state, the Will and the
sweep of expired sessions are left out. Kept by the model only are `log`, what each CONNACK with
Session Present 1 stood for, and `saved` and `saving`, whether the filters have changed since the
session's record was read or drawn up.
-/

namespace Natsmqtt5.Resume

open Function
open Store (Record StoredSubscription Live Kind Claim)

/-! ## State -/

/-- A session in some broker's memory, named in the order they are made. -/
abbrev SessionID := Nat

/-- The number a broker writes into the records it owns. -/
abbrev Broker := Nat

/-- The filters of a list of subscriptions. -/
def filters (l : List StoredSubscription) : Finset String := (l.map (·.filter)).toFinset

/-- `session`: what taking it over reads, its record, and its subscriptions. -/
structure Session (κ : Type) extends Handshake.Session κ, Store.Bound where
  subs : List StoredSubscription := []
  /-- The stored subscriptions a connection is about to rebuild, and none once it has. -/
  unrestored : List StoredSubscription := []
  /-- No SUBSCRIBE or UNSUBSCRIBE has come since the record it holds was claimed by a resumption or
  drawn up for a live session with nothing left to rebuild. -/
  saved : Bool := false
  /-- The same of the record being written. -/
  saving : Bool := false

/-- What a handshake carries once its session is there. -/
structure Hs where
  sess : SessionID
  /-- The record its claim returned, and the revision. -/
  read : Record
  rev : Nat
  /-- Session Present. -/
  resumed : Bool
  /-- The subscriptions to rebuild. -/
  stored : List StoredSubscription
  expiry : Nat

/-- How far a connection has come. -/
inductive Place
  | offline
  | takingOver (expiry : Nat)
  /-- `store.claim` comes next. -/
  | claiming (expiry : Nat) (sess : Option SessionID)
  /-- The claim deleted a record it may not resume. -/
  | recreating (expiry : Nat) (sess : Option SessionID)
  /-- The record is claimed; `newSession` comes next where there is no session. -/
  | making (expiry : Nat) (sess : Option SessionID) (read : Record) (rev : Nat) (present : Bool)
  /-- `bindRecord` comes next. -/
  | binding (h : Hs)
  /-- `setExpiry` comes next. -/
  | naming (h : Hs)
  | attaching (h : Hs)
  | registering (h : Hs)
  /-- In `resumeSubscriptions`, with the subscriptions still to rebuild. -/
  | restoring (h : Hs) (todo : List StoredSubscription)
  /-- The CONNACK write comes next. -/
  | answering (h : Hs)
  /-- Answered: the client's packets are read. -/
  | serving (h : Hs)
  /-- `finish` has detached the session. -/
  | ended (h : Hs)
  | failed

/-- A connection, and how far it has come. -/
structure Conn where
  closed : Bool := false
  broker : Broker := 0
  /-- `conn.claimGen`. -/
  gen : Nat := 0
  place : Place := .offline

/-- A CONNACK with Session Present 1: the filters served, and those of the record claimed. -/
structure Answer where
  served : Finset String
  read : Finset String

/-- The bucket, the brokers, the sessions in their memories and the connections. -/
structure State (κ : Type) where
  bucket : Kv.Bucket Record
  /-- Every write to the bucket, in order, as the watch tells it. -/
  writes : List (Nat × Option Record)
  /-- How many of them a broker has been told of. -/
  seen : Broker → Nat
  /-- `Broker.sessions[clientID]`. -/
  registered : Broker → Option SessionID
  session : SessionID → Session κ
  nextSession : SessionID
  conns : κ → Conn
  log : List Answer

/-- Nothing has happened. -/
def State.empty {κ : Type} : State κ where
  bucket := {}
  writes := []
  seen := fun _ => 0
  registered := fun _ => none
  session := fun _ => {}
  nextSession := 0
  conns := fun _ => {}
  log := []

/-! ## The functions of the session -/

section Functions

variable {κ : Type} [DecidableEq κ]

/-- A session changes. -/
def State.setSession (s : State κ) (i : SessionID) (sess : Session κ) : State κ :=
  { s with session := update s.session i sess }

/-- A connection changes. -/
def State.setConn (s : State κ) (c : κ) (k : Conn) : State κ :=
  { s with conns := update s.conns c k }

/-- A connection goes on. -/
def State.goto (s : State κ) (c : κ) (p : Place) : State κ :=
  s.setConn c { s.conns c with place := p }

/-- `conn.close`. -/
def State.close (s : State κ) (c : κ) : State κ :=
  s.setConn c { s.conns c with closed := true }

/-- `conn.close` of a connection that may be missing. -/
def State.closeOpt (s : State κ) : Option κ → State κ
  | some c => s.close c
  | none => s

/-- A broker remembers a session for the client, or none. -/
def State.register (s : State κ) (b : Broker) (i : Option SessionID) : State κ :=
  { s with registered := update s.registered b i }

/-- A write to the bucket, which every watch will tell. -/
def State.wrote (s : State κ) (b : Kv.Bucket Record) : State κ :=
  { s with bucket := b, writes := s.writes ++ [(b.last, b.value)] }

/-- `installSubscription`, once the connection is the session's: one subscription to a filter. -/
def install (subs : List StoredSubscription) (sub : StoredSubscription) :
    List StoredSubscription :=
  sub :: subs.filter fun x => x.filter ≠ sub.filter

/-- `removeSubscriptionFor`, once the connection is the session's. -/
def remove (subs : List StoredSubscription) (filter : String) : List StoredSubscription :=
  subs.filter fun x => x.filter ≠ filter

/-- `discard` and `discardMoved`: no filters, and never to be resumed. -/
def discard (sess : Session κ) : Session κ :=
  { sess with subs := [], discarded := true, saved := false, saving := false }

/-- The client changes the set of its subscriptions. -/
def Session.setSubs (sess : Session κ) (subs : List StoredSubscription) : Session κ :=
  { sess with subs := subs, saved := false, saving := false }

/-- `session.takeOver`. -/
def takeOver (s : State κ) (i : SessionID) : State κ := s.closeOpt (s.session i).conn

/-- `takeOverSession` on broker `b` with Clean Start 0. -/
def takeOverSession (s : State κ) (b : Broker) (now : Nat) : State κ × Option SessionID :=
  match s.registered b with
  | none => (s, none)
  | some i =>
    let s := takeOver s i
    match Handshake.claimForResume (s.session i).toSession now with
    | none => ((s.setSession i (discard (s.session i))).register b none, none)
    | some sess => (s.setSession i { s.session i with toSession := sess }, some i)

/-- `sessionLost`: another broker wrote the record at revision `rev`. -/
def sessionLost (s : State κ) (b : Broker) (rev : Nat) : State κ :=
  match s.registered b with
  | none => s
  | some i =>
    if (s.session i).supersedes rev then s
    else
      let s := takeOver (s.register b none) i
      s.setSession i (discard (s.session i))

/-- `onUpdate`: a delete, and a write of the broker's own, say nothing. -/
def onUpdate (s : State κ) (b : Broker) (rev : Nat) : Option Record → State κ
  | none => s
  | some r => if r.owner = b then s else sessionLost s b rev

/-- `attach`, with the close of the connection it displaces. -/
def attach (s : State κ) (i : SessionID) (c : κ) : State κ :=
  let prev := (s.session i).conn.filter fun prev => prev ≠ c
  (s.setSession i { s.session i with conn := some c, disconnectedAt := 0 }).closeOpt prev

/-- `detach`: only the connection that has the session lets it go. -/
def detach (sess : Session κ) (c : κ) (now : Nat) : Session κ :=
  if sess.conn = some c then { sess with conn := none, disconnectedAt := now } else sess

end Functions

/-! ## Steps -/

section Steps

variable {κ : Type} [DecidableEq κ]

/-- What happens next. -/
inductive Act (κ : Type)
  | connect (c : κ) (b : Broker) (expiry : Nat)
  | takeOverSession (c : κ) (now : Nat)
  | claim (c : κ) (gap now : Nat) (ownerAlive : Bool) (queueMaxAge : Nat)
  | newSession (c : κ)
  | bindRecord (c : κ)
  | setExpiry (c : κ)
  | attach (c : κ)
  | registerSession (c : κ)
  /-- `resumeSubscriptions` rebuilds the next filter. -/
  | restore (c : κ)
  /-- It is done: `setUnrestored(nil)`. -/
  | restored (c : κ)
  | connack (c : κ)
  | subscribe (c : κ) (sub : StoredSubscription)
  | unsubscribe (c : κ) (filter : String)
  /-- A write of the record begins, by a connection or for a late copy. -/
  | snapshot (c : κ) (kind : Kind) (live : Live)
  | late (i : SessionID) (live : Live)
  | store (i : SessionID) (gap : Nat)
  | commit (i : SessionID)
  | close (c : κ)
  /-- `finish` up to `detach`. -/
  | finish (c : κ) (now : Nat)
  /-- The end of `finish`: a session with no Session Expiry Interval goes with the connection. -/
  | discard (c : κ)
  /-- The watch tells broker `b` of the next write. -/
  | watch (b : Broker)

/-- The compare-and-swap of `claim`, with Clean Start 0. -/
def claim (s : State κ) (c : κ) (q : Claim) (gap expiry : Nat) (sess : Option SessionID) :
    State κ :=
  let fresh := Store.createFresh q.owner q.now
  match s.bucket.get with
  | none =>
    match s.bucket.create gap fresh with
    | some b => (s.wrote b).goto c (.making expiry sess fresh b.last false)
    | none => s
  | some (r, rev) =>
    if r.resumable q.now then
      match s.bucket.update gap (Store.claimRecord q r).1 rev with
      | some b => (s.wrote b).goto c (.making expiry sess (Store.claimRecord q r).1 b.last true)
      | none => s
    else
      match s.bucket.delete gap rev with
      | some b => (s.wrote b).goto c (.recreating expiry sess)
      | none => s

/-- `createFresh` after the delete; when another claim was first, everything is decided again. -/
def recreate (s : State κ) (c : κ) (q : Claim) (gap expiry : Nat) (sess : Option SessionID) :
    State κ :=
  let fresh := Store.createFresh q.owner q.now
  match s.bucket.create gap fresh with
  | some b => (s.wrote b).goto c (.making expiry sess fresh b.last false)
  | none => s.goto c (.claiming expiry sess)

/-- The session of the handshake, and what is to be rebuilt in it. -/
def newSession (s : State κ) (expiry : Nat) (sess : Option SessionID) (read : Record) (rev : Nat)
    (present : Bool) : State κ × Hs :=
  match sess with
  | none =>
    let stored := if present then read.subscriptions else []
    ({ s with
        session := update s.session s.nextSession { unrestored := stored }
        nextSession := s.nextSession + 1 },
      ⟨s.nextSession, read, rev, present, stored, expiry⟩)
  | some i => (s, ⟨i, read, rev, true, (s.session i).unrestored, expiry⟩)

/-- The store write of session `i`. -/
def storeWrite (s : State κ) (i : SessionID) (gen : Nat) (record : Record) (put : Option Record)
    (rev gap : Nat) : State κ :=
  let sess := s.session i
  match put with
  | some r =>
    match s.bucket.update gap r rev with
    | some b => (s.wrote b).setSession i { sess with write := some (.committing gen record b.last) }
    | none => s.setSession i { sess with write := none }
  | none =>
    match s.bucket.delete gap rev with
    | some b => (s.wrote b).setSession i { sess with write := some (.committing gen record rev) }
    | none => s.setSession i { sess with write := none }

/-- The handshake of a connection whose session is bound to it. -/
def Place.bound : Place → Option Hs
  | .naming h => some h
  | .attaching h => some h
  | .registering h => some h
  | .restoring h _ => some h
  | .answering h => some h
  | .serving h => some h
  | .ended h => some h
  | _ => none

/-- What a snapshot folds in: the subscriptions and the expiry are the session's own. -/
def liveOf (sess : Session κ) (live : Live) : Live :=
  { live with subscriptions := sess.subs, expirySeconds := sess.expirySeconds }

/-- One step of the brokers, the connections and the bucket. -/
def step (s : State κ) : Act κ → Option (State κ)
  | .connect c b expiry =>
    match (s.conns c).place with
    | .offline =>
      some (s.setConn c { s.conns c with broker := b, place := .takingOver expiry })
    | _ => none
  | .takeOverSession c now =>
    match (s.conns c).place with
    | .takingOver expiry =>
      let (s', sess) := takeOverSession s (s.conns c).broker now
      some (s'.goto c (.claiming expiry sess))
    | _ => none
  | .claim c gap now ownerAlive queueMaxAge =>
    let q : Claim := ⟨(s.conns c).broker, now, ownerAlive, queueMaxAge, false⟩
    match (s.conns c).place with
    | .claiming expiry sess => some (claim s c q gap expiry sess)
    | .recreating expiry sess => some (recreate s c q gap expiry sess)
    | _ => none
  | .newSession c =>
    match (s.conns c).place with
    | .making expiry sess read rev present =>
      let (s', h) := newSession s expiry sess read rev present
      some (s'.goto c (.binding h))
    | _ => none
  | .bindRecord c =>
    match (s.conns c).place with
    | .binding h =>
      let sess := s.session h.sess
      let s' := s.setSession h.sess
        { sess with toBound := sess.toBound.bindRecord h.read h.rev, saved := h.resumed }
      some (s'.setConn c { s.conns c with gen := sess.claimGen + 1, place := .naming h })
    | _ => none
  | .setExpiry c =>
    match (s.conns c).place with
    | .naming h =>
      some ((s.setSession h.sess { s.session h.sess with expirySeconds := h.expiry }).goto c
        (.attaching h))
    | _ => none
  | .attach c =>
    match (s.conns c).place with
    | .attaching h => some ((attach s h.sess c).goto c (.registering h))
    | _ => none
  | .registerSession c =>
    match (s.conns c).place with
    | .registering h =>
      some ((s.register (s.conns c).broker (some h.sess)).goto c
        (if h.resumed && !h.stored.isEmpty then .restoring h h.stored else .answering h))
    | _ => none
  | .restore c =>
    match (s.conns c).place with
    | .restoring h (sub :: todo) =>
      let sess := s.session h.sess
      if sess.conn = some c then
        some ((s.setSession h.sess { sess with subs := install sess.subs sub }).goto c
          (.restoring h todo))
      else some ((s.close c).goto c .failed)
    | _ => none
  | .restored c =>
    match (s.conns c).place with
    | .restoring h [] =>
      some ((s.setSession h.sess { s.session h.sess with unrestored := [] }).goto c
        (.answering h))
    | _ => none
  | .connack c =>
    match (s.conns c).place with
    | .answering h =>
      if (s.conns c).closed then some (s.goto c .failed)
      else if h.resumed then
        some ({ s with log :=
          ⟨filters (s.session h.sess).subs, filters h.read.subscriptions⟩ :: s.log }.goto c
            (.serving h))
      else some (s.goto c (.serving h))
    | _ => none
  | .subscribe c sub =>
    match (s.conns c).place with
    | .serving h =>
      let sess := s.session h.sess
      if sess.conn = some c then
        some (s.setSession h.sess (sess.setSubs (install sess.subs sub)))
      else none
    | _ => none
  | .unsubscribe c filter =>
    match (s.conns c).place with
    | .serving h =>
      let sess := s.session h.sess
      if sess.conn = some c then
        some (s.setSession h.sess (sess.setSubs (remove sess.subs filter)))
      else none
    | _ => none
  | .snapshot c kind live =>
    match (s.conns c).place.bound with
    | some h =>
      let sess := s.session h.sess
      match sess.write, sess.snapshot (s.conns c).gen with
      | none, some (r, rev) =>
        let w := kind.write r (liveOf sess live)
        some (s.setSession h.sess { sess with
          write := some (.storing (s.conns c).gen w.1 w.2 rev)
          saving := sess.unrestored.isEmpty && !sess.discarded })
      | _, _ => none
    | none => none
  | .late i live =>
    let sess := s.session i
    match sess.write, sess.record with
    | none, some r =>
      if r.attached || (live.away.awayLateSeq = 0 && live.away.replayCursor = 0) then none
      else
        some (s.setSession i { sess with
          write := some (.storing sess.claimGen (Store.lateRecord r live)
            (some (Store.lateRecord r live)) sess.rev)
          saving := sess.saved })
    | _, _ => none
  | .store i gap =>
    match (s.session i).write with
    | some (.storing gen record put rev) => some (storeWrite s i gen record put rev gap)
    | _ => none
  | .commit i =>
    match (s.session i).write with
    | some (.committing gen record rev) =>
      let sess := s.session i
      some (s.setSession i { sess with
        toBound := { sess.toBound.commitRecord gen record rev with write := none }
        saved := if gen = sess.claimGen then sess.saving else sess.saved })
    | _ => none
  | .close c => some (s.close c)
  | .finish c now =>
    match (s.conns c).place.bound with
    | some h =>
      if (s.conns c).closed then
        some ((s.setSession h.sess (detach (s.session h.sess) c now)).goto c (.ended h))
      else none
    | none => none
  | .discard c =>
    match (s.conns c).place with
    | .ended h =>
      if (s.session h.sess).expirySeconds = 0 then
        let s' := s.setSession h.sess (discard (s.session h.sess))
        some (if s.registered (s.conns c).broker = some h.sess
          then s'.register (s.conns c).broker none else s')
      else none
    | _ => none
  | .watch b =>
    match s.writes[s.seen b]? with
    | some (rev, put) =>
      some { onUpdate s b rev put with seen := update s.seen b (s.seen b + 1) }
    | none => none

end Steps

/-! ## Statements -/

section Statements

variable {κ : Type}

/-- The session a handshake has claimed the record of and not attached to. -/
def Place.awaits : Place → Option SessionID
  | .making _ sess _ _ _ => sess
  | .binding h => some h.sess
  | .naming h => some h.sess
  | .attaching h => some h.sess
  | _ => none

/-- The handshake of a place between `attach` and the CONNACK, with the subscriptions it has still
to rebuild. -/
def Place.pending : Place → Option (Hs × List StoredSubscription)
  | .registering h => some (h, h.stored)
  | .restoring h todo => some (h, todo)
  | .answering h => some (h, [])
  | _ => none

/-- Some handshake has claimed the record for session `i` and not attached. -/
def State.Waiting (s : State κ) (i : SessionID) : Prop :=
  ∃ c, (s.conns c).place.awaits = some i

/-- The filters a session serves or has yet to rebuild. -/
def Session.allFilters (sess : Session κ) : Finset String :=
  filters sess.subs ∪ filters sess.unrestored

/-- Session `i` is up to date with the bucket: nobody has written the record since it did, the
record may be resumed, and no change of the filters has come since it was read or drawn up. -/
def State.UpToDate (s : State κ) (i : SessionID) (now : Nat) : Prop :=
  (s.session i).rev = s.bucket.last ∧ (s.session i).saved = true ∧
    ∃ r ∈ (s.session i).record, r.resumable now = true
  deriving Decidable

/-- A step that leaves a resumption alone. A session in memory is up to date when a handshake that
resumes it claims the record; from there until that handshake has attached, no SUBSCRIBE or
UNSUBSCRIBE of a displaced connection changes its filters and nothing tears it down. -/
def Undisturbed (s : State κ) : Act κ → Prop
  | .claim c _ now _ _ =>
    match (s.conns c).place with
    | .claiming _ (some i) => s.UpToDate i now
    | .recreating _ (some i) => s.UpToDate i now
    | _ => True
  | .takeOverSession c now =>
    match (s.conns c).place, s.registered (s.conns c).broker with
    | .takingOver _, some i =>
      Handshake.claimForResume (s.session i).toSession now = none → ¬ s.Waiting i
    | _, _ => True
  | .subscribe c sub =>
    match (s.conns c).place with
    | .serving h => s.Waiting h.sess → sub.filter ∈ (s.session h.sess).allFilters
    | _ => True
  | .unsubscribe c filter =>
    match (s.conns c).place with
    | .serving h => s.Waiting h.sess → filter ∉ filters (s.session h.sess).subs
    | _ => True
  | .discard c =>
    match (s.conns c).place with
    | .ended h =>
      ¬ s.Waiting h.sess ∧ ∀ c', ∀ p ∈ (s.conns c').place.pending, p.1.sess = h.sess →
        (s.conns c').closed = true
    | _ => True
  | .watch b =>
    match s.writes[s.seen b]?, s.registered b with
    | some (rev, some r), some i =>
      r.owner ≠ b → (s.session i).supersedes rev = false → ¬ s.Waiting i
    | _, _ => True
  | _ => True

end Statements

end Natsmqtt5.Resume
