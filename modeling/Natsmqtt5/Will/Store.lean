import Natsmqtt5.Kv
import Natsmqtt5.Lts

/-!
# The stored Will: who publishes it

`willstore.go`, for one Will record and any number of brokers. The record is a key of a
compare-and-swap bucket. The broker that serves the connection holds a lease on it (`State.lease`,
the `willLease` that `register` returned) and calls `ended`, `fire` and `drop` on it; the others
adopt the record when its owner does not answer (`adopt`), and a new connection of the client
settles it (`settle`). Whoever wins the removal of the record publishes the Will.

A call in progress is a `Task`, at the place of its next request to the store. A request is
answered, or its answer is lost, and then it was applied, was not, or is still to be applied
(`State.late`). A broker that is killed or closing takes no further step; its owner name is never
used again.

Which broker answers a liveness request, how long it was silent, and when the owner's connection
ends is the action's choice: `adopt`, `ended`, `fire` and `drop` may be called at any time and any
number of times. What `Broker.Reauthorize` and a takeover do to the Will in memory is in
`Will/Session.lean`; `sweepStale` and `register` are not here.
-/

namespace Natsmqtt5.Will

/-! ## State -/

/-- `willRecord`, without the Will it is about. -/
structure Record (β : Type) where
  owner : β
  delay : Nat
  ended : Bool := false
  dueAt : Nat := 0
  adopted : Bool := false

/-- `willLease`. -/
structure Lease (β : Type) where
  record : Record β
  rev : Nat

/-- Whose lease a call is about: the connection's own, which `ended` changes, or one
that was read. -/
inductive Claim (β : Type)
  | own
  | read (l : Lease β)

/-- A request to the store. `cancels` tells the removals of `drop` and `settle` from those of
`fire`. -/
inductive Op (β : Type)
  | delete (rev : Nat) (cancels : Bool)
  | update (record : Record β) (rev : Nat)

/-- A call in progress. -/
inductive Task (β : Type)
  /-- `ended`: the update comes next. -/
  | ending (dueAt : Nat)
  /-- `drop`: the removal comes next. -/
  | dropping (l : Claim β)
  /-- `fire`: the removal comes next. -/
  | firing (l : Claim β)
  /-- `fireLater`. -/
  | retrying (l : Claim β)
  /-- `settle`: the read comes next. -/
  | settling (resumed : Bool)
  /-- `settle`, with the record: `ownerAlive` comes next. -/
  | judging (resumed : Bool) (l : Lease β)
  /-- `settle` of a resumption: the removal comes next, and `attempts` more. -/
  | cancelling (l : Lease β) (attempts : Nat)
  /-- The removal lost: the record is read again. -/
  | rereading (attempts : Nat)
  /-- `adopt` of a record of `owner`: the read comes next. -/
  | reading (owner : β)
  /-- `adopt`: the update comes next. -/
  | adopting (l : Lease β)
  /-- `adopt`: the update failed, and the read of what became of it comes next. -/
  | checking (l : Lease β)
  /-- `publishWhenDue`. -/
  | due (l : Lease β)

structure Broker (β : Type) where
  alive : Bool := true
  tasks : List (Task β) := []

structure State (β : Type) where
  bucket : Kv.Bucket (Record β)
  lease : Lease β
  /-- Requests whose caller has given up and that may still be applied. -/
  late : List (Op β) := []
  broker : β → Broker β := fun _ => {}
  /-- How often `publish` was called. -/
  published : Nat := 0
  /-- `drop`, or `settle` of a resumption, has removed the record. -/
  cancelled : Bool := false

/-- The record as `register` wrote it, at revision `rev`. -/
def State.registered {β : Type} (owner : β) (delay rev : Nat) : State β where
  bucket := ⟨rev, some { owner := owner, delay := delay }⟩
  lease := ⟨{ owner := owner, delay := delay }, rev⟩

/-! ## Requests -/

/-- How a request ends for its caller. -/
inductive Result
  | ok (rev : Nat)
  /-- `isRevisionConflict`. -/
  | conflict
  | failed
  deriving DecidableEq

/-- What becomes of a request. -/
inductive Reply
  | answered (gap : Nat)
  /-- It fails; whether it was applied. -/
  | lost (applied : Bool) (gap : Nat)
  /-- It fails, and may be applied later. -/
  | late

variable {β : Type}

def Op.rev : Op β → Nat
  | .delete rev _ => rev
  | .update _ rev => rev

/-- What the key holds after it. -/
def Op.value : Op β → Option (Record β)
  | .delete _ _ => none
  | .update r _ => some r

def Op.cancels : Op β → Bool
  | .delete _ c => c
  | .update _ _ => false

/-- The bucket after a request. -/
def Op.run (b : Kv.Bucket (Record β)) (gap : Nat) : Op β → Option (Kv.Bucket (Record β))
  | .delete rev _ => b.delete gap rev
  | .update r rev => b.update gap r rev

/-- The store applies a request, unless the revision is not the last. -/
def State.apply (s : State β) (gap : Nat) (op : Op β) : Option (State β) :=
  (op.run s.bucket gap).map fun b =>
    { s with bucket := b, cancelled := s.cancelled || op.cancels }

def State.request (s : State β) (op : Op β) : Reply → State β × Result
  | .answered gap =>
    match s.apply gap op with
    | some t => (t, .ok t.bucket.last)
    | none => (s, .conflict)
  | .lost true gap => ((s.apply gap op).getD s, .failed)
  | .lost false _ => (s, .failed)
  | .late => ({ s with late := s.late ++ [op] }, .failed)

def State.read (s : State β) (readable : Bool) : Option (Lease β) :=
  if readable then s.bucket.get.map fun p => ⟨p.1, p.2⟩ else none

def State.revOf (s : State β) : Claim β → Nat
  | .own => s.lease.rev
  | .read l => l.rev

/-! ## Calls -/

/-- What a step of a call finds. -/
structure Env where
  reply : Reply := .answered 0
  /-- `read` is answered. -/
  readable : Bool := true
  /-- What `ownerAlive` says. -/
  ownerAlive : Bool := false
  now : Nat := 0
  /-- `retryFor` is over, and this broker is not cut off. -/
  giveUp : Bool := false

/-- The record `ended` writes. -/
def Record.ending (r : Record β) (dueAt : Nat) :
    Record β := { r with ended := true, dueAt := dueAt }

/-- The record `adopt` writes. -/
def Record.adopt (r : Record β) (b : β) (now : Nat) : Record β :=
  let next := { r with owner := b, adopted := true }
  if next.ended then next else { next with ended := true, dueAt := now + next.delay }

/-- The removal of `fire` and of `fireLater`. -/
def fire (s : State β) (c : Claim β) (e : Env) (giveUp : Bool) : State β × Option (Task β) :=
  match s.request (.delete (s.revOf c) false) e.reply with
  | (s, .ok _) => ({ s with published := s.published + 1 }, none)
  | (s, .conflict) => (s, none)
  | (s, .failed) =>
    if giveUp then ({ s with published := s.published + 1 }, none) else (s, some (.retrying c))

/-- One step of a call on broker `b`: the state after it, and what is left of the call. -/
def advance [DecidableEq β] (s : State β) (b : β) (e : Env) :
    Task β → Option (State β × Option (Task β))
  | .ending dueAt =>
    let next := s.lease.record.ending dueAt
    match s.request (.update next s.lease.rev) e.reply with
    | (s, .ok rev) => some ({ s with lease := ⟨next, rev⟩ }, none)
    | (s, _) => some (s, none)
  | .dropping c => some ((s.request (.delete (s.revOf c) true) e.reply).1, none)
  | .firing c => some (fire s c e false)
  | .retrying c => some (fire s c e e.giveUp)
  | .settling resumed =>
    match s.read e.readable with
    | none => some (s, none)
    | some l =>
      if l.record.owner = b ∧ l.record.adopted = false then some (s, none)
      else some (s, some (.judging resumed l))
  | .judging resumed l =>
    if l.record.ended = false ∧ e.ownerAlive = true then some (s, none)
    else if resumed then some (s, some (.cancelling l 2))
    else some (s, some (.firing (.read l)))
  | .cancelling l attempts =>
    match s.request (.delete l.rev true) e.reply with
    | (s, .conflict) => some (s, some (.rereading attempts))
    | (s, _) => some (s, none)
  | .rereading attempts =>
    match attempts, s.read e.readable with
    | n + 1, some l => some (s, some (.cancelling l n))
    | _, _ => some (s, none)
  | .reading owner =>
    match s.read e.readable with
    | none => some (s, none)
    | some l => if l.record.owner = owner then some (s, some (.adopting l)) else some (s, none)
  | .adopting l =>
    let next := l.record.adopt b e.now
    match s.request (.update next l.rev) e.reply with
    | (s, .ok rev) => some (s, some (.due ⟨next, rev⟩))
    | (s, .conflict) => some (s, none)
    | (s, .failed) => some (s, some (.checking l))
  | .checking l =>
    match s.read e.readable with
    | none => some (s, none)
    | some cur =>
      if cur.record.owner = b ∧ cur.record.adopted = true ∧ cur.rev ≠ l.rev then
        some (s, some (.due cur))
      else some (s, none)
  | .due l => if l.record.dueAt ≤ e.now then some (s, some (.firing (.read l))) else none

/-! ## Steps -/

inductive Act (β : Type)
  -- the broker of the connection
  | ended (dueAt : Nat)
  | fire
  | drop
  -- any broker
  | settle (b : β) (resumed : Bool)
  | adopt (b owner : β)
  /-- The `i`th call of `b` takes its next step. -/
  | run (b : β) (i : Nat) (e : Env)
  /-- The store applies a request whose caller has given up. -/
  | late (i gap : Nat)
  | kill (b : β)

section Step

variable [DecidableEq β]

def State.setBroker (s : State β) (b : β) (k : Broker β) : State β :=
  { s with broker := Function.update s.broker b k }

/-- A call begins. -/
def State.start (s : State β) (b : β) (t : Task β) : Option (State β) :=
  let k := s.broker b
  if k.alive then some (s.setBroker b { k with tasks := k.tasks ++ [t] }) else none

def step (s : State β) : Act β → Option (State β)
  | .ended dueAt => s.start s.lease.record.owner (.ending dueAt)
  | .fire => s.start s.lease.record.owner (.firing .own)
  | .drop => s.start s.lease.record.owner (.dropping .own)
  | .settle b resumed => s.start b (.settling resumed)
  | .adopt b owner => s.start b (.reading owner)
  | .run b i e =>
    match (s.broker b).tasks[i]? with
    | none => none
    | some t => (advance s b e t).map fun p =>
        p.1.setBroker b { s.broker b with tasks := (s.broker b).tasks.eraseIdx i ++ p.2.toList }
  | .late i gap =>
    match s.late[i]? with
    | none => none
    | some op =>
      let s := { s with late := s.late.eraseIdx i }
      some ((s.apply gap op).getD s)
  | .kill b => some (s.setBroker b ⟨false, []⟩)

end Step

end Natsmqtt5.Will
