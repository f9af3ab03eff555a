import Natsmqtt5.Kv
import Natsmqtt5.Lts
import Natsmqtt5.Store.Session

/-!
# The two fences of a record write

Claims of one client's record by any number of connections, on any brokers, with the writes of the
connections that hold it (`sessionstore.go`, `broker.go`, `session.go`). A write's three steps are
those of `Session.lean`; a claim is a read and a compare-and-swap, tried again when it loses.

Two fences keep a stale writer out. Between brokers it is the bucket's revision: a write names the
revision its session holds. Between the connections of one broker it is `claimGen`: `bindRecord`
raises it, and `snapshot` and `commitRecord` refuse a connection with an older one.

The model numbers the claims as they are written, and keeps which claim each revision was written
under (`under`), which claim each generation of a session stands for (`claimOf`), and the log of
the bucket's writes. The code reads none of them.

`FenceProof.lean` has the invariant and the results.
-/

namespace Natsmqtt5.Store.Fence

open Function

/-- A session, with the claim each of its generations was bound with. -/
structure Session extends Bound where
  claimOf : Nat → Nat := fun _ => 0

/-- How far a connection has come with its claim. -/
inductive Place
  /-- The next attempt of `claim` comes next. -/
  | idle (attempt : Nat)
  /-- `claim` has read the entry. -/
  | read (q : Claim) (attempt : Nat) (entry : Option (Record × Nat))
  /-- `claim` has deleted a record it may not resume; `createFresh` comes next. -/
  | deleted (q : Claim) (attempt : Nat)
  /-- Claim `k` is written; `bindRecord` comes next. -/
  | claimed (record : Record) (rev : Nat) (k : Nat)
  /-- Claim `k` is bound to session `i`, with the generation to present. -/
  | bound (i : Nat) (gen : Nat) (k : Nat)
  deriving DecidableEq

/-- A successful write to the bucket. -/
inductive Event
  | claimed (k : Nat) (record : Record)
  | wrote (k : Nat) (put : Option Record)
  /-- A claim deleted a record it may not resume. -/
  | cleared

structure State (κ : Type) where
  bucket : Kv.Bucket Record
  session : Nat → Session
  place : κ → Place
  claims : Nat
  under : Nat → Option Nat
  log : List Event

/-- An empty bucket, and no connection yet. -/
def State.empty {κ : Type} : State κ where
  bucket := {}
  session := fun _ => {}
  place := fun _ => .idle 0
  claims := 0
  under := fun _ => none
  log := []

def claimAttempts : Nat := 5

section Steps

variable {κ : Type} [DecidableEq κ]

def State.goto (s : State κ) (c : κ) (p : Place) : State κ :=
  { s with place := update s.place c p }

def State.setSession (s : State κ) (i : Nat) (sess : Session) : State κ :=
  { s with session := update s.session i sess }

/-- A claim's own write went through. -/
def State.claimWritten (s : State κ) (c : κ) (b : Kv.Bucket Record) (record : Record) : State κ :=
  { s with
    bucket := b
    claims := s.claims + 1
    under := update s.under b.last (some (s.claims + 1))
    log := .claimed (s.claims + 1) record :: s.log
    place := update s.place c (.claimed record b.last (s.claims + 1)) }

/-- `createFresh`: a lost race is the next attempt. -/
def tryCreate (s : State κ) (c : κ) (q : Claim) (attempt gap : Nat) : State κ :=
  let record := createFresh q.owner q.now
  match s.bucket.create gap record with
  | some b => s.claimWritten c b record
  | none => s.goto c (.idle (attempt + 1))

/-- The compare-and-swap of `claim`, after its read. -/
def claimWrite (s : State κ) (c : κ) (q : Claim) (attempt gap : Nat) :
    Option (Record × Nat) → State κ
  | none => tryCreate s c q attempt gap
  | some (r, rev) =>
    if q.cleanStart || !r.resumable q.now then
      match s.bucket.delete gap rev with
      | some b => { s with bucket := b, log := .cleared :: s.log }.goto c (.deleted q attempt)
      | none => s.goto c (.idle (attempt + 1))
    else
      let record := (claimRecord q r).1
      match s.bucket.update gap record rev with
      | some b => s.claimWritten c b record
      | none => s.goto c (.idle (attempt + 1))

/-- `bindRecord` of claim `k`. -/
def bindRecord (sess : Session) (record : Record) (rev k : Nat) : Session where
  toBound := sess.toBound.bindRecord record rev
  claimOf := update sess.claimOf (sess.claimGen + 1) k

/-- `commitRecord`, and the end of the write. -/
def commitRecord (sess : Session) (gen : Nat) (record : Record) (rev : Nat) : Session :=
  { sess with toBound := { sess.toBound.commitRecord gen record rev with write := none } }

/-- The store write: `save` and `release` are one compare-and-swap. A delete returns the revision
it was given. -/
def storeWrite (s : State κ) (i gen : Nat) (record : Record) (put : Option Record) (rev gap : Nat) :
    State κ :=
  let sess := s.session i
  match put with
  | some r =>
    match s.bucket.update gap r rev with
    | some b =>
      { s with
        bucket := b
        under := update s.under b.last (some (sess.claimOf gen))
        log := .wrote (sess.claimOf gen) (some r) :: s.log }.setSession i
          { sess with write := some (.committing gen record b.last) }
    | none => s.setSession i { sess with write := none }
  | none =>
    match s.bucket.delete gap rev with
    | some b =>
      { s with bucket := b, log := .wrote (sess.claimOf gen) none :: s.log }.setSession i
        { sess with write := some (.committing gen record rev) }
    | none => s.setSession i { sess with write := none }

inductive Act (κ : Type)
  /-- An attempt of `claim` reads the entry. -/
  | get (c : κ) (q : Claim)
  /-- It writes: the claim, or the delete before a fresh record. -/
  | claimWrite (c : κ) (gap : Nat)
  /-- The claimed record is bound to a session of the connection's broker. -/
  | bindRecord (c : κ) (i : Nat)
  | snapshot (c : κ) (kind : Kind) (live : Live)
  /-- `persistLateCopy` starts on a session. -/
  | late (i : Nat) (live : Live)
  | store (i : Nat) (gap : Nat)
  | commit (i : Nat)

def step (s : State κ) : Act κ → Option (State κ)
  | .get c q =>
    match s.place c with
    | .idle attempt =>
      if attempt < claimAttempts then some (s.goto c (.read q attempt s.bucket.get)) else none
    | _ => none
  | .claimWrite c gap =>
    match s.place c with
    | .read q attempt entry => some (claimWrite s c q attempt gap entry)
    | .deleted q attempt => some (tryCreate s c q attempt gap)
    | _ => none
  | .bindRecord c i =>
    match s.place c with
    | .claimed record rev k =>
      let sess := bindRecord (s.session i) record rev k
      some ((s.setSession i sess).goto c (.bound i sess.claimGen k))
    | _ => none
  | .snapshot c kind live =>
    match s.place c with
    | .bound i gen _ =>
      match (s.session i).write, (s.session i).snapshot gen with
      | none, some (r, rev) =>
        let w := kind.write r live
        some (s.setSession i { s.session i with write := some (.storing gen w.1 w.2 rev) })
      | _, _ => none
    | _ => none
  | .late i live =>
    match (s.session i).write, (s.session i).record with
    | none, some r =>
      if r.attached || (live.away.awayLateSeq = 0 && live.away.replayCursor = 0) then none
      else
        some (s.setSession i { s.session i with
          write := some (.storing (s.session i).claimGen (lateRecord r live)
            (some (lateRecord r live)) (s.session i).rev) })
    | _, _ => none
  | .store i gap =>
    match (s.session i).write with
    | some (.storing gen record put rev) => some (storeWrite s i gen record put rev gap)
    | _ => none
  | .commit i =>
    match (s.session i).write with
    | some (.committing gen record rev) =>
      some (s.setSession i (commitRecord (s.session i) gen record rev))
    | _ => none

end Steps

/-! ## Statements -/

/-- The number of the latest claim a log has. -/
def latestClaim : List Event → Nat
  | [] => 0
  | .claimed k _ :: _ => k
  | .wrote _ _ :: log => latestClaim log
  | .cleared :: log => latestClaim log

/-- No write went through under a claim when a later claim had been written. -/
def Fenced : List Event → Prop
  | [] => True
  | .wrote k _ :: log => k = latestClaim log ∧ Fenced log
  | .claimed _ _ :: log => Fenced log
  | .cleared :: log => Fenced log

/-- What the newest write of a log leaves in the bucket. -/
def result : List Event → Option Record
  | [] => none
  | .claimed _ record :: _ => some record
  | .wrote _ put :: _ => put
  | .cleared :: _ => none

/-- A write of generation `gen` is between the store and the commit. -/
def Session.Committing (sess : Session) (gen : Nat) : Prop :=
  ∃ record rev, sess.write = some (.committing gen record rev)

/-- `bindRecord` is not given a revision below the one the session holds. -/
def InOrder {κ : Type} (s : State κ) : Act κ → Prop
  | .bindRecord c i =>
    match s.place c with
    | .claimed _ rev _ => (s.session i).record.isSome = true → (s.session i).rev ≤ rev
    | _ => True
  | _ => True

instance {κ : Type} (s : State κ) (a : Act κ) : Decidable (InOrder s a) := by
  unfold InOrder
  split <;> first | infer_instance | (split <;> infer_instance)

end Natsmqtt5.Store.Fence
