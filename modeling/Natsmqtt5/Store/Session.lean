import Natsmqtt5.Store.Record

/-!
# A session and its record

What `session` (`session.go`) keeps of the record this broker claimed: the record, the revision to
write it at, the generation of the claim, and the write under way. A write is three steps:
`snapshot` (or `lateRecord`) under the session's lock, the compare-and-swap in the bucket, and
`commitRecord` under the lock again. `persistMu` is held over all three, so a session has at most
one write under way.
-/

namespace Natsmqtt5.Store

/-- A write under way, with the generation its writer presents. -/
inductive Write
  /-- The store write comes next, at `rev`: `put` is written, or the key deleted. -/
  | storing (gen : Nat) (record : Record) (put : Option Record) (rev : Nat)
  /-- `commitRecord` comes next. -/
  | committing (gen : Nat) (record : Record) (rev : Nat)
  deriving DecidableEq

/-- The fields of `session` that bind it to its record. -/
structure Bound where
  record : Option Record := none
  rev : Nat := 0
  claimGen : Nat := 0
  write : Option Write := none

/-- The writes of a connection that holds the record. -/
inductive Kind
  /-- `persistSession`. -/
  | persist
  /-- `checkpointSession`, with the offline queue on or off. -/
  | checkpoint (queue : Bool) (room : Nat)
  /-- `releaseStoredSession`. -/
  | release (room now : Nat)

/-- What a write puts into the bucket (`none` deletes), and the record `commitRecord` is given. -/
def Kind.write (r : Record) (l : Live) : Kind → Record × Option Record
  | .persist => (snapshotRecord r l, some (snapshotRecord r l))
  | .checkpoint queue room => (checkpointRecord queue room r l,
      some (checkpointRecord queue room r l))
  | .release room now =>
    match releaseRecord room now r l with
    | some record => (record, some record)
    | none => (snapshotRecord r l, none)

/-- A write that puts a record puts the one it commits. -/
theorem Kind.write_put {r put : Record} {l : Live} {kind : Kind}
    (h : (kind.write r l).2 = some put) : put = (kind.write r l).1 := by
  cases kind with
  | persist => exact (Option.some.inj h).symm
  | checkpoint queue room => exact (Option.some.inj h).symm
  | release room now =>
    simp only [Kind.write] at h ⊢
    split at h
    · exact (Option.some.inj h).symm
    · cases h

/-- Every write says what the session is subscribed to. -/
theorem Kind.write_subscriptions (r : Record) (l : Live) (kind : Kind) :
    (kind.write r l).1.subscriptions = l.subscriptions := by
  cases kind with
  | persist => rfl
  | checkpoint queue room =>
    simp only [Kind.write, checkpointRecord, spillInto]
    split <;> rfl
  | release room now =>
    simp only [Kind.write]
    split
    · rename_i record h
      simp only [releaseRecord, Option.ite_none_left_eq_some, Option.some.injEq] at h
      rw [← h.2]
      rfl
    · rfl

/-- The record a write commits. -/
def Write.record : Write → Record
  | .storing _ record _ _ => record
  | .committing _ record _ => record

/-- `bindRecord`: its new `claimGen` is what the claiming connection presents. -/
def Bound.bindRecord (sess : Bound) (record : Record) (rev : Nat) : Bound :=
  { sess with record := some record, rev := rev, claimGen := sess.claimGen + 1 }

/-- `snapshot`: the record and the revision to write it at, unless the claim is not the current
one. -/
def Bound.snapshot (sess : Bound) (gen : Nat) : Option (Record × Nat) :=
  match sess.record with
  | none => none
  | some r => if gen = sess.claimGen then some (r, sess.rev) else none

/-- `commitRecord`: unless the record was claimed again while the write was in flight. -/
def Bound.commitRecord (sess : Bound) (gen : Nat) (record : Record) (rev : Nat) : Bound :=
  if gen = sess.claimGen then { sess with record := some record, rev := rev } else sess

/-- `supersedes`: the session's record is at least as new as revision `rev`. -/
def Bound.supersedes (sess : Bound) (rev : Nat) : Bool :=
  sess.record.isSome && decide (rev ≠ 0) && decide (rev ≤ sess.rev)

/-- What a snapshot says of the session. -/
theorem Bound.snapshot_eq_some {sess : Bound} {gen rev : Nat} {r : Record} :
    sess.snapshot gen = some (r, rev) ↔
      sess.record = some r ∧ gen = sess.claimGen ∧ rev = sess.rev := by
  unfold snapshot
  cases hr : sess.record with
  | none => simp
  | some r' =>
    by_cases hg : gen = sess.claimGen
    · simp [hg, eq_comm]
    · simp [hg]

end Natsmqtt5.Store
