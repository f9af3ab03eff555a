import Natsmqtt5.Keyed
import Natsmqtt5.Lts

/-!
# The members of a shared subscription

`join`, `leave`, `leaveGroup`, `endGroup` and `refreshMembers` (`sharedmembers.go:136-283`,
`415-546`) with `joinGroup` (`shared.go:72-90`), for one shared filter and any number of brokers,
sessions and connections. A member has an entry in the members bucket under its Client Identifier
(`client`), with the instance of the session that wrote it: `s.instance` is new for every session,
so the session itself stands for it. The group's consumer is the backlog.

A SUBSCRIBE, an UNSUBSCRIBE, a removal by `Reauthorize` and a refresh are calls in progress
(`Call`), each at the place of its next request to the bucket, to the lock or to the session's
subscriptions; `run` takes that one step of a call and `fail` lets the request fail, which then had
no effect. A lock is always taken and released, and an entry does not expire.
-/

namespace Natsmqtt5.Shared

open Function

/-! ## State -/

/-- An entry of the group in the members bucket. -/
structure Entry (γ σ : Type) where
  client : γ
  written : σ
  rev : Nat

/-- A call in progress, named for what it does next. -/
inductive Call (σ κ : Type)
  /-- `joinGroup`, for a SUBSCRIBE of connection `c`: `members.join`. -/
  | joining (c : κ) (s : σ)
  | locking (c : κ) (s : σ)
  /-- `sharedConsumerRetrying`, under the lock. -/
  | creating (c : κ) (s : σ)
  /-- The deferred unlock; `made` is whether there is a consumer to return. -/
  | returning (c : κ) (s : σ) (made : Bool)
  /-- `installSubscription`. `joinGroup` returned after the consumer was deleted `deleted` times. -/
  | installing (c : κ) (s : σ) (deleted : Nat)
  /-- `leaveGroup`: whether the session holds the filter. -/
  | leaving (s : σ)
  /-- `members.leave`: the entry is read. -/
  | reading (s : σ)
  | deleting (s : σ) (rev : Nat)
  /-- `members.leave`: `hasMember`. -/
  | counting (s : σ)
  /-- `endGroup`: the lock. -/
  | ending (s : σ)
  | recounting (s : σ)
  /-- `endGroup`: `DeleteConsumer`. -/
  | dropping (s : σ)
  | unlocking (s : σ)
  /-- `refreshMembers`, with the subscription read: `members.join`. -/
  | refreshing (s : σ)
  /-- `refreshMembers`: whether the session still holds the filter. -/
  | rechecking (s : σ)
deriving DecidableEq

/-- The group in the two buckets and the stream, the sessions, and the calls in progress. -/
structure State (γ σ κ θ : Type) where
  members : List (Entry γ σ) := []
  /-- The revision of the bucket's last write. -/
  last : Nat := 0
  /-- The call that holds the group's lock. -/
  lock : Option θ := none
  consumer : Bool := false
  /-- How often `DeleteConsumer` was called. -/
  deleted : Nat := 0
  /-- `session.conn`. -/
  conn : σ → Option κ := fun _ => none
  /-- `session.subs` at the filter: how often the consumer had been deleted when the subscription's
  `joinGroup` returned. -/
  subs : σ → Option Nat := fun _ => none
  calls : θ → Option (Call σ κ) := fun _ => none

/-- What happens next, `t` being the call it happens in. -/
inductive Act (σ κ θ : Type)
  /-- A connection takes the session, from another one or not. -/
  | attach (s : σ) (c : κ)
  | detach (s : σ)
  | subscribe (t : θ) (c : κ) (s : σ)
  | unsubscribe (t : θ) (c : κ) (s : σ)
  /-- `removeSubscription` and `leaveGroup`: `Reauthorize`, `discard`, a SUBSCRIBE that could not be
  confirmed. -/
  | remove (t : θ) (s : σ)
  /-- `discardMoved`: the subscriptions go, and the entries stay for the broker that has the session
  now. -/
  | moved (s : σ)
  | refresh (t : θ) (s : σ)
  | run (t : θ)
  | fail (t : θ)

variable {γ σ κ θ : Type}

section Model

variable [DecidableEq γ] [DecidableEq σ] [DecidableEq κ] [DecidableEq θ]

namespace State

/-- A call goes on to another step, or ends. -/
def setCall (st : State γ σ κ θ) (t : θ) (c : Option (Call σ κ)) : State γ σ κ θ :=
  { st with calls := update st.calls t c }

/-- The subscription of a session is installed or removed. -/
def setSub (st : State γ σ κ θ) (s : σ) (n : Option Nat) : State γ σ κ θ :=
  { st with subs := update st.subs s n }

/-- The entry under a Client Identifier. -/
def entry (st : State γ σ κ θ) (g : γ) : Option (Entry γ σ) :=
  Keyed.find Entry.client st.members g

/-- `members.join`: a put, whatever is there. -/
def put (st : State γ σ κ θ) (g : γ) (s : σ) : State γ σ κ θ :=
  { st with members := Keyed.put Entry.client st.members ⟨g, s, st.last + 1⟩, last := st.last + 1 }

/-- The entry goes, in a write of its own. -/
def delete (st : State γ σ κ θ) (g : γ) : State γ σ κ θ :=
  { st with members := Keyed.erase Entry.client st.members g, last := st.last + 1 }

end State

/-! ## Steps -/

variable (client : σ → γ)

/-- The next step of call `t`, which is at `c`. -/
def Call.run (st : State γ σ κ θ) (t : θ) : Call σ κ → Option (State γ σ κ θ)
  | .joining c s => some ((st.put (client s) s).setCall t (some (.locking c s)))
  | .locking c s =>
    if st.lock = none then some ({ st with lock := some t }.setCall t (some (.creating c s)))
    else none
  | .creating c s => some ({ st with consumer := true }.setCall t (some (.returning c s true)))
  | .returning c s made =>
    some ({ st with lock := none }.setCall t
      (some (if made then .installing c s st.deleted else .leaving s)))
  | .installing c s n =>
    if st.conn s = some c then some ((st.setSub s (some n)).setCall t none)
    else some (st.setCall t (some (.leaving s)))
  | .leaving s =>
    some (st.setCall t (if (st.subs s).isSome then none else some (.reading s)))
  | .reading s =>
    match st.entry (client s) with
    | some e => some (st.setCall t (if e.written = s then some (.deleting s e.rev) else none))
    | none => some (st.setCall t (some (.counting s)))
  | .deleting s rev =>
    -- `LastRevision`: an entry written since it was read stays
    if (st.entry (client s)).map Entry.rev = some rev then
      some ((st.delete (client s)).setCall t (some (.counting s)))
    else some (st.setCall t none)
  | .counting s => some (st.setCall t (if st.members.isEmpty then some (.ending s) else none))
  | .ending s =>
    if st.lock = none then some ({ st with lock := some t }.setCall t (some (.recounting s)))
    else none
  | .recounting s =>
    some (st.setCall t (some (if st.members.isEmpty then .dropping s else .unlocking s)))
  | .dropping s =>
    some ({ st with consumer := false, deleted := st.deleted + 1 }.setCall t (some (.unlocking s)))
  | .unlocking _ => some ({ st with lock := none }.setCall t none)
  | .refreshing s => some ((st.put (client s) s).setCall t (some (.rechecking s)))
  | .rechecking s =>
    some (st.setCall t (if (st.subs s).isSome then none else some (.leaving s)))

/-- What a call does when its request fails. -/
def Call.fail : Call σ κ → Option (Option (Call σ κ))
  -- `bindFailed`
  | .joining _ s => some (some (.leaving s))
  | .creating c s => some (some (.returning c s false))
  | .reading _ | .deleting _ _ | .counting _ | .refreshing _ => some none
  | .recounting s | .dropping s => some (some (.unlocking s))
  | _ => none

/-- One step of the group. -/
def step (st : State γ σ κ θ) : Act σ κ θ → Option (State γ σ κ θ)
  | .attach s c => some { st with conn := update st.conn s (some c) }
  | .detach s => some { st with conn := update st.conn s none }
  | .subscribe t c s =>
    if (st.calls t).isNone then some (st.setCall t (some (.joining c s))) else none
  | .unsubscribe t c s =>
    if (st.calls t).isNone ∧ st.conn s = some c ∧ (st.subs s).isSome then
      some ((st.setSub s none).setCall t (some (.leaving s)))
    else none
  | .remove t s =>
    if (st.calls t).isNone ∧ (st.subs s).isSome then
      some ((st.setSub s none).setCall t (some (.leaving s)))
    else none
  | .moved s => some (st.setSub s none)
  | .refresh t s =>
    if (st.calls t).isNone ∧ (st.subs s).isSome then some (st.setCall t (some (.refreshing s)))
    else none
  | .run t => (st.calls t).bind (Call.run client st t)
  | .fail t => ((st.calls t).bind Call.fail).map (st.setCall t)

end Model

namespace State

variable {st : State γ σ κ θ} {t u : θ} {s s' : σ} {g g' : γ}

theorem setCall_self [DecidableEq θ] (c : Option (Call σ κ)) : (st.setCall t c).calls t = c :=
  update_self ..

theorem setCall_of_ne [DecidableEq θ] (h : u ≠ t) (c : Option (Call σ κ)) :
    (st.setCall t c).calls u = st.calls u :=
  update_of_ne h ..

theorem setSub_self [DecidableEq σ] (n : Option Nat) : (st.setSub s n).subs s = n :=
  update_self ..

theorem setSub_of_ne [DecidableEq σ] (h : s' ≠ s) (n : Option Nat) :
    (st.setSub s n).subs s' = st.subs s' :=
  update_of_ne h ..

theorem entry_put_self [DecidableEq γ] : (st.put g s).entry g = some ⟨g, s, st.last + 1⟩ :=
  Keyed.find_put_self Entry.client (a := ⟨g, s, st.last + 1⟩)

theorem entry_put_of_ne [DecidableEq γ] (h : g' ≠ g) : (st.put g s).entry g' = st.entry g' :=
  Keyed.find_put_of_ne Entry.client h

theorem entry_delete_self [DecidableEq γ] : (st.delete g).entry g = none :=
  Keyed.find_erase_self Entry.client

theorem entry_delete_of_ne [DecidableEq γ] (h : g' ≠ g) : (st.delete g).entry g' = st.entry g' :=
  Keyed.find_erase_of_ne Entry.client h

theorem entry_of_isEmpty [DecidableEq γ] (h : st.members.isEmpty) : st.entry g = none := by
  unfold entry
  rw [List.isEmpty_iff.mp h]
  rfl

end State

/-! ## Who is a member -/

/-- The session whose SUBSCRIBE the call is in, once its entry is written. -/
@[simp] def Call.joins : Call σ κ → Option σ
  | .locking _ s | .creating _ s | .returning _ s true | .installing _ s _ => some s
  | _ => none

/-- The session whose SUBSCRIBE the call is in, once its consumer is made. -/
@[simp] def Call.made : Call σ κ → Option σ
  | .returning _ s true | .installing _ s _ => some s
  | _ => none

/-- The call is between the lock and the unlock. -/
@[simp] def Call.underLock : Call σ κ → Bool
  | .creating _ _ | .returning _ _ _ | .recounting _ | .dropping _ | .unlocking _ => true
  | _ => false

/-- A session that has the subscription, or a SUBSCRIBE on the way to install it. -/
def Wants (st : State γ σ κ θ) (s : σ) : Prop :=
  st.subs s ≠ none ∨ ∃ t, (st.calls t).bind Call.joins = some s

/-- The same, with its consumer made. -/
def Depends (st : State γ σ κ θ) (s : σ) : Prop :=
  st.subs s ≠ none ∨ ∃ t, (st.calls t).bind Call.made = some s

/-- A leave and a join do not race. When `leaveGroup` finds that the session does not hold the
filter, no SUBSCRIBE of the session is past the write of its entry, and the session has not written
its entry over that of another session of the Client Identifier that wants the filter. No entry of
the session is written until `leave` has read it. -/
def Call.Apart [DecidableEq γ] (client : σ → γ) (st : State γ σ κ θ) : Call σ κ → Prop
  | .leaving s => st.subs s = none → (∀ u, (st.calls u).bind Call.joins ≠ some s) ∧
      ∀ e ∈ st.entry (client s), e.written = s →
        ∀ s', client s' = client s → s' ≠ s → ¬ Wants st s'
  | .joining _ s | .refreshing s => ∀ u, st.calls u ≠ some (.reading s)
  | _ => True

/-- No leave races with a join. -/
def Apart [DecidableEq γ] (client : σ → γ) (st : State γ σ κ θ) : Act σ κ θ → Prop
  | .run t => ∀ c ∈ st.calls t, c.Apart client st
  | _ => True

theorem joins_of_made {c : Call σ κ} {s : σ} (h : c.made = some s) : c.joins = some s := by
  unfold Call.made at h
  split at h
  · exact h
  · exact h
  · cases h

theorem Depends.wants {st : State γ σ κ θ} {s : σ} (h : Depends st s) : Wants st s := by
  refine h.imp id ?_
  rintro ⟨t, ht⟩
  obtain ⟨c, hc, hm⟩ := Option.bind_eq_some_iff.mp ht
  exact ⟨t, Option.bind_eq_some_iff.mpr ⟨c, hc, joins_of_made hm⟩⟩

end Natsmqtt5.Shared
