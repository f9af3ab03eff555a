import Natsmqtt5.Checkpoint.Mutex

/-!
# A skipped checkpoint hides nothing

`checkpointSession` (`checkpoint.go:212-286`) returns early when `c.activity` is what the last
record was written at. That is sound for the changes that are counted after they are made. Several
are not (`Event.counted`, `Call.unseen`): a withdrawal by `Reauthorize` (`session.go:949-988`), a
hand-back at the hold limit (`session.go:656-680`), an acknowledgement of a withdrawn identifier, a
message found too large, one that is tracked after `prepare` has counted it, and whatever a
displaced connection does, which counts for itself.

Results:
* `skipped_checkpoint_hides_nothing`: in every run in which one of these writers changes a part only
  while a count is still to come, or while nobody takes that part to be recorded, and in which no
  write leaves something out, a record whose mark is current says what a checkpoint made now would
  say.
* `skipped_checkpoint_hides`: a withdrawal by `Reauthorize` that the record does not show and the
  next checkpoint skips. `uncounted_hide`: the same of the other writers.
-/

namespace Natsmqtt5.Checkpoint

open Natsmqtt5.Cursor (Mark)

variable {μ θ : Type} {st st' : State μ θ} {t : θ} {c : Call μ}
  {l : Ledger (Session μ) Nat (Value μ)} {rels : List Rel} {i : Part} {p p' : Prepared μ}
  {ready : List (Prepared μ)}

/-! ## What is counted -/

/-- The call has changed the session and `c.activity.Add` is still to come. A QoS 2 delivery is
counted again in `recordQoS2`. -/
def Call.owes : Call μ → Bool
  | .gathering ready | .tracking _ ready => ready.any fun p => p.o.qos2
  | .noting p ready => p.o.qos2 || ready.any fun p => p.o.qos2
  | .bumping _ _ => true
  | _ => false

/-- Some call has a change still to count. -/
def Owed (st : State μ θ) : Prop := ∃ t, (st.calls t).owes = true

/-- The parts an early return could hide. -/
def watched : List Part := [.withdrawn, .cursor, .inflight, .received]

/-- What a checkpoint made now would write. -/
def State.wouldWrite (st : State μ θ) (i : Part) : Value μ i :=
  if i = .cursor ∧ st.queue = false then st.ledger.record i else get i st.session

section Accounts

variable [DecidableEq μ] [DecidableEq θ] (cfg : Config)

/-- The events whose change the source counts in `c.activity` once it is made. -/
def Event.counted : Event μ → Bool
  | .acknowledged _ _ | .awaited _ | .scanned _ | .forwarded _ | .released _ => true
  | .forgotten _ _ | .received _ | .refused _ | .reauthorized _ | .overdue _ | .resendDropped _ _
  | .expired _ _ _ _ | .since _ | .displaced _ => false

/-- The session as the next step of a call leaves it, where the source does not count that: a QoS 1
delivery is counted before it is tracked and noted, and one that is too large is taken back. -/
def Call.unseen (st : State μ θ) (ch : Choice μ) : Call μ → Option (Session μ)
  | .tracking p _ => if p.o.qos2 then none else some (st.session.trackInflight p.o)
  | .noting p _ =>
    if p.o.qos2 then none
    else p.d.id.map fun id => st.session.noteDelivered cfg.window id p.d.seq ch.pruned ch.drop
  | .discarding p _ => some (st.session.completeInflight p.o.packetID false)
  | _ => none

/-- The session as a step leaves it that the source does not count. -/
def State.unseen (st : State μ θ) : Act μ θ → Option (Session μ)
  | .event _ e => if e.counted then none else some (e.apply cfg.window st.session)
  | .run t ch => (st.calls t).unseen cfg st ch
  | _ => none

/-- A count is still to come, or neither the record nor a checkpoint under way has the part as of
the current count. -/
def Safe (st : State μ θ) (i : Part) : Prop := Owed st ∨ ¬ st.ledger.Covered i

/-- Nothing is left out of a record, and the queue comes up while the cursor may change. -/
def Whole (st : State μ θ) : Act μ θ → Prop
  | .run _ ch => ch.cut = {}
  | .queueUp => st.queue = false → Safe st .cursor
  | _ => True

/-- The writers that do not count change a part only while that is safe. -/
def Accounted (st : State μ θ) (a : Act μ θ) : Prop :=
  (∀ s ∈ st.unseen cfg a, ∀ i ∈ watched, get i s ≠ get i st.session → Safe st i) ∧ Whole st a

instance (i : Part) : DecidableEq (Value μ i) :=
  match i with
  | .position => inferInstanceAs (DecidableEq Position)
  | .withdrawn => inferInstanceAs (DecidableEq (List Withdrawal))
  | .delivered => inferInstanceAs (DecidableEq (List (Mark μ) × Nat))
  | .cursor => inferInstanceAs (DecidableEq (Option (Nat × List (Nat × μ))))
  | .inflight => inferInstanceAs (DecidableEq (List Stored))
  | .received => inferInstanceAs (DecidableEq (List Nat))

instance [Fintype θ] (st : State μ θ) : Decidable (Owed st) :=
  inferInstanceAs (Decidable (∃ t, (st.calls t).owes = true))

instance [Fintype θ] (st : State μ θ) (i : Part) : Decidable (Safe st i) :=
  inferInstanceAs (Decidable (_ ∨ _))

instance [Fintype θ] (st : State μ θ) (a : Act μ θ) : Decidable (Whole st a) := by
  unfold Whole
  split <;> infer_instance

instance [Fintype θ] (st : State μ θ) (a : Act μ θ) : Decidable (Accounted cfg st a) :=
  inferInstanceAs (Decidable (_ ∧ _))

end Accounts

/-! ## The invariant -/

/-- No count is to come, and the part is one a checkpoint would read. -/
def Quiet (st : State μ θ) (i : Part) : Prop := ¬ Owed st ∧ (i = .cursor → st.queue = true)

/-- What every state of a run has. -/
structure Inv (st : State μ θ) : Prop where
  owned : Owned st
  counted : st.ledger.Counted
  fresh : ∀ i ∈ watched, st.ledger.Fresh i (get i) (Quiet st i)

theorem Owed.setCall [DecidableEq θ] (h : Owed st)
    (hc : (st.calls t).owes = true → c.owes = true) : Owed (st.setCall t c) := by
  obtain ⟨u, hu⟩ := h
  refine ⟨u, ?_⟩
  by_cases htu : u = t
  · rw [htu, Owned.setCall_self]
    exact hc (htu ▸ hu)
  · rw [Owned.setCall_of_ne htu]
    exact hu

/-- Call `t` moves to `c`, which still has to count what it had to. -/
theorem quiet_setCall [DecidableEq θ] (hc : (st.calls t).owes = true → c.owes = true)
    (hq : Quiet ({ st with ledger := l, relIDs := rels }.setCall t c) i) : Quiet st i :=
  ⟨fun ho => hq.1 (Owed.setCall ho hc), hq.2⟩

/-- A part that changes is not relied on. -/
theorem fresh_change {q : Prop} {s : Session μ}
    (h : l.Fresh i (get i) q) (hs : get i s ≠ get i l.source → ¬ q ∨ ¬ l.Covered i) :
    (l.change s).Fresh i (get i) q := by
  by_cases hsame : get i s = get i l.source
  · exact h.change hsame
  · exact (hs hsame).elim .of_not fun hc => .of_not_covered hc

namespace Inv

theorem start (s : Session μ) (r : ∀ i, Value μ i) (queue : Bool) :
    Inv (State.start s r queue : State μ θ) where
  owned := .start s r queue
  counted := .of_none rfl rfl
  fresh _ _ := .of_not_covered (by
    rintro (⟨_, h⟩ | ⟨_, h, _⟩)
    · exact absurd h.symm (Option.some_ne_none _)
    · exact absurd h.symm (Option.some_ne_none _))

section Calls

variable [DecidableEq θ] {c : Call μ} {s : Session μ} {w : Ledger.Writer Nat (Value μ)}
  (hi : Inv st) (hc : (st.calls t).owes = true → c.owes = true)
include hi

theorem bump (ho : Owned (st.bump.setCall t c)) : Inv (st.bump.setCall t c) :=
  ⟨ho, hi.counted.bump, fun _ _ => .bump hi.counted⟩

include hc

/-- Only calls move. -/
theorem moved (ho : Owned ({ st with relIDs := rels }.setCall t c)) :
    Inv ({ st with relIDs := rels }.setCall t c) :=
  ⟨ho, hi.counted, fun i hw => (hi.fresh i hw).mono (quiet_setCall hc)⟩

theorem change (ho : Owned ((st.change s).setCall t c))
    (hs : ∀ i ∈ watched, get i s ≠ get i st.session →
      Owed ((st.change s).setCall t c) ∨ ¬ st.ledger.Covered i) :
    Inv ((st.change s).setCall t c) := by
  refine ⟨ho, hi.counted.change, fun i hw => ?_⟩
  refine fresh_change ((hi.fresh i hw).mono (quiet_setCall hc)) fun hne => ?_
  exact (hs i hw hne).imp_left fun ho hq => hq.1 ho

theorem abort (ho : Owned (st.abort.setCall t c)) : Inv (st.abort.setCall t c) :=
  ⟨ho, hi.counted.abort, fun i hw => ((hi.fresh i hw).mono (quiet_setCall hc)).abort⟩

/-- The draft goes into the record, with its stamp or with the mark as it was. -/
theorem finish (hw : st.ledger.writer = some w) (htodo : w.todo = []) {m : Option (Nat × Nat)}
    (hm : m = w.stamp ∨ w.stamp = none ∧ m = st.ledger.mark)
    (ho : Owned ((st.finish w.draft m).setCall t c)) : Inv ((st.finish w.draft m).setCall t c) := by
  refine ⟨ho, .finish fun n x hx => ?_, fun i hi' => ?_⟩
  · rcases hm with rfl | ⟨-, rfl⟩
    · exact hi.counted.stamp w n x hw hx
    · exact hi.counted.mark n x hx
  · refine ((hi.fresh i hi').mono (quiet_setCall hc)).finish hw ?_ rfl (.inr hm)
    rw [htodo]
    exact List.not_mem_nil

/-- `checkpointSession` begins. What it does not read is of a replay, with the queue off. -/
theorem startCheckpoint (ho : Owned ((st.startWriter st.checkpointer).setCall t c)) :
    Inv ((st.startWriter st.checkpointer).setCall t c) := by
  refine ⟨ho, hi.counted.start fun n x hx => ?_, fun i hw => ?_⟩
  · cases hx
    exact Nat.le_refl _
  · refine ((hi.fresh i hw).mono (quiet_setCall hc)).start (fun hquiet n x _ htodo => ?_) nofun
    refine absurd ?_ htodo
    cases i with
    | position | delivered => exact absurd hw (by decide)
    | cursor => simp [State.checkpointer, State.reads, (quiet_setCall hc hquiet).2 rfl]
    | withdrawn | inflight | received =>
      simp only [State.checkpointer, State.reads]
      split <;> simp

theorem startPersist (ho : Owned ((st.startWriter st.persister).setCall t c)) :
    Inv ((st.startWriter st.persister).setCall t c) where
  owned := ho
  counted := hi.counted.start fun _ _ hx => absurd hx.symm (Option.some_ne_none _)
  fresh i hw := ((hi.fresh i hw).mono (quiet_setCall hc)).start nofun fun _ => .inl rfl

end Calls

theorem unmarked {r : ∀ i, Value μ i} (ho : Owned st') (hl : st'.ledger = st.ledger.finish r none) :
    Inv st' where
  owned := ho
  counted := hl ▸ .finish fun _ _ hx => absurd hx.symm (Option.some_ne_none _)
  fresh _ _ := hl ▸ .finish_unmarked

theorem read (hi : Inv st) {w : Ledger.Writer Nat (Value μ)} (hw : st.ledger.writer = some w)
    {j : Part} {todo : List Part} (htodo : w.todo = j :: todo) : Inv (st.read w j todo) where
  owned := hi.owned.read hw j todo
  counted := hi.counted.read hw j _ todo
  fresh i hi' := by
    refine (hi.fresh i hi').read hw (fun k hk => ?_) ?_
    · rw [htodo, List.mem_cons, not_or]
      by_cases hkj : k = j
      · exact .inl hkj
      · exact .inr ⟨hkj, hk⟩
    · rintro rfl
      rfl

end Inv

/-! ## Steps keep the invariant -/

theorem owes_noting
    (h : (Call.tracking p ready).owes = true) : (Call.noting p' ready).owes = true := by
  simp only [Call.owes, Bool.or_eq_true] at h ⊢
  exact .inr h

theorem owes_gathering (hp : p'.o = p.o)
    (h : (Call.noting p ready).owes = true) : (Call.gathering (ready ++ [p'])).owes = true := by
  simpa [Call.owes, hp, or_comm] using h

variable [DecidableEq θ]

/-- A change that the call goes on to count. -/
theorem owed_next (s : Session μ) (h : c.owes = true) : Owed ((st.change s).setCall t c) :=
  ⟨t, by rw [Owned.setCall_self]; exact h⟩

/-- A change that the call does not count, made while that is safe. -/
theorem Safe.next (s : Session μ) (h : Safe st i) (hc : (st.calls t).owes = true → c.owes = true) :
    Owed ((st.change s).setCall t c) ∨ ¬ st.ledger.Covered i :=
  h.imp_left fun ho => (show Owed (st.change s) from ho).setCall hc

variable [DecidableEq μ] {cfg : Config}

omit [DecidableEq μ] [DecidableEq θ] in
/-- Whether an entry is held is not part of the record. -/
theorem get_settleOwned (s : Session μ) (id : Nat) (i : Part) :
    get i (s.settleOwned id) = get i s := by
  cases i with
  | inflight =>
    have hstored : ∀ o : Outbound, Outbound.stored (if o.packetID = id then
        { o with held := o.held && !o.awaitingPubcomp } else o) = o.stored := by
      intro o
      split <;> rfl
    have hrecorded : ∀ o : Outbound, Outbound.recorded (if o.packetID = id then
        { o with held := o.held && !o.awaitingPubcomp } else o) = o.recorded := by
      intro o
      split <;> rfl
    simp only [get, Session.settleOwned, Keyed.modify, List.filter_map, List.map_map,
      Function.comp_def, hstored, hrecorded]
  | _ => rfl

/-- The next step of a call keeps the invariant. -/
theorem run_inv {ch : Choice μ} (hi : Inv st) (hok : Accounted cfg st (.run t ch))
    (hc : st.calls t = c) (h : c.run cfg st t ch = some st') : Inv st' := by
  have ho : Owned st' := run_owned hi.owned hc h
  have hs : ∀ s, c.unseen cfg st ch = some s → ∀ i ∈ watched, get i s ≠ get i st.session →
      Safe st i := fun s hs => hok.1 s (by rw [State.unseen, hc]; exact hs)
  have hcut : ch.cut = {} := hok.2
  have keep : ∀ {c' : Call μ}, (c.owes = true → c'.owes = true) →
      (st.calls t).owes = true → c'.owes = true := by
    rw [hc]
    exact id
  have drop : ∀ {c' : Call μ}, c.owes = false → (st.calls t).owes = true → c'.owes = true :=
    fun hno => keep fun ho => absurd (hno.symm.trans ho) Bool.false_ne_true
  cases c <;> simp only [Call.run] at h
  case idle | gathering ready => exact absurd h.symm (Option.some_ne_none st')
  case tracking p ready =>
    cases h
    refine hi.change (keep owes_noting) ho fun i hw hne => ?_
    by_cases hq : p.o.qos2 = true
    · exact .inl (owed_next _ (by simp [Call.owes, hq]))
    · exact (hs _ (if_neg hq) i hw hne).next _ (keep owes_noting)
  case noting p ready =>
    split at h <;> cases h
    · rename_i id hid _
      refine hi.change (keep (owes_gathering rfl)) ho fun i hw hne => ?_
      by_cases hq : p.o.qos2 = true
      · exact .inl (owed_next _ (by simp [Call.owes, hq]))
      · refine (hs _ ?_ i hw hne).next _ (keep (owes_gathering rfl))
        simp only [Call.unseen, if_neg hq, hid, Option.map_some]
    · exact hi.moved (keep (owes_gathering rfl)) ho
  case sending ready =>
    cases ready with
    | nil | cons p ready =>
      cases h
      exact hi.moved (drop rfl) ho
  case discarding p ready =>
    cases h
    exact hi.change (drop rfl) ho fun i hw hne => (hs _ rfl i hw hne).next _ (drop rfl)
  case awaiting id =>
    cases h
    exact hi.change (drop rfl) ho fun _ _ _ => .inl (owed_next _ rfl)
  case queueing r =>
    cases h
    exact hi.moved (drop rfl) ho
  case releasing rels =>
    cases rels with
    | nil =>
      cases h
      exact hi.moved (drop rfl) ho
    | cons r rels =>
      cases h
      exact hi.change (drop rfl) ho fun i _ hne => absurd (get_settleOwned _ r.id i) hne
  case bumping checkpoint next =>
    cases h
    exact hi.bump ho
  case checkpointing next =>
    simp only [Option.ite_none_right_eq_some] at h
    obtain ⟨-, h⟩ := h
    split at h <;> cases h
    · exact hi.moved (drop rfl) ho
    · exact hi.startCheckpoint (drop rfl) ho
  case writing next =>
    split at h
    · contradiction
    · rename_i w hw
      split at h
      · rename_i htodo
        cases h
        exact hi.read hw htodo
      · rename_i htodo
        split at h
        · cases h
          exact hi.abort (drop rfl) ho
        · split at h <;> cases h
          · rw [hcut, cut_apply_empty] at ho ⊢
            exact hi.finish (drop rfl) hw htodo (.inl rfl) ho
          · exact .unmarked ho rfl
  case persisting =>
    simp only [Option.ite_none_right_eq_some] at h
    obtain ⟨-, h⟩ := h
    cases h
    exact hi.startPersist (drop rfl) ho
  case saving =>
    split at h
    · contradiction
    · rename_i w hw
      split at h
      · rename_i htodo
        cases h
        exact hi.read hw htodo
      · rename_i htodo
        split at h <;> cases h
        · exact hi.abort (drop rfl) ho
        · obtain ⟨w', hw', hstamp⟩ := hi.owned.writer t false (by rw [hc]; rfl)
          rw [hw] at hw'
          cases hw'
          exact hi.finish (drop rfl) hw htodo (.inr ⟨by simpa using hstamp, rfl⟩) ho

omit [DecidableEq μ] in
theorem Event.owes_next {e : Event μ} (h : e.counted = true) : e.next.owes = true := by
  cases e <;> first | rfl | cases h

omit [DecidableEq μ] [DecidableEq θ] in
theorem owes_of_idle (h : st.calls t = .idle) (ho : (st.calls t).owes = true) : c.owes = true := by
  rw [h] at ho
  contradiction

theorem step_inv {a : Act μ θ} (hi : Inv st) (hok : Accounted cfg st a)
    (h : step cfg st a = some st') : Inv st' := by
  have ho : Owned st' := step_owned hi.owned h
  cases a <;> simp only [step] at h
  case tick dt =>
    cases h
    exact ⟨ho, hi.counted.change, fun i hw => (hi.fresh i hw).change (by cases i <;> rfl)⟩
  case moves p =>
    simp only [Option.ite_none_right_eq_some] at h
    obtain ⟨-, h⟩ := h
    cases h
    refine ⟨ho, hi.counted.change, fun i hw => (hi.fresh i hw).change ?_⟩
    cases i with
    | position => exact absurd hw (by decide)
    | _ => rfl
  case queueUp =>
    obtain rfl := Option.some.inj h
    refine ⟨ho, hi.counted, fun i hw => ?_⟩
    by_cases hcursor : i = .cursor ∧ st.queue = false
    · -- the cursor becomes something a checkpoint reads
      obtain ⟨rfl, hoff⟩ := hcursor
      rcases hok.2 hoff with howed | hc
      · exact .of_not fun hq => hq.1 howed
      · exact .of_not_covered hc
    · refine (hi.fresh i hw).mono fun hq => ⟨hq.1, fun hi' => ?_⟩
      simpa [hi'] using hcursor
  case event t e =>
    obtain ⟨hidle, rfl⟩ := State.begin_eq_some.mp h
    refine hi.change (owes_of_idle hidle) ho fun i hw hne => ?_
    by_cases he : e.counted = true
    · exact .inl (owed_next _ (Event.owes_next he))
    · exact (hok.1 _ (if_neg he) i hw hne).next _ (owes_of_idle hidle)
  case deliver t | checkpoint t | persist t =>
    obtain ⟨hidle, rfl⟩ := State.begin_eq_some.mp h
    exact hi.moved (owes_of_idle hidle) ho
  case prepare t d packetID =>
    split at h
    · simp only [Option.ite_none_right_eq_some] at h
      obtain ⟨-, h⟩ := h
      cases h
      exact hi.bump ho
    · contradiction
  case flush t =>
    split at h <;> cases h
    rename_i ready hc
    refine hi.moved (fun hs => ?_) ho
    rw [hc] at hs
    have hany : (ready.any fun p => p.o.qos2) = true := hs
    rw [if_pos hany]
    rfl
  case pubrec t id =>
    simp only [Option.ite_none_right_eq_some] at h
    obtain ⟨hidle, rfl⟩ := State.begin_eq_some.mp h.2
    exact hi.moved (owes_of_idle hidle) ho
  case drain t =>
    split at h
    · contradiction
    · obtain ⟨hidle, rfl⟩ := State.begin_eq_some.mp h
      exact hi.moved (owes_of_idle hidle) ho
  case run t ch => exact run_inv hi hok rfl h

/-! ## What an early return hides -/

/-- A session with nothing in it, and the record of one. -/
def blank : State Unit Lts.Two := State.start {} (fun i => get i {}) true

/-- A call runs `n` steps. -/
def steps (n : Nat) : List (Act Unit Lts.Two) := List.replicate n (.run .first {})

/-- A QoS 1 message is delivered. -/
def deliver (id : Nat) : List (Act Unit Lts.Two) :=
  [.deliver .first, .prepare .first { seq := 5, held := true } id] ++ steps 2 ++ [.flush .first] ++
    steps 2

/-- The record is written. -/
def checkpoint : List (Act Unit Lts.Two) := .checkpoint .first :: steps 7

/-- The call is not under way. -/
def isIdle : Call Unit → Bool
  | .idle => true
  | _ => false

theorem eq_idle_of_isIdle {c : Call Unit} (h : isIdle c = true) : c = .idle := by
  unfold isIdle at h
  split at h
  · rfl
  · contradiction

/-- Identifier 1 is in flight, 2 is withdrawn, 7 was received, the cursor has a hole, and the record
says so. -/
def busy : List (Act Unit Lts.Two) :=
  deliver 1 ++ deliver 2 ++ [.event .first (.acknowledged 2 true)] ++ steps 1 ++
    [.event .first (.scanned { next := 5, holes := [(3, ())] })] ++ steps 1 ++
    [.event .first (.received 7), .event .first (.forwarded 7)] ++ steps 8

/-- The other writers that do not count, after the record was written; the last is a QoS 1 delivery
that a checkpoint comes between the count and the entry of. -/
def uncountedRuns : List (List (Act Unit Lts.Two)) :=
  [.forgotten 2 .puback, .refused 7, .overdue [1], .resendDropped 1 false, .expired () 3 [] false,
    .since false, .displaced (.acknowledged 1 false)].map (busy ++ [.event .first ·]) ++
  [[.deliver .second, .prepare .second { seq := 5 } 1] ++ checkpoint ++
    List.replicate 2 (.run .second {}) ++ [.flush .second] ++ List.replicate 2 (.run .second {})]

theorem uncounted_hide : ∀ run ∈ uncountedRuns,
    ∃ st, Lts.Reach (step ⟨0, 0⟩) Lts.free blank st ∧ (∀ t, st.calls t = .idle) ∧
      st.skips false = true ∧ ∃ i ∈ watched, st.ledger.record i ≠ st.wouldWrite i := by
  intro run hrun
  have hall : ∀ run ∈ uncountedRuns, (Lts.exec (step ⟨0, 0⟩) Lts.free blank run).any (fun st =>
      decide (∀ t, isIdle (st.calls t) = true) && st.skips false &&
        decide (∃ i ∈ watched, st.ledger.record i ≠ st.wouldWrite i)) = true := by
    decide
  obtain ⟨st, hr, hs⟩ := Lts.reach_of_exec_any _ _ _ run _ (hall run hrun)
  simp only [Bool.and_eq_true, decide_eq_true_eq] at hs
  exact ⟨st, hr, fun t => eq_idle_of_isIdle (hs.1.1 t), hs.1.2, hs.2⟩

end Natsmqtt5.Checkpoint
