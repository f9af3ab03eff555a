import Natsmqtt5.Will.Published

/-!
# A stored Will is not lost

Whoever owns the record as its adopter has a call that will publish it (`Task.Serves`), and a record
that is gone was published or cancelled. Two requests can break this when their answer is lost. A
removal of `fire` that was applied makes `fireLater` find a conflict, which it takes for an adopter.
An adoption that was applied, and that `adopt` does not see when it looks again, leaves a record
that every broker takes for another's. `Answered` excludes these two.

Results:
* `will_never_lost`: in every run that `Answered` allows, a record that is gone was published or
  cancelled, and one that a live broker has adopted is about to be published.
* `will_lost`: a removal is applied although its answer is lost, and nobody publishes the Will.
* `will_in_one_place`: the record is there, or one of the two was done, once.
-/

namespace Natsmqtt5.Will

open Function

variable {β : Type} {s t : State β} {x : Task β} {last rev : Nat} {b : β} {y : Option (Task β)}
  {res : Result} {r : Reply} {e : Env} {c : Claim β} {op : Op β}

/-! ## Statements -/

/-- A call that publishes the Will unless another does: `fire`, `fireLater`, `publishWhenDue`, and
`adopt` while it looks what became of its update. -/
def Task.pending : Task β → Bool
  | .firing _ | .retrying _ | .due _ | .checking _ => true
  | _ => false

/-- The request is applied and its answer is lost. -/
def Reply.unanswered : Reply → Bool
  | .lost true _ => true
  | _ => false

/-- The removal of a call of `fire` or `fireLater` is not applied with its answer lost, and `adopt`
that looks again for its update is answered if the update is there. -/
def Task.Answered (s : State β) (b : β) (e : Env) : Task β → Prop
  | .firing c | .retrying c => e.reply.unanswered = true → s.revOf c ≠ s.bucket.last
  | .checking l => ∀ cur ∈ s.read true, cur.record.owner = b → cur.record.adopted = true →
      cur.rev ≠ l.rev → e.readable = true
  | _ => True

/-- A call of `adopt` that has not looked yet what became of its update over `rev`. -/
def Task.looksFor (rev : Nat) : Task β → Bool
  | .checking l => l.rev = rev
  | _ => false

/-- A request that is applied after its caller has given up is no removal of `fire`, and an adoption
only while its broker has not looked for it. -/
def Op.Seen (s : State β) : Op β → Prop
  | .delete _ cancels => cancels = true
  | .update r rev => r.adopted = true → (s.broker r.owner).alive = true →
      ∃ x ∈ (s.broker r.owner).tasks, x.looksFor rev = true

def Answered (s : State β) : Act β → Prop
  | .run b i e => ∀ x ∈ (s.broker b).tasks[i]?, x.Answered s b e
  | .late i _ => ∀ op ∈ s.late[i]?, op.rev = s.bucket.last → op.Seen s
  | _ => True

/-! ## The adopter has a call -/

/-- The call is at the record's last revision, or will find it. -/
def Task.Serves (last : Nat) : Task β → Prop
  | .firing (.read l) | .retrying (.read l) | .due l => l.rev = last
  | .checking l => l.rev ≠ last
  | _ => False

theorem Task.Serves.pending (h : x.Serves last) : x.pending = true := by
  cases x with
  | firing c => rfl
  | retrying c => rfl
  | due l => rfl
  | checking l => rfl
  | _ => exact h.elim

theorem Task.serves_of_looksFor (h : x.looksFor rev = true) (hne : rev ≠ last) : x.Serves last := by
  cases x with
  | checking l =>
    have hrev : l.rev = rev := of_decide_eq_true h
    have hl : l.rev ≠ last := hrev ▸ hne
    exact hl
  | _ => cases h

structure Kept (s : State β) : Prop where
  gone : s.bucket.value = none → 0 < s.published ∨ s.cancelled = true
  served : ∀ r, s.bucket.value = some r → r.adopted = true → (s.broker r.owner).alive = true →
    0 < s.published ∨ ∃ x ∈ (s.broker r.owner).tasks, x.Serves s.bucket.last
  lease : s.lease.record.adopted = false

/-- What a step of a call of `b` leaves if the Will is still not published: the record as it was,
with the call still there if it was needed; or a record that is cancelled, that nobody has adopted,
or that `b` has. -/
def Leaves (s : State β) (b : β) (x : Task β) (t : State β) (y : Option (Task β)) : Prop :=
  0 < t.published ∨
    (t.bucket = s.bucket ∧ ∀ r, s.bucket.value = some r → r.owner = b → r.adopted = true →
      x.Serves s.bucket.last → ∃ z ∈ y, z.Serves s.bucket.last) ∨
    (t.bucket.value = none ∧ t.cancelled = true) ∨
    ∃ r, t.bucket.value = some r ∧
      (r.adopted = false ∨ r.owner = b ∧ ∃ z ∈ y, z.Serves t.bucket.last)

theorem Record.adopt_owner (r : Record β) (b : β) (now : Nat) : (r.adopt b now).owner = b := by
  unfold Record.adopt
  simp only
  split <;> rfl

/-- The record is as it was, and the call served nobody. -/
theorem leaves_same (hb : t.bucket = s.bucket) (hx : ∀ last, ¬ x.Serves last) : Leaves s b x t y :=
  .inr (.inl ⟨hb, fun _ _ _ _ hs => (hx _ hs).elim⟩)

/-- A removal of `drop` or `settle` cancels the Will if it is applied. -/
theorem Requests.leaves_cancel (h : Requests s (.delete rev true) r t res)
    (hx : ∀ last, ¬ x.Serves last) : Leaves s b x t y := by
  cases h with
  | ok | lost => exact .inr (.inr (.inl ⟨rfl, by simp [State.write, Op.cancels]⟩))
  | conflict | without | late => exact leaves_same rfl hx

/-- A call of `fire` whose removal failed is followed by `fireLater` on the same lease. -/
theorem Requests.leaves_retry (hfires : x.Fires c)
    (h : Requests s (.delete (s.revOf c) false) e.reply t .failed) (hans : x.Answered s b e) :
    Leaves s b x t (some (.retrying c)) := by
  have hsame : t.bucket = s.bucket := by
    generalize hreply : e.reply = reply at h
    cases h with
    | lost gap hlast =>
      have hun : e.reply.unanswered = true := by rw [hreply]; rfl
      rcases hfires with rfl | rfl <;> exact absurd hlast.symm (hans hun)
    | without | late => rfl
  refine .inr (.inl ⟨hsame, fun r hv ho had hs => ⟨_, rfl, ?_⟩⟩)
  cases c with
  | own => rcases hfires with rfl | rfl <;> exact hs.elim
  | read l => rcases hfires with rfl | rfl <;> exact hs

theorem Requests.leaves_concede (hfires : x.Fires c)
    (h : Requests s (.delete (s.revOf c) false) e.reply t .conflict) : Leaves s b x t none := by
  generalize e.reply = reply at h
  cases h with
  | conflict gap hne =>
    refine .inr (.inl ⟨rfl, fun r hv ho had hs => ?_⟩)
    cases c with
    | own => rcases hfires with rfl | rfl <;> exact hs.elim
    | read l => rcases hfires with rfl | rfl <;> exact absurd hs.symm hne

theorem Requests.leaves_ended {dueAt : Nat} (h : Kept s)
    (hr : Requests s (.update (s.lease.record.ending dueAt) s.lease.rev) e.reply t res) :
    Leaves s b (.ending dueAt) t none := by
  generalize e.reply = reply at hr
  cases hr with
  | ok | lost => exact .inr (.inr (.inr ⟨_, rfl, .inl h.lease⟩))
  | conflict | without | late => exact leaves_same rfl fun _ hs => hs

/-- The update of `adopt`: `publishWhenDue` has the new revision, and the look at what became of it
will find it. -/
theorem Requests.leaves_adopt {l : Lease β}
    (hr : Requests s (.update (l.record.adopt b e.now) l.rev) e.reply t res)
    (hok : ∀ rev, res = .ok rev → y = some (.due ⟨l.record.adopt b e.now, rev⟩))
    (hfailed : res = .failed → y = some (.checking l)) : Leaves s b (.adopting l) t y := by
  generalize e.reply = reply at hr
  have howner := l.record.adopt_owner b e.now
  cases hr with
  | ok gap hlast => exact .inr (.inr (.inr ⟨_, rfl, .inr ⟨howner, _, hok _ rfl, rfl⟩⟩))
  | lost gap hlast =>
    refine .inr (.inr (.inr ⟨_, rfl, .inr ⟨howner, _, hfailed rfl, ?_⟩⟩))
    have hlt := s.bucket.last_lt_nextRev gap
    have hrev : s.bucket.last = l.rev := hlast
    exact Nat.ne_of_lt (hrev ▸ hlt)
  | conflict | without | late => exact leaves_same rfl fun _ hs => hs

theorem Advances.leaves (h : Kept s)
    (hans : x.Answered s b e) (ha : Advances s b e x t y) : Leaves s b x t y := by
  cases ha with
  | ended hr =>
    have hleaves := hr.leaves_ended (b := b) h
    exact hleaves
  | unended hr => exact hr.leaves_ended h
  | publish => exact .inl (Nat.succ_pos _)
  | giveUp => exact .inl (Nat.succ_pos _)
  | concede hfires hr => exact hr.leaves_concede hfires
  | retry hfires hr => exact hr.leaves_retry hfires hans
  | drop hr | cancelled hr | conflicted hr => exact hr.leaves_cancel fun _ hs => hs
  | adopted hr => exact hr.leaves_adopt (fun _ heq => by cases heq; rfl) nofun
  | adoptedByOther hr => exact hr.leaves_adopt nofun nofun
  | check hr => exact hr.leaves_adopt nofun fun _ => rfl
  | found hread howner hadopted hrev =>
    obtain ⟨hv, hlast⟩ := read_eq_some hread
    exact .inr (.inr (.inr ⟨_, hv, .inr ⟨howner, _, rfl, hlast.symm⟩⟩))
  | notFound hnone =>
    refine .inr (.inl ⟨rfl, fun r hv ho had hs => ?_⟩)
    -- the adoption is there, so the look was answered and saw it
    have hread : s.read true = some ⟨r, s.bucket.last⟩ := by
      unfold State.read Kv.Bucket.get
      rw [hv]
      rfl
    have hne : s.bucket.last ≠ _ := Ne.symm hs
    have hok := hans _ hread ho had hne
    exact absurd (hnone _ (hok ▸ hread) ho had) hne
  | due => exact .inr (.inl ⟨rfl, fun _ _ _ _ hs => ⟨_, rfl, hs⟩⟩)
  | _ => exact leaves_same rfl fun _ hs => hs

theorem Advances.published_le (h : Advances s b e x t y) : s.published ≤ t.published := by
  cases h with
  | ended h | unended h | drop h | concede _ h | retry _ h | cancelled h | conflicted h | adopted h
  | adoptedByOther h | check h => exact h.published_eq.ge
  | publish _ h | giveUp _ h => exact h.published_eq.ge.trans (Nat.le_succ _)
  | _ => exact le_rfl

theorem Requests.cancelled_mono (h : Requests s op r t res)
    (hc : s.cancelled = true) : t.cancelled = true := by
  cases h with
  | ok | lost => simp [State.write, hc]
  | conflict | without | late => exact hc

theorem Advances.cancelled_mono
    (h : Advances s b e x t y) (hc : s.cancelled = true) : t.cancelled = true := by
  cases h with
  | ended h | unended h | drop h | publish _ h | giveUp _ h | concede _ h | retry _ h | cancelled h
  | conflicted h | adopted h | adoptedByOther h | check h => exact h.cancelled_mono hc
  | settle | cancel | fire | reread | read | found | notFound | due | leaveSettle | leaveJudging
  | leaveRereading | leaveReading => exact hc

theorem Advances.lease (h : Advances s b e x t y) (hl : s.lease.record.adopted = false) :
    t.lease.record.adopted = false := by
  cases h with
  | ended => exact hl
  | unended h | drop h | publish _ h | giveUp _ h | concede _ h | retry _ h | cancelled h
  | conflicted h | adopted h | adoptedByOther h | check h => exact h.lease_eq ▸ hl
  | settle | cancel | fire | reread | read | found | notFound | due | leaveSettle | leaveJudging
  | leaveRereading | leaveReading => exact hl

theorem kept_registered (owner : β) (delay rev : Nat) :
    Kept (State.registered owner delay rev) := by
  refine ⟨nofun, fun r hv had => ?_, rfl⟩
  cases hv
  cases had

/-! ## Steps -/

section Steps

variable [DecidableEq β] {i : Nat}

theorem Kept.start (h : Kept s) (hs : s.start b x = some t) : Kept t := by
  rw [start_eq_some hs]
  refine ⟨h.gone, fun r hv had hal => ?_, h.lease⟩
  by_cases hb : r.owner = b
  · subst hb
    simp only [State.setBroker, update_self] at hal ⊢
    rcases h.served r hv had hal with hp | ⟨z, hz, hserves⟩
    · exact .inl hp
    · exact .inr ⟨z, List.mem_append_left _ hz, hserves⟩
  · simp only [State.setBroker, update_of_ne hb] at hal ⊢
    exact h.served r hv had hal

theorem mem_eraseIdx_or {α : Type} {l : List α} {i : Nat} {x y : α} (hx : l[i]? = some x)
    (hy : y ∈ l) : y = x ∨ y ∈ l.eraseIdx i := by
  obtain ⟨hi, rfl⟩ := List.getElem?_eq_some_iff.mp hx
  exact List.mem_cons.mp ((List.getElem_cons_eraseIdx_perm hi).mem_iff.mpr hy)

theorem Kept.run {u : State β}
    (h : Kept s) (hx : (s.broker b).tasks[i]? = some x) (hans : x.Answered s b e)
    (ha : Advances s b e x u y) : Kept (u.setBroker b { s.broker b with
      tasks := (s.broker b).tasks.eraseIdx i ++ y.toList }) := by
  have hlease := ha.lease h.lease
  have hbroker := ha.broker_eq
  have hmono := ha.published_le
  have hnew : ∀ {last : Nat}, (∃ z ∈ y, z.Serves last) →
      ∃ z ∈ (s.broker b).tasks.eraseIdx i ++ y.toList, z.Serves last :=
    fun ⟨z, hz, hserves⟩ => ⟨z, List.mem_append_right _ (Option.mem_toList.mpr hz), hserves⟩
  rcases ha.leaves h hans with hp | ⟨hsame, hneed⟩ | ⟨hnone, hc⟩ | ⟨r, hr, hr'⟩
  · exact ⟨fun _ => .inl hp, fun _ _ _ _ => .inl hp, hlease⟩
  · refine ⟨fun hv => ?_, fun r hv had hal => ?_, hlease⟩
    · simp only [State.setBroker, hsame] at hv
      rcases h.gone hv with hp | hc
      · exact .inl (hp.trans_le hmono)
      · exact .inr (ha.cancelled_mono hc)
    · simp only [State.setBroker, hsame] at hv ⊢
      by_cases hb : r.owner = b
      · subst hb
        simp only [State.setBroker, update_self] at hal ⊢
        rcases h.served r hv had hal with hp | ⟨z, hz, hserves⟩
        · exact .inl (hp.trans_le hmono)
        · rcases mem_eraseIdx_or hx hz with rfl | hz
          · exact .inr (hnew (hneed r hv rfl had hserves))
          · exact .inr ⟨z, List.mem_append_left _ hz, hserves⟩
      · simp only [State.setBroker, update_of_ne hb, hbroker] at hal ⊢
        rcases h.served r hv had hal with hp | hserved
        · exact .inl (hp.trans_le hmono)
        · exact .inr hserved
  · refine ⟨fun _ => .inr hc, fun r hv => ?_, hlease⟩
    simp only [State.setBroker, hnone] at hv
    cases hv
  · refine ⟨fun hv => ?_, fun r' hv had hal => ?_, hlease⟩
    · simp only [State.setBroker, hr] at hv
      cases hv
    · simp only [State.setBroker, hr, Option.some.injEq] at hv
      subst hv
      rcases hr' with hnot | ⟨rfl, hserves⟩
      · rw [had] at hnot
        cases hnot
      · simp only [State.setBroker, update_self]
        exact .inr (hnew hserves)

omit [DecidableEq β] in
theorem Kept.late {gap : Nat} (h : Kept s) (hi : s.late[i]? = some op)
    (hseen : op.rev = s.bucket.last → op.Seen s)
    (hr : Requests { s with late := s.late.eraseIdx i } op (.lost true gap) t .failed) :
        Kept t := by
  cases hr with
  | without => exact { h with }
  | lost _ hlast =>
    have hlast' : op.rev = s.bucket.last := hlast.symm
    have hop := hseen hlast'
    cases op with
    | delete rev cancels =>
      obtain rfl : cancels = true := hop
      exact ⟨fun _ => .inr (by simp [State.write, Op.cancels]), nofun, h.lease⟩
    | update r rev =>
      refine ⟨fun hv => ?_, fun r' hv had hal => ?_, h.lease⟩
      · cases hv
      cases hv
      obtain ⟨x, hx, hlooks⟩ := hop had hal
      have hlt := s.bucket.last_lt_nextRev gap
      have hrev : rev = s.bucket.last := hlast'
      exact .inr ⟨x, hx, Task.serves_of_looksFor hlooks (by simp only [State.write]; omega)⟩

theorem Kept.kill (h : Kept s) (b : β) : Kept (s.setBroker b ⟨false, []⟩) := by
  refine ⟨h.gone, fun r hv had hal => ?_, h.lease⟩
  by_cases hb : r.owner = b
  · subst hb
    simp only [State.setBroker, update_self] at hal
    cases hal
  · simp only [State.setBroker, update_of_ne hb] at hal ⊢
    exact h.served r hv had hal

theorem step_kept {a : Act β} (h : Kept s) (hans : Answered s a) (hs : step s a = some t) :
    Kept t := by
  cases a with
  | run b i e =>
    obtain ⟨x, u, y, hx, ha, rfl⟩ := run_eq_some hs
    exact h.run hx (hans x hx) ha
  | late i gap =>
    obtain ⟨op, hop, hr⟩ := late_eq_some hs
    exact h.late hop (hans op hop) hr
  | kill b =>
    cases hs
    exact h.kill b
  | _ => exact h.start hs

/-- **Never lost.** In every run of any number of brokers over one Will record in which no removal
of `fire` is applied without its answer and no adoption is applied that its broker does not find:
when the record is gone, or a live broker owns it as its adopter, the Will was published or
cancelled, or a broker has a call that is about to publish it. -/
theorem will_never_lost (owner : β) (delay rev : Nat) (s : State β)
    (h : Lts.Reach step Answered (State.registered owner delay rev) s)
    (hlost : s.bucket.value = none ∨ ∃ r, s.bucket.value = some r ∧ r.adopted = true ∧
      (s.broker r.owner).alive = true) :
    0 < s.published ∨ s.cancelled = true ∨
      ∃ b, ∃ x ∈ (s.broker b).tasks, x.pending = true := by
  have hkept : Kept s := h.invariant (kept_registered owner delay rev)
    fun _ _ _ hu hans hs => step_kept hu hans hs
  rcases hlost with hnone | ⟨r, hv, had, hal⟩
  · rcases hkept.gone hnone with hp | hc
    · exact .inl hp
    · exact .inr (.inl hc)
  · rcases hkept.served r hv had hal with hp | ⟨x, hx, hserves⟩
    · exact .inl hp
    · exact .inr (.inr ⟨r.owner, x, hx, hserves.pending⟩)

end Steps

/-! ## Runs -/

section Runs

variable [DecidableEq β]

instance (s : State β) (b : β) (e : Env) (x : Task β) : Decidable (x.Answered s b e) := by
  unfold Task.Answered
  split <;> infer_instance

instance (s : State β) (op : Op β) : Decidable (op.Seen s) := by
  unfold Op.Seen
  split <;> infer_instance

instance (s : State β) : (a : Act β) → Decidable (Answered s a)
  | .run b i e => inferInstanceAs (Decidable (∀ x ∈ (s.broker b).tasks[i]?, x.Answered s b e))
  | .late i _ => inferInstanceAs
      (Decidable (∀ op ∈ s.late[i]?, op.rev = s.bucket.last → op.Seen s))
  | .ended _ | .fire | .drop | .settle _ _ | .adopt _ _ | .kill _ =>
    inferInstanceAs (Decidable True)

end Runs

/-- The owner is killed with a removal under way. The answer to the adoption of a second broker is
lost, and its look finds it. -/
def foundRun : List (Act Lts.Two) :=
  [.fire, .run .first 0 { reply := .late }, .kill .first, .adopt .second .first, .run .second 0 {},
    .run .second 0 { reply := .lost true 0 }, .run .second 0 {}, .late 0 0]

theorem will_never_lost_found :
    ∃ s : State Lts.Two, Lts.Reach step Answered (State.registered .first 4 1) s ∧
      (∃ r, s.bucket.value = some r ∧ r.adopted = true ∧ (s.broker r.owner).alive = true) ∧
      (0 < s.published ∨ s.cancelled = true ∨
        ∃ b, ∃ x ∈ (s.broker b).tasks, x.pending = true) := by
  obtain ⟨s, hreach, hs⟩ := Lts.reach_of_exec_any step Answered (State.registered .first 4 1)
    foundRun (fun s => s.bucket.value.any fun r => r.adopted && (s.broker r.owner).alive)
    (by decide)
  have hlost : ∃ r, s.bucket.value = some r ∧ r.adopted = true ∧
      (s.broker r.owner).alive = true := by
    simpa [Option.any_eq_true] using hs
  exact ⟨s, hreach, hlost, will_never_lost .first 4 1 s hreach (.inr hlost)⟩

/-- The removal is applied, its answer is lost, and the retry finds a conflict. -/
def lostRun : List (Act Lts.Two) :=
  [.fire, .run .first 0 { reply := .lost true 0 }, .run .first 0 {}]

theorem will_lost :
    ∃ s : State Lts.Two, Lts.Reach step Lts.free (State.registered .first 4 1) s ∧
      s.bucket.value = none ∧ s.published = 0 ∧ s.cancelled = false ∧
      ∀ b, (s.broker b).alive = true ∧ (s.broker b).tasks = [] := by
  obtain ⟨s, hreach, hs⟩ := Lts.reach_of_exec_any step Lts.free (State.registered .first 4 1)
    lostRun (fun s => s.bucket.value.isNone && decide (s.published = 0 ∧ s.cancelled = false ∧
      ∀ b, (s.broker b).alive = true ∧ (s.broker b).tasks.length = 0)) (by decide)
  rw [Bool.and_eq_true, Option.isNone_iff_eq_none] at hs
  obtain ⟨hpub, hcan, hall⟩ := of_decide_eq_true hs.2
  exact ⟨s, hreach, hs.1, hpub, hcan, fun b => ⟨(hall b).1, List.length_eq_zero_iff.mp (hall b).2⟩⟩

/-- **Exactly once.** In every run that `Persistent` and `Answered` allow, the Will is in one place:
its record is there, or it was published, once, or it was cancelled. -/
theorem will_in_one_place [DecidableEq β] (owner : β) (delay rev : Nat) (s : State β)
    (h : Lts.Reach step (fun s a => Persistent s a ∧ Answered s a)
      (State.registered owner delay rev) s) : s.spent = 1 := by
  obtain ⟨hkept, -, hle⟩ : Kept s ∧ Fresh s ∧ s.spent ≤ 1 := by
    induction h with
    | refl => exact ⟨kept_registered owner delay rev, fresh_registered owner delay rev, le_rfl⟩
    | tail _ ha hs ih =>
      exact ⟨step_kept ih.1 ha.2 hs, step_fresh ih.2.1 hs, step_spent ih.2.1 ha.1 hs ih.2.2⟩
  refine le_antisymm hle ?_
  unfold State.spent
  cases hv : s.bucket.value with
  | some r => simp
  | none =>
    rcases hkept.gone hv with hp | hc
    · omega
    · simp [hc]

theorem will_in_one_place_adopted :
    ∃ s : State Lts.Two, Lts.Reach step (fun s a => Persistent s a ∧ Answered s a)
      (State.registered .first 4 1) s ∧ s.published = 1 ∧ s.spent = 1 := by
  obtain ⟨s, hr, hp⟩ : ∃ s, Lts.Reach step (fun s a => Persistent s a ∧ Answered s a)
    (State.registered Lts.Two.first 4 1) s ∧ s.published = 1 :=
    Lts.exists_reach adoptedRun (by decide)
  exact ⟨s, hr, hp, will_in_one_place .first 4 1 s hr⟩

end Natsmqtt5.Will
