import Natsmqtt5.Will.Store

/-!
# A stored Will is published at most once

What holds in every run of the brokers of `Will/Store.lean` over one record.

A lease is on a revision that was a write of the record, so a removal or an update that the store
applies finds the record there (`Fresh`). The record is removed once, then, and `publish` is called
by whoever was told so.

Results:
* `will_published_once`: `publish` is called at most once, and not if `drop` or the `settle` of a
  resumption removed the record, unless `fireLater` gives up.
-/

namespace Natsmqtt5.Will

variable {β : Type} {s t : State β} {op : Op β} {res : Result} {r : Reply} {b : β} {x : Task β}
  {e : Env} {y : Option (Task β)}

/-! ## Requests -/

/-- The state after a request that is applied. -/
def State.write (s : State β) (op : Op β) (gap : Nat) : State β :=
  { s with bucket := ⟨s.bucket.nextRev gap, op.value⟩, cancelled := s.cancelled || op.cancels }

theorem State.apply_eq (s : State β) (gap : Nat) (op : Op β) :
    s.apply gap op = if s.bucket.last = op.rev then some (s.write op gap) else none := by
  by_cases h : s.bucket.last = op.rev
  · cases op <;> simp_all [State.apply, Op.run, Kv.Bucket.delete, Kv.Bucket.update, Op.rev,
      State.write, Op.value]
  · cases op <;> simp_all [State.apply, Op.run, Kv.Bucket.delete, Kv.Bucket.update, Op.rev]

/-- What a request does, by what becomes of it. -/
inductive Requests (s : State β) (op : Op β) : Reply → State β → Result → Prop
  | ok (gap : Nat) (h : s.bucket.last = op.rev) :
      Requests s op (.answered gap) (s.write op gap) (.ok (s.bucket.nextRev gap))
  | conflict (gap : Nat) (h : s.bucket.last ≠ op.rev) : Requests s op (.answered gap) s .conflict
  | lost (gap : Nat) (h : s.bucket.last = op.rev) :
      Requests s op (.lost true gap) (s.write op gap) .failed
  | without (r : Reply) : Requests s op r s .failed
  | late : Requests s op .late { s with late := s.late ++ [op] } .failed

theorem request_spec (s : State β) (op : Op β) (r : Reply) :
    Requests s op r (s.request op r).1 (s.request op r).2 := by
  cases r with
  | answered gap =>
    simp only [State.request, State.apply_eq]
    by_cases h : s.bucket.last = op.rev
    · rw [if_pos h]
      exact .ok gap h
    · rw [if_neg h]
      exact .conflict gap h
  | lost applied gap =>
    cases applied with
    | false => exact .without _
    | true =>
      simp only [State.request, State.apply_eq]
      by_cases h : s.bucket.last = op.rev
      · rw [if_pos h]
        exact .lost gap h
      · rw [if_neg h]
        exact .without _
  | late => exact .late

theorem read_eq_some {readable : Bool} {l : Lease β} (h : s.read readable = some l) :
    s.bucket.value = some l.record ∧ s.bucket.last = l.rev := by
  unfold State.read at h
  split at h
  · obtain ⟨p, hp, rfl⟩ := Option.map_eq_some_iff.mp h
    exact Kv.Bucket.get_eq_some.mp hp
  · cases h

theorem Requests.broker_eq (h : Requests s op r t res) : t.broker = s.broker := by
  cases h <;> rfl

theorem Requests.lease_eq (h : Requests s op r t res) : t.lease = s.lease := by
  cases h <;> rfl

theorem Requests.published_eq (h : Requests s op r t res) : t.published = s.published := by
  cases h <;> rfl

/-! ## Revisions -/

/-- `r` is the revision of a write of the record, or of one before it. -/
def Covers (b : Kv.Bucket (Record β)) (r : Nat) : Prop :=
  r ≤ b.last ∧ (b.value = none → r < b.last)

/-- The revisions a call has. -/
def Task.revs : Task β → List Nat
  | .dropping (.read l) | .firing (.read l) | .retrying (.read l) => [l.rev]
  | .judging _ l | .cancelling l _ | .adopting l | .checking l | .due l => [l.rev]
  | _ => []

/-- No one has the revision of a removal. -/
structure Fresh (s : State β) : Prop where
  lease : Covers s.bucket s.lease.rev
  late : ∀ op ∈ s.late, Covers s.bucket op.rev
  tasks : ∀ b, ∀ t ∈ (s.broker b).tasks, ∀ r ∈ t.revs, Covers s.bucket r

theorem Covers.write {r : Nat} (h : Covers s.bucket r) (op : Op β) (gap : Nat) :
    Covers (s.write op gap).bucket r := by
  have hlt := s.bucket.last_lt_nextRev gap
  have hle := h.1
  exact ⟨by simp only [State.write]; omega, fun _ => by simp only [State.write]; omega⟩

theorem Covers.request {reply : Reply} {r : Nat} (h : Covers s.bucket r)
    (hr : Requests s op reply t res) : Covers t.bucket r := by
  cases hr with
  | ok gap hlast => exact h.write op gap
  | lost gap hlast => exact h.write op gap
  | conflict | without | late => exact h

/-- A request that is applied finds the record. -/
theorem value_isSome_of_covers (h : Covers s.bucket op.rev)
    (hlast : s.bucket.last = op.rev) : s.bucket.value.isSome = true := by
  by_contra hnone
  rw [Bool.not_eq_true, Option.isSome_eq_false_iff, Option.isNone_iff_eq_none] at hnone
  have := h.2 hnone
  omega

theorem covers_read {readable : Bool} {l : Lease β} (h : s.read readable = some l) :
    Covers s.bucket l.rev := by
  obtain ⟨hv, hlast⟩ := read_eq_some h
  refine ⟨hlast.ge, fun hnone => ?_⟩
  rw [hv] at hnone
  cases hnone

theorem covers_ok {r : Record β} {rev : Nat} {reply : Reply} {n : Nat}
    (hr : Requests s (.update r rev) reply t (.ok n)) : Covers t.bucket n := by
  cases hr
  exact ⟨le_rfl, nofun⟩

theorem Fresh.request (h : Fresh s)
    (hr : Requests s op r t res) (hop : Covers s.bucket op.rev) : Fresh t := by
  refine ⟨hr.lease_eq ▸ h.lease.request hr, fun o ho => ?_, fun b x hx n hn => ?_⟩
  · have hmem : o ∈ s.late ∨ o = op := by
      cases hr with
      | late => simpa using ho
      | _ => exact .inl ho
    rcases hmem with hmem | rfl
    · exact (h.late o hmem).request hr
    · exact hop.request hr
  · rw [hr.broker_eq] at hx
    exact (h.tasks b x hx n hn).request hr

/-! ## What a call does -/

/-- A call of `fire` or `fireLater` on `c`. -/
def Task.Fires (c : Claim β) (x : Task β) : Prop := x = .firing c ∨ x = .retrying c

/-- One step of a call of `b`: the request it makes, and what is left of the call. -/
inductive Advances (s : State β) (b : β) (e : Env) : Task β → State β → Option (Task β) → Prop
  | ended {dueAt rev : Nat} {t : State β}
      (h : Requests s (.update (s.lease.record.ending dueAt) s.lease.rev) e.reply t (.ok rev)) :
      Advances s b e (.ending dueAt) { t with lease := ⟨s.lease.record.ending dueAt, rev⟩ } none
  | unended {dueAt : Nat} {t : State β} {res : Result}
      (h : Requests s (.update (s.lease.record.ending dueAt) s.lease.rev) e.reply t res) :
      Advances s b e (.ending dueAt) t none
  | drop {c : Claim β} {t : State β} {res : Result}
      (h : Requests s (.delete (s.revOf c) true) e.reply t res) :
      Advances s b e (.dropping c) t none
  | publish {c : Claim β} {x : Task β} {t : State β} {rev : Nat} (hx : x.Fires c)
      (h : Requests s (.delete (s.revOf c) false) e.reply t (.ok rev)) :
      Advances s b e x { t with published := t.published + 1 } none
  | concede {c : Claim β} {x : Task β} {t : State β} (hx : x.Fires c)
      (h : Requests s (.delete (s.revOf c) false) e.reply t .conflict) :
      Advances s b e x t none
  | retry {c : Claim β} {x : Task β} {t : State β} (hx : x.Fires c)
      (h : Requests s (.delete (s.revOf c) false) e.reply t .failed) :
      Advances s b e x t (some (.retrying c))
  | giveUp {c : Claim β} {t : State β} (hg : e.giveUp = true)
      (h : Requests s (.delete (s.revOf c) false) e.reply t .failed) :
      Advances s b e (.retrying c) { t with published := t.published + 1 } none
  | settle {resumed : Bool} {l : Lease β} (h : s.read e.readable = some l) :
      Advances s b e (.settling resumed) s (some (.judging resumed l))
  | cancel {l : Lease β} : Advances s b e (.judging true l) s (some (.cancelling l 2))
  | fire {l : Lease β} : Advances s b e (.judging false l) s (some (.firing (.read l)))
  | cancelled {l : Lease β} {n : Nat} {t : State β} {res : Result}
      (h : Requests s (.delete l.rev true) e.reply t res) :
      Advances s b e (.cancelling l n) t none
  | conflicted {l : Lease β} {n : Nat} {t : State β}
      (h : Requests s (.delete l.rev true) e.reply t .conflict) :
      Advances s b e (.cancelling l n) t (some (.rereading n))
  | reread {l : Lease β} {n : Nat} (h : s.read e.readable = some l) :
      Advances s b e (.rereading (n + 1)) s (some (.cancelling l n))
  | read {l : Lease β} (h : s.read e.readable = some l) :
      Advances s b e (.reading l.record.owner) s (some (.adopting l))
  | adopted {l : Lease β} {t : State β} {rev : Nat}
      (h : Requests s (.update (l.record.adopt b e.now) l.rev) e.reply t (.ok rev)) :
      Advances s b e (.adopting l) t (some (.due ⟨l.record.adopt b e.now, rev⟩))
  | adoptedByOther {l : Lease β} {t : State β}
      (h : Requests s (.update (l.record.adopt b e.now) l.rev) e.reply t .conflict) :
      Advances s b e (.adopting l) t none
  | check {l : Lease β} {t : State β}
      (h : Requests s (.update (l.record.adopt b e.now) l.rev) e.reply t .failed) :
      Advances s b e (.adopting l) t (some (.checking l))
  | found {l cur : Lease β} (h : s.read e.readable = some cur) (howner : cur.record.owner = b)
      (hadopted : cur.record.adopted = true) (hrev : cur.rev ≠ l.rev) :
      Advances s b e (.checking l) s (some (.due cur))
  | notFound {l : Lease β} (h : ∀ cur, s.read e.readable = some cur → cur.record.owner = b →
      cur.record.adopted = true → cur.rev = l.rev) :
      Advances s b e (.checking l) s none
  | due {l : Lease β} : Advances s b e (.due l) s (some (.firing (.read l)))
  | leaveSettle {resumed : Bool} : Advances s b e (.settling resumed) s none
  | leaveJudging {resumed : Bool} {l : Lease β} : Advances s b e (.judging resumed l) s none
  | leaveRereading {n : Nat} : Advances s b e (.rereading n) s none
  | leaveReading {owner : β} : Advances s b e (.reading owner) s none

theorem fire_advances {c : Claim β} {giveUp : Bool}
    (hx : x = .firing c ∧ giveUp = false ∨ x = .retrying c ∧ giveUp = e.giveUp) :
    Advances s b e x (fire s c e giveUp).1 (fire s c e giveUp).2 := by
  have hfires : x.Fires c := by
    rcases hx with ⟨rfl, -⟩ | ⟨rfl, -⟩
    · exact .inl rfl
    · exact .inr rfl
  have hr := request_spec s (.delete (s.revOf c) false) e.reply
  unfold Will.fire
  rcases hreq : s.request (.delete (s.revOf c) false) e.reply with ⟨t, res⟩
  rw [hreq] at hr
  cases res with
  | ok rev => exact .publish hfires hr
  | conflict => exact .concede hfires hr
  | failed =>
    simp only
    split
    · rename_i hg
      subst hg
      rcases hx with ⟨-, hg⟩ | ⟨rfl, hg⟩
      · cases hg
      · exact .giveUp hg.symm hr
    · exact .retry hfires hr

theorem advance_spec [DecidableEq β] {p : State β × Option (Task β)}
    (h : advance s b e x = some p) : Advances s b e x p.1 p.2 := by
  cases x with
  | ending dueAt =>
    have hr := request_spec s (.update (s.lease.record.ending dueAt) s.lease.rev) e.reply
    simp only [advance] at h
    rcases hreq : s.request (.update (s.lease.record.ending dueAt) s.lease.rev) e.reply with
      ⟨t, res⟩
    rw [hreq] at hr h
    cases res with
    | ok rev => cases h; exact .ended hr
    | conflict => cases h; exact .unended hr
    | failed => cases h; exact .unended hr
  | dropping c => cases h; exact .drop (request_spec _ _ _)
  | firing c => cases h; exact fire_advances (.inl ⟨rfl, rfl⟩)
  | retrying c => cases h; exact fire_advances (.inr ⟨rfl, rfl⟩)
  | settling resumed =>
    simp only [advance] at h
    split at h
    · cases h; exact .leaveSettle
    · rename_i l hl
      split at h
      · cases h; exact .leaveSettle
      · cases h; exact .settle hl
  | judging resumed l =>
    simp only [advance] at h
    split at h
    · cases h; exact .leaveJudging
    · split at h
      · rename_i hres
        subst hres
        cases h
        exact .cancel
      · rename_i hres
        rw [Bool.not_eq_true] at hres
        subst hres
        cases h
        exact .fire
  | cancelling l n =>
    have hr := request_spec s (.delete l.rev true) e.reply
    simp only [advance] at h
    rcases hreq : s.request (.delete l.rev true) e.reply with ⟨t, res⟩
    rw [hreq] at hr h
    cases res with
    | ok rev => cases h; exact .cancelled hr
    | conflict => cases h; exact .conflicted hr
    | failed => cases h; exact .cancelled hr
  | rereading n =>
    simp only [advance] at h
    split at h
    · rename_i k l hl
      cases h
      exact .reread hl
    · cases h; exact .leaveRereading
  | reading owner =>
    simp only [advance] at h
    split at h
    · cases h; exact .leaveReading
    · rename_i l hl
      split at h
      · rename_i howner
        subst howner
        cases h
        exact .read hl
      · cases h; exact .leaveReading
  | adopting l =>
    have hr := request_spec s (.update (l.record.adopt b e.now) l.rev) e.reply
    simp only [advance] at h
    rcases hreq : s.request (.update (l.record.adopt b e.now) l.rev) e.reply with ⟨t, res⟩
    rw [hreq] at hr h
    cases res with
    | ok rev => cases h; exact .adopted hr
    | conflict => cases h; exact .adoptedByOther hr
    | failed => cases h; exact .check hr
  | checking l =>
    simp only [advance] at h
    split at h
    · rename_i hnone
      cases h
      refine .notFound fun cur hcur => ?_
      rw [hnone] at hcur
      cases hcur
    · rename_i cur hcur
      split at h <;> cases h
      · rename_i hours
        exact .found hcur hours.1 hours.2.1 hours.2.2
      · rename_i hours
        refine .notFound fun c hc ho ha => ?_
        obtain rfl := Option.some.inj (hcur.symm.trans hc)
        by_contra hne
        exact hours ⟨ho, ha, hne⟩
  | due l =>
    simp only [advance] at h
    split at h
    · cases h; exact .due
    · cases h

theorem Advances.broker_eq (h : Advances s b e x t y) : t.broker = s.broker := by
  cases h with
  | ended h | unended h | drop h | publish _ h | concede _ h | retry _ h | giveUp _ h | cancelled h
  | conflicted h | adopted h | adoptedByOther h | check h => exact h.broker_eq
  | settle | cancel | fire | reread | read | found | notFound | due | leaveSettle | leaveJudging
  | leaveRereading | leaveReading => rfl

/-! ## Every lease is on a write of the record -/

theorem Fresh.revOf {c : Claim β} (h : Fresh s)
    (hx : ∀ r ∈ x.revs, Covers s.bucket r) (hfires : x.Fires c) : Covers s.bucket (s.revOf c) := by
  cases c with
  | own => exact h.lease
  | read l =>
    rcases hfires with rfl | rfl
    · exact hx l.rev List.mem_cons_self
    · exact hx l.rev List.mem_cons_self

/-- A call has only revisions it read, or wrote. -/
theorem Advances.fresh (h : Fresh s)
    (hx : ∀ r ∈ x.revs, Covers s.bucket r) (ha : Advances s b e x t y) :
    Fresh t ∧ ∀ z ∈ y, ∀ r ∈ z.revs, Covers t.bucket r := by
  have hone : ∀ {l : Lease β}, Covers t.bucket l.rev → ∀ r ∈ [l.rev], Covers t.bucket r :=
    fun hl r hr => List.mem_singleton.mp hr ▸ hl
  cases ha with
  | ended hr =>
    have hf := h.request hr h.lease
    have hrev := covers_ok hr
    exact ⟨⟨hrev, hf.late, hf.tasks⟩, nofun⟩
  | unended hr => exact ⟨h.request hr h.lease, nofun⟩
  | @drop c _ _ hr =>
    refine ⟨h.request hr ?_, nofun⟩
    cases c with
    | own => exact h.lease
    | read l => exact hx l.rev List.mem_cons_self
  | publish hfires hr =>
    have hf := h.request hr (h.revOf hx hfires)
    exact ⟨{ hf with }, nofun⟩
  | concede hfires hr => exact ⟨h.request hr (h.revOf hx hfires), nofun⟩
  | @retry c _ _ hfires hr =>
    refine ⟨h.request hr (h.revOf hx hfires), fun z hz r hrev => ?_⟩
    cases hz
    cases c with
    | own => cases hrev
    | read l => exact hone ((h.revOf hx hfires).request hr) r hrev
  | giveUp _ hr =>
    have hf := h.request hr (h.revOf hx (.inr rfl))
    exact ⟨{ hf with }, nofun⟩
  | settle hread | reread hread | read hread | found hread =>
    refine ⟨h, fun z hz => ?_⟩
    cases hz
    exact hone (covers_read hread)
  | cancel | fire | due =>
    refine ⟨h, fun z hz => ?_⟩
    cases hz
    exact hx
  | conflicted hr =>
    refine ⟨h.request hr (hx _ List.mem_cons_self), fun z hz r hrev => ?_⟩
    cases hz
    cases hrev
  | adopted hr =>
    refine ⟨h.request hr (hx _ List.mem_cons_self), fun z hz => ?_⟩
    cases hz
    exact hone (covers_ok hr)
  | cancelled hr | adoptedByOther hr => exact ⟨h.request hr (hx _ List.mem_cons_self), nofun⟩
  | check hr =>
    refine ⟨h.request hr (hx _ List.mem_cons_self), fun z hz => ?_⟩
    cases hz
    exact hone ((hx _ List.mem_cons_self).request hr)
  | _ => exact ⟨h, nofun⟩

theorem Fresh.erase (h : Fresh s) (i : Nat) : Fresh { s with late := s.late.eraseIdx i } :=
  ⟨h.lease, fun op hop => h.late op (List.mem_of_mem_eraseIdx hop), h.tasks⟩

theorem fresh_registered (owner : β) (delay rev : Nat) :
    Fresh (State.registered owner delay rev) :=
  ⟨⟨le_rfl, nofun⟩, nofun, nofun⟩

section Steps

variable [DecidableEq β]

theorem Fresh.setBroker (h : Fresh s) (b : β) {k : Broker β}
    (hk : ∀ x ∈ k.tasks, ∀ r ∈ x.revs, Covers s.bucket r) : Fresh (s.setBroker b k) := by
  refine ⟨h.lease, h.late, fun d x hx => ?_⟩
  by_cases hd : d = b
  · subst hd
    simp only [State.setBroker, Function.update_self] at hx
    exact hk x hx
  · simp only [State.setBroker, Function.update_of_ne hd] at hx
    exact h.tasks d x hx

theorem start_eq_some (h : s.start b x = some t) :
    t = s.setBroker b { s.broker b with tasks := (s.broker b).tasks ++ [x] } := by
  unfold State.start at h
  simp only at h
  split at h
  · exact (Option.some.inj h).symm
  · cases h

theorem Fresh.start (h : Fresh s) (hx : x.revs = []) (hs : s.start b x = some t) : Fresh t := by
  rw [start_eq_some hs]
  refine h.setBroker b fun y hy r hr => ?_
  rcases List.mem_append.mp hy with hy | hy
  · exact h.tasks b y hy r hr
  · rw [List.mem_singleton.mp hy, hx] at hr
    cases hr

/-- What a step of the `i`th call of `b` does. -/
theorem run_eq_some {i : Nat} (h : step s (.run b i e) = some t) :
    ∃ x u y, (s.broker b).tasks[i]? = some x ∧ Advances s b e x u y ∧
      t = u.setBroker b
        { s.broker b with tasks := (s.broker b).tasks.eraseIdx i ++ y.toList } := by
  simp only [step] at h
  split at h
  · cases h
  · rename_i x hx
    obtain ⟨p, hp, rfl⟩ := Option.map_eq_some_iff.mp h
    exact ⟨x, p.1, p.2, hx, advance_spec hp, rfl⟩

/-- What a request does that is applied after its caller has given up. -/
theorem late_eq_some {i gap : Nat} (h : step s (.late i gap) = some t) :
    ∃ op, s.late[i]? = some op ∧
      Requests { s with late := s.late.eraseIdx i } op (.lost true gap) t .failed := by
  simp only [step] at h
  split at h <;> cases h
  rename_i op hop
  exact ⟨op, hop, request_spec _ op (.lost true gap)⟩

theorem step_fresh {a : Act β} (h : Fresh s) (hs : step s a = some t) : Fresh t := by
  cases a with
  | run b i e =>
    obtain ⟨x, u, y, hx, ha, rfl⟩ := run_eq_some hs
    obtain ⟨hu, hy⟩ := ha.fresh h (h.tasks b x (List.mem_of_getElem? hx))
    refine hu.setBroker b fun z hz => ?_
    rcases List.mem_append.mp hz with hz | hz
    · refine hu.tasks b z ?_
      rw [ha.broker_eq]
      exact List.mem_of_mem_eraseIdx hz
    · exact hy z (Option.mem_toList.mp hz)
  | late i gap =>
    obtain ⟨op, hop, hr⟩ := late_eq_some hs
    exact (h.erase i).request hr (h.late op (List.mem_of_getElem? hop))
  | kill b =>
    cases hs
    exact h.setBroker b nofun
  | _ => exact h.start rfl hs

end Steps

/-! ## At most once -/

/-- What was published, what was cancelled and what is there. -/
def State.spent (s : State β) : Nat :=
  s.published + s.cancelled.toNat + s.bucket.value.isSome.toNat

/-- A removal of `fire` that is answered leaves nothing that anyone else could have. -/
theorem spent_request (hop : Covers s.bucket op.rev)
    (hr : Requests s op r t res) (h : s.spent ≤ 1) :
    t.spent ≤ 1 ∧ (∀ rev, res = .ok rev → op.value = none → op.cancels = false → t.spent = 0) := by
  have hwrite : s.bucket.last = op.rev → ∀ gap, (s.write op gap).spent ≤ 1 ∧
      (op.value = none → op.cancels = false → (s.write op gap).spent = 0) := by
    intro hlast gap
    have hsome := value_isSome_of_covers hop hlast
    unfold State.spent at h
    rw [hsome, Bool.toNat_true] at h
    have hpub : s.published = 0 := by omega
    have hcan : s.cancelled = false := by
      cases hc : s.cancelled with
      | false => rfl
      | true => rw [hc, Bool.toNat_true] at h; omega
    unfold State.spent State.write
    cases op with
    | delete rev cancels => cases cancels <;> simp [hpub, hcan, Op.value, Op.cancels]
    | update record rev => simp [hpub, hcan, Op.value, Op.cancels]
  cases hr with
  | ok gap hlast => exact ⟨(hwrite hlast gap).1, fun _ _ => (hwrite hlast gap).2⟩
  | lost gap hlast => exact ⟨(hwrite hlast gap).1, nofun⟩
  | conflict | without | late => exact ⟨h, nofun⟩

theorem Advances.spent (hf : Fresh s)
    (hx : ∀ r ∈ x.revs, Covers s.bucket r) (hg : e.giveUp = false) (ha : Advances s b e x t y)
    (h : s.spent ≤ 1) : t.spent ≤ 1 := by
  cases ha with
  | ended hr | unended hr => exact (spent_request hf.lease hr h).1
  | @drop c _ _ hr =>
    refine (spent_request ?_ hr h).1
    cases c with
    | own => exact hf.lease
    | read l => exact hx l.rev List.mem_cons_self
  | publish hfires hr =>
    have hzero := (spent_request (hf.revOf hx hfires) hr h).2 _ rfl rfl rfl
    unfold State.spent at hzero ⊢
    simp only
    omega
  | concede hfires hr | retry hfires hr => exact (spent_request (hf.revOf hx hfires) hr h).1
  | giveUp hgive _ => rw [hg] at hgive; cases hgive
  | cancelled hr | conflicted hr | adopted hr | adoptedByOther hr | check hr =>
    exact (spent_request (hx _ List.mem_cons_self) hr h).1
  | _ => exact h

/-- `fireLater` does not give up. -/
def Persistent (_ : State β) : Act β → Prop
  | .run _ _ e => e.giveUp = false
  | _ => True

section Once

variable [DecidableEq β]

theorem step_spent {a : Act β} (hf : Fresh s) (hp : Persistent s a) (hs : step s a = some t)
    (h : s.spent ≤ 1) : t.spent ≤ 1 := by
  have hstart : ∀ {b : β} {x : Task β}, s.start b x = some t → t.spent ≤ 1 :=
    fun hs => start_eq_some hs ▸ h
  cases a with
  | run b i e =>
    obtain ⟨x, u, y, hx, ha, rfl⟩ := run_eq_some hs
    have hu := ha.spent hf (hf.tasks b x (List.mem_of_getElem? hx)) hp h
    exact hu
  | late i gap =>
    obtain ⟨op, hop, hr⟩ := late_eq_some hs
    have hop := hf.late op (List.mem_of_getElem? hop)
    exact (spent_request (s := { s with late := s.late.eraseIdx i }) hop hr h).1
  | kill b =>
    cases hs
    exact h
  | _ => exact hstart hs

/-- **At most once.** In every run of any number of brokers over one Will record in which
`fireLater` does not give up, `publish` is called at most once, and never when `drop` or the
`settle` of a resumption has removed the record. -/
theorem will_published_once (owner : β) (delay rev : Nat) (s : State β)
    (h : Lts.Reach step Persistent (State.registered owner delay rev) s) :
    s.published ≤ 1 ∧ (s.cancelled = true → s.published = 0) := by
  have hfresh : ∀ u, Lts.Reach step Persistent (State.registered owner delay rev) u → Fresh u :=
    fun u hu => hu.invariant (fresh_registered owner delay rev)
      fun _ _ _ hv _ hs => step_fresh hv hs
  have hspent : s.spent ≤ 1 := by
    refine Lts.Reach.invariant_of hfresh ?_ (fun _ _ _ hv hle hp hs => step_spent hv hp hs hle) h
    exact le_rfl
  unfold State.spent at hspent
  refine ⟨by omega, fun hc => ?_⟩
  rw [hc, Bool.toNat_true] at hspent
  omega

end Once

instance (s : State β) (a : Act β) : Decidable (Persistent s a) := by
  unfold Persistent
  split <;> infer_instance

/-- The owner's removal gets no answer, a second broker adopts the record meanwhile and publishes,
and the owner's retry finds a conflict. -/
def adoptedRun : List (Act Lts.Two) :=
  [.fire, .run .first 0 { reply := .late }, .adopt .second .first, .run .second 0 {},
    .run .second 0 { now := 5 }, .run .second 0 { now := 9 }, .run .first 0 {}, .run .second 0 {}]

theorem will_published_once_adopted :
    ∃ s : State Lts.Two, Lts.Reach step Persistent (State.registered .first 4 1) s ∧
      0 < s.published ∧ s.published ≤ 1 := by
  exact Lts.exists_reach_of adoptedRun (by decide) fun s hreach _ =>
    (will_published_once .first 4 1 s hreach).1

end Natsmqtt5.Will
