import Natsmqtt5.Outbound.Outcome

/-!
# Exchanges over the life of a session

`seq` names an exchange: it is given once, to the message a packet identifier is taken for, and an
entry keeps it. What the session functions leave in flight under an identifier is the exchange that
was there, at the same stage or a later one (`Session.Continues`).

Results:
* `Delivers.continues` and `Handles.continues`: so it is for a goroutine's step, unless the step
  tracks a new message.
* `Distinct`: no two identifiers are in flight for one exchange, and none for one that is yet to be
  named; kept by every step, and true of a restored session.
-/

namespace Natsmqtt5.Outbound

variable {κ : Type} {s s' : Session κ} {c : κ} {id : PacketID} {closed : Bool}
  {evs : List (Event κ)}

/-- The same exchange, at the same stage or a later one. -/
structure Entry.Follows (o' o : Entry κ) : Prop where
  seq : o'.seq = o.seq
  msg : o'.msg = o.msg
  awaiting : o.awaitingPubcomp = true → o'.awaitingPubcomp = true

theorem Entry.Follows.refl (o : Entry κ) : o.Follows o := ⟨rfl, rfl, fun h => h⟩

/-- What is in flight in `s'` was in flight in `s`. -/
structure Session.Continues (s s' : Session κ) : Prop where
  sendSeq : s'.sendSeq = s.sendSeq
  entry : ∀ j o', s'.inflightEntry j = some o' → ∃ o, s.inflightEntry j = some o ∧ o'.Follows o

/-! ## The session functions -/

theorem continues_of_eq (hseq : s'.sendSeq = s.sendSeq)
    (h : ∀ j, s'.inflightEntry j = s.inflightEntry j) : s.Continues s' :=
  ⟨hseq, fun j o' ho' => ⟨o', (h j).symm.trans ho', .refl o'⟩⟩

theorem Session.Continues.refl (s : Session κ) : s.Continues s :=
  continues_of_eq rfl fun _ => rfl

/-- A function of one identifier. -/
theorem continues_of_only (ho : s.Only s' id) (h : ∀ o', s'.inflightEntry id = some o' →
    ∃ o, s.inflightEntry id = some o ∧ o'.Follows o) : s.Continues s' := by
  refine ⟨ho.sendSeq, fun j o' ho' => ?_⟩
  by_cases hj : j = id
  · subst hj
    exact h o' ho'
  · exact ⟨o', (ho.entry j hj).symm.trans ho', .refl o'⟩

/-- A function of one identifier that leaves its entry as it is. -/
theorem continues_of_same (ho : s.Only s' id) (h : s'.inflightEntry id = s.inflightEntry id) :
    s.Continues s' :=
  continues_of_only ho fun o' ho' => ⟨o', h.symm.trans ho', .refl o'⟩

/-- A function that removes the entry of one identifier. -/
theorem continues_of_none (ho : s.Only s' id) (h : s'.inflightEntry id = none) :
    s.Continues s' :=
  continues_of_only ho fun o' ho' => by rw [h] at ho'; cases ho'

theorem continues_modify {f : Entry κ → Entry κ} (hid : ∀ o, (f o).packetID = o.packetID)
    (hf : ∀ o, (f o).Follows o) : s.Continues (s.modify id f) := by
  refine continues_of_only (only_modify hid) fun o' ho' => ?_
  rw [inflightEntry_modify_self hid] at ho'
  obtain ⟨o, ho, rfl⟩ := Option.map_eq_some_iff.mp ho'
  exact ⟨o, ho, hf o⟩

theorem continues_awaitPubcomp (s : Session κ) (id : PacketID) :
    s.Continues (s.awaitPubcomp id) :=
  continues_modify (fun _ => rfl) fun _ => ⟨rfl, rfl, fun _ => rfl⟩

theorem continues_settleOwned (s : Session κ) (id : PacketID) :
    s.Continues (s.settleOwned id) :=
  continues_modify (fun _ => rfl) fun _ => ⟨rfl, rfl, fun h => h⟩

theorem continues_withdraw (h : s.withdraw id = some s') : s.Continues s' := by
  obtain ⟨o, -, -, hon, hnone, -⟩ := withdraw_spec h
  exact continues_of_none hon hnone

theorem continues_nextID (h : s.nextID = some (s', id)) : s.Continues s' := by
  obtain ⟨_, -, heq⟩ := Option.map_eq_some_iff.mp h
  cases heq
  exact continues_of_eq rfl fun _ => rfl

theorem continues_attach (s : Session κ) (c : κ) : s.Continues (s.attach c) := by
  refine ⟨rfl, fun j o' ho' => ?_⟩
  rw [inflightEntry_attach] at ho'
  obtain ⟨o, ho, rfl⟩ := Option.map_eq_some_iff.mp ho'
  exact ⟨o, ho, rfl, rfl, fun h => h⟩

variable [DecidableEq κ]

theorem continues_completeInflight (s : Session κ) (c : κ) (id : PacketID) :
    s.Continues (s.completeInflight c id).1 := by
  rcases heq : s.completeInflight c id with ⟨s', done⟩
  cases done with
  | none =>
    obtain ⟨rfl, -⟩ := completeInflight_eq_none heq
    exact .refl s'
  | some done =>
    obtain ⟨o, -, -, -, hon, hnone, -⟩ := completeInflight_spec heq
    exact continues_of_none hon hnone

/-- The delivery goroutine keeps the exchanges, or tracks a message under a new name. -/
theorem Delivers.continues {a : Act κ} {d d' : Delivery κ} (h : Delivers c s closed a d s' d' evs) :
    s.Continues s' ∨ ∃ id ready o, d = .tracking id ready ∧ d' = .serving (ready ++ [o]) ∧
      evs = [] ∧ o.packetID = id ∧ o.seq = s.sendSeq + 1 ∧ s' = s.trackInflight o := by
  cases h with
  | markResent o held todo _ haw h =>
    obtain ⟨p, hp, hon, hp', -⟩ := markResent_spec h
    refine .inl (continues_of_only hon fun o' ho' => ⟨p, hp, ?_⟩)
    rw [hp'] at ho'
    cases ho'
    exact ⟨rfl, rfl, fun h => h⟩
  | takeQuotaSlot o held todo _ haw h =>
    obtain ⟨p, hp, hon, hp', -⟩ := takeQuotaSlot_spec h
    refine .inl (continues_of_only hon fun o' ho' => ⟨p, hp, ?_⟩)
    rw [hp'] at ho'
    cases ho'
    exact ⟨rfl, rfl, fun h => h⟩
  | markResentWritten o held todo =>
    obtain ⟨hon, hent, -⟩ := markResentWritten_spec s c o.packetID
    exact .inl (continues_of_same hon hent)
  | abandonResend id held todo =>
    obtain ⟨hon, hent, -⟩ := abandonResend_spec s c id
    exact .inl (continues_of_same hon hent)
  | refuse o ready kept back => exact .inl (continues_completeInflight s c o.packetID)
  | abandoned id held todo | discard id ready => exact .inl (continues_completeInflight s c id)
  | nextID ready _ id h => exact .inl (continues_nextID h)
  | track id ready qos msg shared o ho =>
    subst ho
    exact .inr ⟨id, ready, _, rfl, rfl, rfl, rfl, rfl, rfl⟩
  | _ => exact .inl (.refl s)

/-- The reader keeps the exchanges. -/
theorem Handles.continues {queue : Bool} {r r' : Reader κ}
    {rel : List (PacketID × Nat)} (h : Handles c s closed queue r s' r' evs rel) :
    s.Continues s' := by
  cases h with
  | complete _ _ a _ done _ _ h =>
    have := continues_completeInflight s c a.id
    rwa [h] at this
  | withdrawn a _ w _ _ h =>
    obtain ⟨-, -, hon, hent, -⟩ := forgetWithdrawn_spec h
    exact continues_of_same hon hent
  | resent a _ quota _ _ h =>
    obtain ⟨r, -, -, -, -, hon, hent, -⟩ := forgetResent_spec h
    exact continues_of_same hon hent
  | awaitPubcomp o => exact continues_awaitPubcomp s _
  | pubrel id seq _ _ => exact continues_settleOwned s id
  | _ => exact .refl s

/-! ## Names -/

/-- The exchanges in flight have distinct names, all of them given. -/
structure Distinct (s : Session κ) : Prop where
  le : ∀ j o, s.inflightEntry j = some o → o.seq ≤ s.sendSeq
  inj : ∀ i j o p, s.inflightEntry i = some o → s.inflightEntry j = some p → o.seq = p.seq → i = j

omit [DecidableEq κ] in
theorem Distinct.continues (h : Distinct s) (hc : s.Continues s') : Distinct s' := by
  constructor
  · intro j o' ho'
    obtain ⟨o, ho, hf⟩ := hc.entry j o' ho'
    rw [hf.seq, hc.sendSeq]
    exact h.le j o ho
  · intro i j o' p' ho' hp' heq
    obtain ⟨o, ho, hf⟩ := hc.entry i o' ho'
    obtain ⟨p, hp, hg⟩ := hc.entry j p' hp'
    exact h.inj i j o p ho hp (by rw [← hf.seq, ← hg.seq, heq])

omit [DecidableEq κ] in
/-- A new message, under a name of its own. -/
theorem Distinct.trackInflight (h : Distinct s) (o : Entry κ) : Distinct (s.trackInflight o) := by
  have hcase : ∀ j p, (s.trackInflight o).inflightEntry j = some p →
      (j = o.packetID ∧ p.seq = s.sendSeq + 1) ∨
        (j ≠ o.packetID ∧ s.inflightEntry j = some p ∧ p.seq ≤ s.sendSeq) := by
    intro j p hp
    by_cases hj : j = o.packetID
    · subst hj
      rw [inflightEntry_track_self] at hp
      cases hp
      exact .inl ⟨rfl, rfl⟩
    · rw [inflightEntry_track_of_ne hj] at hp
      exact .inr ⟨hj, hp, h.le j p hp⟩
  have hseq : (s.trackInflight o).sendSeq = s.sendSeq + 1 := rfl
  constructor
  · intro j p hp
    rcases hcase j p hp with ⟨-, h1⟩ | ⟨-, -, h1⟩ <;> omega
  · intro i j p q hp hq heq
    rcases hcase i p hp with ⟨hi, hi'⟩ | ⟨hi, hi', hile⟩ <;>
      rcases hcase j q hq with ⟨hj, hj'⟩ | ⟨hj, hj', hjle⟩
    · rw [hi, hj]
    · omega
    · omega
    · exact h.inj i j p q hi' hj' heq

/-- A session whose exchanges are all named after `n`. -/
structure NamedAfter (n : Nat) (s : Session κ) : Prop where
  distinct : Distinct s
  le : n ≤ s.sendSeq
  lt : ∀ j o, s.inflightEntry j = some o → n < o.seq

omit [DecidableEq κ] in
theorem NamedAfter.restoreInflight {n : Nat} (h : NamedAfter n s) (o : Entry κ) :
    NamedAfter n (s.restoreInflight o) := by
  unfold Session.restoreInflight
  split
  · exact h
  · refine ⟨h.distinct.trackInflight o, h.le.trans (Nat.le_succ _), fun j p hp => ?_⟩
    by_cases hj : j = o.packetID
    · subst hj
      rw [inflightEntry_track_self] at hp
      cases hp
      exact Nat.lt_succ_of_le h.le
    · rw [inflightEntry_track_of_ne hj] at hp
      exact h.lt j p hp

omit [DecidableEq κ] in
theorem restoreWithdrawn_spec (s : Session κ) (id : PacketID) (owed : AckType) (age : Nat) :
    (s.restoreWithdrawn id owed age).inflight = s.inflight ∧
      (s.restoreWithdrawn id owed age).sendSeq = s.sendSeq ∧
      (s.restoreWithdrawn id owed age).conn = s.conn := by
  unfold Session.restoreWithdrawn
  split
  · exact ⟨rfl, rfl, rfl⟩
  · split <;> exact ⟨rfl, rfl, rfl⟩

omit [DecidableEq κ] in
theorem foldl_restoreWithdrawn (s : Session κ) (ws : List (PacketID × AckType × Nat)) :
    let s' := ws.foldl (fun s w => s.restoreWithdrawn w.1 w.2.1 w.2.2) s
    s'.inflight = s.inflight ∧ s'.sendSeq = s.sendSeq ∧ s'.conn = s.conn := by
  refine List.foldlRecOn (motive := fun t : Session κ => t.inflight = s.inflight ∧
    t.sendSeq = s.sendSeq ∧ t.conn = s.conn) ws _ ⟨rfl, rfl, rfl⟩ fun t ht w _ => ?_
  obtain ⟨hin, hseq, hconn⟩ := restoreWithdrawn_spec t w.1 w.2.1 w.2.2
  exact ⟨hin.trans ht.1, hseq.trans ht.2.1, hconn.trans ht.2.2⟩

omit [DecidableEq κ] in
/-- A restore gives every exchange a new name. -/
theorem namedAfter_restored (n : Nat) (inflight : List (Entry κ))
    (ws : List (PacketID × AckType × Nat)) : NamedAfter n (restored n inflight ws) := by
  obtain ⟨hnil, hseq, -⟩ :=
    foldl_restoreWithdrawn { sendSeq := n, attaches := if ws = [] then 0 else 2 } ws
  have hnone : ∀ s : Session κ, s.inflight = [] → ∀ j, s.inflightEntry j = none := by
    intro s hs j
    unfold Session.inflightEntry
    rw [hs]
    rfl
  refine List.foldlRecOn (motive := NamedAfter n) inflight _ ⟨⟨fun j o ho => ?_,
    fun i j o p ho hp heq => ?_⟩, hseq.ge, fun j o ho => ?_⟩ fun s hs o _ => hs.restoreInflight _
  all_goals
    rw [hnone _ hnil] at ho
    cases ho

end Natsmqtt5.Outbound
