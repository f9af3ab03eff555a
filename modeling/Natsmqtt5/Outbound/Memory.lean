import Natsmqtt5.Outbound.Client
import Natsmqtt5.Outbound.Exchange

/-!
# What the session remembers of an identifier

What each session function does to the records of an identifier (`Session.memory`): a resend adds
one, an acknowledgement takes one at most, and a message is tracked under an identifier that has
none.

Results:
* `Session.Drops`: the functions that end a record of one identifier, and leave the others alone.
* `resend_memory` and `track_memory`: the two that add one.
-/

namespace Natsmqtt5.Outbound

variable {κ : Type} {s s' : Session κ} {c : κ} {id j : PacketID} {o : Entry κ} {w : Withdrawal κ}
  {t : AckType}

/-- No exchange moves to the stage of its PUBREL. -/
def Session.SameStage (s s' : Session κ) : Prop :=
  ∀ j o', s'.inflightEntry j = some o' → o'.awaitingPubcomp = true →
    ∃ o, s.inflightEntry j = some o ∧ o.awaitingPubcomp = true

/-- Nothing is remembered in `s'` that was not in `s`. -/
structure Session.Fades (s s' : Session κ) : Prop where
  continues : s.Continues s'
  memory : ∀ j, s'.memory j ≤ s.memory j
  resent : ∀ j, s.resent j = none → s'.resent j = none
  conn : s'.conn = s.conn
  keys : (s'.inflight.map Entry.packetID).Sublist (s.inflight.map Entry.packetID)

/-- `s'` has at most one record less, of `id`. -/
structure Session.Drops (s s' : Session κ) (id : PacketID) : Prop extends s.Fades s' where
  stage : s.SameStage s'
  drop : ∀ j, s.memory j ≤ s'.memory j + if j = id then 1 else 0

theorem Session.Drops.refl (s : Session κ) (id : PacketID) : s.Drops s id :=
  ⟨⟨.refl s, fun _ => le_rfl, fun _ h => h, rfl, .refl _⟩, fun _ o ho haw => ⟨o, ho, haw⟩,
    fun _ => Nat.le_add_right _ _⟩

/-- An entry that waits for its PUBCOMP did so before. -/
theorem Session.Fades.staged (hf : s.Fades s') (hs : s.SameStage s') (j : PacketID) (o' : Entry κ)
    (ho' : s'.inflightEntry j = some o') (haw : o'.awaitingPubcomp = true) :
    ∃ o, s.inflightEntry j = some o ∧ o'.Follows o ∧ o.awaitingPubcomp = true := by
  obtain ⟨o, ho, hfol⟩ := hf.continues.entry j o' ho'
  obtain ⟨p, hp, hpaw⟩ := hs j o' ho' haw
  rw [ho] at hp
  cases hp
  exact ⟨o, ho, hfol, hpaw⟩

theorem memory_of_only (ho : s.Only s' id) (hj : j ≠ id) : s'.memory j = s.memory j := by
  unfold Session.memory Session.busy
  rw [ho.entry j hj, ho.withdrawn j hj, ho.resent j hj]

theorem memory_eq_zero : s.memory id = 0 ↔ s.busy id = false ∧ s.resent id = none := by
  unfold Session.memory
  cases s.busy id <;> cases s.resent id <;> simp

/-- A function of one identifier: its entry stays as it is or goes, no record is added, and at most
one goes. -/
theorem drops_of_only (ho : s.Only s' id)
    (hent : s'.inflightEntry id = s.inflightEntry id ∨ s'.inflightEntry id = none)
    (hbusy : s'.busy id = true → s.busy id = true)
    (hres : s.resent id = none → s'.resent id = none) (hdrop : s.memory id ≤ s'.memory id + 1)
    (hkeys : (s'.inflight.map Entry.packetID).Sublist (s.inflight.map Entry.packetID)) :
    s.Drops s' id := by
  have hcont : s.Continues s' := hent.elim (continues_of_same ho) (continues_of_none ho)
  have hmem : s'.memory id ≤ s.memory id := by
    unfold Session.memory
    have h1 : (s'.busy id).toNat ≤ (s.busy id).toNat := by
      cases hb : s'.busy id with
      | false => exact Nat.zero_le _
      | true => rw [hbusy hb]
    have h2 : (s'.resent id).isSome.toNat ≤ (s.resent id).isSome.toNat := by
      cases hr : s.resent id with
      | none => rw [hres hr]
      | some r => exact Bool.toNat_le _
    omega
  refine ⟨⟨hcont, fun j => ?_, fun j hj => ?_, ho.conn, hkeys⟩, fun j o' ho' haw => ?_, fun j => ?_⟩
  · by_cases hj : j = id
    · rw [hj]
      exact hmem
    · exact (memory_of_only ho hj).le
  · by_cases hji : j = id
    · subst hji
      exact hres hj
    · rw [ho.resent j hji]
      exact hj
  · by_cases hj : j = id
    · subst hj
      rcases hent with hent | hent
      · exact ⟨o', hent.symm.trans ho', haw⟩
      · rw [hent] at ho'
        cases ho'
    · exact ⟨o', (ho.entry j hj).symm.trans ho', haw⟩
  · by_cases hj : j = id
    · rw [hj, if_pos rfl]
      exact hdrop
    · rw [if_neg hj, memory_of_only ho hj]
      exact le_rfl

/-! ## Functions that end a record -/

theorem busy_of_entry (h : s.inflightEntry id = some o) : s.busy id = true := by
  simp [Session.busy, h]

theorem busy_of_withdrawn (h : s.withdrawn id = some w) : s.busy id = true := by
  simp [Session.busy, h]

theorem memory_le (s : Session κ) (id : PacketID) :
    s.memory id ≤ 1 + (s.resent id).isSome.toNat := by
  have := Bool.toNat_le (s.busy id)
  unfold Session.memory
  omega

theorem drops_withdraw (h : s.withdraw id = some s') : s.Drops s' id := by
  have hkeys : (s'.inflight.map Entry.packetID).Sublist (s.inflight.map Entry.packetID) := by
    unfold Session.withdraw at h
    split at h
    · cases h
    · split at h <;> cases h
      exact Keyed.keys_erase _
  obtain ⟨o, ho, -, hon, hnone, hw, hres⟩ := withdraw_spec h
  refine drops_of_only hon (.inr hnone) (fun _ => busy_of_entry ho) (fun hr => hres.trans hr) ?_
    hkeys
  have := memory_le s id
  unfold Session.memory at this ⊢
  rw [hres]
  omega

theorem drops_forgetWithdrawn (h : s.forgetWithdrawn id t = some (s', w)) : s.Drops s' id := by
  have hkeys : s'.inflight = s.inflight := by
    unfold Session.forgetWithdrawn at h
    split at h
    · cases h
    · split at h <;> cases h
      rfl
  obtain ⟨hw, -, hon, hent, hnone, hres⟩ := forgetWithdrawn_spec h
  refine drops_of_only hon (.inl hent) (fun _ => busy_of_withdrawn hw) (fun hr => hres.trans hr)
    ?_ (by rw [hkeys])
  have := memory_le s id
  unfold Session.memory at this ⊢
  rw [hres]
  omega

/-- What changes the resend's record alone. -/
theorem drops_of_resent (hon : s.Only s' id) (hent : s'.inflightEntry id = s.inflightEntry id)
    (hw : s'.withdrawn id = s.withdrawn id) (hkeys : s'.inflight = s.inflight)
    (hres : s.resent id = none → s'.resent id = none) : s.Drops s' id := by
  have hbusy : s'.busy id = s.busy id := by
    unfold Session.busy
    rw [hent, hw]
  refine drops_of_only hon (.inl hent) (fun hb => hbusy.symm.trans hb) hres ?_ (by rw [hkeys])
  have := Bool.toNat_le (s.resent id).isSome
  unfold Session.memory
  rw [hbusy]
  omega

variable [DecidableEq κ]

theorem drops_forgetResent {quota : Bool}
    (h : s.forgetResent c id t = some (s', quota)) : s.Drops s' id := by
  have hkeys : s'.inflight = s.inflight := by
    unfold Session.forgetResent at h
    split at h
    · cases h
    · split at h <;> cases h
      rfl
  obtain ⟨r, -, -, -, -, hon, hent, hw, hnone⟩ := forgetResent_spec h
  exact drops_of_resent hon hent hw hkeys fun _ => hnone

theorem drops_abandonResend (s : Session κ) (c : κ) (id : PacketID) :
    s.Drops (s.abandonResend c id) id := by
  have hkeys : (s.abandonResend c id).inflight = s.inflight := by
    unfold Session.abandonResend
    split
    · rfl
    · split <;> rfl
  obtain ⟨hon, hent, hw, hres⟩ := abandonResend_spec s c id
  refine drops_of_resent hon hent hw hkeys fun hr => ?_
  rw [hres, hr]
  rfl

theorem drops_completeInflight (s : Session κ) (c : κ) (id : PacketID) :
    s.Drops (s.completeInflight c id).1 id := by
  have hkeys : ((s.completeInflight c id).1.inflight.map Entry.packetID).Sublist
      (s.inflight.map Entry.packetID) := by
    unfold Session.completeInflight
    split
    · exact .refl _
    · simp only
      split
      · exact Keyed.keys_erase _
      · split <;> exact Keyed.keys_erase _
  rcases heq : s.completeInflight c id with ⟨s', done⟩
  rw [heq] at hkeys
  cases done with
  | none =>
    obtain ⟨rfl, -⟩ := completeInflight_eq_none heq
    exact .refl s' id
  | some done =>
    obtain ⟨o, ho, -, -, hon, hnone, hcase⟩ := completeInflight_spec heq
    have hres : (s'.resent id).isSome = (s.resent id).isSome := by
      rcases hcase with ⟨-, -, -, h⟩ | ⟨-, -, d, -, -, h⟩ | ⟨-, -, -, -, h⟩
      · rw [h, Option.isSome_map]
      · rw [h]
      · rw [h]
    refine drops_of_only hon (.inr hnone) (fun _ => busy_of_entry ho) (fun hr => ?_) ?_ hkeys
    · rw [hr] at hres
      exact Option.isSome_eq_false_iff.mp hres |> Option.isNone_iff_eq_none.mp
    · have := memory_le s id
      unfold Session.memory at this ⊢
      rw [hres]
      omega

/-! ## Functions that keep the records -/

theorem drops_markResentWritten (s : Session κ) (c : κ) (id : PacketID) :
    s.Drops (s.markResentWritten c id) id := by
  have hkeys : (s.markResentWritten c id).inflight = s.inflight := by
    unfold Session.markResentWritten
    split
    · rfl
    · split <;> rfl
  obtain ⟨hon, hent, hw, hres⟩ := markResentWritten_spec s c id
  refine drops_of_resent hon hent hw hkeys fun hr => ?_
  rw [hres, hr]
  rfl

theorem memory_markResentWritten (s : Session κ) (c : κ) (id j : PacketID) :
    (s.markResentWritten c id).memory j = s.memory j := by
  obtain ⟨hon, hent, hw, hres⟩ := markResentWritten_spec s c id
  by_cases hj : j = id
  · subst hj
    unfold Session.memory Session.busy
    rw [hent, hw, hres, Option.isSome_map]
  · exact memory_of_only hon hj

omit [DecidableEq κ]

theorem fades_modify {f : Entry κ → Entry κ} (hid : ∀ o, (f o).packetID = o.packetID)
    (hf : ∀ o, (f o).Follows o) :
    s.Fades (s.modify id f) ∧ ∀ j, (s.modify id f).memory j = s.memory j := by
  have hmem : ∀ j, (s.modify id f).memory j = s.memory j := by
    intro j
    have hent : ((s.modify id f).inflightEntry j).isSome = (s.inflightEntry j).isSome := by
      by_cases hj : j = id
      · rw [hj, inflightEntry_modify_self hid, Option.isSome_map]
      · rw [inflightEntry_modify_of_ne hid hj]
    unfold Session.memory Session.busy
    rw [hent]
    rfl
  refine ⟨⟨continues_modify hid hf, fun j => (hmem j).le, fun _ h => h, rfl, ?_⟩, hmem⟩
  exact (Keyed.keys_modify Entry.packetID hid).symm ▸ List.Sublist.refl _

theorem sameStage_settleOwned (s : Session κ) (id : PacketID) :
    s.SameStage (s.settleOwned id) := by
  intro j o' ho' haw
  have hid : ∀ o : Entry κ, o.settleOwned.packetID = o.packetID := fun _ => rfl
  by_cases hj : j = id
  · subst hj
    have := (inflightEntry_modify_self (s := s) hid).symm.trans ho'
    obtain ⟨o, ho, rfl⟩ := Option.map_eq_some_iff.mp this
    exact ⟨o, ho, haw⟩
  · exact ⟨o', (inflightEntry_modify_of_ne hid hj).symm.trans ho', haw⟩

/-! ## Sending -/

/-- `takeQuotaSlot` and `markResent`: one record more, of an identifier that has no resend's. -/
theorem resend_memory {o' : Entry κ} {r : AckOwed κ} (hon : s.Only s' id)
    (ho : s.inflightEntry id = some o) (ho' : s'.inflightEntry id = some o')
    (hres : s'.resent id = some r) (hnone : s.resent id = none) (j : PacketID) :
    s'.memory j = s.memory j + if j = id then 1 else 0 := by
  by_cases hj : j = id
  · subst hj
    unfold Session.memory
    rw [busy_of_entry ho, busy_of_entry ho', hres, hnone, if_pos rfl]
    rfl
  · rw [if_neg hj, memory_of_only hon hj]
    rfl

/-- `trackInflight`, under an identifier that has no record. -/
theorem track_memory (h : s.memory o.packetID = 0) (j : PacketID) :
    (s.trackInflight o).memory j = s.memory j + if j = o.packetID then 1 else 0 := by
  by_cases hj : j = o.packetID
  · subst hj
    have hres : (s.trackInflight o).resent o.packetID = none := (memory_eq_zero.mp h).2
    unfold Session.memory at h ⊢
    rw [busy_of_entry (inflightEntry_track_self (s := s)), hres, if_pos rfl, h]
    rfl
  · unfold Session.memory Session.busy
    rw [inflightEntry_track_of_ne hj, if_neg hj]
    rfl

theorem nextID_spec (h : s.nextID = some (s', id)) :
    s.busy id = false ∧ s' = { s with nextPacketID := id } := by
  unfold Session.nextID at h
  obtain ⟨id', hid, heq⟩ := Option.map_eq_some_iff.mp h
  cases heq
  refine ⟨?_, rfl⟩
  have hfree : ∀ (n : Nat) (i : PacketID), nextFree s.busy n i = some id → s.busy id = false := by
    intro n
    induction n with
    | zero =>
      intro i hi
      cases hi
    | succ n ih =>
      intro i hi
      simp only [nextFree] at hi
      split at hi
      · exact ih _ hi
      · rename_i hb
        cases hi
        simpa using hb
  exact hfree _ _ hid

end Natsmqtt5.Outbound
