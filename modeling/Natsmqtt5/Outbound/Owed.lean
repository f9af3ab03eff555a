import Natsmqtt5.Outbound.Memory

/-!
# Identifiers that are owed an acknowledgement

The two maps of a session that say an identifier is in use: `inflight` and `withdrawn`. A function
that puts an identifier into `withdrawn` takes it out of `inflight`, and `nextID` passes over both.
A restore reads them from a record whose two parts may be of different moments, and looks for a
withdrawn identifier in an in-flight set that it has not filled yet.

A withdrawn identifier is kept for two more attaches. Its age goes into the record, and the restored
session counts on from it.

Results:
* `Session.Moves`: what the session functions do to the two maps.
* `inflight_withdrawn_disjoint`: no identifier is in both, if no record names one in both and no
  identifier is handed out twice; and the age of a withdrawn identifier counts the attaches alone.
* `inflight_withdrawn_overlap`: a record that names one in both.
-/

namespace Natsmqtt5.Outbound

open Function

variable {κ : Type} {s s' sess' : Session κ} {c : κ} {id j : PacketID}
  {ws : List (PacketID × AckType × Nat)} {x : PacketID × AckType × Nat} {n : Nat} {closed : Bool}
  {evs : List (Event κ)} {a : Act κ} {ready : List (Entry κ)} {o : Entry κ}

/-- No identifier is in both maps. -/
def Session.Disjoint (s : Session κ) : Prop :=
  ∀ id, (s.inflightEntry id).isSome = true → s.withdrawn id = none

/-- The attaches since the identifier was withdrawn. -/
def Session.age (s : Session κ) (id : PacketID) : Option Nat :=
  (s.withdrawn id).map fun w => s.attaches - w.madeAt

def Session.withdrawnLocked (s : Session κ) : List (PacketID × AckType × Nat) :=
  (List.range 0x10000).filterMap fun id =>
    (s.withdrawn id).map fun w => (id, w.owed, s.attaches - w.madeAt)

/-- What happens to a session between connections. -/
inductive Turn (κ : Type)
  | attach (c : κ)
  /-- Released by one broker, claimed by another and restored with these entries in flight. -/
  | move (inflight : List (Entry κ))

def Session.turn (s : Session κ) : Turn κ → Session κ
  | .attach c => s.attach c
  | .move inflight => restored s.sendSeq inflight s.withdrawnLocked

def Turn.isAttach : Turn κ → Bool
  | .attach _ => true
  | .move _ => false

/-- The age `n`, while an identifier of that age is remembered. -/
def remembered (n : Nat) : Option Nat := if n < 2 then some n else none

/-! ## The session functions -/

/-- What the functions do that neither track a message nor count an attach: an identifier in use was
in use, and one that is withdrawn was in flight or withdrawn before. -/
structure Session.Moves (s s' : Session κ) : Prop where
  attaches : s'.attaches = s.attaches
  entry : ∀ j, (s'.inflightEntry j).isSome = true → (s.inflightEntry j).isSome = true
  withdrawn : ∀ j, s'.withdrawn j = s.withdrawn j ∨ s'.withdrawn j = none ∨
    ((s.inflightEntry j).isSome = true ∧ s'.inflightEntry j = none ∧
      ∃ w, s'.withdrawn j = some w ∧ w.madeAt = s.attaches)

theorem Session.Moves.refl (s : Session κ) : s.Moves s :=
  ⟨rfl, fun _ h => h, fun _ => .inl rfl⟩

/-- A function of one identifier. -/
theorem moves_of_only (ho : s.Only s' id)
    (hent : (s'.inflightEntry id).isSome = true → (s.inflightEntry id).isSome = true)
    (hw : s'.withdrawn id = s.withdrawn id ∨ s'.withdrawn id = none ∨
      ((s.inflightEntry id).isSome = true ∧ s'.inflightEntry id = none ∧
        ∃ w, s'.withdrawn id = some w ∧ w.madeAt = s.attaches)) : s.Moves s' := by
  refine ⟨ho.attaches, fun j hj => ?_, fun j => ?_⟩
  · by_cases hji : j = id
    · subst hji
      exact hent hj
    · rwa [← ho.entry j hji]
  · by_cases hji : j = id
    · subst hji
      exact hw
    · exact .inl (ho.withdrawn j hji)

theorem moves_modify {f : Entry κ → Entry κ} (hf : ∀ o, (f o).packetID = o.packetID) :
    s.Moves (s.modify id f) := by
  refine moves_of_only (only_modify hf) (fun h => ?_) (.inl rfl)
  rwa [inflightEntry_modify_self hf, Option.isSome_map] at h

theorem moves_withdraw (h : s.withdraw id = some s') : s.Moves s' := by
  obtain ⟨o, ho, -, hon, hnone, hw, -⟩ := withdraw_spec h
  have hsome : (s.inflightEntry id).isSome = true := by rw [ho]; rfl
  exact moves_of_only hon (fun _ => hsome) (.inr (.inr ⟨hsome, hnone, _, hw, rfl⟩))

theorem moves_nextID (h : s.nextID = some (s', id)) : s.Moves s' := by
  obtain ⟨-, rfl⟩ := nextID_spec h
  exact ⟨rfl, fun _ h => h, fun _ => .inl rfl⟩

theorem Session.Moves.busy (h : s.Moves s') (hb : s'.busy j = true) : s.busy j = true := by
  unfold Session.busy at hb ⊢
  rw [Bool.or_eq_true] at hb ⊢
  rcases hb with hb | hb
  · exact .inl (h.entry j hb)
  · rcases h.withdrawn j with hw | hw | ⟨hin, -⟩
    · exact .inr (by rwa [← hw])
    · rw [hw] at hb
      cases hb
    · exact .inl hin

theorem Session.Moves.disjoint (h : s.Moves s') (hd : s.Disjoint) : s'.Disjoint := by
  intro j hj
  rcases h.withdrawn j with hw | hw | ⟨-, hnone, -⟩
  · rw [hw]
    exact hd j (h.entry j hj)
  · exact hw
  · rw [hnone] at hj
    cases hj

/-- An identifier keeps its age, is forgotten, or is withdrawn just now. -/
theorem Session.Moves.age (h : s.Moves s') (hd : s.Disjoint) (j : PacketID) :
    s'.age j = s.age j ∨ s'.age j = none ∨ (s.age j = none ∧ s'.age j = some 0) := by
  unfold Session.age
  rw [h.attaches]
  rcases h.withdrawn j with hw | hw | ⟨hin, -, w, hw, hm⟩
  · exact .inl (by rw [hw])
  · exact .inr (.inl (by rw [hw]; rfl))
  · refine .inr (.inr ⟨by rw [hd j hin]; rfl, ?_⟩)
    rw [hw, Option.map_some, hm, Nat.sub_self]

section Functions

variable [DecidableEq κ]

theorem moves_completeInflight (s : Session κ) (c : κ) (id : PacketID) :
    s.Moves (s.completeInflight c id).1 := by
  rcases heq : s.completeInflight c id with ⟨s', _ | done⟩
  · obtain ⟨rfl, -⟩ := completeInflight_eq_none heq
    exact .refl s'
  · obtain ⟨o, ho, -, -, hon, hnone, hcase⟩ := completeInflight_spec heq
    have hsome : (s.inflightEntry id).isSome = true := by rw [ho]; rfl
    refine moves_of_only hon (fun _ => hsome) ?_
    rcases hcase with ⟨-, -, hw, -⟩ | ⟨-, -, d, -, hw, -⟩ | ⟨-, -, -, hw, -⟩
    · exact .inl hw
    · exact .inr (.inr ⟨hsome, hnone, _, hw, rfl⟩)
    · exact .inl hw

/-- The delivery goroutine moves identifiers between the maps, hands one out, or tracks a message
under the one it was handed. -/
theorem Delivers.moves {closed : Bool} {a : Act κ} {d d' : Delivery κ} {evs : List (Event κ)}
    (h : Delivers c s closed a d s' d' evs) :
    (s.Moves s' ∧ ∀ id ready, d' ≠ .tracking id ready) ∨
      (∃ id ready, a = .nextID c ∧ d' = .tracking id ready ∧ s.nextID = some (s', id)) ∨
      ∃ id ready o, d = .tracking id ready ∧ d' = .serving (ready ++ [o]) ∧ o.packetID = id ∧
        s' = s.trackInflight o := by
  have hafter : ∀ held (todo : List (Entry κ)) id ready, after held todo ≠ .tracking id ready := by
    intro held todo id ready
    unfold after
    split <;> simp
  cases h with
  | gone o held todo | completed o held todo | pubrel o held todo =>
    exact .inl ⟨.refl s, hafter held todo⟩
  | markResent o held todo _ haw h =>
    obtain ⟨p, hp, hon, -, hw, -⟩ := markResent_spec h
    exact .inl ⟨moves_of_only hon (fun _ => by rw [hp]; rfl) (.inl hw), by simp⟩
  | takeQuotaSlot o held todo _ haw h =>
    obtain ⟨p, hp, hon, -, hw, -⟩ := takeQuotaSlot_spec h
    exact .inl ⟨moves_of_only hon (fun _ => by rw [hp]; rfl) (.inl hw), by simp⟩
  | markResentWritten o held todo =>
    obtain ⟨hon, hent, hw, -⟩ := markResentWritten_spec s c o.packetID
    exact .inl ⟨moves_of_only hon (fun h => by rwa [← hent]) (.inl hw), by simp⟩
  | abandonResend id held todo =>
    obtain ⟨hon, hent, hw, -⟩ := abandonResend_spec s c id
    exact .inl ⟨moves_of_only hon (fun h => by rwa [← hent]) (.inl hw), by simp⟩
  | abandoned id held todo => exact .inl ⟨moves_completeInflight s c id, hafter held todo⟩
  | refuse o ready kept back => exact .inl ⟨moves_completeInflight s c o.packetID, by simp⟩
  | discard id ready => exact .inl ⟨moves_completeInflight s c id, by simp⟩
  | nextID ready _ id h => exact .inr (.inl ⟨id, ready, rfl, rfl, h⟩)
  | track id ready qos msg shared o ho =>
    subst ho
    exact .inr (.inr ⟨id, ready, _, rfl, rfl, rfl, rfl⟩)
  | _ => exact .inl ⟨.refl s, by simp⟩

theorem Handles.moves {closed queue : Bool} {r r' : Reader κ} {evs : List (Event κ)}
    {rel : List (PacketID × Nat)} (h : Handles c s closed queue r s' r' evs rel) :
    s.Moves s' := by
  cases h with
  | complete _ _ a _ done _ _ h =>
    have := moves_completeInflight s c a.id
    rwa [h] at this
  | withdrawn a _ w _ _ h =>
    obtain ⟨-, -, hon, hent, hw, -⟩ := forgetWithdrawn_spec h
    exact moves_of_only hon (fun h => by rwa [← hent]) (.inr (.inl hw))
  | resent a _ quota _ _ h =>
    obtain ⟨_, -, -, -, -, hon, hent, hw, -⟩ := forgetResent_spec h
    exact moves_of_only hon (fun h => by rwa [← hent]) (.inl hw)
  | awaitPubcomp o => exact moves_modify fun _ => rfl
  | pubrel id seq _ _ => exact moves_modify fun _ => rfl
  | _ => exact .refl s

end Functions

/-! ## Attaches and restores -/

/-- The ages that the session counts: none is above two, nor older than the session. -/
def Session.Young (s : Session κ) : Prop :=
  ∀ id w, s.withdrawn id = some w → w.madeAt ≤ s.attaches ∧ s.attaches - w.madeAt < 2

theorem Session.Moves.young (h : s.Moves s') (hy : s.Young) : s'.Young := by
  intro j w hj
  rw [h.attaches]
  rcases h.withdrawn j with hw | hw | ⟨-, -, w', hw, hm⟩
  · exact hy j w (hw.symm.trans hj)
  · rw [hw] at hj
    cases hj
  · rw [hw] at hj
    cases hj
    omega

theorem withdrawn_attach (s : Session κ) (c : κ) (id : PacketID) :
    (s.attach c).withdrawn id =
      (s.withdrawn id).filter fun w => s.attaches + 1 - w.madeAt < 2 := rfl

theorem disjoint_attach (h : s.Disjoint) : (s.attach c).Disjoint := by
  intro j hj
  rw [inflightEntry_attach, Option.isSome_map] at hj
  rw [withdrawn_attach, h j hj]
  rfl

theorem young_attach (h : s.Young) : (s.attach c).Young := by
  intro j w hj
  rw [withdrawn_attach] at hj
  obtain ⟨hw, hlt⟩ := Option.filter_eq_some_iff.mp hj
  exact ⟨(h j w hw).1.trans (Nat.le_succ _), of_decide_eq_true hlt⟩

theorem age_attach (h : s.Young) (id : PacketID) :
    (s.attach c).age id = (s.age id).bind fun n => remembered (n + 1) := by
  unfold Session.age
  rw [withdrawn_attach]
  cases hw : s.withdrawn id with
  | none => rfl
  | some w =>
    have hle := (h id w hw).1
    have hsub : s.attaches + 1 - w.madeAt = s.attaches - w.madeAt + 1 := by omega
    have hatt : (s.attach c).attaches = s.attaches + 1 := rfl
    simp only [Option.map_some, Option.bind_some, Option.filter_some, remembered, hatt, hsub,
      decide_eq_true_eq]
    split_ifs <;> simp [hsub]

/-- The withdrawn part of a record, put into a session that has nothing in flight. -/
structure Restores (s s' : Session κ) (ws : List (PacketID × AckType × Nat)) : Prop where
  inflight : s'.inflight = []
  attaches : s'.attaches = s.attaches
  sound : ∀ id w, s'.withdrawn id = some w → s.withdrawn id = some w ∨
    ∃ x ∈ ws, x.1 = id ∧ x.2.2 < 2 ∧ w = ⟨s.attaches - x.2.2, x.2.1, none⟩
  complete : ∀ id, (s.withdrawn id).isSome = true ∨ (∃ x ∈ ws, x.1 = id ∧ x.2.2 < 2) →
    (s'.withdrawn id).isSome = true

theorem Restores.append {t u : Session κ} {vs : List (PacketID × AckType × Nat)}
    (h : Restores s t ws) (h' : Restores t u vs) : Restores s u (ws ++ vs) := by
  refine ⟨h'.inflight, h'.attaches.trans h.attaches, fun id w hw => ?_, fun id hid => ?_⟩
  · rcases h'.sound id w hw with hw | ⟨x, hx, hid, hage, rfl⟩
    · rcases h.sound id w hw with hw | ⟨x, hx, hid, hage, rfl⟩
      · exact .inl hw
      · exact .inr ⟨x, List.mem_append_left _ hx, hid, hage, rfl⟩
    · exact .inr ⟨x, List.mem_append_right _ hx, hid, hage, by rw [h.attaches]⟩
  · refine h'.complete id ?_
    rcases hid with hid | ⟨x, hx, hid, hage⟩
    · exact .inl (h.complete id (.inl hid))
    · rcases List.mem_append.mp hx with hx | hx
      · exact .inl (h.complete id (.inr ⟨x, hx, hid, hage⟩))
      · exact .inr ⟨x, hx, hid, hage⟩

theorem restores_restoreWithdrawn (h : s.inflight = []) (x : PacketID × AckType × Nat) :
    Restores s (s.restoreWithdrawn x.1 x.2.1 x.2.2) [x] := by
  have hnone : (s.inflightEntry x.1).isSome = false := by
    unfold Session.inflightEntry
    rw [h]
    rfl
  unfold Session.restoreWithdrawn
  by_cases hage : x.2.2 < 2
  · rw [if_neg (by omega), if_neg (by rw [hnone]; exact Bool.false_ne_true)]
    refine ⟨h, rfl, fun id w hw => ?_, fun id hid => ?_⟩
    · by_cases hx : id = x.1
      · subst hx
        simp only [update_self] at hw
        exact .inr ⟨x, List.mem_singleton_self x, rfl, hage, (Option.some.inj hw).symm⟩
      · simp only [update_of_ne hx] at hw
        exact .inl hw
    · by_cases hx : id = x.1
      · subst hx
        simp only [update_self, Option.isSome_some]
      · simp only [update_of_ne hx]
        refine hid.resolve_right ?_
        rintro ⟨y, hy, hid, -⟩
        rw [List.mem_singleton.mp hy] at hid
        exact hx hid.symm
  · rw [if_pos (by omega)]
    refine ⟨h, rfl, fun id w hw => .inl hw, fun id hid => hid.resolve_right ?_⟩
    rintro ⟨y, hy, -, hy2⟩
    rw [List.mem_singleton.mp hy] at hy2
    exact hage hy2

theorem restores_foldl (ws : List (PacketID × AckType × Nat)) (h : s.inflight = []) :
    Restores s (ws.foldl (fun s w => s.restoreWithdrawn w.1 w.2.1 w.2.2) s) ws := by
  induction ws generalizing s with
  | nil =>
    refine ⟨h, rfl, fun _ _ hw => .inl hw, fun id hid => hid.resolve_right ?_⟩
    rintro ⟨x, hx, -⟩
    cases hx
  | cons x ws ih =>
    have hone := restores_restoreWithdrawn h x
    exact hone.append (ih hone.inflight)

/-- The in-flight part of a record. -/
structure Refills (s s' : Session κ) (inflight : List (Entry κ)) : Prop where
  withdrawn : s'.withdrawn = s.withdrawn
  attaches : s'.attaches = s.attaches
  entry : ∀ id, (s'.inflightEntry id).isSome = true →
    (s.inflightEntry id).isSome = true ∨ id ∈ inflight.map Entry.packetID

theorem refills_foldl (f : Entry κ → Entry κ) (hf : ∀ o, (f o).packetID = o.packetID)
    (inflight : List (Entry κ)) :
    Refills s (inflight.foldl (fun s o => s.restoreInflight (f o)) s) inflight := by
  induction inflight generalizing s with
  | nil => exact ⟨rfl, rfl, fun _ h => .inl h⟩
  | cons o l ih =>
    have hone : Refills s (s.restoreInflight (f o)) [o] := by
      unfold Session.restoreInflight
      split
      · exact ⟨rfl, rfl, fun _ h => .inl h⟩
      · refine ⟨rfl, rfl, fun id hid => ?_⟩
        by_cases hj : id = (f o).packetID
        · exact .inr (by simp [hj, hf])
        · rw [inflightEntry_track_of_ne hj] at hid
          exact .inl hid
    obtain ⟨hw, hatt, hent⟩ := ih (s := s.restoreInflight (f o))
    refine ⟨hw.trans hone.withdrawn, hatt.trans hone.attaches, fun id hid => ?_⟩
    rcases hent id hid with h | h
    · rcases hone.entry id h with h | h
      · exact .inl h
      · rw [List.map_singleton, List.mem_singleton] at h
        exact .inr (List.mem_map.mpr ⟨o, List.mem_cons_self, h.symm⟩)
    · exact .inr (List.mem_cons_of_mem _ h)

/-- What a restored session has of its record. -/
theorem restored_maps (n : Nat) (inflight : List (Entry κ)) (ws : List (PacketID × AckType × Nat)) :
    (∀ id, ((restored n inflight ws).inflightEntry id).isSome = true →
        id ∈ inflight.map Entry.packetID) ∧
      (∀ id w, (restored n inflight ws).withdrawn id = some w →
        (restored n inflight ws).attaches = 2 ∧
          ∃ x ∈ ws, x.1 = id ∧ x.2.2 < 2 ∧ w = ⟨2 - x.2.2, x.2.1, none⟩) ∧
      ∀ x ∈ ws, x.2.2 < 2 → ((restored n inflight ws).withdrawn x.1).isSome = true := by
  let s₀ : Session κ := { sendSeq := n, attaches := if ws = [] then 0 else 2 }
  have hw := restores_foldl (s := s₀) ws rfl
  have hin := refills_foldl (s := ws.foldl (fun s w => s.restoreWithdrawn w.1 w.2.1 w.2.2) s₀)
    (fun o => { packetID := o.packetID, qos := o.qos, msg := o.msg,
                awaitingPubcomp := o.awaitingPubcomp, shared := o.shared }) (fun _ => rfl) inflight
  refine ⟨fun id hid => (hin.entry id hid).resolve_left ?_, fun id w hid => ?_, fun x hx hage => ?_⟩
  · unfold Session.inflightEntry
    rw [hw.inflight]
    exact Bool.false_ne_true
  · rcases hw.sound id w (hin.withdrawn ▸ hid) with h | ⟨x, hx, hxid, hage, rfl⟩
    · cases h
    · have htwo : s₀.attaches = 2 := if_neg (List.ne_nil_of_mem hx)
      rw [htwo]
      exact ⟨hin.attaches.trans (hw.attaches.trans htwo), x, hx, hxid, hage, rfl⟩
  · have := hw.complete x.1 (.inr ⟨x, hx, rfl, hage⟩)
    rwa [← hin.withdrawn] at this

theorem young_restored (n : Nat) (inflight : List (Entry κ))
    (ws : List (PacketID × AckType × Nat)) : (restored n inflight ws).Young := by
  intro id w hw
  obtain ⟨htwo, x, -, -, hage, rfl⟩ := (restored_maps n inflight ws).2.1 id w hw
  rw [htwo]
  exact ⟨Nat.sub_le _ _, by simp only; omega⟩

theorem mem_withdrawnLocked : x ∈ s.withdrawnLocked ↔
    x.1 < 0x10000 ∧ ∃ w, s.withdrawn x.1 = some w ∧ x.2 = (w.owed, s.attaches - w.madeAt) := by
  unfold Session.withdrawnLocked
  rw [List.mem_filterMap]
  constructor
  · rintro ⟨id, hid, hx⟩
    obtain ⟨w, hw, rfl⟩ := Option.map_eq_some_iff.mp hx
    exact ⟨List.mem_range.mp hid, w, hw, rfl⟩
  · rintro ⟨hid, w, hw, hx⟩
    refine ⟨x.1, List.mem_range.mpr hid, ?_⟩
    rw [hw, Option.map_some, ← hx]

/-- A session that is released and restored has the same identifiers withdrawn, of the same age. -/
theorem age_move (h : s.Young) (inflight : List (Entry κ)) (hid : id < 0x10000) :
    (restored s.sendSeq inflight s.withdrawnLocked).age id = s.age id := by
  obtain ⟨-, hsound, hcomplete⟩ := restored_maps s.sendSeq inflight s.withdrawnLocked
  unfold Session.age
  cases hw : s.withdrawn id with
  | none =>
    cases hr : (restored s.sendSeq inflight s.withdrawnLocked).withdrawn id with
    | none => rfl
    | some w =>
      obtain ⟨-, x, hx, rfl, -⟩ := hsound id w hr
      obtain ⟨-, w', hw', -⟩ := mem_withdrawnLocked.mp hx
      rw [hw] at hw'
      cases hw'
  | some w =>
    have hage := (h id w hw).2
    have hmem : (id, w.owed, s.attaches - w.madeAt) ∈ s.withdrawnLocked :=
      mem_withdrawnLocked.mpr ⟨hid, w, hw, rfl⟩
    obtain ⟨w', hr⟩ := Option.isSome_iff_exists.mp (hcomplete _ hmem hage)
    obtain ⟨htwo, x, hx, hxid, -, rfl⟩ := hsound id w' hr
    obtain ⟨-, w'', hw'', hx2⟩ := mem_withdrawnLocked.mp hx
    rw [hxid, hw] at hw''
    cases hw''
    rw [hr, htwo, hx2]
    simp only [Option.map_some, Option.some.injEq]
    omega

theorem young_turn (h : s.Young) (t : Turn κ) : (s.turn t).Young := by
  cases t with
  | attach c => exact young_attach h
  | move inflight => exact young_restored _ _ _

theorem age_lt (h : s.Young) (hn : s.age id = some n) : n < 2 := by
  obtain ⟨w, hw, rfl⟩ := Option.map_eq_some_iff.mp hn
  exact (h id w hw).2

theorem age_turn (h : s.Young) (hid : id < 0x10000) (t : Turn κ) :
    (s.turn t).age id = (s.age id).bind fun n => remembered (n + if t.isAttach then 1 else 0) := by
  cases t with
  | attach c => exact age_attach h id
  | move inflight =>
    refine (age_move h inflight hid).trans ?_
    cases hage : s.age id with
    | none => rfl
    | some n => exact (if_pos (age_lt h hage)).symm

theorem remembered_bind (n k : Nat) :
    ((remembered n).bind fun m => remembered (m + k)) = remembered (n + k) := by
  unfold remembered
  split_ifs with hn hk hk
  · exact if_pos hk
  · exact if_neg hk
  · omega
  · rfl

/-- The age of an identifier after any attaches, releases and restores: one more for each attach. -/
theorem age_turns (h : s.Young) (hid : id < 0x10000) (ts : List (Turn κ)) :
    (ts.foldl Session.turn s).age id =
      (s.age id).bind fun n => remembered (n + ts.countP Turn.isAttach) := by
  induction ts generalizing s with
  | nil =>
    cases hage : s.age id with
    | none => exact hage
    | some n => exact hage.trans (if_pos (age_lt h hage)).symm
  | cons t ts ih =>
    rw [List.foldl_cons, ih (young_turn h t), age_turn h hid, Option.bind_assoc]
    congr 1
    funext n
    rw [remembered_bind, List.countP_cons, Nat.add_assoc, Nat.add_comm (List.countP _ _)]

/-! ## Runs -/

/-- The identifier that `nextID` has handed out and no message is tracked under yet. -/
def Delivery.allocated : Delivery κ → Option PacketID
  | .tracking id _ => some id
  | _ => none

variable [DecidableEq κ]

/-- The two parts of a record that a step restores. -/
def Act.record : Act κ → Option (List (Entry κ) × List (PacketID × AckType × Nat))
  | .restore inflight ws => some (inflight, ws)
  | _ => none

/-- The connection that a step hands an identifier to. -/
def Act.allocates : Act κ → Option κ
  | .nextID c => some c
  | _ => none

/-- A record names no identifier in flight and withdrawn, and `nextID` hands out none that another
delivery goroutine has been handed and has not tracked a message under. -/
def Separate (s : State κ) (a : Act κ) : Prop :=
  (∀ r ∈ a.record, ∀ x ∈ r.2, x.2.2 < 2 → x.1 ∉ r.1.map Entry.packetID) ∧
    ∀ c ∈ a.allocates, ∀ p ∈ s.sess.nextID, ∀ d, d ≠ c →
      (s.conns d).delivery.allocated ≠ some p.2

/-- The invariant. -/
structure Apart (s : State κ) : Prop where
  disjoint : s.sess.Disjoint
  young : s.sess.Young
  fresh : ∀ c id, (s.conns c).delivery.allocated = some id → s.sess.busy id = false
  once : ∀ c d id, (s.conns c).delivery.allocated = some id →
    (s.conns d).delivery.allocated = some id → c = d
  offline : ∀ c, (s.conns c).reader = .offline → (s.conns c).delivery = .waiting

variable {s t : State κ} {sess : Session κ} {k : Conn κ} {log : List (Event κ)}

/-- A step that hands out no identifier. -/
theorem Apart.set (h : Apart s) (hd : sess.Disjoint) (hy : sess.Young)
    (hbusy : ∀ j, sess.busy j = true → s.sess.busy j = true)
    (hk : k.delivery.allocated = none ∨ k.delivery = (s.conns c).delivery)
    (hoff : k.reader = .offline → k.delivery = .waiting) :
    Apart ⟨sess, update s.conns c k, log⟩ := by
  have halloc : ∀ d id, ((update s.conns c k) d).delivery.allocated = some id →
      (s.conns d).delivery.allocated = some id := by
    intro d id hd
    by_cases hdc : d = c
    · subst hdc
      rw [update_self] at hd
      rcases hk with hk | hk
      · rw [hk] at hd
        cases hd
      · rwa [hk] at hd
    · rwa [update_of_ne hdc] at hd
  refine ⟨hd, hy, fun d id hd => ?_,
    fun d e id hd he => h.once d e id (halloc d id hd) (halloc e id he), fun d hd => ?_⟩
  · have hfree := h.fresh d id (halloc d id hd)
    by_contra hb
    rw [hbusy id (by simpa using hb)] at hfree
    cases hfree
  · by_cases hdc : d = c
    · subst hdc
      simp only [update_self] at hd ⊢
      exact hoff hd
    · simp only [update_of_ne hdc] at hd ⊢
      exact h.offline d hd

/-- A step of one connection that leaves its delivery goroutine where it is. -/
theorem Apart.moves (h : Apart s) (hm : s.sess.Moves sess) (hk : k.delivery = (s.conns c).delivery)
    (hr : k.reader = .offline → (s.conns c).reader = .offline) :
    Apart ⟨sess, update s.conns c k, log⟩ :=
  h.set (hm.disjoint h.disjoint) (hm.young h.young) (fun _ => hm.busy) (.inr hk)
    fun hoff => hk.trans (h.offline c (hr hoff))

theorem Handles.online {queue : Bool} {r r' : Reader κ} {rel : List (PacketID × Nat)}
    (h : Handles c sess closed queue r sess' r' evs rel) : r' ≠ .offline := by
  cases h with
  | complete _ _ _ _ _ _ hr' | pubrec _ _ _ _ hr' => rcases hr' with rfl | rfl | rfl <;> simp
  | withdrawn _ _ _ _ hr' | resent _ _ _ _ hr' | giveUp _ _ _ hr' =>
    rcases hr' with rfl | rfl <;> simp
  | _ => simp

omit [DecidableEq κ] in
theorem Apart.kill (h : Apart s) (hd : sess.Disjoint) (hy : sess.Young)
    (log : List (Event κ)) : Apart ⟨sess, fun c => (s.conns c).kill, log⟩ := by
  have hkill : ∀ c, (s.conns c).kill.delivery.allocated = none ∧
      ((s.conns c).kill.reader = .offline → (s.conns c).kill.delivery = .waiting) := by
    intro c
    unfold Conn.kill
    split
    · rename_i hoff
      rw [h.offline c hoff]
      exact ⟨rfl, fun _ => rfl⟩
    · exact ⟨rfl, nofun⟩
  refine ⟨hd, hy, fun c id hc => ?_, fun c d id hc _ => ?_, fun c hc => (hkill c).2 hc⟩
  · rw [(hkill c).1] at hc
    cases hc
  · rw [(hkill c).1] at hc
    cases hc

/-- `nextID` hands out an identifier that is in neither map, to one goroutine. -/
theorem Apart.handOut (h : Apart s) (hn : s.sess.nextID = some (sess, id))
    (hother : ∀ d, d ≠ c → (s.conns d).delivery.allocated ≠ some id)
    (hd : k.delivery = .tracking id ready) (hoff : k.reader ≠ .offline) :
    Apart ⟨sess, update s.conns c k, log⟩ := by
  have hm := moves_nextID hn
  obtain ⟨hfree, rfl⟩ := nextID_spec hn
  have halloc : ∀ d j, ((update s.conns c k) d).delivery.allocated = some j →
      (d = c ∧ j = id) ∨ (d ≠ c ∧ (s.conns d).delivery.allocated = some j) := by
    intro d j hj
    by_cases hdc : d = c
    · subst hdc
      rw [update_self, hd] at hj
      exact .inl ⟨rfl, (Option.some.inj hj).symm⟩
    · rw [update_of_ne hdc] at hj
      exact .inr ⟨hdc, hj⟩
  refine ⟨hm.disjoint h.disjoint, hm.young h.young, fun d j hj => ?_, fun d e j hdj hej => ?_,
    fun d hdo => ?_⟩
  · rcases halloc d j hj with ⟨-, rfl⟩ | ⟨-, hj⟩
    · exact hfree
    · exact h.fresh d j hj
  · rcases halloc d j hdj with ⟨rfl, rfl⟩ | ⟨hd', hj⟩
    · rcases halloc e j hej with ⟨rfl, -⟩ | ⟨he, hj⟩
      · rfl
      · exact absurd hj (hother e he)
    · rcases halloc e j hej with ⟨rfl, rfl⟩ | ⟨-, hj'⟩
      · exact absurd hj (hother d hd')
      · exact h.once d e j hj hj'
  · by_cases hdc : d = c
    · subst hdc
      simp only [update_self] at hdo
      exact absurd hdo hoff
    · simp only [update_of_ne hdc] at hdo ⊢
      exact h.offline d hdo

/-- A message is tracked under the identifier its goroutine was handed. -/
theorem Apart.track (h : Apart s) (hc : (s.conns c).delivery = .tracking o.packetID ready)
    (hk : k.delivery.allocated = none) (hoff : k.reader ≠ .offline) :
    Apart ⟨s.sess.trackInflight o, update s.conns c k, log⟩ := by
  have hown : (s.conns c).delivery.allocated = some o.packetID := by rw [hc]; rfl
  have hfree := h.fresh c o.packetID hown
  have hbusy : ∀ j, j ≠ o.packetID → (s.sess.trackInflight o).busy j = s.sess.busy j := by
    intro j hj
    unfold Session.busy
    rw [inflightEntry_track_of_ne hj]
    rfl
  have halloc : ∀ d j, ((update s.conns c k) d).delivery.allocated = some j →
      d ≠ c ∧ (s.conns d).delivery.allocated = some j := by
    intro d j hj
    by_cases hdc : d = c
    · subst hdc
      rw [update_self, hk] at hj
      cases hj
    · rw [update_of_ne hdc] at hj
      exact ⟨hdc, hj⟩
  refine ⟨fun j hj => ?_, h.young, fun d j hj => ?_, fun d e j hdj hej => ?_, fun d hdo => ?_⟩
  · by_cases hjo : j = o.packetID
    · subst hjo
      have : (s.sess.withdrawn o.packetID).isSome = false := by
        unfold Session.busy at hfree
        exact (Bool.or_eq_false_iff.mp hfree).2
      exact Option.isSome_eq_false_iff.mp this |> Option.isNone_iff_eq_none.mp
    · rw [inflightEntry_track_of_ne hjo] at hj
      exact h.disjoint j hj
  · obtain ⟨hdc, hj⟩ := halloc d j hj
    rw [hbusy j fun hjo => hdc (h.once d c j hj (hjo ▸ hown))]
    exact h.fresh d j hj
  · exact h.once d e j (halloc d j hdj).2 (halloc e j hej).2
  · by_cases hdc : d = c
    · subst hdc
      simp only [update_self] at hdo
      exact absurd hdo hoff
    · simp only [update_of_ne hdc] at hdo ⊢
      exact h.offline d hdo

omit [DecidableEq κ] in
theorem busy_attach (h : (sess.attach c).busy j = true) : sess.busy j = true := by
  unfold Session.busy at h ⊢
  rw [Bool.or_eq_true] at h ⊢
  rcases h with h | h
  · rw [inflightEntry_attach, Option.isSome_map] at h
    exact .inl h
  · rw [withdrawn_attach] at h
    exact .inr (Option.isSome_of_isSome_filter _ _ h)

theorem step_apart (h : Apart s) (hok : Separate s a) (hs : step s a = some t) : Apart t := by
  have hsame := Session.Moves.refl s.sess
  cases step_outcome hs with
  | attach c n hoff =>
    exact h.set (disjoint_attach h.disjoint) (young_attach h.young) (fun _ => busy_attach)
      (.inr rfl) nofun
  | restore inflight ws =>
    refine h.kill (fun id hid => ?_) (young_restored _ _ _) s.log
    obtain ⟨hin, hsound, -⟩ := restored_maps s.sess.sendSeq inflight ws
    by_contra hw
    obtain ⟨w, hw⟩ := Option.ne_none_iff_exists'.mp hw
    obtain ⟨-, x, hx, rfl, hage, -⟩ := hsound id w hw
    exact hok.1 _ rfl x hx hage (hin x.1 hid)
  | withdraw id sess hw =>
    have hm := moves_withdraw hw
    refine ⟨hm.disjoint h.disjoint, hm.young h.young, fun c j hj => ?_, h.once, h.offline⟩
    by_contra hb
    have := h.fresh c j hj
    rw [hm.busy (by simpa using hb)] at this
    cases this
  | unacknowledged c hd hr =>
    exact h.set h.disjoint h.young (fun _ hb => hb) (.inl rfl) fun hoff => absurd hoff hr
  | deliver c d sess d' evs b q p hd hdel hb =>
    have hon : (s.conns c).reader ≠ .offline :=
      fun hoff => hdel.started (hd.symm.trans (h.offline c hoff))
    rcases hdel.moves with
      ⟨hm, hd'⟩ | ⟨id, ready, rfl, rfl, hn⟩ | ⟨id, ready, o, rfl, rfl, rfl, rfl⟩
    · refine h.set (hm.disjoint h.disjoint) (hm.young h.young) (fun _ => hm.busy) (.inl ?_)
        fun hoff => absurd hoff hon
      cases d' with
      | tracking id ready => exact absurd rfl (hd' id ready)
      | _ => rfl
    · exact h.handOut hn (hok.2 c rfl _ hn) rfl hon
    · exact h.track hd rfl hon
  | read c a inbox hr hin =>
    refine h.moves hsame rfl fun hoff => ?_
    unfold recv at hoff
    simp only at hoff
    split at hoff <;> cases hoff
  | handle c queue r sess r' evs rel b q hr hh hb =>
    exact h.moves hh.moves rfl fun hoff => absurd hoff hh.online
  | writePubrel c failed id seq rest hdr hc =>
    exact h.moves (moves_modify fun _ => rfl) rfl fun hoff => hoff
  | _ => exact h.moves hsame rfl fun hoff => hoff

/-- The steps that end one stretch of a session and begin another. -/
def Act.turns : Act κ → Bool
  | .attach _ _ => true
  | .restore _ _ => true
  | _ => false

theorem step_age (h : Apart s) (hs : step s a = some t) (ha : a.turns = false)
    (id : PacketID) : t.sess.age id = s.sess.age id ∨ t.sess.age id = none ∨
      (s.sess.age id = none ∧ t.sess.age id = some 0) := by
  cases step_outcome hs with
  | attach => cases ha
  | restore => cases ha
  | withdraw _ _ hw => exact (moves_withdraw hw).age h.disjoint id
  | deliver c d sess d' evs b q p hd hdel hb =>
    rcases hdel.moves with ⟨hm, -⟩ | ⟨_, _, -, -, hn⟩ | ⟨_, _, o, -, -, -, rfl⟩
    · exact hm.age h.disjoint id
    · exact (moves_nextID hn).age h.disjoint id
    · exact .inl rfl
  | handle c queue r sess r' evs rel b q hr hh hb => exact hh.moves.age h.disjoint id
  | _ => exact .inl rfl

omit [DecidableEq κ] in
theorem apart_empty : Apart ({} : State κ) := by
  refine ⟨fun id hid => rfl, fun id w hw => ?_, fun c id hc => ?_, fun c d id hc _ => ?_,
    fun c _ => rfl⟩
  · cases hw
  · cases hc
  · cases hc

/-- **In flight and withdrawn never overlap.** In every run in which no restored record names an
identifier in both parts and `nextID` hands out none that is still to be tracked elsewhere: no
identifier is in both maps; a step leaves the age of an identifier, forgets it, or withdraws it at
age 0; and after any number of attaches, releases and restores the age is the number of attaches
more. -/
theorem inflight_withdrawn_disjoint (s : State κ) (h : Lts.Reach step Separate {} s) :
    s.sess.Disjoint ∧
      (∀ a t, step s a = some t → a.turns = false → ∀ id,
        t.sess.age id = s.sess.age id ∨ t.sess.age id = none ∨
          (s.sess.age id = none ∧ t.sess.age id = some 0)) ∧
      ∀ (ts : List (Turn κ)) id, id < 0x10000 → (ts.foldl Session.turn s.sess).age id =
        (s.sess.age id).bind fun n => remembered (n + ts.countP Turn.isAttach) := by
  have hinv : Apart s := h.invariant apart_empty fun _ _ _ hu hok hs => step_apart hu hok hs
  exact ⟨hinv.disjoint, fun _ _ hs ha => step_age hinv hs ha,
    fun ts _ hid => age_turns hinv.young hid ts⟩

/-! ## Two runs -/

instance [Fintype κ] (s : State κ) (a : Act κ) : Decidable (Separate s a) :=
  inferInstanceAs (Decidable ((∀ r ∈ a.record, _) ∧ ∀ c ∈ a.allocates, _))

/-- A message is sent. -/
def sentRun : List (Act (Fin 2)) :=
  [.attach 0 1, .unacknowledged 0, .resend 0, .takeSlot 0, .nextID 0,
    .trackInflight 0 .qos1 7 false]

/-- The entry it leaves. -/
def sentEntry : Entry (Fin 2) := ⟨1, .qos1, 1, 7, false, true, none, false⟩

theorem inflight_withdrawn_disjoint_moved :
    ∃ s : State (Fin 2), Lts.Reach step Separate {} s ∧ s.sess.age 1 = some 0 ∧ s.sess.Disjoint ∧
      ([.move [], .attach 1, .move [], .move []].foldl Session.turn s.sess).age 1 = some 1 := by
  refine Lts.exists_reach_of (sentRun ++ [.withdraw 1]) (by decide) fun s hreach hage => ?_
  obtain ⟨hdisj, -, hturns⟩ := inflight_withdrawn_disjoint s hreach
  refine ⟨hdisj, ?_⟩
  rw [hturns _ 1 (by decide), hage]
  rfl

omit [DecidableEq κ] in
theorem restoreInflight_isSome (sess : Session κ) (o : Entry κ) :
    ((sess.restoreInflight o).inflightEntry o.packetID).isSome = true := by
  unfold Session.restoreInflight
  split
  · assumption
  · rw [inflightEntry_track_self]
    rfl

omit [DecidableEq κ] in
theorem not_disjoint_restored (hx : x ∈ ws) (hage : x.2.2 < 2)
    (hid : o.packetID = x.1) : ¬ (restored n [o] ws).Disjoint := by
  intro hdisj
  have hsome := (restored_maps n [o] ws).2.2 x hx hage
  rw [← hid, hdisj o.packetID (restoreInflight_isSome _ _)] at hsome
  cases hsome

/-- The in-flight part of the record is from before the message is withdrawn, the withdrawn part
from after. -/
theorem inflight_withdrawn_overlap :
    ∃ s₁ s₂ s₃ : State (Fin 2), Lts.Reach step Lts.free {} s₁ ∧
      step s₁ (.withdraw 1) = some s₂ ∧
      step s₂ (.restore s₁.sess.inflight s₂.sess.withdrawnLocked) = some s₃ ∧
      ¬ s₃.sess.Disjoint := by
  obtain ⟨s₁, hreach, hin⟩ : ∃ s : State (Fin 2), Lts.Reach step Lts.free {} s ∧
      s.sess.inflight = [sentEntry] := Lts.exists_reach sentRun (by decide)
  have hent : s₁.sess.inflightEntry 1 = some sentEntry := by
    unfold Session.inflightEntry
    rw [hin]
    rfl
  obtain ⟨sess, hw⟩ : ∃ sess, s₁.sess.withdraw 1 = some sess := by
    unfold Session.withdraw
    rw [hent]
    exact ⟨_, rfl⟩
  obtain ⟨o, ho, -, hon, -, hw', -⟩ := withdraw_spec hw
  rw [hent] at ho
  cases ho
  have hmem : (1, .puback, 0) ∈ sess.withdrawnLocked := by
    refine mem_withdrawnLocked.mpr ⟨by simp, _, hw', ?_⟩
    rw [hon.attaches]
    simp [withdrawal, owedAck, sentEntry]
  have hover : ¬ (restored sess.sendSeq s₁.sess.inflight sess.withdrawnLocked).Disjoint := by
    rw [hin]
    exact not_disjoint_restored hmem Nat.zero_lt_two rfl
  exact ⟨s₁, { s₁ with sess := sess }, _, hreach, congrArg (Option.map _) hw, rfl, hover⟩

end Natsmqtt5.Outbound
