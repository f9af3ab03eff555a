import Natsmqtt5.Checkpoint.Model

/-!
# What a session keeps from one moment to the next

An in-flight entry is known by its place in the order of sending, which is never given twice: it
stays with its identifier, may move past its PUBREC, and once gone does not come back. A delivered
id is remembered for as long as a replay could rewind.
-/

namespace Natsmqtt5.Checkpoint

open Natsmqtt5.Cursor (Mark)

variable {μ : Type} {cfg : Config} {s s' : Session μ}

/-- How long an id is certain to be listed: the rewind, and the skew before a checkpoint's time. -/
def Config.remembered (cfg : Config) : Nat := cfg.window + min cfg.skew cfg.window

/-- A position of the connection: the skew before some moment up to `now`, or the first one. -/
def Position.Before (p : Position) (cfg : Config) (now : Nat) : Prop :=
  p.time = 0 ∨ p.time + cfg.skew ≤ now

/-- The id was noted at time `a`, and is remembered unless that is longer ago. -/
def Noted (cfg : Config) (s : Session μ) (id : μ) (a : Nat) : Prop :=
  a ≤ s.now ∧ ((∃ m ∈ s.delivered, m.id = id ∧ a ≤ m.time) ∨ a + cfg.remembered < s.now)

/-- The entry `o'` was `o`. -/
def Outbound.Was (o' o : Outbound) : Prop :=
  o.seq = o'.seq ∧ o.packetID = o'.packetID ∧ o.queueSeq = o'.queueSeq ∧
    (o.awaitingPubcomp = true → o'.awaitingPubcomp = true)

theorem Outbound.Was.refl (o : Outbound) : o.Was o := ⟨rfl, rfl, rfl, id⟩

/-- The places in the order of sending were given out by `sendSeq`, each once. -/
structure Session.Numbered (s : Session μ) : Prop where
  le : ∀ o ∈ s.inflight, o.seq ≤ s.sendSeq
  ids : ∀ o ∈ s.inflight, ∀ o' ∈ s.inflight, o.seq = o'.seq → o.packetID = o'.packetID

structure Follows (cfg : Config) (s s' : Session μ) : Prop where
  sendSeq : s.sendSeq ≤ s'.sendSeq
  entries : ∀ o' ∈ s'.inflight, o'.seq ≤ s.sendSeq → ∃ o ∈ s.inflight, o'.Was o
  numbered : s.Numbered → s'.Numbered
  now : s.now ≤ s'.now
  position : s.position.Before cfg s.now → s'.position.Before cfg s'.now
  noted : ∀ id a, Noted cfg s id a → Noted cfg s' id a

namespace Follows

/-- A change of the in-flight entries alone. -/
theorem of_entries (hseq : s'.sendSeq = s.sendSeq) (hnow : s'.now = s.now)
    (hdel : s'.delivered = s.delivered)
    (hpos : s.position.Before cfg s.now → s'.position.Before cfg s'.now)
    (h : ∀ o' ∈ s'.inflight, ∃ o ∈ s.inflight, o'.Was o) : Follows cfg s s' where
  sendSeq := hseq ▸ Nat.le_refl _
  entries o' ho' _ := h o' ho'
  numbered hn := by
    refine ⟨fun o' ho' => ?_, fun o₁' h₁' o₂' h₂' heq => ?_⟩
    · obtain ⟨o, ho, hwas⟩ := h o' ho'
      rw [hseq, ← hwas.1]
      exact hn.le o ho
    · obtain ⟨o₁, h₁, hwas₁⟩ := h o₁' h₁'
      obtain ⟨o₂, h₂, hwas₂⟩ := h o₂' h₂'
      rw [← hwas₁.2.1, ← hwas₂.2.1]
      exact hn.ids o₁ h₁ o₂ h₂ (hwas₁.1.trans (heq.trans hwas₂.1.symm))
  now := hnow ▸ Nat.le_refl _
  position := hpos
  noted id a ha := by
    unfold Noted at ha ⊢
    rwa [hnow, hdel]

/-- A change of none of it. -/
theorem of_eq (hseq : s'.sendSeq = s.sendSeq) (hnow : s'.now = s.now)
    (hdel : s'.delivered = s.delivered)
    (hpos : s.position.Before cfg s.now → s'.position.Before cfg s'.now)
    (h : s'.inflight = s.inflight) : Follows cfg s s' :=
  of_entries hseq hnow hdel hpos fun o' ho' => ⟨o', h ▸ ho', .refl o'⟩

theorem refl (s : Session μ) : Follows cfg s s := of_eq rfl rfl rfl (fun hp => hp) rfl

/-- Time passes. -/
theorem tick (s : Session μ) (dt : Nat) : Follows cfg s { s with now := s.now + dt } where
  sendSeq := Nat.le_refl _
  entries o' ho' _ := ⟨o', ho', .refl o'⟩
  numbered hn := ⟨hn.le, hn.ids⟩
  now := Nat.le_add_right ..
  position hp := hp.imp_right fun hle => Nat.le_trans hle (Nat.le_add_right ..)
  noted id a ha := by
    obtain ⟨hle, hm | hold⟩ := ha
    · exact ⟨Nat.le_trans hle (Nat.le_add_right ..), .inl hm⟩
    · exact ⟨Nat.le_trans hle (Nat.le_add_right ..),
        .inr (Nat.lt_of_lt_of_le hold (Nat.le_add_right ..))⟩

theorem trackInflight (s : Session μ) (o : Outbound) : Follows cfg s (s.trackInflight o) where
  sendSeq := Nat.le_succ _
  entries o' ho' hle := by
    rcases (Keyed.mem_put Outbound.packetID).mp ho' with ⟨hmem, -⟩ | rfl
    · exact ⟨o', hmem, .refl o'⟩
    · exact absurd hle (Nat.not_succ_le_self _)
  numbered hn := by
    have hold : ∀ o' ∈ (s.trackInflight o).inflight,
        (o' ∈ s.inflight ∧ o'.seq ≤ s.sendSeq) ∨ o' = { o with seq := s.sendSeq + 1 } := by
      intro o' ho'
      rcases (Keyed.mem_put Outbound.packetID).mp ho' with ⟨hmem, -⟩ | rfl
      · exact .inl ⟨hmem, hn.le o' hmem⟩
      · exact .inr rfl
    refine ⟨fun o' ho' => ?_, fun o₁ h₁ o₂ h₂ heq => ?_⟩
    · rcases hold o' ho' with ⟨-, hle⟩ | rfl
      · exact Nat.le_succ_of_le hle
      · exact Nat.le_refl _
    · rcases hold o₁ h₁ with ⟨hm₁, hle₁⟩ | rfl
      · rcases hold o₂ h₂ with ⟨hm₂, -⟩ | rfl
        · exact hn.ids o₁ hm₁ o₂ hm₂ heq
        · exact absurd (heq ▸ hle₁) (Nat.not_succ_le_self _)
      · rcases hold o₂ h₂ with ⟨-, hle₂⟩ | rfl
        · exact absurd (heq ▸ hle₂) (Nat.not_succ_le_self _)
        · rfl
  now := Nat.le_refl _
  position hp := hp
  noted _ _ ha := ha

/-- Entries are changed in place. -/
theorem modify (s : Session μ) (id : Nat) {f : Outbound → Outbound} (hf : ∀ o, (f o).Was o) :
    Follows cfg s { s with inflight := Keyed.modify Outbound.packetID f s.inflight id } := by
  refine of_entries rfl rfl rfl (fun hp => hp) fun o' ho' => ?_
  obtain ⟨o, ho, rfl⟩ := List.mem_map.mp ho'
  refine ⟨o, ho, ?_⟩
  split
  · exact hf o
  · exact .refl o

theorem awaitPubcomp (s : Session μ) (id : Nat) : Follows cfg s (s.awaitPubcomp id) :=
  modify s id fun _ => ⟨rfl, rfl, rfl, fun _ => rfl⟩

theorem settleOwned (s : Session μ) (id : Nat) : Follows cfg s (s.settleOwned id) :=
  modify s id fun _ => ⟨rfl, rfl, rfl, fun h => h⟩

theorem completeInflight (s : Session μ) (id : Nat) (other : Bool) :
    Follows cfg s (s.completeInflight id other) := by
  unfold Session.completeInflight
  split
  · exact refl s
  · exact of_entries rfl rfl rfl (fun hp => hp) fun o' ho' =>
      ⟨o', ((Keyed.mem_erase Outbound.packetID).mp ho').1, .refl o'⟩

theorem withdraw (s : Session μ) (p : Outbound → Bool) : Follows cfg s (s.withdraw p) :=
  of_entries rfl rfl rfl (fun hp => hp) fun o' ho' => ⟨o', (List.mem_filter.mp ho').1, .refl o'⟩

variable [DecidableEq μ]

/-- An id is noted, and ids that are too old are forgotten. -/
theorem noteDelivered (s : Session μ) (id : μ) (seq : Nat) (pruned : List μ) (drop : Bool) :
    Follows cfg s (s.noteDelivered cfg.window id seq pruned drop) where
  sendSeq := Nat.le_refl _
  entries o' ho' _ := ⟨o', ho', .refl o'⟩
  numbered hn := ⟨hn.le, hn.ids⟩
  now := Nat.le_refl _
  position hp := hp
  noted id' a ha := by
    obtain ⟨hle, hm | hold⟩ := ha
    · refine ⟨hle, ?_⟩
      obtain ⟨m, hm, rfl, ham⟩ := hm
      -- the mark of the id, which is the new one when it is noted again
      obtain ⟨m', hm', hid, ham'⟩ : ∃ m' ∈ Keyed.put Mark.id s.delivered ⟨id, s.now, seq⟩,
          m'.id = m.id ∧ a ≤ m'.time := by
        by_cases hid : m.id = id
        · exact ⟨⟨id, s.now, seq⟩, (Keyed.mem_put _).mpr (.inr rfl), hid.symm, hle⟩
        · exact ⟨m, (Keyed.mem_put _).mpr (.inl ⟨hm, hid⟩), rfl, ham⟩
      by_cases hold : m'.time + 2 * cfg.window < s.now
      · refine .inr (show a + cfg.remembered < s.now from ?_)
        unfold Config.remembered
        omega
      · exact .inl ⟨m', List.mem_filter.mpr ⟨hm', by simp [hold]⟩, hid, ham'⟩
    · exact ⟨hle, .inr hold⟩

end Follows

/-- After it is noted, an id is noted at this moment. -/
theorem noted_noteDelivered [DecidableEq μ] (s : Session μ) (id : μ) (seq : Nat) (pruned : List μ)
    (drop : Bool) : Noted cfg (s.noteDelivered cfg.window id seq pruned drop) id s.now := by
  refine ⟨Nat.le_refl _, .inl ⟨⟨id, s.now, seq⟩, List.mem_filter.mpr ⟨?_, ?_⟩, rfl, Nat.le_refl _⟩⟩
  · exact (Keyed.mem_put _).mpr (.inr rfl)
  · have : ¬ s.now + 2 * cfg.window < s.now := by omega
    simp [this]

/-- Whatever else happens to a session. -/
theorem Event.follows [DecidableEq μ] (e : Event μ) (s : Session μ) :
    Follows cfg s (e.apply cfg.window s) := by
  induction e with
  | acknowledged id other | resendDropped id other => exact .completeInflight s id other
  | awaited id => exact .awaitPubcomp s id
  | forgotten id owed =>
    simp only [Event.apply, Session.forgetWithdrawn]
    split
    · exact .of_eq rfl rfl rfl (fun hp => hp) rfl
    · exact .refl s
  | received id =>
    simp only [Event.apply, Session.receiveQoS2]
    split
    · exact .refl s
    · exact .of_eq rfl rfl rfl (fun hp => hp) rfl
  | forwarded id | refused id | released id | scanned c | since known =>
    exact .of_eq rfl rfl rfl (fun hp => hp) rfl
  | reauthorized ids | overdue ids => exact .withdraw s _
  | expired id seq pruned drop => exact .noteDelivered s id seq pruned drop
  | displaced e ih => exact ih

end Natsmqtt5.Checkpoint
