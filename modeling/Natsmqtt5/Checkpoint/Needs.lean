import Natsmqtt5.Checkpoint.Follows
import Natsmqtt5.Checkpoint.Mutex

/-!
# What a packet needs of the record

A new QoS 2 PUBLISH needs a record that lists its entry and its id, and a PUBREL one that lists the
identifier past its PUBREC (`Need`). Both are counted before `checkpointSession` is called for them,
so that whoever loaded the counter since wrote a record that meets them (`Sees`), and after the call
the record does (`Has`).
-/

namespace Natsmqtt5.Checkpoint

open Function

variable {μ : Type} {j : Part} {l l' : Ledger (Session μ) Nat (Value μ)} {c : Call μ} {β : Nat}

/-! ## What a call needs of the record -/

/-- Something a packet must not go out without. -/
inductive Need (μ : Type)
  /-- The record lists the entry, past its PUBREC if `rel`. -/
  | flight (id seq : Nat) (rel : Bool)
  /-- The record lists the message id, which was noted at time `a`. -/
  | noted (id : μ) (a : Nat)

/-- The part that shows it. -/
def Need.deps : Need μ → List Part
  | .flight _ _ _ => [.inflight]
  | .noted _ _ => [.delivered]

/-- Record `r`, seen with session `s`, meets the need, or it has lapsed: the entry is gone, or the
id was noted longer ago than the rewind. -/
def Need.Met (cfg : Config) (s : Session μ) (r : ∀ i, Value μ i) : Need μ → Prop
  | .flight id seq rel =>
    (∃ x ∈ r .inflight, x.seq = seq ∧ x.id = id ∧ (x.rel || x.queued) = true ∧
      (rel = true → x.rel = true)) ∨ ∀ o ∈ s.inflight, o.seq ≠ seq
  | .noted id a =>
    (∃ m ∈ listed cfg.window (r .position) (r .delivered), m.id = id) ∨ a + cfg.remembered < s.now

/-- The session is such that a record read from it would meet the need. -/
def Need.Source (cfg : Config) (s : Session μ) : Need μ → Prop
  | .flight id seq rel =>
    seq ≤ s.sendSeq ∧ ∀ o ∈ s.inflight, o.seq = seq → o.packetID = id ∧
      (o.awaitingPubcomp = true ∨ o.queueSeq ≠ 0) ∧ (rel = true → o.awaitingPubcomp = true)
  | .noted id a => Noted cfg s id a

def Prepared.needs (p : Prepared μ) : List (Need μ) :=
  if p.o.qos2 then
    .flight p.o.packetID p.o.seq false :: (p.d.id.map (Need.noted · p.notedAt)).toList
  else []

def Rel.needs (r : Rel) : List (Need μ) := (r.seq.map (Need.flight r.id · true)).toList

def After.needs : After μ → List (Need μ)
  | .idle => []
  | .sending ready => ready.flatMap Prepared.needs
  | .queueing r => r.needs
  | .releasing rels => rels.flatMap Rel.needs

def Call.needs : Call μ → List (Need μ)
  | .gathering ready | .tracking _ ready | .sending ready | .discarding _ ready =>
    ready.flatMap Prepared.needs
  | .noting p ready =>
    (if p.o.qos2 then [.flight p.o.packetID p.o.seq false] else []) ++ ready.flatMap Prepared.needs
  | .queueing r => r.needs
  | .releasing rels => rels.flatMap Rel.needs
  | .bumping _ next | .checkpointing next | .writing next => next.needs
  | .idle | .awaiting _ | .persisting | .saving => []

variable {cfg : Config} {s s' : Session μ} {r : ∀ i, Value μ i} {n : Need μ}

theorem Need.Source.follows (h : n.Source cfg s) (hs : Follows cfg s s') :
    n.Source cfg s' := by
  cases n with
  | flight id seq rel =>
    refine ⟨Nat.le_trans h.1 hs.sendSeq, fun o' ho' hseq => ?_⟩
    obtain ⟨o, ho, heq, hid, hq, hrel⟩ := hs.entries o' ho' (hseq ▸ h.1)
    obtain ⟨hoid, hkept, horel⟩ := h.2 o ho (heq.trans hseq)
    refine ⟨hid ▸ hoid, ?_, fun hr => hrel (horel hr)⟩
    exact hkept.imp hrel fun hne => hq ▸ hne
  | noted id a => exact hs.noted id a h

theorem Need.Met.follows (hsrc : n.Source cfg s) (h : n.Met cfg s r)
    (hs : Follows cfg s s') : n.Met cfg s' r := by
  cases n with
  | flight id seq rel =>
    refine h.imp_right fun hgone o' ho' hseq => ?_
    obtain ⟨o, ho, heq, -⟩ := hs.entries o' ho' (hseq ▸ hsrc.1)
    exact hgone o ho (heq.trans hseq)
  | noted id a => exact h.imp_right fun hold => Nat.lt_of_lt_of_le hold hs.now

/-- What is read now meets the need, whatever the rest of the draft. -/
theorem Need.met_read (h : n.Source cfg s) (hj : j ∈ n.deps)
    (hpos : j = .delivered → (r .position).Before cfg s.now) :
    n.Met cfg s (update r j (get j s)) := by
  cases n with
  | flight id seq rel =>
    obtain rfl := List.mem_singleton.mp hj
    by_cases hin : ∃ o ∈ s.inflight, o.seq = seq
    · obtain ⟨o, ho, rfl⟩ := hin
      obtain ⟨hid, hkept, hrel⟩ := h.2 o ho rfl
      refine .inl ⟨o.stored, ?_, rfl, hid, ?_, hrel⟩
      · rw [update_self]
        refine List.mem_map.mpr ⟨o, List.mem_filter.mpr ⟨ho, ?_⟩, rfl⟩
        rcases hkept with hk | hk
        · simp [Outbound.recorded, hk]
        · simp [Outbound.recorded, hk]
      · rcases hkept with hk | hk
        · simp [Outbound.stored, hk]
        · simp [Outbound.stored, hk]
    · exact .inr fun o ho hseq => hin ⟨o, ho, hseq⟩
  | noted id a =>
    obtain rfl := List.mem_singleton.mp hj
    obtain ⟨-, ⟨m, hm, rfl, ham⟩ | hold⟩ := h
    · by_cases hlisted : m ∈ listed cfg.window (r .position) (get .delivered s)
      · refine .inl ⟨m, ?_, rfl⟩
        rw [update_self, update_of_ne (by decide)]
        exact hlisted
      · -- not listed, so it was noted before the record's position, less the window
        have hlate : m.time + cfg.window < (r .position).time := by
          by_contra hle
          refine hlisted (List.mem_filter.mpr ⟨hm, ?_⟩)
          simp only [Bool.or_eq_true, decide_eq_true_eq]
          exact .inr (Nat.le_of_not_lt hle)
        refine .inr (show a + cfg.remembered < s.now from ?_)
        unfold Config.remembered
        rcases hpos rfl with hzero | hnow <;> omega
    · exact .inr hold

/-- A part the need does not depend on. -/
theorem Need.met_update {v : Value μ j} (hj : j ∉ n.deps) (hpos : j ≠ .position)
    (h : n.Met cfg s r) : n.Met cfg s (update r j v) := by
  cases n with
  | flight id seq rel =>
    have hne : j ≠ .inflight := fun he => hj (List.mem_singleton.mpr he)
    simp only [Need.Met, update_of_ne hne.symm]
    exact h
  | noted id a =>
    have hne : j ≠ .delivered := fun he => hj (List.mem_singleton.mpr he)
    simp only [Need.Met, update_of_ne hne.symm, update_of_ne hpos.symm]
    exact h

/-- Entries with a queue copy or a PUBREL to send have no payload to lose. -/
theorem Need.met_withoutStored (ids : List Nat) (h : n.Met cfg s r) :
    n.Met cfg s (withoutStored ids r) := by
  cases n with
  | flight id seq rel =>
    refine h.imp_left ?_
    rintro ⟨x, hx, hseq, hid, hkept, hrel⟩
    refine ⟨x, List.mem_filter.mpr ⟨hx, ?_⟩, hseq, hid, hkept, hrel⟩
    rcases Bool.or_eq_true_iff.mp hkept with hk | hk
    · simp [hk]
    · simp [hk]
  | noted id a => exact h

/-! ## The invariant -/

/-- Whoever loaded the counter at `β` or later writes a record that meets the need. -/
def Sees (cfg : Config) (l : Ledger (Session μ) Nat (Value μ)) (β : Nat) (n : Need μ) : Prop :=
  l.Seen n.deps β fun r => n.Met cfg l.source r

/-- The record meets the need, and so will the next. -/
def Has (cfg : Config) (l : Ledger (Session μ) Nat (Value μ)) (n : Need μ) : Prop :=
  l.Kept n.deps fun r => n.Met cfg l.source r

/-- Calls that write packets. -/
def Call.sends : Call μ → Bool
  | .sending _ | .discarding _ _ | .releasing _ => true
  | _ => false

/-- What is known of a call by how far it is. -/
def Call.Stage (cfg : Config) (l : Ledger (Session μ) Nat (Value μ)) : Call μ → Prop
  | .tracking p _ => p.o.qos2 = true → p.o.queueSeq ≠ 0
  | .bumping checkpoint k => checkpoint = true ∨ k.call.sends = false
  | .checkpointing k => ∃ β ≤ l.count, ∀ n ∈ k.needs, Sees cfg l β n
  | .writing k => ∃ β, (∀ w x y, l.writer = some w → w.stamp = some (x, y) → β ≤ x) ∧
      ∀ n ∈ k.needs, Sees cfg l β n
  | .sending ready | .discarding _ ready => ∀ n ∈ ready.flatMap Prepared.needs, Has cfg l n
  | .releasing rels => ∀ n ∈ rels.flatMap Rel.needs, Has cfg l n
  | _ => True

structure CallOk (cfg : Config) (l : Ledger (Session μ) Nat (Value μ)) (c : Call μ) : Prop where
  source : ∀ n ∈ c.needs, n.Source cfg l.source
  stage : c.Stage cfg l

/-- What a step of the ledger keeps for every call. -/
structure Evolves (cfg : Config) (l l' : Ledger (Session μ) Nat (Value μ)) : Prop where
  count : l.count ≤ l'.count
  source : ∀ n : Need μ, n.Source cfg l.source → n.Source cfg l'.source
  sees : ∀ (n : Need μ) β, n.Source cfg l.source → Sees cfg l β n → Sees cfg l' β n
  has : ∀ n : Need μ, n.Source cfg l.source → Has cfg l n → Has cfg l' n

/-- The writer's stamp is as it was. -/
def SameStamp (l l' : Ledger (Session μ) Nat (Value μ)) : Prop :=
  ∀ w x, l'.writer = some w → w.stamp = some x → ∃ w', l.writer = some w' ∧ w'.stamp = some x

theorem CallOk.evolves (h : CallOk cfg l c) (he : Evolves cfg l l')
    (hw : (∃ k, c = .writing k) → SameStamp l l') : CallOk cfg l' c := by
  refine ⟨fun n hn => he.source n (h.source n hn), ?_⟩
  have hsrc := h.source
  have hstage := h.stage
  cases c with
  | tracking p ready | bumping checkpoint k => exact hstage
  | checkpointing k =>
    obtain ⟨β, hβ, hsees⟩ := hstage
    exact ⟨β, Nat.le_trans hβ he.count, fun n hn => he.sees n β (hsrc n hn) (hsees n hn)⟩
  | writing k =>
    obtain ⟨β, hβ, hsees⟩ := hstage
    refine ⟨β, fun w x y hw' hx => ?_, fun n hn => he.sees n β (hsrc n hn) (hsees n hn)⟩
    obtain ⟨w₀, hw₀, hx₀⟩ := hw ⟨k, rfl⟩ w _ hw' hx
    exact hβ w₀ x y hw₀ hx₀
  | sending ready | discarding p ready | releasing rels =>
    exact fun n hn => he.has n (hsrc n hn) (hstage n hn)
  | _ => exact hstage

namespace Evolves

theorem refl (l : Ledger (Session μ) Nat (Value μ)) : Evolves cfg l l where
  count := Nat.le_refl _
  source _ h := h
  sees _ _ _ h := h
  has _ _ h := h

theorem bump (l : Ledger (Session μ) Nat (Value μ)) : Evolves cfg l l.bump where
  count := Nat.le_succ _
  source _ h := h
  sees _ _ _ h := h.bump_of_seen
  has _ _ h := h.bump

theorem change (hs : Follows cfg l.source s) : Evolves cfg l (l.change s) where
  count := Nat.le_refl _
  source _ h := h.follows hs
  sees _ _ hsrc h := (h.imp fun _ hm => hm.follows hsrc hs).change
  has _ hsrc h := (h.imp fun _ hm => hm.follows hsrc hs).change

variable {w : Ledger.Writer Nat (Value μ)}

/-- A checkpoint begins: everything a need depends on is still to be read. -/
theorem start (hw : (w.stamp ≠ none ∧ .inflight ∈ w.todo ∧ .delivered ∈ w.todo) ∨
      w.stamp = none ∧ w.draft = l.record) : Evolves cfg l (l.start w) := by
  have hdeps : ∀ n : Need μ, w.stamp ≠ none → ∃ i ∈ n.deps, i ∈ w.todo := by
    intro n hs
    rcases hw with ⟨-, hin, hdel⟩ | ⟨hnone, -⟩
    · cases n with
      | flight id seq rel => exact ⟨.inflight, List.mem_singleton.mpr rfl, hin⟩
      | noted id a => exact ⟨.delivered, List.mem_singleton.mpr rfl, hdel⟩
    · exact absurd hnone hs
  have hcopy : w.stamp = none → w.draft = l.record := by
    intro hs
    rcases hw with ⟨hne, -⟩ | ⟨-, hd⟩
    · exact absurd hs hne
    · exact hd
  constructor
  · exact Nat.le_refl _
  · exact fun _ h => h
  · exact fun n β _ h => Ledger.Seen.start h (hdeps n) fun hs hm => by rwa [hcopy hs]
  · refine fun n _ h => Ledger.Kept.start h fun hd hm => ?_
    by_cases hs : w.stamp = none
    · rwa [hcopy hs]
    · obtain ⟨i, hi, ht⟩ := hdeps n hs
      exact absurd ht (hd i hi)

theorem read (hw : l.writer = some w)
    {todo : List Part} (htodo : w.todo = j :: todo) (hj : j ≠ .position)
    (hpos : j = .delivered → (w.draft .position).Before cfg l.source.now) :
    Evolves cfg l (l.read w j (get j l.source) todo) := by
  have hrest : ∀ k, k ∉ todo → k = j ∨ k ∉ w.todo := by
    intro k hk
    rw [htodo, List.mem_cons, not_or]
    by_cases hkj : k = j
    · exact .inl hkj
    · exact .inr ⟨hkj, hk⟩
  constructor
  · exact Nat.le_refl _
  · exact fun _ h => h
  · exact fun n β hsrc h => Ledger.Seen.read h hw hrest (fun hd => Need.met_read hsrc hd hpos)
      fun hd => Need.met_update hd hj
  · exact fun n hsrc h => Ledger.Kept.read h hw hrest (fun hd => Need.met_read hsrc hd hpos)
      fun hd => Need.met_update hd hj

theorem finish (hw : l.writer = some w) (htodo : w.todo = []) {r : ∀ i, Value μ i}
    (hr : ∀ n : Need μ, n.Met cfg l.source w.draft → n.Met cfg l.source r)
    {m : Option (Nat × Nat)} (hm : m = none ∨ m = w.stamp ∨ w.stamp = none ∧ m = l.mark) :
    Evolves cfg l (l.finish r m) := by
  have hd : ∀ n : Need μ, ∀ i ∈ n.deps, i ∉ w.todo := by
    intro n i _
    rw [htodo]
    exact List.not_mem_nil
  constructor
  · exact Nat.le_refl _
  · exact fun _ h => h
  · exact fun n β _ h => Ledger.Seen.finish h hw (hd n) (hr n) hm
  · exact fun n _ h => Ledger.Kept.finish h hw (hd n) (hr n)

end Evolves

end Natsmqtt5.Checkpoint
