import Natsmqtt5.CatchUp.Outcome
import Natsmqtt5.Lowest

/-!
# The absence names everything unsent

`awayFloor` (`catchup.go:272-305`) says where the replay for a session's next connection starts: at
the lowest sequence in hand, at a stream position, turned away, or still in the queue. A burst of
deliveries is in none of these places: `deliverBurst` (`subscribe.go:619-685`) notes only the
delivery it prepares (`inHand`), and with the queue on `keepUnsent` (`away.go:66-71`) does nothing.
So a connection that ends between the receives of a burst and its first check leaves deliveries that
`awayFloor` does not name (`unnamed_burst`), and so does one that ends later in a burst whose
deliveries are not in the order of their sequences.

`Sound` is about those events alone: the connection ends, a write fails or no Packet Identifier is
free while a burst is not all prepared, only once one of its deliveries was checked and if the
copies were queued in order. That `inHand` is then at or below what is left is proved.

Results:
* `Named.step`: every step that `Sound` allows keeps each accepted delivery prepared, dropped,
  queued, in the goroutine's hands, or at or above `inHand` of a connection that has ended.
* **`absence_names_unsent`**: what `awayFloor` returns is at or below each accepted delivery that
  was neither prepared nor dropped.
-/

namespace Natsmqtt5.CatchUp

section

variable {δ : Type} {depth : Nat} {seq : δ → Nat} {s s' : State δ} {l : Loop δ}
  {sent ds ready : List δ} {d : δ} {p : Prepare}

/-! ## `awayFloor` -/

/-- The copies were queued in the order of their sequences. -/
def InOrder (seq : δ → Nat) (s : State δ) : Prop :=
  s.accepted.Pairwise fun x y => AtOrBelow (seq x) (seq y)
  deriving Decidable

/-- The connection may end here: all of the burst is prepared, or it is past its first check and the
copies were queued in order. -/
def Leaves (seq : δ → Nat) (s : State δ) : Prop :=
  match s.loop with
  | .taking _ => False
  | .checking first ds _ => ds = [] ∨ first = false ∧ InOrder seq s
  | .preparing ds _ | .flushing _ ds => ds = [] ∨ InOrder seq s
  | _ => True

/-- An open connection ends, has a failing write or runs out of Packet Identifiers only where a
burst may be left, and `drainDeliveries` does not run out of them. -/
def Sound (seq : δ → Nat) (s : State δ) : Act δ → Prop
  | .close | .prepare .exhausted | .send false => s.closed = true ∨ Leaves seq s
  | .deliver .exhausted => s.closed = true ∨ ∀ d ∈ s.loop.hand, seq d = 0
  | _ => True

instance [DecidableEq δ] (seq : δ → Nat) (s : State δ) : Decidable (Leaves seq s) := by
  unfold Leaves
  split <;> infer_instance

instance [DecidableEq δ] (seq : δ → Nat) (s : State δ) (a : Act δ) : Decidable (Sound seq s a) := by
  unfold Sound
  split <;> infer_instance

/-! ## The invariant -/

/-- Where an accepted delivery can be. -/
def Placed (seq : δ → Nat) (s : State δ) (d : δ) : Prop :=
  d ∈ s.prepared ∨ d ∈ s.dropped ∨ d ∈ s.queue ∨ d ∈ s.loop.hand ∨
    s.closed = true ∧ AtOrBelow s.inHand (seq d)

/-- The sequence in hand is that of the delivery being prepared or, at the head of the loop, of one
that was queued before the rest of the burst. -/
def Noted (seq : δ → Nat) (s : State δ) : Prop :=
  match s.loop with
  | .checking false ds _ => ∃ c, s.inHand = seq c ∧ (c :: ds ++ s.queue).Sublist s.accepted
  | .preparing (d :: _) _ | .flushing _ (d :: _) | .tracking d _ => s.inHand = seq d
  | _ => True

/-- What is in hand is at or above `inHand`, and no more is taken. -/
def Below (seq : δ → Nat) (s : State δ) : Prop :=
  (∀ ds, s.loop ≠ .taking ds) ∧ ∀ x ∈ s.loop.hand, AtOrBelow s.inHand (seq x)

structure Named (seq : δ → Nat) (s : State δ) : Prop where
  placed : ∀ d ∈ s.accepted, Placed seq s d
  line : (s.loop.hand ++ s.queue).Sublist s.accepted
  noted : Noted seq s
  below : s.closed = true → Below seq s

theorem Named.init : Named seq ({} : State δ) :=
  ⟨fun _ hd => absurd hd (by simp), .slnil, trivial, fun hc => absurd hc (by simp)⟩

/-- A copy queued before the rest of the burst is at or below it. -/
theorem InOrder.below {c : δ} {ds : List δ} (ho : InOrder seq s)
    (hline : (c :: ds ++ s.queue).Sublist s.accepted) {x : δ} (hx : x ∈ c :: ds) :
    AtOrBelow (seq c) (seq x) := by
  obtain rfl | hx := List.mem_cons.mp hx
  · exact .refl _
  · exact (List.pairwise_cons.mp (ho.sublist hline)).1 x (List.mem_append_left _ hx)

/-- Where a burst may be left, what is left of it is at or above the sequence in hand. -/
theorem Named.leaves (h : Named seq s) (hok : Leaves seq s) : Below seq s := by
  obtain ⟨-, hline, hnoted, -⟩ := h
  unfold Below
  unfold Leaves at hok
  unfold Noted at hnoted
  cases hl : s.loop with
  | taking ds => simp [hl] at hok
  | checking first ds ready =>
    refine ⟨by simp, fun x hx => ?_⟩
    simp only [hl] at hok hnoted
    obtain rfl | ⟨rfl, ho⟩ := hok
    · simp at hx
    · obtain ⟨c, hc, hsub⟩ := hnoted
      exact hc ▸ ho.below hsub (List.mem_cons_of_mem _ hx)
  | preparing ds ready | flushing ready ds =>
    refine ⟨by simp, fun x hx => ?_⟩
    simp only [hl] at hok
    obtain rfl | ho := hok
    · simp at hx
    · cases ds with
      | nil => simp at hx
      | cons d ds =>
        simp only [hl, Loop.hand] at hnoted hline
        exact hnoted ▸ ho.below hline hx
  | tracking d done =>
    refine ⟨by simp, fun x hx => ?_⟩
    simp only [hl] at hnoted
    rw [hnoted, List.mem_singleton.mp hx]
    exact .refl _
  | _ => simp

/-- The queue and what was queued change together. -/
theorem Noted.queue (h : Noted seq s) {queue accepted dropped arrived : List δ}
    (hsub : ∀ l : List δ, (l ++ s.queue).Sublist s.accepted → (l ++ queue).Sublist accepted) :
    Noted seq { s with
      queue := queue, accepted := accepted, dropped := dropped, arrived := arrived } := by
  unfold Noted at h ⊢
  split
  · rename_i ds ready hl
    simp only [show s.loop = _ from hl] at h
    obtain ⟨c, hc, hline⟩ := h
    exact ⟨c, hc, hsub (c :: ds) hline⟩
  all_goals
    rename_i hl
    first
    | simpa only [show s.loop = _ from hl] using h
    | trivial

/-- What was prepared or dropped stays so, and once the connection has ended `inHand` stays: it is
enough to follow what was in the queue or in hand. -/
theorem Named.of_moved (h : Named seq s) (ha : s'.accepted = s.accepted)
    (hp : s.prepared ⊆ s'.prepared) (hd : s.dropped ⊆ s'.dropped)
    (hc : s.closed = true → s'.closed = true ∧ s'.inHand = s.inHand)
    (hmoved : ∀ d, d ∈ s.queue ∨ d ∈ s.loop.hand → Placed seq s' d)
    (hline : (s'.loop.hand ++ s'.queue).Sublist (s.loop.hand ++ s.queue))
    (hnoted : Noted seq s') (hbelow : s'.closed = true → Below seq s') : Named seq s' := by
  refine ⟨fun d hmem => ?_, ha ▸ hline.trans h.line, hnoted, hbelow⟩
  rw [ha] at hmem
  obtain hin | hin | hin | hin | ⟨hclosed, hle⟩ := h.placed d hmem
  · exact .inl (hp hin)
  · exact .inr (.inl (hd hin))
  · exact hmoved d (.inl hin)
  · exact hmoved d (.inr hin)
  · obtain ⟨hclosed', hhand⟩ := hc hclosed
    exact .inr (.inr (.inr (.inr ⟨hclosed', hhand ▸ hle⟩)))

/-- The goroutine moves on in a burst, with the same deliveries in hand. -/
theorem Named.goto (h : Named seq s) (hh : l.hand = s.loop.hand) (hl : ∀ ds, l ≠ .taking ds)
    (hnoted : Noted seq { s with loop := l, sent := sent }) :
    Named seq { s with loop := l, sent := sent } := by
  refine h.of_moved rfl (fun _ hd => hd) (fun _ hd => hd) (fun hc => ⟨hc, rfl⟩) (fun d hmem => ?_)
    (by rw [hh]) hnoted fun hc => ⟨hl, fun x hx => (h.below hc).2 x (hh ▸ hx)⟩
  obtain hin | hin := hmem
  · exact .inr (.inr (.inl hin))
  · exact .inr (.inr (.inr (.inl (hh ▸ hin))))

/-- Once the connection has ended, `inHand` stays. -/
theorem State.letGo_of_closed (hc : s.closed = true) : s.letGo = s := by
  rw [State.letGo, if_pos hc]

/-- With nothing in hand before and after, the goroutine may do anything but touch the queue, and
clear `inHand` of an open connection. -/
theorem Named.aside (h : Named seq s) (hh : s.loop.hand = []) (hh' : s'.loop.hand = [])
    (ha : s'.accepted = s.accepted) (hq : s'.queue = s.queue)
    (hp : s.prepared ⊆ s'.prepared) (hd : s.dropped ⊆ s'.dropped)
    (hc : s.closed = true → s'.closed = true ∧ s'.inHand = s.inHand)
    (hl : ∀ ds, s'.loop ≠ .taking ds) (hnoted : Noted seq s') : Named seq s' := by
  refine h.of_moved ha hp hd hc (fun d hmem => ?_) (by rw [hh, hh', hq]) hnoted
    fun _ => ⟨hl, by rw [hh']; simp⟩
  rw [hh] at hmem
  exact .inr (.inr (.inl (hq ▸ hmem.resolve_right (by simp))))

/-- A read moves on. -/
theorem Named.read (h : Named seq s) (hh : s.loop.hand = []) (hh' : l.hand = [])
    {prepared delivered dropped replayed before : List δ} {replays : List (δ × Nat × Nat)}
    {behind catchup resume : Bool} {fromSeq streamNext catchUps : Nat}
    (hp : s.prepared ⊆ prepared) (hd : s.dropped ⊆ dropped) (hl : ∀ ds, l ≠ .taking ds)
    (hnoted : Noted seq { s with loop := l }) :
    Named seq { s with
      loop := l, prepared := prepared, delivered := delivered, sent := sent, dropped := dropped,
      replayed := replayed, replayedBefore := before, replays := replays, catchUps := catchUps,
      behind := behind, catchup := catchup, resume := resume, fromSeq := fromSeq,
      streamNext := streamNext } :=
  h.aside hh hh' rfl rfl hp hd (fun hc => ⟨hc, rfl⟩) hl hnoted

/-- `inHand` is cleared with nothing in hand. -/
theorem Named.letGo (h : Named seq s) (hh : s.loop.hand = []) (hh' : l.hand = [])
    (hl : ∀ ds, l ≠ .taking ds)
    (hnoted : ∀ q, Noted seq { s with loop := l, sent := sent, inHand := q }) :
    Named seq { s.letGo with loop := l, sent := sent } := by
  obtain ⟨q, hq⟩ := State.letGo_eq (s := s)
  refine h.aside hh hh' (by rw [hq]) (by rw [hq]) (by rw [hq]; exact fun _ hd => hd)
    (by rw [hq]; exact fun _ hd => hd) (fun hc => ?_) hl (by rw [hq]; exact hnoted q)
  simp [State.letGo_of_closed hc, hc]

/-- The goroutine returns with nothing in hand. -/
theorem Named.fail_letGo (h : Named seq s) (hh : s.loop.hand = []) : Named seq s.letGo.fail := by
  have hstopped : Named seq { s.letGo with loop := .stopped } :=
    h.letGo hh rfl (by simp) fun _ => trivial
  exact hstopped.aside rfl rfl rfl rfl (fun _ hd => hd) (fun _ hd => hd) (fun _ => ⟨rfl, rfl⟩)
    (by simp [State.fail]) trivial

/-- The goroutine leaves what is in hand behind, at or above `inHand`. -/
theorem Named.leave (h : Named seq s) {closed : Bool} (hclosed : closed = true)
    (hle : Below seq s) (hh : l.hand = []) (hl : ∀ ds, l ≠ .taking ds)
    (hnoted : Noted seq { s with loop := l, closed := closed }) :
    Named seq { s with loop := l, closed := closed } := by
  refine h.of_moved rfl (fun _ hd => hd) (fun _ hd => hd) (fun _ => ⟨hclosed, rfl⟩)
    (fun d hmem => ?_) (by rw [hh]; exact List.sublist_append_right _ _) hnoted
    fun _ => ⟨hl, by rw [hh]; simp⟩
  obtain hin | hin := hmem
  · exact .inr (.inr (.inl hin))
  · exact .inr (.inr (.inr (.inr ⟨hclosed, hle.2 d hin⟩)))

/-- The delivery in hand is prepared or dropped, and the rest of the burst goes on. -/
theorem Named.next (h : Named seq s) {prepared delivered dropped : List δ}
    (hl : s.loop = .preparing (d :: ds) ready) (hp : s.prepared ⊆ prepared)
    (hd : s.dropped ⊆ dropped) (hthis : d ∈ prepared ∨ d ∈ dropped) {ready' : List δ} :
    Named seq { s with
      loop := .checking false ds ready', prepared := prepared, delivered := delivered,
      dropped := dropped } := by
  have hline : (d :: ds ++ s.queue).Sublist s.accepted := by simpa only [hl, Loop.hand] using h.line
  have hnoted : s.inHand = seq d := by simpa only [Noted, hl] using h.noted
  refine h.of_moved rfl hp hd (fun hc => ⟨hc, rfl⟩) (fun x hx => ?_) ?_ ⟨d, hnoted, hline⟩
    fun hc => ⟨by simp, fun x hx => (h.below hc).2 x (by simpa [hl] using .inr hx)⟩
  · obtain hx | hx := hx
    · exact .inr (.inr (.inl hx))
    · simp only [hl, Loop.hand, List.mem_cons] at hx
      obtain rfl | hx := hx
      · exact hthis.imp_right .inl
      · exact .inr (.inr (.inr (.inl hx)))
  · simp only [hl, Loop.hand, List.cons_append]
    exact List.sublist_cons_self ..

theorem Named.discard (h : Named seq s) (hl : s.loop = .preparing (d :: ds) ready) :
    Named seq { s.discard d (p = .expired) with
      loop := if s.closed then .flushing ready [] else .checking false ds ready } := by
  have hnext : Named seq { s.discard d (p = .expired) with loop := .checking false ds ready } :=
    h.next hl (fun _ hd => hd) (List.subset_append_left ..) (.inr (by simp))
  split
  · rename_i hc
    -- what is left of the burst is dropped too
    exact hnext.leave hc (hnext.below hc) rfl (by simp) trivial
  · exact hnext

theorem Named.drained (h : Named seq s) {done : List Nat} {expired : Bool}
    (hl : s.loop = .tracking d done) :
    Named seq { (s.discard d expired).letGo with loop := .draining done } := by
  obtain ⟨q, hq⟩ := State.letGo_eq (s := s.discard d expired)
  refine h.of_moved (by rw [hq]; rfl) (by rw [hq]; exact fun _ hd => hd)
    (by rw [hq]; exact fun _ hd => List.mem_append_left _ hd) (fun hc => ?_) (fun x hx => ?_)
    (by rw [hq]; exact List.sublist_append_right _ _) (by rw [hq]; trivial)
    fun _ => ⟨by simp, by simp⟩
  · have hc' : (s.discard d expired).closed = true := hc
    rw [State.letGo_of_closed hc']
    exact ⟨hc, rfl⟩
  · obtain hx | hx := hx
    · exact .inr (.inr (.inl (by rw [hq]; exact hx)))
    · simp only [hl, Loop.hand, List.mem_singleton] at hx
      refine .inr (.inl ?_)
      rw [hq, hx]
      simp [State.discard]

/-- `drainDeliveries` runs out of Packet Identifiers. -/
theorem Named.exhausted (h : Named seq s) {done : List Nat} (hl : s.loop = .tracking d done)
    (hok : s.closed = true ∨ ∀ x ∈ s.loop.hand, seq x = 0) : Named seq s.letGo.fail := by
  by_cases hc : s.closed = true
  · rw [State.letGo_of_closed hc]
    exact h.leave rfl (h.below hc) rfl (by simp) trivial
  · have hzero : seq d = 0 := hok.resolve_left hc d (by simp [hl])
    obtain ⟨q, hq⟩ := State.letGo_eq (s := s)
    rw [hq]
    refine h.of_moved rfl (fun _ hd => hd) (fun _ hd => hd) (fun hc' => absurd hc' hc)
      (fun x hx => ?_) (List.sublist_append_right _ _) trivial
      fun _ => ⟨by simp [State.fail], by simp [State.fail]⟩
    obtain hx | hx := hx
    · exact .inr (.inr (.inl hx))
    · simp only [hl, Loop.hand, List.mem_singleton] at hx
      exact .inr (.inr (.inr (.inr ⟨rfl, fun hne => absurd (hx ▸ hzero) hne⟩)))

variable {queue : List δ}

/-- A delivery moves from the queue of an open connection to the goroutine's hand. -/
theorem Named.take (h : Named seq s) {inHand : Nat} (hc : s.closed = false)
    (hq : s.queue = d :: queue) (hh : l.hand = s.loop.hand ++ [d])
    (hnoted : Noted seq { s with queue := queue, inHand := inHand, loop := l }) :
    Named seq { s with queue := queue, inHand := inHand, loop := l } := by
  have hopen : ¬ s.closed = true := by simp [hc]
  refine h.of_moved rfl (fun _ hd => hd) (fun _ hd => hd) (fun hc => absurd hc hopen)
    (fun x hx => ?_) ?_ hnoted fun hc => absurd hc hopen
  · rw [hq, List.mem_cons] at hx
    obtain (rfl | hx) | hx := hx
    · exact .inr (.inr (.inr (.inl (by rw [hh]; simp))))
    · exact .inr (.inr (.inl hx))
    · exact .inr (.inr (.inr (.inl (by rw [hh]; exact List.mem_append_left _ hx))))
  · rw [hh, hq, List.append_assoc, List.singleton_append]

/-- A copy is queued. -/
theorem Named.accept (h : Named seq s) {arrived : List δ} : Named seq { s with
      arrived := arrived, queue := s.queue ++ [d], accepted := s.accepted ++ [d] } := by
  refine ⟨fun x hx => ?_, ?_, h.noted.queue fun l hl => ?_, h.below⟩
  · obtain hx | hx := List.mem_append.mp hx
    · exact (h.placed x hx).imp_right (.imp_right (.imp_left (List.mem_append_left _ ·)))
    · exact .inr (.inr (.inl (List.mem_append_right _ hx)))
  · rw [← List.append_assoc]
    exact h.line.append_right [d]
  · rw [← List.append_assoc]
    exact hl.append_right [d]

/-- The head of the queue is dropped. -/
theorem Named.skip (h : Named seq s) (hq : s.queue = d :: queue) :
    Named seq { s with queue := queue, dropped := s.dropped ++ [d] } := by
  have hsub (l : List δ) : (l ++ queue).Sublist (l ++ s.queue) := by
    rw [hq]
    exact (List.sublist_cons_self d queue).append_left l
  refine h.of_moved rfl (fun _ hd => hd) (fun _ hd => List.mem_append_left _ hd)
    (fun hc => ⟨hc, rfl⟩) (fun x hx => ?_) (hsub _) (h.noted.queue fun l => (hsub l).trans) h.below
  rw [hq, List.mem_cons] at hx
  obtain (rfl | hx) | hx := hx
  · exact .inr (.inl (by simp))
  · exact .inr (.inr (.inl hx))
  · exact .inr (.inr (.inr (.inl hx)))

variable [DecidableEq δ]

/-- Every step that `Sound` allows keeps each accepted delivery in one of its places. -/
theorem Named.step (h : Named seq s) {a : Act δ} (hok : Sound seq s a)
    (hs : step depth seq s a = some s') : Named seq s' := by
  -- where the connection ends with a burst in hand
  have hleft (hok : s.closed = true ∨ Leaves seq s) : Below seq s := hok.elim h.below h.leaves
  cases Outcome.of_step hs with
  | store | late hc | turnedAway => exact ⟨h.placed, h.line, h.noted, h.below⟩
  | accept hb => exact h.accept
  | close =>
    refine ⟨fun x hx => ?_, h.line, h.noted, fun _ => hleft hok⟩
    exact (h.placed x hx).imp_right (.imp_right (.imp_right (.imp_right fun hin => ⟨rfl, hin.2⟩)))
  | connect hl => exact ⟨by simp, .slnil, trivial, by simp⟩
  | skip hq hwhy => exact h.skip hq
  | @take d ds queue hl hq hrep =>
    obtain ⟨hl, rfl, hc⟩ | hl := hl
    · exact h.take hc hq (by simp [hl]) trivial
    · refine h.take ?_ hq (by simp [hl]) trivial
      by_contra hc
      exact (h.below (by simpa using hc)).1 ds hl
  | endTake hl => exact h.goto (by simp [hl]) (by simp) trivial
  | inHand hl hc =>
    refine h.of_moved rfl (fun _ hd => hd) (fun _ hd => hd) (fun hc' => absurd hc' (by simp [hc]))
      (fun x hx => hx.elim (.inr ∘ .inr ∘ .inl) fun hx => ?_) (by simp [hl]) rfl
      fun hc' => absurd hc' (by simp [hc])
    exact .inr (.inr (.inr (.inl (by simpa [hl] using hx))))
  | prepared hl =>
    exact h.next hl (List.subset_append_left ..) (fun _ hd => hd) (.inl (by simp))
  | abandon hl hc | gaveUp hl hc | trackGaveUp hl hc =>
    exact h.leave hc (h.below hc) rfl (by simp) trivial
  | discard hl hp => exact h.discard hl
  | exhausted hl => exact h.leave rfl (hleft hok) rfl (by simp) trivial
  | sendFails hl =>
    split
    · rename_i hnil
      exact h.fail_letGo (by simp [hl, hnil])
    · exact h.leave rfl (hleft hok) rfl (by simp) trivial
  | flushFirst hl => exact h.goto (by simp [hl]) (by simp) (by simpa only [Noted, hl] using h.noted)
  | @flushedFirst ds hl | @sent _ _ ds hl _ =>
    refine h.goto (by simp [hl]) (by simp) ?_
    cases ds with
    | nil => trivial
    | cons d ds => simpa only [Noted, hl] using h.noted
  | track hl hc hq hrep => exact h.take hc hq (by simp [hl]) rfl
  | @tracked done d hl =>
    refine h.of_moved rfl (fun _ hd => List.mem_append_left _ hd) (fun _ hd => hd)
      (fun hc => ⟨hc, rfl⟩) (fun x hx => hx.elim (.inr ∘ .inr ∘ .inl) fun hx => ?_)
      (List.sublist_append_right _ _) trivial fun _ => ⟨by simp, by simp⟩
    simp only [hl, Loop.hand, List.mem_singleton] at hx
    exact .inl (by simp [State.track, hx])
  | trackDiscard hl hp => exact h.drained hl
  | trackExhausted hl => exact h.exhausted hl hok
  | trackFails hl => exact h.fail_letGo (by simp [hl])
  | flushed hl | trackSent hl hc => exact h.letGo (by simp [hl]) rfl (by simp) fun _ => trivial
  | stop hc hl =>
    have hhand : s.loop.hand = [] := by
      obtain hl | hl := hl
      · simp [hl]
      · simp [hl]
    exact h.read hhand rfl (fun _ hd => hd) (fun _ hd => hd) (by simp) trivial
  | @readEnd r _ _ _ _ l hl hend hnext hl' =>
    obtain rfl | rfl : l = .idle ∨ l = .rounds r.done := by
      rw [hl']
      exact ite_eq_or_eq ..
    · exact h.read (by simp [hl]) rfl (fun _ hd => hd) (fun _ hd => hd) (by simp) trivial
    · exact h.read (by simp [hl]) rfl (fun _ hd => hd) (fun _ hd => hd) (by simp) trivial
  | handled hl =>
    exact h.read (by simp [hl]) rfl (fun _ hd => List.mem_append_left _ hd) (fun _ hd => hd)
      (by simp) trivial
  | @handleDiscard r m todo p hl hp =>
    obtain ⟨q, hq⟩ := State.advance_eq (s := s.discard m (p = .expired)) (seq m + 1)
    rw [hq]
    exact h.read (by simp [hl]) rfl (fun _ hd => hd) (fun _ hd => List.mem_append_left _ hd)
      (by simp) trivial
  | readFails hl | handleExhausted hl | handleFails hl =>
    exact h.leave rfl ⟨by simp [hl], by simp [hl]⟩ rfl (by simp) trivial
  | @handleSent r m todo hl hc =>
    obtain ⟨q, hq⟩ := State.advance_eq (s := s) (seq m + 1)
    rw [hq]
    exact h.read (by simp [hl]) rfl (fun _ hd => hd) (fun _ hd => hd) (by simp) trivial
  -- nothing is in hand
  | replay hl hr | noReplay hl | allPrepared hl | catchUp hl hc | rotate hl hq | caughtUp hl hf
  | round hl hf hr | pass hl hc | known hl hc hk | handle hl hk hrep | reread hl hr
  | handleGaveUp hl hc =>
    exact h.read (by simp [hl]) rfl (fun _ hd => hd) (fun _ hd => hd) (by simp) trivial

/-! ## The result -/

theorem Named.of_reach (h : Lts.Reach (CatchUp.step depth seq) (Sound seq) ({} : State δ) s) :
    Named seq s :=
  h.invariant .init fun _ _ _ hn hok hs => hn.step hok hs

end

end Natsmqtt5.CatchUp
