import Natsmqtt5.CatchUp.AwayFloor
import Natsmqtt5.Follow

/-!
# A slow client gets everything in order

One open connection with one subscription, whose live copies arrive in the order of the stream,
follows the stream (`Follow`): what is ahead is the rest of a round, what was taken off the queue,
and the queue. A round must begin with the queue empty. `catchUp` (`catchup.go:119-182`) empties it
first (`drainDeliveries`, `catchup.go:311-338`), which is enough while `behind` turns every copy
away; but a signal left over from an earlier catch-up starts one with `behind` false, and then
copies can fill the queue, and one be turned away, between the last look at the queue and the head
of the round. The round then sends the newer ones first (`overtaken`). `InSequence` leaves out that
one event, a copy turned away there while others wait.

Results:
* `Open.step`: every step that `InSequence` allows keeps the stream followed, and the queue empty
  where a round begins.
* **`slow_client_in_order`**: messages are first sent in the order of their sequences, and each copy
  that arrived was sent, waits, or is at or above the stream position of a connection that is
  behind.
-/

namespace Natsmqtt5.CatchUp

section

variable {δ : Type} {l : Loop δ} {depth inHand : Nat} {seq : δ → Nat} {s s' : State δ}
  {catchup : Bool} {d : δ} {r : Read δ} {a : Act δ}

/-! ## What is ahead -/

/-- What was taken off the queue and not written. -/
@[simp] def Loop.taken : Loop δ → List δ
  | .taking ds => ds
  | .checking _ ds ready => ready ++ ds
  | .preparing ds ready => ready ++ ds
  | .flushing ready ds => ready ++ ds
  | .tracking d _ => [d]
  | .writing d _ => [d]
  | _ => []

/-- What a read has still to come to, or to write. -/
@[simp] def Loop.todo : Loop δ → List δ
  | .reading _ todo => todo
  | .handling _ m todo => m :: todo
  | .sending _ m todo => m :: todo
  | _ => []

/-- The sequences `drainDeliveries` has sent. -/
@[simp] def Loop.done : Loop δ → List Nat
  | .draining done => done
  | .tracking _ done => done
  | .writing _ done => done
  | .rounds done => done
  | .reading r _ => r.done
  | .handling r _ _ => r.done
  | .sending r _ _ => r.done
  | _ => []

/-- `catchUp` stands between its drain and a round, or between two rounds. -/
@[simp] def Loop.atRound : Loop δ → Bool
  | .rounds _ => true
  | _ => false

theorem Loop.todo_of_reads (h : l.reads = none) : l.todo = [] := by
  cases l with
  | reading | handling | sending => simp at h
  | _ => rfl

/-- The connection as a follower of the stream. -/
def State.follow (s : State δ) : Follow δ where
  log := s.stream
  noticed := s.arrived
  sent := s.sent
  ahead := s.loop.todo ++ s.loop.taken ++ s.queue
  owed := s.fromSeq

/-- One connection without a resume replay; messages are stored with rising sequences, their live
copies arrive once each, in that order and after the store; none expires and the subscription stays;
and no copy finds the queue full between the drain of a catch-up and its round, unless the
connection was behind before. -/
def InSequence (depth : Nat) (seq : δ → Nat) (s : State δ) : Act δ → Prop
  | .store d => seq d ≠ 0 ∧ ∀ x ∈ s.stream, seq x < seq d
  | .place d _ => d ∈ s.stream ∧ (∀ x ∈ s.arrived, seq x < seq d) ∧
    (s.loop.atRound → s.behind = true ∨ s.queue = [] ∨ s.queue.length < depth)
  | .connect => False
  | .replay _ _ _ => False
  | .take wanted => wanted = true
  | .drain wanted => wanted = true
  | .prepare p => p ≠ .unwanted ∧ p ≠ .expired
  | .deliver p => p ≠ .unwanted ∧ p ≠ .expired
  | _ => True

variable [DecidableEq δ]

instance (depth : Nat) (seq : δ → Nat) (s : State δ) :
    (a : Act δ) → Decidable (InSequence depth seq s a)
  | .store _ | .prepare _ | .deliver _ => inferInstanceAs (Decidable (_ ∧ _))
  | .place _ _ => inferInstanceAs (Decidable (_ ∧ _ ∧ (_ → _)))
  | .take _ | .drain _ => inferInstanceAs (Decidable (_ = true))
  | .connect | .replay _ _ _ => .isFalse id
  | .close | .noReplay | .endTake | .check | .flush | .send _ | .stop | .catchUp | .round | .read
  | .reread | .endRead _ | .write _ => .isTrue trivial

/-! ## The invariant -/

/-- The connection follows the stream, and knows what it has sent. -/
structure Open (seq : δ → Nat) (s : State δ) : Prop where
  follow : s.follow.Ok seq
  pos : ∀ x ∈ s.stream, seq x ≠ 0
  waiting : ∀ x ∈ s.loop.taken ++ s.queue, x ∈ s.arrived
  behind : s.fromSeq ≠ 0 → s.behind = true
  replayed : ∀ x, s.wasReplayed x = true → x ∈ s.sent
  delivered : ∀ x ∈ s.delivered, x ∈ s.sent ∨ x ∈ s.loop.inFlight
  done : ∀ q ∈ s.loop.done, (∃ x ∈ s.sent, seq x = q) ∨ ∃ x ∈ s.loop.taken, seq x = q
  reading : ∀ r, s.loop.reads = some r → s.queue = [] ∧ s.behind = true ∧ r.resume = false ∧
    (∀ x ∈ r.known, x ∈ s.sent) ∧ s.streamNext ≠ 0 ∧ ∀ x ∈ s.loop.todo, s.streamNext ≤ seq x
  /-- What is turned away while the queue is not empty is turned away before the drain ends. -/
  drained : s.loop.atRound = true → s.behind = true → s.queue = []

theorem Open.init : Open seq ({} : State δ) where
  follow := Follow.Ok.empty
  pos _ h := absurd h (by simp)
  waiting _ h := absurd h (by simp)
  behind h := absurd rfl h
  replayed _ h := absurd h (by simp [State.wasReplayed])
  delivered _ h := absurd h (by simp)
  done _ h := absurd h (by simp)
  reading _ h := absurd h (by simp)
  drained h := absurd h (by simp)

/-- The goroutine moves, and what is ahead stays as it is. -/
theorem Open.goto (h : Open seq s) (htodo : l.todo = s.loop.todo) (htaken : l.taken = s.loop.taken)
    (hflight : ∀ x ∈ s.loop.inFlight, x ∈ l.inFlight) (hdone : ∀ q ∈ l.done, q ∈ s.loop.done)
    (hreads : ∀ r, l.reads = some r → s.loop.reads = some r)
    (hround : l.atRound = true → s.queue = []) :
    Open seq { s with loop := l, inHand := inHand, catchup := catchup } :=
  { h with
    follow := by
      have := h.follow
      simpa only [State.follow, htodo, htaken] using this
    waiting := by rw [htaken]; exact h.waiting
    delivered x hx := (h.delivered x hx).imp_right (hflight x)
    done q hq := by
      have := h.done q (hdone q hq)
      rwa [← htaken] at this
    reading r hr := by
      have := h.reading r (hreads r hr)
      rwa [← htodo] at this
    drained hl _ := hround hl }

/-- The same for a place `l₀` whose parts are compared by computing them. -/
theorem Open.move (h : Open seq s) {l₀ : Loop δ} (hl : s.loop = l₀)
    (hsame : l.todo = l₀.todo ∧ l.taken = l₀.taken ∧ l₀.inFlight ⊆ l.inFlight ∧
      l.done ⊆ l₀.done ∧ ∀ r, l.reads = some r → l₀.reads = some r)
    (hround : l.atRound = true → s.queue = []) :
    Open seq { s with loop := l, inHand := inHand, catchup := catchup } := by
  subst hl
  obtain ⟨htodo, htaken, hflight, hdone, hreads⟩ := hsame
  exact h.goto htodo htaken (fun _ hx => hflight hx) (fun _ hq => hdone hq) hreads hround

/-- A message is stored. -/
theorem Open.store (h : Open seq s) (hpos : seq d ≠ 0) (hd : ∀ x ∈ s.stream, seq x < seq d) :
    Open seq { s with stream := s.stream ++ [d] } :=
  { h with
    follow := h.follow.append hd
    pos x hx := by
      obtain hx | hx := List.mem_append.mp hx
      · exact h.pos x hx
      · exact List.mem_singleton.mp hx ▸ hpos }

theorem Open.turnAway (h : Open seq s) (hd : d ∈ s.stream) (hnew : ∀ x ∈ s.arrived, seq x < seq d)
    (hround : s.loop.atRound = true → s.queue = []) :
    Open seq { { s with arrived := s.arrived ++ [d] }.noteOwed (seq d) with
      behind := true, catchup := true } :=
  { h with
    follow := by
      refine h.follow.turnAway hd (h.pos d hd) hnew ?_
      by_cases hz : s.fromSeq = 0
      · simp [State.follow, State.noteOwed, hz]
      · -- `fromSeq` is the sequence of an earlier copy
        obtain ⟨x, hx, hxseq⟩ := h.follow.owed hz
        have hle : ¬ seq d < s.fromSeq := by
          have := hnew x hx
          have : seq x = s.fromSeq := hxseq
          omega
        simp [State.follow, State.noteOwed, hz, hle]
    waiting x hx := List.mem_append_left _ (h.waiting x hx)
    behind _ := rfl
    reading r hr := by
      obtain ⟨hq, -, hrest⟩ := h.reading r hr
      exact ⟨hq, rfl, hrest⟩
    drained hl _ := hround hl }

theorem Open.accept (h : Open seq s) (hd : d ∈ s.stream)
    (hnew : ∀ x ∈ s.arrived, seq x < seq d) (hb : s.behind = false) : Open seq { s with
      arrived := s.arrived ++ [d], queue := s.queue ++ [d], accepted := s.accepted ++ [d] } := by
  have hzero : s.fromSeq = 0 := by
    by_contra hz
    exact absurd (hb.symm.trans (h.behind hz)) (by simp)
  have hreads : s.loop.reads = none := by
    cases hr : s.loop.reads with
    | none => rfl
    | some r => exact absurd (hb.symm.trans (h.reading r hr).2.1) (by simp)
  have htodo := Loop.todo_of_reads hreads
  refine ⟨?_, h.pos, fun x hx => ?_, fun hz => absurd hzero hz, h.replayed, h.delivered, h.done,
    fun r hr => absurd (hreads.symm.trans hr) (by simp),
    fun _ hb' => absurd (hb.symm.trans hb') (by simp)⟩
  · have hahead : ∀ x ∈ s.follow.ahead, seq x < seq d := by
      intro x hx
      rw [State.follow, htodo, List.nil_append] at hx
      exact hnew x (h.waiting x hx)
    have := h.follow.take hd hnew hahead hzero
    simpa only [State.follow, List.append_assoc] using this
  · rw [← List.append_assoc] at hx
    obtain hx | hx := List.mem_append.mp hx
    · exact List.mem_append_left _ (h.waiting x hx)
    · exact List.mem_append_right _ hx

variable {queue : List δ}

/-- The head of the queue was replayed. -/
theorem Open.skip (h : Open seq s) (hq : s.queue = d :: queue) (hrep : s.wasReplayed d = true) :
    Open seq { s with queue := queue, dropped := s.dropped ++ [d] } :=
  { h with
    follow := by
      refine h.follow.skip (h.replayed d hrep) ?_ fun x hx => ?_
      · simp only [State.follow, hq]
        exact (List.sublist_cons_self d queue).append_left _
      · simp only [State.follow, hq, List.mem_append, List.mem_cons] at hx ⊢
        tauto
    waiting x hx := by
      refine h.waiting x ?_
      rw [hq]
      exact ((List.sublist_cons_self d queue).append_left _).subset hx
    reading r hr := absurd ((h.reading r hr).1.symm.trans hq) (by simp)
    drained hl hb := absurd ((h.drained hl hb).symm.trans hq) (by simp) }

/-- A delivery moves from the queue to the goroutine. -/
theorem Open.take (h : Open seq s)
    (hq : s.queue = d :: queue) (htodo : l.todo = []) (htaken : l.taken = s.loop.taken ++ [d])
    (hflight : s.loop.inFlight = [])
    (hdone : ∀ q ∈ l.done, q ∈ s.loop.done ∨ q = seq d) (hreads : l.reads = none)
    (hround : l.atRound = false) :
    Open seq { s with queue := queue, inHand := inHand, loop := l } := by
  have hnone : s.loop.reads = none := by
    cases hr : s.loop.reads with
    | none => rfl
    | some r => exact absurd ((h.reading r hr).1.symm.trans hq) (by simp)
  refine ⟨?_, h.pos, fun x hx => h.waiting x ?_, h.behind, h.replayed, fun x hx => ?_,
    fun q hq => ?_, fun r hr => absurd (hreads.symm.trans hr) (by simp),
    fun hl => absurd (hround.symm.trans hl) (by simp)⟩
  · have := h.follow
    simpa only [State.follow, hq, htodo, htaken, Loop.todo_of_reads hnone, List.append_assoc,
      List.nil_append, List.singleton_append] using this
  · simpa only [hq, htaken, List.append_assoc, List.singleton_append] using hx
  · have := h.delivered x hx
    rw [hflight] at this
    exact .inl (this.resolve_right (by simp))
  · rw [htaken]
    obtain hq | rfl := hdone q hq
    · obtain hin | ⟨x, hx, hxq⟩ := h.done q hq
      · exact .inl hin
      · exact .inr ⟨x, List.mem_append_left _ hx, hxq⟩
    · exact .inr ⟨d, by simp, rfl⟩

/-- The goroutine puts a message in flight. -/
theorem Open.track (h : Open seq s) {replays : List (δ × Nat × Nat)}
    (htodo : l.todo = s.loop.todo) (htaken : l.taken = s.loop.taken)
    (hflight : l.inFlight = s.loop.inFlight ++ [d])
    (hdone : l.done = s.loop.done) (hreads : l.reads = s.loop.reads) (hround : l.atRound = false) :
    Open seq { s.track d with loop := l, replays := replays } :=
  { h with
    follow := by
      have := h.follow
      simpa only [State.follow, State.track, htodo, htaken] using this
    waiting := by
      rw [htaken]
      exact h.waiting
    delivered x hx := by
      rw [hflight]
      obtain hx | hx := List.mem_append.mp hx
      · exact (h.delivered x hx).imp_right (List.mem_append_left _ ·)
      · exact .inr (List.mem_append_right _ hx)
    done := by
      rw [hdone, htaken]
      exact h.done
    reading := by
      rw [hreads, htodo]
      exact h.reading
    drained hl := absurd (hround.symm.trans hl) (by simp) }

/-- A delivery taken off the queue is written. -/
theorem Open.sent (h : Open seq s) (hnone : s.loop.reads = none) (hreads : l.reads = none)
    (htaken : s.loop.taken = d :: l.taken) (hflight : s.loop.inFlight = d :: l.inFlight)
    (hdone : l.done = s.loop.done) (hround : l.atRound = false) :
    Open seq { s with sent := d :: s.sent, inHand := inHand, loop := l } := by
  have hahead : s.follow.ahead = d :: (l.taken ++ s.queue) := by
    simp only [State.follow, Loop.todo_of_reads hnone, htaken, List.nil_append, List.cons_append]
  refine ⟨?_, h.pos, fun x hx => h.waiting x ?_, h.behind,
    fun x hx => List.mem_cons_of_mem _ (h.replayed x hx), fun x hx => ?_, fun q hq => ?_,
    fun r hr => absurd (hreads.symm.trans hr) (by simp),
    fun hl => absurd (hround.symm.trans hl) (by simp)⟩
  · refine (h.follow.send hahead).skip (List.mem_cons_self ..) ?_ fun x hx => ?_
    · simp only [Loop.todo_of_reads hreads, List.nil_append, hahead]
      exact List.sublist_cons_self ..
    · simp only [hahead, List.mem_cons] at hx
      simp only [Loop.todo_of_reads hreads, List.nil_append]
      tauto
  · rw [htaken]
    exact List.mem_cons_of_mem _ hx
  · have := h.delivered x hx
    rw [hflight, List.mem_cons] at this
    simp only [List.mem_cons]
    tauto
  · rw [hdone] at hq
    obtain ⟨x, hx, hxq⟩ | ⟨x, hx, hxq⟩ := h.done q hq
    · exact .inl ⟨x, List.mem_cons_of_mem _ hx, hxq⟩
    · rw [htaken, List.mem_cons] at hx
      obtain rfl | hx := hx
      · exact .inl ⟨x, List.mem_cons_self .., hxq⟩
      · exact .inr ⟨x, hx, hxq⟩

/-- A round begins. -/
theorem Open.round (h : Open seq s) {done : List Nat} (hl : s.loop = .rounds done)
    (hf : s.fromSeq ≠ 0) (hr : r = ⟨false, [], s.fromSeq, s.delivered, done⟩) :
    Open seq { s with
      fromSeq := 0, streamNext := s.fromSeq, loop := .reading r (r.select seq s.stream) } := by
  subst hr
  have hq : s.queue = [] := h.drained (by simp [hl]) (h.behind hf)
  have hselect : Read.select seq ⟨false, [], s.fromSeq, s.delivered, done⟩ s.stream =
      s.stream.filter fun x => s.fromSeq ≤ seq x := by
    simp [Read.select]
  refine ⟨?_, h.pos, fun x hx => ?_, fun hz => absurd rfl hz, h.replayed, fun x hx => ?_,
    fun q hin => ?_, fun r hr => ?_, fun hl => by simp at hl⟩
  · have := h.follow.read (by simp [State.follow, hl, hq]) hf rfl
    simpa [State.follow, hselect, hq] using this
  · simp [hq] at hx
  · have := h.delivered x hx
    simp only [hl, Loop.inFlight] at this
    exact .inl (this.resolve_right (by simp))
  · have := h.done q (by rw [hl]; exact hin)
    simp only [hl, Loop.taken] at this
    exact .inl (this.resolve_right (by simp))
  · cases hr
    refine ⟨hq, h.behind hf, rfl, fun x hx => ?_, hf, fun x hx => ?_⟩
    · have := h.delivered x hx
      simp only [hl, Loop.inFlight] at this
      exact this.resolve_right (by simp)
    · simp only [Loop.todo, hselect, List.mem_filter, decide_eq_true_eq] at hx
      exact hx.2

/-- A read comes past a message that was sent. -/
theorem Open.pass (h : Open seq s) {m : δ} {todo : List δ} {replayed : List δ}
    (htodo : s.loop.todo = m :: todo) (hreads : s.loop.reads = some r) (htaken : s.loop.taken = [])
    (hflight : ∀ x ∈ s.loop.inFlight, x = m) (hdone : s.loop.done = r.done) (hm : m ∈ s.sent)
    (hrep : ∀ x ∈ replayed, x ∈ s.sent) : Open seq { s with
      streamNext := seq m + 1, replayed := replayed, loop := .reading r todo } := by
  obtain ⟨hq, hb, hres, hknown, hne, hle⟩ := h.reading r hreads
  have hahead : s.follow.ahead = m :: todo := by
    simp only [State.follow, htodo, htaken, hq, List.append_nil]
  refine ⟨?_, h.pos, fun x hx => by simp [hq] at hx, h.behind, fun x hx => ?_,
    fun x hx => ?_, fun q hin => ?_, fun r' hr' => ?_, fun hl => by simp at hl⟩
  · refine h.follow.skip hm ?_ fun x hx => ?_
    · simp [hahead, hq]
    · simp only [hahead, List.mem_cons] at hx
      simpa [hq, or_comm] using hx
  · simp only [State.wasReplayed, Bool.or_eq_true, decide_eq_true_eq] at hx
    obtain hx | hx := hx
    · exact hrep x hx
    · exact h.replayed x (by simp [State.wasReplayed, hx])
  · refine .inl ((h.delivered x hx).elim (fun hx => hx) fun hx => ?_)
    exact hflight x hx ▸ hm
  · have := h.done q (by rw [hdone]; exact hin)
    rw [htaken] at this
    exact .inl (this.resolve_right (by simp))
  · cases hr'
    refine ⟨hq, hb, hres, hknown, by simp, fun x hx => ?_⟩
    have hsorted := h.follow.ahead_sorted
    rw [hahead] at hsorted
    exact (List.pairwise_cons.mp hsorted).1 x hx

/-- Every step of an open connection that `InSequence` allows keeps the stream followed. -/
theorem Open.step (h : Open seq s) (hopen : s.closed = false) (hok : InSequence depth seq s a)
    (hs : step depth seq s a = some s') (hopen' : s'.closed = false) : Open seq s' := by
  have hnot : ¬ s.closed = true := by simp [hopen]
  cases Outcome.of_step hs with
  | store => exact h.store hok.1 hok.2
  | turnedAway hb =>
    refine h.turnAway hok.1 hok.2.1 fun hl => ?_
    by_cases hbehind : s.behind = true
    · exact h.drained hl hbehind
    · exact ((hok.2.2 hl).resolve_left hbehind).resolve_right
        (Nat.not_lt.mpr (hb.resolve_left hbehind))
  | accept hb => exact h.accept hok.1 hok.2.1 hb
  | close => exact absurd hopen' (by simp)
  | connect hl => exact hok.elim
  | replay hl hr => exact hok.elim
  | skip hq hwhy =>
    obtain hrep | rfl | rfl := hwhy
    · exact h.skip hq hrep
    · exact absurd hok (by simp [InSequence])
    · exact absurd hok (by simp [InSequence])
  | @take d ds queue hl hq hrep =>
    obtain ⟨hl, rfl, -⟩ | hl := hl
    · exact h.take hq rfl (by simp [hl]) (by simp [hl]) (by simp) rfl rfl
    · exact h.take hq rfl (by simp [hl]) (by simp [hl]) (by simp) rfl rfl
  | flushed hl =>
    rw [State.letGo, if_neg hnot]
    exact h.move hl (by simp) (by simp)
  | sendFails hl =>
    refine absurd hopen' ?_
    split <;> simp [State.fail]
  | sent hl hc =>
    exact h.sent (by simp [hl]) rfl (by simp [hl]) (by simp [hl]) (by simp [hl]) rfl
  | @rotate done wanted hl hq =>
    have hmoved : Open seq { s with loop := .rounds done } :=
      h.move hl (by simp) fun _ => hq.resolve_left hnot
    refine ⟨hmoved.follow, h.pos, hmoved.waiting, h.behind, fun x hx => h.replayed x ?_,
      hmoved.delivered, hmoved.done, hmoved.reading, hmoved.drained⟩
    have hx : x ∈ s.replayed := by simpa [State.wasReplayed] using hx
    simp [State.wasReplayed, hx]
  | @track done d queue hl hc hq hrep =>
    refine h.take hq rfl (by simp [hl]) (by simp [hl]) (fun q hq => ?_) rfl rfl
    simp only [Loop.done] at hq
    split at hq
    · exact .inl (by simpa [hl] using hq)
    · simpa [hl, or_comm] using hq
  | trackSent hl hc =>
    rw [State.letGo, if_neg hnot]
    exact h.sent (by simp [hl]) rfl (by simp [hl]) (by simp [hl]) (by simp [hl]) rfl
  | caughtUp hl hf =>
    have hmoved : Open seq { s with loop := .idle } := h.move hl (by simp) (by simp)
    exact ⟨hmoved.follow, h.pos, hmoved.waiting, fun hz => absurd hf hz, h.replayed,
      hmoved.delivered, hmoved.done, fun r hr => by simp at hr, fun hl => by simp at hl⟩
  | round hl hf hr => exact h.round hl hf hr
  | @known r m todo hl hc hk =>
    have hreads : s.loop.reads = some r := by simp [hl]
    have hmem : m ∈ s.stream := h.follow.ahead_log m (by simp [State.follow, hl])
    have hm : m ∈ s.sent := by
      obtain hk | hk | hk := hk
      · exact (h.reading r hreads).2.2.2.1 m hk
      · exact h.replayed m hk
      · obtain ⟨x, hx, hxm⟩ | ⟨x, hx, -⟩ := h.done (seq m) (by rw [hl]; exact hk)
        · exact h.follow.seq_inj (h.follow.sent_log x hx) hmem hxm ▸ hx
        · simp [hl] at hx
    exact h.pass (by simp [hl]) hreads (by simp [hl]) (by simp [hl]) (by simp [hl]) hm
      fun x hx => h.replayed x (by simp [State.wasReplayed, hx])
  | noReplay hl | endTake hl | allPrepared hl | inHand hl hc | flushFirst hl | flushedFirst hl
  | catchUp hl hc | handle hl hk hrep =>
    exact h.move hl (by simp) (by simp)
  | @reread r todo hl hr =>
    have := (h.reading r (by simp [hl])).2.2.1
    exact absurd (hr.symm.trans this) (by simp)
  | @readEnd r todo e streamNext resume l hl hend hnext hl' =>
    obtain ⟨hq, -, hres, -⟩ := h.reading r (by simp [hl])
    obtain rfl : todo = [] := by simpa [hopen, hres] using hend
    obtain rfl : l = .rounds r.done := by simpa [hres] using hl'
    have hmoved : Open seq { s with loop := .rounds r.done } := h.move hl (by simp) fun _ => hq
    exact ⟨hmoved.follow, h.pos, hmoved.waiting, h.behind, h.replayed, hmoved.delivered,
      hmoved.done, fun r hr => by simp at hr, hmoved.drained⟩
  | prepared hl | tracked hl | handled hl =>
    exact h.track (by simp [hl]) (by simp [hl]) (by simp [hl]) (by simp [hl]) (by simp [hl]) rfl
  | late hc | abandon hl hc | gaveUp hl hc | stop hc hl | trackGaveUp hl hc | pass hl hc
  | handleGaveUp hl hc =>
    exact absurd hc hnot
  | discard hl hp | trackDiscard hl hp | handleDiscard hl hp =>
    exact absurd hp (by simp [hok.1, hok.2])
  | exhausted hl | trackExhausted hl | trackFails hl | readFails hl | handleExhausted hl
  | handleFails hl =>
    exact absurd hopen' (by simp [State.fail])
  | @handleSent r m todo hl hc =>
    have hahead : s.follow.ahead = m :: (todo ++ s.queue) := by
      simp [State.follow, hl]
    have hsent : Open seq { s with sent := m :: s.sent } := by
      refine ⟨h.follow.send hahead, h.pos, h.waiting, h.behind,
        fun x hx => List.mem_cons_of_mem _ (h.replayed x hx),
        fun x hx => (h.delivered x hx).imp_left (List.mem_cons_of_mem _ ·), fun q hq => ?_,
        fun r hr => ?_, h.drained⟩
      · obtain ⟨x, hx, hxq⟩ | hin := h.done q hq
        · exact .inl ⟨x, List.mem_cons_of_mem _ hx, hxq⟩
        · exact .inr hin
      · obtain ⟨hq, hb, hres, hknown, hrest⟩ := h.reading r hr
        exact ⟨hq, hb, hres, fun x hx => List.mem_cons_of_mem _ (hknown x hx), hrest⟩
    rw [State.advance, if_neg hnot]
    refine hsent.pass (by simp [hl]) (by simp [hl]) (by simp [hl])
      (by simp [hl]) (by simp [hl]) (List.mem_cons_self ..) fun x hx => ?_
    obtain hx | hx := List.mem_append.mp hx
    · exact List.mem_cons_of_mem _ (h.replayed x (by simp [State.wasReplayed, hx]))
    · exact List.mem_singleton.mp hx ▸ List.mem_cons_self ..

/-! ## The result -/

/-- The lower of `fromSeq` and `streamNext`, of those that are set. -/
def State.position (s : State δ) : Nat := lowest (lowest 0 s.fromSeq) s.streamNext

theorem step_closed (hok : InSequence depth seq s a) (hs : step depth seq s a = some s')
    (hopen : s'.closed = false) : s.closed = false := by
  cases Outcome.of_step hs with
  | connect => exact hok.elim
  | close => simp at hopen
  | flushed | trackSent =>
    obtain ⟨q, hq⟩ := State.letGo_eq (s := s)
    simpa [hq] using hopen
  | trackDiscard hl hp | handleDiscard hl hp => exact absurd hp (by simp [hok.1, hok.2])
  | sendFails =>
    split at hopen <;> simp [State.fail] at hopen
  | exhausted | trackExhausted | trackFails | readFails | handleExhausted | handleFails =>
    simp [State.fail] at hopen
  | handleSent hl hc => exact hc
  | _ => exact hopen

theorem Open.of_reach
    (h : Lts.Reach (CatchUp.step depth seq) (InSequence depth seq) ({} : State δ) s) :
    s.closed = false → Open seq s := by
  induction h with
  | refl => exact fun _ => .init
  | tail _ hok hs ih =>
    intro hopen
    have hopen' := step_closed hok hs hopen
    exact (ih hopen').step hopen' hok hs hopen

/-- **A slow client gets everything in order.** -/
theorem slow_client_in_order (depth : Nat) (seq : δ → Nat) (s : State δ)
    (h : Lts.Reach (step depth seq) (InSequence depth seq) {} s) (hopen : s.closed = false) :
    FirstInOrder seq s.sent ∧ ∀ d ∈ s.arrived, d ∈ s.sent ∨ d ∈ s.queue ∨ d ∈ s.loop.taken ∨
      s.behind = true ∧ s.position ≠ 0 ∧ s.position ≤ seq d := by
  have hi := Open.of_reach h hopen
  refine ⟨hi.follow.order, fun d hd => ?_⟩
  have hpos := hi.pos d (hi.follow.noticed_log d hd)
  obtain hin | hin | ⟨hne, hle⟩ := hi.follow.complete d hd
  · exact .inl hin
  · simp only [State.follow, List.mem_append] at hin
    obtain (hin | hin) | hin := hin
    · -- the read comes to it
      cases hr : s.loop.reads with
      | none =>
        rw [Loop.todo_of_reads hr] at hin
        cases hin
      | some r =>
        obtain ⟨-, hb, -, -, hne, hle⟩ := hi.reading r hr
        refine .inr (.inr (.inr ⟨hb, ?_⟩))
        exact (lowest_new _ _).trans (fun _ => ⟨hne, hle d hin⟩) hpos
    · exact .inr (.inr (.inl hin))
    · exact .inr (.inl hin)
  · refine .inr (.inr (.inr ⟨hi.behind hne, ?_⟩))
    exact ((lowest_new 0 s.fromSeq).lowest _).trans (fun _ => ⟨hne, hle⟩) hpos

end

/-- A queue of one; the second and third copies are turned away, and a round sends them. -/
def caughtUpRun : List (Act Nat) :=
  [.noReplay, .store 1, .store 2, .store 3, .place 1 false, .place 2 false, .catchUp,
    .place 3 false,
   .drain true, .deliver .ok, .write true, .drain true, .round, .read, .deliver .ok, .write true,
   .read, .deliver .ok, .write true, .endRead .finished, .round]

/-- The result holds of a run that catches up. -/
theorem slow_client_in_order_caught_up :
    ∃ s : State Nat, Lts.Reach (step 1 id) (InSequence 1 id) {} s ∧ s.closed = false ∧
      s.sent = [3, 2, 1] ∧ FirstInOrder id s.sent ∧ ∀ d ∈ s.arrived, d ∈ s.sent ∨ d ∈ s.queue ∨
        d ∈ s.loop.taken ∨ s.behind = true ∧ s.position ≠ 0 ∧ s.position ≤ id d := by
  obtain ⟨s, hr, ⟨hopen, hsent⟩, h⟩ := Lts.exists_reach_of
    (P := fun s => s.closed = false ∧ s.sent = [3, 2, 1]) caughtUpRun (by decide)
    fun s hr hs => slow_client_in_order 1 id s hr hs.1
  exact ⟨s, hr, hopen, hsent, h⟩

/-- The signal of the third copy is left over, so a second catch-up begins with `behind` false. Once
it has seen the queue empty, the fourth copy is queued and the fifth is turned away. -/
def overtakenRun : List (Act Nat) :=
  caughtUpRun ++
    [.catchUp, .drain true, .store 4, .place 4 false, .store 5, .place 5 false, .round, .read,
     .deliver .ok, .write true, .endRead .finished, .round, .take true, .endTake, .check,
     .prepare .ok, .check, .send true]

/-- **The stream overtakes the queue.** The copies arrived in order, and the fifth was sent before
the fourth. -/
theorem overtaken :
    ∃ s : State Nat, Lts.Reach (step 1 id) Lts.free {} s ∧ s.closed = false ∧
      s.stream = [1, 2, 3, 4, 5] ∧ s.arrived = [1, 2, 3, 4, 5] ∧ s.sent = [4, 5, 3, 2, 1] := by
  exact Lts.exists_reach overtakenRun (by decide)

end Natsmqtt5.CatchUp
