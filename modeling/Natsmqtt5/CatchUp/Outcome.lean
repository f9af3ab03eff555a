import Natsmqtt5.CatchUp.Model

/-!
# What the delivery goroutine holds, and what a step does

A delivery the goroutine has taken off the queue is in its hand (`Loop.hand`) until it is prepared,
and then in flight (`Loop.inFlight`) until it is written. `Outcome depth seq s a s'` has one case
for each way a step can go, with what the step found.
-/

namespace Natsmqtt5.CatchUp

section

variable {δ : Type} {depth : Nat} {seq : δ → Nat} {s s' : State δ} {wanted ok : Bool} {p : Prepare}
  {done : List Nat}

/-! ## What the goroutine holds -/

/-- The deliveries taken off the queue and not prepared. -/
@[simp] def Loop.hand : Loop δ → List δ
  | .taking ds => ds
  | .checking _ ds _ => ds
  | .preparing ds _ => ds
  | .flushing _ ds => ds
  | .tracking d _ => [d]
  | _ => []

/-- What is prepared and not written. -/
@[simp] def Loop.inFlight : Loop δ → List δ
  | .checking _ _ ready => ready
  | .preparing _ ready => ready
  | .flushing ready _ => ready
  | .writing d _ => [d]
  | .sending _ m _ => [m]
  | _ => []

/-- The read in progress. -/
@[simp] def Loop.reads : Loop δ → Option (Read δ)
  | .reading r _ => some r
  | .handling r _ _ => some r
  | .sending r _ _ => some r
  | _ => none

/-! ## What a step does -/

variable [DecidableEq δ]

/-- The ways a step can go. -/
inductive Outcome (depth : Nat) (seq : δ → Nat) (s : State δ) : Act δ → State δ → Prop
  | store {d : δ} : Outcome depth seq s (.store d) { s with stream := s.stream ++ [d] }
  -- a live copy: the connection has ended, the copy is turned away, or it is queued
  | late {d : δ} {raced : Bool} (hc : s.closed = true) : Outcome depth seq s (.place d raced)
      ({ s with arrived := s.arrived ++ [d] }.noteOwed (seq d))
  | turnedAway {d : δ} {raced : Bool} (hb : s.behind = true ∨ depth ≤ s.queue.length) :
      Outcome depth seq s (.place d raced)
      { { s with arrived := s.arrived ++ [d] }.noteOwed (seq d) with
        behind := true, catchup := true }
  | accept {d : δ} {raced : Bool} (hb : s.behind = false) : Outcome depth seq s (.place d raced)
      { s with
        arrived := s.arrived ++ [d], queue := s.queue ++ [d], accepted := s.accepted ++ [d] }
  | close : Outcome depth seq s .close { s with closed := true }
  | connect (hl : s.loop = .stopped) : Outcome depth seq s .connect
      { stream := s.stream, delivered := s.delivered, prepared := s.prepared, sent := s.sent,
        arrived := s.arrived, replays := s.replays, conns := s.conns + 1 }
  | replay {holes : List δ} {next start : Nat} {r : Read δ} (hl : s.loop = .starting)
      (hr : r = ⟨true, holes, next, s.delivered, []⟩) :
          Outcome depth seq s (.replay holes next start)
      { s with resume := true, streamNext := start, loop := .reading r (r.select seq s.stream) }
  | noReplay (hl : s.loop = .starting) : Outcome depth seq s .noReplay { s with loop := .idle }
  -- a delivery leaves the queue
  | skip {a : Act δ} {d : δ} {queue : List δ} (hq : s.queue = d :: queue)
      (hwhy : s.wasReplayed d = true ∨ a = .take false ∨ a = .drain false) : Outcome depth seq s a
      { s with queue := queue, dropped := s.dropped ++ [d] }
  | take {d : δ} {ds queue : List δ}
      (hl : s.loop = .idle ∧ ds = [] ∧ s.closed = false ∨ s.loop = .taking ds)
      (hq : s.queue = d :: queue) (hrep : s.wasReplayed d = false) :
      Outcome depth seq s (.take true) { s with queue := queue, loop := .taking (ds ++ [d]) }
  | endTake {ds : List δ} (hl : s.loop = .taking ds) :
      Outcome depth seq s .endTake { s with loop := .checking true ds [] }
  | allPrepared {first : Bool} {ready : List δ} (hl : s.loop = .checking first [] ready) :
      Outcome depth seq s .check { s with loop := .flushing ready [] }
  | abandon {first : Bool} {d : δ} {ds ready : List δ}
      (hl : s.loop = .checking first (d :: ds) ready) (hc : s.closed = true) :
      Outcome depth seq s .check { s with loop := .idle }
  | inHand {first : Bool} {d : δ} {ds ready : List δ}
      (hl : s.loop = .checking first (d :: ds) ready) (hc : s.closed = false) :
      Outcome depth seq s .check
      { s with inHand := seq d, loop := .preparing (d :: ds) ready }
  -- `prepare` in a burst
  | prepared {d : δ} {ds ready : List δ} (hl : s.loop = .preparing (d :: ds) ready) :
      Outcome depth seq s (.prepare .ok)
      { s.track d with loop := .checking false ds (ready ++ [d]) }
  | gaveUp {d : δ} {ds : List δ} (hl : s.loop = .preparing (d :: ds) []) (hc : s.closed = true) :
      Outcome depth seq s (.prepare .noQuota) { s with loop := .flushing [] [] }
  | flushFirst {d : δ} {ds ready : List δ} (hl : s.loop = .preparing (d :: ds) ready) :
      Outcome depth seq s (.prepare .noQuota) { s with loop := .flushing ready (d :: ds) }
  | discard {d : δ} {ds ready : List δ} {p : Prepare} (hl : s.loop = .preparing (d :: ds) ready)
      (hp : p = .unwanted ∨ p = .expired) : Outcome depth seq s (.prepare p)
      { s.discard d (p = .expired) with
        loop := if s.closed then .flushing ready [] else .checking false ds ready }
  | exhausted {d : δ} {ds ready : List δ} (hl : s.loop = .preparing (d :: ds) ready) :
      Outcome depth seq s (.prepare .exhausted) s.fail
  -- the writes of a burst
  | flushed (hl : s.loop = .flushing [] []) :
      Outcome depth seq s .flush { s.letGo with loop := .idle }
  | flushedFirst {ds : List δ} (hl : s.loop = .flushing [] ds) :
      Outcome depth seq s .flush { s with loop := .preparing ds [] }
  | sendFails {d : δ} {ready ds : List δ} (hl : s.loop = .flushing (d :: ready) ds) :
      Outcome depth seq s (.send false) (if ds = [] then s.letGo.fail else s.fail)
  | sent {d : δ} {ready ds : List δ} (hl : s.loop = .flushing (d :: ready) ds)
      (hc : s.closed = false) : Outcome depth seq s (.send true)
      { s with sent := d :: s.sent, loop := .flushing ready ds }
  | stop (hc : s.closed = true) (hl : s.loop = .starting ∨ s.loop = .idle) :
      Outcome depth seq s .stop { s with loop := .stopped }
  -- a catch-up, up to its rounds
  | catchUp (hl : s.loop = .idle) (hc : s.closed = false) : Outcome depth seq s .catchUp
      { s with catchup := false, loop := .draining [] }
  | rotate {done : List Nat} {wanted : Bool} (hl : s.loop = .draining done)
      (hq : s.closed = true ∨ s.queue = []) : Outcome depth seq s (.drain wanted)
      { s with
        replayedBefore := s.replayed, replayed := [], catchUps := s.catchUps + 1,
        loop := .rounds done }
  | track {done : List Nat} {d : δ} {queue : List δ} (hl : s.loop = .draining done)
      (hc : s.closed = false) (hq : s.queue = d :: queue) (hrep : s.wasReplayed d = false) :
      Outcome depth seq s (.drain true)
      { s with
        queue := queue
        inHand := seq d
        loop := .tracking d (if seq d = 0 then done else seq d :: done) }
  | tracked {done : List Nat} {d : δ} (hl : s.loop = .tracking d done) :
      Outcome depth seq s (.deliver .ok) { s.track d with loop := .writing d done }
  | trackGaveUp {done : List Nat} {d : δ} (hl : s.loop = .tracking d done) (hc : s.closed = true) :
      Outcome depth seq s (.deliver .noQuota) { s with loop := .draining done }
  | trackDiscard {done : List Nat} {d : δ} {p : Prepare} (hl : s.loop = .tracking d done)
      (hp : p = .unwanted ∨ p = .expired) : Outcome depth seq s (.deliver p)
      { (s.discard d (p = .expired)).letGo with loop := .draining done }
  | trackExhausted {done : List Nat} {d : δ} (hl : s.loop = .tracking d done) :
      Outcome depth seq s (.deliver .exhausted) s.letGo.fail
  | trackFails {done : List Nat} {d : δ} (hl : s.loop = .writing d done) :
      Outcome depth seq s (.write false) s.letGo.fail
  | trackSent {done : List Nat} {d : δ} (hl : s.loop = .writing d done) (hc : s.closed = false) :
      Outcome depth seq s (.write true) { s.letGo with sent := d :: s.sent, loop := .draining done }
  -- rounds and reads
  | caughtUp {done : List Nat} (hl : s.loop = .rounds done) (hf : s.fromSeq = 0) :
      Outcome depth seq s .round { s with behind := false, loop := .idle }
  | round {done : List Nat} {r : Read δ} (hl : s.loop = .rounds done) (hf : s.fromSeq ≠ 0)
      (hr : r = ⟨false, [], s.fromSeq, s.delivered, done⟩) : Outcome depth seq s .round
      { s with fromSeq := 0, streamNext := s.fromSeq, loop := .reading r (r.select seq s.stream) }
  | pass {r : Read δ} {m : δ} {todo : List δ} (hl : s.loop = .reading r (m :: todo))
      (hc : s.closed = true) : Outcome depth seq s .read { s with loop := .reading r todo }
  | known {r : Read δ} {m : δ} {todo : List δ} (hl : s.loop = .reading r (m :: todo))
      (hc : s.closed = false) (hk : m ∈ r.known ∨ s.wasReplayed m ∨ seq m ∈ r.done) :
      Outcome depth seq s .read { s with streamNext := seq m + 1, loop := .reading r todo }
  | handle {r : Read δ} {m : δ} {todo : List δ} (hl : s.loop = .reading r (m :: todo))
      (hk : m ∉ r.known) (hrep : s.wasReplayed m = false) :
      Outcome depth seq s .read { s with loop := .handling r m todo }
  | reread {r : Read δ} {todo : List δ} (hl : s.loop = .reading r todo) (hr : r.resume = true) :
      Outcome depth seq s .reread { s with loop := .reading r (r.select seq s.stream) }
  | readEnd {r : Read δ} {todo : List δ} {e : End} {streamNext : Nat} {resume : Bool} {l : Loop δ}
      (hl : s.loop = .reading r todo) (hend : todo = [] ∨ s.closed = true ∨ r.resume = true)
      (hnext : streamNext = 0 ∨ s.closed = true)
      (hl' : l = if r.resume then .idle else .rounds r.done) : Outcome depth seq s (.endRead e)
      { s with streamNext := streamNext, resume := resume, loop := l }
  | readFails {r : Read δ} {todo : List δ} (hl : s.loop = .reading r todo) :
      Outcome depth seq s (.endRead .failed) s.fail
  | handled {r : Read δ} {m : δ} {todo : List δ} (hl : s.loop = .handling r m todo) :
      Outcome depth seq s (.deliver .ok)
      { s.track m with
        replays := s.replays ++ [(m, s.conns, s.catchUps)], loop := .sending r m todo }
  | handleGaveUp {r : Read δ} {m : δ} {todo : List δ} (hl : s.loop = .handling r m todo)
      (hc : s.closed = true) : Outcome depth seq s (.deliver .noQuota)
      { s with replayed := s.replayed ++ [m], loop := .reading r todo }
  | handleDiscard {r : Read δ} {m : δ} {todo : List δ} {p : Prepare}
      (hl : s.loop = .handling r m todo) (hp : p = .unwanted ∨ p = .expired) :
      Outcome depth seq s (.deliver p)
      { (s.discard m (p = .expired)).advance (seq m + 1) with
        replayed := s.replayed ++ [m], loop := .reading r todo }
  | handleExhausted {r : Read δ} {m : δ} {todo : List δ} (hl : s.loop = .handling r m todo) :
      Outcome depth seq s (.deliver .exhausted) s.fail
  | handleFails {r : Read δ} {m : δ} {todo : List δ} (hl : s.loop = .sending r m todo) :
      Outcome depth seq s (.write false) s.fail
  | handleSent {r : Read δ} {m : δ} {todo : List δ} (hl : s.loop = .sending r m todo)
      (hc : s.closed = false) : Outcome depth seq s (.write true)
      { s.advance (seq m + 1) with
        sent := m :: s.sent, replayed := s.replayed ++ [m], loop := .reading r todo }

omit [DecidableEq δ] in
/-- `letGo` changes `inHand` only. -/
theorem State.letGo_eq : ∃ q, s.letGo = { s with inHand := q } := by
  unfold State.letGo
  split
  · exact ⟨s.inHand, rfl⟩
  · exact ⟨0, rfl⟩

omit [DecidableEq δ] in
/-- `advance` changes `streamNext` only. -/
theorem State.advance_eq (q : Nat) : ∃ q', s.advance q = { s with streamNext := q' } := by
  unfold State.advance
  split
  · exact ⟨s.streamNext, rfl⟩
  · exact ⟨q, rfl⟩

theorem Outcome.of_place {d : δ} {raced : Bool} :
    Outcome depth seq s (.place d raced) (placeQueued depth seq s d raced) := by
  unfold placeQueued
  simp only
  split
  · rename_i hc
    exact .late (by simpa using (Bool.and_eq_true_iff.mp hc).1)
  · split
    · rename_i hb
      exact .accept (by simpa using (Bool.and_eq_true_iff.mp hb).1)
    · split
      · rename_i hc
        exact .late (by simpa using (Bool.and_eq_true_iff.mp hc).2)
      · refine .turnedAway ?_
        cases hb : s.behind <;> simp_all

theorem Outcome.of_take (h : step depth seq s (.take wanted) = some s') :
    Outcome depth seq s (.take wanted) s' := by
  simp only [step] at h
  split at h
  · rename_i d queue hl hq
    split at h
    · cases h
    · rename_i hc
      split at h
      · rename_i hwhy
        cases h
        refine .skip hq ((Bool.or_eq_true_iff.mp hwhy).imp_right fun hw => .inl ?_)
        rw [show wanted = false by simpa using hw]
      · rename_i hkeep
        simp only [Bool.or_eq_true, Bool.not_eq_true', not_or] at hkeep
        obtain rfl : wanted = true := by simpa using hkeep.2
        cases h
        exact .take (.inl ⟨hl, rfl, by simpa using hc⟩) hq (by simpa using hkeep.1)
  · rename_i ds d queue hl hq
    split at h
    · cases h
    · split at h
      · rename_i hwhy
        cases h
        refine .skip hq ((Bool.or_eq_true_iff.mp hwhy).imp_right fun hw => .inl ?_)
        rw [show wanted = false by simpa using hw]
      · rename_i hkeep
        simp only [Bool.or_eq_true, Bool.not_eq_true', not_or] at hkeep
        obtain rfl : wanted = true := by simpa using hkeep.2
        cases h
        exact .take (.inr hl) hq (by simpa using hkeep.1)
  · cases h

theorem Outcome.of_check (h : step depth seq s .check = some s') :
    Outcome depth seq s .check s' := by
  simp only [step] at h
  split at h
  · rename_i first ready hl
    cases h
    exact .allPrepared hl
  · rename_i first d ds ready hl
    split at h <;> cases h
    · rename_i hc
      exact .abandon hl hc
    · rename_i hc
      exact .inHand hl (by simpa using hc)
  · cases h

theorem Outcome.of_prepareStep {ds ready : List δ}
    (hl : s.loop = .preparing (d :: ds) ready) (h : prepareStep s d ds ready p = some s') :
    Outcome depth seq s (.prepare p) s' := by
  unfold prepareStep at h
  cases p with
  | ok =>
    cases h
    exact .prepared hl
  | noQuota =>
    simp only at h
    split at h
    · rename_i hnil
      subst hnil
      split at h <;> cases h
      rename_i hc
      exact .gaveUp hl hc
    · cases h
      exact .flushFirst hl
  | unwanted =>
    cases h
    exact .discard hl (.inl rfl)
  | expired =>
    cases h
    exact .discard hl (.inr rfl)
  | exhausted =>
    cases h
    exact .exhausted hl

theorem Outcome.of_send (h : step depth seq s (.send ok) = some s') :
    Outcome depth seq s (.send ok) s' := by
  simp only [step] at h
  split at h
  · rename_i d ready ds hl
    cases ok with
    | false =>
      cases h
      exact .sendFails hl
    | true =>
      simp only [Bool.not_true, Bool.false_eq_true, if_false] at h
      split at h <;> cases h
      rename_i hc
      exact .sent hl (by simpa using hc)
  · cases h

theorem Outcome.of_drainStep (hl : s.loop = .draining done) :
    Outcome depth seq s (.drain wanted) (drainStep seq s done wanted) := by
  unfold drainStep
  simp only
  split
  · rename_i hc
    exact .rotate hl (.inl hc)
  · rename_i hc
    split
    · rename_i hq
      exact .rotate hl (.inr hq)
    · rename_i d queue hq
      split
      · rename_i hwhy
        refine .skip hq ((Bool.or_eq_true_iff.mp hwhy).imp_right fun hw => .inr ?_)
        rw [show wanted = false by simpa using hw]
      · rename_i hkeep
        simp only [Bool.or_eq_true, Bool.not_eq_true', not_or] at hkeep
        obtain rfl : wanted = true := by simpa using hkeep.2
        exact .track hl (by simpa using hc) hq (by simpa using hkeep.1)

theorem Outcome.of_roundStep (hl : s.loop = .rounds done) :
    Outcome depth seq s .round (roundStep seq s done) := by
  unfold roundStep
  split
  · rename_i hf
    exact .caughtUp hl hf
  · rename_i hf
    exact .round hl hf rfl

theorem Outcome.of_read (h : step depth seq s .read = some s') : Outcome depth seq s .read s' := by
  simp only [step] at h
  split at h
  · rename_i r m todo hl
    split at h
    · rename_i hc
      cases h
      exact .pass hl hc
    · rename_i hc
      split at h
      · rename_i hk
        cases h
        exact .known hl (by simpa using hc) hk
      · rename_i hk
        simp only [not_or] at hk
        cases h
        exact .handle hl hk.1 (by simpa using hk.2.1)
  · cases h

theorem Outcome.of_endReadStep {e : End} (h : endReadStep s e = some s') :
    Outcome depth seq s (.endRead e) s' := by
  unfold endReadStep at h
  split at h
  · rename_i r todo hl
    cases e with
    | finished =>
      simp only at h
      split at h <;> cases h
      rename_i hend
      exact .readEnd hl (hend.imp_right .inl) (.inl rfl) rfl
    | canceled =>
      simp only at h
      split at h <;> cases h
      rename_i hc
      exact .readEnd hl (.inr (.inl hc)) (.inr hc) rfl
    | failed =>
      simp only at h
      split at h <;> cases h
      · rename_i hr
        exact .readEnd hl (.inr (.inr hr)) (.inl rfl) (by rw [if_pos hr])
      · exact .readFails hl
  · cases h

theorem Outcome.of_deliverStep (h : deliverStep seq s p = some s') :
    Outcome depth seq s (.deliver p) s' := by
  unfold deliverStep at h
  split at h
  · rename_i d done hl
    cases p with
    | ok =>
      cases h
      exact .tracked hl
    | noQuota =>
      simp only at h
      split at h <;> cases h
      rename_i hc
      exact .trackGaveUp hl hc
    | unwanted =>
      cases h
      exact .trackDiscard hl (.inl rfl)
    | expired =>
      cases h
      exact .trackDiscard hl (.inr rfl)
    | exhausted =>
      cases h
      exact .trackExhausted hl
  · rename_i r m todo hl
    cases p with
    | ok =>
      cases h
      exact .handled hl
    | noQuota =>
      simp only at h
      split at h <;> cases h
      rename_i hc
      exact .handleGaveUp hl hc
    | unwanted =>
      cases h
      exact .handleDiscard hl (.inl rfl)
    | expired =>
      cases h
      exact .handleDiscard hl (.inr rfl)
    | exhausted =>
      cases h
      exact .handleExhausted hl
  · cases h

theorem Outcome.of_writeStep (h : writeStep seq s ok = some s') :
    Outcome depth seq s (.write ok) s' := by
  unfold writeStep at h
  split at h
  · rename_i d done hl
    cases ok with
    | false =>
      cases h
      exact .trackFails hl
    | true =>
      simp only [Bool.not_true, Bool.false_eq_true, if_false] at h
      split at h <;> cases h
      rename_i hc
      exact .trackSent hl (by simpa using hc)
  · rename_i r m todo hl
    cases ok with
    | false =>
      cases h
      exact .handleFails hl
    | true =>
      simp only [Bool.not_true, Bool.false_eq_true, if_false] at h
      split at h <;> cases h
      rename_i hc
      exact .handleSent hl (by simpa using hc)
  · cases h

theorem Outcome.of_step {a : Act δ} (h : step depth seq s a = some s') :
    Outcome depth seq s a s' := by
  cases a <;> simp only [step] at h
  case store d =>
    cases h
    exact .store
  case place d raced =>
    cases h
    exact .of_place
  case close =>
    cases h
    exact .close
  case connect =>
    split at h <;> cases h
    rename_i hl
    exact .connect hl
  case replay holes next start =>
    split at h <;> cases h
    rename_i hl
    exact .replay hl rfl
  case noReplay =>
    split at h <;> cases h
    rename_i hl
    exact .noReplay hl
  case take wanted => exact .of_take h
  case endTake =>
    split at h
    · rename_i ds hl
      split at h <;> cases h
      exact .endTake hl
    · cases h
  case check => exact .of_check h
  case prepare p =>
    split at h
    · rename_i d ds ready hl
      exact .of_prepareStep hl h
    · cases h
  case flush =>
    split at h <;> cases h
    · rename_i hl
      exact .flushed hl
    · rename_i ds _ hl
      exact .flushedFirst hl
  case send ok => exact .of_send h
  case stop =>
    split at h
    · rename_i hc
      split at h <;> cases h
      · rename_i hl
        exact .stop hc (.inl hl)
      · rename_i hl
        exact .stop hc (.inr hl)
    · cases h
  case catchUp =>
    split at h
    · rename_i hl
      split at h <;> cases h
      rename_i hc
      exact .catchUp hl (by simpa using (Bool.and_eq_true_iff.mp hc).2)
    · cases h
  case drain wanted =>
    split at h <;> cases h
    rename_i done hl
    exact .of_drainStep hl
  case round =>
    split at h <;> cases h
    rename_i done hl
    exact .of_roundStep hl
  case read => exact .of_read h
  case reread =>
    split at h
    · rename_i r todo hl
      split at h <;> cases h
      rename_i hc
      exact .reread hl (Bool.and_eq_true_iff.mp hc).1
    · cases h
  case endRead e => exact .of_endReadStep h
  case deliver p => exact .of_deliverStep h
  case write ok => exact .of_writeStep h

end

end Natsmqtt5.CatchUp
