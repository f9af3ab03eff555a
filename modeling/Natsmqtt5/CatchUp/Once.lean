import Natsmqtt5.CatchUp.Outcome

/-!
# A message is written as a new one once

A message can reach the client as a new PUBLISH by its live copy, by a resume replay or by a
catch-up. The reads of the stream ask the session which ids were delivered; the live path asks the
connection (`wasReplayed`, `catchup.go:342-344`), which knows only what it has replayed itself, in
this catch-up and the one before. A live copy that comes after the session was resumed, or after two
more catch-ups, is written again (`written_twice`).

`Fresh` is about the delay of a live copy alone: the copy of a message that a read has put in flight
reaches the connection whose read it was, before a second later catch-up of it has drained the
queue.

Results:
* `Told.step`: such a copy is still in `replayed` or `replayedBefore` when it is taken off the
  queue.
* `Once.step`: what is on its way stays apart from what was put in flight.
* **`new_publish_once`**: no message is written as a new one twice, over all connections.
-/

namespace Natsmqtt5.CatchUp

section

variable {δ : Type} {depth streamNext inHand fromSeq catchUps : Nat} {seq : δ → Nat}
  {s s' : State δ} {l : Loop δ} {replayed stream arrived before todo queue : List δ}
  {resume closed behind catchup : Bool} {replays : List (δ × Nat × Nat)} {d : δ} {r : Read δ}
  {a : Act δ}

/-- The message a read is about to prepare. -/
@[simp] def Loop.handles : Loop δ → List δ
  | .handling _ m _ => [m]
  | _ => []

/-- The message a read is about to write. -/
@[simp] def Loop.sends : Loop δ → List δ
  | .sending _ m _ => [m]
  | _ => []

variable [DecidableEq δ]

/-- Each live copy reaches the session once, and the copy of a message that a read has put in flight
reaches the connection of that read, before its second catch-up since then has drained the queue. -/
def Fresh (s : State δ) : Act δ → Prop
  | .place d _ => d ∉ s.arrived ∧
    ∀ x ∈ s.replays, x.1 = d → x.2.1 = s.conns ∧ s.catchUps ≤ x.2.2 + 1
  | _ => True

/-- What is on its way, what was put in flight and what was written are told apart. -/
structure Once (s : State δ) : Prop where
  prepared_delivered : ∀ d ∈ s.prepared, d ∈ s.delivered
  prepared_nodup : s.prepared.Nodup
  waiting_nodup : (s.loop.hand ++ s.queue).Nodup
  waiting_arrived : ∀ d ∈ s.loop.hand ++ s.queue, d ∈ s.arrived
  hand_fresh : ∀ d ∈ s.loop.hand ++ s.loop.handles, d ∉ s.prepared
  /-- A read knows of everything put in flight, or it is the read that did so. -/
  known : ∀ r, s.loop.reads = some r → ∀ d ∈ s.prepared,
    d ∈ r.known ∨ s.wasReplayed d = true ∨ d ∈ s.loop.inFlight
  flight_prepared : ∀ d ∈ s.loop.inFlight, d ∈ s.prepared
  sent_prepared : ∀ d ∈ s.sent, d ∈ s.prepared
  sent_nodup : (s.loop.inFlight ++ s.sent).Nodup

theorem Once.init : Once ({} : State δ) := by
  constructor <;> simp

/-! ## What the goroutine does to it -/

/-- The goroutine moves, and may let go of what it holds. -/
theorem Once.goto (h : Once s) {accepted dropped : List δ}
    (hhand : l.hand.Sublist s.loop.hand) (hhandles : ∀ d ∈ l.handles, d ∈ s.loop.handles)
    (hflight : l.inFlight.Sublist s.loop.inFlight)
    (hreads : ∀ r, l.reads = some r → s.loop.reads = some r ∧ l.inFlight = s.loop.inFlight ∧
      ∀ d, d ∈ s.replayed ∨ d ∈ s.replayedBefore → d ∈ replayed ∨ d ∈ before)
    (harr : ∀ d ∈ s.arrived, d ∈ arrived) : Once { s with
      loop := l, stream := stream, arrived := arrived, replayed := replayed,
      replayedBefore := before, replays := replays, catchUps := catchUps, accepted := accepted,
      dropped := dropped, closed := closed, behind := behind, catchup := catchup,
      resume := resume, fromSeq := fromSeq, streamNext := streamNext, inHand := inHand } :=
  { h with
    waiting_nodup := h.waiting_nodup.sublist (hhand.append_right _)
    waiting_arrived d hd := harr d (h.waiting_arrived d ((hhand.append_right _).subset hd))
    hand_fresh d hd := by
      refine h.hand_fresh d ?_
      obtain hd | hd := List.mem_append.mp hd
      · exact List.mem_append_left _ (hhand.subset hd)
      · exact List.mem_append_right _ (hhandles d hd)
    known r hr d hd := by
      obtain ⟨hr, hsame, hrep⟩ := hreads r hr
      obtain hk | hk | hk := h.known r hr d hd
      · exact .inl hk
      · refine .inr (.inl ?_)
        simp only [State.wasReplayed, Bool.or_eq_true, decide_eq_true_eq] at hk ⊢
        exact hrep d hk
      · exact .inr (.inr (hsame ▸ hk))
    flight_prepared d hd := h.flight_prepared d (hflight.subset hd)
    sent_nodup := h.sent_nodup.sublist (hflight.append_right _) }

/-- The goroutine returns, or moves to a place where it holds nothing. -/
theorem Once.leave (h : Once s) (hhand : l.hand = [])
    (hhandles : l.handles = []) (hflight : l.inFlight = []) (hreads : l.reads = none) :
    Once { s with
      loop := l, replayed := replayed, replayedBefore := before, catchUps := catchUps,
      closed := closed, behind := behind, catchup := catchup, resume := resume, fromSeq := fromSeq,
      streamNext := streamNext, inHand := inHand } :=
  h.goto (hhand ▸ List.nil_sublist _) (hhandles ▸ List.forall_mem_nil _)
    (hflight ▸ List.nil_sublist _) (fun r hr => by rw [hreads] at hr; cases hr) fun _ hd => hd

/-- A message is put in flight for the first time. -/
theorem Once.track (h : Once s) (hd : d ∉ s.prepared)
    (hhand : l.hand.Sublist s.loop.hand) (hne : d ∉ l.hand) (hhandles : l.handles = [])
    (hflight : l.inFlight = s.loop.inFlight ++ [d]) (hreads : l.reads = s.loop.reads) :
    Once { s.track d with loop := l, replays := replays } := by
  refine ⟨fun x hx => ?_, ?_, h.waiting_nodup.sublist (hhand.append_right _),
    fun x hx => h.waiting_arrived x ((hhand.append_right _).subset hx), fun x hx hmem => ?_,
    fun r hr x hx => ?_, fun x hx => ?_, fun x hx => List.mem_append_left _ (h.sent_prepared x hx),
      ?_⟩
  · obtain hx | hx := List.mem_append.mp hx
    · exact List.mem_append_left _ (h.prepared_delivered x hx)
    · exact List.mem_append_right _ hx
  · exact List.nodup_append.mpr ⟨h.prepared_nodup, List.nodup_singleton d, by
      intro x hx y hy hxy
      rw [hxy, List.mem_singleton.mp hy] at hx
      exact hd hx⟩
  · rw [hhandles, List.append_nil] at hx
    obtain hmem | hmem := List.mem_append.mp hmem
    · exact h.hand_fresh x (List.mem_append_left _ (hhand.subset hx)) hmem
    · exact hne (List.mem_singleton.mp hmem ▸ hx)
  · rw [hreads] at hr
    rw [hflight]
    obtain hx | hx := List.mem_append.mp hx
    · exact (h.known r hr x hx).imp_right (.imp_right (List.mem_append_left _ ·))
    · exact .inr (.inr (List.mem_append_right _ hx))
  · rw [hflight] at hx
    obtain hx | hx := List.mem_append.mp hx
    · exact List.mem_append_left _ (h.flight_prepared x hx)
    · exact List.mem_append_right _ hx
  · rw [hflight, List.append_assoc]
    refine List.perm_middle.nodup_iff.mpr (List.nodup_cons.mpr ⟨fun hmem => ?_, h.sent_nodup⟩)
    obtain hmem | hmem := List.mem_append.mp hmem
    · exact hd (h.flight_prepared d hmem)
    · exact hd (h.sent_prepared d hmem)

/-- A message in flight is written. -/
theorem Once.written (h : Once s) (hhand : l.hand = s.loop.hand) (hhandles : l.handles = [])
    (hflight : s.loop.inFlight = d :: l.inFlight)
    (hreads : ∀ r, l.reads = some r → s.loop.reads = some r ∧ replayed = s.replayed ++ [d]) :
    Once { s with
      sent := d :: s.sent, loop := l, replayed := replayed, streamNext := streamNext,
      inHand := inHand } where
  prepared_delivered := h.prepared_delivered
  prepared_nodup := h.prepared_nodup
  waiting_nodup := by rw [hhand]; exact h.waiting_nodup
  waiting_arrived := by rw [hhand]; exact h.waiting_arrived
  hand_fresh x hx := by
    rw [hhandles, hhand, List.append_nil] at hx
    exact h.hand_fresh x (List.mem_append_left _ hx)
  known r hr x hx := by
    obtain ⟨hread, rfl⟩ := hreads r hr
    obtain hk | hk | hk := h.known r hread x hx
    · exact .inl hk
    · refine .inr (.inl ?_)
      simp only [State.wasReplayed, Bool.or_eq_true, decide_eq_true_eq] at hk ⊢
      exact hk.imp_left (List.mem_append_left _ ·)
    · rw [hflight, List.mem_cons] at hk
      obtain rfl | hk := hk
      · exact .inr (.inl (by simp [State.wasReplayed]))
      · exact .inr (.inr hk)
  flight_prepared x hx := h.flight_prepared x (by rw [hflight]; exact List.mem_cons_of_mem _ hx)
  sent_prepared x hx := by
    obtain rfl | hx := List.mem_cons.mp hx
    · exact h.flight_prepared x (by rw [hflight]; exact List.mem_cons_self ..)
    · exact h.sent_prepared x hx
  sent_nodup := by
    have := h.sent_nodup
    rw [hflight] at this
    exact List.perm_middle.nodup_iff.mpr this

/-- A message is found not to be sent. -/
theorem Once.discard (h : Once s) {expired : Bool} (hhand : l.hand.Sublist s.loop.hand)
    (hhandles : l.handles = []) (hflight : l.inFlight = s.loop.inFlight)
    (hreads : ∀ r, l.reads = some r → s.loop.reads = some r ∧ replayed = s.replayed ++ [d]) :
    Once { s.discard d expired with
      loop := l, replayed := replayed, streamNext := streamNext, inHand := inHand } := by
  refine ⟨fun x hx => ?_, h.prepared_nodup,
    h.waiting_nodup.sublist (hhand.append_right _),
    fun x hx => h.waiting_arrived x ((hhand.append_right _).subset hx), fun x hx => ?_,
    fun r hr x hx => ?_, fun x hx => h.flight_prepared x (hflight ▸ hx), h.sent_prepared, ?_⟩
  · simp only [State.discard]
    split
    · exact List.mem_append_left _ (h.prepared_delivered x hx)
    · exact h.prepared_delivered x hx
  · rw [hhandles, List.append_nil] at hx
    exact h.hand_fresh x (List.mem_append_left _ (hhand.subset hx))
  · obtain ⟨hread, rfl⟩ := hreads r hr
    rw [hflight]
    refine (h.known r hread x hx).imp_right (.imp_left fun hk => ?_)
    simp only [State.wasReplayed, Bool.or_eq_true, decide_eq_true_eq] at hk ⊢
    exact hk.imp_left (List.mem_append_left _ ·)
  · rw [hflight]
    exact h.sent_nodup

/-- A read begins with the delivered ids of that moment. -/
theorem Once.read (h : Once s) (hr : r.known = s.delivered) : Once { s with
      resume := resume, fromSeq := fromSeq, streamNext := streamNext, loop := .reading r todo } :=
  { h with
    waiting_nodup := h.waiting_nodup.sublist (List.sublist_append_right _ _)
    waiting_arrived d hd := h.waiting_arrived d (List.mem_append_right _ hd)
    hand_fresh d hd := absurd hd (by simp)
    known r' hr' d hd := by
      cases hr'
      exact .inl (hr ▸ h.prepared_delivered d hd)
    flight_prepared d hd := absurd hd (by simp)
    sent_nodup := h.sent_nodup.sublist (List.sublist_append_right _ _) }

/-- A delivery moves from the queue to the goroutine's hand. -/
theorem Once.take (h : Once s)
    (hq : s.queue = d :: queue) (hd : d ∉ s.prepared) (hhand : l.hand = s.loop.hand ++ [d])
    (hhandles : l.handles = []) (hflight : l.inFlight = []) (hreads : l.reads = none) :
    Once { s with queue := queue, inHand := inHand, loop := l } := by
  have hsame : l.hand ++ queue = s.loop.hand ++ s.queue := by
    rw [hhand, hq, List.append_assoc, List.singleton_append]
  refine ⟨h.prepared_delivered, h.prepared_nodup, ?_, ?_, fun x hx => ?_,
    (fun r hr => by rw [hreads] at hr; cases hr), (fun x hx => by rw [hflight] at hx; cases hx),
    h.sent_prepared, ?_⟩
  · rw [hsame]; exact h.waiting_nodup
  · rw [hsame]; exact h.waiting_arrived
  · rw [hhandles, List.append_nil, hhand] at hx
    obtain hx | hx := List.mem_append.mp hx
    · exact h.hand_fresh x (List.mem_append_left _ hx)
    · exact List.mem_singleton.mp hx ▸ hd
  · rw [hflight]
    exact h.sent_nodup.sublist (List.sublist_append_right _ _)

/-- The delivery at the head of the hand is in it once. -/
theorem Once.head_notMem (h : Once s) {ds : List δ} (hh : s.loop.hand = d :: ds) : d ∉ ds := by
  have := (List.nodup_append.mp h.waiting_nodup).1
  rw [hh] at this
  exact (List.nodup_cons.mp this).1

/-- `inHand` may be cleared. -/
theorem Once.letGo (h : Once s) : Once s.letGo := by
  obtain ⟨q, hq⟩ := State.letGo_eq (s := s)
  rw [hq]
  exact { h with }

/-- What is not the goroutine's changes, and a live copy may come. -/
theorem Once.aside (h : Once s) (harr : ∀ d ∈ s.arrived, d ∈ arrived) : Once { s with
      stream := stream, arrived := arrived, closed := closed, behind := behind, catchup := catchup,
      fromSeq := fromSeq } :=
  h.goto (.refl _) (fun _ hd => hd) (.refl _) (fun _ hr => ⟨hr, rfl, fun _ hd => hd⟩) harr

/-- A read goes on. -/
theorem Once.reading (h : Once s) {todo' : List δ} (hl : s.loop = .reading r todo) :
    Once { s with loop := .reading r todo', streamNext := streamNext } :=
  h.goto (List.nil_sublist _) (by simp) (List.nil_sublist _)
    (fun r hr => ⟨by simpa [hl] using hr, by simp [hl], fun _ hd => hd⟩) fun _ hd => hd

/-! ## What the connection has replayed -/

/-- The goroutine may still take a delivery off the queue. -/
def Live (s : State δ) : Prop := s.closed = false ∨ ∃ ds, s.loop = .taking ds

/-- The connection knows which messages its reads have sent since its last catch-up but one, and so
which of those that wait were put in flight. -/
structure Told (s : State δ) : Prop where
  /-- A message comes to be in flight by its live copy or by a read. -/
  source : ∀ d ∈ s.prepared, d ∈ s.arrived ∨ ∃ x ∈ s.replays, x.1 = d
  conn : ∀ x ∈ s.replays, x.2.1 ≤ s.conns
  tells : Live s → ∀ x ∈ s.replays, x.2.1 = s.conns → x.2.2 ≤ s.catchUps ∧
    (x.2.2 = s.catchUps → x.1 ∈ s.replayed ∨ x.1 ∈ s.loop.sends) ∧
    (x.2.2 + 1 = s.catchUps → x.1 ∈ s.replayedBefore)
  queue : Live s → ∀ d ∈ s.queue, d ∈ s.prepared → s.wasReplayed d = true ∨ d ∈ s.loop.sends

theorem Told.init : Told ({} : State δ) := by
  constructor <;> simp

theorem State.wasReplayed_iff : s.wasReplayed d = true ↔ d ∈ s.replayed ∨ d ∈ s.replayedBefore := by
  simp [State.wasReplayed]

omit [DecidableEq δ] in
/-- Away from its receives, the goroutine takes deliveries of an open connection only. -/
theorem Live.of_closed (h : Live s') (hc : s'.closed = s.closed) (hl : ∀ ds, s'.loop ≠ .taking ds) :
    Live s :=
  .inl (hc ▸ h.resolve_right fun ⟨ds, hds⟩ => hl ds hds)

/-- Nothing is put in flight, and what a read sends is replayed. -/
theorem Told.goto (h : Told s) (hlive : Live s' → Live s)
    (hsame : s'.prepared = s.prepared ∧ s'.replays = s.replays ∧ s'.conns = s.conns ∧
      s'.catchUps = s.catchUps ∧ s'.replayedBefore = s.replayedBefore)
    (harr : s.arrived ⊆ s'.arrived) (hq : s'.queue ⊆ s.queue)
    (hrep : Live s' → ∀ d, d ∈ s.replayed ∨ d ∈ s.loop.sends →
      d ∈ s'.replayed ∨ d ∈ s'.loop.sends) : Told s' := by
  obtain ⟨hprep, hreplays, hconns, hcatch, hbefore⟩ := hsame
  refine ⟨fun d hd => ?_, ?_, fun hl x hx hc => ?_, fun hl d hd hp => ?_⟩
  · rw [hreplays]
    exact (h.source d (hprep ▸ hd)).imp_left (harr ·)
  · rw [hreplays, hconns]
    exact h.conn
  · rw [hcatch, hbefore]
    obtain ⟨hle, hnow, hbef⟩ := h.tells (hlive hl) x (hreplays ▸ hx) (hconns ▸ hc)
    exact ⟨hle, fun hn => hrep hl x.1 (hnow hn), hbef⟩
  · have := h.queue (hlive hl) d (hq hd) (hprep ▸ hp)
    rw [State.wasReplayed_iff] at this ⊢
    have hin := hrep hl d
    rw [hbefore]
    tauto

/-- The goroutine moves on. -/
theorem Told.move (h : Told s) {delivered sent dropped : List δ} (hl : ∀ ds, l ≠ .taking ds)
    (hrep : ∀ d, d ∈ s.replayed ∨ d ∈ s.loop.sends → d ∈ replayed ∨ d ∈ l.sends) :
    Told { s with
      loop := l, delivered := delivered, sent := sent, dropped := dropped, replayed := replayed,
      behind := behind, catchup := catchup, resume := resume, fromSeq := fromSeq,
      streamNext := streamNext, inHand := inHand } :=
  h.goto (fun hlv => hlv.of_closed rfl hl) ⟨rfl, rfl, rfl, rfl, rfl⟩ (fun _ h => h) (fun _ h => h)
    fun _ => hrep

/-- The goroutine returns an error. -/
theorem Told.fail (h : Told s) :
    Told { s with closed := true, inHand := inHand, loop := .stopped } :=
  have hlive : ¬ Live { s with closed := true, inHand := inHand, loop := .stopped } := by
    simp [Live]
  h.goto (absurd · hlive) ⟨rfl, rfl, rfl, rfl, rfl⟩ (fun _ h => h) (fun _ h => h)
    fun hlv => absurd hlv hlive

/-- A message is put in flight by its live copy. -/
theorem Told.track (h : Told s) (harr : d ∈ s.arrived) (hq : d ∉ s.queue)
    (hsends : s.loop.sends = []) (hl : ∀ ds, l ≠ .taking ds) :
    Told { s.track d with loop := l } := by
  have hlive : Live { s.track d with loop := l } → Live s := fun hlive => hlive.of_closed rfl hl
  refine ⟨fun x hx => ?_, h.conn, fun hlv x hx hc => ?_, fun hlv x hx hp => .inl ?_⟩
  · obtain hx | hx := List.mem_append.mp hx
    · exact h.source x hx
    · exact .inl (List.mem_singleton.mp hx ▸ harr)
  · obtain ⟨hle, hnow, hbef⟩ := h.tells (hlive hlv) x hx hc
    rw [hsends] at hnow
    exact ⟨hle, fun hn => .inl ((hnow hn).resolve_right (by simp)), hbef⟩
  · obtain hp | hp := List.mem_append.mp hp
    · have := h.queue (hlive hlv) x hx hp
      rw [hsends] at this
      exact this.resolve_right (by simp)
    · exact absurd (List.mem_singleton.mp hp ▸ hx) hq

/-- A message is put in flight by a read. -/
theorem Told.handled (h : Told s) {m : δ} (hl : s.loop = .handling r m todo) :
    Told { s.track m with
      replays := s.replays ++ [(m, s.conns, s.catchUps)], loop := .sending r m todo } := by
  have hlive (hlv : Live { s.track m with
      replays := s.replays ++ [(m, s.conns, s.catchUps)], loop := .sending r m todo }) : Live s :=
    hlv.of_closed rfl (by simp)
  refine ⟨fun x hx => ?_, fun x hx => ?_, fun hlv x hx hc => ?_, fun hlv x hx hp => ?_⟩
  · obtain hx | hx := List.mem_append.mp hx
    · exact (h.source x hx).imp_right fun ⟨y, hy, hyx⟩ => ⟨y, List.mem_append_left _ hy, hyx⟩
    · exact .inr ⟨_, List.mem_append_right _ (List.mem_singleton_self _),
        (List.mem_singleton.mp hx).symm⟩
  · obtain hx | hx := List.mem_append.mp hx
    · exact h.conn x hx
    · rw [List.mem_singleton.mp hx]
      exact Nat.le_refl s.conns
  · obtain hx | hx := List.mem_append.mp hx
    · obtain ⟨hle, hnow, hbef⟩ := h.tells (hlive hlv) x hx hc
      exact ⟨hle, fun hn => .inl ((hnow hn).resolve_right (by simp [hl])), hbef⟩
    · rw [List.mem_singleton.mp hx]
      exact ⟨Nat.le_refl s.catchUps, fun _ => .inr (by simp),
        fun hn => absurd hn (Nat.succ_ne_self s.catchUps)⟩
  · obtain hp | hp := List.mem_append.mp hp
    · exact .inl ((h.queue (hlive hlv) x hx hp).resolve_right (by simp [hl]))
    · exact .inr hp

/-- A copy that `Fresh` allows is queued: if a read has put the message in flight, the connection
knows. -/
theorem Told.accept (h : Told s) {raced : Bool} (hok : Fresh s (.place d raced)) :
    Told { s with
      arrived := s.arrived ++ [d], queue := s.queue ++ [d], accepted := s.accepted ++ [d] } := by
  refine ⟨fun x hx => (h.source x hx).imp_left (List.mem_append_left _ ·), h.conn, h.tells,
    fun hlv x hx hp => ?_⟩
  obtain hx | hx := List.mem_append.mp hx
  · exact h.queue hlv x hx hp
  · obtain rfl := List.mem_singleton.mp hx
    obtain harr | ⟨y, hy, rfl⟩ := h.source x hp
    · exact absurd harr hok.1
    · obtain ⟨hc, hn⟩ := hok.2 y hy rfl
      obtain ⟨hle, hnow, hbef⟩ := h.tells hlv y hy hc
      obtain hn | hn : y.2.2 = s.catchUps ∨ y.2.2 + 1 = s.catchUps := by omega
      · exact (hnow hn).imp_left fun hin => State.wasReplayed_iff.mpr (.inl hin)
      · exact .inl (State.wasReplayed_iff.mpr (.inr (hbef hn)))

/-- A catch-up has drained the queue, and keeps what was replayed before it. -/
theorem Told.rotate (h : Told s) {done : List Nat} (hl : s.loop = .draining done)
    (hq : s.closed = true ∨ s.queue = []) : Told { s with
      replayedBefore := s.replayed, replayed := [], catchUps := s.catchUps + 1,
      loop := .rounds done } := by
  have hopen (hlv : Live { s with
      replayedBefore := s.replayed, replayed := [], catchUps := s.catchUps + 1,
      loop := .rounds done }) : s.closed = false := hlv.resolve_right (by simp)
  refine ⟨h.source, h.conn, fun hlv x hx hc => ?_, fun hlv x hx => ?_⟩
  · obtain ⟨hle, hnow, -⟩ := h.tells (.inl (hopen hlv)) x hx hc
    refine ⟨Nat.le_succ_of_le hle, fun hn => absurd hn (Nat.ne_of_lt (Nat.lt_succ_of_le hle)),
      fun hn => ?_⟩
    exact (hnow (Nat.succ.inj hn)).resolve_right (by simp [hl])
  · rw [show s.queue = [] from hq.resolve_left (by simp [hopen hlv])] at hx
    cases hx

theorem Told.step (h : Told s) (ho : Once s) (hok : Fresh s a) (hs : step depth seq s a = some s') :
    Told s' := by
  -- a delivery in hand came once, and waits no more
  have hhand : ∀ d ∈ s.loop.hand, d ∈ s.arrived ∧ d ∉ s.queue := fun d hd =>
    ⟨ho.waiting_arrived d (List.mem_append_left _ hd),
      fun hq => (List.nodup_append.mp ho.waiting_nodup).2.2 d hd d hq rfl⟩
  cases Outcome.of_step hs with
  | store => exact h.goto id ⟨rfl, rfl, rfl, rfl, rfl⟩ (fun _ h => h) (fun _ h => h) fun _ _ h => h
  | late hc | turnedAway =>
    exact h.goto id ⟨rfl, rfl, rfl, rfl, rfl⟩ (List.subset_append_left ..) (fun _ h => h)
      fun _ _ h => h
  | accept hb => exact h.accept hok
  | close =>
    exact h.goto (fun hlv => .inr (hlv.resolve_left (by simp))) ⟨rfl, rfl, rfl, rfl, rfl⟩
      (fun _ h => h) (fun _ h => h) fun _ _ h => h
  | connect hl =>
    refine ⟨h.source, fun x hx => Nat.le_succ_of_le (h.conn x hx), fun _ x hx hc => ?_, by simp⟩
    have := h.conn x hx
    simp only at hc
    omega
  | skip hq hwhy =>
    exact h.goto id ⟨rfl, rfl, rfl, rfl, rfl⟩ (fun _ h => h)
      (by rw [hq]; exact List.subset_cons_self ..) fun _ _ h => h
  | take hl hq hrep =>
    refine h.goto (fun _ => ?_) ⟨rfl, rfl, rfl, rfl, rfl⟩ (fun _ h => h)
      (by rw [hq]; exact List.subset_cons_self ..) fun _ d hd => ?_
    · exact hl.elim (fun hl => .inl hl.2.2) fun hl => .inr ⟨_, hl⟩
    · obtain ⟨hl, -⟩ | hl := hl
      · simpa [hl] using hd
      · simpa [hl] using hd
  | track hl hc hq hrep =>
    exact h.goto (fun _ => .inl hc) ⟨rfl, rfl, rfl, rfl, rfl⟩ (fun _ h => h)
      (by rw [hq]; exact List.subset_cons_self ..) (by simp [hl])
  | @prepared d ds ready hl =>
    obtain ⟨harr, hq⟩ := hhand d (by simp [hl])
    exact h.track harr hq (by simp [hl]) (by simp)
  | @tracked done d hl =>
    obtain ⟨harr, hq⟩ := hhand d (by simp [hl])
    exact h.track harr hq (by simp [hl]) (by simp)
  | rotate hl hq => exact h.rotate hl hq
  | handled hl => exact h.handled hl
  | @discard d ds ready p hl hp =>
    by_cases hc : s.closed = true
    · rw [if_pos hc]
      exact h.move (by simp) (by simp [hl, State.discard])
    · rw [if_neg hc]
      exact h.move (by simp) (by simp [hl, State.discard])
  | flushed hl | trackSent hl hc =>
    obtain ⟨q, hq⟩ := State.letGo_eq (s := s)
    rw [hq]
    exact h.move (by simp) (by simp [hl])
  | @trackDiscard done d p hl hp =>
    obtain ⟨q, hq⟩ := State.letGo_eq (s := s.discard d (p = .expired))
    rw [hq]
    exact h.move (by simp) (by simp [hl, State.discard])
  | @handleDiscard r m todo p hl hp =>
    obtain ⟨q, hq⟩ := State.advance_eq (s := s.discard m (p = .expired)) (seq m + 1)
    rw [hq]
    exact h.move (by simp) (by simp +contextual [hl])
  | @handleSent r m todo hl hc =>
    obtain ⟨q, hq⟩ := State.advance_eq (s := s) (seq m + 1)
    rw [hq]
    exact h.move (by simp) (by simp [hl])
  | handleGaveUp hl hc => exact h.move (by simp) (by simp +contextual [hl])
  | readEnd hl hend hnext hl' =>
    refine h.move (fun ds => ?_) fun d hd => .inl (by simpa [hl] using hd)
    rw [hl']
    split <;> simp
  | stop hc hl =>
    refine h.move (by simp) fun d hd => ?_
    obtain hl | hl := hl
    · simpa [hl] using hd
    · simpa [hl] using hd
  | sendFails hl =>
    obtain ⟨q, hq⟩ := State.letGo_eq (s := s)
    rw [hq]
    split
    · exact h.fail
    · exact h.fail
  | trackExhausted hl | trackFails hl =>
    obtain ⟨q, hq⟩ := State.letGo_eq (s := s)
    rw [hq]
    exact h.fail
  | exhausted hl | readFails hl | handleExhausted hl | handleFails hl => exact h.fail
  | replay hl _ | noReplay hl | endTake hl | allPrepared hl | abandon hl _ | inHand hl _
  | gaveUp hl _ | flushFirst hl | flushedFirst hl | sent hl _ | catchUp hl _ | trackGaveUp hl _
  | caughtUp hl _ | round hl _ _ | pass hl _ | known hl _ _ | handle hl _ _ | reread hl _ =>
    exact h.move (by simp) (by simp [hl])

/-! ## The run -/

/-- A delivery that is taken off the queue to be sent was not put in flight. -/
theorem Told.not_prepared (h : Told s) (hlive : Live s) (hsends : s.loop.sends = [])
    (hq : s.queue = d :: queue) (hrep : s.wasReplayed d = false) : d ∉ s.prepared := by
  intro hp
  have := h.queue hlive d (by simp [hq]) hp
  rw [hrep, hsends] at this
  simp at this

theorem Once.step (h : Once s) (ht : Told s) (hok : Fresh s a)
    (hs : step depth seq s a = some s') : Once s' := by
  cases Outcome.of_step hs with
  | store => exact h.aside fun _ hd => hd
  | late hc | turnedAway => exact h.aside fun _ hd => List.mem_append_left _ hd
  | @accept d raced hb =>
    have hnew : d ∉ s.loop.hand ++ s.queue := fun hd => hok.1 (h.waiting_arrived d hd)
    refine { h with waiting_nodup := ?_, waiting_arrived := fun x hx => ?_ }
    · rw [← List.append_assoc, List.nodup_append]
      refine ⟨h.waiting_nodup, List.nodup_singleton d, fun x hx y hy hxy => ?_⟩
      rw [hxy, List.mem_singleton.mp hy] at hx
      exact hnew hx
    · rw [← List.append_assoc] at hx
      obtain hx | hx := List.mem_append.mp hx
      · exact List.mem_append_left _ (h.waiting_arrived x hx)
      · exact List.mem_append_right _ hx
  | close => exact h.aside fun _ hd => hd
  | connect hl =>
    refine ⟨h.prepared_delivered, h.prepared_nodup, .nil, by simp, by simp, by simp, by simp,
      h.sent_prepared, ?_⟩
    exact h.sent_nodup.sublist (List.sublist_append_right _ _)
  | replay hl hr => exact h.read (by rw [hr])
  | @skip _ d queue hq hwhy =>
    have hsub : (s.loop.hand ++ queue).Sublist (s.loop.hand ++ s.queue) := by
      rw [hq]
      exact (List.sublist_cons_self d queue).append_left _
    exact { h with
      waiting_nodup := h.waiting_nodup.sublist hsub
      waiting_arrived := fun x hx => h.waiting_arrived x (hsub.subset hx) }
  | @take d ds queue hl hq hrep =>
    obtain ⟨hl, rfl, hc⟩ | hl := hl
    · have hd := ht.not_prepared (.inl hc) (by simp [hl]) hq hrep
      exact h.take hq hd (by simp [hl]) rfl rfl rfl
    · have hd := ht.not_prepared (.inr ⟨ds, hl⟩) (by simp [hl]) hq hrep
      exact h.take hq hd (by simp [hl]) rfl rfl rfl
  | endTake hl | allPrepared hl | inHand hl hc | flushFirst hl | flushedFirst hl =>
    exact h.goto (by simp [hl]) (by simp) (by simp [hl]) (by simp) fun _ hd => hd
  | @prepared d ds ready hl =>
    have hh : s.loop.hand = d :: ds := by simp [hl]
    exact h.track (h.hand_fresh d (by rw [hh]; exact List.mem_cons_self))
      (by rw [hh]; exact List.sublist_cons_self d ds)
      (h.head_notMem hh) rfl (by simp [hl]) (by simp [hl])
  | @discard d ds ready p hl hp =>
    have hh : s.loop.hand = d :: ds := by simp [hl]
    by_cases hc : s.closed = true
    · rw [if_pos hc]
      exact h.discard (List.nil_sublist _) rfl (by simp [hl]) (by simp)
    · rw [if_neg hc]
      exact h.discard (by rw [hh]; exact List.sublist_cons_self d ds) rfl (by simp [hl]) (by simp)
  | flushed hl | trackExhausted hl | trackFails hl => exact h.letGo.leave rfl rfl rfl rfl
  | sendFails hl =>
    split
    · exact h.letGo.leave rfl rfl rfl rfl
    · exact h.leave rfl rfl rfl rfl
  | sent hl hc => exact h.written (by simp [hl]) rfl (by simp [hl]) (by simp)
  | @track done d queue hl hc hq hrep =>
    exact h.take hq (ht.not_prepared (.inl hc) (by simp [hl]) hq hrep) (by simp [hl]) rfl rfl rfl
  | @tracked done d hl =>
    have hh : s.loop.hand = [d] := by simp [hl]
    exact h.track (h.hand_fresh d (by rw [hh]; exact List.mem_cons_self)) (List.nil_sublist _)
      (by simp) rfl (by simp [hl]) (by simp [hl])
  | @trackDiscard done d p hl hp =>
    obtain ⟨q, hq⟩ := State.letGo_eq (s := s.discard d (p = .expired))
    rw [hq]
    exact h.discard (List.nil_sublist _) rfl (by simp [hl]) (by simp)
  | trackSent hl hc =>
    obtain ⟨q, hq⟩ := State.letGo_eq (s := s)
    rw [hq]
    exact h.written (by simp [hl]) rfl (by simp [hl]) (by simp)
  | round hl hf hr => exact h.read (by rw [hr])
  | pass hl hc | known hl hc hk | reread hl hr => exact h.reading hl
  | @handle r m todo hl hk hrep =>
    -- the read would know of the message, had it been put in flight
    have hm : m ∉ s.prepared := by
      intro hm
      obtain hin | hin | hin := h.known r (by simp [hl]) m hm
      · exact hk hin
      · exact absurd (hrep.symm.trans hin) (by simp)
      · simp [hl] at hin
    have hmoved : Once { s with loop := .reading r todo } := h.reading hl
    exact { hmoved with
      hand_fresh := fun x hx => by
        obtain rfl : x = m := by simpa using hx
        exact hm }
  | readEnd hl hend hnext hl' =>
    rw [hl']
    split
    · exact h.leave rfl rfl rfl rfl
    · exact h.leave rfl rfl rfl rfl
  | @handled r m todo hl =>
    exact h.track (h.hand_fresh m (by simp [hl])) (List.nil_sublist _) (by simp) rfl (by simp [hl])
      (by simp [hl])
  | handleGaveUp hl hc =>
    exact h.goto (List.nil_sublist _) (by simp) (List.nil_sublist _)
      (fun r hr => ⟨by simpa [hl] using hr, by simp [hl],
        fun _ hd => hd.imp_left (List.mem_append_left _ ·)⟩) fun _ hd => hd
  | @handleDiscard r m todo p hl hp =>
    obtain ⟨q, hq⟩ := State.advance_eq (s := s.discard m (p = .expired)) (seq m + 1)
    rw [hq]
    exact h.discard (List.nil_sublist _) rfl (by simp [hl])
      fun r hr => ⟨by simpa [hl] using hr, rfl⟩
  | @handleSent r m todo hl hc =>
    obtain ⟨q, hq⟩ := State.advance_eq (s := s) (seq m + 1)
    rw [hq]
    exact h.written (by simp [hl]) rfl (by simp [hl]) fun r hr => ⟨by simpa [hl] using hr, rfl⟩
  -- the goroutine lets go of everything
  | _ => exact h.leave rfl rfl rfl rfl

/-! ## The result -/

/-- **A message is written as a new one at most once,** over all connections of the session. -/
theorem new_publish_once (depth : Nat) (seq : δ → Nat) (s : State δ)
    (h : Lts.Reach (step depth seq) Fresh {} s) : s.sent.Nodup := by
  have hi : Once s ∧ Told s := by
    induction h with
    | refl => exact ⟨.init, .init⟩
    | tail _ hok hs ih => exact ⟨ih.1.step ih.2 hok hs, ih.2.step ih.1 hok hs⟩
  exact (List.nodup_append.mp hi.1.sent_nodup).2.1

instance (s : State δ) : (a : Act δ) → Decidable (Fresh s a)
  | .place _ _ => inferInstanceAs (Decidable (_ ∧ _))
  | .store _ | .close | .connect | .replay _ _ _ | .noReplay | .take _ | .endTake | .check
  | .prepare _ | .flush | .send _ | .stop | .catchUp | .drain _ | .round | .read | .reread
  | .endRead _ | .deliver _ | .write _ => .isTrue trivial

end

/-- The resume replay sends a message, its live copy comes and is skipped, and another
is sent live. -/
def skippedRun : List (Act Nat) :=
  [.store 1, .replay [] 0 0, .read, .deliver .ok, .write true, .endRead .finished, .place 1 false,
   .store 2, .place 2 false, .take true, .take true, .endTake, .check, .prepare .ok, .check,
     .send true]

/-- The result holds of a run in which a message comes by two ways. -/
theorem new_publish_once_skipped :
    ∃ s : State Nat, Lts.Reach (step 8 id) Fresh {} s ∧ s.sent = [2, 1] ∧ s.sent.Nodup := by
  exact Lts.exists_reach_of skippedRun (by decide) fun s hr _ => new_publish_once 8 id s hr

/-- The resume replay sends a message, the session is resumed again, and the live copy of the
message reaches the new connection. -/
def delayedRun : List (Act Nat) :=
  [.store 1, .replay [] 0 0, .read, .deliver .ok, .write true, .endRead .finished, .close, .stop,
   .connect, .replay [] 0 0, .read, .endRead .finished, .place 1 false, .take true, .endTake,
     .check,
   .prepare .ok, .check, .send true]

/-- **A delayed live copy is written again as a new message.** -/
theorem written_twice :
    ∃ s : State Nat, Lts.Reach (step 8 id) Lts.free {} s ∧ s.stream = [1] ∧ s.arrived = [1] ∧
      s.sent = [1, 1] := by
  exact Lts.exists_reach delayedRun (by decide)

end Natsmqtt5.CatchUp
