import Natsmqtt5.Outbound.Model

/-!
# What a step of a connection can do

Inversion of `step`: one constructor for each way a step of a goroutine ends, with the packet it
writes. Closing a connection and the counts of the send quota are left open here.
-/

namespace Natsmqtt5.Outbound

open Function

variable {κ : Type}

/-- The connection whose delivery goroutine takes the step. -/
def Act.delivers : Act κ → Option κ
  | .unacknowledged c => some c
  | .resend c => some c
  | .giveUp c => some c
  | .inflightEntry c => some c
  | .markResent c => some c
  | .takeQuotaSlot c => some c
  | .expire c => some c
  | .markResentWritten c => some c
  | .abandonResend c => some c
  | .completeInflight c => some c
  | .releaseQuota c => some c
  | .writeResend c _ => some c
  | .takeSlot c => some c
  | .takePulled c => some c
  | .drop c => some c
  | .nextID c => some c
  | .trackInflight c _ _ _ => some c
  | .recordQoS2 c _ => some c
  | .refuse c => some c
  | .sendPrepared c _ => some c
  | _ => none

/-- A step of `c`'s delivery goroutine: from where to where, the session it leaves, and the packet
it writes. -/
inductive Delivers (c : κ) [DecidableEq κ] (sess : Session κ) (closed : Bool) :
    Act κ → Delivery κ → Session κ → Delivery κ → List (Event κ) → Prop
  -- `retransmit` and `resend`
  | resent : Delivers c sess closed (.resend c) (.resending []) sess (.serving []) []
  | resend (o todo held) : Delivers c sess closed (.resend c) (.resending (o :: todo))
      sess (.reading o held todo) []
  | giveUp (o todo) : Delivers c sess closed (.giveUp c) (.resending (o :: todo))
      sess (.resending todo) []
  | gone (o held todo) : Delivers c sess closed (.inflightEntry c) (.reading o held todo)
      sess (after held todo) []
  | live (snapshot o held todo) (h : sess.inflightEntry snapshot.packetID = some o) :
      Delivers c sess closed (.inflightEntry c) (.reading snapshot held todo)
        sess (.deciding o held todo) []
  | completed {a} (o held todo) (ha : a.delivers = some c) :
      Delivers c sess closed a (.deciding o held todo) sess (after held todo) []
  | markResent (o held todo sess') (haw : o.awaitingPubcomp = true)
      (h : sess.markResent c o.packetID = some sess') :
      Delivers c sess closed (.markResent c) (.deciding o held todo)
        sess' (.releasingMessage o held todo) []
  | takeQuotaSlot (o held todo sess') (haw : o.awaitingPubcomp = false)
      (h : sess.takeQuotaSlot c o.packetID = some sess') :
      Delivers c sess closed (.takeQuotaSlot c) (.deciding o held todo)
        sess' (.claimed o held todo) []
  | expire (o held todo) : Delivers c sess closed (.expire c) (.claimed o held todo)
      sess (.abandoning o.packetID held todo) []
  | markResentWritten (o held todo) : Delivers c sess closed (.markResentWritten c)
      (.claimed o held todo) (sess.markResentWritten c o.packetID) (.marked o held todo) []
  | pubrel (o held todo) (h : closed = false) : Delivers c sess closed (.writeResend c .sent)
      (.releasingMessage o held todo) sess (after held todo) [.pubrel c o.packetID (some o.seq)]
  | copy (o held todo) (h : closed = false) : Delivers c sess closed (.writeResend c .sent)
      (.marked o held todo) sess (.resending todo) [.publish c o.packetID o.msg o.seq]
  | copyTooLarge (o held todo) : Delivers c sess closed (.writeResend c .discarded)
      (.marked o held todo) sess (.abandoning o.packetID held todo) []
  | abandonResend (id held todo) : Delivers c sess closed (.abandonResend c)
      (.abandoning id held todo) (sess.abandonResend c id) (.completing id held todo) []
  | abandoned (id held todo) : Delivers c sess closed (.completeInflight c)
      (.completing id held todo) (sess.completeInflight c id).1 (after held todo) []
  | released (todo) : Delivers c sess closed (.releaseQuota c) (.releasing todo)
      sess (.resending todo) []
  -- `prepare` and `sendPrepared`
  | slot {a} (ready) (ha : a.delivers = some c) :
      Delivers c sess closed a (.serving ready) sess (.slotted ready) []
  | drop (ready) : Delivers c sess closed (.drop c) (.slotted ready) sess (.serving ready) []
  | nextID (ready sess' id) (h : sess.nextID = some (sess', id)) :
      Delivers c sess closed (.nextID c) (.slotted ready) sess' (.tracking id ready) []
  | track (id ready qos msg shared) (o : Entry κ)
      (ho : o = ⟨id, qos, sess.sendSeq + 1, msg, false, true, none, shared⟩) :
      Delivers c sess closed (.trackInflight c qos msg shared) (.tracking id ready)
        (sess.trackInflight o) (.serving (ready ++ [o])) []
  | recorded (ready) : Delivers c sess closed (.recordQoS2 c false) (.serving ready)
      sess (.flushing ready) []
  | unrecorded (ready) : Delivers c sess closed (.recordQoS2 c true) (.serving ready)
      sess (.refusing ready [] false) []
  | keep (o ready kept back) : Delivers c sess closed (.refuse c)
      (.refusing (o :: ready) kept back) sess (.refusing ready (kept ++ [o]) back) []
  | refuse (o ready kept back) : Delivers c sess closed (.refuse c)
      (.refusing (o :: ready) kept back) (sess.completeInflight c o.packetID).1
      (.refunding ready kept) []
  | refunded (ready kept) : Delivers c sess closed (.releaseQuota c) (.refunding ready kept)
      sess (.refusing ready kept true) []
  | refused (kept back) : Delivers c sess closed (.refuse c) (.refusing [] kept back)
      sess (.flushing kept) []
  | flushed : Delivers c sess closed (.sendPrepared c w) (.flushing []) sess (.serving []) []
  | publish (o ready) (h : closed = false) : Delivers c sess closed (.sendPrepared c .sent)
      (.flushing (o :: ready)) sess (.flushing ready) [.publish c o.packetID o.msg o.seq]
  | tooLarge (o ready) : Delivers c sess closed (.sendPrepared c .discarded)
      (.flushing (o :: ready)) sess (.discarding o.packetID ready) []
  | discard (id ready) : Delivers c sess closed (.completeInflight c) (.discarding id ready)
      (sess.completeInflight c id).1 (.dropping ready) []
  | dropped (ready) : Delivers c sess closed (.releaseQuota c) (.dropping ready)
      sess (.flushing ready) []
  /-- The goroutine returns. -/
  | fail {a} (d) (ha : a.delivers = some c) (h : d ≠ .waiting) :
      Delivers c sess closed a d sess .stopped []

theorem Delivers.started [DecidableEq κ] {c : κ} {sess sess' : Session κ} {closed : Bool}
    {a : Act κ} {d d' : Delivery κ} {evs : List (Event κ)}
    (h : Delivers c sess closed a d sess' d' evs) : d ≠ .waiting := by
  cases h with
  | fail d _ hd => exact hd
  | _ => simp

/-- A step of `c`'s reader: from where to where, the session it leaves, the packet it writes or the
completion it brings about, and the PUBREL it queues. -/
inductive Handles (c : κ) [DecidableEq κ] (sess : Session κ) (closed queue : Bool) :
    Reader κ → Session κ → Reader κ → List (Event κ) → List (PacketID × Nat) → Prop
  /-- A PUBACK, a PUBCOMP or a PUBREC that ends its exchange. -/
  | complete (r r' a sess' done)
      (hr : r = .acking a ∨ r = .mismatched a ∨ r = .failing a)
      (hr' : r' = .releasing ∨ r' = .idle ∨ r' = .ended)
      (h : sess.completeInflight c a.id = (sess', some done)) :
      Handles c sess closed queue r sess' r' [.completed c a done.msg] []
  | unknown (a) : Handles c sess closed queue (.acking a) sess (.forgettingWithdrawn a) [] []
  | notWithdrawn (a) : Handles c sess closed queue (.forgettingWithdrawn a)
      sess (.forgettingResent a) [] []
  | withdrawn (a sess' w r') (hr' : r' = .releasing ∨ r' = .idle)
      (h : sess.forgetWithdrawn a.id a.type = some (sess', w)) :
      Handles c sess closed queue (.forgettingWithdrawn a) sess' r' [] []
  | resent (a sess' quota r') (hr' : r' = .releasing ∨ r' = .idle)
      (h : sess.forgetResent c a.id a.type = some (sess', quota)) :
      Handles c sess closed queue (.forgettingResent a) sess' r' [] []
  | pubrecUnknown (a) : Handles c sess closed queue (.receiving a) sess (.notFound a.id) [] []
  | pubrec (a o r') (h : sess.inflightEntry a.id = some o)
      (hr' : r' = .mismatched a ∨ r' = .failing a ∨ r' = .accepting o) :
      Handles c sess closed queue (.receiving a) sess r' [] []
  | awaitPubcomp (o) : Handles c sess closed queue (.accepting o)
      (sess.awaitPubcomp o.packetID) (.answering o.packetID o.seq) [] []
  | queuePubrel (id seq) : Handles c sess closed queue (.answering id seq) sess .idle []
      [(id, seq)]
  | pubrel (id seq) (hq : queue = false) (h : closed = false) :
      Handles c sess closed queue (.answering id seq) (sess.settleOwned id) .idle
        [.pubrel c id (some seq)] []
  | pubrelNotFound (id) (h : closed = false) : Handles c sess closed queue (.notFound id)
      sess .idle [.pubrel c id none] []
  | released : Handles c sess closed queue .releasing sess .idle [] []
  /-- The reader gives the acknowledgement up, or returns. -/
  | giveUp (r r') (hr : r ≠ .offline ∧ r ≠ .ended) (hr' : r' = .idle ∨ r' = .ended) :
      Handles c sess closed queue r sess r' [] []

variable [DecidableEq κ]

/-- The states a step can lead to. -/
inductive Outcome (s : State κ) : Act κ → State κ → Prop
  | attach (c n) (h : (s.conns c).reader = .offline) : Outcome s (.attach c n)
      ⟨s.sess.attach c, update s.conns c
        { s.conns c with clientReceiveMax := n, reader := .idle }, s.log⟩
  | restore (inflight ws) : Outcome s (.restore inflight ws)
      ⟨restored s.sess.sendSeq inflight ws, fun c => (s.conns c).kill, s.log⟩
  | withdraw (id sess) (h : s.sess.withdraw id = some sess) :
      Outcome s (.withdraw id) ⟨sess, s.conns, s.log⟩
  /-- `retransmit` begins. -/
  | unacknowledged (c) (hd : (s.conns c).delivery = .waiting) (hr : (s.conns c).reader ≠ .offline) :
      Outcome s (.unacknowledged c) ⟨s.sess, update s.conns c
        { s.conns c with delivery := .resending s.sess.inflight }, s.log⟩
  /-- Closed, or another count of slots. -/
  | adjust {a} (c b q p) (hb : (s.conns c).closed = true → b = true) : Outcome s a
      ⟨s.sess, update s.conns c { s.conns c with closed := b, quota := q, pulled := p },
        s.log⟩
  | deliver {a} (c d sess d' evs b q p) (hd : (s.conns c).delivery = d)
      (h : Delivers c s.sess (s.conns c).closed a d sess d' evs)
      (hb : (s.conns c).closed = true → b = true) : Outcome s a
      ⟨sess, update s.conns c
        { s.conns c with closed := b, quota := q, pulled := p, delivery := d' }, evs ++ s.log⟩
  | send (c a) : Outcome s (.send c a)
      ⟨s.sess, update s.conns c
        { s.conns c with inbox := (s.conns c).inbox ++ [{ a with stamp := s.log.length }] },
        .sent c { a with stamp := s.log.length } :: s.log⟩
  | read (c a inbox) (hr : (s.conns c).reader = .idle) (h : (s.conns c).inbox = a :: inbox) :
      Outcome s (.read c) ⟨s.sess, update s.conns c
        { s.conns c with inbox := inbox, reader := recv a }, .read c a :: s.log⟩
  | handle (c queue r sess r' evs rel b q) (hr : (s.conns c).reader = r)
      (h : Handles c s.sess (s.conns c).closed queue r sess r' evs rel)
      (hb : (s.conns c).closed = true → b = true) : Outcome s (.handle c queue)
      ⟨sess, update s.conns c
        { s.conns c with closed := b, quota := q, reader := r',
                         relIDs := (s.conns c).relIDs ++ rel }, evs ++ s.log⟩
  | drain (c) (h : (s.conns c).draining = []) : Outcome s (.drain c)
      ⟨s.sess, update s.conns c
        { s.conns c with draining := (s.conns c).relIDs, relIDs := [] }, s.log⟩
  | dropPubrels (c failed) : Outcome s (.writePubrel c failed)
      ⟨s.sess, update s.conns c { s.conns c with closed := true, draining := [] }, s.log⟩
  | writePubrel (c failed id seq rest) (h : (s.conns c).draining = (id, seq) :: rest)
      (hc : (s.conns c).closed = false) : Outcome s (.writePubrel c failed)
      ⟨s.sess.settleOwned id, update s.conns c { s.conns c with draining := rest },
        .pubrel c id (some seq) :: s.log⟩

/-! ## Inversion -/

section Inversion

variable {s t : State κ} {c : κ} {a : Act κ} {d d' : Delivery κ} {evs : List (Event κ)}
  {queue : Bool} {r : Reader κ} {w : Write}

/-- A move of the delivery goroutine that leaves the rest of the connection alone. -/
theorem outcome_deliver
    (hd : (s.conns c).delivery = d) (h : Delivers c s.sess (s.conns c).closed a d sess d' evs) :
    Outcome s a ({ s with sess := sess, log := evs ++ s.log }.deliver c d') :=
  .deliver c d sess d' evs _ _ _ hd h fun hc => hc

theorem outcome_releaseQuota (hd : (s.conns c).delivery = d)
    (h : Delivers c s.sess (s.conns c).closed a d s.sess d' []) :
    Outcome s a (s.releaseQuota c d') :=
  .deliver c d s.sess d' [] _ _ _ hd h fun hc => hc

theorem outcome_takeQuota (hd : (s.conns c).delivery = d)
    (h : Delivers c s.sess (s.conns c).closed a d s.sess d' [])
    (hs : s.takeQuota c d' = some t) : Outcome s a t := by
  unfold State.takeQuota at hs
  simp only at hs
  split at hs <;> cases hs
  exact .deliver c d s.sess d' [] _ _ _ hd h fun hc => hc

theorem outcome_fail (spent : Bool) (ha : a.delivers = some c)
    (hd : (s.conns c).delivery = d) (h : d ≠ .waiting) : Outcome s a (s.fail c spent) :=
  .deliver c d s.sess .stopped [] true _ _ hd (.fail d ha h) fun _ => rfl

/-- A move of the reader that leaves the rest of the connection alone. -/
theorem outcome_handle {r' : Reader κ} (hr : (s.conns c).reader = r)
    (h : Handles c s.sess (s.conns c).closed queue r sess r' evs []) :
    Outcome s (.handle c queue) ({ s with sess := sess, log := evs ++ s.log }.handle c r') := by
  have := Outcome.handle c queue r sess r' evs [] (s.conns c).closed (s.conns c).quota hr h
    fun hc => hc
  rw [List.append_nil] at this
  exact this

theorem outcome_disconnect (hr : (s.conns c).reader = r)
    (h : Handles c s.sess (s.conns c).closed queue r sess .ended evs []) :
    Outcome s (.handle c queue) ({ s with sess := sess, log := evs ++ s.log }.disconnect c) := by
  have := Outcome.handle c queue r sess .ended evs [] true (s.conns c).quota hr h fun _ => rfl
  rw [List.append_nil] at this
  exact this

theorem handle_outcome (h : handle s c queue (s.conns c).reader = some t) :
    Outcome s (.handle c queue) t := by
  cases hr : (s.conns c).reader with
  | offline | idle | ended => rw [hr] at h; cases h
  | acking a =>
    simp only [hr, handle] at h
    split at h
    · cases h
      exact outcome_handle hr (.unknown a)
    · rename_i sess o heq
      split at h <;> cases h
      · exact outcome_disconnect hr (.complete _ _ a sess o (.inl rfl) (.inr (.inr rfl)) heq)
      · refine outcome_handle hr (.complete _ _ a sess o (.inl rfl) ?_ heq)
        split <;> simp
  | forgettingWithdrawn a =>
    simp only [hr, handle] at h
    split at h <;> cases h
    · exact outcome_handle hr (.notWithdrawn a)
    · rename_i sess w heq
      refine outcome_handle hr (.withdrawn a sess w _ ?_ heq)
      split <;> simp
  | forgettingResent a =>
    simp only [hr, handle] at h
    split at h <;> cases h
    · exact outcome_disconnect hr (.giveUp _ _ (by simp) (.inr rfl))
    · rename_i sess quota heq
      refine outcome_handle hr (.resent a sess quota _ ?_ heq)
      split <;> simp
  | receiving a =>
    simp only [hr, handle] at h
    split at h
    · cases h
      exact outcome_handle hr (.pubrecUnknown a)
    · rename_i o ho
      split at h
      · cases h
        exact outcome_handle hr (.pubrec a o _ ho (.inl rfl))
      · split at h <;> cases h
        · exact outcome_handle hr (.pubrec a o _ ho (.inr (.inl rfl)))
        · exact outcome_handle hr (.pubrec a o _ ho (.inr (.inr rfl)))
  | mismatched a =>
    simp only [hr, handle] at h
    split at h <;> cases h
    · exact outcome_disconnect hr (.giveUp _ _ (by simp) (.inr rfl))
    · rename_i sess o heq
      exact outcome_disconnect hr (.complete _ _ a sess o (.inr (.inl rfl)) (.inr (.inr rfl)) heq)
  | failing a =>
    simp only [hr, handle] at h
    split at h <;> cases h
    · exact outcome_handle hr (.giveUp _ _ (by simp) (.inl rfl))
    · rename_i sess o heq
      refine outcome_handle hr (.complete _ _ a sess o (.inr (.inr rfl)) ?_ heq)
      split <;> simp
  | accepting o =>
    simp only [hr, handle] at h
    cases h
    exact outcome_handle hr (.awaitPubcomp o)
  | answering id seq =>
    simp only [hr, handle] at h
    split at h
    · cases h
      exact .handle c _ _ s.sess .idle [] [(id, seq)] _ _ hr (.queuePubrel id seq) fun hc => hc
    · rename_i hq
      split at h <;> cases h
      · exact outcome_disconnect hr (.giveUp _ _ (by simp) (.inr rfl))
      · rename_i hc
        exact outcome_handle hr (.pubrel id seq (by simpa using hq) (by simpa using hc))
  | notFound id =>
    simp only [hr, handle] at h
    split at h <;> cases h
    · exact outcome_disconnect hr (.giveUp _ _ (by simp) (.inr rfl))
    · rename_i hc
      exact outcome_handle hr (.pubrelNotFound id (by simpa using hc))
  | releasing =>
    simp only [hr, handle] at h
    cases h
    have := Outcome.handle c queue _ s.sess .idle [] [] (s.conns c).closed
      ((s.conns c).quota - 1) hr .released fun hc => hc
    rw [List.append_nil] at this
    exact this

theorem sendPrepared_outcome (h : step s (.sendPrepared c w) = some t) :
    Outcome s (.sendPrepared c w) t := by
  simp only [step] at h
  split at h
  · rename_i hp
    cases h
    exact outcome_deliver hp .flushed
  · rename_i o ready hp
    cases w with
    | sent =>
      simp only at h
      split at h <;> cases h
      rename_i hc
      exact outcome_deliver hp (.publish o ready (by simpa using hc))
    | discarded => cases h; exact outcome_deliver hp (.tooLarge o ready)
    | failed => cases h; exact outcome_fail true rfl hp (by simp)
  · cases h

theorem refuse_outcome (h : step s (.refuse c) = some t) : Outcome s (.refuse c) t := by
  simp only [step] at h
  split at h
  · rename_i kept back hp
    cases h
    split
    · exact outcome_fail true rfl hp (by simp)
    · exact outcome_deliver hp (.refused kept back)
  · rename_i o ready kept back hp
    split at h
    · split at h <;> cases h
      · exact outcome_deliver hp (.keep o ready kept back)
      · rename_i sess done heq
        have := outcome_deliver (s := s) hp (.refuse o ready kept back)
        rw [heq] at this
        exact this
    · cases h
      exact outcome_deliver hp (.keep o ready kept back)
  · cases h

theorem writeResend_outcome (h : step s (.writeResend c w) = some t) :
    Outcome s (.writeResend c w) t := by
  simp only [step] at h
  split at h
  · rename_i o held todo hp
    cases w with
    | sent =>
      simp only at h
      split at h <;> cases h
      rename_i hc
      exact outcome_deliver hp (.pubrel o held todo (by simpa using hc))
    | discarded => cases h
    | failed => cases h; exact outcome_fail _ rfl hp (by simp)
  · rename_i o held todo hp
    cases w with
    | sent =>
      simp only at h
      split at h <;> cases h
      rename_i hc
      exact outcome_deliver hp (.copy o held todo (by simpa using hc))
    | discarded => cases h; exact outcome_deliver hp (.copyTooLarge o held todo)
    | failed => cases h; exact outcome_fail _ rfl hp (by simp)
  · cases h

/-- Every step has one of the outcomes. -/
theorem step_outcome (h : step s a = some t) : Outcome s a t := by
  cases a <;> simp only [step] at h
  case attach c n =>
    split at h <;> cases h
    rename_i hr
    exact .attach c n hr
  case close c => cases h; exact .adjust c true _ _ fun _ => rfl
  case restore inflight ws => cases h; exact .restore inflight ws
  case withdraw id =>
    obtain ⟨sess, heq, rfl⟩ := Option.map_eq_some_iff.mp h
    exact .withdraw id sess heq
  case unacknowledged c =>
    split at h <;> cases h
    rename_i hp hr
    exact .unacknowledged c hp hr
  case resend c =>
    split at h
    · rename_i hp
      cases h
      exact outcome_deliver hp .resent
    · rename_i o todo hp
      split at h
      · cases h
        exact outcome_deliver hp (.resend o todo false)
      · exact outcome_takeQuota hp (.resend o todo true) h
    · cases h
  case giveUp c =>
    split at h
    · rename_i o todo hp
      split at h <;> cases h
      exact outcome_deliver hp (.giveUp o todo)
    · cases h
  case inflightEntry c =>
    split at h
    · rename_i snapshot held todo hp
      split at h <;> cases h
      · exact outcome_deliver hp (.gone snapshot held todo)
      · rename_i o ho
        exact outcome_deliver hp (.live snapshot o held todo ho)
    · cases h
  case markResent c =>
    split at h
    · rename_i o held todo hp
      split at h
      · rename_i haw
        split at h <;> cases h
        · exact outcome_deliver hp (.completed o held todo rfl)
        · rename_i sess heq
          exact outcome_deliver hp (.markResent o held todo sess haw heq)
      · cases h
    · cases h
  case takeQuotaSlot c =>
    split at h
    · rename_i o held todo hp
      split at h
      · cases h
      · rename_i haw
        split at h <;> cases h
        · exact outcome_deliver hp (.completed o held todo rfl)
        · rename_i sess heq
          exact outcome_deliver hp (.takeQuotaSlot o held todo sess (by simpa using haw) heq)
    · cases h
  case expire c =>
    split at h
    · rename_i o held todo hp
      split at h <;> cases h
      exact outcome_deliver hp (.expire o held todo)
    · cases h
  case markResentWritten c =>
    split at h <;> cases h
    rename_i o held todo hp
    exact outcome_deliver hp (.markResentWritten o held todo)
  case abandonResend c =>
    split at h <;> cases h
    rename_i id held todo hp
    exact outcome_deliver hp (.abandonResend id held todo)
  case completeInflight c =>
    split at h <;> cases h
    · rename_i id held todo hp
      exact outcome_deliver hp (.abandoned id held todo)
    · rename_i id ready hp
      exact outcome_deliver hp (.discard id ready)
  case releaseQuota c =>
    split at h <;> cases h
    · rename_i todo hp
      exact outcome_releaseQuota hp (.released todo)
    · rename_i ready hp
      exact outcome_releaseQuota hp (.dropped ready)
    · rename_i ready kept hp
      exact outcome_releaseQuota hp (.refunded ready kept)
  case writeResend c w => exact writeResend_outcome h
  case takeSlot c =>
    split at h
    · rename_i ready hp
      exact outcome_takeQuota hp (.slot ready rfl) h
    · cases h
  case takePulled c =>
    split at h
    · rename_i hp
      split at h <;> cases h
      exact .deliver c _ s.sess _ [] _ _ _ hp (.slot [] rfl) fun hc => hc
    · cases h
  case drop c =>
    split at h <;> cases h
    rename_i ready hp
    exact outcome_releaseQuota hp (.drop ready)
  case nextID c =>
    split at h
    · rename_i ready hp
      split at h <;> cases h
      · exact outcome_fail false rfl hp (by simp)
      · rename_i sess id heq
        exact outcome_deliver hp (.nextID ready sess id heq)
    · cases h
  case trackInflight c qos msg shared =>
    split at h
    · rename_i id ready hp
      split at h <;> cases h
      exact outcome_deliver hp (.track id ready qos msg shared _ rfl)
    · cases h
  case recordQoS2 c failed =>
    split at h <;> cases h
    rename_i ready hp
    cases failed with
    | false => exact outcome_deliver hp (.recorded ready)
    | true => exact outcome_deliver hp (.unrecorded ready)
  case refuse c => exact refuse_outcome h
  case sendPrepared c w => exact sendPrepared_outcome h
  case pull c =>
    split at h
    · cases h
    · split at h <;> cases h
      exact .adjust c _ _ _ fun hc => hc
  case unpull c =>
    split at h <;> cases h
    exact .adjust c _ _ _ fun hc => hc
  case send c a => cases h; exact .send c a
  case read c =>
    split at h <;> cases h
    rename_i a inbox hr hin
    exact .read c a inbox hr hin
  case handle c queue => exact handle_outcome h
  case drain c =>
    split at h <;> cases h
    rename_i hd
    exact .drain c hd
  case writePubrel c failed =>
    split at h
    · cases h
    · rename_i id seq rest hd
      split at h <;> cases h
      · exact .dropPubrels c failed
      · rename_i hc
        simp only [Bool.or_eq_true, not_or] at hc
        exact .writePubrel c failed id seq rest hd (by simpa using hc.2)

end Inversion

end Natsmqtt5.Outbound
