import Natsmqtt5.Outbound.Exchange

/-!
# No PUBLISH after its PUBREL

Once a PUBREL of an exchange has been written on a connection, no PUBLISH of that exchange may
follow on it [MQTT-4.3.3-6]. The entry's stage says which of the two a resend has to be, and it only
moves forward; but `resend` decides from a copy of the entry, takes the slot and writes later, under
other acquisitions of the lock, and the reader may move the live entry on in between.

Results:
* `publish_before_pubrel`: in every run in which a PUBREL waits for the copies of its exchange that
  the connection's delivery goroutine has decided to write, no PUBLISH follows its PUBREL.
* `publish_after_pubrel`: the reader answers a PUBREC between the decision and the write.
-/

namespace Natsmqtt5.Outbound

open Function

variable {κ : Type} {sess sess' : Session κ} {x q p : Nat} {o : Entry κ} {e : Event κ}
  {id : PacketID} {b : Bool} {d : Delivery κ} {a : Act κ} {evs : List (Event κ)} {r : Reader κ}

/-! ## Statements -/

/-- The connection and exchange of a PUBLISH. -/
def Event.publishOf : Event κ → Option (κ × Nat)
  | .publish c _ _ x => some (c, x)
  | _ => none

/-- The connection and exchange of a PUBREL. -/
def Event.pubrelOf : Event κ → Option (κ × Nat)
  | .pubrel c _ (some x) => some (c, x)
  | _ => none

/-- No PUBLISH comes after a PUBREL of the same exchange on the same connection. -/
def PublishFirst (log : List (Event κ)) : Prop :=
  log.Pairwise fun later earlier =>
    ∀ c x, earlier.pubrelOf = some (c, x) → later.publishOf ≠ some (c, x)

/-- The exchanges of which a delivery goroutine has decided to write a PUBLISH. -/
def Delivery.unwritten : Delivery κ → List Nat
  | .deciding o _ _ => if o.awaitingPubcomp then [] else [o.seq]
  | .claimed o _ _ => [o.seq]
  | .marked o _ _ => [o.seq]
  | .serving ready => ready.map Entry.seq
  | .slotted ready => ready.map Entry.seq
  | .tracking _ ready => ready.map Entry.seq
  | .refusing ready kept _ => (ready ++ kept).map Entry.seq
  | .refunding ready kept => (ready ++ kept).map Entry.seq
  | .flushing ready => ready.map Entry.seq
  | .discarding _ ready => ready.map Entry.seq
  | .dropping ready => ready.map Entry.seq
  | _ => []

/-- The PUBREL a step of the reader or of `drainPubrels` is about to write: its connection and
exchange. -/
def State.nextPubrel (s : State κ) : Act κ → Option (κ × Nat)
  | .handle c false =>
    match (s.conns c).reader with
    | .answering _ x => some (c, x)
    | _ => none
  | .writePubrel c _ => (s.conns c).draining.head?.map fun p => (c, p.2)
  | _ => none

/-- A step that writes no PUBREL while the connection's delivery goroutine has a PUBLISH of the same
exchange to write. -/
def CopyWritten (s : State κ) (a : Act κ) : Prop :=
  ∀ p ∈ s.nextPubrel a, p.2 ∉ (s.conns p.1).delivery.unwritten
  deriving Decidable

/-! ## The invariant -/

/-- The exchange `x` is past its PUBREC. -/
structure Released (sess : Session κ) (x : Nat) : Prop where
  le : x ≤ sess.sendSeq
  awaiting : ∀ j o, sess.inflightEntry j = some o → o.seq = x → o.awaitingPubcomp = true

/-- The copy `o` has the identifier under which its exchange is in flight. -/
structure Named (sess : Session κ) (o : Entry κ) : Prop where
  le : o.seq ≤ sess.sendSeq
  id : ∀ j p, sess.inflightEntry j = some p → p.seq = o.seq → j = o.packetID

/-- A PUBREL is written, or about to be, only for an exchange that is past its PUBREC. -/
structure ConnOrder (sess : Session κ) (k : Conn κ) : Prop where
  deciding : ∀ o held todo, k.delivery = .deciding o held todo → o.awaitingPubcomp = true →
    Released sess o.seq
  releasing : ∀ o held todo, k.delivery = .releasingMessage o held todo → Released sess o.seq
  accepting : ∀ o, k.reader = .accepting o → Named sess o
  answering : ∀ id x, k.reader = .answering id x → Released sess x
  relIDs : ∀ p ∈ k.relIDs, Released sess p.2
  draining : ∀ p ∈ k.draining, Released sess p.2

structure Order (s : State κ) : Prop where
  distinct : Distinct s.sess
  conn : ∀ c, ConnOrder s.sess (s.conns c)
  written : ∀ e ∈ s.log, ∀ c x, e.pubrelOf = some (c, x) →
    Released s.sess x ∧ x ∉ (s.conns c).delivery.unwritten
  first : PublishFirst s.log

/-- `sess'` comes after `sess`: what is in flight is an exchange of `sess`, or a new one. -/
structure Session.Extends (sess sess' : Session κ) : Prop where
  le : sess.sendSeq ≤ sess'.sendSeq
  entry : ∀ j o', sess'.inflightEntry j = some o' →
    sess.sendSeq < o'.seq ∨ ∃ o, sess.inflightEntry j = some o ∧ o'.Follows o

theorem Session.Continues.extends (h : sess.Continues sess') : sess.Extends sess' :=
  ⟨h.sendSeq.ge, fun j o' ho' => .inr (h.entry j o' ho')⟩

theorem Session.Extends.refl (sess : Session κ) : sess.Extends sess :=
  (Session.Continues.refl sess).extends

theorem Session.Extends.trans {mid : Session κ} (h : sess.Extends mid) (h' : mid.Extends sess') :
    sess.Extends sess' := by
  refine ⟨h.le.trans h'.le, fun j o' ho' => ?_⟩
  rcases h'.entry j o' ho' with hlt | ⟨p, hp, hf⟩
  · exact .inl (h.le.trans_lt hlt)
  · rcases h.entry j p hp with hlt | ⟨o, ho, hg⟩
    · exact .inl (hf.seq ▸ hlt)
    · exact .inr ⟨o, ho, hf.seq.trans hg.seq, hf.msg.trans hg.msg,
        fun haw => hf.awaiting (hg.awaiting haw)⟩

theorem NamedAfter.extends (h : NamedAfter sess.sendSeq sess') : sess.Extends sess' :=
  ⟨h.le, fun j o' ho' => .inl (h.lt j o' ho')⟩

theorem extends_trackInflight (sess : Session κ) (o : Entry κ) :
    sess.Extends (sess.trackInflight o) := by
  refine ⟨Nat.le_succ _, fun j o' ho' => ?_⟩
  by_cases hj : j = o.packetID
  · subst hj
    rw [inflightEntry_track_self] at ho'
    cases ho'
    exact .inl (Nat.lt_succ_self _)
  · rw [inflightEntry_track_of_ne hj] at ho'
    exact .inr ⟨o', ho', .refl o'⟩

theorem Released.extends (h : Released sess x) (he : sess.Extends sess') : Released sess' x := by
  refine ⟨h.le.trans he.le, fun j o' ho' hx => ?_⟩
  rcases he.entry j o' ho' with hlt | ⟨o, ho, hf⟩
  · have := h.le
    omega
  · exact hf.awaiting (h.awaiting j o ho (hf.seq.symm.trans hx))

theorem Named.extends (h : Named sess o) (he : sess.Extends sess') : Named sess' o := by
  refine ⟨h.le.trans he.le, fun j p' hp' hx => ?_⟩
  rcases he.entry j p' hp' with hlt | ⟨p, hp, hf⟩
  · have := h.le
    omega
  · exact h.id j p hp (hf.seq.symm.trans hx)

theorem ConnOrder.extends {k : Conn κ} (h : ConnOrder sess k) (he : sess.Extends sess') :
    ConnOrder sess' k :=
  ⟨fun o held todo hd haw => (h.deciding o held todo hd haw).extends he,
    fun o held todo hd => (h.releasing o held todo hd).extends he,
    fun o hr => (h.accepting o hr).extends he, fun id x hr => (h.answering id x hr).extends he,
    fun p hp => (h.relIDs p hp).extends he, fun p hp => (h.draining p hp).extends he⟩

/-! ## The parts of a step -/

/-- A packet or acknowledgement that is neither a PUBLISH nor a PUBREL of a known exchange. -/
def Event.Quiet (e : Event κ) : Prop := e.publishOf = none ∧ e.pubrelOf = none

theorem PublishFirst.quiet {log : List (Event κ)} (h : PublishFirst log)
    (he : e.publishOf = none) : PublishFirst (e :: log) := by
  refine List.pairwise_cons.mpr ⟨fun e' _ c x _ hp => ?_, h⟩
  rw [he] at hp
  cases hp

variable [DecidableEq κ] {s t : State κ} {c : κ} {k : Conn κ} {log : List (Event κ)}

/-- A step is about one connection. A PUBLISH it decides to write is of an exchange that is not past
its PUBREC. -/
theorem Order.set (h : Order s) (he : s.sess.Extends sess) (hd : Distinct sess)
    (hc : ConnOrder sess k) (hu : ∀ x ∈ k.delivery.unwritten,
      x ∈ (s.conns c).delivery.unwritten ∨ ¬ Released s.sess x)
    (hlog : ∀ e ∈ log, e ∉ s.log → ∀ d x, e.pubrelOf = some (d, x) →
      d = c ∧ Released sess x ∧ x ∉ k.delivery.unwritten) (hfirst : PublishFirst log) :
    Order (⟨sess, update s.conns c k, log⟩ : State κ) := by
  refine ⟨hd, fun d => ?_, fun e hmem d x hx => ?_, hfirst⟩
  · by_cases hdc : d = c
    · subst hdc
      simpa only [update_self] using hc
    · simpa only [update_of_ne hdc] using (h.conn d).extends he
  · by_cases hold : e ∈ s.log
    · obtain ⟨hrel, hun⟩ := h.written e hold d x hx
      refine ⟨hrel.extends he, ?_⟩
      by_cases hdc : d = c
      · subst hdc
        simp only [update_self]
        exact fun hin => (hu x hin).elim hun fun hn => hn hrel
      · simpa only [update_of_ne hdc] using hun
    · obtain ⟨rfl, hrel, hun⟩ := hlog e hmem hold d x hx
      simp only [update_self]
      exact ⟨hrel, hun⟩

/-- Nothing is written. -/
theorem Order.keep (h : Order s) (he : s.sess.Extends sess) (hd : Distinct sess)
    (hc : ConnOrder sess k) (hu : ∀ x ∈ k.delivery.unwritten,
      x ∈ (s.conns c).delivery.unwritten ∨ ¬ Released s.sess x) :
    Order (⟨sess, update s.conns c k, s.log⟩ : State κ) :=
  h.set he hd hc hu (fun _ hmem hn => absurd hmem hn) h.first

omit [DecidableEq κ] in
/-- An event that no one orders. -/
theorem Order.quiet (h : Order s) (hq : e.Quiet) :
    Order (⟨s.sess, s.conns, e :: s.log⟩ : State κ) := by
  refine ⟨h.distinct, h.conn, fun e' hmem d x hx => ?_, h.first.quiet hq.1⟩
  rcases List.mem_cons.mp hmem with rfl | hmem
  · rw [hq.2] at hx
    cases hx
  · exact h.written e' hmem d x hx

/-- A PUBLISH goes out that the delivery goroutine had decided to write. -/
theorem Order.publish {msg : Nat} (h : Order s) (hc : ConnOrder s.sess k)
    (hx : x ∈ (s.conns c).delivery.unwritten)
    (hu : ∀ x ∈ k.delivery.unwritten, x ∈ (s.conns c).delivery.unwritten) :
    Order (⟨s.sess, update s.conns c k, .publish c id msg x :: s.log⟩ : State κ) := by
  refine h.set (.refl s.sess) h.distinct hc (fun y hy => .inl (hu y hy)) ?_ ?_
  · intro e hmem hn d y hy
    rcases List.mem_cons.mp hmem with rfl | hmem
    · cases hy
    · exact absurd hmem hn
  · refine List.pairwise_cons.mpr ⟨fun e hmem d y hy hp => ?_, h.first⟩
    cases hp
    exact (h.written e hmem c x hy).2 hx

/-- A PUBREL goes out for an exchange that is past its PUBREC, after its PUBLISH. -/
theorem Order.pubrel (h : Order s) (hcont : s.sess.Continues sess)
    (hc : ConnOrder sess k) (hrel : Released s.sess x) (hx : x ∉ k.delivery.unwritten)
    (hu : ∀ x ∈ k.delivery.unwritten, x ∈ (s.conns c).delivery.unwritten) :
    Order (⟨sess, update s.conns c k, .pubrel c id (some x) :: s.log⟩ : State κ) := by
  refine h.set hcont.extends (h.distinct.continues hcont) hc (fun y hy => .inl (hu y hy)) ?_
    (h.first.quiet rfl)
  intro e hmem hn d y hy
  rcases List.mem_cons.mp hmem with rfl | hmem
  · cases hy
    exact ⟨rfl, hrel.extends hcont.extends, hx⟩
  · exact absurd hmem hn

/-! ## Steps -/

/-- Neither at the decision nor at the write of a PUBREL. -/
def Delivery.Plain (d : Delivery κ) : Prop :=
  (∀ o held todo, d ≠ .deciding o held todo) ∧ ∀ o held todo, d ≠ .releasingMessage o held todo

omit [DecidableEq κ] in
theorem plain_after (held : Bool) (todo : List (Entry κ)) : (after held todo).Plain := by
  cases held <;> exact ⟨by simp [after], by simp [after]⟩

omit [DecidableEq κ] in
theorem unwritten_after (held : Bool) (todo : List (Entry κ)) :
    (after held todo).unwritten = [] := by
  cases held <;> rfl

omit [DecidableEq κ] in
/-- The reader and the queue stay as they are. -/
theorem ConnOrder.deliver (h : ConnOrder sess k) (hd : d.Plain) :
    ConnOrder sess { k with closed := b, quota := q, pulled := p, delivery := d } :=
  { h with deciding := fun o held todo ho => absurd ho (hd.1 o held todo), releasing := fun o held
      todo ho => absurd ho (hd.2 o held todo) }

omit [DecidableEq κ] in
/-- The entry as it is read: an exchange past its PUBREC is so in the copy. -/
theorem Distinct.released (h : Distinct sess)
    (ho : sess.inflightEntry id = some o) (haw : o.awaitingPubcomp = true) :
    Released sess o.seq := by
  refine ⟨h.le id o ho, fun j p hp hseq => ?_⟩
  obtain rfl := h.inj j id p o hp ho hseq
  rw [ho] at hp
  cases hp
  exact haw

theorem deliver_order {d' : Delivery κ} (h : Order s) (hd : (s.conns c).delivery = d)
    (hdel : Delivers c s.sess (s.conns c).closed a d sess d' evs) :
    Order (⟨sess, update s.conns c
      { s.conns c with closed := b, quota := q, pulled := p, delivery := d' },
      evs ++ s.log⟩ : State κ) := by
  have hc := h.conn c
  rcases hdel.continues with hcont | ⟨id, ready, o, rfl, rfl, rfl, -, hseq, rfl⟩
  · have hkeep : d'.Plain → (∀ x ∈ d'.unwritten, x ∈ d.unwritten) →
        Order (⟨sess, update s.conns c
          { s.conns c with closed := b, quota := q, pulled := p, delivery := d' },
          s.log⟩ : State κ) := fun hpl hsub =>
      h.keep hcont.extends (h.distinct.continues hcont) ((hc.extends hcont.extends).deliver hpl)
        fun x hx => .inl (by rw [hd]; exact hsub x hx)
    cases hdel with
    | live snapshot o held todo ho =>
      refine h.keep (.refl _) h.distinct ⟨fun o' held' todo' heq haw => ?_,
        nofun, hc.accepting, hc.answering, hc.relIDs,
        hc.draining⟩ fun x hx => .inr fun hrel => ?_
      · cases heq
        exact h.distinct.released ho haw
      · -- a copy that is not awaiting is of an entry that is not
        simp only [Delivery.unwritten] at hx
        split at hx
        · cases hx
        · rename_i haw
          obtain rfl := List.mem_singleton.mp hx
          exact haw (hrel.awaiting _ o ho rfl)
    | markResent o held todo _ haw hm =>
      have hrel : Released s.sess o.seq := hc.deciding o held todo hd haw
      have hc' := hc.extends hcont.extends
      refine h.keep hcont.extends (h.distinct.continues hcont)
        ⟨nofun, fun o' held' todo' heq => ?_, hc'.accepting,
          hc'.answering, hc'.relIDs, hc'.draining⟩ nofun
      cases heq
      exact hrel.extends hcont.extends
    | takeQuotaSlot o held todo _ haw hm =>
      refine hkeep ⟨by simp, by simp⟩ fun x hx => ?_
      simpa [Delivery.unwritten, haw] using hx
    | pubrel o held todo hopen =>
      have hrel : Released s.sess o.seq := hc.releasing o held todo hd
      refine h.pubrel hcont (hc.deliver (plain_after held todo)) hrel ?_ fun x hx => ?_
      · simp [unwritten_after]
      · simp [unwritten_after] at hx
    | copy o held todo hopen =>
      exact h.publish (hc.deliver ⟨by simp, by simp⟩) (by simp [hd, Delivery.unwritten]) nofun
    | publish o ready hopen =>
      refine h.publish (hc.deliver ⟨by simp, by simp⟩) (by simp [hd, Delivery.unwritten])
        fun x hx => ?_
      rw [hd]
      exact List.mem_cons_of_mem _ hx
    | gone o held todo | completed o held todo _ | abandoned id held todo =>
      exact hkeep (plain_after held todo) (by simp [unwritten_after])
    | track id ready qos msg shared o ho => exact absurd hcont.sendSeq (Nat.succ_ne_self _)
    | keep o ready kept back =>
      refine hkeep ⟨by simp, by simp⟩ fun x hx => ?_
      simp only [Delivery.unwritten, List.map_append, List.map_cons, List.map_nil,
        List.mem_append, List.mem_cons, List.cons_append] at hx ⊢
      tauto
    | refuse o ready kept back | tooLarge o ready =>
      exact hkeep ⟨by simp, by simp⟩ fun x hx => List.mem_cons_of_mem _ hx
    | _ => exact hkeep ⟨by simp, by simp⟩ (by simp [Delivery.unwritten])
  · -- a new message: its exchange has not been named before
    have he := extends_trackInflight s.sess o
    refine h.keep he (h.distinct.trackInflight o) ((hc.extends he).deliver ⟨by simp, by simp⟩)
      fun x hx => ?_
    simp only [Delivery.unwritten, List.map_append, List.map_cons, List.map_nil, List.mem_append,
      List.mem_singleton] at hx
    rcases hx with hx | rfl
    · exact .inl (by rw [hd]; exact hx)
    · exact .inr fun hrel => by have := hrel.le; omega

omit [DecidableEq κ] in
/-- A reader that is neither before `awaitPubcomp` nor after it. -/
theorem ConnOrder.handle (h : ConnOrder sess k)
    (hr : (∀ o, r ≠ .accepting o) ∧ ∀ id x, r ≠ .answering id x) :
    ConnOrder sess { k with closed := b, quota := q, reader := r } :=
  ⟨h.deciding, h.releasing, fun o ho => absurd ho (hr.1 o), fun id x hx => absurd hx (hr.2 id x),
    h.relIDs, h.draining⟩

omit [DecidableEq κ] in
/-- `awaitPubcomp` moves the exchange of the copy on. -/
theorem Named.released (h : Named sess o) : Released (sess.awaitPubcomp o.packetID) o.seq := by
  have hid : ∀ o : Entry κ, o.awaitPubcomp.packetID = o.packetID := fun _ => rfl
  refine ⟨h.le, fun j p hp hx => ?_⟩
  obtain ⟨p₀, hp₀, hf⟩ := (continues_awaitPubcomp sess o.packetID).entry j p hp
  obtain rfl := h.id j p₀ hp₀ (hf.seq.symm.trans hx)
  have hself : (sess.awaitPubcomp o.packetID).inflightEntry o.packetID =
      (sess.inflightEntry o.packetID).map Entry.awaitPubcomp := inflightEntry_modify_self hid
  rw [hp, hp₀] at hself
  cases hself
  rfl

theorem handle_order {queue : Bool} {r' : Reader κ} {rel : List (PacketID × Nat)} (h : Order s)
    (hok : CopyWritten s (.handle c queue)) (hr : (s.conns c).reader = r)
    (hh : Handles c s.sess (s.conns c).closed queue r sess r' evs rel) :
    Order (⟨sess, update s.conns c
      { s.conns c with closed := b, quota := q, reader := r',
                       relIDs := (s.conns c).relIDs ++ rel }, evs ++ s.log⟩ : State κ) := by
  have hc := h.conn c
  have hcont := hh.continues
  have hc' := hc.extends hcont.extends
  have hdis := h.distinct.continues hcont
  have hkeep : rel = [] → ConnOrder sess { s.conns c with closed := b, quota := q, reader := r' } →
      Order (⟨sess, update s.conns c
        { s.conns c with closed := b, quota := q, reader := r',
                         relIDs := (s.conns c).relIDs ++ rel }, s.log⟩ : State κ) := by
    rintro rfl hk
    rw [List.append_nil]
    exact h.keep hcont.extends hdis hk fun x hx => .inl hx
  cases hh with
  | complete _ _ a _ done hr hr' hcomp =>
    refine Order.quiet (s := ⟨sess, _, s.log⟩) (hkeep rfl (hc'.handle ?_)) ⟨rfl, rfl⟩
    rcases hr' with rfl | rfl | rfl <;> simp
  | withdrawn a _ w _ hr' hw | resent a _ quota _ hr' hw | giveUp _ _ hr hr' =>
    refine hkeep rfl (hc'.handle ?_)
    rcases hr' with rfl | rfl <;> simp
  | pubrec a o _ ho hr' =>
    rcases hr' with rfl | rfl | rfl
    · exact hkeep rfl (hc'.handle (by simp))
    · exact hkeep rfl (hc'.handle (by simp))
    · refine hkeep rfl { hc with accepting := fun o' heq => ?_, answering := nofun }
      cases heq
      refine ⟨h.distinct.le _ o ho, fun j p hp hseq => ?_⟩
      rw [packetID_of_inflightEntry ho]
      exact h.distinct.inj j _ p o hp ho hseq
  | awaitPubcomp o =>
    refine hkeep rfl { hc' with accepting := nofun, answering := fun id x heq => ?_ }
    cases heq
    exact (hc.accepting o hr).released
  | queuePubrel id x =>
    refine h.keep (.refl _) h.distinct ⟨hc.deciding, hc.releasing, nofun,
      nofun, fun p hp => ?_, hc.draining⟩ fun x hx => .inl hx
    rcases List.mem_append.mp hp with hp | hp
    · exact hc.relIDs p hp
    · obtain rfl := List.mem_singleton.mp hp
      exact hc.answering id x hr
  | pubrel id x hq hopen =>
    subst hq
    have hx : x ∉ (s.conns c).delivery.unwritten :=
      hok (c, x) (by simp only [State.nextPubrel, hr]; rfl)
    rw [List.append_nil]
    exact h.pubrel hcont (hc'.handle (by simp)) (hc.answering id x hr) hx fun x hx => hx
  | pubrelNotFound id hopen =>
    exact Order.quiet (s := ⟨s.sess, _, s.log⟩) (hkeep rfl (hc.handle (by simp))) ⟨rfl, rfl⟩
  | _ => exact hkeep rfl (hc'.handle (by simp))

omit [DecidableEq κ] in
theorem restore_order (inflight : List (Entry κ)) (ws : List (PacketID × AckType × Nat))
    (h : Order s) : Order (⟨restored s.sess.sendSeq inflight ws, fun c => (s.conns c).kill,
      s.log⟩ : State κ) := by
  have hnew := namedAfter_restored s.sess.sendSeq inflight ws
  refine ⟨hnew.distinct, fun c => ?_, fun e he c x hx => ?_, h.first⟩
  · have hc := (h.conn c).extends hnew.extends
    simp only [Conn.kill]
    split
    · exact hc
    · exact ⟨by simp, by simp, by simp, by simp, by simp, by simp⟩
  · obtain ⟨hrel, hun⟩ := h.written e he c x hx
    refine ⟨hrel.extends hnew.extends, ?_⟩
    simp only [Conn.kill]
    split
    · exact hun
    · exact List.not_mem_nil

theorem step_order (h : Order s) (hok : CopyWritten s a) (hs : step s a = some t) : Order t := by
  have hsame : ∀ c (k : Conn κ), ConnOrder s.sess k → k.delivery = (s.conns c).delivery →
      Order (⟨s.sess, update s.conns c k, s.log⟩ : State κ) := fun c k hk hd =>
    h.keep (.refl _) h.distinct hk fun x hx => .inl (by rwa [hd] at hx)
  have hquiet : ∀ c (k : Conn κ) (e : Event κ), ConnOrder s.sess k →
      k.delivery = (s.conns c).delivery → e.Quiet →
      Order (⟨s.sess, update s.conns c k, e :: s.log⟩ : State κ) :=
    fun c k e hk hd he => (hsame c k hk hd).quiet he
  cases step_outcome hs with
  | attach c n hr =>
    have hcont := continues_attach s.sess c
    have hc := (h.conn c).extends hcont.extends
    exact h.keep hcont.extends (h.distinct.continues hcont)
      { hc with accepting := by simp, answering := by simp } fun x hx => .inl hx
  | restore inflight ws => exact restore_order inflight ws h
  | withdraw id sess hw =>
    have hcont := continues_withdraw hw
    exact ⟨h.distinct.continues hcont, fun c => (h.conn c).extends hcont.extends,
      fun e he c x hx => ⟨(h.written e he c x hx).1.extends hcont.extends,
        (h.written e he c x hx).2⟩, h.first⟩
  | unacknowledged c hd hr =>
    have hc := h.conn c
    exact h.keep (.refl _) h.distinct { hc with deciding := by simp, releasing := by simp } nofun
  | adjust c b q p hb =>
    have hc := h.conn c
    exact hsame c _ { hc with } rfl
  | deliver c d sess d' evs b q p hd hdel hb => exact deliver_order h hd hdel
  | send c a =>
    have hc := h.conn c
    exact hquiet c _ _ { hc with } rfl ⟨rfl, rfl⟩
  | read c a inbox hr hin =>
    have hc := h.conn c
    refine hquiet c _ _ { hc with accepting := ?_, answering := ?_ } rfl
      ⟨rfl, rfl⟩ <;> unfold recv <;> split <;> simp
  | handle c queue r sess r' evs rel b q hr hh hb => exact handle_order h hok hr hh
  | drain c hd =>
    have hc := h.conn c
    exact hsame c _ ⟨hc.deciding, hc.releasing, hc.accepting, hc.answering, by simp, hc.relIDs⟩ rfl
  | dropPubrels c failed =>
    have hc := h.conn c
    exact hsame c _ { hc with draining := by simp } rfl
  | writePubrel c failed id x rest hd hopen =>
    have hc := h.conn c
    have hcont := continues_settleOwned s.sess id
    have hc' := hc.extends hcont.extends
    have hx : x ∉ (s.conns c).delivery.unwritten :=
      hok (c, x) (by simp only [State.nextPubrel, hd]; rfl)
    refine h.pubrel hcont { hc' with draining := fun p hp => hc'.draining p ?_ }
      (hc.draining (id, x) ?_) hx fun x hx => hx
    · rw [hd]
      exact List.mem_cons_of_mem _ hp
    · rw [hd]
      exact List.mem_cons_self

omit [DecidableEq κ] in
theorem order_empty : Order ({} : State κ) := by
  refine ⟨⟨fun j o ho => ?_, fun i j o p ho => ?_⟩, fun c => ?_, by simp, List.Pairwise.nil⟩
  · cases ho
  · cases ho
  · exact ⟨by simp, by simp, by simp, by simp, by simp, by simp⟩

/-- **No PUBLISH after its PUBREL.** In every run in which no PUBREL is written while the delivery
goroutine of its connection has a PUBLISH of the same exchange to write, no PUBLISH of an exchange
follows its PUBREL on a connection. -/
theorem publish_before_pubrel (s : State κ) (h : Lts.Reach step CopyWritten {} s) :
    PublishFirst s.log := by
  have horder : Order s := h.invariant order_empty fun u a t hu hok hs => step_order hu hok hs
  exact horder.first

/-! ## Two runs -/

/-- A QoS 2 message goes out on a connection that ends, and the next one has decided to
resend it. -/
def resumeRun : List (Act Nat) :=
  attachRun 0 1 ++ [.resend 0] ++ deliverRun 0 .qos2 7 ++ [.close 0] ++ attachRun 1 1 ++
    claimRun 1 ++ [.markResentWritten 1]

/-- The copy is written, and then the client's PUBREC is answered. -/
def answeredRun : List (Act Nat) :=
  resumeRun ++ [.writeResend 1 .sent] ++ ackRun 1 { type := .pubrec, id := 1 } 3

theorem publish_before_pubrel_answered :
    ∃ s : State Nat, Lts.Reach step CopyWritten {} s ∧ some (1, 1) ∈ s.log.map Event.pubrelOf ∧
      some (1, 1) ∈ s.log.map Event.publishOf ∧ PublishFirst s.log := by
  obtain ⟨s, hreach, ⟨hrel, hpub⟩, hfirst⟩ := Lts.exists_reach_of
    (P := fun s => some (1, 1) ∈ s.log.map Event.pubrelOf ∧ some (1, 1) ∈ s.log.map Event.publishOf)
    answeredRun (by decide) fun s hreach _ => publish_before_pubrel s hreach
  exact ⟨s, hreach, hrel, hpub, hfirst⟩

/-- The client answers the PUBLISH of the earlier connection; the reader handles the PUBREC before
the copy is written. -/
def overtakingRun : List (Act Nat) :=
  resumeRun ++ ackRun 1 { type := .pubrec, id := 1 } 3 ++ [.writeResend 1 .sent]

theorem publish_after_pubrel :
    ∃ s : State Nat, Lts.Reach step Lts.free {} s ∧ ¬ PublishFirst s.log := by
  obtain ⟨s, hreach, hs⟩ := Lts.reach_of_exec_any step Lts.free {} overtakingRun
    (fun s => decide (s.log.head?.bind Event.publishOf = some (1, 1) ∧
      some (1, 1) ∈ s.log.tail.map Event.pubrelOf)) (by decide)
  obtain ⟨hpub, hrel⟩ := of_decide_eq_true hs
  refine ⟨s, hreach, fun hfirst => ?_⟩
  cases hlog : s.log with
  | nil => rw [hlog] at hpub; cases hpub
  | cons e log =>
    rw [hlog] at hpub hrel hfirst
    obtain ⟨e', hmem, he'⟩ := List.mem_map.mp hrel
    exact (List.pairwise_cons.mp hfirst).1 e' hmem 1 1 he' hpub

/-! ## Exchanges move forward -/

theorem step_extends (hs : step s a = some t) : s.sess.Extends t.sess := by
  cases step_outcome hs with
  | attach c => exact (continues_attach s.sess c).extends
  | restore inflight ws => exact (namedAfter_restored s.sess.sendSeq inflight ws).extends
  | withdraw id sess hw => exact (continues_withdraw hw).extends
  | deliver c d sess d' evs b q p hd hdel =>
    rcases hdel.continues with hcont | ⟨_, _, o, -, -, -, -, -, rfl⟩
    · exact hcont.extends
    · exact extends_trackInflight s.sess o
  | handle c queue r sess r' evs rel b q hr hh => exact hh.continues.extends
  | writePubrel c failed id => exact (continues_settleOwned s.sess id).extends
  | _ => exact .refl _

/-- **Exchanges only move forward.** What is in flight after any run was tracked or restored in it,
or was in flight before, under the same identifier, and is not back before its PUBREC. -/
theorem exchanges_move_forward (h : Lts.Reach step Lts.free s t) : s.sess.Extends t.sess := by
  induction h with
  | refl => exact .refl _
  | tail _ _ hs ih => exact ih.trans (step_extends hs)

theorem exchanges_move_forward_pubrec :
    let s : State Nat :=
      { sess := { inflight := [{ packetID := 1, qos := .qos2, seq := 1 }], sendSeq := 1 } }
    ∃ t, Lts.Reach step Lts.free s t ∧ (t.sess.inflightEntry 1).any (·.awaitingPubcomp) ∧
      s.sess.Extends t.sess := by
  intro s
  obtain ⟨t, hr, ht⟩ : ∃ t, Lts.Reach step Lts.free s t ∧
      (t.sess.inflightEntry 1).any (·.awaitingPubcomp) :=
    Lts.exists_reach (attachRun 0 1 ++ ackRun 0 { type := .pubrec, id := 1 } 3) (by decide)
  exact ⟨t, hr, ht, exchanges_move_forward hr⟩

end Natsmqtt5.Outbound
