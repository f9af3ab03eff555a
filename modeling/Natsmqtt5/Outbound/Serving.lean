import Natsmqtt5.Outbound.Ledger

/-!
# The delivery goroutine keeps the ledger

The goroutine of the session's connection: a resend adds a record before its packet goes out, and a
new message is tracked under an identifier without one.
-/

namespace Natsmqtt5.Outbound

variable {κ : Type}

section Serving

variable {sess : Session κ} {log : List (Event κ)} {d d' : Delivery κ}

/-- A place of the delivery goroutine that asks nothing new. -/
def Delivery.Settled (d : Delivery κ) : Prop :=
  (∀ o held todo, d ≠ .releasingMessage o held todo) ∧ (∀ id ready, d ≠ .tracking id ready) ∧
    d ≠ .waiting

theorem Serving.shrink (h : Serving sess log d) (hd : d'.Settled)
    (hcop : ∀ o ∈ d'.copies, o ∈ d.copies) (hahead : d'.ahead.Sublist d.ahead) :
    Serving sess log d' :=
  ⟨fun o held todo heq => absurd heq (hd.1 o held todo), fun o ho => h.copies o (hcop o ho),
    fun id ready heq => absurd heq (hd.2.1 id ready), h.nodup.sublist hahead,
    fun id hid => h.ahead id (hahead.subset hid), fun heq => absurd heq hd.2.2⟩

theorem settled_after (held : Bool) (todo : List (Entry κ)) : (after held todo).Settled := by
  cases held <;> exact ⟨by simp [after], by simp [after], by simp [after]⟩

theorem after_lists (held : Bool) (todo : List (Entry κ)) : (after held todo).due = [] ∧
    (after held todo).copies = [] ∧ (after held todo).ahead = todo.map Entry.packetID := by
  cases held <;> exact ⟨rfl, rfl, rfl⟩

end Serving

section Deliver

variable [DecidableEq κ] {s : Link κ} {c : κ} {sess : Session κ} {d d' : Delivery κ}
  {evs : List (Event κ)} {debts : List Debt} {q p : Nat} {id : PacketID} {held : Bool}
  {todo : List (Entry κ)}

/-- `c` has the session, and its delivery goroutine is at `d`. -/
structure Link.At (s : Link κ) (c : κ) (d : Delivery κ) : Prop where
  ok : s.Ok
  cur : s.net.sess.conn = some c
  online : (s.net.conns c).reader ≠ .offline
  place : (s.net.conns c).delivery = d

/-- The delivery goroutine of `c` has gone on to `d`. -/
def Link.goes (s : Link κ) (c : κ) (sess : Session κ) (q p : Nat) (d : Delivery κ)
    (evs : List (Event κ)) (debts : List Debt) : Link κ :=
  ⟨⟨sess, Function.update s.net.conns c
    { s.net.conns c with quota := q, pulled := p, delivery := d }, evs ++ s.net.log⟩,
    debts ++ s.owes⟩

omit [DecidableEq κ] in
theorem pending_current (hcur : s.net.sess.conn = some c) (hd : (s.net.conns c).delivery = d) :
    s.net.pending = d.due := by
  unfold State.pending
  rw [hcur]
  exact congrArg Delivery.due hd

section At

variable (h : s.At c d)

include h

omit [DecidableEq κ] in
theorem Link.At.serving : Serving s.net.sess s.net.log d := h.place ▸ h.ok.serving c h.cur

theorem deliver_change
    (hent : ∀ j o', sess.inflightEntry j = some o' → s.net.sess.memory j = 0 ∨
      ∃ o, s.net.sess.inflightEntry j = some o ∧ o'.Follows o)
    (hstage : ∀ j o', sess.inflightEntry j = some o' → o'.awaitingPubcomp = true →
      ∃ o, s.net.sess.inflightEntry j = some o ∧ o'.Follows o ∧ o.awaitingPubcomp = true)
    (hconn : sess.conn = s.net.sess.conn) (hkeys : (sess.inflight.map Entry.packetID).Nodup)
    (htally : ∀ id, Tally (fun d => (s.net.conns d).acks.count id)
      ((debts.map Debt.id).count id + (s.owes.map Debt.id).count id + d'.due.count id)
      (sess.memory id))
    (hdebts : ∀ x ∈ debts, Sent sess (evs ++ s.net.log) x.id)
    (hserve : Serving sess (evs ++ s.net.log) d') (hevs : ∀ e ∈ evs, ∀ c a msg,
      e ≠ .completed c a msg) : (s.goes c sess q p d' evs debts).Ok := by
  have howed : ConnOwed sess (evs ++ s.net.log) (s.net.conns c) := .change h.ok hent evs
  refine h.ok.change ⟨hent, fun j o' ho' haw => .inl (hstage j o' ho' haw), hconn, hkeys,
    fun hne => absurd h.cur hne, fun id => ?_, fun x hx => ?_, ⟨howed.stamp, howed.pubrel,
    fun hoff => absurd hoff h.online⟩, fun _ => hserve,
    fun _ _ _ hmem => absurd rfl (hevs _ hmem _ _ _)⟩
  · have hsame : (({ s.net.conns c with quota := q, pulled := p, delivery := d' } : Conn κ)).acks =
        (s.net.conns c).acks := rfl
    have hpend : s.net.pendingWith c
        { s.net.conns c with quota := q, pulled := p, delivery := d' } = d'.due := by
      unfold State.pendingWith
      rw [if_pos h.cur]
    rw [hsame, Function.update_eq_self, hpend, List.map_append, List.count_append]
    exact htally id
  · rcases List.mem_append.mp hx with hx | hx
    · exact .inr (hdebts x hx)
    · exact .inl hx

omit [DecidableEq κ] in
/-- What the goroutine gives up, or the session remembers, covers what is due anew. -/
theorem tally_deliver
    (hle : (debts.map Debt.id).count id + d'.due.count id + s.net.sess.memory id ≤
      d.due.count id + sess.memory id) :
    Tally (fun d => (s.net.conns d).acks.count id)
      ((debts.map Debt.id).count id + (s.owes.map Debt.id).count id + d'.due.count id)
      (sess.memory id) := by
  have htally := h.ok.tally id
  rw [pending_current h.cur h.place] at htally
  intro A
  have := htally A
  omega

/-- With a session that remembers no more than before. -/
theorem deliver_fades (hf : s.net.sess.Fades sess) (hstage : s.net.sess.SameStage sess)
    (htally : ∀ id, (debts.map Debt.id).count id + d'.due.count id + s.net.sess.memory id ≤
      d.due.count id + sess.memory id)
    (hdebts : ∀ x ∈ debts, Sent sess (evs ++ s.net.log) x.id)
    (hserve : Serving sess (evs ++ s.net.log) d') (hevs : ∀ e ∈ evs, ∀ c a msg,
      e ≠ .completed c a msg) : (s.goes c sess q p d' evs debts).Ok :=
  deliver_change h (fun j o' ho' => .inr (hf.continues.entry j o' ho')) (hf.staged hstage) hf.conn
    (h.ok.keys.sublist hf.keys) (fun id => tally_deliver h (htally id)) hdebts hserve hevs

/-- The session stays as it is, and nothing is written. -/
theorem deliver_quiet (hdue : ∀ id, d'.due.count id ≤ d.due.count id)
    (hserve : Serving s.net.sess s.net.log d') : (s.goes c s.net.sess q p d' [] []).Ok := by
  refine deliver_fades h (Session.Drops.refl _ 0).toFades (Session.Drops.refl _ 0).stage
    (fun id => ?_) nofun hserve nofun
  have := hdue id
  simp only [List.map_nil, List.count_nil]
  omega

/-- A record of `id` ends, and with it what is due from the goroutine. -/
theorem deliver_drops (hdrop : s.net.sess.Drops sess id)
    (hdue : ∀ j, d'.due.count j + (if j = id then 1 else 0) ≤ d.due.count j)
    (hset : d'.Settled) (hcop : ∀ o ∈ d'.copies, o ∈ d.copies)
    (hahead : d'.ahead.Sublist d.ahead) : (s.goes c sess q p d' [] []).Ok := by
  refine deliver_fades h hdrop.toFades hdrop.stage (fun j => ?_) nofun
    ((h.serving.fades hdrop.toFades []).shrink hset hcop hahead) nofun
  have h1 := hdue j
  have h2 := hdrop.drop j
  simp only [List.map_nil, List.count_nil]
  omega

/-- A PUBLISH goes out. -/
theorem deliver_publish {o : Entry κ} {x : Nat} (ho : o ∈ d.copies)
    (hdue : ∀ j, [o.packetID].count j + d'.due.count j ≤ d.due.count j) (hset : d'.Settled)
    (hcop : ∀ o ∈ d'.copies, o ∈ d.copies) (hahead : d'.ahead.Sublist d.ahead) :
    (s.goes c s.net.sess q p d' [.publish c o.packetID o.msg x] [⟨o.packetID, false⟩]).Ok := by
  have hf := (Session.Drops.refl s.net.sess 0).toFades
  refine deliver_fades h hf (Session.Drops.refl _ 0).stage (fun j => ?_) (fun e he => ?_)
    ((h.serving.fades hf [.publish c o.packetID o.msg x]).shrink hset hcop hahead) (fun e he => ?_)
  · have := hdue j
    simp only [List.map_cons, List.map_nil]
    omega
  · obtain rfl := List.mem_singleton.mp he
    intro o' ho'
    rw [(h.serving.copies o ho o' ho').1, published_append]
    exact List.mem_cons_self
  · obtain rfl := List.mem_singleton.mp he
    exact fun _ _ _ => nofun

end At

/-- `takeQuotaSlot` and `markResent`: the record is there before the packet goes out. -/
theorem deliver_resend {o o' live : Entry κ} {r : AckOwed κ} (h : s.At c (.deciding o held todo))
    (hlive : s.net.sess.inflightEntry o.packetID = some live)
    (hon : s.net.sess.Only sess o.packetID) (ho' : sess.inflightEntry o.packetID = some o')
    (hfol : o'.Follows live) (haw : o'.awaitingPubcomp = live.awaitingPubcomp)
    (hres : sess.resent o.packetID = some r)
    (hkeys : sess.inflight.map Entry.packetID = s.net.sess.inflight.map Entry.packetID)
    (hd' : d' = .claimed o held todo ∨
      d' = .releasingMessage o held todo ∧ Sent sess s.net.log o.packetID) :
    (s.goes c sess q p d' [] []).Ok := by
  have hs := h.serving
  have hnd := List.nodup_cons.mp hs.nodup
  have hmem := resend_memory hon hlive ho' hres (hs.ahead _ List.mem_cons_self)
  have hback : ∀ j p, sess.inflightEntry j = some p → ∃ p₀, s.net.sess.inflightEntry j = some p₀ ∧
      p.Follows p₀ ∧ p.awaitingPubcomp = p₀.awaitingPubcomp := by
    intro j p hp
    by_cases hj : j = o.packetID
    · subst hj
      rw [ho'] at hp
      cases hp
      exact ⟨live, hlive, hfol, haw⟩
    · exact ⟨p, (hon.entry j hj).symm.trans hp, .refl p, rfl⟩
  have hahead : ∀ id ∈ todo.map Entry.packetID, sess.resent id = none := fun id hid => by
    rw [hon.resent id fun heq => hnd.1 (heq ▸ hid)]
    exact hs.ahead id (List.mem_cons_of_mem _ hid)
  have hserve : d'.due = [o.packetID] ∧ Serving sess s.net.log d' := by
    rcases hd' with rfl | ⟨rfl, hsent⟩
    · refine ⟨rfl, nofun, fun p hp => ?_, nofun, hnd.2, hahead, nofun⟩
      obtain rfl := List.mem_singleton.mp hp
      intro o'' ho''
      rw [ho'] at ho''
      cases ho''
      obtain ⟨hmsg, hsame⟩ := hs.copies p List.mem_cons_self live hlive
      exact ⟨hfol.msg.trans hmsg, fun h => haw.trans (hsame h)⟩
    · exact ⟨rfl, fun p _ _ heq => by cases heq; exact hsent, nofun, nofun, hnd.2, hahead, nofun⟩
  refine deliver_change h (fun j p hp => .inr ?_) (fun j p hp hpaw => ?_) hon.conn
    (by rw [hkeys]; exact h.ok.keys) (fun j => tally_deliver h ?_) nofun hserve.2 nofun
  · obtain ⟨p₀, hp₀, hpf, -⟩ := hback j p hp
    exact ⟨p₀, hp₀, hpf⟩
  · obtain ⟨p₀, hp₀, hpf, heq⟩ := hback j p hp
    exact ⟨p₀, hp₀, hpf, heq.symm.trans hpaw⟩
  · rw [hserve.1, hmem j]
    simp only [Delivery.due, List.map_nil, List.count_nil, count_cons_eq]
    omega

/-- A new message, under an identifier without a record. -/
theorem deliver_track {ready : List (Entry κ)} {o : Entry κ} (h : s.At c (.tracking id ready))
    (hid : o.packetID = id) (haw : o.awaitingPubcomp = false) :
    (s.goes c (s.net.sess.trackInflight o) q p (.serving (ready ++ [o])) [] []).Ok := by
  have hs := h.serving
  have hzero : s.net.sess.memory o.packetID = 0 := by
    rw [hid]
    exact hs.tracking id ready rfl
  have hmem := track_memory hzero
  have hback : ∀ j p, (s.net.sess.trackInflight o).inflightEntry j = some p →
      (j = o.packetID ∧ p.msg = o.msg ∧ p.awaitingPubcomp = false) ∨
        (j ≠ o.packetID ∧ s.net.sess.inflightEntry j = some p) := by
    intro j p hp
    by_cases hj : j = o.packetID
    · subst hj
      rw [inflightEntry_track_self] at hp
      cases hp
      exact .inl ⟨rfl, rfl, haw⟩
    · rw [inflightEntry_track_of_ne hj] at hp
      exact .inr ⟨hj, hp⟩
  refine deliver_change h (fun j p hp => ?_) (fun j p hp hpaw => ?_) rfl
    (Keyed.nodup_put _ h.ok.keys) (fun j => tally_deliver h ?_) nofun
    ⟨nofun, fun p hp => ?_, nofun, List.nodup_nil, nofun, nofun⟩ nofun
  · rcases hback j p hp with ⟨rfl, -⟩ | ⟨-, hp⟩
    · exact .inl hzero
    · exact .inr ⟨p, hp, .refl p⟩
  · rcases hback j p hp with ⟨-, -, hf⟩ | ⟨-, hp⟩
    · rw [hf] at hpaw
      cases hpaw
    · exact ⟨p, hp, .refl p, hpaw⟩
  · rw [hmem j]
    simp only [Delivery.due, List.map_append, List.map_cons, List.map_nil, List.count_append,
      List.count_nil, count_cons_eq]
    omega
  · rcases List.mem_append.mp hp with hp | hp
    · -- one that is ready has a record, so it is under another identifier
      have hne : p.packetID ≠ o.packetID := by
        intro heq
        refine h.ok.remembered_pending ?_ (heq ▸ hzero)
        rw [pending_current h.cur h.place]
        exact List.mem_map_of_mem hp
      intro p' hp'
      rw [inflightEntry_track_of_ne hne] at hp'
      exact hs.copies p hp p' hp'
    · obtain rfl := List.mem_singleton.mp hp
      intro p' hp'
      rw [inflightEntry_track_self] at hp'
      cases hp'
      exact ⟨rfl, fun h => h⟩

omit [DecidableEq κ] in
theorem count_of_not_due (h : ∀ A, id ∉ s.due A) :
    (s.owes.map Debt.id).count id = 0 ∧ ∀ d, (s.net.conns d).acks.count id = 0 := by
  refine ⟨List.count_eq_zero.mpr fun hmem => h ∅ (Multiset.mem_add.mpr (.inl hmem)), fun d =>
    List.count_eq_zero.mpr fun hmem => h {d} ?_⟩
  simp only [Link.due, Finset.sum_singleton]
  exact Multiset.mem_add.mpr (.inr hmem)

/-- An expired message is completed that nothing is due for. -/
theorem deliver_abandoned (h : s.At c (.completing id held todo))
    (hkept : (s.net.sess.inflightEntry id).isSome = true → ∀ A, id ∉ s.due A) :
    (s.goes c (s.net.sess.completeInflight c id).1 q p (after held todo) [] []).Ok := by
  have hdrop := drops_completeInflight s.net.sess c id
  have hf := hdrop.toFades
  obtain ⟨hdue, hcop, hahead⟩ := after_lists held todo
  refine deliver_change h (fun j o' ho' => .inr (hf.continues.entry j o' ho'))
    (hf.staged hdrop.stage) hf.conn (h.ok.keys.sublist hf.keys) (fun j => ?_) nofun
    ((h.serving.fades hf []).shrink (settled_after held todo) (by simp [hcop])
      (by rw [hahead]; exact .refl _)) nofun
  by_cases hj : j = id ∧ (s.net.sess.inflightEntry id).isSome = true
  · obtain ⟨rfl, hsome⟩ := hj
    obtain ⟨howes, hacks⟩ := count_of_not_due (hkept hsome)
    refine tally_of_zero hacks ?_
    rw [howes, hdue]
    exact Nat.zero_le _
  · refine tally_deliver h ?_
    have hle : s.net.sess.memory j ≤ (s.net.sess.completeInflight c id).1.memory j := by
      by_cases hji : j = id
      · have hnone : s.net.sess.inflightEntry id = none := by
          simpa [hji] using hj
        have : s.net.sess.completeInflight c id = (s.net.sess, none) := by
          unfold Session.completeInflight
          rw [hnone]
        rw [this]
      · simpa [hji] using hdrop.drop j
    rw [hdue]
    simp only [Delivery.due, List.map_nil, List.count_nil]
    omega

theorem deliver_ok {a : Act κ} (h : s.Ok) (hcur : s.net.sess.conn = some c) (hkept : s.Kept a)
    (hd : (s.net.conns c).delivery = d)
    (hdel : Delivers c s.net.sess (s.net.conns c).closed a d sess d' evs) :
    (s.goes c sess q p d' evs (evs.filterMap Event.debt)).Ok := by
  have hat : d ≠ .waiting → s.At c d := fun hw => ⟨h, hcur, fun hoff =>
    hw (hd.symm.trans ((h.conn c).offline hoff).2.2.2), hd⟩
  -- the moves that change neither the session nor what is due
  have hquiet : d ≠ .waiting → (∀ id, d'.due.count id ≤ d.due.count id) → d'.Settled →
      (∀ o ∈ d'.copies, o ∈ d.copies) → d'.ahead.Sublist d.ahead →
      (s.goes c s.net.sess q p d' [] []).Ok := fun hw hdue hset hcop hahead =>
    deliver_quiet (hat hw) hdue ((hat hw).serving.shrink hset hcop hahead)
  have hafter : ∀ held todo, d' = after held todo → d ≠ .waiting →
      (todo.map Entry.packetID).Sublist d.ahead → (s.goes c s.net.sess q p d' [] []).Ok := by
    rintro held todo rfl hw hsub
    obtain ⟨hdue, hcop, hahead⟩ := after_lists held todo
    exact hquiet hw (by simp [hdue]) (settled_after held todo) (by simp [hcop]) (by rwa [hahead])
  cases hdel with
  | gone o held todo | completed o held todo _ =>
    exact hafter held todo rfl (by simp) (List.sublist_cons_self _ _)
  | live snapshot o held todo ho =>
    have hid := packetID_of_inflightEntry ho
    have hs := (hat (by simp)).serving
    refine deliver_quiet (hat (by simp)) (fun _ => le_rfl) ⟨nofun, fun p hp => ?_, nofun, ?_,
      fun id hmem => hs.ahead id ?_, nofun⟩
    · obtain rfl := List.mem_singleton.mp hp
      intro o' ho'
      rw [hid, ho] at ho'
      cases ho'
      exact ⟨rfl, fun h => h⟩
    · have := hs.nodup
      simpa only [Delivery.ahead, hid] using this
    · simpa only [Delivery.ahead, hid] using hmem
  | markResent o held todo _ haw hm =>
    obtain ⟨live, hlive, hon, ho', -, hres⟩ := markResent_spec hm
    have hsame := (hat (by simp)).serving.copies o List.mem_cons_self live hlive
    refine deliver_resend (hat (by simp)) hlive hon ho' ⟨rfl, rfl, fun h => h⟩ rfl hres ?_
      (.inr ⟨rfl, fun o'' ho'' => ?_⟩)
    · unfold Session.markResent at hm
      obtain ⟨_, -, rfl⟩ := Option.map_eq_some_iff.mp hm
      exact Keyed.keys_modify _ fun _ => rfl
    · rw [ho'] at ho''
      cases ho''
      exact h.awaiting _ live hlive (hsame.2 haw)
  | takeQuotaSlot o held todo _ haw hm =>
    obtain ⟨live, hlive, hon, ho', -, hres⟩ := takeQuotaSlot_spec hm
    refine deliver_resend (hat (by simp)) hlive hon ho' ⟨rfl, rfl, fun h => h⟩ rfl hres ?_
      (.inl rfl)
    unfold Session.takeQuotaSlot at hm
    obtain ⟨_, -, rfl⟩ := Option.map_eq_some_iff.mp hm
    exact Keyed.keys_modify _ fun _ => rfl
  | markResentWritten o held todo =>
    have hdrop := drops_markResentWritten s.net.sess c o.packetID
    refine deliver_fades (hat (by simp)) hdrop.toFades hdrop.stage (fun j => ?_) nofun
      (((hat (by simp)).serving.fades hdrop.toFades []).shrink ⟨by simp, by simp, by simp⟩
        (fun _ ho => ho) (.refl _)) nofun
    have := memory_markResentWritten s.net.sess c o.packetID j
    simp only [Delivery.due, List.map_nil, List.count_nil, List.filterMap_nil]
    omega
  | pubrel o held todo hopen =>
    have hf := (Session.Drops.refl s.net.sess 0).toFades
    have hs := (hat (by simp)).serving
    obtain ⟨hdue, hcop, hahead⟩ := after_lists held todo
    refine deliver_fades (hat (by simp)) hf (Session.Drops.refl _ 0).stage (fun j => ?_)
      (fun e he => ?_) ((hs.fades hf [.pubrel c o.packetID (some o.seq)]).shrink
        (settled_after held todo) (by simp [hcop]) (by rw [hahead]; exact .refl _)) (fun e he => ?_)
    · rw [hdue]
      simp [Event.debt, Delivery.due]
    · obtain rfl := List.mem_singleton.mp he
      exact (hs.releasing o held todo rfl).append _
    · obtain rfl := List.mem_singleton.mp he
      exact fun _ _ _ => nofun
  | copy o held todo hopen =>
    exact deliver_publish (hat (by simp)) List.mem_cons_self (by simp [Delivery.due])
      ⟨by simp, by simp, by simp⟩ nofun (.refl _)
  | publish o ready hopen =>
    refine deliver_publish (hat (by simp)) List.mem_cons_self (fun j => ?_)
      ⟨by simp, by simp, by simp⟩ (fun p hp => List.mem_cons_of_mem _ hp) (.refl _)
    simp only [Delivery.due, List.map_cons, List.count_cons, List.count_nil]
    omega
  | abandonResend id held todo =>
    refine deliver_drops (hat (by simp)) (drops_abandonResend _ c id) (fun j => ?_)
      ⟨by simp, by simp, by simp⟩ nofun (.refl _)
    simp [Delivery.due, count_cons_eq]
  | abandoned id held todo =>
    exact deliver_abandoned (hat (by simp)) (hkept id (by rw [hd]; rfl))
  | nextID ready _ id hn =>
    obtain ⟨hbusy, rfl⟩ := nextID_spec hn
    have hres : s.net.sess.resent id = none := by
      simpa using hkept _ hn
    have hdrop : s.net.sess.Drops { s.net.sess with nextPacketID := id } 0 :=
      ⟨⟨continues_nextID hn, fun _ => le_rfl, fun _ h => h, rfl, .refl _⟩,
        fun _ o ho haw => ⟨o, ho, haw⟩, fun _ => Nat.le_add_right _ _⟩
    refine deliver_fades (hat (by simp)) hdrop.toFades hdrop.stage (fun j => ?_) nofun
      ⟨nofun, fun o ho => ((hat (by simp)).serving.copies o ho).fades hdrop.continues,
        fun id' ready' heq => ?_, List.nodup_nil, nofun, nofun⟩ nofun
    · have hmem : ({ s.net.sess with nextPacketID := id } : Session κ).memory j =
          s.net.sess.memory j := rfl
      rw [hmem]
      simp only [Delivery.due, List.map_nil, List.count_nil, List.filterMap_nil]
      omega
    · cases heq
      exact memory_eq_zero.mpr ⟨hbusy, hres⟩
  | track id ready qos msg shared o ho =>
    subst ho
    exact deliver_track (hat (by simp)) rfl rfl
  | keep o ready kept back =>
    refine hquiet (by simp) (fun j => ?_) ⟨by simp, by simp, by simp⟩ (fun p hp => ?_) (.refl _)
    · simp only [Delivery.due, List.map_append, List.map_cons, List.map_nil, List.count_append,
        List.count_cons, List.count_nil, List.cons_append]
      omega
    · simp only [Delivery.copies, List.mem_append, List.mem_cons, List.not_mem_nil, or_false,
        List.cons_append] at hp ⊢
      tauto
  | refuse o ready kept back =>
    refine deliver_drops (hat (by simp)) (drops_completeInflight _ c o.packetID) (fun j => ?_)
      ⟨by simp, by simp, by simp⟩ (fun p hp => List.mem_cons_of_mem _ hp) (.refl _)
    simp [Delivery.due, count_cons_eq]
  | discard id ready =>
    refine deliver_drops (hat (by simp)) (drops_completeInflight _ c id) (fun j => ?_)
      ⟨by simp, by simp, by simp⟩ (fun p hp => hp) (.refl _)
    simp [Delivery.due, count_cons_eq]
  | tooLarge o ready =>
    exact hquiet (by simp) (fun _ => le_rfl) ⟨by simp, by simp, by simp⟩
      (fun p hp => List.mem_cons_of_mem _ hp) (.refl _)
  | giveUp o todo =>
    exact hquiet (by simp) (fun _ => le_rfl) ⟨by simp, by simp, by simp⟩ (fun _ hp => hp)
      (List.sublist_cons_self _ _)
  | expire o held todo | copyTooLarge o held todo =>
    exact hquiet (by simp) (fun _ => le_rfl) ⟨by simp, by simp, by simp⟩ nofun (.refl _)
  | fail _ _ hw =>
    exact hquiet hw (fun _ => Nat.zero_le _) ⟨by simp, by simp, by simp⟩ nofun (List.nil_sublist _)
  | unrecorded ready =>
    exact hquiet (by simp) (by simp [Delivery.due]) ⟨by simp, by simp, by simp⟩
      (by simp [Delivery.copies]) (.refl _)
  | _ =>
    exact hquiet (by simp) (fun _ => le_rfl) ⟨by simp, by simp, by simp⟩ (fun _ hp => hp) (.refl _)

/-! ## A displaced connection -/

/-- The goroutine of a displaced connection goes on, and what is due is remembered. -/
theorem late_fades (h : s.Ok) (hne : s.net.sess.conn ≠ some c)
    (hr : (s.net.conns c).reader ≠ .offline) (hf : s.net.sess.Fades sess)
    (hstage : s.net.sess.SameStage sess)
    (hmem : ∀ id, s.net.sess.memory id ≤ sess.memory id ∨ id ∉ s.net.pending ∧ ∀ A, id ∉ s.due A) :
    (s.goes c sess q p d' [] []).Ok := by
  have howed : ConnOwed sess ([] ++ s.net.log) (s.net.conns c) :=
    .change h (fun j o' ho' => .inr (hf.continues.entry j o' ho')) []
  refine h.change ⟨fun j o' ho' => .inr (hf.continues.entry j o' ho'),
    fun j o' ho' haw => .inl (hf.staged hstage j o' ho' haw), hf.conn, h.keys.sublist hf.keys,
    fun _ => hf, fun id => ?_, fun x hx => .inl hx, ⟨howed.stamp, howed.pubrel,
    fun hoff => absurd hoff hr⟩, fun hcur => absurd hcur hne, nofun⟩
  have hsame : (({ s.net.conns c with quota := q, pulled := p, delivery := d' } : Conn κ)).acks =
      (s.net.conns c).acks := rfl
  have hpend : s.net.pendingWith c
      { s.net.conns c with quota := q, pulled := p, delivery := d' } = s.net.pending := by
    unfold State.pendingWith
    rw [if_neg hne]
  rw [hsame, Function.update_eq_self, hpend]
  rcases hmem id with hle | ⟨hpending, hnot⟩
  · exact fun A => (h.tally id A).trans hle
  · obtain ⟨howes, hacks⟩ := count_of_not_due hnot
    refine tally_of_zero hacks ?_
    simp [howes, List.count_eq_zero.mpr hpending]

/-- An entry that a displaced connection completes stays as a withdrawal, or has nothing due. -/
theorem memory_completes (hs : ∀ o ∈ s.net.sess.inflightEntry id,
      resentElsewhere c o = none → id ∉ s.net.pending ∧ ∀ A, id ∉ s.due A) (j : PacketID) :
    s.net.sess.memory j ≤ (s.net.sess.completeInflight c id).1.memory j ∨
      j ∉ s.net.pending ∧ ∀ A, j ∉ s.due A := by
  by_cases hj : j = id
  · subst hj
    rcases heq : s.net.sess.completeInflight c j with ⟨sess, done⟩
    cases done with
    | none =>
      obtain ⟨rfl, -⟩ := completeInflight_eq_none heq
      exact .inl le_rfl
    | some done =>
      obtain ⟨o, ho, -, -, -, -, hcase⟩ := completeInflight_spec heq
      rcases hcase with ⟨hov, -⟩ | ⟨-, -, d, -, hw, hres⟩ | ⟨-, hd, -⟩
      · exact .inr (hs o ho (resentElsewhere_of_overtakes hov))
      · have := memory_le s.net.sess j
        simp only [Session.memory, busy_of_withdrawn hw, hres] at this ⊢
        exact .inl this
      · exact .inr (hs o ho hd)
  · have := (drops_completeInflight s.net.sess c id).drop j
    rw [if_neg hj] at this
    exact .inl this

/-- A step of a displaced connection's delivery goroutine that commits it to nothing. -/
theorem late_ok {a : Act κ} (h : s.Ok) (hne : s.net.sess.conn ≠ some c) (ha : a.commits = false)
    (hs : s.Spares c) (hd : (s.net.conns c).delivery = d)
    (hdel : Delivers c s.net.sess (s.net.conns c).closed a d sess d' evs) :
    (s.goes c sess q p d' evs (evs.filterMap Event.debt)).Ok := by
  have hr : (s.net.conns c).reader ≠ .offline := fun hoff =>
    hdel.started (hd.symm.trans ((h.conn c).offline hoff).2.2.2)
  unfold Link.Spares at hs
  rw [hd] at hs
  have hdrops : ∀ {sess' id}, s.net.sess.Drops sess' id →
      (∀ j, s.net.sess.memory j ≤ sess'.memory j ∨ j ∉ s.net.pending ∧ ∀ A, j ∉ s.due A) →
      (s.goes c sess' q p d' [] []).Ok := fun hdrop hmem =>
    late_fades h hne hr hdrop.toFades hdrop.stage hmem
  have hcompletes : ∀ id, d.completes = some id →
      (s.goes c (s.net.sess.completeInflight c id).1 q p d' [] []).Ok := fun id hid =>
    hdrops (drops_completeInflight _ c id) (memory_completes (hs.2 id hid))
  cases hdel with
  | markResent | takeQuotaSlot | pubrel | copy | nextID | track | publish =>
    simp [Act.commits] at ha
  | markResentWritten o held todo =>
    exact hdrops (drops_markResentWritten _ c o.packetID) fun j =>
      .inl (memory_markResentWritten _ c o.packetID j).ge
  | abandonResend id held todo =>
    have hnone : s.net.sess.abandonResend c id = s.net.sess := by
      unfold Session.abandonResend
      split
      · rfl
      · rename_i r hr
        rw [if_neg (hs.1 id rfl r hr)]
    rw [hnone]
    exact hdrops (.refl _ id) fun _ => .inl le_rfl
  | abandoned id held todo | discard id ready => exact hcompletes id rfl
  | refuse o ready kept back => exact hcompletes o.packetID rfl
  | _ => exact hdrops (.refl _ 0) fun _ => .inl le_rfl

end Deliver

end Natsmqtt5.Outbound
