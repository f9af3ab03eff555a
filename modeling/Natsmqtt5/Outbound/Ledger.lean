import Natsmqtt5.Outbound.Memory

/-!
# The ledger of acknowledgements

What is due for an identifier, wherever it waits, is never more than the records the session has of
it; and while something is due, the message in flight under the identifier is one the client was
sent. So an identifier without a record is one for which no acknowledgement can come.
-/

namespace Natsmqtt5.Outbound

open Function

variable {κ : Type} {log : List (Event κ)} {n : Nat} {a : Ack}

/-! ## The log -/

theorem published_append (evs log : List (Event κ)) :
    published (evs ++ log) = published evs ++ published log := List.filterMap_append

theorem mem_published_append {evs : List (Event κ)} {p : PacketID × Nat}
    (h : p ∈ published log) : p ∈ published (evs ++ log) := by
  rw [published_append]
  exact List.mem_append_right _ h

theorem oldest_append (h : n ≤ log.length)
    (evs : List (Event κ)) : oldest n (evs ++ log) = oldest n log := by
  unfold oldest
  rw [List.length_append, Nat.add_sub_assoc h, List.drop_append, List.drop_eq_nil_of_le]
  · simp
  · omega

theorem oldest_length (log : List (Event κ)) : oldest log.length log = log := by
  simp [oldest]

/-! ## The invariant -/

/-- What is in flight under `id` has been published. -/
def Sent (sess : Session κ) (log : List (Event κ)) (id : PacketID) : Prop :=
  ∀ o, sess.inflightEntry id = some o → (id, o.msg) ∈ published log

/-- What is in flight under the identifier of `o` is what `o` is a copy of. -/
def Same (sess : Session κ) (o : Entry κ) : Prop :=
  ∀ o', sess.inflightEntry o.packetID = some o' →
    o'.msg = o.msg ∧ (o.awaitingPubcomp = true → o'.awaitingPubcomp = true)

/-- The copies and new messages a delivery goroutine may write. -/
def Delivery.copies : Delivery κ → List (Entry κ)
  | .deciding o _ _ => [o]
  | .claimed o _ _ => [o]
  | .marked o _ _ => [o]
  | .serving ready => ready
  | .slotted ready => ready
  | .tracking _ ready => ready
  | .refusing ready kept _ => ready ++ kept
  | .refunding ready kept => ready ++ kept
  | .flushing ready => ready
  | .discarding _ ready => ready
  | .dropping ready => ready
  | _ => []

/-- The identifiers `retransmit` has still to resend. -/
def Delivery.ahead : Delivery κ → List PacketID
  | .resending todo => todo.map Entry.packetID
  | .reading o _ todo => o.packetID :: todo.map Entry.packetID
  | .deciding o _ todo => o.packetID :: todo.map Entry.packetID
  | .releasingMessage _ _ todo => todo.map Entry.packetID
  | .claimed _ _ todo => todo.map Entry.packetID
  | .marked _ _ todo => todo.map Entry.packetID
  | .abandoning _ _ todo => todo.map Entry.packetID
  | .completing _ _ todo => todo.map Entry.packetID
  | .releasing todo => todo.map Entry.packetID
  | _ => []

/-- An acknowledgement on its way was sent after what is in flight under its identifier. -/
structure ConnOwed (sess : Session κ) (log : List (Event κ)) (k : Conn κ) : Prop where
  stamp : ∀ a ∈ k.unhandled, a.stamp ≤ log.length ∧ Sent sess (oldest a.stamp log) a.id
  pubrel : ∀ id ∈ k.reader.accepted ++ k.pubrels, Sent sess log id
  offline : k.reader = .offline →
    k.inbox = [] ∧ k.relIDs = [] ∧ k.draining = [] ∧ k.delivery = .waiting

/-- The delivery goroutine of the session's connection. -/
structure Serving (sess : Session κ) (log : List (Event κ)) (d : Delivery κ) : Prop where
  releasing : ∀ o held todo, d = .releasingMessage o held todo → Sent sess log o.packetID
  copies : ∀ o ∈ d.copies, Same sess o
  tracking : ∀ id ready, d = .tracking id ready → sess.memory id = 0
  nodup : d.ahead.Nodup
  ahead : ∀ id ∈ d.ahead, sess.resent id = none
  waiting : d = .waiting → ∀ id, sess.resent id = none

structure Link.Ok (s : Link κ) : Prop where
  tally : ∀ id, Tally (fun c => (s.net.conns c).acks.count id)
    ((s.owes.map Debt.id).count id + s.net.pending.count id) (s.net.sess.memory id)
  owes : ∀ d ∈ s.owes, Sent s.net.sess s.net.log d.id
  conn : ∀ c, ConnOwed s.net.sess s.net.log (s.net.conns c)
  serving : ∀ c, s.net.sess.conn = some c → Serving s.net.sess s.net.log (s.net.conns c).delivery
  awaiting : ∀ id o, s.net.sess.inflightEntry id = some o → o.awaitingPubcomp = true →
    (id, o.msg) ∈ published s.net.log
  keys : (s.net.sess.inflight.map Entry.packetID).Nodup
  answered : ∀ c a msg, .completed c a msg ∈ s.net.log →
    a.stamp ≤ s.net.log.length ∧ (a.id, msg) ∈ published (oldest a.stamp s.net.log)

section Facts

variable {s : Link κ} {id : PacketID} {k : Conn κ} {sess' : Session κ}

/-- What waits on a connection is due. -/
theorem Link.Ok.remembered (h : s.Ok) {c : κ} (hid : id ∈ (s.net.conns c).acks) :
    s.net.sess.memory id ≠ 0 := by
  have h1 := (h.tally id).single c
  have h2 := List.count_pos_iff.mpr hid
  omega

theorem Link.Ok.remembered_owes (h : s.Ok) {d : Debt} (hd : d ∈ s.owes) :
    s.net.sess.memory d.id ≠ 0 := by
  have h1 := (h.tally d.id).rest
  have h2 := List.count_pos_iff.mpr (List.mem_map_of_mem (f := Debt.id) hd)
  omega

theorem Link.Ok.remembered_pending (h : s.Ok) (hid : id ∈ s.net.pending) :
    s.net.sess.memory id ≠ 0 := by
  have h1 := (h.tally id).rest
  have h2 := List.count_pos_iff.mpr hid
  omega

theorem Conn.mem_acks_of_unhandled {a : Ack} (h : a ∈ k.unhandled) : a.id ∈ k.acks := by
  unfold Conn.acks
  exact List.mem_append_left _ (List.mem_append_left _ (List.mem_map_of_mem h))

theorem Conn.mem_acks_of_pubrel (h : id ∈ k.reader.accepted ++ k.pubrels) : id ∈ k.acks := by
  unfold Conn.acks
  rw [List.append_assoc]
  exact List.mem_append_right _ h

theorem Same.fades {sess : Session κ} {o : Entry κ} (h : Same sess o)
    (hf : sess.Continues sess') : Same sess' o := by
  intro o' ho'
  obtain ⟨p, hp, hfol⟩ := hf.entry _ o' ho'
  obtain ⟨hmsg, haw⟩ := h p hp
  exact ⟨hfol.msg.trans hmsg, fun h => hfol.awaiting (haw h)⟩

theorem Sent.follows {sess : Session κ} (h : Sent sess log id)
    (hf : ∀ o', sess'.inflightEntry id = some o' →
      ∃ o, sess.inflightEntry id = some o ∧ o'.Follows o) : Sent sess' log id := by
  intro o' ho'
  obtain ⟨o, ho, hfol⟩ := hf o' ho'
  rw [hfol.msg]
  exact h o ho

theorem Sent.append {sess : Session κ} (h : Sent sess log id)
    (evs : List (Event κ)) : Sent sess (evs ++ log) id :=
  fun o ho => mem_published_append (h o ho)

theorem Serving.fades {sess : Session κ} {d : Delivery κ}
    (h : Serving sess log d) (hf : sess.Fades sess') (evs : List (Event κ)) :
    Serving sess' (evs ++ log) d := by
  refine ⟨fun o held todo hd => ?_, fun o ho => (h.copies o ho).fades hf.continues,
    fun id ready hd => ?_, h.nodup, fun id hid => hf.resent id (h.ahead id hid),
    fun hd id => hf.resent id (h.waiting hd id)⟩
  · exact ((h.releasing o held todo hd).follows (hf.continues.entry _)).append evs
  · have h1 := h.tracking id ready hd
    have h2 := hf.memory id
    omega

end Facts

/-! ## A step of one connection -/

section Change

variable [DecidableEq κ] {s : Link κ} {sess : Session κ} {k : Conn κ} {owes : List Debt}

/-- What `c` leaves to be written, if it becomes `k`. -/
def State.pendingWith (s : State κ) (c : κ) (k : Conn κ) : List PacketID :=
  if s.sess.conn = some c then k.delivery.due else s.pending

/-- A step on `c` that leaves the session `sess`, the connection `k` and the debts `owes`, and notes
`evs`. -/
structure Change (s : Link κ) (c : κ) (sess : Session κ) (k : Conn κ) (evs : List (Event κ))
    (owes : List Debt) : Prop where
  entry : ∀ j o', sess.inflightEntry j = some o' → s.net.sess.memory j = 0 ∨
    ∃ o, s.net.sess.inflightEntry j = some o ∧ o'.Follows o
  stage : ∀ j o', sess.inflightEntry j = some o' → o'.awaitingPubcomp = true →
    (∃ o, s.net.sess.inflightEntry j = some o ∧ o'.Follows o ∧ o.awaitingPubcomp = true) ∨
      (j, o'.msg) ∈ published (evs ++ s.net.log)
  conn : sess.conn = s.net.sess.conn
  keys : (sess.inflight.map Entry.packetID).Nodup
  others : s.net.sess.conn ≠ some c → s.net.sess.Fades sess
  tally : ∀ id, Tally (update (fun d => (s.net.conns d).acks.count id) c (k.acks.count id))
    ((owes.map Debt.id).count id + (s.net.pendingWith c k).count id) (sess.memory id)
  debts : ∀ d ∈ owes, d ∈ s.owes ∨ Sent sess (evs ++ s.net.log) d.id
  owed : ConnOwed sess (evs ++ s.net.log) k
  serving : s.net.sess.conn = some c → Serving sess (evs ++ s.net.log) k.delivery
  answered : ∀ c a msg, .completed c a msg ∈ evs → a.stamp ≤ s.net.log.length ∧
    (a.id, msg) ∈ published (oldest a.stamp s.net.log)

theorem pending_update (hconn : sess.conn = s.net.sess.conn) (log : List (Event κ)) :
    (⟨sess, update s.net.conns c k, log⟩ : State κ).pending = s.net.pendingWith c k := by
  unfold State.pendingWith State.pending
  simp only [hconn]
  cases hd : s.net.sess.conn with
  | none => simp
  | some d =>
    by_cases hdc : d = c
    · subst hdc
      simp
    · simp [hdc]

omit [DecidableEq κ] in
/-- An identifier something is due for keeps its message. -/
theorem ConnOwed.change {d : κ} (h : s.Ok) (hent : ∀ j o', sess.inflightEntry j = some o' →
    s.net.sess.memory j = 0 ∨ ∃ o, s.net.sess.inflightEntry j = some o ∧ o'.Follows o)
    (evs : List (Event κ)) : ConnOwed sess (evs ++ s.net.log) (s.net.conns d) := by
  have hsent : ∀ {log : List (Event κ)} {id}, id ∈ (s.net.conns d).acks →
      Sent s.net.sess log id → Sent sess log id := fun hm hs => hs.follows fun o' ho' =>
    (hent _ o' ho').resolve_left (h.remembered hm)
  have hd := h.conn d
  refine ⟨fun a ha => ?_, fun id hid => ?_, hd.offline⟩
  · obtain ⟨hle, hs⟩ := hd.stamp a ha
    refine ⟨hle.trans (by simp), ?_⟩
    rw [oldest_append hle]
    exact hsent (Conn.mem_acks_of_unhandled ha) hs
  · exact (hsent (Conn.mem_acks_of_pubrel hid) (hd.pubrel id hid)).append evs

theorem Link.Ok.change (h : s.Ok) (hch : Change s c sess k evs owes) :
    (⟨⟨sess, update s.net.conns c k, evs ++ s.net.log⟩, owes⟩ : Link κ).Ok := by
  refine ⟨fun id => ?_, fun d hd => ?_, fun d => ?_, fun d hd => ?_, fun id o ho haw => ?_,
    hch.keys, fun d a msg hmem => ?_⟩
  · have hf : (fun d => (update s.net.conns c k d).acks.count id) =
        update (fun d => (s.net.conns d).acks.count id) c (k.acks.count id) := by
      funext d
      by_cases hdc : d = c
      · subst hdc
        simp
      · simp [update_of_ne hdc]
    simp only
    rw [pending_update hch.conn, hf]
    exact hch.tally id
  · rcases hch.debts d hd with hd | hd
    · exact ((h.owes d hd).follows fun o' ho' =>
        (hch.entry _ o' ho').resolve_left (h.remembered_owes hd)).append evs
    · exact hd
  · by_cases hdc : d = c
    · subst hdc
      simpa only [update_self] using hch.owed
    · simp only [update_of_ne hdc]
      exact .change h hch.entry evs
  · rw [hch.conn] at hd
    by_cases hdc : d = c
    · subst hdc
      simpa only [update_self] using hch.serving hd
    · simp only [update_of_ne hdc]
      refine (h.serving d hd).fades (hch.others fun hc => hdc ?_) evs
      exact Option.some.inj (hd.symm.trans hc)
  · rcases hch.stage id o ho haw with ⟨p, hp, hf, hpaw⟩ | hpub
    · rw [hf.msg]
      exact mem_published_append (h.awaiting id p hp hpaw)
    · exact hpub
  · rcases List.mem_append.mp hmem with hmem | hmem
    · obtain ⟨hle, hpub⟩ := hch.answered d a msg hmem
      exact ⟨hle.trans (by simp), by rw [oldest_append hle]; exact hpub⟩
    · obtain ⟨hle, hpub⟩ := h.answered d a msg hmem
      exact ⟨hle.trans (by simp), by rw [oldest_append hle]; exact hpub⟩

end Change

/-! ## The reader -/

/-- The acknowledgements a reader has in hand. -/
def Reader.tokens (r : Reader κ) (closed : Bool) (id : PacketID) : Nat :=
  (r.handled.toList.map Ack.id).count id + r.accepted.count id +
    if closed then 0 else r.pubrel.count id

/-- The PUBRELs that wait for the record. -/
def Conn.queue (k : Conn κ) : List PacketID :=
  if k.closed then [] else k.relIDs.map Prod.fst ++ k.draining.map Prod.fst

variable {k : Conn κ} {id : PacketID}

theorem Conn.unhandled_eq (h : k.reader ≠ .ended) :
    k.unhandled = k.reader.handled.toList ++ k.inbox := by
  unfold Conn.unhandled
  split
  · rename_i hr
    exact absurd hr h
  · rfl

theorem Conn.mem_unhandled (h : a ∈ k.unhandled) : a ∈ k.reader.handled ∨ a ∈ k.inbox := by
  unfold Conn.unhandled at h
  split at h
  · cases h
  · rcases List.mem_append.mp h with h | h
    · exact .inl (Option.mem_toList.mp h)
    · exact .inr h

theorem Conn.pubrels_count (k : Conn κ) (id : PacketID) :
    k.pubrels.count id = (if k.closed then 0 else k.reader.pubrel.count id) + k.queue.count id := by
  unfold Conn.pubrels Conn.queue
  split
  · rfl
  · simp only [List.count_append]
    omega

theorem Conn.acks_count (h : k.reader ≠ .ended) (id : PacketID) :
    k.acks.count id = k.reader.tokens k.closed id + (k.inbox.map Ack.id).count id +
      k.queue.count id := by
  unfold Conn.acks Reader.tokens
  rw [Conn.unhandled_eq h, List.count_append, List.count_append, List.map_append,
    List.count_append, Conn.pubrels_count]
  omega

theorem Conn.acks_count_le (k : Conn κ) (id : PacketID) :
    k.acks.count id ≤ k.reader.tokens k.closed id + (k.inbox.map Ack.id).count id +
      k.queue.count id := by
  by_cases h : k.reader = .ended
  · have hun : k.unhandled = [] := by
      unfold Conn.unhandled
      rw [h]
    unfold Conn.acks Reader.tokens
    rw [hun, List.count_append, List.count_append, List.map_nil, Conn.pubrels_count]
    simp only [List.count_nil]
    omega
  · exact (Conn.acks_count h id).le

theorem Sent.of_oldest {sess : Session κ}
    (h : Sent sess (oldest n log) id) : Sent sess log id := fun o ho => by
  obtain ⟨e, he, heq⟩ := List.mem_filterMap.mp (h o ho)
  exact List.mem_filterMap.mpr ⟨e, List.mem_of_mem_drop he, heq⟩

section Reader

variable [DecidableEq κ] {s : Link κ} {c : κ} {sess : Session κ} {r r' : Reader κ}
  {evs : List (Event κ)} {debts : List Debt} {rel : List (PacketID × Nat)} {q : Nat}

/-- The reader of `c` has gone on to `r`. -/
def Link.reads (s : Link κ) (c : κ) (sess : Session κ) (q : Nat) (r : Reader κ)
    (rel : List (PacketID × Nat)) (evs : List (Event κ)) (debts : List Debt) : Link κ :=
  ⟨⟨sess, update s.net.conns c
    { s.net.conns c with quota := q, reader := r, relIDs := (s.net.conns c).relIDs ++ rel },
    evs ++ s.net.log⟩, debts ++ s.owes⟩

section Hand

variable (h : s.Ok) (hr : (s.net.conns c).reader = r) (hne : r ≠ .ended)

include h hr hne

/-- What the reader has in hand is settled with a record, or passed on. -/
theorem reader_ok (hoff : r' ≠ .offline) (hf : s.net.sess.Fades sess)
    (hstage : ∀ j o', sess.inflightEntry j = some o' → o'.awaitingPubcomp = true →
      (∃ o, s.net.sess.inflightEntry j = some o ∧ o.awaitingPubcomp = true) ∨
        Sent s.net.sess s.net.log j)
    (htok : ∀ id, r'.tokens (s.net.conns c).closed id +
      (if (s.net.conns c).closed then 0 else (rel.map Prod.fst).count id) +
        (debts.map Debt.id).count id + s.net.sess.memory id ≤
          r.tokens (s.net.conns c).closed id + sess.memory id)
    (hack : ∀ a ∈ r'.handled, a ∈ r.handled)
    (hacc : ∀ id ∈ r'.accepted, Sent s.net.sess s.net.log id)
    (hrel : (s.net.conns c).closed = false → ∀ id ∈ r'.pubrel ++ rel.map Prod.fst,
      Sent s.net.sess s.net.log id)
    (hdebt : ∀ d ∈ debts, Sent s.net.sess s.net.log d.id)
    (hans : ∀ c a msg, .completed c a msg ∈ evs → a.stamp ≤ s.net.log.length ∧
      (a.id, msg) ∈ published (oldest a.stamp s.net.log)) :
    (s.reads c sess q r' rel evs debts).Ok := by
  have hc := h.conn c
  have hmono : ∀ {id}, Sent s.net.sess s.net.log id → Sent sess (evs ++ s.net.log) id :=
    fun hs => (hs.follows (hf.continues.entry _)).append evs
  refine h.change ⟨fun j o' ho' => .inr (hf.continues.entry j o' ho'), fun j o' ho' haw => ?_,
    hf.conn, h.keys.sublist hf.keys, fun _ => hf, fun id => ?_, fun d hd => ?_, ⟨fun a ha => ?_,
    fun id hid => ?_, fun hoff' => absurd hoff' hoff⟩, fun hcur => ?_, hans⟩
  · obtain ⟨o, ho, hfol⟩ := hf.continues.entry j o' ho'
    rcases hstage j o' ho' haw with ⟨p, hp, hpaw⟩ | hs
    · rw [ho] at hp
      cases hp
      exact .inl ⟨o, ho, hfol, hpaw⟩
    · exact .inr (hmono hs o' ho')
  · have hold := Conn.acks_count (k := s.net.conns c) (by rw [hr]; exact hne) id
    have hle := Conn.acks_count_le { s.net.conns c with
      quota := q, reader := r', relIDs := (s.net.conns c).relIDs ++ rel } id
    have hpend : s.net.pendingWith c { s.net.conns c with
        quota := q, reader := r', relIDs := (s.net.conns c).relIDs ++ rel } = s.net.pending := by
      unfold State.pendingWith
      split
      · rename_i hcur
        simp only [State.pending, hcur]
      · rfl
    have hqueue : ({ s.net.conns c with
        quota := q, reader := r', relIDs := (s.net.conns c).relIDs ++ rel } : Conn κ).queue.count id
        = (if (s.net.conns c).closed then 0 else (rel.map Prod.fst).count id) +
          (s.net.conns c).queue.count id := by
      unfold Conn.queue
      simp only
      split
      · rfl
      · simp only [List.map_append, List.count_append]
        omega
    have := htok id
    rw [hr] at hold
    rw [hqueue] at hle
    refine (h.tally id).update c ?_
    rw [hpend, List.map_append, List.count_append]
    simp only at hle ⊢
    omega
  · rcases List.mem_append.mp hd with hd | hd
    · exact .inr (hmono (hdebt d hd))
    · exact .inl hd
  · have hmem : a ∈ (s.net.conns c).unhandled := by
      rw [Conn.unhandled_eq (by rw [hr]; exact hne), hr]
      rcases Conn.mem_unhandled ha with ha | ha
      · exact List.mem_append_left _ (Option.mem_toList.mpr (hack a ha))
      · exact List.mem_append_right _ ha
    obtain ⟨hle, hs⟩ := hc.stamp a hmem
    refine ⟨hle.trans (by simp), ?_⟩
    rw [oldest_append hle]
    exact hs.follows (hf.continues.entry _)
  · rcases List.mem_append.mp hid with hid | hid
    · exact hmono (hacc id hid)
    · unfold Conn.pubrels at hid
      simp only at hid
      split at hid
      · cases hid
      · rename_i hopen
        simp only [List.map_append, List.mem_append] at hid
        have hold : ∀ i ∈ (s.net.conns c).relIDs.map Prod.fst ++
            (s.net.conns c).draining.map Prod.fst, i ∈ (s.net.conns c).pubrels := by
          intro i hi
          unfold Conn.pubrels
          rw [if_neg hopen, List.append_assoc]
          exact List.mem_append_right _ hi
        have hrel' := hrel (by simpa using hopen)
        rcases hid with (hid | hid | hid) | hid
        · exact hmono (hrel' id (List.mem_append_left _ hid))
        · exact hmono (hc.pubrel id (List.mem_append_right _
            (hold id (List.mem_append_left _ hid))))
        · exact hmono (hrel' id (List.mem_append_right _ hid))
        · exact hmono (hc.pubrel id (List.mem_append_right _
            (hold id (List.mem_append_right _ hid))))
  · exact (h.serving c hcur).fades hf evs

omit [DecidableEq κ] in
/-- An acknowledgement in hand is no later than what is in flight under its identifier. -/
theorem Link.Ok.handled (ha : r.handled = some a) : a.stamp ≤ s.net.log.length ∧
      Sent s.net.sess (oldest a.stamp s.net.log) a.id := by
  refine (h.conn c).stamp a ?_
  rw [Conn.unhandled_eq (by rw [hr]; exact hne), hr, ha]
  exact List.mem_cons_self

/-- The acknowledgement in hand has ended a record of its identifier. -/
theorem settle_ok (ha : r.handled = some a) (hr' : r' = .releasing ∨ r' = .idle ∨ r' = .ended)
    (hd : s.net.sess.Drops sess a.id)
    (hans : ∀ c a msg, .completed c a msg ∈ evs → a.stamp ≤ s.net.log.length ∧
      (a.id, msg) ∈ published (oldest a.stamp s.net.log)) :
    (s.reads c sess q r' [] evs []).Ok := by
  have hquiet : r' ≠ .offline ∧ r'.handled = none ∧ r'.accepted = [] ∧ r'.pubrel = [] := by
    rcases hr' with rfl | rfl | rfl <;> exact ⟨by simp, rfl, rfl, rfl⟩
  obtain ⟨hoff, hhand, hacc, hpub⟩ := hquiet
  refine reader_ok h hr hne hoff hd.toFades (fun j o' ho' haw => .inl (hd.stage j o' ho' haw))
    (fun id => ?_) (fun a' ha' => ?_) (by simp [hacc]) (by simp [hpub]) (by simp) hans
  · have hdrop := hd.drop id
    have htok : (if id = a.id then 1 else 0) ≤ r.tokens (s.net.conns c).closed id := by
      unfold Reader.tokens
      rw [ha]
      split
      · rename_i hid
        have : ((some a).toList.map Ack.id).count id = 1 := by simp [hid]
        omega
      · exact Nat.zero_le _
    have hzero : r'.tokens (s.net.conns c).closed id = 0 := by
      simp [Reader.tokens, hhand, hacc, hpub]
    simp only [List.map_nil, List.count_nil, ite_self, hzero]
    omega
  · rw [hhand] at ha'
    cases ha'

/-- What is in hand goes on, or is given up. -/
theorem pass_ok (hoff : r' ≠ .offline)
    (htok : ∀ id, r'.tokens (s.net.conns c).closed id ≤ r.tokens (s.net.conns c).closed id)
    (hack : ∀ a ∈ r'.handled, a ∈ r.handled)
    (hrel : ∀ id ∈ r'.accepted ++ r'.pubrel, Sent s.net.sess s.net.log id) :
    (s.reads c s.net.sess q r' [] [] []).Ok := by
  refine reader_ok h hr hne hoff (Session.Drops.refl _ 0).toFades
    (fun j o' ho' haw => .inl ⟨o', ho', haw⟩) (fun id => ?_) hack
    (fun id hid => hrel id (List.mem_append_left _ hid)) (fun _ id hid => hrel id ?_) (by simp)
    nofun
  · have := htok id
    simp only [List.map_nil, List.count_nil, ite_self]
    omega
  · exact List.mem_append_right _ (by simpa using hid)

/-- A PUBREL goes out. -/
theorem pubrel_ok {x : Option Nat} (hopen : (s.net.conns c).closed = false)
    (hpub : r.pubrel = [id]) (hf : s.net.sess.Fades sess)
    (hmem : ∀ j, sess.memory j = s.net.sess.memory j) (hstage : s.net.sess.SameStage sess) :
    (s.reads c sess q .idle [] [.pubrel c id x] [⟨id, true⟩]).Ok := by
  have hs : Sent s.net.sess s.net.log id := by
    refine (h.conn c).pubrel id (List.mem_append_right _ ?_)
    unfold Conn.pubrels
    rw [hopen, hr, hpub]
    exact List.mem_cons_self
  refine reader_ok h hr hne (by simp) hf (fun j o' ho' haw => .inl (hstage j o' ho' haw))
    (fun j => ?_) nofun nofun nofun
    (fun d hd => ?_) (fun d a msg hm => by cases List.mem_singleton.mp hm)
  · have hnew : (.idle : Reader κ).tokens (s.net.conns c).closed j = 0 := by
      rw [hopen]
      rfl
    have hold : [id].count j ≤ r.tokens (s.net.conns c).closed j := by
      unfold Reader.tokens
      rw [hopen, hpub]
      simp only [Bool.false_eq_true, if_false]
      omega
    have := hmem j
    simp only [hnew, List.map_cons, List.map_nil, List.count_nil, ite_self]
    omega
  · obtain rfl := List.mem_singleton.mp hd
    exact hs

end Hand

theorem handle_ok {queue : Bool} (h : s.Ok) (hr : (s.net.conns c).reader = r)
    (hh : Handles c s.net.sess (s.net.conns c).closed queue r sess r' evs rel) :
    (s.reads c sess q r' rel evs (evs.filterMap Event.debt)).Ok := by
  have hc := h.conn c
  cases hh with
  | complete _ _ a _ done hra hr' hcomp =>
    have hd := drops_completeInflight s.net.sess c a.id
    rw [hcomp] at hd
    have hhand : r ≠ .ended ∧ r.handled = some a := by
      rcases hra with rfl | rfl | rfl <;> exact ⟨by simp, rfl⟩
    refine settle_ok h hr hhand.1 hhand.2 hr' hd fun d b msg hmem => ?_
    cases List.mem_singleton.mp hmem
    obtain ⟨hle, hs⟩ := h.handled hr hhand.1 hhand.2
    obtain ⟨o, ho, hmsg, -⟩ := completeInflight_spec hcomp
    rw [hmsg]
    exact ⟨hle, hs o ho⟩
  | withdrawn a _ w _ hr' hw =>
    exact settle_ok h hr (by simp) rfl (hr'.imp_right .inl) (drops_forgetWithdrawn hw) nofun
  | resent a _ quota _ hr' hw =>
    exact settle_ok h hr (by simp) rfl (hr'.imp_right .inl) (drops_forgetResent hw) nofun
  | pubrecUnknown a =>
    obtain ⟨-, hs⟩ := h.handled hr (by simp) rfl
    refine pass_ok h hr (by simp) (by simp) (fun id => ?_) nofun fun id hid => ?_
    · unfold Reader.tokens
      split <;> simp [Reader.handled, Reader.accepted, Reader.pubrel]
    · obtain rfl := List.mem_singleton.mp hid
      exact hs.of_oldest
  | pubrec a o _ ho hr' =>
    obtain ⟨-, hs⟩ := h.handled hr (by simp) rfl
    rcases hr' with rfl | rfl | rfl
    · exact pass_ok h hr (by simp) (by simp) (fun _ => le_rfl) (fun _ ha => ha) nofun
    · exact pass_ok h hr (by simp) (by simp) (fun _ => le_rfl) (fun _ ha => ha) nofun
    · have hid := packetID_of_inflightEntry ho
      refine pass_ok h hr (by simp) (by simp) (fun id => ?_) nofun fun id hmem => ?_
      · simp [Reader.tokens, Reader.handled, Reader.accepted, Reader.pubrel, hid]
      · have : id = a.id := by simpa [Reader.accepted, Reader.pubrel, hid] using hmem
        rw [this]
        exact hs.of_oldest
  | awaitPubcomp o =>
    have hid : ∀ o : Entry κ, o.awaitPubcomp.packetID = o.packetID := fun _ => rfl
    have hmod : s.net.sess.Fades (s.net.sess.awaitPubcomp o.packetID) ∧ ∀ j,
        (s.net.sess.awaitPubcomp o.packetID).memory j = s.net.sess.memory j :=
      fades_modify hid fun _ => ⟨rfl, rfl, fun _ => rfl⟩
    have hs : Sent s.net.sess s.net.log o.packetID :=
      hc.pubrel _ (List.mem_append_left _ (by rw [hr]; exact List.mem_cons_self))
    refine reader_ok h hr (by simp) (by simp) hmod.1 (fun j o' ho' haw => ?_) (fun j => ?_)
      nofun nofun (fun _ j hj => ?_) nofun nofun
    · by_cases hj : j = o.packetID
      · subst hj
        exact .inr hs
      · exact .inl ⟨o', (inflightEntry_modify_of_ne hid hj).symm.trans ho', haw⟩
    · have := hmod.2 j
      simp only [Reader.tokens, Reader.handled, Reader.accepted, Reader.pubrel, List.map_nil,
        List.count_nil, List.filterMap_nil, ite_self, Option.toList_none]
      split <;> omega
    · obtain rfl := List.mem_singleton.mp hj
      exact hs
  | queuePubrel id seq =>
    refine reader_ok h hr (by simp) (by simp) (Session.Drops.refl _ 0).toFades
      (fun j o' ho' haw => .inl ⟨o', ho', haw⟩) (fun j => ?_) nofun nofun (fun hopen j hj => ?_)
      nofun nofun
    · simp only [Reader.tokens, Reader.handled, Reader.accepted, Reader.pubrel, List.map_cons,
        List.map_nil, List.count_nil, List.filterMap_nil, Option.toList_none]
      split <;> omega
    · obtain rfl := List.mem_singleton.mp hj
      refine hc.pubrel _ (List.mem_append_right _ ?_)
      unfold Conn.pubrels
      rw [hopen, hr]
      exact List.mem_cons_self
  | pubrel id seq hq hopen =>
    have hmod : s.net.sess.Fades (s.net.sess.settleOwned id) ∧ ∀ j,
        (s.net.sess.settleOwned id).memory j = s.net.sess.memory j :=
      fades_modify (fun _ => rfl) fun _ => ⟨rfl, rfl, fun h => h⟩
    exact pubrel_ok h hr (by simp) hopen rfl hmod.1 hmod.2 (sameStage_settleOwned _ id)
  | pubrelNotFound id hopen =>
    exact pubrel_ok h hr (by simp) hopen rfl (Session.Drops.refl _ 0).toFades (fun _ => rfl)
      (Session.Drops.refl _ 0).stage
  | unknown a | notWithdrawn a | released =>
    exact pass_ok h hr (by simp) (by simp) (fun _ => le_rfl) (fun _ ha => ha) nofun
  | giveUp _ _ hne hr' =>
    rcases hr' with rfl | rfl
    · exact pass_ok h hr hne.2 (by simp) (by simp [Reader.tokens, Reader.handled,
        Reader.accepted, Reader.pubrel]) nofun nofun
    · exact pass_ok h hr hne.2 (by simp) (by simp [Reader.tokens, Reader.handled,
        Reader.accepted, Reader.pubrel]) nofun nofun

end Reader

end Natsmqtt5.Outbound
