import Natsmqtt5.Outbound.Serving

/-!
# An acknowledgement never completes another message

Every step of the session and its client keeps the ledger of acknowledgements, as long as the
session forgets no identifier that something is due for (`Settled`). The delivery goroutine of a
displaced connection may take any step but a late claim, hand-out or write, and one that ends what
is due elsewhere.

Results:
* `acknowledged_received`: then every acknowledgement that removes an entry was sent by a client
  that had received its message, and an identifier `nextID` hands out is one nothing is due for.
* `forgotten_acknowledgement`: a restore from a record without the entry hands its identifier out
  again, and the acknowledgement of the old message completes the new one.
* `due_handed_out`: so do the other three ways to forget.
-/

namespace Natsmqtt5.Outbound

open Function

variable {κ : Type}

/-! ## Steps -/

section Steps

variable [DecidableEq κ] {s t : Link κ} {c : κ} {k : Conn κ} {b : Bool} {q p : Nat}
  {sess : Session κ} {owes : List Debt} {id : PacketID} {d : Debt}

/-- A step on `c` that leaves the session and the delivery goroutine alone. -/
theorem Link.Ok.setConn (evs : List (Event κ)) {debts : List Debt} (h : s.Ok)
    (hacks : ∀ id, (debts.map Debt.id).count id + k.acks.count id ≤
      (s.net.conns c).acks.count id + (s.owes.map Debt.id).count id)
    (hdebts : ∀ d ∈ debts, d ∈ s.owes ∨ Sent s.net.sess (evs ++ s.net.log) d.id)
    (howed : ConnOwed s.net.sess (evs ++ s.net.log) k) (hd : k.delivery = (s.net.conns c).delivery)
    (hevs : ∀ e ∈ evs, ∀ c a msg, e ≠ .completed c a msg) :
    (⟨⟨s.net.sess, update s.net.conns c k, evs ++ s.net.log⟩, debts⟩ : Link κ).Ok := by
  have hf := (Session.Drops.refl s.net.sess 0).toFades
  refine h.change ⟨fun j o ho => .inr ⟨o, ho, .refl o⟩,
    fun j o ho haw => .inl ⟨o, ho, .refl o, haw⟩, rfl, h.keys, fun _ => hf, fun id => ?_, hdebts,
    howed, fun hcur => ?_, fun _ _ _ hmem => absurd rfl (hevs _ hmem _ _ _)⟩
  · have hpend : s.net.pendingWith c k = s.net.pending := by
      unfold State.pendingWith
      split
      · rename_i hcur
        rw [hd, pending_current hcur rfl]
      · rfl
    rw [hpend]
    refine (h.tally id).update c ?_
    have := hacks id
    omega
  · rw [hd]
    exact (h.serving c hcur).fades hf evs

omit [DecidableEq κ] in
theorem Conn.pubrels_close (hb : k.closed = true → b = true) :
    ({ k with closed := b, quota := q, pulled := p } : Conn κ).pubrels.Sublist k.pubrels := by
  unfold Conn.pubrels
  simp only
  split
  · exact List.nil_sublist _
  · rename_i hopen
    rw [if_neg fun hc => hopen (hb hc)]

theorem adjust_ok (h : s.Ok) (hb : (s.net.conns c).closed = true → b = true) :
    (⟨⟨s.net.sess, update s.net.conns c
      { s.net.conns c with closed := b, quota := q, pulled := p }, s.net.log⟩, s.owes⟩ :
      Link κ).Ok := by
  have hc := h.conn c
  have hsub := Conn.pubrels_close (q := q) (p := p) hb
  have hacks : ({ s.net.conns c with closed := b, quota := q, pulled := p } : Conn κ).acks.Sublist
      (s.net.conns c).acks := List.Sublist.append (.refl _) hsub
  refine Link.Ok.setConn [] h (fun id => ?_) (fun d hd => .inl hd) ⟨hc.stamp,
    fun id hid => hc.pubrel id ?_, hc.offline⟩ rfl nofun
  · have := hacks.count_le id
    omega
  · exact (List.Sublist.append (.refl _) hsub).subset hid

/-- A step followed by a change of what is closed and counted. -/
theorem adjusted_ok {log : List (Event κ)}
    (h : (⟨⟨sess, update s.net.conns c k, log⟩, owes⟩ : Link κ).Ok)
    (hb : k.closed = true → b = true) :
    (⟨⟨sess, update s.net.conns c { k with closed := b, quota := q, pulled := p }, log⟩,
      owes⟩ : Link κ).Ok := by
  have := adjust_ok (c := c) (b := b) (q := q) (p := p) h (by simpa using hb)
  simpa only [update_self, update_idem] using this

theorem unacknowledged_ok (h : s.Ok) (hd : (s.net.conns c).delivery = .waiting)
    (hr : (s.net.conns c).reader ≠ .offline) :
    (⟨⟨s.net.sess, update s.net.conns c
      { s.net.conns c with delivery := .resending s.net.sess.inflight }, s.net.log⟩, s.owes⟩ :
      Link κ).Ok := by
  have hrefl := Session.Drops.refl s.net.sess 0
  by_cases hcur : s.net.sess.conn = some c
  · have hs := h.serving c hcur
    exact deliver_quiet ⟨h, hcur, hr, hd⟩ (fun _ => le_rfl) ⟨nofun, nofun, nofun, h.keys,
      fun id _ => hs.waiting hd id, nofun⟩
  · exact late_fades h hcur hr hrefl.toFades hrefl.stage fun _ => .inl le_rfl

omit [DecidableEq κ] in
theorem withdraw_ok (h : s.Ok) (hw : s.net.sess.withdraw id = some sess) :
    (⟨⟨sess, s.net.conns, s.net.log⟩, s.owes⟩ : Link κ).Ok := by
  have hdrop := drops_withdraw hw
  have hf := hdrop.toFades
  have hmem : ∀ j, s.net.sess.memory j ≤ sess.memory j := by
    intro j
    obtain ⟨o, ho, -, hon, -, hrec, hres⟩ := withdraw_spec hw
    by_cases hj : j = id
    · subst hj
      have := memory_le s.net.sess j
      unfold Session.memory at this ⊢
      rw [busy_of_withdrawn hrec, hres]
      exact this
    · exact (memory_of_only hon hj).ge
  have hpend : (⟨sess, s.net.conns, s.net.log⟩ : State κ).pending = s.net.pending := by
    unfold State.pending
    simp only [hf.conn]
  refine ⟨fun j => ?_, fun d hd => (h.owes d hd).follows (hf.continues.entry _),
    fun d => .change h (fun j o' ho' => .inr (hf.continues.entry j o' ho')) [],
    fun d hd => (h.serving d (hf.conn ▸ hd)).fades hf [], fun j o' ho' haw => ?_,
    h.keys.sublist hf.keys, h.answered⟩
  · simp only
    rw [hpend]
    exact fun A => (h.tally j A).trans (hmem j)
  · obtain ⟨o, ho, hfol, hoaw⟩ := hf.staged hdrop.stage j o' ho' haw
    rw [hfol.msg]
    exact h.awaiting j o ho hoaw

omit [DecidableEq κ] in
theorem Link.count_due (s : Link κ) (A : Finset κ) (id : PacketID) : (s.due A).count id =
    ∑ c ∈ A, (s.net.conns c).acks.count id + (s.owes.map Debt.id).count id := by
  unfold Link.due
  rw [Multiset.count_add, Multiset.count_sum', Multiset.coe_count, Nat.add_comm]
  simp only [Multiset.coe_count]

theorem attach_ok {n : Nat} (h : s.Ok) (hoff : (s.net.conns c).reader = .offline)
    (hkept : ∀ A, (s.due A).Nodup ∧ ∀ id ∈ s.due A, (s.net.sess.attach c).busy id = true) :
    (⟨⟨s.net.sess.attach c, update s.net.conns c
      { s.net.conns c with clientReceiveMax := n, reader := .idle }, s.net.log⟩, s.owes⟩ :
      Link κ).Ok := by
  obtain ⟨hin, hrel, hdr, hdel⟩ := (h.conn c).offline hoff
  have hcont := continues_attach s.net.sess c
  have hnew : ∀ (k : Conn κ), k.inbox = [] → k.relIDs = [] → k.draining = [] →
      k.reader = .offline ∨ k.reader = .idle → k.unhandled = [] ∧ k.acks = [] ∧
        k.reader.accepted ++ k.pubrels = [] := by
    intro k h1 h2 h3 h4
    have : k.pubrels = k.reader.pubrel := by
      unfold Conn.pubrels
      rcases h4 with h4 | h4 <;> simp [h2, h3, h4, Reader.pubrel]
    unfold Conn.acks Conn.unhandled
    rw [this]
    rcases h4 with h4 | h4 <;> simp [h1, h4, Reader.handled, Reader.accepted, Reader.pubrel]
  have hold := hnew (s.net.conns c) hin hrel hdr (.inl hoff)
  have hk := hnew { s.net.conns c with clientReceiveMax := n, reader := .idle } hin hrel hdr
      (.inr rfl)
  refine ⟨fun id => ?_, fun d hd => (h.owes d hd).follows (hcont.entry _), fun d => ?_,
    fun d hd => ?_, fun j o' ho' haw => ?_, ?_, h.answered⟩
  · have hf : (fun d => (update s.net.conns c
        { s.net.conns c with clientReceiveMax := n, reader := .idle } d).acks.count id) =
        fun d => (s.net.conns d).acks.count id := by
      funext d
      by_cases hdc : d = c
      · subst hdc
        rw [update_self, hk.2.1, hold.2.1]
      · rw [update_of_ne hdc]
    have hpend : (⟨s.net.sess.attach c, update s.net.conns c
        { s.net.conns c with clientReceiveMax := n, reader := .idle }, s.net.log⟩ :
        State κ).pending = [] := by
      simp only [State.pending, Session.attach, Session.forgetStaleWithdrawals,
        update_self,
        hdel, Delivery.due]
    simp only
    rw [hpend, hf]
    intro A
    obtain ⟨hnd, hbusy⟩ := hkept A
    have hcount := s.count_due A id
    rw [List.count_nil, Nat.add_zero, ← hcount]
    by_cases hid : id ∈ s.due A
    · have hle := Multiset.nodup_iff_count_le_one.mp hnd id
      unfold Session.memory
      rw [hbusy id hid]
      exact hle.trans (Nat.le_add_right _ _)
    · rw [Multiset.count_eq_zero.mpr hid]
      exact Nat.zero_le _
  · by_cases hdc : d = c
    · subst hdc
      simp only [update_self]
      refine ⟨fun a ha => ?_, fun id hid => ?_, fun hoff => ?_⟩
      · rw [hk.1] at ha
        cases ha
      · rw [hk.2.2] at hid
        cases hid
      · cases hoff
    · simp only [update_of_ne hdc]
      exact .change h (fun j o' ho' => .inr (hcont.entry j o' ho')) []
  · obtain rfl : c = d := Option.some.inj hd
    simp only [update_self, hdel]
    refine ⟨fun o held todo heq => ?_, fun o ho => ?_, fun id ready heq => ?_, List.nodup_nil,
      fun id hid => ?_, fun _ _ => rfl⟩
    · cases heq
    · cases ho
    · cases heq
    · cases hid
  · simp only at ho'
    rw [inflightEntry_attach] at ho'
    obtain ⟨o, ho, rfl⟩ := Option.map_eq_some_iff.mp ho'
    exact h.awaiting j o ho haw
  · have : (s.net.sess.attach c).inflight.map Entry.packetID =
        s.net.sess.inflight.map Entry.packetID := by
      simp only [Session.attach, Session.forgetStaleWithdrawals, List.map_map]
      rfl
    simp only
    rw [this]
    exact h.keys

omit [DecidableEq κ] in
/-- A restored session has the entries of the record, and serves no connection. -/
theorem restored_spec (n : Nat) (inflight : List (Entry κ)) (ws : List (PacketID × AckType × Nat)) :
    (restored n inflight ws).conn = none ∧
      ((restored n inflight ws).inflight.map Entry.packetID).Nodup ∧
      ∀ j o, (restored n inflight ws).inflightEntry j = some o →
        ∃ p ∈ inflight, p.packetID = j ∧ p.msg = o.msg ∧ p.awaitingPubcomp = o.awaitingPubcomp := by
  obtain ⟨hnil, -, hconn⟩ :=
    foldl_restoreWithdrawn { sendSeq := n, attaches := if ws = [] then 0 else 2 } ws
  refine List.foldlRecOn (motive := fun s : Session κ => s.conn = none ∧
    (s.inflight.map Entry.packetID).Nodup ∧ ∀ j o, s.inflightEntry j = some o → ∃ p ∈ inflight,
      p.packetID = j ∧ p.msg = o.msg ∧ p.awaitingPubcomp = o.awaitingPubcomp) inflight _
    ⟨hconn, ?_, fun j o ho => ?_⟩ fun s hs p hp => ?_
  · rw [hnil]
    exact List.nodup_nil
  · unfold Session.inflightEntry at ho
    rw [hnil] at ho
    cases ho
  · unfold Session.restoreInflight
    split
    · exact hs
    · refine ⟨hs.1, Keyed.nodup_put _ hs.2.1, fun j o ho => ?_⟩
      by_cases hj : j = p.packetID
      · subst hj
        have := (inflightEntry_track_self (s := s)).symm.trans ho
        cases this
        exact ⟨p, hp, rfl, rfl, rfl⟩
      · rw [inflightEntry_track_of_ne (by exact hj)] at ho
        exact hs.2.2 j o ho

omit [DecidableEq κ] in
theorem restore_ok {inflight : List (Entry κ)} {ws : List (PacketID × AckType × Nat)} (h : s.Ok)
    (hkept : s.Kept (.restore inflight ws)) :
    (⟨⟨restored s.net.sess.sendSeq inflight ws, fun c => (s.net.conns c).kill, s.net.log⟩,
      s.owes⟩ : Link κ).Ok := by
  obtain ⟨hnd, hbusy, hpub⟩ := hkept
  obtain ⟨hconn, hkeys, hrec⟩ := restored_spec s.net.sess.sendSeq inflight ws
  have hkill : ∀ c, (s.net.conns c).kill.unhandled = [] ∧ (s.net.conns c).kill.acks = [] ∧
      (s.net.conns c).kill.reader.accepted ++ (s.net.conns c).kill.pubrels = [] := by
    intro c
    unfold Conn.kill
    split
    · rename_i hoff
      obtain ⟨h1, h2, h3, -⟩ := (h.conn c).offline hoff
      have hp : (s.net.conns c).pubrels = [] := by
        simp [Conn.pubrels, h2, h3, hoff, Reader.pubrel]
      simp [Conn.acks, Conn.unhandled, h1, hp, hoff, Reader.handled, Reader.accepted]
    · exact ⟨rfl, rfl, rfl⟩
  refine ⟨fun id => tally_of_zero (fun c => ?_) ?_, fun d hd o ho => ?_, fun c => ⟨fun a ha => ?_,
    fun id hid => ?_, fun hoff => ?_⟩, fun c hc => ?_, fun id o ho haw => ?_, hkeys, h.answered⟩
  · simp only [(hkill c).2.1, List.count_nil]
  · have hpend : (⟨restored s.net.sess.sendSeq inflight ws, fun c => (s.net.conns c).kill,
        s.net.log⟩ : State κ).pending = [] := by
      simp only [State.pending, hconn]
    simp only
    rw [hpend, List.count_nil, Nat.add_zero]
    by_cases hid : id ∈ s.owes.map Debt.id
    · obtain ⟨d, hd, rfl⟩ := List.mem_map.mp hid
      unfold Session.memory
      rw [hbusy d hd]
      exact (List.nodup_iff_count_le_one.mp hnd d.id).trans (Nat.le_add_right _ _)
    · rw [List.count_eq_zero.mpr hid]
      exact Nat.zero_le _
  · obtain ⟨p, hp, hid, hmsg, -⟩ := hrec d.id o ho
    rw [← hmsg, ← hid]
    exact hpub p hp (.inr (hid ▸ List.mem_map_of_mem hd))
  · simp only [(hkill c).1] at ha
    cases ha
  · simp only [(hkill c).2.2] at hid
    cases hid
  · have hr : (s.net.conns c).reader = .offline := by
      simp only [Conn.kill] at hoff
      split at hoff
      · assumption
      · cases hoff
    have hk : (s.net.conns c).kill = s.net.conns c := by
      unfold Conn.kill
      rw [hr]
    simp only [hk]
    exact (h.conn c).offline hr
  · simp only [hconn] at hc
    cases hc
  · obtain ⟨p, hp, hid, hmsg, haw'⟩ := hrec id o ho
    rw [← hmsg, ← hid]
    exact hpub p hp (.inl (haw'.trans haw))

omit [DecidableEq κ] in
/-- The client answers, or never will: it owes one acknowledgement less. -/
theorem count_owes_erase (hd : d ∈ owes) (id : PacketID) :
    ((owes.erase d).map Debt.id).count id + [d.id].count id = (owes.map Debt.id).count id := by
  have hperm := ((List.perm_cons_erase hd).map Debt.id).count_eq id
  rw [hperm]
  simp only [List.map_cons, List.count_cons, List.count_nil]
  omega

theorem send_ok (h : s.Ok) (hd : debtOf a ∈ s.owes) (hon : (s.net.conns c).reader ≠ .offline) :
    (⟨⟨s.net.sess, update s.net.conns c { s.net.conns c with
      inbox := (s.net.conns c).inbox ++ [{ a with stamp := s.net.log.length }] },
      .sent c { a with stamp := s.net.log.length } :: s.net.log⟩, s.owes.erase (debtOf a)⟩ :
      Link κ).Ok := by
  have hc := h.conn c
  have hs : Sent s.net.sess s.net.log a.id := h.owes (debtOf a) hd
  refine Link.Ok.setConn [.sent c { a with stamp := s.net.log.length }] h (fun id => ?_)
    (fun d hd => .inl (List.mem_of_mem_erase hd)) ⟨fun b hb => ?_,
      fun id hid => (hc.pubrel id hid).append _, fun hoff => absurd hoff hon⟩ rfl (fun e he => ?_)
  · have herase := count_owes_erase hd id
    have hle : ({ s.net.conns c with
        inbox := (s.net.conns c).inbox ++ [{ a with stamp := s.net.log.length }] } :
        Conn κ).acks.count id ≤ (s.net.conns c).acks.count id + [a.id].count id := by
      unfold Conn.acks Conn.unhandled
      simp only
      split
      · exact Nat.le_add_right _ _
      · simp only [List.map_append, List.count_append, List.map_cons, List.map_nil]
        have : ({ s.net.conns c with
            inbox := (s.net.conns c).inbox ++ [{ a with stamp := s.net.log.length }] } :
            Conn κ).pubrels = (s.net.conns c).pubrels := rfl
        rw [this]
        omega
    have hid : (debtOf a).id = a.id := rfl
    rw [hid] at herase
    omega
  · have hcase : b ∈ (s.net.conns c).unhandled ∨ b = { a with stamp := s.net.log.length } := by
      unfold Conn.unhandled at hb ⊢
      simp only at hb
      split at hb
      · cases hb
      · rename_i hr
        rcases List.mem_append.mp hb with hb | hb
        · exact .inl (List.mem_append_left _ hb)
        · rcases List.mem_append.mp hb with hb | hb
          · exact .inl (List.mem_append_right _ hb)
          · exact .inr (List.mem_singleton.mp hb)
    rcases hcase with hb | rfl
    · obtain ⟨hle, hsb⟩ := hc.stamp b hb
      exact ⟨hle.trans (by simp), by rw [oldest_append hle]; exact hsb⟩
    · refine ⟨by simp, ?_⟩
      rw [oldest_append le_rfl, oldest_length]
      exact hs
  · obtain rfl := List.mem_singleton.mp he
    exact fun _ _ _ => nofun

theorem read_ok {a : Ack} {inbox : List Ack} (h : s.Ok) (hr : (s.net.conns c).reader = .idle)
    (hin : (s.net.conns c).inbox = a :: inbox) : (⟨⟨s.net.sess, update s.net.conns c
      { s.net.conns c with inbox := inbox, reader := recv a }, .read c a :: s.net.log⟩, s.owes⟩ :
      Link κ).Ok := by
  have hc := h.conn c
  have hne : (recv a : Reader κ) ≠ .ended ∧ (recv a : Reader κ) ≠ .offline ∧
      (recv a : Reader κ).handled = some a ∧ (recv a : Reader κ).accepted = [] ∧
      (recv a : Reader κ).pubrel = [] := by
    unfold recv
    split <;> exact ⟨by simp, by simp, rfl, rfl, rfl⟩
  obtain ⟨hend, hoff, hhand, hacc, hpub⟩ := hne
  have hun : ({ s.net.conns c with inbox := inbox, reader := recv a } : Conn κ).unhandled =
      (s.net.conns c).unhandled := by
    rw [Conn.unhandled_eq hend, Conn.unhandled_eq (by rw [hr]; simp), hr, hin, hhand]
    rfl
  have hrel : ({ s.net.conns c with inbox := inbox, reader := recv a } : Conn κ).pubrels =
      (s.net.conns c).pubrels := by
    unfold Conn.pubrels
    rw [hr, hpub]
    rfl
  refine Link.Ok.setConn [.read c a] h (fun id => ?_) (fun d hd => .inl hd) ⟨fun b hb => ?_,
    fun id hid => ?_, fun hoff' => absurd hoff' hoff⟩ rfl (fun e he => ?_)
  · have : ({ s.net.conns c with inbox := inbox, reader := recv a } : Conn κ).acks =
        (s.net.conns c).acks := by
      unfold Conn.acks
      rw [hun, hrel, hr, hacc]
      rfl
    rw [this]
    omega
  · rw [hun] at hb
    obtain ⟨hle, hsb⟩ := hc.stamp b hb
    exact ⟨hle.trans (by simp), by rw [oldest_append hle]; exact hsb⟩
  · rw [hrel] at hid
    simp only [hacc, List.nil_append] at hid
    exact (hc.pubrel id (List.mem_append_right _ hid)).append _
  · obtain rfl := List.mem_singleton.mp he
    exact fun _ _ _ => nofun

/-- A step that leaves a connection with some of the PUBRELs it had to write. -/
theorem queue_ok (h : s.Ok) (hr : k.reader = (s.net.conns c).reader)
    (hin : k.inbox = (s.net.conns c).inbox) (hd : k.delivery = (s.net.conns c).delivery)
    (hq : ∀ id, k.pubrels.count id ≤ (s.net.conns c).pubrels.count id)
    (hoff : (s.net.conns c).relIDs = [] → (s.net.conns c).draining = [] →
      k.relIDs = [] ∧ k.draining = []) :
    (⟨⟨s.net.sess, update s.net.conns c k, s.net.log⟩, s.owes⟩ : Link κ).Ok := by
  have hc := h.conn c
  have hun : k.unhandled = (s.net.conns c).unhandled := by
    unfold Conn.unhandled
    rw [hr, hin]
  refine Link.Ok.setConn [] h (fun id => ?_) (fun d hd => .inl hd) ⟨fun a ha => ?_,
    fun id hid => hc.pubrel id ?_, fun hof => ?_⟩ hd nofun
  · have := hq id
    unfold Conn.acks
    rw [hun, hr]
    simp only [List.count_append]
    omega
  · rw [hun] at ha
    exact hc.stamp a ha
  · rw [hr] at hid
    rcases List.mem_append.mp hid with hid | hid
    · exact List.mem_append_left _ hid
    · refine List.mem_append_right _ (List.count_pos_iff.mp ?_)
      exact (List.count_pos_iff.mpr hid).trans_le (hq id)
  · obtain ⟨h1, h2, h3, h4⟩ := hc.offline (hr ▸ hof)
    obtain ⟨h5, h6⟩ := hoff h2 h3
    exact ⟨hin.trans h1, h5, h6, hd.trans h4⟩

theorem writePubrel_ok {x : Nat} {rest : List (PacketID × Nat)} (h : s.Ok)
    (hd : (s.net.conns c).draining = (id, x) :: rest) (hopen : (s.net.conns c).closed = false) :
    (⟨⟨s.net.sess.settleOwned id, update s.net.conns c
      { s.net.conns c with draining := rest }, .pubrel c id (some x) :: s.net.log⟩,
      ⟨id, true⟩ :: s.owes⟩ : Link κ).Ok := by
  have hc := h.conn c
  have hmod : s.net.sess.Fades (s.net.sess.settleOwned id) ∧ ∀ j,
      (s.net.sess.settleOwned id).memory j = s.net.sess.memory j :=
    fades_modify (fun _ => rfl) fun _ => ⟨rfl, rfl, fun h => h⟩
  obtain ⟨hf, hmem⟩ := hmod
  have hent := fun j o' ho' => hf.continues.entry j o' ho'
  have hrels : (s.net.conns c).pubrels = (s.net.conns c).reader.pubrel ++
      (s.net.conns c).relIDs.map Prod.fst ++ id :: rest.map Prod.fst := by
    simp [Conn.pubrels, hopen, hd]
  have hrels' : ({ s.net.conns c with draining := rest } : Conn κ).pubrels =
      (s.net.conns c).reader.pubrel ++ (s.net.conns c).relIDs.map Prod.fst ++
        rest.map Prod.fst := by
    simp [Conn.pubrels, hopen]
  have hsub : ∀ j ∈ ({ s.net.conns c with draining := rest } : Conn κ).pubrels,
      j ∈ (s.net.conns c).pubrels := by
    intro j hj
    rw [hrels'] at hj
    rw [hrels]
    rcases List.mem_append.mp hj with hj | hj
    · exact List.mem_append_left _ hj
    · exact List.mem_append_right _ (List.mem_cons_of_mem _ hj)
  have howed : ConnOwed (s.net.sess.settleOwned id) ([.pubrel c id (some x)] ++ s.net.log)
      (s.net.conns c) := .change h (fun j o' ho' => .inr (hent j o' ho')) _
  suffices hch : Change s c (s.net.sess.settleOwned id) { s.net.conns c with draining := rest }
      [.pubrel c id (some x)] (⟨id, true⟩ :: s.owes) from h.change hch
  refine ⟨fun j o' ho' => .inr (hent j o' ho'), fun j o' ho' haw => ?_, hf.conn,
    h.keys.sublist hf.keys, fun _ => hf, fun j => ?_,
    fun e he => ?_, ⟨howed.stamp, fun j hj => howed.pubrel j ?_, fun hof => ?_⟩,
    fun hcur => (h.serving c hcur).fades hf _, fun d a msg hm => ?_⟩
  · obtain ⟨o, ho, hfol⟩ := hent j o' ho'
    obtain ⟨p, hp, hpaw⟩ := sameStage_settleOwned s.net.sess id j o' ho' haw
    rw [ho] at hp
    cases hp
    exact .inl ⟨o, ho, hfol, hpaw⟩
  · have hpend : s.net.pendingWith c { s.net.conns c with draining := rest } = s.net.pending := by
      unfold State.pendingWith
      split
      · rename_i hcur
        rw [pending_current hcur rfl]
      · rfl
    refine (h.tally j).update c ?_
    have hacks : ({ s.net.conns c with draining := rest } : Conn κ).acks.count j +
        (if (id == j) = true then 1 else 0) = (s.net.conns c).acks.count j := by
      unfold Conn.acks
      rw [hrels, hrels']
      have : ({ s.net.conns c with draining := rest } : Conn κ).unhandled =
          (s.net.conns c).unhandled := rfl
      rw [this]
      simp only [List.count_append, List.count_cons]
      omega
    have := hmem j
    have hhead : ((⟨id, true⟩ : Debt) :: s.owes).map Debt.id = id :: s.owes.map Debt.id := rfl
    rw [hpend, hhead, List.count_cons]
    omega
  · rcases List.mem_cons.mp he with rfl | he
    · refine .inr (howed.pubrel id (List.mem_append_right _ ?_))
      rw [hrels]
      exact List.mem_append_right _ List.mem_cons_self
    · exact .inl he
  · rcases List.mem_append.mp hj with hj | hj
    · exact List.mem_append_left _ hj
    · exact List.mem_append_right _ (hsub j hj)
  · have := (hc.offline hof).2.2.1
    rw [hd] at this
    cases this
  · cases List.mem_singleton.mp hm

omit [DecidableEq κ] in
theorem lose_ok (h : s.Ok) (hd : d ∈ s.owes) : ({ s with owes := s.owes.erase d } : Link κ).Ok := by
  refine { h with tally := fun id A => ?_, owes := fun e he => h.owes e (List.mem_of_mem_erase he) }
  have h1 := count_owes_erase hd id
  have h2 := h.tally id A
  simp only at h2 ⊢
  omega

omit [DecidableEq κ] in
theorem newEvents_append (s : State κ) (sess : Session κ) (conns : κ → Conn κ)
    (evs : List (Event κ)) : newEvents s ⟨sess, conns, evs ++ s.log⟩ = evs := by
  simp [newEvents]

omit [DecidableEq κ] in
theorem newEvents_cons (s : State κ) (sess : Session κ) (conns : κ → Conn κ) (e : Event κ) :
    newEvents s ⟨sess, conns, e :: s.log⟩ = [e] := newEvents_append s sess conns [e]

/-- A step of the broker. -/
theorem net_ok {a : Outbound.Act κ} {t' : State κ} (h : s.Ok) (hok : Settled s (.net a))
    (hsend : ∀ c b, a ≠ .send c b) (ho : Outcome s.net a t') :
    (⟨t', (newEvents s.net t').filterMap Event.debt ++ s.owes⟩ : Link κ).Ok := by
  obtain ⟨hcur, hkept⟩ := hok
  have hsame : ∀ sess conns, newEvents s.net ⟨sess, conns, s.net.log⟩ = [] := fun sess conns =>
    newEvents_append s.net sess conns []
  cases ho with
  | attach c n hr =>
    rw [hsame]
    exact attach_ok h hr hkept
  | restore inflight ws =>
    rw [hsame]
    exact restore_ok h hkept
  | withdraw id sess hw =>
    rw [hsame]
    exact withdraw_ok h hw
  | unacknowledged c hd hr =>
    rw [hsame]
    exact unacknowledged_ok h hd hr
  | adjust c b q p hb =>
    rw [hsame]
    exact adjust_ok h hb
  | deliver c d sess d' evs b q p hd hdel hb =>
    rw [newEvents_append]
    have hc : a.delivers = some c := by
      cases hdel <;> first | rfl | assumption
    by_cases hser : s.net.sess.conn = some c
    · exact adjusted_ok (deliver_ok (q := q) (p := p) h hser hkept hd hdel) hb
    · obtain ⟨ha, hs⟩ := (hcur c hc).resolve_left hser
      exact adjusted_ok (late_ok (q := q) (p := p) h hser ha hs hd hdel) hb
  | send c b => exact absurd rfl (hsend c b)
  | read c a inbox hr hin =>
    rw [newEvents_cons]
    exact read_ok h hr hin
  | handle c queue r sess r' evs rel b q hr hh hb =>
    rw [newEvents_append]
    exact adjusted_ok (p := (s.net.conns c).pulled) (handle_ok (q := q) h hr hh) hb
  | drain c hd =>
    rw [hsame]
    refine queue_ok h rfl rfl rfl (fun id => ?_) fun h1 h2 => ⟨rfl, h1⟩
    unfold Conn.pubrels
    simp only [hd]
    split
    · exact le_rfl
    · simp only [List.map_nil, List.append_nil]
      exact le_rfl
  | dropPubrels c failed =>
    rw [hsame]
    exact queue_ok h rfl rfl rfl (fun id => by simp [Conn.pubrels]) fun h1 _ => ⟨h1, rfl⟩
  | writePubrel c failed id x rest hd hopen =>
    rw [newEvents_cons]
    exact writePubrel_ok h hd hopen

theorem Link.step_ok {a : Link.Act κ} (h : s.Ok) (hok : Outbound.Settled s a)
    (hs : s.step a = some t) : t.Ok := by
  cases a with
  | lose d =>
    simp only [Link.step] at hs
    split at hs <;> cases hs
    rename_i hd
    exact lose_ok h hd
  | net a =>
    by_cases hsend : ∃ c b, a = .send c b
    · obtain ⟨c, b, rfl⟩ := hsend
      simp only [Link.step] at hs
      split at hs <;> cases hs
      rename_i hd
      refine send_ok h hd.1 fun hoff => ?_
      have := hd.2
      simp only [Conn.attached, hoff] at this
      cases this
    · have hstep : s.step (.net a) = (Outbound.step s.net a).map fun t =>
          ⟨t, (newEvents s.net t).filterMap Event.debt ++ s.owes⟩ := by
        cases a <;> first | rfl | exact absurd ⟨_, _, rfl⟩ hsend
      rw [hstep] at hs
      obtain ⟨t', ht', rfl⟩ := Option.map_eq_some_iff.mp hs
      exact net_ok h hok (fun c b heq => hsend ⟨c, b, heq⟩) (step_outcome ht')

omit [DecidableEq κ] in
theorem Link.ok_empty : ({} : Link κ).Ok := by
  refine ⟨fun id => tally_of_zero (fun _ => rfl) le_rfl, nofun, fun c => ⟨nofun, nofun,
    fun _ => ⟨rfl, rfl, rfl, rfl⟩⟩, nofun, nofun, List.nodup_nil, nofun⟩

end Steps

/-- **An acknowledgement never completes another message.** In every run in which the session
forgets no identifier that an acknowledgement is due for, and a displaced connection's delivery
goroutine claims no resend, takes no identifier and writes no packet, each acknowledgement that
removed an entry was sent by a client that had received the entry's message under that identifier,
and nothing is due for an identifier that `nextID` has handed out. -/
theorem acknowledged_received [DecidableEq κ] (s : Link κ)
    (h : Lts.Reach Link.step Settled {} s) :
    Answered s.net.log ∧ ∀ c id ready, s.net.sess.conn = some c →
      (s.net.conns c).delivery = .tracking id ready → ∀ A, id ∉ s.due A := by
  have hok : s.Ok := h.invariant Link.ok_empty fun u a t hu hset hs => Link.step_ok hu hset hs
  refine ⟨fun c a msg hmem => (hok.answered c a msg hmem).2, fun c id ready hc hd A hid => ?_⟩
  have hzero := (hok.serving c hc).tracking id ready hd
  have htally : ∑ c ∈ A, (s.net.conns c).acks.count id +
      ((s.owes.map Debt.id).count id + s.net.pending.count id) ≤ s.net.sess.memory id :=
    hok.tally id A
  have hcount := s.count_due A id
  have hpos := Multiset.count_pos.mpr hid
  omega

/-! ## Runs -/

instance [Fintype κ] [DecidableEq κ] (s : Link κ) (a : Outbound.Act κ) : Decidable (s.Kept a) := by
  unfold Link.Kept
  split <;> infer_instance

instance [Fintype κ] [DecidableEq κ] (s : Link κ) (c : κ) : Decidable (s.Spares c) :=
  inferInstanceAs (Decidable (_ ∧ _))

instance [Fintype κ] [DecidableEq κ] (s : Link κ) (a : Link.Act κ) : Decidable (Settled s a) := by
  unfold Settled
  split <;> infer_instance

/-- A QoS 1 message goes out on a connection that ends and is resent on the next, where the client
answers the original and the copy. The goroutine of the first connection goes on to its loop. -/
def resumedRun : List (Link.Act Lts.Two) :=
  List.map .net [.attach .first 1, .unacknowledged .first, .resend .first, .takeSlot .first,
    .nextID .first,
    .trackInflight .first .qos1 7 false, .recordQoS2 .first false, .sendPrepared .first .sent,
    .close .first, .attach .second 1, .sendPrepared .first .failed, .unacknowledged .second,
    .resend .second, .inflightEntry .second, .takeQuotaSlot .second, .markResentWritten .second,
    .writeResend .second .sent, .send .second { type := .puback, id := 1 }, .read .second,
    .handle .second false]

theorem acknowledged_received_resumed :
    ∃ s : Link Lts.Two, Lts.Reach Link.step Settled {} s ∧ s.due .univ = {1} ∧
      (∃ a, .completed .second a 7 ∈ s.net.log) ∧ Answered s.net.log := by
  obtain ⟨s, hreach, hs⟩ := Lts.reach_of_exec_any Link.step Settled {} resumedRun
    (fun s => decide (s.due .univ = {1}) && s.net.log.any fun e =>
      match e with
      | .completed .second _ 7 => true
      | _ => false) (by decide)
  rw [Bool.and_eq_true, List.any_eq_true] at hs
  obtain ⟨hdue, e, hmem, he⟩ := hs
  split at he
  · exact ⟨s, hreach, of_decide_eq_true hdue, ⟨_, hmem⟩, (acknowledged_received s hreach).1⟩
  · cases he

/-- The broker is killed after a PUBLISH and the session comes back from a record without the entry.
The client acknowledges the PUBLISH on its next connection, whose first message has the same
identifier. -/
def forgottenRun : List (Link.Act Nat) :=
  List.map .net (attachRun 0 1 ++ [.resend 0] ++ deliverRun 0 .qos1 7 ++ [.restore [] []] ++
    attachRun 1 1 ++ [.resend 1, .send 1 { type := .puback, id := 1 }, .takeSlot 1, .nextID 1,
      .trackInflight 1 .qos1 8 false, .read 1, .handle 1 false])

theorem forgotten_acknowledgement :
    ∃ s : Link Nat, Lts.Reach Link.step Lts.free {} s ∧ ¬ Answered s.net.log := by
  obtain ⟨s, hreach, hs⟩ := Lts.reach_of_exec_any Link.step Lts.free {} forgottenRun
    (fun s => s.net.log.any fun e =>
      match e with
      | .completed _ a msg => decide ((a.id, msg) ∉ published (oldest a.stamp s.net.log))
      | _ => false) (by decide)
  obtain ⟨e, hmem, he⟩ := List.any_eq_true.mp hs
  refine ⟨s, hreach, fun hans => ?_⟩
  split at he
  · exact of_decide_eq_true he (hans _ _ _ hmem)
  · cases he

/-! ## Identifiers that are handed out too early -/

/-- The broker restarts after a QoS 1 PUBLISH, and the next connection claims the resend. -/
def claimedRun : List (Act Nat) :=
  attachRun 0 1 ++ [.resend 0] ++ deliverRun 0 .qos1 7 ++
    [.restore [{ packetID := 1, qos := .qos1, msg := 7 }] []] ++ attachRun 1 1 ++ claimRun 1

/-- The copy goes out too, and the client answers one of the two. -/
def overlookedRun : List (Act Nat) :=
  claimedRun ++ [.markResentWritten 1, .writeResend 1 .sent, .resend 1] ++
    ackRun 1 { type := .puback, id := 1 } 2

/-- A third connection resends it again, its attach having dropped the record of the first copy,
and the client answers two of the three. -/
def droppedRun : List (Act Nat) :=
  claimedRun ++ [.markResentWritten 1, .writeResend 1 .sent, .close 1] ++ attachRun 2 1 ++
    claimRun 2 ++ [.markResentWritten 2, .writeResend 2 .sent, .resend 2] ++
    ackRun 2 { type := .puback, id := 1 } 2 ++ ackRun 2 { type := .puback, id := 1 } 3

/-- The message has expired. -/
def expiredRun : List (Act Nat) :=
  claimedRun ++ [.expire 1, .abandonResend 1, .completeInflight 1, .releaseQuota 1, .resend 1]

/-- **An identifier that something is due for is handed out.** After each of the three runs the
client has still to acknowledge identifier 1, and `nextID` returns it. -/
theorem due_handed_out : ∀ run ∈ [overlookedRun, droppedRun, expiredRun],
    ∃ s : Link Nat, Lts.Reach Link.step Lts.free {} s ∧
      s.net.sess.nextID.map Prod.snd = some 1 ∧ ⟨1, false⟩ ∈ s.owes := by
  simp only [List.forall_mem_cons]
  exact ⟨Lts.exists_reach (overlookedRun.map .net) (by decide),
    Lts.exists_reach (droppedRun.map .net) (by decide),
    Lts.exists_reach (expiredRun.map .net) (by decide), nofun⟩

end Natsmqtt5.Outbound
