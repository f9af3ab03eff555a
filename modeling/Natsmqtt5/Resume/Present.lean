import Natsmqtt5.Resume.Invariant

/-!
# Session Present 1 tells the truth

Every step of a broker keeps the invariant of `Resume.Invariant`, so the last filter of the record
is rebuilt by the time the CONNACK is written.

Results:
* `session_present_truth`: in every run whose steps leave a resumption alone, each CONNACK with
  Session Present 1 is for a session that serves exactly the filters of the record its claim read.
* `stale_session_present`: a client that has moved to another broker and changed its filters there,
  and comes back before the first broker was told, is answered Session Present 1 for the filters it
  had before.
-/

namespace Natsmqtt5.Resume

open Function
open Store (Record StoredSubscription Live Kind Claim)

variable {κ : Type}

/-! ## The record, and the end of a session -/

section Writes

variable {s : State κ} {i : SessionID}

theorem storeWrite_inv (h : Inv s) (gen : Nat) (record : Record) (put : Option Record)
    (rev gap : Nat) (hw : (s.session i).write = some (.storing gen record put rev))
    (hput : ∀ r, put = some r → r = record) :
    Inv (storeWrite s i gen record put rev gap) := by
  have hlt : s.bucket.last < s.bucket.nextRev gap := s.bucket.last_lt_nextRev gap
  have hrec := h.sessions i
  have hkept : ∀ w, (∀ w', w = some w' → w'.record = record) →
      Kept { s.session i with write := w } := fun w hwr =>
    (h.kept i).of_eq (fun hs => ⟨hs, rfl⟩)
      (fun hs => ⟨hs, fun w' hw' => ⟨_, hw, hwr w' hw'⟩⟩) (fun _ => rfl) rfl
  have hcommit : ∀ rev', Kept { s.session i with write := some (.committing gen record rev') } :=
    fun rev' => hkept _ fun w' hw' => by cases hw'; rfl
  have hnone : Inv (s.setSession i { s.session i with write := none }) :=
    h.setSession_quiet hrec.noWrite (hkept none nofun) rfl rfl rfl rfl
  unfold storeWrite
  simp only
  split
  · rename_i r
    split
    · rename_i b hb
      obtain ⟨-, rfl⟩ := Kv.Bucket.update_eq_some.mp hb
      have hinv := h.wrote (b := ⟨s.bucket.nextRev gap, some r⟩) hlt
      obtain rfl := hput r rfl
      exact hinv.setSession_quiet ((hinv.sessions i).committing
        (.inl (List.mem_append_right _ List.mem_cons_self))) (hcommit _) rfl rfl rfl rfl
    · exact hnone
  · split
    · rename_i b hb
      obtain ⟨hlast, rfl⟩ := Kv.Bucket.delete_eq_some.mp hb
      have hinv := h.wrote (b := ⟨s.bucket.nextRev gap, none⟩) hlt
      -- the bucket has moved on from the revision deleted
      exact hinv.setSession_quiet ((hinv.sessions i).committing (.inr (hlast ▸ hlt))) (hcommit _)
        rfl rfl rfl rfl
    · exact hnone

theorem commit_inv (h : Inv s) {gen rev : Nat} {record : Record}
    (hw : (s.session i).write = some (.committing gen record rev)) :
    Inv (s.setSession i { s.session i with
      toBound := { (s.session i).toBound.commitRecord gen record rev with write := none }
      saved := if gen = (s.session i).claimGen then (s.session i).saving
        else (s.session i).saved }) := by
  have hrec := h.sessions i
  have hkept := h.kept i
  refine h.setSession_quiet ⟨?_, nofun, nofun⟩ ⟨fun hs r hr => ?_, nofun, fun hs => ?_⟩
    rfl rfl rfl rfl
  rotate_left
  · simp only [Store.Bound.commitRecord] at hs hr
    split at hr <;> rename_i hg
    · cases hr
      exact hkept.write (by simpa only [hg, if_true] using hs) _ hw
    · exact hkept.record (by simpa only [hg, if_false] using hs) r hr
  · dsimp only at hs
    split at hs
    · exact hkept.live (.inr (hs.elim id id))
    · exact hkept.live hs
  unfold Store.Bound.commitRecord
  intro r hr
  split at hr <;> rename_i hg
  · cases hr
    simp only [hg, if_true]
    exact hrec.commits gen record rev hw
  · simp only [hg, if_false]
    exact hrec.record r hr

theorem discard_inv (h : Inv s) {hs : Hs} (b : Broker) (hwait : ¬ s.Waiting hs.sess)
    (hclosed : ∀ c', ∀ p ∈ (s.conns c').place.pending, p.1.sess = hs.sess →
      (s.conns c').closed = true) :
    Inv (if s.registered b = some hs.sess
      then (s.setSession hs.sess (discard (s.session hs.sess))).register b none
      else s.setSession hs.sess (discard (s.session hs.sess))) := by
  have hset : Inv (s.setSession hs.sess (discard (s.session hs.sess))) :=
    h.tearDown hwait fun d h' todo hd => hclosed d (h', todo) hd
  split
  · exact hset.register b nofun
  · exact hset

theorem Inv.seen (h : Inv s) (seen : Broker → Nat) : Inv { s with seen := seen } :=
  { h with
    places c := { h.places c with } }

end Writes

/-! ## The steps of a handshake -/

section Steps

variable {now expiry : Nat} {hs : Hs} {todo : List StoredSubscription} {sess : Option SessionID}

theorem claimForResume_same {sess sess' : Handshake.Session κ}
    (h : Handshake.claimForResume sess now = some sess') :
    sess'.conn = sess.conn ∧ sess'.discarded = sess.discarded := by
  unfold Handshake.claimForResume at h
  split at h
  · cases h
  · split at h <;> cases h <;> exact ⟨rfl, rfl⟩

variable [DecidableEq κ] {s t : State κ} {c : κ} {i : SessionID}

@[simp] theorem close_place (s : State κ) (d c : κ) :
    ((s.close d).conns c).place = (s.conns c).place := by
  by_cases hc : c = d
  · subst hc; simp [State.close, State.setConn]
  · simp [State.close, State.setConn, update_of_ne hc]

@[simp] theorem closeOpt_place (s : State κ) (prev : Option κ) (c : κ) :
    ((s.closeOpt prev).conns c).place = (s.conns c).place := by
  cases prev with
  | none => rfl
  | some d => exact close_place s d c

@[simp] theorem closeOpt_session (s : State κ) (prev : Option κ) :
    (s.closeOpt prev).session = s.session := by
  cases prev <;> rfl

theorem closeOpt_waiting (s : State κ) (prev : Option κ) :
    (s.closeOpt prev).Waiting i ↔ s.Waiting i := by
  unfold State.Waiting
  simp only [closeOpt_place]

/-- Once a session's connection is closed, no open handshake has attached to it. -/
theorem takeOver_closed (h : Inv s)
    (hp : ((takeOver s i).conns c).place.pending = some (hs, todo)) (hi : hs.sess = i) :
    ((takeOver s i).conns c).closed = true := by
  by_contra hopen
  simp only [Bool.not_eq_true] at hopen
  have hinv : Inv (takeOver s i) := h.closeOpt _
  have hconn := ((hinv.places c).pending hs todo hp hopen).1
  rw [hi, takeOver, closeOpt_session] at hconn
  simp [takeOver, hconn, State.closeOpt, State.close, State.setConn] at hopen

/-- A session whose connection was closed may be torn down, unless a handshake waits for it. -/
theorem takeOver_discard (h : Inv s) (hwait : ¬ s.Waiting i) :
    Inv ((takeOver s i).setSession i (discard ((takeOver s i).session i))) := by
  have hinv : Inv (takeOver s i) := h.closeOpt _
  refine hinv.tearDown ?_ fun c hs todo hp hi => takeOver_closed h hp hi
  rwa [takeOver, closeOpt_waiting]

theorem takeOverSession_inv (h : Inv s) (b : Broker) (now : Nat)
    (hok : ∀ i, s.registered b = some i →
      Handshake.claimForResume (s.session i).toSession now = none → ¬ s.Waiting i) :
    Inv (takeOverSession s b now).1 := by
  unfold takeOverSession
  split
  · exact h
  · rename_i i hreg
    simp only
    have hinv : Inv (takeOver s i) := h.closeOpt _
    have hsess : (takeOver s i).session = s.session := closeOpt_session s _
    split
    · rename_i hclaim
      rw [hsess] at hclaim
      exact (takeOver_discard h (hok i hreg hclaim)).register b nofun
    · rename_i sess hclaim
      obtain ⟨hconn, hdis⟩ := claimForResume_same hclaim
      exact hinv.setSession_quiet (hinv.sessions i) ((hinv.kept i).of_eq (fun hs => ⟨hs, rfl⟩)
        (fun hs => ⟨hs, fun w hw => ⟨w, hw, rfl⟩⟩) (fun _ => rfl) hdis) rfl rfl hconn hdis

theorem takeOverSession_next (s : State κ) (b : Broker) (now : Nat) :
    (takeOverSession s b now).1.nextSession = s.nextSession := by
  unfold takeOverSession takeOver State.closeOpt
  split
  · rfl
  · simp only
    split <;> split <;> rfl

theorem takeOverSession_some {b : Broker}
    (h : (takeOverSession s b now).2 = some i) : s.registered b = some i := by
  unfold takeOverSession at h
  split at h
  · cases h
  · rename_i j hreg
    simp only at h
    split at h <;> cases h
    exact hreg

/-- The place after a write that leaves `read` in the bucket. -/
theorem making_inv (h : Inv s) (gap : Nat) (read : Record) (present : Bool)
    (hnames : ∀ i, sess = some i → i < s.nextSession)
    (hread : ∀ i, sess = some i → filters read.subscriptions = (s.session i).allFilters ∧
      (s.session i).discarded = false) :
    Inv ((s.wrote ⟨s.bucket.nextRev gap, some read⟩).goto c
      (.making expiry sess read (s.bucket.nextRev gap) present)) := by
  refine (h.wrote (s.bucket.last_lt_nextRev gap)).setConn ?_
  constructor
  case carries =>
    intro r rev hr
    cases hr
    exact .inl (List.mem_append_right _ List.mem_cons_self)
  case making =>
    intro expiry' i read' rev' present' he
    cases he
    exact (hread i rfl).1
  case awaits => exact nofun
  case pending => exact nofun
  case live => exact fun i hi => (hread i hi).2
  case owes => exact nofun
  case left => exact nofun
  case names => exact hnames

/-- The claim of a record: what is read is the bucket's, and for a session in memory, which is up to
date, it is the session's own. -/
theorem claim_inv (h : Inv s) (q : Claim) (gap : Nat)
    (hp : (s.conns c).place = .claiming expiry sess)
    (hq : ∀ i, sess = some i → s.UpToDate i q.now) : Inv (claim s c q gap expiry sess) := by
  have hnames : ∀ i, sess = some i → i < s.nextSession := fun i hi =>
    (h.places c).names i (by rw [hp]; exact hi)
  unfold claim
  simp only
  split
  · rename_i hnone
    split
    · rename_i b hb
      obtain ⟨-, rfl⟩ := Kv.Bucket.create_eq_some.mp hb
      refine making_inv h gap _ false hnames fun i hi => ?_
      -- an up-to-date session has a record in the bucket
      obtain ⟨r, hget, -⟩ := h.upToDate (hq i hi)
      rw [hnone] at hget
      cases hget
    · exact h
  · rename_i r rev hget
    split
    · split
      · rename_i b hb
        obtain ⟨-, rfl⟩ := Kv.Bucket.update_eq_some.mp hb
        refine making_inv h gap _ true hnames fun i hi => ?_
        obtain ⟨r', hget', -, hfil⟩ := h.upToDate (hq i hi)
        rw [hget] at hget'
        cases hget'
        rw [Store.claimRecord_subscriptions]
        exact ⟨hfil, (h.kept i).live (.inl (hq i hi).2.1)⟩
      · exact h
    · rename_i hres
      split
      · rename_i b hb
        obtain ⟨-, rfl⟩ := Kv.Bucket.delete_eq_some.mp hb
        exact (h.wrote (s.bucket.last_lt_nextRev gap)).setConn (PlaceOk.idle rfl rfl rfl rfl hnames)
      · exact h

theorem recreate_inv (h : Inv s) (q : Claim) (gap : Nat)
    (hp : (s.conns c).place = .recreating expiry sess)
    (hq : ∀ i, sess = some i → s.UpToDate i q.now) : Inv (recreate s c q gap expiry sess) := by
  have hnames : ∀ i, sess = some i → i < s.nextSession := fun i hi =>
    (h.places c).names i (by rw [hp]; exact hi)
  unfold recreate
  simp only
  split
  · rename_i b hb
    obtain ⟨hnone, rfl⟩ := Kv.Bucket.create_eq_some.mp hb
    refine making_inv h gap _ false hnames fun i hi => ?_
    obtain ⟨r, hget, -⟩ := h.upToDate (hq i hi)
    rw [Kv.Bucket.get_eq_some, hnone] at hget
    cases hget.1
  · exact h.setConn (PlaceOk.idle rfl rfl rfl rfl hnames)

theorem newSession_inv (h : Inv s) {rev : Nat} {read : Record}
    {present : Bool} (hp : (s.conns c).place = .making expiry sess read rev present) :
    Inv ((newSession s expiry sess read rev present).1.goto c
      (.binding (newSession s expiry sess read rev present).2)) := by
  have hk := h.places c
  have hcar := hk.carries read rev (by rw [hp]; rfl)
  cases sess with
  | some i =>
    refine h.setConn ?_
    constructor
    case carries => intro r rev' hr; cases hr; exact hcar
    case making => exact nofun
    case awaits =>
      intro h' hh _
      cases hh
      have hall := hk.making expiry i read rev present hp
      refine ⟨hall, ?_, ?_⟩
      · show filters (s.session i).unrestored ⊆ filters read.subscriptions
        rw [hall]
        exact Finset.subset_union_right
      · show filters read.subscriptions ⊆ (s.session i).allFilters
        rw [hall]
    case pending => exact nofun
    case live => intro j hj; cases hj; exact hk.live i (by rw [hp]; rfl)
    case owes => intro h' l hl; cases hl; exact ⟨.inr rfl, nofun⟩
    case left => exact nofun
    case names => intro j hj; cases hj; exact hk.names i (by rw [hp]; rfl)
  | none =>
    -- nobody refers to a session that has just been made
    have hmade : Inv (newSession s expiry none read rev present).1 :=
      { h with
        places := fun c' => by
          have hk' := h.places c'
          have hsame : ∀ j, (s.conns c').place.names = some j →
              update s.session s.nextSession
                { unrestored := if present then read.subscriptions else [] } j = s.session j :=
            fun j hj => update_of_ne (hk'.names j hj).ne _ _
          refine ⟨hk'.carries, ?_, ?_, ?_, ?_, ?_, ?_,
            fun j hj => Nat.lt_succ_of_lt (hk'.names j hj)⟩
          · intro expiry' j read' rev' present' he
            simp only [newSession]
            rw [hsame j (by rw [show (s.conns c').place = _ from he]; rfl)]
            exact hk'.making expiry' j read' rev' present' he
          · intro h' hh hres
            simp only [newSession, hsame h'.sess (Place.names_of_hs hh)]
            exact hk'.awaits h' hh hres
          · intro h' todo hh hopen
            simp only [newSession, hsame h'.sess (Place.names_of_pending hh)]
            exact hk'.pending h' todo hh hopen
          · intro j hj
            simp only [newSession, hsame j (Place.names_of_awaits hj)]
            exact hk'.live j hj
          · intro h' l hl
            simp only [newSession, hsame h'.sess (Place.names_of_owes hl)]
            exact hk'.owes h' l hl
          · intro h' todo hh
            simp only [newSession, hsame h'.sess (Place.names_of_pending hh)]
            exact hk'.left h' todo hh
        sessions := fun j => by
          by_cases hj : j = s.nextSession
          · subst hj
            simp only [newSession, update_self]
            exact ⟨nofun, nofun, nofun⟩
          · simp only [newSession, update_of_ne hj]
            exact h.sessions j
        kept := fun j => by
          by_cases hj : j = s.nextSession
          · subst hj
            simp only [newSession, update_self]
            exact ⟨nofun, nofun, by rintro (h | h) <;> cases h⟩
          · simp only [newSession, update_of_ne hj]
            exact h.kept j
        made := fun b j hj => Nat.lt_succ_of_lt (h.made b j hj) }
    refine hmade.setConn ?_
    constructor
    case carries => intro r rev' hr; cases hr; exact hcar
    case making => exact nofun
    case awaits =>
      intro h' hh hres
      cases hh
      simp only [newSession] at hres ⊢
      subst hres
      simp only [if_true]
      exact ⟨by simp [Session.allFilters], Finset.Subset.refl _, by simp⟩
    case pending => exact nofun
    case live => intro j hj; cases hj; simp [newSession]
    case owes =>
      intro h' l hl
      cases hl
      simp only [newSession, update_self]
      exact ⟨.inr trivial, fun hres => by subst hres; rfl⟩
    case left => exact nofun
    case names => intro j hj; cases hj; exact Nat.lt_succ_self _

theorem bindRecord_inv (h : Inv s) (gen : Nat) (hp : (s.conns c).place = .binding hs) :
    Inv ((s.setSession hs.sess { s.session hs.sess with
      toBound := (s.session hs.sess).toBound.bindRecord hs.read hs.rev
      saved := hs.resumed }).setConn c { s.conns c with gen := gen, place := .naming hs }) := by
  have hk := h.places c
  have hhs : (s.conns c).place.hs = some hs := by rw [hp]; rfl
  have hcar := hk.carries hs.read hs.rev (by rw [hp]; rfl)
  have hlive := hk.live hs.sess (by rw [hp]; rfl)
  have hbound : Inv (s.setSession hs.sess { s.session hs.sess with
      toBound := (s.session hs.sess).toBound.bindRecord hs.read hs.rev
      saved := hs.resumed }) := by
    refine h.setSession_quiet { (h.sessions hs.sess) with record := fun r hr => ?_ }
      ⟨fun hres r hr => ?_, (h.kept hs.sess).write, fun _ => hlive⟩ rfl rfl rfl rfl
    · cases hr
      exact hcar
    · -- a resumption has claimed the record that lists the session's filters
      cases hr
      exact (hk.awaits hs hhs hres).all
  exact hbound.setConn ((hbound.places c).carryOn hhs rfl rfl rfl)

theorem setExpiry_inv (h : Inv s) (hp : (s.conns c).place = .naming hs) :
    Inv ((s.setSession hs.sess { s.session hs.sess with expirySeconds := hs.expiry }).goto c
      (.attaching hs)) := by
  have hset : Inv (s.setSession hs.sess { s.session hs.sess with expirySeconds := hs.expiry }) :=
    h.setSession_quiet (h.sessions hs.sess) { h.kept hs.sess with } rfl rfl rfl rfl
  have hhs : (s.conns c).place.hs = some hs := by rw [hp]; rfl
  exact hset.setConn ((hset.places c).carryOn hhs rfl rfl rfl)

/-- Closing the displaced connection may as well come first. -/
theorem attach_eq (s : State κ) (i : SessionID) (c : κ) :
    attach s i c = (s.closeOpt ((s.session i).conn.filter fun prev => prev ≠ c)).setSession i
      { s.session i with conn := some c, disconnectedAt := 0 } := by
  unfold attach
  cases (s.session i).conn.filter fun prev => prev ≠ c <;> rfl

theorem attach_inv (h : Inv s) (hp : (s.conns c).place = .attaching hs) :
    Inv ((attach s hs.sess c).goto c (.registering hs)) := by
  rw [attach_eq]
  generalize ht : s.closeOpt ((s.session hs.sess).conn.filter fun prev => prev ≠ c) = t
  have hinv : Inv t := ht ▸ h.closeOpt _
  have hsess : t.session = s.session := ht ▸ closeOpt_session s _
  have hplace : (t.conns c).place = .attaching hs := by rw [← ht, closeOpt_place, hp]
  have hok := hinv.sessions hs.sess
  rw [hsess] at hok
  have hset : Inv (t.setSession hs.sess
      { s.session hs.sess with conn := some c, disconnectedAt := 0 }) := by
    have hkept := hinv.kept hs.sess
    rw [hsess] at hkept
    refine hinv.setSession hok { hkept with } (.inr (by rw [hsess])) (fun _ hlive => ?_)
      (fun d h' todo hd _ hl => ⟨fun hdis => ?_, fun hc => ?_⟩) fun d h' todo hd hi hopen => ?_
    · rw [hsess] at hlive ⊢
      exact ⟨⟨rfl, Finset.Subset.refl _⟩, hlive⟩
    · rw [hsess] at hl
      exact hl.covers hdis
    · cases hc
      rw [hplace] at hd
      cases hd
    · -- an open connection that had attached is the one displaced, so it is closed
      exfalso
      have hconn := ((hinv.places d).pending h' todo hd hopen).1
      have hne : d ≠ c := by
        rintro rfl
        rw [hplace] at hd
        cases hd
      rw [hsess, hi] at hconn
      rw [← ht, hconn] at hopen
      simp [Option.filter, hne, State.closeOpt, State.close, State.setConn] at hopen
  have hhs : Place.hs (t.conns c).place = some hs := by rw [hplace]; rfl
  have howes := (hset.places c).owes hs hs.stored (Place.owes_of_hs hhs)
  refine hset.setConn (.attached rfl ((hinv.places c).names hs.sess (by rw [hplace]; rfl))
    (fun h' l hl => by cases hl; exact howes) ⟨fun _ => ?_, fun _ _ => ?_⟩
    fun _ => ⟨by simp [State.setSession], fun hres => ?_⟩)
  · rcases howes.1 with hun | hun
    · rw [hun]
      exact Finset.empty_subset _
    · rw [hun]
      exact Finset.subset_union_right
  · by_cases hres : hs.resumed = true
    · obtain ⟨hall, hstored, -⟩ := (hset.places c).awaits hs hhs hres
      exact hall ▸ hstored
    · rw [howes.2 (by simpa using hres)]
      exact Finset.empty_subset _
  · obtain ⟨hall, hstored, hcovers⟩ := (hset.places c).awaits hs hhs hres
    exact ⟨hall ▸ Finset.subset_union_left, hstored, hcovers⟩

theorem registerSession_inv (h : Inv s) (b : Broker) (hp : (s.conns c).place = .registering hs) :
    Inv ((s.register b (some hs.sess)).goto c
      (if hs.resumed && !hs.stored.isEmpty then .restoring hs hs.stored else .answering hs)) := by
  have hk := h.places c
  have hname : hs.sess < s.nextSession := hk.names hs.sess (by rw [hp]; rfl)
  have hreg : Inv (s.register b (some hs.sess)) := h.register b fun j hj => by cases hj; exact hname
  have hpend := hk.pending hs hs.stored (by rw [hp]; rfl)
  have hleft := hk.left hs hs.stored (by rw [hp]; rfl)
  have howes := hk.owes hs hs.stored (by rw [hp]; rfl)
  refine hreg.setConn ?_
  split
  · exact .attached rfl hname (fun h' l hl => by cases hl; exact howes) hleft hpend
  · rename_i hempty
    -- nothing was to be rebuilt
    have hnil : hs.stored = [] := by
      by_cases hres : hs.resumed = true
      · simpa [hres] using hempty
      · exact howes.2 (by simpa using hres)
    rw [hnil] at hleft hpend howes
    exact .attached rfl hname (fun h' l hl => by cases hl; exact howes) hleft hpend

theorem restore_inv (h : Inv s) {sub : StoredSubscription}
    (hp : (s.conns c).place = .restoring hs (sub :: todo))
    (hconn : (s.session hs.sess).conn = some c) :
    Inv ((s.setSession hs.sess
      { s.session hs.sess with subs := install (s.session hs.sess).subs sub }).goto c
        (.restoring hs todo)) := by
  have hk := h.places c
  have hrec := h.sessions hs.sess
  have hleft := hk.left hs (sub :: todo) (by rw [hp]; rfl)
  have hgrow := filters_subset_install (s.session hs.sess).subs sub
  -- what a live session's connection rebuilds is one of the filters the session has anyway
  have hmem : (s.session hs.sess).discarded = false →
      sub.filter ∈ (s.session hs.sess).allFilters := fun hdis =>
    hleft.listed hconn hdis (by rw [filters_cons]; exact Finset.mem_insert_self _ _)
  have hkept : Kept { s.session hs.sess with subs := install (s.session hs.sess).subs sub } :=
    (h.kept hs.sess).of_eq (fun hs => ⟨hs, rfl⟩) (fun hs => ⟨hs, fun w hw => ⟨w, hw, rfl⟩⟩)
      (fun hdis => allFilters_install (hmem hdis)) rfl
  -- what is rebuilt is one of the record's filters, and it is served from now on
  have hreb : ∀ rest, rest = sub :: todo ∨ rest = todo →
      (s.conns c).closed = false → hs.resumed = true →
      Rebuilds { s.session hs.sess with subs := install (s.session hs.sess).subs sub } hs rest := by
    intro rest hrest hopen hres
    obtain ⟨h1, h2, h3⟩ := (hk.pending hs (sub :: todo) (by rw [hp]; rfl) hopen).2 hres
    rw [filters_cons] at h2 h3
    have hmem : sub.filter ∈ filters hs.read.subscriptions := h2 (Finset.mem_insert_self _ _)
    have htodo : filters todo ⊆ filters hs.read.subscriptions :=
      (Finset.subset_insert _ _).trans h2
    refine ⟨?_, ?_, ?_⟩
    · show filters (install _ _) ⊆ _
      rw [filters_install]
      exact Finset.insert_subset hmem h1
    · rcases hrest with rfl | rfl
      · rwa [filters_cons]
      · exact htodo
    · intro f hf
      have hcov := h3 hf
      show f ∈ filters (install _ _) ∪ _
      rw [filters_install]
      rcases hrest with rfl | rfl
      · simp only [filters_cons, Finset.mem_union, Finset.mem_insert] at hcov ⊢
        tauto
      · simp only [Finset.mem_union, Finset.mem_insert] at hcov ⊢
        tauto
  have hset : Inv (s.setSession hs.sess
      { s.session hs.sess with subs := install (s.session hs.sess).subs sub }) := by
    refine h.setSession hrec hkept (.inr rfl)
      (fun _ hlive => ⟨⟨allFilters_install (hmem hlive), hgrow⟩, hlive⟩)
      (fun d h' todo' _ _ hl => ⟨fun hdis => (hl.covers hdis).trans
        (Finset.union_subset_union hgrow (Finset.Subset.refl _)), fun hc hdis => ?_⟩)
      fun d h' todo' hd hi hopen => ?_
    · exact (hl.listed hc hdis).trans (Finset.union_subset_union hgrow (Finset.Subset.refl _))
    -- the session's connection is this one
    have hd' := ((h.places d).pending h' todo' hd hopen).1
    rw [hi, hconn] at hd'
    cases hd'
    rw [hp] at hd
    cases hd
    exact ⟨hconn, hreb _ (.inl rfl) hopen⟩
  have howes := (hset.places c).owes hs hs.stored (by
    show Place.owes (s.conns c).place = _
    rw [hp]
    rfl)
  refine hset.setConn (.attached rfl (hk.names hs.sess (by rw [hp]; rfl))
    (fun h' l hl => by cases hl; exact howes) ?_ fun hopen => ?_)
  · simp only [State.setSession, update_self]
    refine ⟨fun hdis f hf => ?_, fun _ hdis => ?_⟩
    · have hcov := hleft.covers hdis hf
      rw [filters_cons] at hcov
      show f ∈ filters (install _ _) ∪ _
      rw [filters_install]
      simp only [Finset.mem_union, Finset.mem_insert] at hcov ⊢
      tauto
    · refine Finset.Subset.trans ?_ ((hleft.listed hconn hdis).trans
        (Finset.union_subset_union hgrow (Finset.Subset.refl _)))
      rw [filters_cons]
      exact Finset.subset_insert _ _
  · simp only [State.setSession, update_self]
    exact ⟨hconn, hreb _ (.inr rfl) hopen⟩

theorem restored_inv (h : Inv s) (hp : (s.conns c).place = .restoring hs []) :
    Inv ((s.setSession hs.sess { s.session hs.sess with unrestored := [] }).goto c
      (.answering hs)) := by
  have hrec := h.sessions hs.sess
  have hleft := (h.places c).left hs [] (by rw [hp]; rfl)
  -- all that was to be rebuilt in a live session is served by now
  have hall : (s.session hs.sess).discarded = false →
      filters (s.session hs.sess).subs ∪ filters [] = (s.session hs.sess).allFilters := by
    intro hdis
    have hcov := hleft.covers hdis
    rw [filters_nil, Finset.union_empty] at hcov ⊢
    exact (Finset.union_eq_left.mpr hcov).symm
  have hset : Inv (s.setSession hs.sess { s.session hs.sess with unrestored := [] }) := by
    refine h.setSession hrec ((h.kept hs.sess).of_eq (fun hs => ⟨hs, rfl⟩)
      (fun hs => ⟨hs, fun w hw => ⟨w, hw, rfl⟩⟩) hall rfl) (.inl rfl)
      (fun _ hlive => ⟨⟨hall hlive, Finset.Subset.refl _⟩, hlive⟩)
      (fun d h' todo _ _ hl => ⟨fun _ => Finset.empty_subset _, fun hc hdis => ?_⟩)
      fun d h' todo hd hi hopen => ?_
    · exact (hl.listed hc hdis).trans (hall hdis).symm.subset
    · obtain ⟨hd', hr⟩ := (h.places d).pending h' todo hd hopen
      rw [hi] at hd' hr
      exact ⟨hd', fun hres => { hr hres with }⟩
  have hpend : Place.pending (s.conns c).place = some (hs, []) := by rw [hp]; rfl
  refine hset.setConn (.attached rfl ((h.places c).names hs.sess (by rw [hp]; rfl))
    (fun h' l hl => ?_) ((hset.places c).left hs [] hpend) ((hset.places c).pending hs [] hpend))
  cases hl
  simp [State.setSession]

/-- The CONNACK: every filter of the record is served by now. -/
theorem connack_inv (h : Inv s) (hp : (s.conns c).place = .answering hs)
    (hopen : (s.conns c).closed = false) (hres : hs.resumed = true) : Inv ({ s with log :=
      ⟨filters (s.session hs.sess).subs, filters hs.read.subscriptions⟩ :: s.log }.goto c
        (.serving hs)) := by
  have hr := ((h.places c).pending hs [] (by rw [hp]; rfl) hopen).2 hres
  have hlog : Inv { s with log :=
      ⟨filters (s.session hs.sess).subs, filters hs.read.subscriptions⟩ :: s.log } :=
    { h with
      places := fun d => { h.places d with }
      answers := fun a ha => by
        rcases List.mem_cons.mp ha with rfl | ha
        · have hcov := hr.covers
          rw [filters_nil, Finset.union_empty] at hcov
          exact Finset.Subset.antisymm hr.served hcov
        · exact h.answers a ha }
  exact hlog.setConn ((hlog.places c).serving hp)

/-- A connection that ends is closed, so nothing relies on the session being its own. -/
theorem finish_inv (h : Inv s) (now : Nat) (hp : (s.conns c).place.bound = some hs)
    (hclosed : (s.conns c).closed = true) :
    Inv ((s.setSession hs.sess (detach (s.session hs.sess) c now)).goto c (.ended hs)) := by
  have hrec := h.sessions hs.sess
  have hset : Inv (s.setSession hs.sess (detach (s.session hs.sess) c now)) := by
    unfold detach
    split
    · rename_i hconn
      refine h.setSession hrec { h.kept hs.sess with } (.inr rfl)
        (fun _ hlive => ⟨⟨rfl, Finset.Subset.refl _⟩, hlive⟩)
        (fun _ _ _ _ _ hl => ⟨hl.covers, nofun⟩) fun d h' todo hd hi hopen => ?_
      have hd' := ((h.places d).pending h' todo hd hopen).1
      rw [hi, hconn] at hd'
      cases hd'
      rw [hclosed] at hopen
      cases hopen
    · exact h.setSession_quiet hrec (h.kept hs.sess) rfl rfl rfl rfl
  refine hset.setConn (PlaceOk.idle rfl rfl rfl rfl fun i hi => ?_)
  cases hi
  exact (h.places c).names hs.sess (Place.names_of_bound hp)

theorem sessionLost_inv (h : Inv s) (b : Broker) (rev : Nat)
    (hok : ∀ i, s.registered b = some i → (s.session i).supersedes rev = false → ¬ s.Waiting i) :
    Inv (sessionLost s b rev) := by
  unfold sessionLost
  split
  · exact h
  · rename_i i hreg
    split
    · exact h
    · rename_i hsup
      have hwait := hok i hreg (by simpa using hsup)
      exact takeOver_discard (h.register b fun j hj => by cases hj) hwait

/-! ## Runs -/

theorem step_inv {a : Act κ} (hok : Undisturbed s a) (h : Inv s) (hs : step s a = some t) :
    Inv t := by
  cases a <;> simp only [step] at hs
  case connect c b expiry =>
    split at hs <;> cases hs
    exact h.setConn (PlaceOk.idle rfl rfl rfl rfl fun i hi => by cases hi)
  case takeOverSession c now =>
    split at hs <;> cases hs
    rename_i expiry hp
    simp only [Undisturbed, hp] at hok
    have hinv := takeOverSession_inv h (s.conns c).broker now fun i hi => by
      simpa only [hi] using hok
    refine hinv.setConn (PlaceOk.idle rfl rfl rfl rfl fun i hi => ?_)
    rw [takeOverSession_next]
    exact h.made _ i (takeOverSession_some hi)
  case claim c gap now ownerAlive queueMaxAge =>
    split at hs <;> cases hs
    · rename_i expiry sess hp
      refine claim_inv h _ gap hp fun i hi => ?_
      subst hi
      simpa only [Undisturbed, hp] using hok
    · rename_i expiry sess hp
      refine recreate_inv h _ gap hp fun i hi => ?_
      subst hi
      simpa only [Undisturbed, hp] using hok
  case newSession c =>
    split at hs <;> cases hs
    rename_i hp
    exact newSession_inv h hp
  case bindRecord c =>
    split at hs <;> cases hs
    rename_i hp
    exact bindRecord_inv h _ hp
  case setExpiry c =>
    split at hs <;> cases hs
    rename_i hp
    exact setExpiry_inv h hp
  case attach c =>
    split at hs <;> cases hs
    rename_i hp
    exact attach_inv h hp
  case registerSession c =>
    split at hs <;> cases hs
    rename_i hp
    exact registerSession_inv h _ hp
  case restore c =>
    split at hs
    · rename_i hd sub todo hp
      split at hs <;> cases hs
      · rename_i hconn
        exact restore_inv h hp hconn
      · exact (h.close c).setConn (PlaceOk.idle rfl rfl rfl rfl fun i hi => by cases hi)
    · cases hs
  case restored c =>
    split at hs <;> cases hs
    rename_i hp
    exact restored_inv h hp
  case connack c =>
    split at hs
    · rename_i hd hp
      split at hs
      · cases hs
        exact h.setConn (PlaceOk.idle rfl rfl rfl rfl fun i hi => by cases hi)
      · rename_i hopen
        split at hs <;> cases hs
        · rename_i hres
          exact connack_inv h hp (by simpa using hopen) hres
        · exact h.setConn ((h.places c).serving hp)
    · cases hs
  case subscribe c sub =>
    split at hs
    · rename_i hd hp
      simp only [Undisturbed, hp] at hok
      split at hs <;> cases hs
      rename_i hconn
      exact h.setSubs _ hp hconn fun hw => ⟨allFilters_install (hok hw), filters_subset_install _ _⟩
    · cases hs
  case unsubscribe c filter =>
    split at hs
    · rename_i hd hp
      simp only [Undisturbed, hp] at hok
      split at hs <;> cases hs
      rename_i hconn
      refine h.setSubs _ hp hconn fun hw => ?_
      rw [filters_remove, Finset.erase_eq_of_notMem (hok hw)]
      exact ⟨rfl, Finset.Subset.refl _⟩
    · cases hs
  case snapshot c kind live =>
    split at hs
    · rename_i hd hp
      split at hs <;> cases hs
      refine h.setSession_quiet ((h.sessions hd.sess).storing fun r' => Store.Kind.write_put)
        ⟨(h.kept hd.sess).record, fun hsave w hw => ?_, fun hsave => ?_⟩ rfl rfl rfl rfl
      · cases hw
        simp only [Bool.and_eq_true, List.isEmpty_iff] at hsave
        simp only [Store.Write.record, Store.Kind.write_subscriptions, liveOf, Session.allFilters,
          hsave.1, filters_nil, Finset.union_empty]
      · rcases hsave with hsave | hsave
        · exact (h.kept hd.sess).live (.inl hsave)
        · simpa using (Bool.and_eq_true_iff.mp hsave).2
    · cases hs
  case late i live =>
    split at hs
    · rename_i r _ hrec
      split at hs <;> cases hs
      refine h.setSession_quiet ((h.sessions i).storing fun r' hr => (Option.some.inj hr).symm)
        ⟨(h.kept i).record, fun hsave w hw => ?_, fun hsave => ?_⟩ rfl rfl rfl rfl
      · cases hw
        exact (h.kept i).record hsave r hrec
      · exact (h.kept i).live (.inl (hsave.elim id id))
    · cases hs
  case store i gap =>
    split at hs <;> cases hs
    rename_i gen record put rev hw
    exact storeWrite_inv h gen record put rev gap hw ((h.sessions i).stores gen record put rev hw)
  case commit i =>
    split at hs <;> cases hs
    rename_i hw
    exact commit_inv h hw
  case close c =>
    cases hs
    exact h.close c
  case finish c now =>
    split at hs
    · rename_i hd hp
      split at hs <;> cases hs
      rename_i hclosed
      exact finish_inv h now hp hclosed
    · cases hs
  case discard c =>
    split at hs
    · rename_i hd hp
      simp only [Undisturbed, hp] at hok
      split at hs <;> cases hs
      exact discard_inv h _ hok.1 hok.2
    · cases hs
  case watch b =>
    split at hs <;> cases hs
    rename_i rev put hw
    refine Inv.seen ?_ _
    unfold onUpdate
    split
    · exact h
    · rename_i r
      split
      · exact h
      · rename_i hown
        refine sessionLost_inv h b rev fun i hreg => ?_
        simp only [Undisturbed, hw, hreg] at hok
        exact hok hown

/-- **Session Present 1 tells the truth.** In every run whose steps leave a resumption alone, a
CONNACK with Session Present 1 is written for a session that serves exactly the filters of the
record its claim read. -/
theorem session_present_truth (s : State κ) (h : Lts.Reach step Undisturbed State.empty s) :
    ∀ a ∈ s.log, a.served = a.read := by
  have hinv : Inv s := h.invariant inv_empty fun u a t hu hok hs => step_inv hok hu hs
  exact hinv.answers

end Steps

/-! ## Two runs -/

instance [Fintype κ] (s : State κ) (i : SessionID) : Decidable (s.Waiting i) :=
  inferInstanceAs (Decidable (∃ c, (s.conns c).place.awaits = some i))

instance [Fintype κ] (s : State κ) (a : Act κ) : Decidable (Undisturbed s a) := by
  unfold Undisturbed
  split <;> first | infer_instance | (split <;> infer_instance)

/-- A CONNECT up to its claim. -/
def claimRun {κ : Type} (c : κ) (b : Broker) (now : Nat) : List (Act κ) :=
  [.connect c b 60, .takeOverSession c now, .claim c 0 now true 0]

/-- From there to the CONNACK, with `n` filters to rebuild. -/
def answerRun {κ : Type} (c : κ) (n : Nat) : List (Act κ) :=
  [.newSession c, .bindRecord c, .setExpiry c, .attach c, .registerSession c] ++
    List.replicate n (.restore c) ++ (if n = 0 then [] else [.restored c]) ++ [.connack c]

/-- A SUBSCRIBE to `filter` in session `i`, and the write of the record. -/
def subscribeRun {κ : Type} (c : κ) (i : SessionID) (filter : String) : List (Act κ) :=
  [.subscribe c ⟨filter, .qos2, 0⟩, .snapshot c .persist {}, .store i 0, .commit i]

/-- The connection ends and releases the record of session `i`. -/
def releaseRun {κ : Type} (c : κ) (i : SessionID) (now : Nat) : List (Act κ) :=
  [.close c, .finish c now, .snapshot c (.release 10 now) {}, .store i 0, .commit i]

/-- A client subscribes, leaves, and comes back to the same broker. -/
def comeBackRun : List (Act Lts.Two) :=
  claimRun .first 0 100 ++ answerRun .first 0 ++ subscribeRun .first 0 "a" ++
    releaseRun .first 0 110 ++ claimRun .second 0 120 ++ answerRun .second 0

theorem session_present_truth_comeBack :
    ∃ s : State Lts.Two, Lts.Reach step Undisturbed State.empty s ∧ s.log.length = 1 ∧
      ∀ a ∈ s.log, a.served = a.read := by
  obtain ⟨s, hreach, hs⟩ := Lts.reach_of_exec_any step Undisturbed State.empty comeBackRun
    (fun s => decide (s.log.length = 1)) (by decide)
  exact ⟨s, hreach, of_decide_eq_true hs, session_present_truth s hreach⟩

/-- The client goes to broker 1 in between, subscribes to one more filter there, and is back on
broker 0 before the watch has told it. -/
def movedRun : List (Act Nat) :=
  claimRun 0 0 100 ++ answerRun 0 0 ++ subscribeRun 0 0 "a" ++ releaseRun 0 0 110 ++
    claimRun 1 1 120 ++ answerRun 1 1 ++ subscribeRun 1 1 "b" ++ releaseRun 1 1 130 ++
    claimRun 2 0 140 ++ answerRun 2 0

/-- The record the last claim read lists both filters, and the session answered for serves one. -/
theorem stale_session_present :
    ∃ s : State Nat, Lts.Reach step Lts.free State.empty s ∧ ∃ a ∈ s.log, a.served ≠ a.read := by
  exact Lts.exists_reach movedRun (by decide +kernel)

end Natsmqtt5.Resume
