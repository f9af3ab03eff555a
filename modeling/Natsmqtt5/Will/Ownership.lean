import Natsmqtt5.Will.Session

/-!
# Whose Will is whose

What the session's Will, pending Will and their owner keep in every run of `Will/Session.lean`.

A connection that was displaced may still be in its handshake. `setWill` (`session.go:1146-1154`)
does not ask whether the connection is the session's any more, so such a handshake puts its Will
over that of its successor; and one that sets its Will between its successor's `cancelWills` and
`attach` is not cancelled. `Owned` excludes both orders; that a Will is published at most once, and
not after a normal DISCONNECT, does not need it.

Results:
* `step_inv`: what a step keeps, in any run and, under `o`, in one whose steps are `Owned`.
* **`will_ownership`**: in every run each Will is published at most once and never after a normal
  DISCONNECT; in the runs of `Owned` only while no later connection has attached, and a connected
  client's Will is the session's until a handshake cancels it or `Reauthorize` discards it.
* `displaced_will`: the Will of a displaced handshake is published although its successor is
  connected, and the successor's is lost.
* `will_taken_over`: a handshake that takes the session over cancels the Will of the connection that
  is still attached.
-/

namespace Natsmqtt5.Will.InMemory

open Function

variable {κ : Type} [DecidableEq κ] {c : κ} {log : List (Event κ)} {s : State κ} {o : Prop}
  {p : Place κ} {l : Option κ}

/-! ## Statements -/

/-- The connection that attached last. -/
def lastAttached : List (Event κ) → Option κ
  | [] => none
  | .attached c :: _ => some c
  | _ :: log => lastAttached log

/-- Each Will was published while its connection was the last to have attached. -/
def Decided : List (Event κ) → Prop
  | [] => True
  | e :: log => (∀ w, e = .published w → lastAttached log = some w) ∧ Decided log

/-- What happened since `c` set its Will. -/
def since (c : κ) (log : List (Event κ)) : List (Event κ) := log.takeWhile (· ≠ .set c)

/-- No handshake has cancelled the Will `c` set, and `Reauthorize` has not discarded it. -/
def Untouched (c : κ) (log : List (Event κ)) : Prop :=
  .cancelled ∉ since c log ∧ .discarded c ∉ since c log
  deriving Decidable

/-- How far a connection has come. -/
@[simp] def Place.stage : Place κ → Nat
  | .offline => 0
  | .connecting => 1
  | .attaching _ => 2
  | .attached => 3
  | .connected _ => 4
  | .firing _ _ => 5
  | .ending _ _ => 5
  | .detaching => 6
  | .gone => 7

/-- `setWill` is called by the session's connection, and not while another handshake is between its
`cancelWills` and its `attach`. -/
def Owned (s : State κ) : Act κ → Prop
  | .setWill c _ _ => s.sess.conn = some c ∧ ∀ d, (s.place d).stage ≠ 2
  | _ => True

/-! ## The invariant -/

/-- What every run keeps and, under `o`, what the runs of `Owned` keep. -/
structure Inv (o : Prop) (s : State κ) : Prop where
  conn : ∀ c, s.sess.conn = some c → lastAttached s.log = some c
  will : ∀ w, s.sess.will = some w →
    s.sess.willConn = some w ∧ (o → lastAttached s.log = some w) ∧ s.place w = .connected true
  pending : ∀ w, s.sess.pendingWill = some w → (o → lastAttached s.log = some w) ∧
    .published w ∉ s.log ∧ .normal w ∉ s.log ∧ 5 ≤ (s.place w).stage
  set : ∀ c, .set c ∈ s.log → 4 ≤ (s.place c).stage
  normal : ∀ c, .normal c ∈ s.log → 5 ≤ (s.place c).stage ∧ .published c ∉ s.log
  published : ∀ c, .published c ∈ s.log → 5 ≤ (s.place c).stage
  once : ∀ w, s.log.count (.published w) ≤ 1
  decided : o → Decided s.log
  cleared : o → ∀ c, (s.place c).stage = 2 → s.sess.will = none
  kept : o → ∀ c, s.sess.conn = some c → s.place c = .connected true → Untouched c s.log →
    s.sess.will = some c

/-- An event that the invariant reads nothing from, or only that a Will was touched. -/
def Event.minor : Event κ → Bool
  | .cancelled | .discarded _ | .dropped _ => true
  | _ => false

omit [DecidableEq κ] in
theorem lastAttached_minor (he : e.minor = true) (log : List (Event κ)) :
    lastAttached (e :: log) = lastAttached log := by
  cases e with
  | cancelled | discarded | dropped => rfl
  | attached | set | normal | published => cases he

theorem Untouched.tail (he : e ≠ .set c) (h : Untouched c (e :: log)) : Untouched c log := by
  unfold Untouched since at h ⊢
  rw [List.takeWhile_cons_of_pos (by simpa using he)] at h
  exact ⟨fun hm => h.1 (List.mem_cons_of_mem _ hm), fun hm => h.2 (List.mem_cons_of_mem _ hm)⟩

theorem Inv.once_cons (h : Inv o s) (he : ∀ w, e ≠ .published w) (w : κ) :
    (e :: s.log).count (.published w) ≤ 1 := by
  rw [List.count_cons_of_ne (he w)]
  exact h.once w

theorem Inv.note {e : Event κ} (h : Inv o s) (he : e.minor = true) : Inv o (s.note e) := by
  have hmem : ∀ {x : Event κ}, x.minor = false → x ∈ e :: s.log → x ∈ s.log := by
    intro x hx hm
    rcases List.mem_cons.mp hm with rfl | hm
    · rw [he] at hx; cases hx
    · exact hm
  have hlast := lastAttached_minor he s.log
  have hnot : ∀ {x : Event κ}, x.minor = false → e ≠ x := by
    rintro x hx rfl
    rw [he] at hx; cases hx
  refine ⟨fun c hc => hlast.trans (h.conn c hc), fun w hw => ?_, fun w hw => ?_,
    fun c hc => h.set c (hmem rfl hc), fun c hc => ?_, fun c hc => h.published c (hmem rfl hc),
    h.once_cons fun _ => hnot rfl, fun ho => ⟨fun w hw => absurd hw (hnot rfl), h.decided ho⟩,
    h.cleared, fun ho c hc hp hu => h.kept ho c hc hp (hu.tail (hnot (x := .set c) rfl))⟩
  · obtain ⟨h1, h2, h3⟩ := h.will w hw
    exact ⟨h1, fun ho => hlast.trans (h2 ho), h3⟩
  · obtain ⟨h1, h2, h3, h4⟩ := h.pending w hw
    exact ⟨fun ho => hlast.trans (h1 ho), fun hm => h2 (hmem rfl hm), fun hm => h3 (hmem rfl hm),
      h4⟩
  · obtain ⟨h1, h2⟩ := h.normal c (hmem rfl hc)
    exact ⟨h1, fun hm => h2 (hmem rfl hm)⟩

/-- A connection goes on, and the session changes with it: it may lose its connection and its Wills,
and get a pending Will. -/
theorem Inv.move (h : Inv o s) (sess : Session κ)
    (hle : (s.place c).stage ≤ p.stage) (hp : p ≠ .connected true)
    (hclear : p.stage = 2 → sess.will = none)
    (hconn : ∀ d, sess.conn = some d → s.sess.conn = some d) (hwill : ∀ w, sess.will = some w →
      s.sess.will = some w ∧ sess.willConn = s.sess.willConn ∧ w ≠ c)
    (hpend : ∀ w, sess.pendingWill = some w → s.sess.pendingWill = some w ∨
      s.sess.will = some w ∧ w = c ∧ 5 ≤ p.stage)
    (hkept : ∀ d, d ≠ c → s.sess.will = some d → Untouched d s.log → sess.will = some d) :
    Inv o ({ s with sess := sess }.goto c p) := by
  have hstage : ∀ d, (s.place d).stage ≤ (update s.place c p d).stage := by
    intro d
    by_cases hd : d = c
    · subst hd
      simpa using hle
    · simp [update_of_ne hd]
  refine ⟨fun d hd => h.conn d (hconn d hd), fun w hw => ?_, fun w hw => ?_,
    fun d hd => (h.set d hd).trans (hstage d), fun d hd => ?_,
    fun d hd => (h.published d hd).trans (hstage d), h.once, h.decided, fun ho d hd => ?_,
    fun ho d hd hpd hu => ?_⟩
  · obtain ⟨hw', hconn', hne⟩ := hwill w hw
    obtain ⟨h1, h2, h3⟩ := h.will w hw'
    exact ⟨hconn'.trans h1, h2, by simpa [State.goto, update_of_ne hne] using h3⟩
  · rcases hpend w hw with hw' | ⟨hw', rfl, hfive⟩
    · obtain ⟨h1, h2, h3, h4⟩ := h.pending w hw'
      exact ⟨h1, h2, h3, h4.trans (hstage w)⟩
    · obtain ⟨-, h2, h3⟩ := h.will w hw'
      have hfour : ¬ 5 ≤ (s.place w).stage := by simp [h3]
      refine ⟨h2, fun hm => hfour (h.published w hm), fun hm => hfour (h.normal w hm).1, ?_⟩
      simpa [State.goto] using hfive
  · obtain ⟨h1, h2⟩ := h.normal d hd
    exact ⟨h1.trans (hstage d), h2⟩
  · by_cases hdc : d = c
    · subst hdc
      exact hclear (by simpa only [State.goto, update_self] using hd)
    · simp only [State.goto, update_of_ne hdc] at hd ⊢
      refine Option.eq_none_iff_forall_ne_some.mpr fun w hw => ?_
      exact absurd ((h.cleared ho d hd).symm.trans (hwill w hw).1) (by simp)
  · by_cases hdc : d = c
    · subst hdc
      simp only [State.goto, update_self] at hpd
      exact absurd hpd hp
    · simp only [State.goto, update_of_ne hdc] at hpd
      exact hkept d hdc (h.kept ho d (hconn d hd) hpd hu) hu

theorem Inv.goto (h : Inv o s) (hle : (s.place c).stage ≤ p.stage)
    (hp : p ≠ .connected true) (hnot : p.stage ≠ 2) (hw : s.sess.will ≠ some c) :
    Inv o (s.goto c p) :=
  h.move s.sess hle hp (absurd · hnot) (fun _ hd => hd)
    (fun _ hw' => ⟨hw', rfl, fun heq => hw (heq ▸ hw')⟩)
    (fun _ hw' => .inl hw') fun _ _ hd _ => hd

theorem Inv.will_ne (h : Inv o s) (hp : s.place c ≠ .connected true) : s.sess.will ≠ some c :=
  fun hw => hp (h.will c hw).2.2

theorem Inv.setTimer (h : Inv o s) (c : κ) (t : Timer κ) : Inv o (s.setTimer c t) :=
  { h with }

/-! ## Cancelled and discarded Wills -/

omit [DecidableEq κ] in
theorem cancelWills_eq (s : Session κ) :
    s.cancelWills.1.will = none ∧ s.cancelWills.1.pendingWill = none ∧
      s.cancelWills.1.conn = s.conn := by
  unfold Session.cancelWills
  split
  · rename_i hnone
    exact ⟨Option.isNone_iff_eq_none.mp hnone.1, Option.isNone_iff_eq_none.mp hnone.2, rfl⟩
  · exact ⟨rfl, rfl, rfl⟩

theorem untouched_cancelled : ¬ Untouched c (.cancelled :: log) := by
  intro h
  apply h.1
  unfold since
  rw [List.takeWhile_cons_of_pos (by simp)]
  exact List.mem_cons_self

theorem untouched_discarded : ¬ Untouched c (.discarded c :: log) := by
  intro h
  apply h.2
  unfold since
  rw [List.takeWhile_cons_of_pos (by simp)]
  exact List.mem_cons_self

/-- `cancelWills` in the handshake of `c`. -/
theorem Inv.cancel (h : Inv o s) (hle : (s.place c).stage ≤ p.stage)
    (hp : p ≠ .connected true) : Inv o (s.cancel.1.goto c p) := by
  obtain ⟨hwill, hpend, hconn⟩ := cancelWills_eq s.sess
  have hnote := h.note (e := .cancelled) rfl
  refine hnote.move s.sess.cancelWills.1 hle hp (fun _ => hwill) (fun d hd => hconn ▸ hd)
    (fun w hw => ?_) (fun w hw => ?_) fun d _ _ hu => absurd hu untouched_cancelled
  · rw [hwill] at hw; cases hw
  · rw [hpend] at hw; cases hw

theorem discardWill_eq (s : Session κ) (w : κ) :
    (s.discardWill w).1.will = (if s.will = some w then none else s.will) ∧
      (s.discardWill w).1.pendingWill = (if s.pendingWill = some w then none else s.pendingWill) ∧
      (s.discardWill w).1.conn = s.conn ∧ (s.discardWill w).1.willConn = s.willConn := by
  unfold Session.discardWill
  by_cases hw : s.will = some w <;> by_cases hp : s.pendingWill = some w <;> simp [hw, hp]

theorem Inv.discard (h : Inv o s) (w : κ) :
    Inv o (({ s with sess := (s.sess.discardWill w).1 }.note
      (.dropped (s.sess.discardWill w).2)).note (.discarded w)) := by
  obtain ⟨hwill, hpend, hconn, hwconn⟩ := discardWill_eq s.sess w
  have hnote := (h.note (e := .dropped (s.sess.discardWill w).2) rfl).note (e := .discarded w) rfl
  refine ⟨fun c hc => hnote.conn c (hconn ▸ hc), fun v hv => ?_, fun v hv => ?_, hnote.set,
    hnote.normal, hnote.published, hnote.once, hnote.decided, fun ho c hc => ?_,
    fun ho c hc hp hu => ?_⟩
  · simp only [State.note, hwill] at hv
    split at hv
    · cases hv
    · obtain ⟨h1, h2⟩ := hnote.will v hv
      exact ⟨hwconn.trans h1, h2⟩
  · simp only [State.note, hpend] at hv
    split at hv
    · cases hv
    · exact hnote.pending v hv
  · have hnone : s.sess.will = none := h.cleared ho c hc
    simp [State.note, hwill, hnone]
  · have hold := hnote.kept ho c (hconn ▸ hc) hp hu
    have hne : c ≠ w := by
      rintro rfl
      exact untouched_discarded hu
    have hwill' : s.sess.will = some c := hold
    simp only [State.note, hwill]
    rw [if_neg (by rw [hwill']; simpa using hne), hwill']

/-! ## The steps -/

theorem Inv.attach (h : Inv o s) (hp : s.place c = .attaching l) :
    Inv o (((({ s with sess := s.sess.attach c }).note (.attached c)).note (.dropped l)).goto c
      .attached) := by
  have hmem : ∀ {x : Event κ}, x ≠ .attached c → x ∈ .attached c :: s.log → x ∈ s.log :=
    List.mem_of_ne_of_mem
  have hnew : Inv o ({ s with sess := s.sess.attach c }.note (.attached c)) := by
    refine ⟨fun d hd => hd, fun w hw => ?_, nofun, fun d hd => h.set d (hmem (by simp) hd),
      fun d hd => ?_, fun d hd => h.published d (hmem (by simp) hd), h.once_cons (by simp),
      fun ho => ⟨nofun, h.decided ho⟩, h.cleared, fun _ d hd hpd _ => ?_⟩
    · obtain ⟨h1, -, h3⟩ := h.will w hw
      -- the handshake has cancelled the Will, and none was set since
      refine ⟨h1, fun ho => ?_, h3⟩
      have hnone := h.cleared ho c (by simp [hp])
      exact absurd (hnone.symm.trans hw) (by simp)
    · obtain ⟨h1, h2⟩ := h.normal d (hmem (by simp) hd)
      exact ⟨h1, fun hm => h2 (hmem (by simp) hm)⟩
    · have hpd' : s.place d = .connected true := hpd
      cases hd
      rw [hp] at hpd'
      cases hpd'
  refine (hnew.note (e := .dropped l) rfl).goto ?_ nofun (by simp) ?_
  · simp [State.note, hp]
  · exact h.will_ne (by simp [hp])

/-- Under `o`, `setWill` is called by the session's connection. -/
theorem Inv.setWill (h : Inv o s) (delay : Nat) (lease : Option κ)
    (hp : s.place c = .attached)
    (hown : o → s.sess.conn = some c ∧ ∀ d, (s.place d).stage ≠ 2) :
    Inv o ((({ s with sess := (s.sess.setWill c c delay lease).1 }.note (.dropped l)).note
      (.set c)).goto c (.connected true)) := by
  have hstage : ∀ d, (s.place d).stage ≤ (update s.place c (.connected true) d).stage := by
    intro d
    by_cases hd : d = c
    · subst hd
      simp [hp]
    · simp [update_of_ne hd]
  have hmem : ∀ {x : Event κ}, x ≠ .set c → x ∈ .set c :: .dropped l :: s.log →
      x ∈ .dropped l :: s.log := List.mem_of_ne_of_mem
  have hdrop := h.note (e := .dropped l) rfl
  refine ⟨hdrop.conn, fun w hw => ?_, fun w hw => ?_, fun d hd => ?_, fun d hd => ?_,
    fun d hd => (hdrop.published d (hmem (by simp) hd)).trans (hstage d), hdrop.once_cons (by simp),
    fun ho => ⟨nofun, hdrop.decided ho⟩, fun ho d hd => ?_, fun ho d hd _ _ => ?_⟩
  · obtain rfl : c = w := Option.some.inj hw
    exact ⟨rfl, fun ho => hdrop.conn c (hown ho).1, by simp [State.goto]⟩
  · obtain ⟨h1, h2, h3, h4⟩ := hdrop.pending w hw
    exact ⟨h1, fun hm => h2 (hmem (by simp) hm), fun hm => h3 (hmem (by simp) hm),
      h4.trans (hstage w)⟩
  · by_cases hdc : d = c
    · subst hdc
      simp [State.goto]
    · exact (hdrop.set d (hmem (by simpa using hdc) hd)).trans (hstage d)
  · obtain ⟨h1, h2⟩ := hdrop.normal d (hmem (by simp) hd)
    exact ⟨h1.trans (hstage d), fun hm => h2 (hmem (by simp) hm)⟩
  · by_cases hdc : d = c
    · subst hdc
      simp [State.goto] at hd
    · simp only [State.goto, update_of_ne hdc] at hd
      exact absurd hd ((hown ho).2 d)
  · exact (hown ho).1.symm.trans hd

theorem takeWill_eq (s : Session κ) (c : κ) :
    ((s.takeWill c).1.will = if s.willConn = some c then none else s.will) ∧
      (s.takeWill c).1.pendingWill = s.pendingWill ∧ (s.takeWill c).1.conn = s.conn ∧
      (s.willConn ≠ some c → (s.takeWill c).1.willConn = s.willConn) := by
  unfold Session.takeWill
  by_cases hc : s.willConn = some c <;> simp [hc]

/-- `finish` after a normal DISCONNECT. -/
theorem Inv.takeWill (h : Inv o s) {b : Bool} (hp : s.place c = .connected b) :
    Inv o ((({ s with sess := (s.sess.takeWill c).1 }.note (.dropped l)).note (.normal c)).goto c
      .detaching) := by
  obtain ⟨hwill, hpend, hconn, hwconn⟩ := takeWill_eq s.sess c
  have hmoved : Inv o (({ s with sess := (s.sess.takeWill c).1 }.goto c .detaching).note
      (.dropped l)) := by
    refine (h.move _ (p := .detaching) (by simp [hp]) (by simp) (by simp)
      (fun d hd => hconn ▸ hd) (fun w hw => ?_)
      (fun w hw => .inl (hpend ▸ hw)) fun d hd hw _ => ?_).note rfl
    · rw [hwill] at hw
      split at hw
      · cases hw
      · rename_i hne
        refine ⟨hw, hwconn hne, ?_⟩
        rintro rfl
        exact hne (h.will w hw).1
    · rw [hwill, if_neg, hw]
      rw [(h.will d hw).1]
      simpa using hd
  have hfour : ¬ 5 ≤ (s.place c).stage := by simp [hp]
  have hmem : ∀ {x : Event κ}, x ≠ .normal c → x ∈ .normal c :: .dropped l :: s.log →
      x ∈ .dropped l :: s.log := List.mem_of_ne_of_mem
  refine ⟨hmoved.conn, hmoved.will, fun w hw => ?_, fun d hd => hmoved.set d (hmem (by simp) hd),
    fun d hd => ?_, fun d hd => hmoved.published d (hmem (by simp) hd), hmoved.once_cons (by simp),
    fun ho => ⟨nofun, hmoved.decided ho⟩, hmoved.cleared,
    fun ho d hd hpd hu => hmoved.kept ho d hd hpd (hu.tail (by simp))⟩
  · obtain ⟨h1, h2, h3, h4⟩ := hmoved.pending w hw
    have hwc : w ≠ c := by
      rintro rfl
      exact hfour (h.pending w (hpend ▸ hw)).2.2.2
    exact ⟨h1, fun hm => h2 (hmem (by simp) hm), fun hm => h3 (hmem (by simpa using hwc) hm), h4⟩
  · by_cases hdc : d = c
    · subst hdc
      refine ⟨by simp [State.goto], fun hm => hfour (h.published d ?_)⟩
      exact List.mem_of_ne_of_mem (by simp) (hmem (by simp) hm)
    · obtain ⟨h1, h2⟩ := hmoved.normal d (hmem (by simpa using hdc) hd)
      exact ⟨h1, fun hm => h2 (hmem (by simp) hm)⟩

/-- `scheduleWill`: the Will of `c` becomes the pending one. -/
theorem Inv.schedule (h : Inv o s) (expiry : Nat)
    (hp : s.place c = .attached ∨ ∃ b, s.place c = .connected b) : Inv o (s.schedule c expiry) := by
  have hle : (s.place c).stage ≤ 4 := by
    rcases hp with hp | ⟨b, hp⟩ <;> simp [hp]
  unfold State.schedule Session.takeWillToPublish
  cases hw : s.sess.will with
  | none => exact h.goto (hle.trans (by simp)) (by simp) (by simp) (by simp [hw])
  | some w =>
    simp only
    by_cases hc : s.sess.willConn = some c
    · simp only [if_pos hc]
      obtain rfl : w = c := by
        rw [(h.will w hw).1] at hc
        exact Option.some.inj hc
      refine h.move _ ?_ ?_ (fun _ => rfl) (fun _ hd => hd) nofun (fun v hv => .inr ?_)
        fun d hd hdw => ?_
      · split <;> exact hle.trans (by simp)
      · split <;> simp
      · cases hv
        exact ⟨hw, rfl, by split <;> simp⟩
      · rw [hw] at hdw
        exact absurd (Option.some.inj hdw).symm hd
    · simp only [if_neg hc]
      refine h.goto (hle.trans (by simp)) (by simp) (by simp) fun hwc => hc ?_
      exact (h.will c hwc).1

/-- `takePendingWill`, and the Will is published if it was still pending. -/
theorem Inv.decide (h : Inv o s) (w : κ) : Inv o (s.decide w) := by
  unfold State.decide Session.takePendingWill
  by_cases hw : s.sess.pendingWill = some w
  · obtain ⟨hlast, hpub, hnorm, hstage⟩ := h.pending w hw
    simp only [if_pos hw]
    have hmem : ∀ {x : Event κ}, x ≠ .published w → x ∈ .published w :: s.log → x ∈ s.log :=
      List.mem_of_ne_of_mem
    refine ⟨h.conn, h.will, nofun, fun d hd => h.set d (hmem (by simp) hd),
      fun d hd => ?_, fun d hd => ?_, fun v => ?_, fun ho => ⟨fun v hv => ?_, h.decided ho⟩,
      h.cleared, fun ho d hd hpd hu => h.kept ho d hd hpd (hu.tail (by simp))⟩
    · have hd' := hmem (by simp) hd
      obtain ⟨h1, h2⟩ := h.normal d hd'
      refine ⟨h1, fun hm => h2 (hmem (fun heq => hnorm ?_) hm)⟩
      obtain rfl : d = w := by simpa using heq
      exact hd'
    · rcases List.mem_cons.mp hd with heq | hd
      · obtain rfl : d = w := by simpa using heq
        exact hstage
      · exact h.published d hd
    · by_cases hv : v = w
      · subst hv
        have hzero : List.count (.published v) s.log = 0 := List.count_eq_zero.mpr hpub
        simp [State.note, hzero]
      · have hcount : List.count (.published v) (.published w :: s.log) =
            s.log.count (.published v) := List.count_cons_of_ne (by simpa using Ne.symm hv)
        exact hcount.trans_le (h.once v)
    · obtain rfl : w = v := by simpa using hv
      exact hlast ho
  · simp only [if_neg hw]
    exact h

theorem decide_will (s : State κ) (w : κ) :
    (s.decide w).sess.will = s.sess.will ∧ (s.decide w).place = s.place := by
  unfold State.decide Session.takePendingWill
  by_cases hw : s.sess.pendingWill = some w <;> simp [hw, State.note]

/-- `wills.ended` says that another broker owns the Will. -/
theorem Inv.forgo (h : Inv o s) {w : κ} (hp : s.place c = .ending w l) :
    Inv o ({ s with sess := (s.sess.takePendingWill w).getD s.sess }.goto c .detaching) := by
  have hwc := h.will_ne (c := c) (by simp [hp])
  unfold Session.takePendingWill
  by_cases hw : s.sess.pendingWill = some w
  · simp only [if_pos hw, Option.getD_some]
    exact h.move _ (by simp [hp]) (by simp) (by simp) (fun _ hd => hd)
      (fun v hv => ⟨hv, rfl, fun heq => hwc (heq ▸ hv)⟩) nofun
      fun d _ hd _ => hd
  · simp only [if_neg hw, Option.getD_none]
    exact h.goto (by simp [hp]) (by simp) (by simp) hwc

theorem Inv.detach (h : Inv o s) (hp : s.place c = .detaching) :
    Inv o ({ s with sess := s.sess.detach c }.goto c .gone) := by
  have hwc := h.will_ne (c := c) (by simp [hp])
  unfold Session.detach
  split
  · exact h.move _ (by simp [hp]) (by simp) (by simp) nofun
      (fun v hv => ⟨hv, rfl, fun heq => hwc (heq ▸ hv)⟩) (fun v hv => .inl hv)
      fun d _ hd _ => hd
  · exact h.goto (by simp [hp]) (by simp) (by simp) hwc

theorem step_inv {t : State κ} {a : Act κ} (h : Inv o s) (hown : o → Owned s a)
    (hs : step s a = some t) : Inv o t := by
  cases a <;> simp only [step] at hs
  case takeOver c found =>
    split at hs
    · rename_i hp
      split at hs <;> cases hs
      · have hcancel := h.cancel (c := c) (p := .connecting) (by simp [hp]) (by simp)
        exact hcancel.note rfl
      · exact h.goto (by simp [hp]) (by simp) (by simp) (h.will_ne (by simp [hp]))
    · cases hs
  case cancelWills c =>
    split at hs <;> cases hs
    rename_i hp
    exact h.cancel (by simp [hp]) (by simp)
  case attach c =>
    split at hs <;> cases hs
    rename_i l hp
    exact h.attach hp
  case setWill c delay stored =>
    split at hs <;> cases hs
    rename_i hp
    exact h.setWill delay _ hp hown
  case fail c | withoutWill c =>
    split at hs <;> cases hs
    rename_i hp
    exact h.goto (by simp [hp]) (by simp) (by simp) (h.will_ne (by simp [hp]))
  case takeWill c =>
    split at hs <;> cases hs
    rename_i b hp
    exact h.takeWill hp
  case scheduleWill c expiry =>
    split at hs <;> cases hs
    · rename_i hp
      exact h.schedule expiry (.inl hp)
    · rename_i b hp
      exact h.schedule expiry (.inr ⟨b, hp⟩)
  case takePendingWill c =>
    split at hs <;> cases hs
    rename_i w l hp
    obtain ⟨hwill, hplace⟩ := decide_will s w
    refine (h.decide w).goto ?_ (by simp) (by simp) ?_
    · rw [hplace, hp]
      simp
    · rw [hwill]
      exact h.will_ne (by simp [hp])
  case ended c ok =>
    split at hs
    · rename_i w l hp
      split at hs <;> cases hs
      · exact (h.setTimer c _).goto (by simp [State.setTimer, hp]) (by simp) (by simp)
          (h.will_ne (by simp [hp]))
      · exact h.forgo hp
    · cases hs
  case detach c =>
    split at hs <;> cases hs
    rename_i hp
    exact h.detach hp
  case timer c =>
    split at hs
    · split at hs <;> cases hs
      · exact (h.note rfl).setTimer c _
      · exact h.setTimer c _
    · cases hs
  case timerTake c =>
    split at hs <;> cases hs
    exact (h.decide _).setTimer c _
  case discardWill w =>
    cases hs
    exact h.discard w

/-! ## Whole runs -/

/-- The abnormal end of a connection whose Will is the session's publishes it, now or after the
delay, unless something else happens first. -/
theorem end_publishes (hp : s.place c = .connected true) (hw : s.sess.will = some c)
    (hc : s.sess.willConn = some c) (hconn : s.sess.conn = some c) (expiry : Nat) :
    ∃ as t, Lts.exec step Lts.free s (.scheduleWill c expiry :: as) = some t ∧
      .published c ∈ t.log := by
  by_cases hzero : min s.sess.willDelay expiry = 0
  · refine ⟨[.takePendingWill c], ?_⟩
    simp [Lts.exec, Lts.free, step, hp, State.schedule, Session.takeWillToPublish, hw, hc, hzero,
      State.goto, State.decide, Session.takePendingWill, State.note]
  · refine ⟨[.ended c true, .detach c, .timer c, .timerTake c], ?_⟩
    simp [Lts.exec, Lts.free, step, hp, State.schedule, Session.takeWillToPublish, hw, hc, hzero,
      State.goto, State.setTimer, State.decide, Session.takePendingWill, State.note, Session.detach,
      hconn]

theorem Inv.init : Inv o ({} : State κ) :=
  ⟨nofun, nofun, nofun, nofun, nofun, nofun, fun _ => Nat.zero_le 1, fun _ => trivial,
    fun _ _ _ => rfl, nofun⟩

/-- **Whose Will is whose.** In every run each Will is published at most once, and not if its
connection ended with a normal DISCONNECT. In a run whose steps are `Owned` it is published only
while no later connection has attached; and while a connection whose handshake completed with a Will
is the session's, and no other handshake has cancelled that Will and `Reauthorize` has not discarded
it, it is the session's Will, and the connection's abnormal end publishes it. -/
theorem will_ownership (s : State κ) (h : Lts.Reach step Lts.free {} s) :
    (∀ w, s.log.count (.published w) ≤ 1) ∧
      (∀ w, .normal w ∈ s.log → .published w ∉ s.log) ∧
      (Lts.Reach step Owned {} s → Decided s.log ∧
        ∀ c, s.sess.conn = some c → s.place c = .connected true → Untouched c s.log →
          s.sess.will = some c ∧ ∀ expiry, ∃ as t,
            Lts.exec step Lts.free s (.scheduleWill c expiry :: as) = some t ∧
              .published c ∈ t.log) := by
  have hfree : Inv False s := h.invariant .init fun _ _ _ hu _ hs => step_inv hu False.elim hs
  refine ⟨hfree.once, fun w hw => (hfree.normal w hw).2, fun hown => ?_⟩
  have hinv : Inv True s :=
    hown.invariant .init fun _ _ _ hu hok hs => step_inv hu (fun _ => hok) hs
  refine ⟨hinv.decided trivial, fun c hc hp hu => ?_⟩
  have hw := hinv.kept trivial c hc hp hu
  exact ⟨hw, end_publishes hp hw (hinv.will c hw).1 hc⟩

/-! ## Runs -/

instance [Fintype κ] (s : State κ) (a : Act κ) : Decidable (Owned s a) := by
  unfold Owned
  split <;> infer_instance

/-- A handshake with a Will, from `takeOverSession` to its end. -/
def connectRun (c : Lts.Two) (found : Bool) : List (Act Lts.Two) :=
  [.takeOver c found, .cancelWills c, .attach c, .setWill c 0 true]

/-- A connection is taken over by a second one, which then ends without a DISCONNECT. -/
def takenOverRun : List (Act Lts.Two) :=
  connectRun .first false ++ connectRun .second true ++
    [.scheduleWill .first 60, .detach .first, .scheduleWill .second 60, .takePendingWill .second]

theorem will_ownership_taken_over :
    ∃ s : State Lts.Two, Lts.Reach step Owned {} s ∧ .published .second ∈ s.log ∧
      s.log.count (.published .second) ≤ 1 ∧ Decided s.log := by
  refine Lts.exists_reach_of takenOverRun (by decide) fun s hreach _ => ?_
  obtain ⟨honce, -, hrest⟩ := will_ownership s (hreach.mono fun _ _ _ => trivial)
  exact ⟨honce .second, (hrest hreach).1⟩

/-- The Will of a connection that is still the session's is cancelled by the handshake that takes
the session over; if that one fails, nobody has the Will. -/
theorem will_taken_over :
    ∃ s : State Lts.Two, Lts.Reach step Lts.free {} s ∧ s.sess.conn = some .first ∧
      s.place .first = .connected true ∧ s.sess.will = none ∧ s.place .second = .gone := by
  exact Lts.exists_reach (connectRun .first false ++ [.takeOver .second true, .fail .second])
    (by decide)

/-- The handshake of a connection goes on after its successor is connected: its Will takes the place
of the successor's, and is published when the displaced connection ends. -/
theorem displaced_will :
    ∃ s : State Lts.Two, Lts.Reach step Lts.free {} s ∧ s.sess.conn = some .second ∧
      s.place .second = .connected true ∧ Untouched .second s.log ∧ s.sess.will = none ∧
      .published .first ∈ s.log := by
  exact Lts.exists_reach ([.takeOver .first false, .cancelWills .first, .attach .first] ++
    connectRun .second true ++
      [.setWill .first 0 true, .scheduleWill .first 60, .takePendingWill .first]) (by decide)

end Natsmqtt5.Will.InMemory
