import Natsmqtt5.Lts
import Natsmqtt5.Subscribe.Model

/-!
# The stored subscriptions follow the live ones

Any sequence of SUBSCRIBE and UNSUBSCRIBE packets on a connection that owns its session, with the
record in line at the start.

When the flush fails, what was granted is removed, a subscription that replaced one of the session's
included, and nothing is granted any more, so nothing is written: the record keeps the filters that
the session no longer holds.

Results:
* `stored_follows_live`: in a run without such a packet the record is the live set after each
  packet; a further packet leaves it so exactly when it is not one.
* `stored_left_behind`: a filter subscribed again with a failed flush.
-/

namespace Natsmqtt5.Subscribe

open Lts

/-! ## One filter -/

/-- What `subscribeOne` may do on a session of the connection's own: it refuses and changes no
subscription, or it grants and puts one. -/
inductive One (s : Session) (e : Entry) : Session × Result → Prop
  | refused (n : Nat) {code : UInt8} (hcode : 0x80 ≤ code) :
    One s e ({ s with nextRef := n }, { code })
  | granted (n : Nat) (existed : Bool) {sub : Sub} (hfilter : sub.filter = e.want.filter)
    (hbound : sub.bound = true) (hcode : sub.grantedQoS < 0x80) :
    One s e ({ s with subs := Keyed.put Sub.filter s.subs sub, nextRef := n },
      { sub := some sub, existed, code := sub.grantedQoS })

variable {code : UInt8} {rs : List Result}

theorem cleared_code {o : Options} {e : Entry} (h : cleared o e = .error code) : 0x80 ≤ code := by
  unfold cleared at h
  split at h
  · cases h
    decide
  · split at h
    · cases h
      decide
    · split at h
      · cases h
        decide
      · split at h
        · cases h
          decide
        · cases h
          decide
        · split at h <;> cases h
          decide

theorem qosByte_lt (q : QoS) : qosByte q < 0x80 := by
  cases q <;> decide

theorem grantedQoS_lt (o : Options) (share : Bytes) (qos : UInt8) :
    grantedQoS o share qos < 0x80 := by
  have hmax := qosByte_lt o.maxQoS
  unfold grantedQoS
  generalize hg : (if qosByte o.maxQoS < qos then qosByte o.maxQoS else qos) = granted
  have hlt : granted < 0x80 := by
    split_ifs at hg with h
    · exact hg ▸ hmax
    · exact hg ▸ UInt8.lt_of_le_of_lt (UInt8.not_lt.mp h) hmax
  dsimp only
  split_ifs
  · decide
  · exact hlt

/-- A filter that passes the checks, and whose subscriptions NATS takes where a held one's do not
stay. -/
def grants (o : Options) (e : Entry) : Bool :=
  match cleared o e with
  | .error _ => false
  | .ok (share, _) => share == [] || e.bind

section One

variable {c : Conn} {s : Session}

/-- The connection's own session, whose subscriptions are all bound. -/
structure Sound (c : Conn) (s : Session) : Prop where
  conn : s.conn = some c.num
  bound : ∀ sub ∈ s.subs, sub.bound = true

theorem Sound.holdsBound (h : Sound c s) (filter : Bytes) :
    s.holdsBound filter = s.holds filter := by
  unfold Session.holdsBound Session.holds
  cases hf : s.find filter with
  | none => rfl
  | some sub => exact h.bound sub (Keyed.mem_of_find Sub.filter hf)

/-- A subscription that is bound, or takes over from one that is, is put. -/
theorem Sound.install (h : Sound c s) (sub : Sub)
    (hbound : sub.bound = true ∨ s.holds sub.filter = true) :
    ∃ sub', s.installSubscription c sub =
        .installed { s with subs := Keyed.put Sub.filter s.subs sub' } (s.find sub.filter) sub' ∧
      sub'.filter = sub.filter ∧ sub'.bound = true ∧ sub'.grantedQoS = sub.grantedQoS := by
  have hconn : ¬ s.conn ≠ some c.num := fun hne => hne h.conn
  have hown : ¬ (!sub.bound && !(s.find sub.filter).any Sub.bound) = true := by
    rw [Bool.and_eq_true, Bool.not_eq_true', Bool.not_eq_true']
    rintro ⟨hb, hf⟩
    have hheld : s.holdsBound sub.filter = false := hf
    rw [h.holdsBound] at hheld
    rcases hbound with hbound | hbound
    · rw [hb] at hbound
      cases hbound
    · rw [hheld] at hbound
      cases hbound
  unfold Session.installSubscription
  rw [if_neg hconn]
  dsimp only
  rw [if_neg hown]
  exact ⟨_, rfl, rfl, rfl, rfl⟩

theorem Sound.next (h : Sound c s) (n : Nat) : Sound c { s with nextRef := n } := ⟨h.conn, h.bound⟩

/-- `subscribeOne` refuses or grants, and of a filter that is held it grants those that `grants`
says. -/
theorem Sound.subscribeOne (h : Sound c s) (o : Options) (subID : Int) (e : Entry) :
    One s e (subscribeOne o c subID s e) ∧
      (s.holds e.want.filter = true →
        (Subscribe.subscribeOne o c subID s e).2.sub.isSome = grants o e) := by
  unfold Subscribe.subscribeOne grants
  cases hclear : cleared o e with
  | error code => exact ⟨.refused s.nextRef (cleared_code hclear), fun _ => rfl⟩
  | ok x =>
    obtain ⟨share, subject⟩ := x
    dsimp only
    have hs₁ := h.next (s.nextRef + 1)
    generalize htake : (share == [] &&
      Session.holdsBound { s with nextRef := s.nextRef + 1 } e.want.filter) = takeOver
    rw [hs₁.holdsBound] at htake
    change (share == [] && s.holds e.want.filter) = takeOver at htake
    by_cases hfail : (!takeOver && !e.bind) = true
    · rw [if_pos hfail]
      rw [Bool.and_eq_true, Bool.not_eq_true', Bool.not_eq_true'] at hfail
      refine ⟨.refused (s.nextRef + 1) (by decide), fun hs => ?_⟩
      rw [hfail.1, hs, Bool.and_true] at htake
      rw [hfail.2, Bool.or_false]
      exact htake.symm
    · rw [if_neg hfail]
      have hbound : (!takeOver) = true ∨ s.holds e.want.filter = true := by
        cases takeOver with
        | false => exact .inl rfl
        | true => exact .inr (Bool.and_eq_true_iff.mp htake).2
      obtain ⟨sub, hinst, hfilter, hsub, hqos⟩ := hs₁.install
        { ref := s.nextRef, filter := e.want.filter, subject, share, opts := e.want
          grantedQoS := grantedQoS o share e.want.qos, id := subID, bound := !takeOver } hbound
      rw [hinst]
      have hcode : sub.grantedQoS < 0x80 := hqos ▸ grantedQoS_lt o share e.want.qos
      refine ⟨.granted (s.nextRef + 1) _ hfilter hsub hcode, fun hs => ?_⟩
      rw [hs, Bool.and_true] at htake
      rw [htake]
      cases takeOver with
      | true => rfl
      | false =>
        cases hbind : e.bind with
        | true => rfl
        | false =>
          rw [hbind] at hfail
          exact absurd rfl hfail

end One

/-! ## The loop over the filters -/

/-- The filters that are granted. -/
def granted (rs : List Result) : List Bytes := (rs.filterMap Result.sub).map Sub.filter

/-- The subscriptions on other filters. -/
def without (filters : List Bytes) (subs : List Sub) : List Sub :=
  subs.filter fun sub => filters.all (· ≠ sub.filter)

section Without

variable {f : Bytes} {fs : List Bytes} {subs : List Sub} {s : Session} {sub : Sub}

theorem without_nil : without [] subs = subs := List.filter_eq_self.mpr fun _ _ => rfl

theorem without_cons : without (f :: fs) subs = without fs (Keyed.erase Sub.filter subs f) := by
  unfold without Keyed.erase
  rw [List.filter_filter]
  refine List.filter_congr fun sub _ => ?_
  rw [List.all_cons, Bool.and_comm]
  simp only [ne_eq, eq_comm (a := f)]

theorem without_cons_erase :
    without (f :: fs) subs = Keyed.erase Sub.filter (without fs subs) f := by
  rw [without_cons]
  unfold without Keyed.erase
  rw [List.filter_filter, List.filter_filter]
  exact List.filter_congr fun sub _ => Bool.and_comm _ _

theorem mem_without : sub ∈ without fs subs ↔ sub ∈ subs ∧ sub.filter ∉ fs := by
  unfold without
  rw [List.mem_filter, List.all_eq_true]
  refine and_congr_right fun _ => ?_
  constructor
  · intro h hmem
    exact of_decide_eq_true (h _ hmem) rfl
  · intro h f hf
    refine decide_eq_true fun heq => h ?_
    rw [← heq]
    exact hf

theorem without_put (h : sub.filter ∈ fs) :
    without fs (Keyed.put Sub.filter subs sub) = without fs subs := by
  have hout : ∀ x : Sub, x.filter = sub.filter → fs.all (· ≠ x.filter) = false := by
    intro x hx
    refine List.all_eq_false.mpr ⟨sub.filter, h, ?_⟩
    simp [hx]
  unfold without Keyed.put Keyed.erase
  rw [List.filter_append, List.filter_filter, List.filter_singleton, hout sub rfl, Bool.cond_false,
    List.append_nil]
  refine List.filter_congr fun x _ => ?_
  by_cases hx : x.filter = sub.filter
  · rw [hout x hx, Bool.false_and]
  · rw [decide_eq_true hx, Bool.and_true]

theorem holds_iff : s.holds f = true ↔ ∃ sub ∈ s.subs, sub.filter = f := by
  unfold Session.holds Session.find Keyed.find
  rw [List.find?_isSome]
  simp only [decide_eq_true_eq]

theorem without_eq_self (h : ∀ f ∈ fs, s.holds f = false) : without fs s.subs = s.subs := by
  refine List.filter_eq_self.mpr fun sub hsub => List.all_eq_true.mpr fun f hf => ?_
  refine decide_eq_true fun heq => ?_
  have hheld : s.holds f = true := holds_iff.mpr ⟨sub, hsub, heq.symm⟩
  rw [h f hf] at hheld
  cases hheld

theorem holds_put (sub : Sub) (n : Nat) :
    Session.holds { s with subs := Keyed.put Sub.filter s.subs sub, nextRef := n } f = true ↔
      s.holds f = true ∨ f = sub.filter := by
  rw [holds_iff, holds_iff]
  simp only [Keyed.mem_put]
  constructor
  · rintro ⟨x, ⟨hx, -⟩ | rfl, rfl⟩
    · exact .inl ⟨x, hx, rfl⟩
    · exact .inr rfl
  · rintro (⟨x, hx, rfl⟩ | rfl)
    · by_cases heq : x.filter = sub.filter
      · exact ⟨sub, .inr rfl, heq.symm⟩
      · exact ⟨x, .inl ⟨hx, heq⟩, rfl⟩
    · exact ⟨sub, .inr rfl, rfl⟩

end Without

/-- The answer to a filter: a refusal, or the subscription that was made. -/
def Fits (e : Entry) (r : Result) : Prop :=
  r.sub = none ∧ 0x80 ≤ r.code ∨
    ∃ sub, r.sub = some sub ∧ sub.filter = e.want.filter ∧ r.code < 0x80

/-- What the loop leaves: the subscriptions on filters that were not granted, and those that were,
which of the filters held before are the ones that `grants` says. -/
structure Looped (o : Options) (c : Conn) (s : Session) (es : List Entry)
    (out : Session × List Result) : Prop where
  sound : Sound c out.1
  record : out.1.record = s.record
  claimGen : out.1.claimGen = s.claimGen
  rest : without (granted out.2) out.1.subs = without (granted out.2) s.subs
  holds : ∀ f, out.1.holds f = true ↔ s.holds f = true ∨ f ∈ granted out.2
  among : ∀ f, s.holds f = true →
    (f ∈ granted out.2 ↔ ∃ e ∈ es, e.want.filter = f ∧ grants o e = true)
  fits : List.Forall₂ Fits es out.2

section Loop

variable {o : Options} {c : Conn} {s : Session} {n : Nat}

theorem Looped.refuse {es : List Entry} {rs : Session × List Result}
    (hcode : 0x80 ≤ code) (hgrants : s.holds e.want.filter = true → grants o e = false)
    (h : Looped o c { s with nextRef := n } es rs) :
    Looped o c s (e :: es) (rs.1, { code } :: rs.2) :=
  { h with
    among f hf := by
      refine (h.among f hf).trans ?_
      simp only [List.mem_cons, exists_eq_or_imp]
      refine (or_iff_right ?_).symm
      rintro ⟨rfl, hg⟩
      rw [hgrants hf] at hg
      cases hg
    fits := .cons (.inl ⟨rfl, hcode⟩) h.fits }

theorem Looped.grant {es : List Entry} {existed : Bool} {sub : Sub}
    {rs : Session × List Result} (hfilter : sub.filter = e.want.filter)
    (hcode : sub.grantedQoS < 0x80) (hgrants : s.holds e.want.filter = true → grants o e = true)
    (h : Looped o c { s with subs := Keyed.put Sub.filter s.subs sub, nextRef := n } es rs) :
    Looped o c s (e :: es)
      (rs.1, { sub := some sub, existed, code := sub.grantedQoS } :: rs.2) := by
  have hgranted : granted ({ sub := some sub, existed, code := sub.grantedQoS } :: rs.2) =
      sub.filter :: granted rs.2 := rfl
  refine ⟨h.sound, h.record, h.claimGen, ?_, ?_, ?_, .cons (.inr ⟨sub, rfl, hfilter, hcode⟩) h.fits⟩
  · have hput : without (sub.filter :: granted rs.2) (Keyed.put Sub.filter s.subs sub) =
        without (sub.filter :: granted rs.2) s.subs := without_put List.mem_cons_self
    rw [hgranted, ← hput, without_cons_erase, h.rest, ← without_cons_erase]
  · intro f
    rw [h.holds, holds_put, hgranted, List.mem_cons, or_assoc]
  · intro f hf
    have hheld := (holds_put sub n).mpr (.inl hf)
    rw [hgranted, List.mem_cons, h.among f hheld]
    simp only [List.mem_cons, exists_eq_or_imp]
    refine or_congr_left ?_
    rw [hfilter]
    constructor
    · rintro rfl
      exact ⟨rfl, hgrants hf⟩
    · rintro ⟨rfl, -⟩
      rfl

/-- The loop, by one filter after the other. -/
theorem Sound.subscribeAll (h : Sound c s) (o : Options) (subID : Int) (es : List Entry) :
    Looped o c s es (subscribeAll o c subID s es) := by
  induction es generalizing s with
  | nil =>
    exact ⟨h, rfl, rfl, rfl, fun f => by simp [granted, Subscribe.subscribeAll],
      fun f _ => by simp [granted, Subscribe.subscribeAll], .nil⟩
  | cons e es ih =>
    unfold Subscribe.subscribeAll
    obtain ⟨hone, hgrants⟩ := h.subscribeOne o subID e
    generalize Subscribe.subscribeOne o c subID s e = r at hone hgrants
    cases hone with
    | refused n hcode =>
      exact .refuse hcode (fun hs => (hgrants hs).symm) (ih (h.next n))
    | granted n existed hfilter hbound hcode =>
      refine .grant hfilter hcode (fun hs => (hgrants hs).symm) (ih ⟨h.conn, ?_⟩)
      intro x hx
      rcases (Keyed.mem_put Sub.filter).mp hx with ⟨hx, -⟩ | rfl
      · exact h.bound x hx
      · exact hbound

end Loop

/-! ## The record -/

/-- The connection owns the session and its record. -/
structure Owned (c : Conn) (s : State) : Prop where
  sound : Sound c s.session
  recorded : s.session.record ≠ none
  claim : s.session.claimGen = c.claimGen

/-- The stored record has the session's subscriptions. -/
def Follows (s : State) : Prop := s.record = s.session.storedSubs

section Record

variable {c : Conn} {s : State} {t : Session}

theorem Owned.persist (h : Owned c s) :
    Owned c (persistSession s c) ∧ Follows (persistSession s c) ∧
      ∀ f, (persistSession s c).session.holds f = s.session.holds f := by
  have hsnap : s.session.snapshot c.claimGen = some s.session.storedSubs := by
    refine if_neg ?_
    rw [not_or, Option.isNone_iff_eq_none, not_not]
    exact ⟨h.recorded, h.claim.symm⟩
  have hcommit : s.session.commitRecord c.claimGen s.session.storedSubs =
      { s.session with record := some s.session.storedSubs } := by
    refine if_neg ?_
    rw [not_not]
    exact h.claim.symm
  unfold persistSession
  rw [hsnap]
  dsimp only
  rw [hcommit]
  exact ⟨⟨⟨h.sound.conn, h.sound.bound⟩, Option.some_ne_none _, h.claim⟩, rfl, fun _ => rfl⟩

theorem setSince_nil (t : Session) (last : Nat) : t.setSince [] last = t := by
  unfold Session.setSince
  have hmap : t.subs.map (fun sub => if ([] : List Sub).any (·.ref == sub.ref) && sub.since.isNone
      then { sub with since := some last } else sub) = t.subs :=
    List.map_id'' (fun _ => rfl) t.subs
  rw [hmap]

theorem setSince_holds (t : Session) (fresh : List Sub) (last : Nat) (f : Bytes) :
    (t.setSince fresh last).holds f = t.holds f := by
  rw [Bool.eq_iff_iff, holds_iff, holds_iff]
  unfold Session.setSince
  simp only [List.mem_map]
  constructor
  · rintro ⟨-, ⟨x, hx, rfl⟩, rfl⟩
    refine ⟨x, hx, ?_⟩
    split_ifs <;> rfl
  · rintro ⟨x, hx, rfl⟩
    refine ⟨_, ⟨x, hx, rfl⟩, ?_⟩
    split_ifs <;> rfl

theorem Sound.readSince (h : Sound c t) (rs : List Result) (last : Option Nat) :
    Sound c (readSince t rs last) := by
  cases last with
  | none => exact h
  | some last =>
    refine ⟨h.conn, ?_⟩
    intro y hy
    obtain ⟨x, hx, rfl⟩ := List.mem_map.mp hy
    have hb := h.bound x hx
    split_ifs <;> exact hb

theorem readSince_holds (rs : List Result) (last : Option Nat) (f : Bytes) :
    (readSince t rs last).holds f = t.holds f := by
  cases last with
  | none => rfl
  | some last => exact setSince_holds t _ last f

theorem readSince_record (rs : List Result) (last : Option Nat) :
    (readSince t rs last).record = t.record ∧ (readSince t rs last).claimGen = t.claimGen := by
  cases last <;> exact ⟨rfl, rfl⟩

theorem readSince_of_none {rs : List Result} (h : granted rs = []) (last : Option Nat) :
    readSince t rs last = t := by
  have hnil : rs.filterMap Result.sub = [] := List.map_eq_nil_iff.mp h
  cases last with
  | none => rfl
  | some last =>
    unfold readSince
    dsimp only
    rw [hnil]
    exact setSince_nil t last

end Record

/-! ## A packet -/

theorem anyGranted_iff : anyGranted rs = true ↔ granted rs ≠ [] := by
  unfold anyGranted granted
  rw [List.any_eq_true, ne_eq, List.map_eq_nil_iff, List.filterMap_eq_nil_iff]
  simp only [not_forall, Option.isSome_iff_ne_none, exists_prop, ne_eq]

theorem granted_unconfirmed (rs : List Result) : granted (rs.map Result.unconfirmed) = [] := by
  unfold granted
  rw [List.map_eq_nil_iff, List.filterMap_eq_nil_iff]
  intro r hr
  obtain ⟨x, -, rfl⟩ := List.mem_map.mp hr
  unfold Result.unconfirmed
  split_ifs with h
  · rfl
  · exact Option.not_isSome_iff_eq_none.mp h

theorem dropGranted_eq (s : Session) (rs : List Result) :
    dropGranted s rs = { s with subs := without (granted rs) s.subs } := by
  unfold dropGranted granted
  generalize rs.filterMap Result.sub = subs
  induction subs generalizing s with
  | nil =>
    rw [List.map_nil, without_nil]
    rfl
  | cons sub subs ih =>
    rw [List.foldl_cons, ih, List.map_cons, without_cons]
    rfl

/-- A filter that is granted is answered so. -/
theorem answered_of_granted {es : List Entry} (h : List.Forall₂ Fits es rs)
    {f : Bytes} (hf : f ∈ granted rs) :
    ∃ x ∈ es.zip (rs.map Result.code), x.1.want.filter = f ∧ x.2 < 0x80 := by
  induction h with
  | nil => cases hf
  | @cons e r es rs hfits _ ih =>
    rw [List.map_cons, List.zip_cons_cons]
    have hrest : f ∈ granted rs → ∃ x ∈ (e, r.code) :: es.zip (rs.map Result.code),
        x.1.want.filter = f ∧ x.2 < 0x80 := by
      intro hf
      obtain ⟨x, hx, hspec⟩ := ih hf
      exact ⟨x, List.mem_cons_of_mem _ hx, hspec⟩
    rcases hfits with ⟨hnone, -⟩ | ⟨sub, hsub, hfilter, hcode⟩
    · unfold granted at hf
      rw [List.filterMap_cons_none hnone] at hf
      exact hrest hf
    · unfold granted at hf
      rw [List.filterMap_cons_some hsub, List.map_cons] at hf
      rcases List.mem_cons.mp hf with rfl | hf
      · exact ⟨_, List.mem_cons_self, hfilter.symm, hcode⟩
      · exact hrest hf

/-- What a SUBACK may say: a filter that it answers with 0x80 or more is held after it only if it
was held before, or the same SUBACK grants it as well. -/
def Answered (p : Packet) (s t : State) (codes : List UInt8) : Prop :=
  ∀ x ∈ p.entries.zip codes, 0x80 ≤ x.2 → t.session.holds x.1.want.filter = true →
    s.session.holds x.1.want.filter = true ∨
      ∃ y ∈ p.entries.zip codes, y.1.want.filter = x.1.want.filter ∧ y.2 < 0x80

/-- The flush fails, and one of the filters that pass is held. -/
def Packet.loses (o : Options) (s : State) (p : Packet) : Bool :=
  !p.protocolError && !p.flush &&
    p.entries.any fun e => s.session.holds e.want.filter && grants o e

section Packets

variable {o : Options} {c : Conn} {s : State} {p : Packet} {t : Session}

theorem loses_iff (hp : p.protocolError = false) (hflush : p.flush = false) :
    p.loses o s = true ↔
      ∃ f, s.session.holds f = true ∧ ∃ e ∈ p.entries, e.want.filter = f ∧ grants o e = true := by
  unfold Packet.loses
  rw [hp, hflush]
  simp only [Bool.not_false, Bool.true_and, List.any_eq_true, Bool.and_eq_true]
  constructor
  · rintro ⟨e, he, hheld, hg⟩
    exact ⟨_, hheld, e, he, rfl, hg⟩
  · rintro ⟨f, hheld, e, he, rfl, hg⟩
    exact ⟨e, he, hheld, hg⟩

theorem loses_of_flush (hflush : p.flush = true) : p.loses o s = false := by
  unfold Packet.loses
  rw [hflush, Bool.not_true, Bool.and_false, Bool.false_and]

/-- The live set without some of its filters is another one. -/
theorem storedSubs_without {t' : Session} {fs : List Bytes} (h : t'.subs = without fs t.subs) :
    t.storedSubs = t'.storedSubs ↔ ∀ f ∈ fs, t.holds f = false := by
  constructor
  · intro heq f hf
    refine Bool.eq_false_iff.mpr fun hheld => ?_
    obtain ⟨sub, hsub, rfl⟩ := holds_iff.mp hheld
    have hmem : Session.stored sub ∈ t.storedSubs := by
      unfold Session.storedSubs
      rw [List.mem_insertionSort]
      exact List.mem_map_of_mem hsub
    rw [heq] at hmem
    unfold Session.storedSubs at hmem
    rw [List.mem_insertionSort, h] at hmem
    obtain ⟨x, hx, hstored⟩ := List.mem_map.mp hmem
    have hfilter : x.filter = sub.filter := congrArg StoredSubscription.filter hstored
    exact (mem_without.mp hx).2 (hfilter ▸ hf)
  · intro hnone
    rw [without_eq_self hnone] at h
    unfold Session.storedSubs
    rw [h]

/-- What handling a packet leaves. -/
structure Handled (o : Options) (c : Conn) (s : State) (p : Packet)
    (r : State × Option (List UInt8)) : Prop where
  owned : Owned c r.1
  follows : Follows r.1 ↔ p.loses o s = false
  answered : ∀ codes, r.2 = some codes → Answered p s r.1 codes

theorem Owned.unconfirmed (h : Owned c s) (hs : Follows s) (hp : p.protocolError = false)
    (hflush : p.flush = false) (hloop : Looped o c s.session p.entries (session, rs)) :
    Handled o c s p
      ({ s with session := dropGranted session rs }, some ((rs.map Result.unconfirmed).map
        Result.code)) := by
  rw [dropGranted_eq, hloop.rest]
  refine ⟨⟨⟨hloop.sound.conn, ?_⟩, ?_, hloop.claimGen.trans h.claim⟩, ?_, ?_⟩
  · exact fun sub hsub => h.sound.bound sub (mem_without.mp hsub).1
  · rw [hloop.record]
    exact h.recorded
  · unfold Follows at hs ⊢
    have hsubs : Session.subs { session with subs := without (granted rs) s.session.subs } =
        without (granted rs) s.session.subs := rfl
    rw [hs, storedSubs_without hsubs, ← Bool.not_eq_true, loses_iff hp hflush]
    constructor
    · rintro hnone ⟨f, hheld, he⟩
      rw [hnone f ((hloop.among f hheld).mpr he)] at hheld
      cases hheld
    · intro hnone f hf
      refine Bool.eq_false_iff.mpr fun hheld => hnone ⟨f, hheld, (hloop.among f hheld).mp hf⟩
  · rintro codes - x - - hheld
    obtain ⟨sub, hsub, hfilter⟩ := holds_iff.mp hheld
    exact .inl (holds_iff.mpr ⟨sub, (mem_without.mp hsub).1, hfilter⟩)

theorem Owned.confirmed (h : Owned c s) (hs : Follows s)
    (hp : p.protocolError = false) (hok : granted rs ≠ [] → p.flush = true)
    (hloop : Looped o c s.session p.entries (session, rs)) : Handled o c s p
      (if anyGranted rs then persistSession { s with session := readSince session rs p.last } c
        else { s with session := readSince session rs p.last }, some (rs.map Result.code)) := by
  obtain ⟨hrecord, hclaim⟩ := readSince_record (t := session) rs p.last
  have howned : Owned c { s with session := readSince session rs p.last } := by
    refine ⟨hloop.sound.readSince rs p.last, ?_, ?_⟩
    · rw [hrecord, hloop.record]
      exact h.recorded
    · rw [hclaim, hloop.claimGen]
      exact h.claim
  -- what is held is what the loop left, written or not
  have hanswered : ∀ t : State, (∀ f, t.session.holds f = session.holds f) →
      Answered p s t (rs.map Result.code) := by
    intro t ht x _ _ hheld
    rw [ht, hloop.holds] at hheld
    exact hheld.imp_right (answered_of_granted hloop.fits)
  have hheld : ∀ f, (readSince session rs p.last).holds f = session.holds f :=
    readSince_holds rs p.last
  by_cases hany : anyGranted rs = true
  · have hflush := hok (anyGranted_iff.mp hany)
    obtain ⟨hown, hfollows, hsame⟩ := howned.persist
    rw [if_pos hany]
    refine ⟨hown, iff_of_true hfollows ?_, ?_⟩
    · exact loses_of_flush hflush
    · rintro codes hcodes
      cases hcodes
      exact hanswered _ fun f => (hsame f).trans (hheld f)
  · have hnil : granted rs = [] := by
      by_contra hne
      exact hany (anyGranted_iff.mpr hne)
    have hsubs : session.subs = s.session.subs := by
      have hrest := hloop.rest
      rwa [hnil, without_nil, without_nil] at hrest
    rw [if_neg hany]
    refine ⟨howned, iff_of_true ?_ ?_, ?_⟩
    · unfold Follows Session.storedSubs
      rw [readSince_of_none hnil, hsubs]
      exact hs
    · cases hflush : p.flush with
      | true => exact loses_of_flush hflush
      | false =>
        refine Bool.eq_false_iff.mpr fun hloses => ?_
        obtain ⟨f, hf, he⟩ := (loses_iff hp hflush).mp hloses
        have hmem := (hloop.among f hf).mpr he
        rw [hnil] at hmem
        cases hmem
    · rintro codes hcodes
      cases hcodes
      exact hanswered _ hheld

theorem Owned.handleSubscribe (h : Owned c s) (hs : Follows s) :
    Handled o c s p (handleSubscribe o c s p) := by
  unfold Subscribe.handleSubscribe
  split_ifs with hp
  · refine ⟨h, iff_of_true hs ?_, ?_⟩
    · unfold Packet.loses
      rw [hp]
      rfl
    · rintro codes hcodes
      cases hcodes
  · have hp' : p.protocolError = false := Bool.eq_false_iff.mpr hp
    have hloop := h.sound.subscribeAll o (p.ids.headD 0) p.entries
    generalize subscribeAll o c (p.ids.headD 0) s.session p.entries = r at hloop
    obtain ⟨session, rs⟩ := r
    dsimp only
    unfold Subscribe.confirmed
    by_cases hfail : (anyGranted rs && !p.flush) = true
    · rw [if_pos hfail]
      dsimp only
      have hnone : ¬ anyGranted (rs.map Result.unconfirmed) = true := fun hany =>
        anyGranted_iff.mp hany (granted_unconfirmed rs)
      rw [Bool.and_eq_true, Bool.not_eq_true'] at hfail
      rw [if_neg hnone, readSince_of_none (granted_unconfirmed rs)]
      exact h.unconfirmed hs hp' hfail.2 hloop
    · rw [if_neg hfail]
      refine h.confirmed hs hp' ?_ hloop
      intro hne
      rw [anyGranted_iff.mpr hne, Bool.true_and, Bool.not_eq_true', Bool.not_eq_false] at hfail
      exact hfail

/-- The loop of an UNSUBSCRIBE: the session is as it was when nothing was removed. -/
theorem Sound.unsubscribeAll (h : Sound c t) (filters : List Bytes) :
    ∃ removed codes, (unsubscribeAll c t filters).2 = some (removed, codes) ∧
      Sound c (unsubscribeAll c t filters).1 ∧
      (unsubscribeAll c t filters).1.record = t.record ∧
      (unsubscribeAll c t filters).1.claimGen = t.claimGen ∧
      (removed = false → (unsubscribeAll c t filters).1 = t) := by
  induction filters generalizing t with
  | nil => exact ⟨false, [], rfl, h, rfl, rfl, fun _ => rfl⟩
  | cons f filters ih =>
    have hconn : ¬ t.conn ≠ some c.num := fun hne => hne h.conn
    unfold Subscribe.unsubscribeAll
    rw [if_neg hconn]
    dsimp only
    cases hheld : t.holds f with
    | true =>
      have hremove : Sound c (t.removeSubscription f) :=
        ⟨h.conn, fun sub hsub => h.bound sub ((Keyed.mem_erase Sub.filter).mp hsub).1⟩
      obtain ⟨removed, codes, hall, hsound, hrecord, hclaim, -⟩ := ih hremove
      rw [if_pos rfl, if_pos rfl, hall]
      exact ⟨_, _, rfl, hsound, hrecord, hclaim, nofun⟩
    | false =>
      obtain ⟨removed, codes, hall, hsound, hrecord, hclaim, hsame⟩ := ih h
      rw [if_neg Bool.false_ne_true, if_neg Bool.false_ne_true, hall]
      exact ⟨removed, _, rfl, hsound, hrecord, hclaim, hsame⟩

theorem Owned.handleUnsubscribe (h : Owned c s) (hs : Follows s) (filters : List Bytes) :
    Owned c (handleUnsubscribe c s filters).1 ∧ Follows (handleUnsubscribe c s filters).1 := by
  obtain ⟨removed, codes, hall, hsound, hrecord, hclaim, hsame⟩ := h.sound.unsubscribeAll filters
  unfold Subscribe.handleUnsubscribe
  generalize Subscribe.unsubscribeAll c s.session filters = r at hall hsound hrecord hclaim hsame
  obtain ⟨session, out⟩ := r
  obtain rfl : out = some (removed, codes) := hall
  have howned : Owned c { s with session } := by
    refine ⟨hsound, ?_, hclaim.trans h.claim⟩
    rw [show session.record = s.session.record from hrecord]
    exact h.recorded
  dsimp only
  cases removed with
  | true =>
    obtain ⟨hown, hfollows, -⟩ := howned.persist
    exact ⟨hown, hfollows⟩
  | false =>
    refine ⟨howned, ?_⟩
    rw [show session = s.session from hsame rfl]
    exact hs

end Packets

/-! ## Runs -/

inductive Act
  | subscribe (p : Packet)
  | unsubscribe (filters : List Bytes)

/-- A packet, handled to the end, with the codes of its acknowledgement. -/
def handle (o : Options) (c : Conn) (s : State) : Act → State × Option (List UInt8)
  | .subscribe p => handleSubscribe o c s p
  | .unsubscribe filters => handleUnsubscribe c s filters

def step (o : Options) (c : Conn) (s : State) (a : Act) : Option State := some (handle o c s a).1

/-- A SUBSCRIBE whose flush fails names no held filter that passes. -/
def Act.keeps (o : Options) (s : State) : Act → Bool
  | .subscribe p => !p.loses o s
  | .unsubscribe _ => true

/-- What is to hold when a packet has been handled. -/
structure InLine (o : Options) (c : Conn) (s : State) (a : Act) : Prop where
  follows : Follows (handle o c s a).1
  answered : ∀ p codes, a = .subscribe p → (handle o c s a).2 = some codes →
    Answered p s (handle o c s a).1 codes

section Runs

variable {o : Options} {c : Conn} {s s₀ : State} {a : Act}

theorem Owned.inLine (h : Owned c s) (hs : Follows s) (a : Act) :
    Owned c (handle o c s a).1 ∧ (InLine o c s a ↔ a.keeps o s = true) := by
  cases a with
  | subscribe p =>
    obtain ⟨howned, hfollows, hanswered⟩ := h.handleSubscribe hs (o := o) (p := p)
    refine ⟨howned, ?_⟩
    unfold Act.keeps
    rw [Bool.not_eq_true', ← hfollows]
    constructor
    · exact InLine.follows
    · intro hf
      refine ⟨hf, ?_⟩
      rintro p' codes heq hcodes
      cases heq
      exact hanswered codes hcodes
  | unsubscribe filters =>
    obtain ⟨howned, hfollows⟩ := h.handleUnsubscribe hs filters
    refine ⟨howned, iff_of_true ⟨hfollows, ?_⟩ rfl⟩
    rintro p codes heq
    cases heq

/-- **The stored subscriptions follow the live ones.** In a run where no SUBSCRIBE whose flush fails
names a held filter that passes, the record is the live set after every packet and no refused filter
is held that was not; and this holds of a further packet exactly when it is not such a SUBSCRIBE. -/
theorem stored_follows_live (h₀ : Owned c s₀) (hs₀ : Follows s₀)
    (hrun : Reach (step o c) (fun s a => a.keeps o s = true) s₀ s) :
    Follows s ∧ ∀ a, InLine o c s a ↔ a.keeps o s = true := by
  have hstep : ∀ s a t, Owned c s ∧ Follows s → a.keeps o s = true → step o c s a = some t →
      Owned c t ∧ Follows t := by
    rintro s a t ⟨h, hs⟩ hkeeps heq
    cases heq
    obtain ⟨howned, hiff⟩ := h.inLine hs (o := o) a
    exact ⟨howned, (hiff.mpr hkeeps).follows⟩
  obtain ⟨howned, hfollows⟩ := hrun.invariant ⟨h₀, hs₀⟩ hstep
  exact ⟨hfollows, fun a => (howned.inLine hfollows a).2⟩

end Runs

/-! ## Two runs -/

/-- A connection and its session, new. -/
def served : Conn := ⟨1, 1⟩

def freshState : State := ⟨{ conn := some 1, record := some [], claimGen := 1 }, []⟩

/-- A SUBSCRIBE to `a` at QoS 1. -/
def subscribeA (flush : Bool) : Packet :=
  { entries := [{ want := ⟨[97], 1, false, false, 0⟩ }], flush }

theorem freshState_owned : Owned served freshState :=
  ⟨⟨rfl, List.forall_mem_nil _⟩, Option.some_ne_none _, rfl⟩

/-- The flush of a first SUBSCRIBE fails, and that of a second does not. -/
theorem stored_follows_live_twice :
    InLine {} served freshState (.subscribe (subscribeA false)) ∧
      InLine {} served (handle {} served freshState (.subscribe (subscribeA false))).1
        (.subscribe (subscribeA true)) := by
  have hfirst : Act.keeps {} freshState (.subscribe (subscribeA false)) = true := by decide +kernel
  refine ⟨?_, ?_⟩
  · exact ((stored_follows_live freshState_owned rfl .refl).2 _).mpr hfirst
  · refine ((stored_follows_live freshState_owned rfl (.tail .refl hfirst rfl)).2 _).mpr ?_
    decide +kernel

/-- `a` is subscribed to twice, and the second flush fails: the client is told 0x83, the session no
longer holds `a`, and the record does. -/
theorem stored_left_behind :
    let s := (handle {} served freshState (.subscribe (subscribeA true))).1
    let r := handle {} served s (.subscribe (subscribeA false))
    Follows s ∧ r.2 = some [0x83] ∧ r.1.session.subs = [] ∧
      r.1.record.map StoredSubscription.filter = [[97]] ∧ ¬ Follows r.1 := by
  refine ⟨?_, ?_, ?_, ?_, ?_⟩
  · unfold Follows
    decide +kernel
  · decide +kernel
  · decide +kernel
  · decide +kernel
  · unfold Follows
    decide +kernel

end Natsmqtt5.Subscribe
