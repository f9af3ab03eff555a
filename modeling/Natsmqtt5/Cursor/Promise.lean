import Natsmqtt5.Cursor.Facts
import Natsmqtt5.Cursor.Replay

/-!
# What a replay has promised

A message that is stored is owed to a subscription that matches it and was made before it. While a
SUBSCRIBE is handled, that may be decided by a `since` that was read and is not set. `Promised` is
both.

Results:
* `Outcome.of_step`: what a step of the replay, or beside it, can do.
* `promised_of_subscribe`, `promised_of_readSince`, `promised_of_setSince`: a message is never
  promised later than when it was stored.
* `Handled.settled`: a message that `handle` has had was delivered before, is replayed, or is
  unwanted.
-/

namespace Natsmqtt5.Cursor.Replay

variable {ι φ τ : Type} {topicMatch : φ → τ → Bool} {reads : List (Sub φ) → τ → Bool} {b : Bounds}
  {s s' : State ι φ τ} {m : Msg ι τ}

/-! ## Promises -/

/-- The subscription is owed the message, or will be with what was read for it. -/
def PromisedBy (topicMatch : φ → τ → Bool) (s : State ι φ τ) (sub : Sub φ) (m : Msg ι τ) : Prop :=
  sub.takes topicMatch m = true ∧ ((∃ n, sub.since = some n ∧ n < m.seq) ∨
    sub.since = none ∧ ∃ r ∈ s.reads, r.ref = sub.ref ∧ r.last < m.seq)

def Promised (topicMatch : φ → τ → Bool) (s : State ι φ τ) (m : Msg ι τ) : Prop :=
  ∃ sub ∈ s.session.subs, PromisedBy topicMatch s sub m

theorem promised_of_owes (h : ∃ sub ∈ s.session.subs, sub.owes topicMatch m = true) :
    Promised topicMatch s m := by
  obtain ⟨sub, hsub, howes⟩ := h
  obtain ⟨htakes, hsince⟩ := owes_iff.mp howes
  exact ⟨sub, hsub, htakes, .inl hsince⟩

/-- The subscriptions and the reads are as they were, or fewer. -/
theorem Promised.keep (h : Promised topicMatch s' m)
    (hsubs : ∀ x ∈ s'.session.subs, x ∈ s.session.subs) (hreads : ∀ r ∈ s'.reads, r ∈ s.reads) :
    Promised topicMatch s m := by
  obtain ⟨sub, hsub, htakes, hsince | ⟨hnone, r, hr, hlt⟩⟩ := h
  · exact ⟨sub, hsubs sub hsub, htakes, .inl hsince⟩
  · exact ⟨sub, hsubs sub hsub, htakes, .inr ⟨hnone, r, hreads r hr, hlt⟩⟩

/-! ## What a step can do -/

/-- What `handle` does with a message. -/
inductive Handled (topicMatch : φ → τ → Bool) (s : State ι φ τ) (m : Msg ι τ) : State ι φ τ → Prop
  | known (h : m.id ∈ s.delivered ∨ m.id ∈ s.replayed) :
      Handled topicMatch s m { s with streamNext := m.seq + 1 }
  | sent {t : Session ι φ} (hsubs : t.subs = s.session.subs) (hconn : t.conn = s.session.conn)
      (hcur : t.cur.next = 0 ∨ t.cur.next = s.session.cur.next) :
      Handled topicMatch s m
        { s with streamNext := m.seq + 1, replayed := s.replayed ++ [m.id], session := t }
  | unwanted (h : ∀ sub ∈ s.session.subs, ¬ sub.takes topicMatch m = true) :
      Handled topicMatch s m { s with streamNext := m.seq + 1, unwanted := s.unwanted ++ [m] }

theorem Handled.of_eq [DecidableEq ι] (s : State ι φ τ) (now : Nat) (m : Msg ι τ) :
    Handled topicMatch s m (handle topicMatch b s now m) := by
  unfold handle
  dsimp only
  split
  · rename_i h
    exact .known h
  · split
    · have hn := noteDelivered_spec b s.session now m.id m.seq
      exact .sent hn.subs hn.conn (hn.cur.imp_right And.left)
    · rename_i h
      refine .unwanted fun sub hsub htakes => h ?_
      exact List.any_eq_true.mpr ⟨sub, hsub, htakes⟩

inductive Outcome [DecidableEq φ] (topicMatch : φ → τ → Bool) (reads : List (Sub φ) → τ → Bool)
    (s : State ι φ τ) : State ι φ τ → Prop
  | store {m : Msg ι τ} (hseq : s.last < m.seq)
      (hc : ∀ subs held, s.phase = .ask subs held → ∀ sub ∈ s.session.subs,
        sub.takes topicMatch m = true → (sub.since.isSome = true ∨ ∃ r ∈ s.reads, r.ref = sub.ref) →
        reads subs m.name = true) :
      Outcome topicMatch reads s { s with stream := s.stream ++ [m], last := m.seq }
  | expire {stream : List (Msg ι τ)} (h : stream.Sublist s.stream) :
      Outcome topicMatch reads s { s with stream := stream }
  | subscribe {c : Nat} {sub : Sub φ} {t : Session ι φ} {had : Bool} (href : sub.ref = s.nextRef)
      (hnone : sub.since = none) (h : s.session.installSubscription c sub = some t) :
      Outcome topicMatch reads s
        { s with
          session := t, nextRef := s.nextRef + 1, installed := s.installed ++ [(s.nextRef, had)] }
  | unsubscribe (filter : φ) :
      Outcome topicMatch reads s
        { s with session := { s.session with subs := Keyed.erase Sub.filter s.session.subs filter }
            }
  | readSince {p : Nat × Bool} {rest : List (Nat × Bool)} (hp : p ∈ s.installed)
      (hrest : ∀ x ∈ rest, x ∈ s.installed) :
      Outcome topicMatch reads s
        { s with installed := rest, reads := s.reads ++ [⟨p.1, s.last, p.2⟩] }
  | setSince {r : Read} {rest : List Read} {c floor : Nat} (hr : r ∈ s.reads)
      (hrest : ∀ x ∈ rest, x ∈ s.reads) :
      Outcome topicMatch reads s
        { s with
          reads := rest
          session := s.session.setSince c [r.ref] r.last true r.hadNonShared floor }
  | close : Outcome topicMatch reads s { s with closed := true }
  | holesRead {held : Nat} (hp : s.phase = .holes [] held) :
      Outcome topicMatch reads s { s with phase := .narrow held }
  | holeGone {seq : Nat} {todo : List Nat} {held : Nat} (hp : s.phase = .holes (seq :: todo) held)
      (hm : ∀ m ∈ s.stream, m.seq ≠ seq) :
      Outcome topicMatch reads s { s with phase := .holes todo held }
  | holeRead {m : Msg ι τ} {todo : List Nat} {held : Nat} {t : State ι φ τ}
      (hp : s.phase = .holes (m.seq :: todo) held) (hm : m ∈ s.stream)
          (ht : Handled topicMatch s m t) :
      Outcome topicMatch reads s { t with phase := .holes todo m.seq }
  | narrow {held : Nat} (hp : s.phase = .narrow held) :
      Outcome topicMatch reads s { s with phase := .ask s.session.subs held }
  | ask {subs : List (Sub φ)} {held : Nat} (hp : s.phase = .ask subs held) :
      Outcome topicMatch reads s { s with phase := .read subs held s.view.next s.last }
  | read {m : Msg ι τ} {subs : List (Sub φ)} {held pos last : Nat} {t : State ι φ τ}
      (hp : s.phase = .read subs held pos last)
      (hm : nextRead reads s subs pos last = some m) (ht : Handled topicMatch s m t) :
      Outcome topicMatch reads s { t with phase := .read subs held (m.seq + 1) last }
  | readEnd {subs : List (Sub φ)} {held pos last : Nat} (hp : s.phase = .read subs held pos last)
      (hm : nextRead reads s subs pos last = none) :
      Outcome topicMatch reads s { s with streamNext := 0, phase := .complete (max held last) }
  | retry (hp : s.phase ≠ .ended) :
      Outcome topicMatch reads s { s with phase := .holes (holeSeqs s.view) 0 }
  | ended {t : Session ι φ} : Outcome topicMatch reads s { s with phase := .ended, session := t }

/-- Between the two reads, what is stored for a subscription of the session is on a topic that is
read. -/
def covered (topicMatch : φ → τ → Bool) (reads : List (Sub φ) → τ → Bool) (s : State ι φ τ) :
    Act ι φ τ → Bool
  | .store m =>
    match s.phase with
    | .ask subs _ => s.session.subs.all fun sub =>
        !sub.takes topicMatch m || !(sub.since.isSome || s.reads.any (·.ref == sub.ref)) ||
          reads subs m.name
    | _ => true
  | _ => true

theorem covered_store (h : covered topicMatch reads s (.store m) = true)
    (subs : List (Sub φ)) (held : Nat) (hp : s.phase = .ask subs held) :
    ∀ sub ∈ s.session.subs, sub.takes topicMatch m = true →
      (sub.since.isSome = true ∨ ∃ r ∈ s.reads, r.ref = sub.ref) → reads subs m.name = true := by
  intro sub hsub htakes hsince
  simp only [covered, hp, List.all_eq_true] at h
  have hs : (sub.since.isSome || s.reads.any (·.ref == sub.ref)) = true := by
    rw [Bool.or_eq_true, List.any_eq_true]
    refine hsince.imp_right ?_
    rintro ⟨r, hr, he⟩
    exact ⟨r, hr, by simpa using he⟩
  simpa [htakes, hs] using h sub hsub

theorem Outcome.of_step [DecidableEq ι] [DecidableEq φ] [DecidableEq τ] {a : Act ι φ τ}
    (hc : covered topicMatch reads s a = true) (h : step topicMatch reads b s a = some s') :
    Outcome topicMatch reads s s' := by
  cases a with
  | store m =>
    simp only [step, Option.ite_none_right_eq_some, Option.some.injEq] at h
    obtain ⟨hseq, rfl⟩ := h
    exact .store hseq (covered_store hc)
  | expire m =>
    cases h
    exact .expire List.erase_sublist
  | subscribe filter shared grantedQoS noLocal =>
    obtain ⟨t, ht, rfl⟩ := Option.map_eq_some_iff.mp h
    exact .subscribe rfl rfl ht
  | unsubscribe filter =>
    cases h
    exact .unsubscribe filter
  | readSince i =>
    simp only [step] at h
    split at h
    · rename_i ref had hp
      obtain ⟨hmem, hrest⟩ := mem_of_getElem? hp
      cases h
      exact .readSince hmem hrest
    · cases h
  | setSince i =>
    simp only [step] at h
    split at h
    · rename_i r hr
      obtain ⟨hmem, hrest⟩ := mem_of_getElem? hr
      cases h
      exact .setSince hmem hrest
    · cases h
  | close =>
    cases h
    exact .close
  | nextHole now =>
    simp only [step] at h
    split at h
    · rename_i held hp
      rw [Option.ite_none_left_eq_some, Option.some.injEq] at h
      obtain ⟨-, rfl⟩ := h
      exact .holesRead hp
    · rename_i seq todo held hp
      split at h
      · rename_i m hm
        rw [Option.ite_none_left_eq_some, Option.some.injEq] at h
        obtain ⟨-, rfl⟩ := h
        obtain rfl := Keyed.key_of_find _ hm
        exact .holeRead hp (Keyed.mem_of_find _ hm) (.of_eq s now m)
      · rename_i hm
        cases h
        refine .holeGone hp fun m hmem he => ?_
        have hsome := find_isSome.mpr ⟨m, hmem, he⟩
        rw [hm] at hsome
        exact absurd hsome (by simp)
    · cases h
  | narrow =>
    simp only [step] at h
    split at h <;> cases h
    rename_i held hp
    exact .narrow hp
  | ask =>
    simp only [step] at h
    split at h <;> cases h
    rename_i subs held hp
    exact .ask hp
  | next now =>
    simp only [step] at h
    split at h
    · rename_i subs held pos last hp
      rw [Option.ite_none_left_eq_some] at h
      obtain ⟨-, h⟩ := h
      split at h <;> cases h
      · rename_i m hm
        exact .read hp hm (.of_eq s now m)
      · rename_i hm
        exact .readEnd hp hm
    · cases h
  | retry =>
    have hs : { s with phase := .holes (holeSeqs s.view) 0 } = s' ∧ s.phase ≠ .ended := by
      simp only [step] at h
      split at h <;> simp_all
    obtain ⟨rfl, hp⟩ := hs
    exact .retry hp
  | fail =>
    have hs : { s with phase := .ended } = s' := by
      simp only [step] at h
      split at h <;> simp_all
    subst hs
    exact .ended
  | finish =>
    simp only [step] at h
    split at h <;> cases h
    exact .ended

/-! ## What later states keep -/

/-- `handle` has settled the message. -/
def Settled (s : State ι φ τ) (m : Msg ι τ) : Prop :=
  m.id ∈ s.delivered ∨ m.id ∈ s.replayed ∨ m ∈ s.unwanted

/-- The same replay, later. -/
structure Later (topicMatch : φ → τ → Bool) (s s' : State ι φ τ) : Prop where
  view : s'.view = s.view
  last : s.last ≤ s'.last
  stream : ∀ m ∈ s'.stream, m ∈ s.stream ∨ s.last < m.seq
  settled : ∀ m, Settled s m → Settled s' m
  promised : ∀ m, m.seq ≤ s.last → Promised topicMatch s' m → Promised topicMatch s m

theorem Handled.later (h : Handled topicMatch s m s') : Later topicMatch s s' := by
  cases h with
  | known h => exact ⟨rfl, Nat.le_refl _, fun _ => .inl, fun _ => id, fun _ _ => id⟩
  | sent hsubs hconn hcur =>
    refine ⟨rfl, Nat.le_refl _, fun _ => .inl, fun x hx => ?_, fun x _ hx => ?_⟩
    · rcases hx with hd | hr | hu
      · exact .inl hd
      · exact .inr (.inl (List.mem_append_left _ hr))
      · exact .inr (.inr hu)
    · refine hx.keep (fun sub hsub => ?_) fun _ hr => hr
      rwa [← hsubs]
  | unwanted h =>
    refine ⟨rfl, Nat.le_refl _, fun _ => .inl, fun x hx => ?_, fun _ _ => id⟩
    rcases hx with hd | hr | hu
    · exact .inl hd
    · exact .inr (.inl hr)
    · exact .inr (.inr (List.mem_append_left _ hu))

theorem Handled.settled (h : Handled topicMatch s m s') : Settled s' m := by
  cases h with
  | known h => exact h.imp_right .inl
  | sent _ _ _ => exact .inr (.inl (List.mem_append_right _ List.mem_cons_self))
  | unwanted _ => exact .inr (.inr (List.mem_append_right _ List.mem_cons_self))

theorem setSince_subs (t : Session ι φ) (c : Nat) (refs : List Nat) (last floor : Nat)
    (exact hadNonShared : Bool) :
    (t.setSince c refs last exact hadNonShared floor).subs =
        (t.swapSince (·.ref ∈ refs) last).subs := by
  unfold Session.setSince
  dsimp only
  split
  · rfl
  · rfl

/-- Setting the `since` that was read promises nothing new. -/
theorem promised_of_setSince {r : Read} {rest : List Read} {c floor : Nat} (hr : r ∈ s.reads)
    (hrest : ∀ x ∈ rest, x ∈ s.reads) (h : Promised topicMatch { s with
      reads := rest
      session := s.session.setSince c [r.ref] r.last true r.hadNonShared floor } m) :
    Promised topicMatch s m := by
  obtain ⟨x, hx, htakes, hsince⟩ := h
  dsimp only at hx
  rw [setSince_subs] at hx
  obtain ⟨y, hy, rfl⟩ := List.mem_map.mp hx
  by_cases hc : (decide (y.ref ∈ [r.ref]) && y.since.isNone) = true
  · rw [if_pos hc] at htakes hsince
    simp only [List.mem_singleton, Bool.and_eq_true, decide_eq_true_eq,
      Option.isNone_iff_eq_none] at hc
    rcases hsince with ⟨n, hn, hlt⟩ | ⟨hnone, -⟩
    · rw [Option.some.injEq] at hn
      exact ⟨y, hy, htakes, .inr ⟨hc.2, r, hr, hc.1.symm, hn ▸ hlt⟩⟩
    · cases hnone
  · rw [if_neg hc] at htakes hsince
    refine ⟨y, hy, htakes, hsince.imp_right ?_⟩
    rintro ⟨hnone, p, hp, hrest'⟩
    exact ⟨hnone, p, hrest p hp, hrest'⟩

/-- A new subscription is promised nothing that was stored before it. -/
theorem promised_of_subscribe [DecidableEq φ] {c : Nat} {sub : Sub φ} {t : Session ι φ} {had : Bool}
    (hrefs : ∀ r ∈ s.reads, r.ref < s.nextRef) (href : sub.ref = s.nextRef)
        (hnone : sub.since = none) (hi : s.session.installSubscription c sub = some t)
    (h : Promised topicMatch { s with
      session := t, nextRef := s.nextRef + 1, installed := s.installed ++ [(s.nextRef, had)] } m) :
    Promised topicMatch s m := by
  obtain ⟨x, hx, htakes, hsince⟩ := h
  rcases hsince with hsince | ⟨hxnone, r, hr, hrx, hlt⟩
  · have howes : x.owes topicMatch m = true := owes_iff.mpr ⟨htakes, hsince⟩
    exact promised_of_owes (owes_of_installed hnone hi hx howes)
  · obtain ⟨since, rfl, -⟩ := installSubscription_spec hnone hi
    rcases (Keyed.mem_put _).mp hx with ⟨hx, -⟩ | rfl
    · exact ⟨x, hx, htakes, .inr ⟨hxnone, r, hr, hrx, hlt⟩⟩
    · have := hrefs r hr
      rw [hrx] at this
      dsimp only at this
      omega

/-- What `readSince` reads is not below anything that is stored. -/
theorem promised_of_readSince {p : Nat × Bool} {rest : List (Nat × Bool)} (hm : m.seq ≤ s.last)
    (h : Promised topicMatch { s with installed := rest, reads := s.reads ++ [⟨p.1, s.last, p.2⟩] }
        m) :
    Promised topicMatch s m := by
  obtain ⟨x, hx, htakes, hsince | ⟨hnone, r, hr, hrx, hlt⟩⟩ := h
  · exact ⟨x, hx, htakes, .inl hsince⟩
  · rcases List.mem_append.mp hr with hr | hr
    · exact ⟨x, hx, htakes, .inr ⟨hnone, r, hr, hrx, hlt⟩⟩
    · obtain rfl := List.mem_singleton.mp hr
      dsimp only at hlt
      omega

end Natsmqtt5.Cursor.Replay
