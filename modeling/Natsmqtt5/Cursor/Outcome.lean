import Natsmqtt5.Cursor.Facts
import Natsmqtt5.Cursor.Model

/-!
# What a step can do

`Outcome.of_step`: every step of the system has one of the outcomes below, each with what its guards
say.
-/

namespace Natsmqtt5.Cursor

variable {ι φ τ : Type} [DecidableEq ι] [DecidableEq φ] [DecidableEq τ] {topicMatch : φ → τ → Bool}
  {b : Bounds} {s s' : State ι φ τ}

/-- The scan that `beginScan` starts. -/
def newScan (topicMatch : φ → τ → Bool) (s : State ι φ τ) : Scan ι φ :=
  let start := s.session.cur.next
  ⟨s.session.cur.gen, start, s.last, s.session.subs,
    scanRead topicMatch s.session.subs (s.stream.filter fun m => start ≤ m.seq)⟩

/-- The scan that `beginRestart` starts. -/
def newRestart (topicMatch : φ → τ → Bool) (b : Bounds) (s : State ι φ τ) : RestartScan ι φ :=
  let ms := rewound b.window s.now s.stream
  ⟨s.session.cur.gen, s.session.subs, s.now, restartBase s.last ms, s.last,
    scanRead topicMatch s.session.subs ms⟩

inductive Outcome (topicMatch : φ → τ → Bool) (b : Bounds) (s : State ι φ τ) : State ι φ τ → Prop
  | store {m : Msg ι τ} (hseq : s.last < m.seq) (htime : m.stored = s.now)
      (hid : ∀ x ∈ s.stream, x.id ≠ m.id) {transit : List (Msg ι τ)}
      (ht : transit = s.transit ∨ transit = s.transit ++ [m]) :
      Outcome topicMatch b s
        { s with stream := s.stream ++ [m], last := m.seq, transit := transit }
  | arrive {m : Msg ι τ} (hm : m ∈ s.transit) (hc : s.session.conn.isSome = true) :
      Outcome topicMatch b s
        { s with
          transit := s.transit.erase m, held := s.held ++ [m]
          session := (receive b s m).noteLiveCopy b m.seq (some m.id) }
  | deliver {m : Msg ι τ} (hm : m ∈ s.held) (ho : s.isOpen = true) :
      Outcome topicMatch b s
        { s with
          held := s.held.erase m, sent := s.sent ++ [m]
          session := (s.session.noteDelivered b s.now m.id m.seq).1 }
  | tick (d : Nat) : Outcome topicMatch b s { s with now := s.now + d }
  | scan (hn : s.session.cur.next ≠ 0) (hk : s.session.sinceKnownLocked = true) :
      Outcome topicMatch b s { s with scans := s.scans ++ [newScan topicMatch s] }
  | scanned {sc : Scan ι φ} {rest : List (Scan ι φ)} (hsc : sc ∈ s.scans)
      (hrest : ∀ x ∈ rest, x ∈ s.scans) {t : Session ι φ}
      (ht : t = s.session ∨
        s.isOpen = true ∧ t = (s.session.applyScanLocked b sc (owedFloor s.held)).1) :
      Outcome topicMatch b s { s with scans := rest, session := t }
  | restart (hn : s.session.cur.next = 0) (hk : s.session.sinceKnownLocked = true) :
      Outcome topicMatch b s { s with restarts := s.restarts ++ [newRestart topicMatch b s] }
  | restarted {r : RestartScan ι φ} {rest : List (RestartScan ι φ)} (hr : r ∈ s.restarts)
      (hrest : ∀ x ∈ rest, x ∈ s.restarts) {t : Session ι φ}
      (ht : t = s.session ∨
        s.isOpen = true ∧ t = (s.session.restartCursorLocked b r (owedFloor s.held) s.now).1) :
      Outcome topicMatch b s { s with restarts := rest, session := t }
  | subscribe {c : Nat} {sub : Sub φ} {t : Session ι φ} (href : sub.ref = s.nextRef)
      (hnone : sub.since = none) (h : s.session.installSubscription c sub = some t) :
      Outcome topicMatch b s { s with session := t, nextRef := s.nextRef + 1 }
  | readSince {sub : Sub φ} (hsub : sub ∈ s.session.subs) :
      Outcome topicMatch b s { s with reads := s.reads ++ [(sub.ref, s.last)] }
  | setSince {ref last c floor : Nat} {rest : List (Nat × Nat)} (hr : (ref, last) ∈ s.reads)
      (hrest : ∀ x ∈ rest, x ∈ s.reads) :
      Outcome topicMatch b s
        { s with reads := rest, session := s.session.setSince c [ref] last true true floor }
  | drop : Outcome topicMatch b s { s with session := s.session.dropCursorLocked }
  | close (hc : s.session.conn.isSome = true) : Outcome topicMatch b s { s with closed := true }
  | release (hc : s.session.conn.isSome = true) (hclosed : s.closed = true) :
      Outcome topicMatch b s
        { s with
          held := []
          session := { s.session.markAwayLocked
            { time := some s.now, fromSeq := owedFloor s.held } with
            conn := none } }
  | late {m : Msg ι τ} (hm : m ∈ s.transit) (hc : s.session.conn = none) :
      Outcome topicMatch b s
        { s with
          transit := s.transit.erase m
          session := (s.session.lateCopy b none m.seq (some m.id)).1 }

theorem Outcome.of_step {a : Act ι φ τ} (h : step topicMatch b s a = some s') :
    Outcome topicMatch b s s' := by
  cases a <;> simp only [step] at h
  case store m live =>
    simp only [Option.ite_none_right_eq_some, Option.some.injEq] at h
    obtain ⟨⟨hseq, htime, hid⟩, rfl⟩ := h
    refine .store hseq htime hid ?_
    cases live with
    | false => exact .inl rfl
    | true => exact .inr rfl
  case arrive m =>
    simp only [Option.ite_none_right_eq_some, Option.some.injEq] at h
    obtain ⟨⟨hm, hc⟩, rfl⟩ := h
    exact .arrive hm hc
  case deliver m =>
    simp only [Option.ite_none_right_eq_some, Option.some.injEq] at h
    obtain ⟨⟨hm, ho⟩, rfl⟩ := h
    exact .deliver hm ho
  case tick d =>
    cases h
    exact .tick d
  case beginScan =>
    simp only [beginScan, Option.ite_none_right_eq_some, Option.some.injEq] at h
    obtain ⟨⟨-, hn, hk⟩, rfl⟩ := h
    exact .scan hn hk
  case applyScan i =>
    split at h
    · rename_i sc hsc
      obtain ⟨hmem, hrest⟩ := mem_of_getElem? hsc
      split at h <;> cases h
      · rename_i ho
        exact .scanned hmem hrest (.inr ⟨ho, rfl⟩)
      · exact .scanned hmem hrest (.inl rfl)
    · cases h
  case beginRestart =>
    simp only [beginRestart, Option.ite_none_right_eq_some, Option.some.injEq] at h
    obtain ⟨⟨-, hn, hk, -⟩, rfl⟩ := h
    exact .restart hn hk
  case applyRestart i =>
    split at h
    · rename_i r hr
      obtain ⟨hmem, hrest⟩ := mem_of_getElem? hr
      split at h <;> cases h
      · rename_i ho
        exact .restarted hmem hrest (.inr ⟨ho, rfl⟩)
      · exact .restarted hmem hrest (.inl rfl)
    · cases h
  case subscribe filter shared grantedQoS noLocal =>
    split at h
    · obtain ⟨t, ht, rfl⟩ := Option.map_eq_some_iff.mp h
      exact .subscribe rfl rfl ht
    · cases h
  case readSince ref =>
    simp only [Option.ite_none_right_eq_some, Option.some.injEq] at h
    obtain ⟨hany, rfl⟩ := h
    obtain ⟨sub, hsub, href⟩ := List.any_eq_true.mp hany
    simp only [Bool.and_eq_true, beq_iff_eq] at href
    rw [← href.1.1]
    exact .readSince hsub
  case setSince i =>
    split at h
    · rename_i ref last hr
      obtain ⟨hmem, hrest⟩ := mem_of_getElem? hr
      cases h
      exact .setSince hmem hrest
    · cases h
  case drop =>
    cases h
    exact .drop
  case close =>
    simp only [Option.ite_none_right_eq_some, Option.some.injEq] at h
    obtain ⟨hc, rfl⟩ := h
    exact .close hc
  case release =>
    simp only [Option.ite_none_right_eq_some, Option.some.injEq] at h
    obtain ⟨⟨hc, hclosed⟩, rfl⟩ := h
    exact .release hc hclosed
  case late m =>
    simp only [Option.ite_none_right_eq_some, Option.some.injEq] at h
    obtain ⟨⟨hm, hc⟩, rfl⟩ := h
    exact .late hm hc

end Natsmqtt5.Cursor
