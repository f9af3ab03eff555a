import Mathlib.Data.List.Nodup

/-!
# Following a log in order

Entries are appended to a log in the order of a number `seq`. A follower is to send each of them. It
learns of an entry by a notice, and notices come in the order of the log. What it is going to send
next, `ahead`, comes from notices it took up, or from a read of the log that begins at `owed`, the
lowest notice it turned away (0 for none).

* `Follow.Ok`: what is ahead is in order, and nothing unsent in it, or still to come, is older than
  something sent; each notice was sent, is ahead, or is at or above `owed`.

Results:
* `Ok.append`, `Ok.take`, `Ok.turnAway`, `Ok.skip`, `Ok.send`, `Ok.read`: what the follower does
  keeps it.
* `FirstInOrder`: the entries that were sent, newest first, were each sent first in the order of
  `seq`.
-/

/-- An entry that is sent for the first time is newer than all that were sent before it. -/
def FirstInOrder {α : Type} (seq : α → Nat) : List α → Prop
  | [] => True
  | x :: sent => (x ∉ sent → ∀ y ∈ sent, seq y < seq x) ∧ FirstInOrder seq sent

structure Follow (α : Type) where
  log : List α
  /-- The entries whose notice came. -/
  noticed : List α
  sent : List α
  ahead : List α
  owed : Nat

namespace Follow

variable {α : Type} {seq : α → Nat} {f : Follow α} {x : α} {ahead : List α}

/-- The entries still to come: by a notice, or by the next read. -/
def Due (seq : α → Nat) (f : Follow α) (x : α) : Prop :=
  (∀ y ∈ f.noticed, seq y < seq x) ∨ f.owed ≠ 0 ∧ f.owed ≤ seq x

structure Ok (seq : α → Nat) (f : Follow α) : Prop where
  log_sorted : f.log.Pairwise (seq · < seq ·)
  noticed_log : ∀ x ∈ f.noticed, x ∈ f.log
  sent_log : ∀ x ∈ f.sent, x ∈ f.log
  ahead_log : ∀ x ∈ f.ahead, x ∈ f.log
  ahead_sorted : f.ahead.Pairwise (seq · < seq ·)
  fresh : ∀ x ∈ f.ahead, x ∉ f.sent → ∀ y ∈ f.sent, seq y < seq x
  due : ∀ x ∈ f.log, x ∉ f.sent → Due seq f x →
    (∀ y ∈ f.sent, seq y < seq x) ∧ (x ∈ f.ahead ∨ ∀ y ∈ f.ahead, seq y < seq x)
  complete : ∀ x ∈ f.noticed, x ∈ f.sent ∨ x ∈ f.ahead ∨ f.owed ≠ 0 ∧ f.owed ≤ seq x
  owed : f.owed ≠ 0 → ∃ x ∈ f.noticed, seq x = f.owed
  order : FirstInOrder seq f.sent

theorem Ok.empty : Ok seq ⟨[], [], [], [], 0⟩ where
  log_sorted := .nil
  noticed_log _ h := h
  sent_log _ h := h
  ahead_log _ h := h
  ahead_sorted := .nil
  fresh _ h := absurd h (by simp)
  due _ h := absurd h (by simp)
  complete _ h := absurd h (by simp)
  owed h := absurd rfl h
  order := trivial

/-- Entries of the log with the same number are the same. -/
theorem Ok.seq_inj (h : Ok seq f) {y : α} (hx : x ∈ f.log) (hy : y ∈ f.log)
    (he : seq x = seq y) : x = y := by
  have hnodup : (f.log.map seq).Nodup :=
    List.pairwise_map.mpr (h.log_sorted.imp fun hlt => Nat.ne_of_lt hlt)
  exact List.inj_on_of_nodup_map hnodup hx hy he

/-- A new entry is appended. -/
theorem Ok.append (h : Ok seq f) (hx : ∀ y ∈ f.log, seq y < seq x) :
    Ok seq { f with log := f.log ++ [x] } :=
  { h with
    log_sorted := by
      rw [List.pairwise_append]
      refine ⟨h.log_sorted, List.pairwise_singleton _ _, fun y hy z hz => ?_⟩
      rw [List.mem_singleton.mp hz]
      exact hx y hy
    noticed_log y hy := List.mem_append_left _ (h.noticed_log y hy)
    sent_log y hy := List.mem_append_left _ (h.sent_log y hy)
    ahead_log y hy := List.mem_append_left _ (h.ahead_log y hy)
    due y hy hun hdue := by
      obtain hy | hy := List.mem_append.mp hy
      · exact h.due y hy hun hdue
      · rw [List.mem_singleton.mp hy]
        exact ⟨fun z hz => hx z (h.sent_log z hz), .inr fun z hz => hx z (h.ahead_log z hz)⟩ }

/-- A notice is taken up. -/
theorem Ok.take (h : Ok seq f) (hx : x ∈ f.log) (hnew : ∀ y ∈ f.noticed, seq y < seq x)
    (hahead : ∀ y ∈ f.ahead, seq y < seq x) (hnone : f.owed = 0) :
    Ok seq { f with noticed := f.noticed ++ [x], ahead := f.ahead ++ [x] } :=
  { h with
    noticed_log y hy := by
      obtain hy | hy := List.mem_append.mp hy
      · exact h.noticed_log y hy
      · exact List.mem_singleton.mp hy ▸ hx
    ahead_log y hy := by
      obtain hy | hy := List.mem_append.mp hy
      · exact h.ahead_log y hy
      · exact List.mem_singleton.mp hy ▸ hx
    ahead_sorted := by
      rw [List.pairwise_append]
      refine ⟨h.ahead_sorted, List.pairwise_singleton _ _, fun y hy z hz => ?_⟩
      rw [List.mem_singleton.mp hz]
      exact hahead y hy
    fresh y hy hun := by
      obtain hy | hy := List.mem_append.mp hy
      · exact h.fresh y hy hun
      · obtain rfl := List.mem_singleton.mp hy
        exact (h.due y hx hun (.inl hnew)).1
    due y hy hun hdue := by
      obtain hdue | hdue := hdue
      · have hnewer : seq x < seq y := hdue x (by simp)
        obtain ⟨hsent, hin⟩ := h.due y hy hun (.inl fun z hz => hdue z (List.mem_append_left _ hz))
        refine ⟨hsent, hin.imp (List.mem_append_left _ ·) fun hin z hz => ?_⟩
        obtain hz | hz := List.mem_append.mp hz
        · exact hin z hz
        · exact List.mem_singleton.mp hz ▸ hnewer
      · exact absurd hnone hdue.1
    complete y hy := by
      obtain hy | hy := List.mem_append.mp hy
      · exact (h.complete y hy).imp_right (.imp_left (List.mem_append_left _ ·))
      · exact .inr (.inl (List.mem_append_right _ hy))
    owed hne := absurd hnone hne }

/-- A notice is turned away: the next read begins at it, or at one turned away before. -/
theorem Ok.turnAway (h : Ok seq f) (hx : x ∈ f.log) (hpos : seq x ≠ 0)
    (hnew : ∀ y ∈ f.noticed, seq y < seq x) {owed : Nat}
    (howed : owed = if f.owed = 0 then seq x else f.owed) :
    Ok seq { f with noticed := f.noticed ++ [x], owed := owed } :=
  { h with
    noticed_log y hy := by
      obtain hy | hy := List.mem_append.mp hy
      · exact h.noticed_log y hy
      · exact List.mem_singleton.mp hy ▸ hx
    due y hy hun hdue := by
      refine h.due y hy hun ?_
      obtain hdue | ⟨-, hle⟩ := hdue
      · exact .inl fun z hz => hdue z (List.mem_append_left _ hz)
      · simp only [howed] at hle
        split at hle
        · -- the first one turned away: all that is newer is still to come
          exact .inl fun z hz => Nat.lt_of_lt_of_le (hnew z hz) hle
        · rename_i hne
          exact .inr ⟨hne, hle⟩
    complete y hy := by
      obtain hy | hy := List.mem_append.mp hy
      · obtain hin | hin | ⟨hne, hle⟩ := h.complete y hy
        · exact .inl hin
        · exact .inr (.inl hin)
        · refine .inr (.inr ?_)
          simp only [howed, if_neg hne]
          exact ⟨hne, hle⟩
      · obtain rfl := List.mem_singleton.mp hy
        refine .inr (.inr ?_)
        simp only [howed]
        split
        · exact ⟨hpos, Nat.le_refl _⟩
        · rename_i hne
          obtain ⟨z, hz, hzowed⟩ := h.owed hne
          exact ⟨hne, by have := hnew z hz; omega⟩
    owed hne := by
      simp only [howed]
      split
      · exact ⟨x, by simp, rfl⟩
      · rename_i hold
        obtain ⟨z, hz, hzowed⟩ := h.owed hold
        exact ⟨z, List.mem_append_left _ hz, hzowed⟩ }

/-- An entry that was sent is left out of what is ahead. -/
theorem Ok.skip (h : Ok seq f) (hx : x ∈ f.sent)
    (hsub : ahead.Sublist f.ahead) (hrest : ∀ y ∈ f.ahead, y ∈ ahead ∨ y = x) :
    Ok seq { f with ahead := ahead } :=
  { h with
    ahead_log y hy := h.ahead_log y (hsub.subset hy)
    ahead_sorted := h.ahead_sorted.sublist hsub
    fresh y hy := h.fresh y (hsub.subset hy)
    due y hy hun hdue := by
      obtain ⟨hsent, hin⟩ := h.due y hy hun hdue
      refine ⟨hsent, hin.imp (fun hin => ?_) fun hin z hz => hin z (hsub.subset hz)⟩
      refine (hrest y hin).resolve_right ?_
      rintro rfl
      exact hun hx
    complete y hy := by
      obtain hin | hin | hin := h.complete y hy
      · exact .inl hin
      · obtain hin | rfl := hrest y hin
        · exact .inr (.inl hin)
        · exact .inl hx
      · exact .inr (.inr hin) }

/-- The first of what is ahead is sent, and stays there. -/
theorem Ok.send (h : Ok seq f) {rest : List α} (hx : f.ahead = x :: rest) :
    Ok seq { f with sent := x :: f.sent } := by
  have hmem : x ∈ f.ahead := by rw [hx]; exact List.mem_cons_self ..
  have hlog := h.ahead_log x hmem
  have hfirst : ∀ y ∈ rest, seq x < seq y := by
    have := h.ahead_sorted
    rw [hx] at this
    exact (List.pairwise_cons.mp this).1
  have hold : ∀ {y}, y ∉ x :: f.sent → y ≠ x ∧ y ∉ f.sent := by
    intro y hun
    simpa using hun
  refine ⟨h.log_sorted, h.noticed_log, fun y hy => ?_, h.ahead_log, h.ahead_sorted,
    fun y hy hun z hz => ?_, fun y hy hun hdue => ?_, fun y hy => ?_, h.owed, fun hnew => ?_,
      h.order⟩
  · obtain rfl | hy := List.mem_cons.mp hy
    · exact hlog
    · exact h.sent_log y hy
  · obtain ⟨hne, hun⟩ := hold hun
    obtain rfl | hz := List.mem_cons.mp hz
    · rw [hx, List.mem_cons] at hy
      exact hfirst y (hy.resolve_left hne)
    · exact h.fresh y hy hun z hz
  · obtain ⟨hne, hun⟩ := hold hun
    obtain ⟨hsent, hin⟩ := h.due y hy hun hdue
    refine ⟨fun z hz => ?_, hin⟩
    obtain rfl | hz := List.mem_cons.mp hz
    · obtain hin | hin := hin
      · rw [hx, List.mem_cons] at hin
        exact hfirst y (hin.resolve_left hne)
      · exact hin z hmem
    · exact hsent z hz
  · exact (h.complete y hy).imp_left (List.mem_cons_of_mem _ ·)
  · exact h.fresh x hmem hnew

/-- With nothing ahead, a read of the log begins at `owed`. -/
theorem Ok.read (h : Ok seq f) (hnil : f.ahead = []) (hne : f.owed ≠ 0)
    (hread : ahead = f.log.filter fun x => f.owed ≤ seq x) :
    Ok seq { f with ahead := ahead, owed := 0 } := by
  have hmem : ∀ x, x ∈ ahead ↔ x ∈ f.log ∧ f.owed ≤ seq x := by
    intro x
    rw [hread, List.mem_filter]
    simp
  refine ⟨h.log_sorted, h.noticed_log, h.sent_log, fun x hx => ((hmem x).mp hx).1, ?_,
    fun x hx hun => ?_, fun x hx hun hdue => ?_, fun x hx => ?_, fun hz => absurd rfl hz, h.order⟩
  · rw [hread]
    exact h.log_sorted.sublist List.filter_sublist
  · obtain ⟨hlog, hle⟩ := (hmem x).mp hx
    exact (h.due x hlog hun (.inr ⟨hne, hle⟩)).1
  · -- what has no notice yet is newer than `owed`, which had one
    obtain hdue | hdue := hdue
    · obtain ⟨y, hy, hyowed⟩ := h.owed hne
      have hle : f.owed ≤ seq x := hyowed ▸ Nat.le_of_lt (hdue y hy)
      exact ⟨(h.due x hx hun (.inl hdue)).1, .inl ((hmem x).mpr ⟨hx, hle⟩)⟩
    · exact absurd rfl hdue.1
  · obtain hin | hin | hin := h.complete x hx
    · exact .inl hin
    · simp [hnil] at hin
    · exact .inr (.inl ((hmem x).mpr ⟨h.noticed_log x hx, hin.2⟩))

end Follow
