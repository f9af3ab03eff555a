import Mathlib.Data.List.Nodup
import Mathlib.Data.List.Range

/-!
# A waiting line

Arrivals are numbered as they come. Each of them waits, is served from the front of the line, or is
dropped from any place in it.

* `Line.Ok`: every number given out is in exactly one of the three lists, once, and the served ones
  followed by the waiting ones are in the order of arrival.

Results:
* `Ok.arrive`, `Ok.serve`, `Ok.drop`: the three operations keep it.
* `Ok.waits_once`: a number that was neither served nor dropped is in the line, once.
* `Ok.length_eq`: the three lists are as long as there were arrivals.
-/

/-- The number of the next arrival, and what became of the earlier ones. -/
structure Line where
  next : Nat := 0
  served : List Nat := []
  dropped : List Nat := []
  waiting : List Nat := []

namespace Line

structure Ok (l : Line) : Prop where
  once : (l.served ++ l.dropped ++ l.waiting).Perm (List.range l.next)
  sorted : (l.served ++ l.waiting).Pairwise (· < ·)

theorem Ok.empty : Ok {} := ⟨.refl _, .nil⟩

variable {l : Line} {n : Nat}

theorem Ok.lt_next (h : l.Ok) (hn : n ∈ l.served ++ l.waiting) : n < l.next := by
  refine List.mem_range.mp (h.once.subset ?_)
  simp only [List.mem_append] at hn ⊢
  tauto

theorem Ok.arrive (h : l.Ok) :
    Ok { l with next := l.next + 1, waiting := l.waiting ++ [l.next] } where
  once := by
    rw [List.range_succ, ← List.append_assoc]
    exact h.once.append_right _
  sorted := by
    rw [← List.append_assoc, List.pairwise_append]
    refine ⟨h.sorted, List.pairwise_singleton _ _, fun a ha b hb => ?_⟩
    rw [List.mem_singleton.mp hb]
    exact h.lt_next ha

/-- The front of the line is served. -/
theorem Ok.serve (h : l.Ok) {d : Nat} {rest : List Nat} (hd : l.waiting = d :: rest) :
    Ok { l with served := l.served ++ [d], waiting := rest } where
  once := by
    have hfront : (d :: (l.dropped ++ rest)).Perm (l.dropped ++ d :: rest) := List.perm_middle.symm
    refine .trans ?_ h.once
    simpa [hd] using hfront.append_left l.served
  sorted := by
    have := h.sorted
    rw [hd] at this
    simpa using this

/-- Some of the line is dropped. -/
theorem Ok.drop (h : l.Ok) {gone keep : List Nat} (hp : l.waiting.Perm (gone ++ keep))
    (hs : keep.Sublist l.waiting) :
    Ok { l with dropped := l.dropped ++ gone, waiting := keep } where
  once := by
    refine .trans ?_ h.once
    rw [List.append_assoc, List.append_assoc, List.append_assoc]
    exact (hp.symm.append_left _).append_left _
  sorted := h.sorted.sublist ((List.Sublist.refl _).append hs)

theorem Ok.nodup (h : l.Ok) : (l.served ++ l.dropped ++ l.waiting).Nodup :=
  h.once.nodup_iff.mpr List.nodup_range

theorem Ok.waits_once (h : l.Ok) (hn : n < l.next) (hs : n ∉ l.served)
    (hd : n ∉ l.dropped) : l.waiting.count n = 1 := by
  have hmem : n ∈ l.served ++ l.dropped ++ l.waiting := h.once.symm.subset (List.mem_range.mpr hn)
  simp only [List.mem_append, hs, hd, false_or] at hmem
  exact List.count_eq_one_of_mem (List.nodup_append.mp h.nodup).2.1 hmem

theorem Ok.length_eq (h : l.Ok) :
    l.served.length + l.dropped.length + l.waiting.length = l.next := by
  simpa [Nat.add_assoc] using h.once.length_eq

end Line
