import Natsmqtt5.Apart
import Natsmqtt5.Topic.Routing
import Natsmqtt5.Topic.Through

/-!
# The filters of a replay

`replayFilters` (`offline.go`): the queue subjects that a replay for some subscriptions reads. Each
non-shared subscription adds the subject of its filter and the parent subject of one that ends in
`/#`, and what overlaps is folded together, since JetStream refuses filters that overlap.

A nil result, which reads everything, is the empty list.

Results:
* `laws`: what `subjectsOverlap`, `covers` and `joinSubjects` decide about matching.
* `replayFilters_disjoint_complete`: the filters have no subject in common, and every name a
  subscription matches is at one of them.
-/

namespace Natsmqtt5.Topic

open Wildcard (Token Proper)

/-! ## The loops over tokens -/

/-- The loop of `subjectsOverlap`. -/
def overlapTokens : List Bytes → List Bytes → Bool
  | [], [] => true
  | [], _ :: _ => false
  | _ :: _, [] => false
  | a :: as, b :: bs =>
    if a = [62] ∨ b = [62] then true
    else if a ≠ b ∧ a ≠ [42] ∧ b ≠ [42] then false
    else overlapTokens as bs

def subjectsOverlap (a b : Bytes) : Bool := overlapTokens (tokens a) (tokens b)

/-- The loop of `covers`. -/
def coversTokens : List Bytes → List Bytes → Bool
  | [], bs => bs.isEmpty
  | a :: as, bs =>
    if a = [62] then !bs.isEmpty
    else
      match bs with
      | [] => false
      | b :: bs =>
        if b = [62] then false
        else if a ≠ [42] ∧ a ≠ b then false
        else coversTokens as bs

/-- `covers`. -/
def subjectCovers (a b : Bytes) : Bool := coversTokens (tokens a) (tokens b)

/-- The loop of `joinSubjects`. -/
def joinTokens : List Bytes → List Bytes → List Bytes
  | a :: as, b :: bs =>
    if a = [62] ∨ b = [62] then [[62]]
    else (if a = b then a else [42]) :: joinTokens as bs
  | [], _ => []
  | _ :: _, [] => []

def joinSubjects (a b : Bytes) : Bytes := [46].intercalate (joinTokens (tokens a) (tokens b))

/-! ## `replayFilters` -/

/-- `subscription`, what `replayFilters` reads of it. -/
structure Sub where
  filter : Bytes
  share : Bytes

/-- The closure `add`, none if its loop had no end. -/
def addFilter (out : List Bytes) (f : Bytes) : Option (List Bytes) :=
  Apart.add subjectsOverlap subjectCovers joinSubjects out f

/-- The subjects of one subscription. -/
def addSubject (p : Bytes) (out : List Bytes) (subject : Bytes) : Option (List Bytes) := do
  let out ← addFilter out (queuedSubject p subject)
  match parentSubject subject with
  | some parent => addFilter out (queuedSubject p parent)
  | none => some out

/-- The loop of `replayFilters`. -/
def replayLoop (p : Bytes) (escape : Bool) : List Bytes → List Sub → Option (List Bytes)
  | out, [] => some out
  | out, sub :: subs =>
    if sub.share ≠ [] then replayLoop p escape out subs
    else
      match filterToSubject sub.filter escape with
      | .error _ => some []
      | .ok subject => do
        let out ← addSubject p out subject
        replayLoop p escape out subs

def replayFilters (p : Bytes) (escape : Bool) (subs : List Sub) : Option (List Bytes) :=
  replayLoop p escape [] subs

/-! ## Filters as patterns -/

variable {t : Bytes} {as bs : List Bytes} {e : Bool}

theorem natsToken_rest : natsToken t = .rest ↔ t = [62] := by
  constructor
  · intro h
    unfold natsToken at h
    split_ifs at h with h1 h2
    exact h2
  · rintro rfl
    rfl

theorem natsToken_one : natsToken t = .one ↔ t = [42] := by
  constructor
  · intro h
    unfold natsToken at h
    split_ifs at h with h1 h2
    exact h1
  · rintro rfl
    rfl

theorem natsToken_literal (h : t ≠ [62]) : natsToken t = .one ∨ natsToken t = .lit t := by
  unfold natsToken
  rw [if_neg h]
  split_ifs with h1
  · exact .inl rfl
  · exact .inr rfl

theorem natsToken_inj {u : Bytes} : natsToken t = natsToken u ↔ t = u := by
  constructor
  · intro h
    by_cases h1 : t = [42]
    · rw [h1, natsToken_one.mp (h.symm.trans (natsToken_one.mpr h1))]
    · by_cases h2 : t = [62]
      · rw [h2, natsToken_rest.mp (h.symm.trans (natsToken_rest.mpr h2))]
      · have hu1 : u ≠ [42] := fun hu => h1 (natsToken_one.mp (h.trans (natsToken_one.mpr hu)))
        have hu2 : u ≠ [62] := fun hu => h2 (natsToken_rest.mp (h.trans (natsToken_rest.mpr hu)))
        unfold natsToken at h
        rw [if_neg h1, if_neg h2, if_neg hu1, if_neg hu2] at h
        exact Token.lit.inj h
  · rintro rfl
    rfl

theorem overlapTokens_eq (as bs : List Bytes) :
    overlapTokens as bs = Wildcard.overlap (as.map natsToken) (bs.map natsToken) := by
  induction as generalizing bs with
  | nil => cases bs <;> rfl
  | cons a as ih =>
    cases bs with
    | nil => rfl
    | cons b bs =>
      simp only [overlapTokens, List.map_cons, Wildcard.overlap, natsToken_rest, natsToken_one,
        ne_eq, natsToken_inj, ih]

theorem coversTokens_eq (as bs : List Bytes) :
    coversTokens as bs = Wildcard.swallows (as.map natsToken) (bs.map natsToken) := by
  induction as generalizing bs with
  | nil => cases bs <;> rfl
  | cons a as ih =>
    cases bs with
    | nil =>
      unfold coversTokens Wildcard.swallows
      exact if_congr natsToken_rest.symm rfl rfl
    | cons b bs =>
      simp only [coversTokens, List.map_cons, Wildcard.swallows, natsToken_rest, natsToken_one,
        ne_eq, natsToken_inj, ih, List.isEmpty_cons]

theorem joinTokens_map (as bs : List Bytes) :
    (joinTokens as bs).map natsToken = Wildcard.join (as.map natsToken) (bs.map natsToken) := by
  induction as generalizing bs with
  | nil => cases bs <;> rfl
  | cons a as ih =>
    cases bs with
    | nil => rfl
    | cons b bs =>
      simp only [joinTokens, List.map_cons, Wildcard.join, natsToken_rest, natsToken_inj]
      split_ifs
      · rfl
      · rw [List.map_cons, ih]
      · rw [List.map_cons, ih]
        rfl

/-- A filter whose `>` is its last token. -/
def Filter (a : Bytes) : Prop := Proper ((tokens a).map natsToken)

theorem joinTokens_dot (h : ∀ t ∈ as, 46 ∉ t) : ∀ t ∈ joinTokens as bs, 46 ∉ t := by
  induction as generalizing bs with
  | nil => cases bs <;> exact List.forall_mem_nil _
  | cons a as ih =>
    cases bs with
    | nil => exact List.forall_mem_nil _
    | cons b bs =>
      obtain ⟨ha, has⟩ := List.forall_mem_cons.mp h
      unfold joinTokens
      split_ifs
      · exact List.forall_mem_singleton.mpr (by decide)
      · exact List.forall_mem_cons.mpr ⟨ha, ih has⟩
      · exact List.forall_mem_cons.mpr ⟨by decide, ih has⟩

theorem joinTokens_ne_nil (ha : as ≠ []) (hb : bs ≠ []) : joinTokens as bs ≠ [] := by
  obtain ⟨a, as, rfl⟩ := List.exists_cons_of_ne_nil ha
  obtain ⟨b, bs, rfl⟩ := List.exists_cons_of_ne_nil hb
  unfold joinTokens
  split_ifs <;> exact List.cons_ne_nil _ _

theorem tokens_joinSubjects (a b : Bytes) :
    tokens (joinSubjects a b) = joinTokens (tokens a) (tokens b) :=
  List.splitOn_intercalate 46 (joinTokens_dot fun _ ht => (mem_tokens ht).1)
    (joinTokens_ne_nil (List.splitOn_ne_nil 46 a) (List.splitOn_ne_nil 46 b))

/-- What the three functions decide about what NATS matches. -/
theorem laws : Apart.Laws subjectsOverlap subjectCovers joinSubjects Filter
    (fun a s => natsMatch a s = true) where
  meets _ _ ha hb := by
    rw [subjectsOverlap, overlapTokens_eq]
    exact Wildcard.overlap_of_covers ha hb
  takes ha _ h hb := by
    rw [subjectCovers, coversTokens_eq] at h
    exact Wildcard.covers_of_swallows ha h hb
  valid _ _ _ := by
    rw [Filter, tokens_joinSubjects, joinTokens_map]
    exact Wildcard.proper_join
  left _ _ h ha := by
    rw [subjectsOverlap, overlapTokens_eq] at h
    rw [natsMatch, tokens_joinSubjects, joinTokens_map]
    exact Wildcard.covers_join_left h ha
  right _ _ h hb := by
    rw [subjectsOverlap, overlapTokens_eq] at h
    rw [natsMatch, tokens_joinSubjects, joinTokens_map]
    exact Wildcard.covers_join_right h hb

/-! ## Queue subjects -/

section Queue

variable {p s : Bytes}

/-- The tokens in front of those of a subject in its queue subject. -/
def ahead (p : Bytes) : List Bytes := (if p = [] then [] else tokens p) ++ [queueLevel]

theorem tokens_queuedSubject (p s : Bytes) : tokens (queuedSubject p s) = ahead p ++ tokens s := by
  have hlevel : tokens (queueLevel ++ 46 :: s) = queueLevel :: tokens s :=
    List.splitOn_append_cons_self_of_not_mem (by decide) s
  unfold queuedSubject prefixed ahead
  split_ifs
  · exact hlevel
  · rw [tokens, List.splitOn_append_cons_self, List.append_assoc]
    exact congrArg _ hlevel

theorem ahead_ne_rest (hp : 62 ∉ p) (h : t ∈ ahead p) : t ≠ [62] := by
  rintro rfl
  rcases List.mem_append.mp h with h | h
  · split_ifs at h with hnil
    · cases h
    · exact hp ((mem_tokens h).2 62 (List.mem_singleton_self 62))
  · exact absurd (List.mem_singleton.mp h) (by decide)

theorem filter_queuedSubject (hp : 62 ∉ p) (hs : Filter s) : Filter (queuedSubject p s) := by
  rw [Filter, tokens_queuedSubject, List.map_append]
  refine Wildcard.proper_append ?_ hs
  rintro h
  obtain ⟨t, ht, heq⟩ := List.mem_map.mp h
  exact ahead_ne_rest hp ht (natsToken_rest.mp heq)

theorem natsMatch_queuedSubject (hp : 62 ∉ p) {a : Bytes} (h : natsMatch a s = true) :
    natsMatch (queuedSubject p a) (queuedSubject p s) = true := by
  rw [natsMatch, tokens_queuedSubject, tokens_queuedSubject, List.map_append]
  refine Wildcard.covers_append ?_ h
  rw [List.forall₂_map_left_iff]
  exact List.forall₂_same.mpr fun t ht => natsToken_literal (ahead_ne_rest hp ht)

end Queue

/-! ## The subjects of a subscription -/

theorem Sound.filter {ls ks : List Bytes} (h : Sound e ls) (hks : ∃ rs, ls = ks ++ rs)
    (hne : ks ≠ []) : Filter ([46].intercalate (ks.map (level true e))) := by
  obtain ⟨rs, rfl⟩ := hks
  have htokens : (ks.map (level true e)).map Topic.natsToken =
      (ks.map mqttToken).map (Token.map (level false e)) := by
    rw [List.map_map, List.map_map]
    exact List.map_congr_left fun k hk => h.natsToken (List.mem_append_left _ hk)
  rw [Filter, tokens_intercalate_level hne, htokens]
  intro as bs heq
  obtain ⟨as', bs', hks, rfl, hbs⟩ := List.map_eq_append_iff.mp heq
  obtain ⟨t, bs', rfl, ht, rfl⟩ := List.map_eq_cons_iff.mp hbs
  have hrest : t = .rest := by
    cases t with
    | rest => rfl
    | lit _ => cases ht
    | one => cases ht
  subst hrest
  have hproper := h.placed.proper
  rw [List.map_append, hks, List.append_assoc] at hproper
  have hnil := hproper as' (bs' ++ rs.map mqttToken) rfl
  rw [(List.append_eq_nil_iff.mp hnil).1, List.map_nil]

/-- What the filters so far are, and what they leave in reach. -/
abbrev Kept (out : List Bytes) : Prop := Apart.Kept subjectsOverlap Filter out

abbrev Read (out : List Bytes) (s : Bytes) : Prop :=
  Apart.Described (fun a s => natsMatch a s = true) out s

variable {p : Bytes} {out : List Bytes}

theorem addSubject_kept {f share : Bytes} (hp : 62 ∉ p) (h : Accepted f share e) (hout : Kept out) :
    ∃ out', addSubject p out (convert (inner f) true e) = some out' ∧ Kept out' ∧
      (∀ s, Read out s → Read out' s) ∧
      ∀ s, Routed (convert (inner f) true e) s → Read out' (queuedSubject p s) := by
  have hne := List.splitOn_ne_nil 47 (inner f)
  have hfilter : Filter (convert (inner f) true e) := by
    rw [convert_eq h.ne_nil]
    exact h.sound.filter ⟨[], (List.append_nil _).symm⟩ hne
  obtain ⟨out₁, hout₁, hkept₁, hread₁⟩ := laws.add hout (filter_queuedSubject hp hfilter)
  have hmain : ∀ s, natsMatch (convert (inner f) true e) s = true →
      Read out₁ (queuedSubject p s) := fun s hs =>
    hread₁ _ (.inr (natsMatch_queuedSubject hp hs))
  unfold addSubject addFilter
  rw [hout₁, Option.bind_eq_bind, Option.bind_some]
  cases hparent : parentSubject (convert (inner f) true e) with
  | none =>
    refine ⟨out₁, rfl, hkept₁, fun s hs => hread₁ s (.inl hs), ?_⟩
    rintro s (hs | ⟨q, hq, -⟩)
    · exact hmain s hs
    · rw [hparent] at hq
      cases hq
  | some parent =>
    have hparentFilter : Filter parent := by
      rw [convert_eq h.ne_nil] at hparent
      obtain ⟨ks, hkne, hks, rfl⟩ := (h.sound.parentSubject_iff hne).mp hparent
      exact h.sound.filter ⟨_, hks⟩ hkne
    obtain ⟨out₂, hout₂, hkept₂, hread₂⟩ := laws.add hkept₁ (filter_queuedSubject hp hparentFilter)
    refine ⟨out₂, hout₂, hkept₂, fun s hs => hread₂ s (.inl (hread₁ s (.inl hs))), ?_⟩
    rintro s (hs | ⟨q, hq, hs⟩)
    · exact hread₂ _ (.inl (hmain s hs))
    · obtain rfl := Option.some.inj (hparent.symm.trans hq)
      exact hread₂ _ (.inr (natsMatch_queuedSubject hp hs))

theorem replayLoop_kept (hp : 62 ∉ p) {subs : List Sub}
    (hsubs : ∀ sub ∈ subs, validateFilter sub.filter e = .ok ()) (hout : Kept out) :
    ∃ out', replayLoop p e out subs = some out' ∧ Kept out' ∧
      (∀ s, Read out s → Read out' s) ∧
      ∀ sub ∈ subs, sub.share = [] → ∀ s, Routed (convert (inner sub.filter) true e) s →
        Read out' (queuedSubject p s) := by
  induction subs generalizing out with
  | nil => exact ⟨out, rfl, hout, fun _ hs => hs, List.forall_mem_nil _⟩
  | cons sub subs ih =>
    obtain ⟨hsub, hsubs⟩ := List.forall_mem_cons.mp hsubs
    unfold replayLoop
    split_ifs with hshare
    · obtain ⟨out', hloop, hkept, hold, hnew⟩ := ih hsubs hout
      refine ⟨out', hloop, hkept, hold, List.forall_mem_cons.mpr ⟨?_, hnew⟩⟩
      exact fun hnil => absurd hnil hshare
    · obtain ⟨share, hacc⟩ := validateFilter_ok hsub
      rw [hacc.filterToSubject_eq hsub]
      obtain ⟨out₁, hadd, hkept₁, hold₁, hnew₁⟩ := addSubject_kept hp hacc hout
      obtain ⟨out', hloop, hkept, hold, hnew⟩ := ih hsubs hkept₁
      refine ⟨out', ?_, hkept, fun s hs => hold s (hold₁ s hs),
        List.forall_mem_cons.mpr ⟨fun _ s hs => hold _ (hnew₁ s hs), hnew⟩⟩
      dsimp only
      rw [hadd]
      exact hloop

/-- The queue subject of every name that a subscription matches is read. -/
theorem replayFilters_read (hp : 62 ∉ p) {subs : List Sub}
    (hsubs : ∀ sub ∈ subs, validateFilter sub.filter e = .ok ()) :
    ∃ out, replayFilters p e subs = some out ∧ Kept out ∧
      ∀ n, validateName n e = .ok () →
        (∃ sub ∈ subs, sub.share = [] ∧ isMatch sub.filter n = true) →
        Read out (queuedSubject p (convert n false e)) := by
  obtain ⟨out, hloop, hkept, -, hread⟩ := replayLoop_kept hp hsubs
    ⟨List.forall_mem_nil _, List.Pairwise.nil⟩
  refine ⟨out, hloop, hkept, ?_⟩
  rintro n hn ⟨sub, hmem, hshare, hmatch⟩
  obtain ⟨share, hacc⟩ := validateFilter_ok (hsubs sub hmem)
  have hnil : n ≠ [] := (validateCommon_iff.mp (validateName_ok hn).1).1
  exact hread sub hmem hshare _
    ((hacc.routed_iff hnil).mpr ((hacc.isMatch_iff hnil).mp hmatch).2)

/-- **The filters of a replay are disjoint and complete.** For any subscriptions with accepted
filters, the fold ends with filters no two of which match a common subject, and the queue subject of
every name that `Match` accepts for one of the subscriptions that are not shared matches one of
them. -/
theorem replayFilters_disjoint_complete {p : Bytes} (hp : 62 ∉ p) {subs : List Sub}
    (hsubs : ∀ sub ∈ subs, validateFilter sub.filter e = .ok ()) :
    ∃ out, replayFilters p e subs = some out ∧
      out.Pairwise (fun a b => ∀ s, ¬ (natsMatch a s = true ∧ natsMatch b s = true)) ∧
      ∀ n, validateName n e = .ok () →
        (∃ sub ∈ subs, sub.share = [] ∧ isMatch sub.filter n = true) →
        ∃ subject, nameToSubject n e = .ok subject ∧
          ∃ a ∈ out, natsMatch a (queuedSubject p subject) = true := by
  obtain ⟨out, hloop, hkept, hread⟩ := replayFilters_read hp hsubs
  exact ⟨out, hloop, laws.disjoint hkept, fun n hn hsub =>
    ⟨_, nameToSubject_eq hn, hread n hn hsub⟩⟩

/-- `a/+/c` and `a/b/+`. -/
def crossing : List Sub :=
  [⟨ascii ['a', '/', '+', '/', 'c'], []⟩, ⟨ascii ['a', '/', 'b', '/', '+'], []⟩]

/-- They cross, and a replay reads them as one. -/
theorem replayFilters_disjoint_complete_crossing :
    replayFilters mqtt false crossing =
      some [queuedSubject mqtt (ascii ['a', '.', '*', '.', '*'])] ∧
    natsMatch (queuedSubject mqtt (ascii ['a', '.', '*', '.', '*']))
      (queuedSubject mqtt (ascii ['a', '.', 'b', '.', 'd'])) = true := by
  have hout : replayFilters mqtt false crossing =
      some [queuedSubject mqtt (ascii ['a', '.', '*', '.', '*'])] := by decide +kernel
  have hvalid : ∀ sub ∈ crossing, validateFilter sub.filter false = .ok () := by decide
  obtain ⟨out, hloop, -, hread⟩ := replayFilters_disjoint_complete (p := mqtt) (by decide) hvalid
  obtain rfl := Option.some.inj (hout.symm.trans hloop)
  obtain ⟨subject, hsubject, a, ha, hm⟩ := hread (ascii ['a', '/', 'b', '/', 'd']) (by decide)
    ⟨_, List.mem_cons_of_mem _ List.mem_cons_self, rfl, by decide⟩
  obtain rfl : ascii ['a', '.', 'b', '.', 'd'] = subject := Except.ok.inj hsubject
  obtain rfl := List.mem_singleton.mp ha
  exact ⟨hout, hm⟩

end Natsmqtt5.Topic
