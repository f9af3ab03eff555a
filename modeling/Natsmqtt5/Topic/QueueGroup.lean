import Natsmqtt5.Topic.Routing

/-!
# The queue groups of shared subscriptions

`queueGroup` (`subscribe.go:384-386`) names the NATS queue group of a shared subscription: the
ShareName and the subject, joined with a dot. A ShareName may contain dots, and the subject starts
with the subject prefix, so one name can be read in two ways: as a ShareName `a` and a subject, or
as a longer ShareName `a.r` and the rest of that subject. `Clash` says when accepted filters with
such ShareNames exist: `r`, a dot and the prefix start with the prefix again, and the text `t` that
is then left over begins the subject of a filter.

Results:
* `Clash.of_append`: two ways to read one group are a clash of the ShareNames.
* `Clash.collides`: under a clash `$share/a/` with `t` as levels and `#`, and `$share/b/#`, have one
  group.
* **`queueGroup_distinct`**: all shared subscriptions with two ShareNames have distinct groups if
  and only if the ShareNames do not clash.
* `queueGroup_collides`: two with one group, and a name that both match.
-/

namespace Natsmqtt5.Topic

/-- `queueGroup`, of the ShareName and the subject of a subscription. -/
def queueGroup (share subject : Bytes) : Bytes :=
  ascii ['m', 'q', 't', 't', '5', '.'] ++ share ++ 46 :: subject

/-- The ShareName and the subject of the subscription a shared filter makes under the prefix `p`. -/
def subscription (p filter : Bytes) (escape : Bool) : Except FilterInvalid (Bytes × Bytes) := do
  let subject ← filterToSubject filter escape
  let (share, _) ← splitShared filter
  return (share, prefixed p subject)

/-- `t` and a dot can begin the subject of a filter: its tokens are `*`, or not empty and of bytes
that a subject carries, and the first is not a level of the broker's own. -/
def Begins (t : Bytes) : Prop :=
  (∀ w ∈ tokens t, w = [42] ∨ w ≠ [] ∧ ∀ c ∈ w, c ∉ uncarried) ∧
    ∀ w ∈ reservedLevels, (tokens t).head? ≠ some w

/-- The ShareName `b` is `a`, a dot and a text that can be read as part of a subject under `p`. -/
def Clash (p a b : Bytes) : Prop :=
  ∃ r t, b = a ++ 46 :: r ∧ r ++ 46 :: front p = front p ++ t ++ [46] ∧ Begins t

variable {p f a b s t : Bytes} {e : Bool}

/-! ## What is known of a subscription -/

theorem subscription_ok (h : subscription p f e = .ok (a, s)) :
    validateFilter f e = .ok () ∧ Accepted f a e ∧ s = front p ++ convert (inner f) true e := by
  unfold subscription filterToSubject at h
  cases hv : validateFilter f e with
  | error err =>
    rw [hv] at h
    cases h
  | ok u =>
    obtain ⟨share, hacc⟩ := validateFilter_ok hv
    rw [hv, hacc.split] at h
    obtain ⟨rfl, rfl⟩ := Prod.mk.inj (Except.ok.inj h)
    exact ⟨rfl, hacc, prefixed_eq ..⟩

/-- What is known of the ShareName of a filter that was accepted. -/
structure Share (e : Bool) (a : Bytes) : Prop where
  ne_nil : a ≠ []
  slash : 47 ∉ a
  plain : hasWildcard a = false
  null : 0 ∉ a
  carried : e = false → ∀ c ∈ a, c ∉ uncarried
  /-- With `$share/`, a `/` and a filter. -/
  fits : a.length + 9 ≤ maxLength

theorem Share.of_subscription (h : subscription p f e = .ok (a, s)) (ha : a ≠ []) : Share e a := by
  obtain ⟨hv, hacc, -⟩ := subscription_ok h
  have hs : isShared f = true := by
    by_contra hs
    have := splitShared_of_not (f := f) (by simpa using hs)
    rw [hacc.split] at this
    exact ha (Prod.mk.inj (Except.ok.inj this)).1
  obtain ⟨hf, hslash, -, hinner, hplain⟩ := splitShared_ok hacc.split hs
  have hcommon : validateCommon f e = .ok () := by
    unfold validateFilter at hv
    cases hc : validateCommon f e with
    | error err =>
      rw [hc] at hv
      cases hv
    | ok u => rfl
  obtain ⟨-, hlen, hnull, hcarried⟩ := validateCommon_iff.mp hcommon
  have hmem : ∀ c ∈ a, c ∈ f := by
    intro c hc
    rw [hf]
    simp [hc]
  refine ⟨ha, hslash, hplain, fun hc => hnull (hmem 0 hc), fun he c hc => hcarried he c (hmem c hc),
    ?_⟩
  have hpos := List.length_pos_iff.mpr hinner
  rw [hf] at hlen
  simp only [List.length_append, List.length_cons, show sharedPrefix.length = 7 from rfl] at hlen
  omega

/-- A ShareName with any filter that may follow it. -/
theorem Share.subscription (h : Share e a) {i : Bytes} (hnull : 0 ∉ i)
    (hlen : a.length + 8 + i.length ≤ maxLength) (hcarried : e = false → ∀ c ∈ i, c ∉ uncarried)
    (hnil : i ≠ []) (hres : reserved i = false) (hplaced : Placed (levels i)) :
    subscription p (sharedPrefix ++ a ++ 47 :: i) e = .ok (a, front p ++ convert i true e) := by
  have hsplit := splitShared_shared h.ne_nil h.slash h.plain hnil
  have hcommon : validateCommon (sharedPrefix ++ a ++ 47 :: i) e = .ok () := by
    refine validateCommon_iff.mpr ⟨by simp, ?_, ?_, fun he c hc => ?_⟩
    · simp only [List.length_append, List.length_cons, show sharedPrefix.length = 7 from rfl]
      omega
    · simp [h.null, hnull, show (0 : UInt8) ∉ sharedPrefix by decide]
    · have hfixed : ∀ c ∈ 47 :: sharedPrefix, c ∉ uncarried := indexAny_eq_none.mp (by decide)
      simp only [List.mem_append, List.mem_cons] at hc
      obtain (hc | hc) | hc | hc := hc
      · exact hfixed c (List.mem_cons_of_mem _ hc)
      · exact h.carried he c hc
      · exact hc ▸ hfixed 47 List.mem_cons_self
      · exact hcarried he c hc
  have hshared : isShared (sharedPrefix ++ a ++ 47 :: i) = true := by
    rw [isShared, List.append_assoc, List.isPrefixOf_iff_prefix]
    exact List.prefix_append ..
  have hvalid : validateFilter (sharedPrefix ++ a ++ 47 :: i) e = .ok () := by
    unfold validateFilter
    rw [hcommon, hsplit]
    simp only [hshared, if_true]
    change validateInner i = _
    rw [validateInner, if_neg (by simp [hres]), validateFilterLevels, if_neg hnil,
      checkLevels_of_placed hplaced]
  unfold Topic.subscription filterToSubject
  rw [hvalid, hsplit, ← prefixed_eq]
  rfl

/-! ## Two ways to read one group -/

/-- What comes before the last levels of an accepted filter begins a subject. -/
theorem Accepted.begins {share t : Bytes} {ms : List Bytes} (h : Accepted f share e)
    (hsplit : (levels (inner f)).map (level true e) = tokens t ++ ms) (hms : ms ≠ []) :
    Begins t := by
  constructor
  · intro w hw
    obtain ⟨ks, ks', hks⟩ := List.append_of_mem hw
    rw [hks, List.append_assoc, List.cons_append] at hsplit
    obtain ⟨l₁, l₂, hlevels, -, hl₂⟩ := List.map_eq_append_iff.mp hsplit
    obtain ⟨l, l₃, rfl, rfl, hl₃⟩ := List.map_eq_cons_iff.mp hl₂
    have hl : l ∈ levels (inner f) := by
      rw [hlevels]
      simp
    by_cases hplus : l = [43]
    · exact .inl (by rw [hplus]; rfl)
    · by_cases hhash : l = [35]
      · -- a `#` is the last level
        rw [h.placed.last l₁ l₃ (hhash ▸ hlevels)] at hl₃
        simp [hms] at hl₃
      · refine .inr ⟨level_ne_nil l, ?_⟩
        rw [level_true_eq (fun hc => hplus (h.placed.plus l hl hc))
          fun hc => hhash (h.placed.hash l hl hc)]
        exact level_carried fun he c hc =>
          h.carried he c (h.mem_of_mem_inner ((mem_levels hl).2 c hc))
  · intro w hw hhead
    have hfirst : level true e (firstLevel (inner f)) = w := by
      have := congrArg List.head? hsplit
      rw [List.head?_map, head?_levels, List.head?_append, hhead] at this
      exact Option.some.inj this
    have hmem : firstLevel (inner f) ∈ levels (inner f) := List.mem_of_mem_head? (head?_levels _)
    have hsame : firstLevel (inner f) = w := by
      by_cases hplus : firstLevel (inner f) = [43]
      · rw [hplus] at hfirst
        subst hfirst
        exact absurd hw (by cases e <;> decide)
      · by_cases hhash : firstLevel (inner f) = [35]
        · rw [hhash] at hfirst
          subst hfirst
          exact absurd hw (by cases e <;> decide)
        · have hplain : ∀ r ∈ reservedLevels, 47 ∉ r := by decide
          refine level_inj (e := e) (mem_levels hmem).1 (hplain w hw) ?_
          rw [level_reserved hw, ← hfirst, level_true_eq
            (fun hc => hplus (h.placed.plus _ hmem hc)) fun hc => hhash (h.placed.hash _ hmem hc)]
    have := h.not_reserved
    rw [reserved, hsame] at this
    simp [hw] at this

/-- The second ShareName is the first and part of its subject. -/
theorem Clash.of_append {r x y share : Bytes} (hb : b = a ++ r) (hr : r ≠ [])
    (h : Accepted f share e) (hx : x = convert (inner f) true e)
    (heq : 46 :: (front p ++ x) = r ++ 46 :: (front p ++ y)) : Clash p a b := by
  obtain ⟨c, r, rfl⟩ := List.exists_cons_of_ne_nil hr
  obtain ⟨rfl, htail⟩ := List.cons.inj heq
  have hfront : front p <+: r ++ 46 :: front p := by
    refine List.prefix_of_prefix_length_le ⟨x, htail⟩ ⟨y, by simp⟩ ?_
    simp only [List.length_append, List.length_cons]
    omega
  obtain ⟨t', ht'⟩ := hfront
  -- what is left over ends in the dot of the prefix, or in the one before the subject
  obtain ⟨q, hq⟩ : ∃ q, r ++ 46 :: front p = q ++ [46] := by
    unfold front
    split_ifs
    · exact ⟨r, rfl⟩
    · exact ⟨r ++ 46 :: p, by simp⟩
  obtain rfl | ⟨t, c, rfl⟩ := List.eq_nil_or_concat' t'
  · have := congrArg List.length ht'
    simp at this
    omega
  obtain rfl : c = 46 := by
    rw [hq, ← List.append_assoc] at ht'
    exact List.singleton_inj.mp (List.append_inj' ht' rfl).2
  refine ⟨r, t, hb, by rw [← ht', List.append_assoc], h.begins ?_
    (show tokens y ≠ [] from List.splitOn_ne_nil 46 y)⟩
  have hxy : x = t ++ 46 :: y := by
    have : front p ++ x = (r ++ 46 :: front p) ++ y := by simpa using htail
    rw [← ht', List.append_assoc, List.append_assoc] at this
    exact List.append_cancel_left this
  rw [← tokens_convert h.ne_nil, ← hx, hxy]
  exact List.splitOn_append_cons_self t y

/-! ## Two filters with one group -/

/-- The filter that is written as `t`: a dot was a `/`, and a `*` was a `+`. -/
def unwritten (c : UInt8) : UInt8 := if c = 46 then 47 else if c = 42 then 43 else c

theorem levels_unwritten (ht : 47 ∉ t) :
    levels (t.map unwritten) = (tokens t).map (·.map unwritten) := by
  unfold levels tokens
  induction t with
  | nil => rfl
  | cons c t ih =>
    simp only [List.mem_cons, not_or] at ht
    have hc : unwritten c = 47 ↔ c = 46 := by
      unfold unwritten
      split_ifs with hdot hstar
      · simp [hdot]
      · simp [hdot]
      · simp [hdot, Ne.symm ht.1]
    rw [List.map_cons, List.splitOn_cons_eq_if_modifyHead, List.splitOn_cons_eq_if_modifyHead,
      ih ht.2]
    simp only [beq_iff_eq, hc]
    split_ifs
    · rfl
    · cases List.splitOn 46 t <;> rfl

/-- A token that begins a subject is written for a level: `+`, or the token itself. -/
theorem level_unwritten {w : Bytes} (hw : w = [42] ∨ w ≠ [] ∧ ∀ c ∈ w, c ∉ uncarried)
    (hdot : 46 ∉ w) (hplus : 43 ∉ w) (hhash : 35 ∉ w) :
    level true e (w.map unwritten) = w ∧ (w.map unwritten = [43] ∨ w.map unwritten = w) := by
  obtain rfl | ⟨hnil, hc⟩ := hw
  · cases e <;> exact ⟨rfl, .inl rfl⟩
  · have hsame : w.map unwritten = w := by
      refine (List.map_congr_left fun c hmem => ?_).trans (List.map_id w)
      have hstar : c ≠ 42 := fun heq => hc c hmem (heq ▸ by decide)
      have hdot : c ≠ 46 := fun heq => hdot (heq ▸ hmem)
      simp [unwritten, hdot, hstar]
    refine ⟨?_, .inr hsame⟩
    rw [hsame, level, if_neg hnil]
    refine (List.flatMap_congr fun c hmem => ?_).trans (List.flatMap_singleton' w)
    have hdot : c ≠ 46 := fun heq => hdot (heq ▸ hmem)
    have hplus : c ≠ 43 := fun heq => hplus (heq ▸ hmem)
    have hhash : c ≠ 35 := fun heq => hhash (heq ▸ hmem)
    simp [letter, hdot, hplus, hhash, escaped_of_carried (hc c hmem)]

theorem hasWildcard_eq_false : hasWildcard s = false ↔ 43 ∉ s ∧ 35 ∉ s := by
  simp [hasWildcard]

/-- A text that begins a subject, then `#`: an accepted filter and its subject. -/
theorem Begins.filter (h : Begins t) (hslash : 47 ∉ t) (hplain : hasWildcard t = false) :
    reserved (t.map unwritten ++ [47, 35]) = false ∧
      Placed (levels (t.map unwritten ++ [47, 35])) ∧
      convert (t.map unwritten ++ [47, 35]) true e = t ++ [46, 62] := by
  obtain ⟨hbegins, hfirst⟩ := h
  rw [hasWildcard_eq_false] at hplain
  have hlevels : levels (t.map unwritten ++ [47, 35]) =
      (tokens t).map (·.map unwritten) ++ [[35]] := by
    rw [← levels_unwritten hslash]
    exact List.splitOn_append_cons_self _ [35]
  have hlevel : ∀ w ∈ tokens t, level true e (w.map unwritten) = w ∧
      (w.map unwritten = [43] ∨ w.map unwritten = w ∧ 43 ∉ w ∧ 35 ∉ w) := by
    intro w hw
    obtain ⟨hdot, hmem⟩ := mem_tokens hw
    have hplus : 43 ∉ w := fun hc => hplain.1 (hmem 43 hc)
    have hhash : 35 ∉ w := fun hc => hplain.2 (hmem 35 hc)
    obtain ⟨hlevel, hsame⟩ := level_unwritten (e := e) (hbegins w hw) hdot hplus hhash
    exact ⟨hlevel, hsame.imp_right fun hsame => ⟨hsame, hplus, hhash⟩⟩
  refine ⟨?_, ?_, ?_⟩
  · obtain ⟨w, ws, hws⟩ : ∃ w ws, tokens t = w :: ws :=
      List.exists_cons_of_ne_nil (List.splitOn_ne_nil 46 t)
    have hw : w ∈ tokens t := hws ▸ List.mem_cons_self
    have hhead := head?_levels (t.map unwritten ++ [47, 35])
    rw [hlevels, hws, List.map_cons, List.cons_append, List.head?_cons,
      Option.some.injEq] at hhead
    rw [reserved, ← hhead]
    obtain hsame | ⟨hsame, -⟩ := (hlevel w hw).2
    · rw [hsame]
      decide
    · rw [hsame]
      simpa using fun hmem => hfirst w hmem (by rw [hws]; rfl)
  · have hmem : ∀ l ∈ (tokens t).map (·.map unwritten), l = [43] ∨ 43 ∉ l ∧ 35 ∉ l := by
      intro l hl
      obtain ⟨w, hw, rfl⟩ := List.mem_map.mp hl
      exact (hlevel w hw).2.imp_right fun hsame => by rw [hsame.1]; exact hsame.2
    rw [hlevels]
    refine ⟨fun l hl hc => ?_, fun l hl hc => ?_, fun ks ms heq => ?_⟩
    · obtain hl | hl := List.mem_append.mp hl
      · exact (hmem l hl).resolve_right fun hno => hno.1 hc
      · simp [List.mem_singleton.mp hl] at hc
    · obtain hl | hl := List.mem_append.mp hl
      · obtain rfl | hno := hmem l hl
        · simp at hc
        · exact absurd hc hno.2
      · exact List.mem_singleton.mp hl
    · obtain rfl | ⟨ms, m, rfl⟩ := List.eq_nil_or_concat' ms
      · rfl
      · rw [← List.cons_append, ← List.append_assoc] at heq
        have hin := (List.append_inj' heq rfl).1
        obtain hbad | hbad := hmem [35] (by rw [hin]; simp)
        · simp at hbad
        · simp at hbad
  · have htokens : tokens (t ++ [46, 62]) = tokens t ++ [[62]] :=
      List.splitOn_append_cons_self t [62]
    have hmap : ((tokens t).map (·.map unwritten)).map (level true e) = tokens t := by
      rw [List.map_map]
      exact (List.map_congr_left fun w hw => (hlevel w hw).1).trans (List.map_id _)
    have hhash : level true e [35] = [62] := by cases e <;> rfl
    rw [convert_eq (by simp), hlevels, List.map_append, hmap, List.map_singleton, hhash, ← htokens]
    exact List.intercalate_splitOn 46

/-- **Under a clash two accepted filters have one group.** -/
theorem Clash.collides (h : Clash p a b) (ha : Share e a) (hb : Share e b) : ∃ f g s s',
    subscription p f e = .ok (a, s) ∧ subscription p g e = .ok (b, s') ∧
      queueGroup a s = queueGroup b s' := by
  obtain ⟨r, t, rfl, heq, hbegins⟩ := h
  -- `t` has the bytes of `r`, and so what a ShareName has
  have hcount (c : UInt8) : t.count c = r.count c := by
    have := congrArg (List.count c) heq
    simp only [List.count_append, List.count_cons, List.count_nil] at this
    omega
  have hmem : ∀ c ∈ t, c ∈ a ++ 46 :: r := by
    intro c hc
    have : c ∈ r := List.count_pos_iff.mp (hcount c ▸ List.count_pos_iff.mpr hc)
    simp [this]
  have hlen : t.length = r.length := by
    have := congrArg List.length heq
    simp at this
    omega
  have hplain : hasWildcard t = false := by
    have := hb.plain
    rw [hasWildcard_eq_false] at this ⊢
    exact ⟨fun hc => this.1 (hmem _ hc), fun hc => this.2 (hmem _ hc)⟩
  obtain ⟨hres, hplaced, hconv⟩ :=
    hbegins.filter (e := e) (fun hc => hb.slash (hmem _ hc)) hplain
  have hbyte : ∀ c ∈ t.map unwritten ++ [47, 35], c ∈ t ∨ c ∈ ([47, 43, 35] : Bytes) := by
    intro c hc
    obtain hc | hc := List.mem_append.mp hc
    · obtain ⟨d, hd, rfl⟩ := List.mem_map.mp hc
      unfold unwritten
      split_ifs
      · exact .inr (by decide)
      · exact .inr (by decide)
      · exact .inl hd
    · obtain rfl | rfl : c = 47 ∨ c = 35 := by simpa using hc
      · exact .inr (by decide)
      · exact .inr (by decide)
  have hfixed : ∀ c ∈ ([47, 43, 35] : Bytes), c ∉ uncarried := indexAny_eq_none.mp (by decide)
  have hfits := hb.fits
  simp only [List.length_append, List.length_cons] at hfits
  refine ⟨_, _, _, _, ha.subscription (fun hc => ?_) ?_ (fun he c hc => ?_) (by simp) hres hplaced,
    hb.subscription (i := [35]) (by simp) ?_ (fun _ => indexAny_eq_none.mp (by decide))
      (by simp) (by decide) (checkLevels_ok (by decide)), ?_⟩
  · exact (hbyte 0 hc).elim (fun hc => hb.null (hmem 0 hc)) fun hc => absurd hc (by decide)
  · simp only [List.length_append, List.length_map, List.length_cons, List.length_nil]
    omega
  · exact (hbyte c hc).elim (fun hc => hb.carried he c (hmem c hc)) (hfixed c)
  · simp only [List.length_append, List.length_cons, List.length_nil]
    omega
  · have hhash : convert [35] true e = [62] := by cases e <;> rfl
    have hread : front p ++ (t ++ [46, 62]) = r ++ 46 :: (front p ++ [62]) := by
      have := congrArg (· ++ [62]) heq
      simpa using this.symm
    rw [hconv, hhash, queueGroup, queueGroup, hread]
    simp

/-! ## The result -/

/-- Two ways to read one group, the second ShareName being the longer one. -/
theorem Clash.of_group {f g s s' : Bytes} (hf : subscription p f e = .ok (a, s))
    (hg : subscription p g e = .ok (b, s')) {r : Bytes} (hb : b = a ++ r)
    (hr : 46 :: s = r ++ 46 :: s') : Clash p a b ∨ a = b ∧ s = s' := by
  obtain ⟨-, hacc, rfl⟩ := subscription_ok hf
  obtain ⟨-, -, rfl⟩ := subscription_ok hg
  by_cases hnil : r = []
  · subst hnil
    exact .inr ⟨by simpa using hb.symm, (List.cons.inj hr).2⟩
  · exact .inl (.of_append hb hnil hacc rfl hr)

/-- **The queue groups of shared subscriptions are distinct.** Of all subscriptions with the
ShareNames `a` and `b`, two have one group only if both their ShareNames and their subjects are
equal; this holds if and only if neither ShareName clashes with the other. -/
theorem queueGroup_distinct {p f₀ g₀ a b s₀ s₀' : Bytes} {e : Bool}
    (ha : subscription p f₀ e = .ok (a, s₀)) (hb : subscription p g₀ e = .ok (b, s₀'))
    (hane : a ≠ []) (hbne : b ≠ []) :
    (∀ f g s s', subscription p f e = .ok (a, s) → subscription p g e = .ok (b, s') →
      queueGroup a s = queueGroup b s' → a = b ∧ s = s') ↔ ¬ Clash p a b ∧ ¬ Clash p b a := by
  have hsa := Share.of_subscription ha hane
  have hsb := Share.of_subscription hb hbne
  constructor
  · intro h
    have hne : ∀ {x : Bytes}, ¬ Clash p x x := by
      rintro x ⟨r, t, hx, -⟩
      simp at hx
    refine ⟨fun hc => ?_, fun hc => ?_⟩
    · obtain ⟨f, g, s, s', hf, hg, hgroup⟩ := hc.collides hsa hsb
      exact hne ((h f g s s' hf hg hgroup).1 ▸ hc)
    · obtain ⟨g, f, s', s, hg, hf, hgroup⟩ := hc.collides hsb hsa
      exact hne ((h f g s s' hf hg hgroup.symm).1 ▸ hc)
  · rintro ⟨hab, hba⟩ f g s s' hf hg hgroup
    unfold queueGroup at hgroup
    rw [List.append_assoc, List.append_assoc] at hgroup
    obtain ⟨r, hb, hr⟩ | ⟨r, ha, hr⟩ :=
      List.append_eq_append_iff.mp (List.append_cancel_left hgroup)
    · exact (Clash.of_group hf hg hb hr).resolve_left hab
    · obtain ⟨h₁, h₂⟩ := (Clash.of_group hg hf ha hr).resolve_left hba
      exact ⟨h₁.symm, h₂.symm⟩

/-- Under the prefix `m`, the ShareName `g.x` goes on after `g`, but not with the prefix. -/
theorem queueGroup_distinct_names :
    ¬ ∃ f g s s', subscription [109] f false = .ok ([103], s) ∧
      subscription [109] g false = .ok ([103, 46, 120], s') ∧
      queueGroup [103] s = queueGroup [103, 46, 120] s' := by
  have hf₀ : subscription [109] (sharedPrefix ++ ascii ['g', '/', 'a']) false =
      .ok ([103], ascii ['m', '.', 'a']) := by decide
  have hg₀ : subscription [109] (sharedPrefix ++ ascii ['g', '.', 'x', '/', 'a']) false =
      .ok ([103, 46, 120], ascii ['m', '.', 'a']) := by decide
  have hno : ¬ Clash [109] [103] [103, 46, 120] ∧ ¬ Clash [109] [103, 46, 120] [103] := by
    constructor
    · rintro ⟨r, t, hr, heq, -⟩
      obtain rfl : r = [120] := by simpa using hr.symm
      simp [front] at heq
    · rintro ⟨r, t, hr, -⟩
      simp at hr
  rintro ⟨f, g, s, s', hf, hg, h⟩
  have hsame := (queueGroup_distinct hf₀ hg₀ (by decide) (by decide)).mpr hno f g s s' hf hg h
  exact absurd hsame.1 (by decide)

/-- `$share/g/mqtt/#` and `$share/g.mqtt/#`, under the prefix `mqtt`: one queue group, and both
subjects match what is published on `mqtt/a`. -/
theorem queueGroup_collides :
    ∃ p f g share share' subject subject' published,
      subscription p f false = .ok (share, subject) ∧
      subscription p g false = .ok (share', subject') ∧ share ≠ [] ∧ share' ≠ [] ∧
      queueGroup share subject = queueGroup share' subject' ∧
      share ≠ share' ∧ subject ≠ subject' ∧
      natsMatch subject published = true ∧ natsMatch subject' published = true :=
  ⟨ascii ['m', 'q', 't', 't'], sharedPrefix ++ ascii ['g', '/', 'm', 'q', 't', 't', '/', '#'],
    sharedPrefix ++ ascii ['g', '.', 'm', 'q', 't', 't', '/', '#'],
    ascii ['g'], ascii ['g', '.', 'm', 'q', 't', 't'],
    ascii ['m', 'q', 't', 't', '.', 'm', 'q', 't', 't', '.', '>'],
    ascii ['m', 'q', 't', 't', '.', '>'],
    ascii ['m', 'q', 't', 't', '.', 'm', 'q', 't', 't', '.', 'a'], by decide⟩

end Natsmqtt5.Topic
