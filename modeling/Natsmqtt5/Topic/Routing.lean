import Natsmqtt5.Topic.Filter

/-!
# What NATS routes to a subscription

A subscription is one NATS subscription on the subject of its filter and, for a filter that ends in
`/#`, a second one on the parent subject.

Results:
* `nats_routes_matches`: NATS sends a subscription what `Match` accepts, and nothing else but what
  the rule about `$` leaves for `Match` to refuse.
* `reserved_unreachable`: no name is published at the broker's own subjects, and no filter matches
  what is.
-/

namespace Natsmqtt5.Topic

open Wildcard (Token covers)

/-! ## The parent subject -/

variable {w e : Bool} {ls : List Bytes} {s p f t r : Bytes}

theorem intercalate_append_level (h : ls ≠ []) (l : Bytes) :
    [46].intercalate ((ls ++ [l]).map (level w e)) =
      [46].intercalate (ls.map (level w e)) ++ 46 :: level w e l := by
  obtain ⟨m, ms, rfl⟩ := List.exists_cons_of_ne_nil h
  rw [List.cons_append, intercalate_level, intercalate_level, List.append_assoc]
  simp [further]

theorem parentSubject_append (h : s ≠ []) : parentSubject (s ++ [46, 62]) = some s := by
  have hlen : ¬ (s ++ [46, 62]).length < 3 := by
    have := List.length_pos_iff.mpr h
    simp only [List.length_append, List.length_cons, List.length_nil]
    omega
  rw [parentSubject, if_neg (by simp only [List.suffix_append, not_true, or_false]; exact hlen)]
  simp

theorem parentSubject_eq_some (h : parentSubject s = some p) : s = p ++ [46, 62] := by
  unfold parentSubject at h
  split_ifs at h with hs
  rw [not_or, not_not] at hs
  obtain ⟨t, rfl⟩ := hs.2
  cases h
  simp

theorem intercalate_level_ne_nil (h : ls ≠ []) : [46].intercalate (ls.map (level w e)) ≠ [] := by
  obtain ⟨m, ms, rfl⟩ := List.exists_cons_of_ne_nil h
  rw [intercalate_level]
  simp [level_ne_nil]

/-! ## Routing -/

/-- A subscription on `subject` is sent what is published on `published`. -/
def Routed (subject published : Bytes) : Prop :=
  natsMatch subject published = true ∨
    ∃ p, parentSubject subject = some p ∧ natsMatch p published = true

variable {e : Bool}

/-- What is known of the levels of a filter that was accepted. -/
structure Sound (e : Bool) (ls : List Bytes) : Prop where
  placed : Placed ls
  slash : ∀ l ∈ ls, 47 ∉ l
  carried : e = false → ∀ l ∈ ls, ∀ c ∈ l, c ∉ uncarried

theorem Accepted.sound {share : Bytes} (h : Accepted f share e) : Sound e (levels (inner f)) where
  placed := h.placed
  slash _ hl := (mem_levels hl).1
  carried he _ hl c hc := h.carried he c (h.mem_of_mem_inner ((mem_levels hl).2 c hc))

namespace Sound

variable {ls : List Bytes} (h : Sound e ls) {l : Bytes}

include h

theorem natsToken (hl : l ∈ ls) : natsToken (level true e l) = (mqttToken l).map (level false e) :=
  natsToken_level (h.placed.plus l hl) (h.placed.hash l hl) fun he => h.carried he l hl

/-- On tokens that are some of the levels, NATS matches the pattern the levels are. -/
theorem natsMatch {ks : List Bytes} (hks : ∀ k ∈ ks, k ∈ ls) (hne : ks ≠ []) {n : Bytes}
    (hn : n ≠ []) :
    natsMatch ([46].intercalate (ks.map (level true e))) (convert n false e) =
      covers 1 (ks.map mqttToken) (levels n) := by
  have htokens : (ks.map (level true e)).map Topic.natsToken =
      (ks.map mqttToken).map (Token.map (level false e)) := by
    rw [List.map_map, List.map_map]
    exact List.map_congr_left fun k hk => h.natsToken (hks k hk)
  rw [Topic.natsMatch, tokens_intercalate_level hne, tokens_convert hn, htokens]
  refine Wildcard.covers_map (S := fun l => 47 ∉ l) (fun a b ha hb => level_inj ha hb) ?_ ?_
  · intro t ht
    obtain ⟨k, hk, heq⟩ := List.mem_map.mp ht
    rw [← mqttToken_lit heq]
    exact h.slash k (hks k hk)
  · exact fun l hl => (mem_levels hl).1

/-- `>` is the token of `#` alone. -/
theorem level_eq_rest (hl : l ∈ ls) (heq : level true e l = [62]) : l = [35] := by
  have htoken := h.natsToken hl
  rw [heq] at htoken
  cases ht : mqttToken l with
  | lit t | one =>
    rw [ht] at htoken
    cases htoken
  | rest => exact mqttToken_rest ht

/-- The parent subject is that of the levels before a last `#`. -/
theorem parentSubject_iff (hne : ls ≠ []) :
    parentSubject ([46].intercalate (ls.map (level true e))) = some p ↔
      ∃ ks, ks ≠ [] ∧ ls = ks ++ [[35]] ∧ p = [46].intercalate (ks.map (level true e)) := by
  constructor
  · intro hp
    have hs := parentSubject_eq_some hp
    have htok : tokens p ++ [[62]] = ls.map (level true e) := by
      rw [← tokens_intercalate_level hne, hs]
      exact (List.splitOn_append_cons_self p [62]).symm
    obtain ⟨ks, rs, rfl, hks, hrs⟩ := List.map_eq_append_iff.mp htok.symm
    obtain ⟨l, rfl, hl⟩ := List.map_eq_singleton_iff.mp hrs
    have hkne : ks ≠ [] := by
      rintro rfl
      exact List.splitOn_ne_nil 46 p hks.symm
    refine ⟨ks, hkne, ?_, ?_⟩
    · rw [h.level_eq_rest (List.mem_append_right _ List.mem_cons_self) hl]
    · rw [hks]
      exact (List.intercalate_splitOn 46).symm
  · rintro ⟨ks, hkne, rfl, rfl⟩
    rw [intercalate_append_level hkne]
    exact parentSubject_append (intercalate_level_ne_nil hkne)

/-- NATS, with both subscriptions, matches the pattern where `#` may stand for nothing. -/
theorem routed_iff (hne : ls ≠ []) {n : Bytes} (hn : n ≠ []) :
    Routed ([46].intercalate (ls.map (level true e))) (convert n false e) ↔
      covers 0 (ls.map mqttToken) (levels n) = true := by
  rw [Wildcard.covers_zero_iff h.placed.proper, Routed, h.natsMatch (fun _ hk => hk) hne hn]
  refine or_congr_right ?_
  constructor
  · rintro ⟨p, hp, hm⟩
    obtain ⟨ks, hkne, rfl, rfl⟩ := (h.parentSubject_iff hne).mp hp
    rw [h.natsMatch (fun k hk => List.mem_append_left _ hk) hkne hn] at hm
    exact ⟨ks.map mqttToken, by simp [mqttToken], hm⟩
  · rintro ⟨qs, hqs, hm⟩
    obtain ⟨ks, rs, rfl, rfl, hrs⟩ := List.map_eq_append_iff.mp hqs
    obtain ⟨l, rfl, hl⟩ := List.map_eq_singleton_iff.mp hrs
    obtain rfl := mqttToken_rest hl
    have hkne : ks ≠ [] := by
      rintro rfl
      obtain ⟨m, ms, hms⟩ := exists_levels n
      simp [hms] at hm
    refine ⟨_, (h.parentSubject_iff hne).mpr ⟨ks, hkne, rfl, rfl⟩, ?_⟩
    rw [h.natsMatch (fun k hk => List.mem_append_left _ hk) hkne hn]
    exact hm

end Sound

namespace Accepted

variable {f share n : Bytes} (h : Accepted f share e) (hn : n ≠ [])

include h hn

theorem routed_iff : Routed (convert (inner f) true e) (convert n false e) ↔
    matchLevels (levels (inner f)) (levels n) = true := by
  rw [convert_eq h.ne_nil, matchLevels_eq_covers h.placed]
  exact h.sound.routed_iff (List.splitOn_ne_nil 47 (inner f)) hn

theorem isMatch_iff : isMatch f n = true ↔
    ¬ (n.head? = some 36 ∧ startsWild (inner f) = true) ∧
      matchLevels (levels (inner f)) (levels n) = true := by
  rw [h.isMatch_eq, matchInner, if_neg (by simp [h.ne_nil, hn])]
  split_ifs with hdollar
  · simp [hdollar]
  · simp [hdollar]

end Accepted

variable {n : Bytes}

theorem nameToSubject_eq (hn : validateName n e = .ok ()) :
    nameToSubject n e = .ok (convert n false e) := by
  unfold nameToSubject
  rw [hn]
  rfl

/-- **NATS routes what `Match` accepts.** For a filter and a name that are accepted, what `Match`
accepts is routed; and only that, unless the name starts with `$` and the filter with a wildcard. -/
theorem nats_routes_matches {f n : Bytes} (hf : validateFilter f e = .ok ())
    (hn : validateName n e = .ok ()) :
    ∃ subject published, filterToSubject f e = .ok subject ∧ nameToSubject n e = .ok published ∧
      (isMatch f n = true → Routed subject published) ∧
      (¬ (n.head? = some 36 ∧ startsWild (inner f) = true) →
        (Routed subject published ↔ isMatch f n = true)) := by
  obtain ⟨share, hacc⟩ := validateFilter_ok hf
  have hnil : n ≠ [] := (validateCommon_iff.mp (validateName_ok hn).1).1
  refine ⟨_, _, hacc.filterToSubject_eq hf, nameToSubject_eq hn, ?_, fun hdollar => ?_⟩
  · intro hm
    exact (hacc.routed_iff hnil).mpr ((hacc.isMatch_iff hnil).mp hm).2
  · rw [hacc.isMatch_iff hnil, and_iff_right hdollar]
    exact hacc.routed_iff hnil

/-- `sport/#` and `sport`: the parent subject. -/
theorem nats_routes_matches_parent :
    Routed (ascii ['s', 'p', '.', '>']) (ascii ['s', 'p']) ∧
      isMatch (ascii ['s', 'p', '/', '#']) (ascii ['s', 'p']) = true := by
  obtain ⟨subject, published, hs, hp, -, hiff⟩ := nats_routes_matches (e := false)
    (f := ascii ['s', 'p', '/', '#']) (n := ascii ['s', 'p']) (by decide) (by decide)
  have hm : isMatch (ascii ['s', 'p', '/', '#']) (ascii ['s', 'p']) = true := by decide
  obtain rfl : ascii ['s', 'p', '.', '>'] = subject := Except.ok.inj hs
  obtain rfl : ascii ['s', 'p'] = published := Except.ok.inj hp
  exact ⟨(hiff (by decide)).mpr hm, hm⟩

/-! ## The broker's own subjects -/

/-- `s` is `t` or a subject under it. -/
def AtOrUnder (t s : Bytes) : Prop := s = t ∨ t ++ [46] <+: s

/-- What `Prefix` writes in front of a subject. -/
def front (p : Bytes) : Bytes := if p = [] then [] else p ++ [46]

theorem prefixed_eq (p s : Bytes) : prefixed p s = front p ++ s := by
  unfold prefixed front
  split_ifs with h
  · rfl
  · simp

theorem atOrUnder_prefixed (h : AtOrUnder (prefixed p t) (prefixed p s)) : AtOrUnder t s := by
  rw [prefixed_eq, prefixed_eq] at h
  rcases h with h | h
  · exact .inl (List.append_cancel_left h)
  · rw [List.append_assoc, List.prefix_append_right_inj] at h
    exact .inr h

/-- The first token is the subject's that it is at or under. -/
theorem head?_tokens_of_atOrUnder (ht : 46 ∉ t) (h : AtOrUnder t s) :
    (tokens s).head? = some t := by
  rcases h with rfl | ⟨r, rfl⟩
  · rw [tokens, List.splitOn_eq_singleton ht]
    rfl
  · rw [List.append_assoc, List.singleton_append, tokens,
      List.splitOn_append_cons_self_of_not_mem ht]
    rfl

theorem head?_levels (s : Bytes) : (levels s).head? = some (firstLevel s) := by
  induction s with
  | nil => rfl
  | cons c s ih =>
    by_cases hc : c = 47
    · subst hc
      rw [levels_slash]
      simp [firstLevel]
    · obtain ⟨l, ls, hls⟩ := exists_levels s
      rw [hls] at ih
      have hl : l = firstLevel s := Option.some.inj ih
      rw [levels_cons hc hls, hl]
      simp [firstLevel, hc]

/-- A reserved level is written as it is. -/
theorem level_reserved (hr : r ∈ reservedLevels) : level false e r = r := by
  have hboth : ∀ r ∈ reservedLevels, level false true r = r ∧ level false false r = r := by decide
  cases e with
  | false => exact (hboth r hr).2
  | true => exact (hboth r hr).1

theorem not_reserved_of_head {name : Bytes} (hnil : name ≠ [])
    (hr : r ∈ reservedLevels) (h : (tokens (convert name false e)).head? = some r) :
    reserved name = true := by
  have hplain : ∀ r ∈ reservedLevels, 47 ∉ r := by decide
  rw [tokens_convert hnil, List.head?_map, head?_levels, Option.map_some, Option.some.injEq] at h
  have hfirst : firstLevel name ∈ levels name := List.mem_of_mem_head? (head?_levels name)
  have heq : firstLevel name = r := by
    refine level_inj (e := e) (mem_levels hfirst).1 (hplain r hr) ?_
    rw [h, level_reserved hr]
  simpa [reserved, heq] using hr

theorem matchInner_reserved (hf : reserved f = false)
    (hn : firstLevel n ∈ reservedLevels) : matchInner f n = false := by
  unfold matchInner
  split_ifs with hnil hdollar
  · rfl
  · rfl
  · obtain ⟨k, ks, hks⟩ := exists_levels f
    obtain ⟨l, ls, hls⟩ := exists_levels n
    have hk : k = firstLevel f := by
      have := head?_levels f
      rw [hks] at this
      exact Option.some.inj this
    have hl : l = firstLevel n := by
      have := head?_levels n
      rw [hls] at this
      exact Option.some.inj this
    -- the name starts with `$`, so the filter does not start with a wildcard
    have hhead : n.head? = some 36 := by
      have hdollars : ∀ r ∈ reservedLevels, r.head? = some 36 := by decide
      have := hdollars _ hn
      cases n with
      | nil => simp [firstLevel] at this
      | cons c n =>
        by_cases hc : c = 47
        · simp [firstLevel, hc] at this
        · simpa [firstLevel, hc] using this
    have hwild : startsWild f = false := by
      rw [not_and] at hdollar
      exact Bool.eq_false_iff.mpr (hdollar hhead)
    have hkhead : ∀ c, k = [c] → f.head? = some c := by
      rintro c rfl
      cases f with
      | nil => simp [firstLevel] at hk
      | cons d f =>
        by_cases hd : d = 47
        · simp [firstLevel, hd] at hk
        · simpa [firstLevel, hd] using (congrArg List.head? hk).symm
    have hplus : k ≠ [43] := fun h => by simp [startsWild, hkhead 43 h] at hwild
    have hhash : k ≠ [35] := fun h => by simp [startsWild, hkhead 35 h] at hwild
    have hne : k ≠ l := by
      rintro rfl
      rw [reserved, ← hk, hl, List.contains_iff_mem.mpr hn] at hf
      cases hf
    rw [hks, hls, matchLevels]
    simp [hplus, hhash, hne]

/-- **The broker's own levels are out of reach**, in both mappings and under every prefix: of the
subjects names are published on, and of what filters match. -/
theorem reserved_unreachable :
    (∀ p name subject escape, nameToSubject name escape = .ok subject →
      ∀ r ∈ reservedLevels, ¬ AtOrUnder (prefixed p r) (prefixed p subject)) ∧
    ∀ filter escape, validateFilter filter escape = .ok () →
      ∀ n, firstLevel n ∈ reservedLevels → isMatch filter n = false := by
  constructor
  · intro p name subject escape h r hr hunder
    obtain ⟨hvalid, rfl⟩ := nameToSubject_ok h
    have hnil := (validateCommon_iff.mp (validateName_ok hvalid).1).1
    have hdot : ∀ r ∈ reservedLevels, 46 ∉ r := by decide
    have hhead := head?_tokens_of_atOrUnder (hdot r hr) (atOrUnder_prefixed hunder)
    have hres := not_reserved_of_head hnil hr hhead
    rw [validateName_not_reserved hvalid] at hres
    cases hres
  · intro filter escape h n hn
    obtain ⟨share, hacc⟩ := validateFilter_ok h
    rw [hacc.isMatch_eq]
    exact matchInner_reserved hacc.not_reserved hn

/-- `#`, and the retained message of a name. -/
theorem reserved_unreachable_hash :
    isMatch [35] (retainedLevel ++ [47, 97]) = false :=
  reserved_unreachable.2 [35] false (by decide) (retainedLevel ++ [47, 97]) (by decide)

end Natsmqtt5.Topic
