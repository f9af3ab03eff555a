import Natsmqtt5.Topic.Level
import Natsmqtt5.Wildcard

/-!
# Topic Filters

`topic/topic.go` and `topic/subject.go`, for the Topic Filter of a SUBSCRIBE: which filters are
accepted, the two parts of a shared one, the subject of a filter and the parent subject that `#`
needs beside it, and `Match`, which decides at delivery. How NATS matches a subject is `natsMatch`:
`*` stands for one token, and `>`, the last, for one or more.

Results:
* `validateFilter_ok`: what is known of a filter that was accepted.
* `matchLevels_eq_covers`: `Match` is matching of patterns, where `#` may stand for nothing.
* `natsToken_level`: the tokens of the subject are the same pattern in the spelling of NATS.
-/

namespace Natsmqtt5.Topic

open Wildcard (Token covers Proper)

/-! ## The filters that are accepted -/

/-- What `invalid` is called with, for a filter. -/
inductive FilterInvalid
  /-- As for a name. -/
  | common (err : Invalid)
  | reserved
  | empty
  /-- A `+` that is not a whole level. -/
  | plus
  /-- A `#` that is not a whole level. -/
  | hash
  | hashNotLast
  /-- No `/` after the ShareName. -/
  | noSlash
  | emptyShareName
  | shareNameWildcard (share : Bytes)
  /-- Nothing after the ShareName. -/
  | emptyShared
  deriving DecidableEq

/-- `SharedPrefix`, `$share/`. -/
def sharedPrefix : Bytes := ascii ['$', 's', 'h', 'a', 'r', 'e', '/']

def isShared (f : Bytes) : Bool := sharedPrefix.isPrefixOf f

/-- `SplitShared`: the ShareName, empty for a filter that is not shared, and the filter. -/
def splitShared (f : Bytes) : Except FilterInvalid (Bytes × Bytes) :=
  match cutPrefix sharedPrefix f with
  | none => .ok ([], f)
  | some rest =>
    match rest.findIdx? (· = 47) with
    | none => .error .noSlash
    | some 0 => .error .emptyShareName
    | some slash =>
      let share := rest.take slash
      let filter := rest.drop (slash + 1)
      if hasWildcard share then .error (.shareNameWildcard share)
      else if filter = [] then .error .emptyShared
      else .ok (share, filter)

/-- The loop of `validateFilterLevels`. -/
def checkLevels : List Bytes → Except FilterInvalid Unit
  | [] => .ok ()
  | level :: ls =>
    if level ≠ [43] ∧ 43 ∈ level then .error .plus
    else if 35 ∈ level then
      if level ≠ [35] then .error .hash
      else if ls ≠ [] then .error .hashNotLast
      else checkLevels ls
    else checkLevels ls

def validateFilterLevels (filter : Bytes) : Except FilterInvalid Unit :=
  if filter = [] then .error .empty else checkLevels (levels filter)

/-- A filter, shared or not, once it is without its ShareName. -/
def validateInner (filter : Bytes) : Except FilterInvalid Unit :=
  if reserved filter then .error .reserved else validateFilterLevels filter

/-- `ValidateFilter` and `ValidateFilterEscaped`. -/
def validateFilter (filter : Bytes) (escaped : Bool) : Except FilterInvalid Unit := do
  (validateCommon filter escaped).mapError .common
  if isShared filter then
    let (_, rest) ← splitShared filter
    validateInner rest
  else validateInner filter

/-! ## Subjects -/

/-- `FilterToSubject` and `FilterToSubjectEscaped`. -/
def filterToSubject (filter : Bytes) (escape : Bool) : Except FilterInvalid Bytes := do
  validateFilter filter escape
  let (_, inner) ← splitShared filter
  return convert inner true escape

/-- `ParentSubject`, for a subject that ends in `.>` with something before it. -/
def parentSubject (subject : Bytes) : Option Bytes :=
  if subject.length < 3 ∨ ¬ [46, 62] <:+ subject then none
  else some (subject.take (subject.length - 2))

/-- A token of a NATS subject that is subscribed to. -/
def natsToken (t : Bytes) : Token Bytes :=
  if t = [42] then .one else if t = [62] then .rest else .lit t

/-- A subscription to `pattern` is sent what is published on `subject`. -/
def natsMatch (pattern subject : Bytes) : Bool :=
  covers 1 ((tokens pattern).map natsToken) (tokens subject)

/-! ## Matching -/

/-- The loop of `Match`. -/
def matchLevels : List Bytes → List Bytes → Bool
  | [], n => n.isEmpty
  | level :: f, n =>
    if level = [35] then true
    else
      match n with
      | [] => false
      | l :: n => if level ≠ [43] ∧ level ≠ l then false else matchLevels f n

/-- A filter that starts with a wildcard. -/
def startsWild (filter : Bytes) : Bool := filter.head? = some 35 || filter.head? = some 43

/-- `Match`, once the ShareName is off. -/
def matchInner (filter name : Bytes) : Bool :=
  if filter = [] ∨ name = [] then false
  else if name.head? = some 36 ∧ startsWild filter then false
  else matchLevels (levels filter) (levels name)

/-- `Match`. -/
def isMatch (filter name : Bytes) : Bool :=
  if isShared filter then
    match splitShared filter with
    | .error _ => false
    | .ok (_, inner) => matchInner inner name
  else matchInner filter name

/-- The filter without its ShareName. -/
def inner (filter : Bytes) : Bytes :=
  match splitShared filter with
  | .error _ => []
  | .ok (_, inner) => inner

/-! ## What is known of a filter that was accepted -/

variable {f l : Bytes} {ls : List Bytes} {e : Bool}

theorem splitShared_of_not (h : isShared f = false) : splitShared f = .ok ([], f) := by
  have hcut : cutPrefix sharedPrefix f = none := if_neg (Bool.eq_false_iff.mp h)
  rw [splitShared, hcut]

/-- The parts of a shared filter. -/
theorem splitShared_ok {share inner : Bytes} (h : splitShared f = .ok (share, inner))
    (hs : isShared f = true) :
    f = sharedPrefix ++ share ++ 47 :: inner ∧ 47 ∉ share ∧ share ≠ [] ∧ inner ≠ [] ∧
      hasWildcard share = false := by
  unfold splitShared at h
  obtain ⟨rest, hcut⟩ : ∃ rest, cutPrefix sharedPrefix f = some rest := ⟨_, if_pos hs⟩
  simp only [hcut] at h
  obtain rfl := cutPrefix_eq_some hcut
  cases hidx : rest.findIdx? (· = 47) with
  | none =>
    simp only [hidx] at h
    cases h
  | some i =>
    simp only [hidx] at h
    obtain ⟨hlt, hslash, hbefore⟩ := List.findIdx?_eq_some_iff_getElem.mp hidx
    have hslash : rest[i] = 47 := by simpa using hslash
    cases i with
    | zero => cases h
    | succ i =>
      simp only at h
      split_ifs at h with hwild hnil
      obtain ⟨rfl, rfl⟩ := Prod.mk.inj (Except.ok.inj h)
      refine ⟨?_, ?_, ?_, hnil, by simpa using hwild⟩
      · rw [List.append_assoc, ← hslash, List.getElem_cons_drop, List.take_append_drop]
      · intro hmem
        obtain ⟨j, hj, hget⟩ := List.mem_take_iff_getElem.mp hmem
        have := hbefore j (by omega)
        simp [hget] at this
      · simp only [ne_eq, List.take_eq_nil_iff, Nat.add_eq_zero_iff, Nat.succ_ne_self, and_false,
          false_or]
        rintro rfl
        cases hlt

/-- A ShareName and a filter are read back. -/
theorem splitShared_shared {share inner : Bytes} (hnil : share ≠ []) (hslash : 47 ∉ share)
    (hwild : hasWildcard share = false) (hinner : inner ≠ []) :
    splitShared (sharedPrefix ++ share ++ 47 :: inner) = .ok (share, inner) := by
  have hidx : (share ++ 47 :: inner).findIdx? (· = 47) = some share.length := by
    rw [List.findIdx?_append, List.findIdx?_eq_none_iff.mpr]
    · simp [List.findIdx?_cons]
    · intro c hc
      simp only [decide_eq_false_iff_not]
      exact fun heq => hslash (heq ▸ hc)
  obtain ⟨c, share, rfl⟩ := List.exists_cons_of_ne_nil hnil
  unfold splitShared
  simp only [List.append_assoc, cutPrefix_append, hidx]
  simp [hwild, hinner]

/-- What `validateFilterLevels` has made sure of. -/
structure Placed (ls : List Bytes) : Prop where
  plus : ∀ l ∈ ls, 43 ∈ l → l = [43]
  hash : ∀ l ∈ ls, 35 ∈ l → l = [35]
  last : ∀ ks ms, ls = ks ++ [35] :: ms → ms = []

theorem checkLevels_ok (h : checkLevels ls = .ok ()) : Placed ls := by
  induction ls with
  | nil => exact ⟨by simp, by simp, by simp⟩
  | cons l ls ih =>
    rw [checkLevels] at h
    split_ifs at h with hplus hhash hne hlast
    · obtain rfl : ls = [] := by simpa using hlast
      have hl : l = [35] := by simpa using hne
      refine ⟨by simp [hl], by simp [hl], fun ks ms heq => ?_⟩
      cases ks with
      | nil => exact (List.cons.inj heq).2.symm
      | cons k ks => simp at heq
    · have hp := ih h
      refine ⟨?_, ?_, fun ks ms heq => ?_⟩
      · intro m hm hc
        rcases List.mem_cons.mp hm with rfl | hm
        · by_contra hne
          exact hplus ⟨hne, hc⟩
        · exact hp.plus m hm hc
      · intro m hm hc
        rcases List.mem_cons.mp hm with rfl | hm
        · exact absurd hc hhash
        · exact hp.hash m hm hc
      · cases ks with
        | nil =>
          rw [(List.cons.inj heq).1] at hhash
          exact absurd (List.mem_singleton_self 35) hhash
        | cons k ks => exact hp.last ks ms (List.cons.inj heq).2

theorem Placed.tail (h : Placed (l :: ls)) : Placed ls where
  plus m hm := h.plus m (List.mem_cons_of_mem _ hm)
  hash m hm := h.hash m (List.mem_cons_of_mem _ hm)
  last ks ms heq := h.last (l :: ks) ms (by rw [heq, List.cons_append])

theorem checkLevels_of_placed (h : Placed ls) : checkLevels ls = .ok () := by
  induction ls with
  | nil => rfl
  | cons l ls ih =>
    have hplus : ¬ (l ≠ [43] ∧ 43 ∈ l) := fun hl => hl.1 (h.plus l (.head _) hl.2)
    rw [checkLevels, if_neg hplus]
    split_ifs with hhash hne hlast
    · exact absurd (h.hash l (.head _) hhash) hne
    · obtain rfl : l = [35] := h.hash l (.head _) hhash
      exact absurd (h.last [] ls rfl) hlast
    · exact ih h.tail
    · exact ih h.tail

/-- A filter that was accepted. -/
structure Accepted (f share : Bytes) (escape : Bool) : Prop where
  split : splitShared f = .ok (share, inner f)
  ne_nil : inner f ≠ []
  not_reserved : reserved (inner f) = false
  placed : Placed (levels (inner f))
  carried : escape = false → ∀ c ∈ f, c ∉ uncarried

theorem validateInner_ok (h : validateInner f = .ok ()) :
    f ≠ [] ∧ reserved f = false ∧ Placed (levels f) := by
  unfold validateInner validateFilterLevels at h
  split_ifs at h with hres hnil
  exact ⟨hnil, by simpa using hres, checkLevels_ok h⟩

theorem validateFilter_ok {escape : Bool} (h : validateFilter f escape = .ok ()) :
    ∃ share, Accepted f share escape := by
  unfold validateFilter at h
  cases hc : validateCommon f escape with
  | error err =>
    rw [hc] at h
    cases h
  | ok u =>
    rw [hc] at h
    change (if isShared f then _ else _) = _ at h
    obtain ⟨-, -, -, hcarried⟩ := validateCommon_iff.mp hc
    split_ifs at h with hs
    · cases hsplit : splitShared f with
      | error err =>
        rw [hsplit] at h
        cases h
      | ok p =>
        obtain ⟨share, rest⟩ := p
        rw [hsplit] at h
        have hin : inner f = rest := by rw [inner, hsplit]
        obtain ⟨hnil, hres, hplaced⟩ := validateInner_ok h
        exact ⟨share, hin ▸ hsplit, hin ▸ hnil, hin ▸ hres, hin ▸ hplaced, hcarried⟩
    · have hsplit := splitShared_of_not (f := f) (by simpa using hs)
      have hin : inner f = f := by rw [inner, hsplit]
      obtain ⟨hnil, hres, hplaced⟩ := validateInner_ok h
      exact ⟨[], hin.symm ▸ hsplit, hin.symm ▸ hnil, hin.symm ▸ hres, hin.symm ▸ hplaced, hcarried⟩

namespace Accepted

variable {f share : Bytes} {escape : Bool}

/-- The filter consists of bytes of the whole. -/
theorem mem_of_mem_inner (h : Accepted f share escape) {c : UInt8} (hc : c ∈ inner f) : c ∈ f := by
  by_cases hs : isShared f = true
  · obtain ⟨heq, -⟩ := splitShared_ok h.split hs
    rw [heq]
    simp [hc]
  · have hsplit := splitShared_of_not (f := f) (by simpa using hs)
    rwa [inner, hsplit] at hc

theorem isMatch_eq (h : Accepted f share escape) (n : Bytes) :
    isMatch f n = matchInner (inner f) n := by
  unfold isMatch
  split_ifs with hs
  · rw [h.split]
  · have hsplit := splitShared_of_not (f := f) (by simpa using hs)
    rw [inner, hsplit]

theorem filterToSubject_eq (h : Accepted f share escape) (hv : validateFilter f escape = .ok ()) :
    filterToSubject f escape = .ok (convert (inner f) true escape) := by
  unfold filterToSubject
  rw [hv, h.split]
  rfl

end Accepted

/-! ## Both matchings are of one pattern -/

/-- A level of a filter. -/
def mqttToken (l : Bytes) : Token Bytes :=
  if l = [43] then .one else if l = [35] then .rest else .lit l

theorem mqttToken_lit {t : Bytes} (h : mqttToken l = .lit t) : l = t := by
  unfold mqttToken at h
  split_ifs at h
  exact Token.lit.inj h

theorem mqttToken_rest (h : mqttToken l = .rest) : l = [35] := by
  unfold mqttToken at h
  split_ifs at h with hplus hhash
  exact hhash

theorem Placed.proper (h : Placed ls) : Proper (ls.map mqttToken) := by
  intro qs rs heq
  obtain ⟨ks, ms, rfl, rfl, hms⟩ := List.map_eq_append_iff.mp heq
  cases ms with
  | nil => simp at hms
  | cons m ms =>
    obtain ⟨hm, rfl⟩ := List.cons.inj hms
    rw [h.last ks ms (by rw [mqttToken_rest hm])]
    rfl

/-- `Match` compares level by level, and `#` may stand for nothing. -/
theorem matchLevels_eq_covers {f : List Bytes} (h : Placed f) (n : List Bytes) :
    matchLevels f n = covers 0 (f.map mqttToken) n := by
  induction f generalizing n with
  | nil => simp [matchLevels]
  | cons l f ih =>
    by_cases hhash : l = [35]
    · subst hhash
      obtain rfl : f = [] := h.last [] f rfl
      simp [matchLevels.eq_def, mqttToken]
    · by_cases hplus : l = [43]
      · subst hplus
        cases n with
        | nil => simp [matchLevels, mqttToken, covers]
        | cons m n => simp [matchLevels, mqttToken, covers, ih h.tail]
      · cases n with
        | nil => simp [matchLevels, mqttToken, hplus, hhash, covers]
        | cons m n =>
          by_cases hm : l = m
          · subst hm
            simp [matchLevels, mqttToken, hplus, hhash, covers, ih h.tail]
          · simp [matchLevels, mqttToken, hplus, hhash, covers, hm]

/-- A level without wildcards is written as in a name. -/
theorem level_true_eq (hplus : 43 ∉ l) (hhash : 35 ∉ l) : level true e l = level false e l := by
  unfold level
  split_ifs
  · rfl
  · refine List.flatMap_congr fun c hc => ?_
    have hc1 : c ≠ 43 := fun h => hplus (h ▸ hc)
    have hc2 : c ≠ 35 := fun h => hhash (h ▸ hc)
    simp [letter, hc1, hc2]

/-- The token of a level stands in NATS for what the level stands for in the filter. -/
theorem natsToken_level (hplus : 43 ∈ l → l = [43])
    (hhash : 35 ∈ l → l = [35]) (hc : e = false → ∀ c ∈ l, c ∉ uncarried) :
    natsToken (level true e l) = (mqttToken l).map (level false e) := by
  by_cases h1 : l = [43]
  · subst h1
    rfl
  · by_cases h2 : l = [35]
    · subst h2
      rfl
    · have hlit : level true e l = level false e l :=
        level_true_eq (fun h => h1 (hplus h)) fun h => h2 (hhash h)
      have hne : ∀ c ∈ uncarried, level false e l ≠ [c] := by
        intro c hmem heq
        refine level_carried hc c ?_ hmem
        rw [heq]
        exact List.mem_singleton_self c
      simp [natsToken, mqttToken, Token.map, h1, h2, hlit, hne 42 (by decide), hne 62 (by decide)]

end Natsmqtt5.Topic
