import Natsmqtt5.Message

/-!
# Topic Names and NATS subjects

`topic/topic.go` and `topic/subject.go`, for the Topic Name of a PUBLISH: which names are accepted,
and the mapping of a name to a NATS subject and back, with and without the escapes of
`EscapeNATSWildcards`. A string of the source is its bytes. `convert` is the loop of the source:
`out` is the builder, and what is written for a `/` depends on its last byte and on the byte that
follows.

Results:
* `subjectToName_convert`: every name is read back from its subject.
* `subjectToName_level`: of a subject, the first token is read as the first level.
* `validateName_not_reserved`: a name that is accepted is not under a level of the broker's own.
-/

namespace Natsmqtt5.Topic

/-- The bytes of a text. -/
def ascii (cs : List Char) : Bytes := cs.map fun c => c.toNat.toUInt8

/-! ## Names that are accepted -/

/-- What `invalid` is called with. -/
inductive Invalid
  | empty
  | tooLong (bytes : Nat)
  | null
  /-- Whitespace or DEL, which a NATS subject cannot carry, and its offset. -/
  | notCarried (c : UInt8) (offset : Nat)
  /-- A `*` or `>`, which a NATS subject cannot carry unambiguously, and its offset. -/
  | ambiguous (c : UInt8) (offset : Nat)
  | wildcard
  | reserved
  deriving DecidableEq

def maxLength : Nat := 65535

/-- `$retained`. -/
def retainedLevel : Bytes := ascii ['$', 'r', 'e', 't', 'a', 'i', 'n', 'e', 'd']

/-- `$queue`. -/
def queueLevel : Bytes := ascii ['$', 'q', 'u', 'e', 'u', 'e']

def reservedLevels : List Bytes := [retainedLevel, queueLevel]

/-- The part before the first `/`. -/
def firstLevel (s : Bytes) : Bytes := s.takeWhile (· ≠ 47)

def reserved (s : Bytes) : Bool := reservedLevels.contains (firstLevel s)

/-- `strings.IndexAny`. -/
def indexAny (s chars : Bytes) : Option Nat := s.findIdx? chars.contains

/-- `validateCommon`. The whitespace is `" \t\n\r\f"`, and 0x7F is DEL. -/
def validateCommon (s : Bytes) (escaped : Bool) : Except Invalid Unit :=
  if s = [] then .error .empty
  else if maxLength < s.length then .error (.tooLong s.length)
  else if s.contains 0 then .error .null
  else if escaped then .ok ()
  else
    match indexAny s [32, 9, 10, 13, 12, 0x7F] with
    | some i => .error (.notCarried (s.getD i 0) i)
    | none =>
      match indexAny s [42, 62] with
      | some i => .error (.ambiguous (s.getD i 0) i)
      | none => .ok ()

/-- `strings.ContainsAny(s, "+#")`. -/
def hasWildcard (s : Bytes) : Bool := s.contains 43 || s.contains 35

def validateName (name : Bytes) (escaped : Bool) : Except Invalid Unit := do
  validateCommon name escaped
  if hasWildcard name then .error .wildcard
  else if reserved name then .error .reserved
  else .ok ()

/-! ## The mapping -/

/-- `escaped`: the letter that follows `/` for a character. -/
def escaped : UInt8 → Option UInt8
  | 42 => some 115
  | 62 => some 103
  | 32 => some 112
  | 9 => some 116
  | 10 => some 110
  | 13 => some 114
  | 12 => some 102
  | 0x7F => some 100
  | _ => none

/-- `escapes`: the character that a letter after `/` stands for. -/
def escapes : UInt8 → Option UInt8
  | 115 => some 42
  | 103 => some 62
  | 112 => some 32
  | 116 => some 9
  | 110 => some 10
  | 114 => some 13
  | 102 => some 12
  | 100 => some 0x7F
  | _ => none

/-- What `convert` writes for a byte other than `/`. -/
def letter (wildcards escape : Bool) (c : UInt8) : Bytes :=
  if c = 46 then [47, 47]
  else if c = 43 then if wildcards then [42] else [43]
  else if c = 35 then if wildcards then [62] else [35]
  else
    match if escape then escaped c else none with
    | some l => [47, l]
    | none => [c]

/-- What `convert` writes for the byte `c` at `i`, after `out` and before `rest`. -/
def piece (wildcards escape : Bool) (i : Nat) (out : Bytes) (c : UInt8) (rest : Bytes) : Bytes :=
  if c = 47 then
    if i = 0 ∨ out.getLast? = some 46 then [47, 46]
    else if rest = [] ∨ rest.head? = some 47 then [46, 47]
    else [46]
  else letter wildcards escape c

def convertLoop (wildcards escape : Bool) : Nat → Bytes → Bytes → Bytes
  | _, out, [] => out
  | i, out, c :: rest =>
    convertLoop wildcards escape (i + 1) (out ++ piece wildcards escape i out c rest) rest

def convert (mt : Bytes) (wildcards escape : Bool) : Bytes :=
  let out := convertLoop wildcards escape 0 [] mt
  if out.getLast? = some 46 then out ++ [47] else out

/-- `NameToSubject` and `NameToSubjectEscaped`. -/
def nameToSubject (name : Bytes) (escape : Bool) : Except Invalid Bytes := do
  validateName name escape
  return convert name false escape

/-- `subjectToName`: `/.` is a `/`, `//` a `.`, `/` and a letter of `escapes` its character, and any
other `/` is padding. -/
def subjectToName : Bytes → Bytes
  | [] => []
  | [c] => if c = 47 then [] else if c = 46 then [47] else [c]
  | c :: d :: rest =>
    if c = 47 then
      if d = 46 then 47 :: subjectToName rest
      else if d = 47 then 46 :: subjectToName rest
      else
        match escapes d with
        | some e => e :: subjectToName rest
        | none => subjectToName (d :: rest)
    else if c = 46 then 47 :: subjectToName (d :: rest)
    else c :: subjectToName (d :: rest)

/-- `Prefix`. -/
def prefixed (p subject : Bytes) : Bytes := if p = [] then subject else p ++ 46 :: subject

/-- `strings.CutPrefix`. -/
def cutPrefix (p s : Bytes) : Option Bytes :=
    if p.isPrefixOf s then some (s.drop p.length) else none

def trimPrefix (p subject : Bytes) : Option Bytes :=
  if p = [] then some subject else cutPrefix (p ++ [46]) subject

/-! ## What the reading of a subject does -/

@[simp] theorem subjectToName_slash_dot (s : Bytes) :
    subjectToName (47 :: 46 :: s) = 47 :: subjectToName s := by
  simp [subjectToName]

@[simp] theorem subjectToName_slash_slash (s : Bytes) :
    subjectToName (47 :: 47 :: s) = 46 :: subjectToName s := by
  simp [subjectToName]

@[simp] theorem subjectToName_dot (s : Bytes) :
    subjectToName (46 :: s) = 47 :: subjectToName s := by
  cases s <;> simp [subjectToName]

variable {c l : UInt8} {name out : Bytes} {escape : Bool}

theorem subjectToName_cons (hs : c ≠ 47) (hd : c ≠ 46) (s : Bytes) :
    subjectToName (c :: s) = c :: subjectToName s := by
  cases s <;> simp [subjectToName, hs, hd]

theorem escapes_escaped (h : escaped c = some l) : escapes l = some c ∧ l ≠ 46 ∧ l ≠ 47 := by
  unfold escaped at h
  split at h <;> cases h <;> decide

theorem subjectToName_escape (h : escaped c = some l) (s : Bytes) :
    subjectToName (47 :: l :: s) = c :: subjectToName s := by
  obtain ⟨hesc, hdot, hslash⟩ := escapes_escaped h
  simp [subjectToName, hdot, hslash, hesc]

/-- The first token of a subject is read as the first level. -/
theorem subjectToName_level (hs : 47 ∉ w) (hd : 46 ∉ w) (s : Bytes) :
    subjectToName (w ++ 46 :: s) = w ++ 47 :: subjectToName s := by
  induction w with
  | nil => exact subjectToName_dot s
  | cons c w ih =>
    simp only [List.mem_cons, not_or] at hs hd
    rw [List.cons_append, subjectToName_cons (Ne.symm hs.1) (Ne.symm hd.1), ih hs.2 hd.2,
      List.cons_append]

/-! ## The round trip -/

/-- What has been written reads as `name`, whatever follows. -/
def Written (out name : Bytes) : Prop :=
  ∀ s, subjectToName (out ++ s) = name ++ subjectToName s

/-- The same of a builder that ends in a `/` which the next byte, a `/` or the end, makes padding or
the first half of `/.`. -/
def Pending (out name : Bytes) : Prop :=
  ∀ s, subjectToName (out ++ s) = name ++ subjectToName (47 :: s)

theorem Written.append {w cs : Bytes} (h : Written out name)
    (hw : ∀ s, subjectToName (w ++ s) = cs ++ subjectToName s) :
        Written (out ++ w) (name ++ cs) := by
  intro s
  rw [List.append_assoc, h, hw, List.append_assoc]

theorem Written.plain (h : Written out name) (hs : c ≠ 47)
    (hd : c ≠ 46) : Written (out ++ [c]) (name ++ [c]) :=
  h.append (subjectToName_cons hs hd)

/-- A byte other than `/` is written and read back. -/
theorem Written.piece (h : Written out name) (escape : Bool) (i : Nat)
    (hc : c ≠ 47) (rest : Bytes) :
    Written (out ++ piece false escape i out c rest) (name ++ [c]) := by
  simp only [Topic.piece, if_neg hc, letter, Bool.false_eq_true, if_false]
  split_ifs with hdot hplus hhash hesc
  · subst hdot
    exact h.append subjectToName_slash_slash
  · subst hplus
    exact h.plain (by decide) (by decide)
  · subst hhash
    exact h.plain (by decide) (by decide)
  · cases hl : escaped c with
    | some l => exact h.append (subjectToName_escape hl)
    | none => exact h.plain hc hdot
  · exact h.plain hc hdot

/-- Between two bytes of the name: `rest` is what is left of it. -/
def Reads (out name rest : Bytes) : Prop :=
  Written out name ∨ (Pending out name ∧ out.getLast? = some 47 ∧
    (rest = [] ∨ rest.head? = some 47))

/-- One byte of the name. -/
theorem Reads.step {rest : Bytes} {i : Nat} (escape : Bool)
    (h : Reads out name (c :: rest)) (hi : i = 0 → out = []) :
    Reads (out ++ piece false escape i out c rest) (name ++ [c]) rest := by
  by_cases hc : c = 47
  · subst hc
    rcases h with h | ⟨h, hlast, -⟩
    · rw [Topic.piece, if_pos rfl]
      split_ifs with hfirst hnext
      · exact .inl (h.append subjectToName_slash_dot)
      · refine .inr ⟨fun s => ?_, by simp, hnext⟩
        rw [List.append_assoc, h]
        simp
      · exact .inl (h.append subjectToName_dot)
    · -- The pending `/` and the `.` that is written now are the `/.` of this byte.
      have hfirst : ¬ (i = 0 ∨ out.getLast? = some 46) := by
        rintro (h0 | hdot)
        · rw [hi h0] at hlast
          cases hlast
        · rw [hlast] at hdot
          cases hdot
      rw [Topic.piece, if_pos rfl, if_neg hfirst]
      split_ifs with hnext
      · refine .inr ⟨fun s => ?_, by simp, hnext⟩
        rw [List.append_assoc, h]
        simp
      · refine .inl fun s => ?_
        rw [List.append_assoc, h]
        simp
  · rcases h with h | ⟨-, -, hnext⟩
    · exact .inl (h.piece escape i hc rest)
    · rcases hnext with hnext | hnext
      · cases hnext
      · exact absurd (Option.some.inj hnext) hc

theorem convertLoop_reads (escape : Bool) (rest : Bytes) : ∀ {i : Nat} {out name : Bytes},
    Reads out name rest → (i = 0 → out = []) →
      Reads (convertLoop false escape i out rest) (name ++ rest) [] := by
  induction rest with
  | nil =>
    intro i out name h _
    rw [List.append_nil]
    exact h
  | cons c rest ih =>
    intro i out name h hi
    have hnext := ih (i := i + 1) (h.step escape hi) (fun h0 => absurd h0 (Nat.succ_ne_zero i))
    rw [List.append_assoc] at hnext
    exact hnext

/-- **A name is read back from its subject.** -/
theorem subjectToName_convert (name : Bytes) (escape : Bool) :
    subjectToName (convert name false escape) = name := by
  have hstart : Reads [] [] name := .inl fun _ => rfl
  have h : Reads (convertLoop false escape 0 [] name) name [] :=
    convertLoop_reads escape name hstart fun _ => rfl
  rw [convert]
  split_ifs with hdot
  · rcases h with h | ⟨-, hlast, -⟩
    · rw [h]
      simp [subjectToName]
    · rw [hlast] at hdot
      cases hdot
  · rcases h with h | ⟨h, -, -⟩
    · simpa [subjectToName] using h []
    · simpa [subjectToName] using h []

/-! ## Names that were accepted -/

theorem validateName_ok (h : validateName name escape = .ok ()) :
    validateCommon name escape = .ok () ∧ hasWildcard name = false ∧ reserved name = false := by
  unfold validateName at h
  cases hc : validateCommon name escape with
  | error err =>
    rw [hc] at h
    cases h
  | ok u =>
    rw [hc] at h
    change (if hasWildcard name then _ else _) = _ at h
    split_ifs at h with hwild hres
    exact ⟨rfl, by simpa using hwild, by simpa using hres⟩

theorem validateName_not_reserved (h : validateName name escape = .ok ()) : reserved name = false :=
  (validateName_ok h).2.2

theorem nameToSubject_ok {subject : Bytes} (h : nameToSubject name escape = .ok subject) :
    validateName name escape = .ok () ∧ subject = convert name false escape := by
  unfold nameToSubject at h
  cases hv : validateName name escape with
  | error e => rw [hv] at h; cases h
  | ok u =>
    rw [hv] at h
    cases h
    exact ⟨rfl, rfl⟩

theorem firstLevel_append (hw : 47 ∉ w) (s : Bytes) : firstLevel (w ++ 47 :: s) = w := by
  induction w with
  | nil => simp [firstLevel]
  | cons c w ih =>
    simp only [List.mem_cons, not_or] at hw
    have hne : c ≠ 47 := Ne.symm hw.1
    have htail := ih hw.2
    simpa [firstLevel, hne] using htail

theorem cutPrefix_append (p s : Bytes) : cutPrefix p (p ++ s) = some s := by
  simp [cutPrefix]

theorem cutPrefix_level (w : Bytes) (c : UInt8) (s : Bytes) :
    cutPrefix (w ++ [c]) (w ++ c :: s) = some s := by
  have h := cutPrefix_append (w ++ [c]) s
  rwa [List.append_assoc, List.singleton_append] at h

theorem cutPrefix_eq_some {p s r : Bytes} (h : cutPrefix p s = some r) : s = p ++ r := by
  unfold cutPrefix at h
  split_ifs at h with hp
  cases h
  obtain ⟨t, rfl⟩ := List.isPrefixOf_iff_prefix.1 hp
  simp

theorem trimPrefix_prefixed (p s : Bytes) : trimPrefix p (prefixed p s) = some s := by
  unfold trimPrefix prefixed
  split_ifs with hp
  · rfl
  · exact cutPrefix_level p 46 s

end Natsmqtt5.Topic
