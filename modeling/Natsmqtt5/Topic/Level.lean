import Natsmqtt5.Topic.Name

/-!
# A subject, level by level

`convert` is a loop over bytes that looks at what it wrote last and at the byte that comes next.
What it writes is nevertheless one NATS token for each level of the topic: an empty level is a
`/`, and the bytes of any other level are written one by one. Filters are converted by the same
loop, so the results here are for both.

Results:
* `convert_eq`: a subject is the levels, each written by `level`, with dots between them.
* `tokens_convert`: its NATS tokens are the levels.
* `subjectToName_level_eq`: a level is read back from its token, so two levels have one token only
  if they are equal.
* `names_survive_nats`: names are read back from their subjects, and the subjects are legal.
-/

namespace Natsmqtt5.Topic

/-! ## Levels and tokens -/

/-- `strings.Split(s, "/")`. -/
def levels (s : Bytes) : List Bytes := s.splitOn 47

/-- The tokens of a NATS subject. -/
def tokens (s : Bytes) : List Bytes := s.splitOn 46

/-- What `convert` writes for a level. -/
def level (wildcards escape : Bool) (l : Bytes) : Bytes :=
  if l = [] then [47] else l.flatMap (letter wildcards escape)

/-- What is written for the levels after the first. -/
def further (wildcards escape : Bool) (ls : List Bytes) : Bytes :=
  ls.flatMap fun l => 46 :: level wildcards escape l

/-- What is written when the first of the levels has been begun. -/
def begun (wildcards escape : Bool) : List Bytes → Bytes
  | [] => []
  | l :: ls => l.flatMap (letter wildcards escape) ++ further wildcards escape ls

variable {w e : Bool} {c : UInt8} {s l mt name : Bytes} {ls : List Bytes}

theorem piece_of_ne (hc : c ≠ 47) (i : Nat) (out rest : Bytes) :
    piece w e i out c rest = letter w e c :=
  if_neg hc

theorem intercalate_level (l : Bytes) (ls : List Bytes) :
    [46].intercalate ((l :: ls).map (level w e)) = level w e l ++ further w e ls := by
  induction ls generalizing l with
  | nil => simp [further]
  | cons m ls ih =>
    rw [List.map_cons, List.map_cons, List.intercalate_cons_cons, ← List.map_cons, ih]
    simp [further]

/-! ## One token for each level -/

theorem levels_nil : levels [] = [[]] := rfl

theorem levels_slash (s : Bytes) : levels (47 :: s) = [] :: levels s := by
  simp [levels, List.splitOn_cons_eq_if_modifyHead]

theorem levels_cons (hc : c ≠ 47) (hs : levels s = l :: ls) : levels (c :: s) = (c :: l) :: ls := by
  unfold levels at hs ⊢
  simp [List.splitOn_cons_eq_if_modifyHead, hc, hs]

theorem exists_levels (s : Bytes) : ∃ l ls, levels s = l :: ls :=
  List.exists_cons_of_ne_nil (List.splitOn_ne_nil 47 s)

/-- A level that is over at once is empty. -/
theorem levels_of_end (h : s = [] ∨ s.head? = some 47) : ∃ ls, levels s = [] :: ls := by
  rcases h with rfl | h
  · exact ⟨[], rfl⟩
  · obtain ⟨t, rfl⟩ : ∃ t, s = 47 :: t := by
      cases s with
      | nil => cases h
      | cons c t => exact ⟨t, by rw [Option.some.inj h]⟩
    exact ⟨levels t, levels_slash t⟩

theorem letter_ne_nil (c : UInt8) : letter w e c ≠ [] := by
  unfold letter
  repeat' split
  all_goals simp

/-- No dot is written inside a level. -/
theorem dot_notMem_letter (c : UInt8) : 46 ∉ letter w e c := by
  unfold letter
  split_ifs with hdot hplus hw hhash hw hesc
  · simp
  · simp
  · simp
  · simp
  · simp
  · cases hl : escaped c with
    | none => simpa using fun h => hdot h.symm
    | some l => simpa using fun h => (escapes_escaped hl).2.1 h.symm
  · simpa using fun h => hdot h.symm

theorem getLast?_append_letter (out : Bytes) (c : UInt8) :
    (out ++ letter w e c).getLast? ≠ some 46 := by
  intro h
  rw [List.getLast?_append_of_ne_nil out (letter_ne_nil c)] at h
  exact dot_notMem_letter c (List.mem_of_getLast? h)

/-- The end of `convert`: a dot is not left last. -/
def closed (out : Bytes) : Bytes := if out.getLast? = some 46 then out ++ [47] else out

theorem convert_eq_closed (mt : Bytes) : convert mt w e = closed (convertLoop w e 0 [] mt) := rfl

/-- The rest of the loop, inside a level and in front of one. Inside, something has been written of
the level, the `/` of an empty one included. -/
theorem convertLoop_levels (rest : Bytes) : ∀ (i : Nat) (out : Bytes),
    (i ≠ 0 → out.getLast? ≠ some 46 →
      closed (convertLoop w e i out rest) = out ++ begun w e (levels rest)) ∧
    ((i = 0 ∧ rest ≠ []) ∨ out.getLast? = some 46 →
      closed (convertLoop w e i out rest) =
        out ++ [46].intercalate ((levels rest).map (level w e))) := by
  induction rest with
  | nil =>
    intro i out
    constructor
    · intro _ hlast
      rw [convertLoop, closed, if_neg hlast]
      simp [levels_nil, begun, further]
    · rintro (⟨-, h⟩ | hlast)
      · exact absurd rfl h
      · rw [convertLoop, closed, if_pos hlast, levels_nil]
        simp [level]
  | cons c rest ih =>
    intro i out
    obtain ⟨l, ls, hls⟩ := exists_levels rest
    have hi : i + 1 ≠ 0 := Nat.succ_ne_zero i
    by_cases hc : c = 47
    · subst hc
      rw [levels_slash, hls]
      constructor
      · intro h0 hlast
        rw [convertLoop, piece, if_pos rfl, if_neg (by simp [h0, hlast])]
        split_ifs with hend
        · -- the next level is empty, and its `/` is written with the dot
          obtain ⟨ls', hls'⟩ := levels_of_end hend
          rw [(ih (i + 1) (out ++ [46, 47])).1 hi (by simp), hls']
          obtain ⟨rfl, rfl⟩ := List.cons.inj (hls.symm.trans hls')
          simp [begun, further, level]
        · have hstart := (ih (i + 1) (out ++ [46])).2 (.inr (by simp))
          rw [hstart, hls, intercalate_level]
          simp [begun, further]
      · intro hfirst
        have hfirst : i = 0 ∨ out.getLast? = some 46 := hfirst.imp_left And.left
        rw [convertLoop, piece, if_pos rfl, if_pos hfirst,
          (ih (i + 1) (out ++ [47, 46])).2 (.inr (by simp)), hls, intercalate_level,
          intercalate_level]
        simp [level, further]
    · rw [levels_cons hc hls]
      have hinside : closed (convertLoop w e i out (c :: rest)) =
          out ++ (letter w e c ++ begun w e (l :: ls)) := by
        rw [convertLoop, piece_of_ne hc,
          (ih (i + 1) (out ++ letter w e c)).1 hi (getLast?_append_letter out c), hls,
          List.append_assoc]
      constructor
      · intro _ _
        rw [hinside]
        simp [begun]
      · intro _
        rw [hinside, intercalate_level]
        simp [begun, level]

/-- **A subject is the levels of the topic, with dots between them.** -/
theorem convert_eq (h : mt ≠ []) :
    convert mt w e = [46].intercalate ((levels mt).map (level w e)) := by
  rw [convert_eq_closed, (convertLoop_levels mt 0 []).2 (.inl ⟨rfl, h⟩), List.nil_append]

theorem dot_notMem_level (l : Bytes) : 46 ∉ level w e l := by
  unfold level
  split_ifs with h
  · simp
  · rw [List.mem_flatMap]
    rintro ⟨c, -, hc⟩
    exact dot_notMem_letter c hc

theorem tokens_intercalate_level (h : ls ≠ []) :
    tokens ([46].intercalate (ls.map (level w e))) = ls.map (level w e) := by
  refine List.splitOn_intercalate 46 ?_ (by simpa using h)
  intro t ht
  obtain ⟨l, -, rfl⟩ := List.mem_map.mp ht
  exact dot_notMem_level l

theorem tokens_convert (h : mt ≠ []) : tokens (convert mt w e) = (levels mt).map (level w e) := by
  rw [convert_eq h]
  exact tokens_intercalate_level (List.splitOn_ne_nil 47 mt)

/-! ## A level is read back from its token -/

theorem levels_of_notMem (h : 47 ∉ l) : levels l = [l] :=
  List.splitOn_eq_singleton h

/-- A piece holds bytes of what was split, and not the byte it was split at. -/
theorem mem_splitOn {sep : UInt8} (h : l ∈ s.splitOn sep) : sep ∉ l ∧ ∀ c ∈ l, c ∈ s := by
  induction s generalizing l with
  | nil =>
    obtain rfl := List.mem_singleton.mp h
    simp
  | cons c s ih =>
    rw [List.splitOn_cons_eq_if_modifyHead] at h
    split_ifs at h with hc
    · rcases List.mem_cons.mp h with rfl | h
      · simp
      · exact ⟨(ih h).1, fun d hd => List.mem_cons_of_mem _ ((ih h).2 d hd)⟩
    · obtain ⟨m, ms, hms⟩ := List.exists_cons_of_ne_nil (List.splitOn_ne_nil sep s)
      rw [hms, List.modifyHead_cons] at h
      rcases List.mem_cons.mp h with rfl | h
      · obtain ⟨hsep, hmem⟩ := ih (hms ▸ List.mem_cons_self)
        have hne : sep ≠ c := fun heq => hc (by simp [heq])
        refine ⟨by simp [hsep, hne], fun d hd => ?_⟩
        rcases List.mem_cons.mp hd with rfl | hd
        · exact List.mem_cons_self
        · exact List.mem_cons_of_mem _ (hmem d hd)
      · obtain ⟨hsep, hmem⟩ := ih (hms ▸ List.mem_cons_of_mem _ h)
        exact ⟨hsep, fun d hd => List.mem_cons_of_mem _ (hmem d hd)⟩

/-- A level holds bytes of the topic, and no `/`. -/
theorem mem_levels (h : l ∈ levels s) : 47 ∉ l ∧ ∀ c ∈ l, c ∈ s := mem_splitOn h

/-- A token holds bytes of the subject, and no dot. -/
theorem mem_tokens {t : Bytes} (h : t ∈ tokens s) : 46 ∉ t ∧ ∀ c ∈ t, c ∈ s := mem_splitOn h

theorem subjectToName_level_eq (h : 47 ∉ l) : subjectToName (level false e l) = l := by
  by_cases hl : l = []
  · subst hl
    rfl
  · have hconv : convert l false e = level false e l := by
      rw [convert_eq hl, levels_of_notMem h]
      simp
    rw [← hconv, subjectToName_convert]

theorem level_inj {m : Bytes} (hl : 47 ∉ l) (hm : 47 ∉ m)
    (h : level false e l = level false e m) : l = m := by
  rw [← subjectToName_level_eq (e := e) hl, h, subjectToName_level_eq hm]

/-! ## The subject of a name -/

/-- What a literal NATS subject cannot carry: whitespace, DEL, and the wildcards. -/
def uncarried : Bytes := [32, 9, 10, 13, 12, 0x7F, 42, 62]

theorem indexAny_eq_none {chars : Bytes} : indexAny s chars = none ↔ ∀ c ∈ s, c ∉ chars := by
  simp [indexAny, List.findIdx?_eq_none_iff]

/-- The two lists that `validateCommon` looks for. -/
theorem carried_iff : (∀ c ∈ s, c ∉ uncarried) ↔
    indexAny s [32, 9, 10, 13, 12, 0x7F] = none ∧ indexAny s [42, 62] = none := by
  have hmem (c : UInt8) :
      c ∈ uncarried ↔ c ∈ ([32, 9, 10, 13, 12, 0x7F] : Bytes) ∨ c ∈ ([42, 62] : Bytes) :=
    List.mem_append (s := [32, 9, 10, 13, 12, 0x7F]) (t := [42, 62])
  simp only [indexAny_eq_none, hmem, not_or]
  exact forall₂_and

theorem validateCommon_iff {escape : Bool} : validateCommon s escape = .ok () ↔
    s ≠ [] ∧ s.length ≤ maxLength ∧ 0 ∉ s ∧ (escape = false → ∀ c ∈ s, c ∉ uncarried) := by
  unfold validateCommon
  split_ifs with hnil hlong hnull hesc
  · simp [hnil]
  · simp [Nat.not_le.mpr hlong]
  · simp [show (0 : UInt8) ∈ s by simpa using hnull]
  · simp [hnil, Nat.le_of_not_lt hlong, show (0 : UInt8) ∉ s by simpa using hnull, hesc]
  · rw [carried_iff]
    have hnull : (0 : UInt8) ∉ s := by simpa using hnull
    have hesc : escape = false := by simpa using hesc
    cases indexAny s [32, 9, 10, 13, 12, 0x7F] with
    | some i => simp [hesc]
    | none =>
      cases indexAny s [42, 62] with
      | some i => simp [hesc]
      | none => simp [hnil, Nat.le_of_not_lt hlong, hnull]

theorem escaped_uncarried {l : UInt8} (h : escaped c = some l) : l ∉ uncarried := by
  unfold escaped at h
  split at h <;> cases h <;> decide

theorem escaped_eq_none (h : escaped c = none) : c ∉ uncarried := by
  intro hc
  simp only [uncarried, List.mem_cons, List.not_mem_nil, or_false] at hc
  rcases hc with rfl | rfl | rfl | rfl | rfl | rfl | rfl | rfl <;> cases h

theorem escaped_of_carried (h : c ∉ uncarried) : escaped c = none := by
  cases hl : escaped c with
  | none => rfl
  | some l =>
    refine absurd ?_ h
    unfold escaped at hl
    split at hl <;> first | decide | cases hl

/-- Nothing a subject cannot carry is written for a byte that can be carried or is escaped. -/
theorem letter_carried (h : e = false → c ∉ uncarried) : ∀ d ∈ letter false e c, d ∉ uncarried := by
  have hnone : escaped c = none ∨ e = false → c ∉ uncarried := fun hc =>
    hc.elim escaped_eq_none h
  have hslash : 47 ∉ uncarried := by decide
  have hplus : 43 ∉ uncarried := by decide
  have hhash : 35 ∉ uncarried := by decide
  unfold letter
  simp only [Bool.false_eq_true, if_false]
  split_ifs with hc hc hc hesc
  · simpa using hslash
  · simpa using hplus
  · simpa using hhash
  · cases hl : escaped c with
    | none => simpa using hnone (.inl hl)
    | some l => simpa using ⟨hslash, escaped_uncarried hl⟩
  · simpa using hnone (.inr (by simpa using hesc))

theorem level_carried (h : e = false → ∀ c ∈ l, c ∉ uncarried) :
    ∀ d ∈ level false e l, d ∉ uncarried := by
  have hslash : 47 ∉ uncarried := by decide
  unfold level
  split_ifs with hl
  · simpa using hslash
  · intro d hd
    obtain ⟨c, hc, hd⟩ := List.mem_flatMap.mp hd
    exact letter_carried (fun he => h he c hc) d hd

theorem level_ne_nil (l : Bytes) : level w e l ≠ [] := by
  cases l with
  | nil => simp [level]
  | cons c l => simp [level, letter_ne_nil]

/-- A NATS subject without wildcards: it has tokens, none is empty, none is a wildcard. -/
structure Literal (s : Bytes) : Prop where
  some_token : tokens s ≠ []
  no_empty : [] ∉ tokens s
  no_wildcard : [42] ∉ tokens s ∧ [62] ∉ tokens s

theorem convert_carried (h : e = false → ∀ c ∈ name, c ∉ uncarried) :
    ∀ d ∈ convert name false e, d ∉ uncarried := by
  intro d hd
  by_cases hnil : name = []
  · subst hnil
    exact absurd hd List.not_mem_nil
  · have hlevel : ∀ l ∈ levels name, ∀ d ∈ level false e l, d ∉ uncarried := fun l hl =>
      level_carried fun he c hc => h he c ((mem_levels hl).2 c hc)
    obtain ⟨l, ls, hls⟩ := exists_levels name
    rw [convert_eq hnil, hls, intercalate_level] at hd
    rw [hls] at hlevel
    rcases List.mem_append.mp hd with hd | hd
    · exact hlevel l List.mem_cons_self d hd
    · obtain ⟨m, hm, hd⟩ := List.mem_flatMap.mp hd
      rcases List.mem_cons.mp hd with rfl | hd
      · decide
      · exact hlevel m (List.mem_cons_of_mem _ hm) d hd

theorem literal_convert (hnil : name ≠ [])
    (h : e = false → ∀ c ∈ name, c ∉ uncarried) : Literal (convert name false e) := by
  have hlevel : ∀ t ∈ tokens (convert name false e), ∃ l ∈ levels name, level false e l = t := by
    rw [tokens_convert hnil]
    exact fun t => List.mem_map.mp
  have hwild : ∀ c ∈ uncarried, [c] ∉ tokens (convert name false e) := by
    intro c hc ht
    obtain ⟨l, hl, heq⟩ := hlevel _ ht
    refine level_carried (fun he c hc => h he c ((mem_levels hl).2 c hc)) c ?_ hc
    rw [heq]
    exact List.mem_singleton_self c
  refine ⟨List.splitOn_ne_nil _ _, fun ht => ?_, hwild 42 (by decide), hwild 62 (by decide)⟩
  obtain ⟨l, -, heq⟩ := hlevel _ ht
  exact level_ne_nil l heq

/-- The escapes change nothing in a name that does not need them. -/
theorem convert_escape (h : ∀ c ∈ name, c ∉ uncarried) :
    convert name w true = convert name w false := by
  by_cases hnil : name = []
  · subst hnil
    rfl
  · have hletter : ∀ c ∈ name, letter w true c = letter w false c := by
      intro c hc
      simp [letter, escaped_of_carried (h c hc)]
    rw [convert_eq hnil, convert_eq hnil]
    congr 1
    refine List.map_congr_left fun l hl => ?_
    unfold level
    split_ifs
    · rfl
    · exact List.flatMap_congr fun c hc => hletter c ((mem_levels hl).2 c hc)

theorem validateName_escape (h : ∀ c ∈ name, c ∉ uncarried) :
    validateName name true = validateName name false := by
  obtain ⟨hspace, hwild⟩ := carried_iff.mp h
  unfold validateName validateCommon
  simp only [hspace, hwild, if_true, Bool.false_eq_true, if_false]

/-- **Topic names survive NATS.** In both mappings a name is read back from its subject, so no two
names share one, and the subject is a literal one that NATS can carry; a name with nothing to escape
has the same subject in both. -/
theorem names_survive_nats :
    (∀ escape name subject, nameToSubject name escape = .ok subject →
      subjectToName subject = name ∧ Literal subject ∧ ∀ c ∈ subject, c ∉ uncarried) ∧
    (∀ escape name name' subject, nameToSubject name escape = .ok subject →
      nameToSubject name' escape = .ok subject → name = name') ∧
    ∀ name, (∀ c ∈ name, c ∉ uncarried) → nameToSubject name true = nameToSubject name false := by
  have hback : ∀ escape name subject, nameToSubject name escape = .ok subject →
      subjectToName subject = name := by
    intro escape name subject h
    obtain ⟨-, rfl⟩ := nameToSubject_ok h
    exact subjectToName_convert name escape
  refine ⟨fun escape name subject h => ⟨hback _ _ _ h, ?_⟩,
    fun escape name name' subject h h' => ?_,
    fun name h => ?_⟩
  · obtain ⟨hvalid, rfl⟩ := nameToSubject_ok h
    obtain ⟨hnil, -, -, hcarried⟩ := validateCommon_iff.mp (validateName_ok hvalid).1
    exact ⟨literal_convert hnil hcarried, convert_carried hcarried⟩
  · exact (hback _ _ _ h).symm.trans (hback _ _ _ h')
  · unfold nameToSubject
    rw [validateName_escape h, convert_escape h]

theorem names_survive_nats_blank : nameToSubject [97, 47, 32, 98] true = .ok [97, 46, 47, 112, 98] ∧
    subjectToName [97, 46, 47, 112, 98] = [97, 47, 32, 98] :=
  ⟨by decide, (names_survive_nats.1 true [97, 47, 32, 98] _ (by decide)).1⟩

end Natsmqtt5.Topic
