import Natsmqtt5.Fit
import Natsmqtt5.Message

/-!
# The session record as a value

`sessionRecord` as `encodeRecord` writes it (`sessionstore.go`): the lists that spilling changes,
and between them the texts of the fields it only carries. A list or a number that is empty or 0 is
not written (`omitempty`). How `encoding/json` writes one entry and how SHA-256 digests a value are
parameters, `Codec`.

Results:
* `length_encode`: the length of a record's encoding is a sum over its fields.
* `SessionRecord.Trimmed`, `trimmed_trim`: what making room for the in-flight entries does to the
  delivered ids, and that it never makes the record longer.
-/

namespace Natsmqtt5.Spill

structure StoredDelivered where
  id : Bytes
  seq : Nat
  deriving DecidableEq

/-- `storedInflight`. The zero time is `none`, and a nil slice or an empty string is `[]`. -/
structure StoredInflight where
  id : UInt16
  qos : UInt8
  rel : Bool := false
  seq : Nat := 0
  retain : Bool := false
  subID : Int := 0
  ack : Bytes := []
  pub : Bytes := []
  blob : Bytes := []
  blobAt : Option Nat := none
  arrivedAt : Option Nat := none
  exp : Option UInt32 := none
  deriving DecidableEq

/-- `sessionRecord`. `head`, `since`, `received` and `rest` are the texts of the fields before
`Delivered`, from `DeliveredSince` to `AwayLateSeq`, `ReceivedQoS2` and `Withdrawn`, and what
follows `Spill`. -/
structure SessionRecord where
  clientID : Bytes
  head : Bytes
  delivered : List StoredDelivered
  since : Bytes
  replayCursor : Nat
  replayHoles : List StoredDelivered
  inflight : List StoredInflight
  received : Bytes
  spill : List Bytes
  rest : Bytes

/-- The functions of other packages: `json.Marshal` of an entry and of an id, `json.Unmarshal` of a
list of entries, and the SHA-256 of a value in hexadecimal, which is 64 digits and has no dot. -/
structure Codec where
  marshal : StoredInflight → Bytes
  marshalDelivered : StoredDelivered → Bytes
  unmarshal : Bytes → Option (List StoredInflight)
  digest : Bytes → Bytes
  length_digest : ∀ raw, (digest raw).length = 64
  digest_hex : ∀ raw, ∀ ch ∈ digest raw, ch ≠ 46

/-! ## The encoding -/

/-- `bytes.Join` with a comma. -/
def join (items : List Bytes) : Bytes := List.intercalate [44] items

/-- The entries between brackets: `[`, the items, `]`. -/
def array (items : List Bytes) : Bytes := 91 :: (join items ++ [93])

/-- `,"name":` and a value. -/
def field (name value : Bytes) : Bytes := 44 :: 34 :: (name ++ 34 :: 58 :: value)

/-- A list with `omitempty`. -/
def listField (name : Bytes) (items : List Bytes) : Bytes :=
  if items = [] then [] else field name (array items)

/-- A number with `omitempty`. -/
def numberField (name : Bytes) (n : Nat) : Bytes := if n = 0 then [] else field name (itoa n)

/-- A string that needs no escape. -/
def quote (s : Bytes) : Bytes := 34 :: (s ++ [34])

/-- The JSON of a record, with `name` for how a chunk name is written. -/
def encodeNamed (c : Codec) (name : Bytes → Bytes) (r : SessionRecord) : Bytes :=
  r.head ++ listField (ascii "Delivered") (r.delivered.map c.marshalDelivered) ++ r.since ++
    numberField (ascii "ReplayCursor") r.replayCursor ++
    listField (ascii "ReplayHoles") (r.replayHoles.map c.marshalDelivered) ++
    listField (ascii "Inflight") (r.inflight.map c.marshal) ++ r.received ++
    listField (ascii "Spill") (r.spill.map name) ++ r.rest

/-- `encodeRecord`: a chunk name needs no escape. -/
def encodeRecord (c : Codec) (r : SessionRecord) : Bytes := encodeNamed c quote r

/-- The sum of the items' lengths, each with its comma. -/
abbrev itemsLength (items : List Bytes) : Nat := Fit.total (fun b => b.length + 1) items

variable {items items' : List Bytes}

theorem length_join (h : items ≠ []) : (join items).length + 1 = itemsLength items := by
  induction items with
  | nil => exact absurd rfl h
  | cons b items ih =>
    cases items with
    | nil => simp [join, Fit.total]
    | cons b' items =>
      have hrest := ih (List.cons_ne_nil _ _)
      have hjoin : join (b :: b' :: items) = b ++ 44 :: join (b' :: items) := by
        simp [join, List.intercalate]
      rw [hjoin, List.length_append, List.length_cons, itemsLength, Fit.total, ← itemsLength,
        ← hrest]
      omega

theorem length_array (h : items ≠ []) : (array items).length = itemsLength items + 1 := by
  have := length_join h
  simp only [array, List.length_cons, List.length_append, List.length_nil]
  omega

theorem length_listField_cons {name : Bytes} (h : items ≠ []) :
    (listField name items).length = name.length + itemsLength items + 5 := by
  rw [listField, if_neg h]
  simp only [field, List.length_cons, List.length_append, length_array h]
  omega

@[simp]
theorem listField_nil (name : Bytes) : listField name [] = [] := if_pos rfl

/-- Fewer of the items are not longer. -/
theorem itemsLength_sublist (h : List.Sublist items items') :
    itemsLength items ≤ itemsLength items' := by
  induction h with
  | slnil => exact Nat.le_refl _
  | cons b _ ih => exact Nat.le_trans ih (Nat.le_add_left _ _)
  | cons_cons b _ ih => exact Nat.add_le_add_left ih _

theorem length_listField_sublist (name : Bytes) (h : List.Sublist items items') :
    (listField name items).length ≤ (listField name items').length := by
  by_cases hnil : items = []
  · simp [hnil]
  · have hnil' : items' ≠ [] := fun h' => hnil (List.sublist_nil.mp (h' ▸ h))
    have hle := itemsLength_sublist h
    rw [length_listField_cons hnil, length_listField_cons hnil']
    omega

theorem length_encode (c : Codec) (r : SessionRecord) : (encodeRecord c r).length =
    (encodeRecord c { r with inflight := [], spill := [] }).length +
      (listField (ascii "Inflight") (r.inflight.map c.marshal)).length +
      (listField (ascii "Spill") (r.spill.map quote)).length := by
  simp only [encodeRecord, encodeNamed, List.length_append, List.map_nil, listField_nil,
    List.length_nil]
  omega

/-! ## The delivered ids -/

/-- What is left after an eighth goes, and one at least: `keep -= max(1, keep/8)`. -/
def less (keep : Nat) : Nat := keep - max 1 (keep / 8)

theorem less_lt (keep : Nat) (h : 0 < keep) : less keep < keep := by
  rw [less]
  omega

/-- `trimDelivered`, with how many ids it dropped. -/
def trimDelivered (c : Codec) (r : SessionRecord) (budget : Nat) : SessionRecord × Nat :=
  let all := r.delivered
  let base := (encodeRecord c { r with delivered := [] }).length
  let newest (keep : Nat) : SessionRecord := { r with delivered := all.drop (all.length - keep) }
  let keep := Fit.search less
    (fun keep => decide ((encodeRecord c (newest keep)).length - base ≤ budget)) all.length
  (newest keep, all.length - keep)

/-- The record that `spillRecordReusing` divides: it names no chunk, and its delivered ids take half
of `limit` at most. Where ids went, the replay cursor, which promises them all, goes with them. -/
def trim (c : Codec) (r : SessionRecord) (limit : Nat) : SessionRecord :=
  let p := trimDelivered c { r with spill := [] } (limit / 2)
  if 0 < p.2 then { p.1 with replayCursor := 0, replayHoles := [] } else p.1

/-- What the trimming may change of a record: it names no chunk, has some of the delivered ids, and
has its replay cursor and holes or none. -/
structure SessionRecord.Trimmed (r r' : SessionRecord) : Prop where
  clientID : r'.clientID = r.clientID
  head : r'.head = r.head
  delivered : List.Sublist r'.delivered r.delivered
  since : r'.since = r.since
  replayCursor : r'.replayCursor = r.replayCursor ∨ r'.replayCursor = 0
  replayHoles : List.Sublist r'.replayHoles r.replayHoles
  inflight : r'.inflight = r.inflight
  received : r'.received = r.received
  spill : r'.spill = []
  rest : r'.rest = r.rest

theorem trimmed_trim (c : Codec) (r : SessionRecord) (limit : Nat) :
    r.Trimmed (trim c r limit) := by
  unfold trim
  dsimp only
  split_ifs
  · exact ⟨rfl, rfl, List.drop_sublist _ _, rfl, .inr rfl, List.nil_sublist _, rfl, rfl, rfl, rfl⟩
  · exact ⟨rfl, rfl, List.drop_sublist _ _, rfl, .inl rfl, List.Sublist.refl _, rfl, rfl, rfl, rfl⟩

theorem length_numberField_le (name : Bytes) {n n' : Nat} (h : n' = n ∨ n' = 0) :
    (numberField name n').length ≤ (numberField name n).length := by
  rcases h with rfl | rfl
  · exact Nat.le_refl _
  · simp [numberField]

/-- A trimmed record is not longer. -/
theorem SessionRecord.Trimmed.length_le {c : Codec} {r r' : SessionRecord} (h : r.Trimmed r') :
    (encodeRecord c { r' with inflight := [], spill := [] }).length ≤
      (encodeRecord c { r with inflight := [], spill := [] }).length := by
  have hdelivered := length_listField_sublist (ascii "Delivered")
    (h.delivered.map c.marshalDelivered)
  have hholes := length_listField_sublist (ascii "ReplayHoles")
    (h.replayHoles.map c.marshalDelivered)
  have hcursor := length_numberField_le (ascii "ReplayCursor") h.replayCursor
  simp only [encodeRecord, encodeNamed, List.length_append, h.head, h.since, h.received, h.rest]
  omega

end Natsmqtt5.Spill
