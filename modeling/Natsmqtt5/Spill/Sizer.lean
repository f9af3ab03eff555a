import Natsmqtt5.Spill.Chunks

/-!
# The record sizer is exact

`newRecordSizer` and `recordSizer.of` (`sessionstore.go`): the size of a record with the first
entries and some chunk names, from the size of the record without either and the running sums of
the entries' sizes. `recordSize` of `Spill/Chunks.lean` is the two in one. How `encoding/json`
writes a chunk name is a parameter, since a name it does not escape is written as it is.

Results:
* `sums_getD`: the sums are those of the first entries.
* `recordSizer_exact`: the size is the length of what `encodeRecord` returns.
-/

namespace Natsmqtt5.Spill

/-- `recordSizer`: `prefixSums` at `i` is the size of the first `i` entries, each with its comma. -/
structure RecordSizer where
  base : Nat
  prefixSums : List Nat

def newRecordSizer (c : Codec) (name : Bytes → Bytes) (r : SessionRecord) (sizes : List Nat) :
    RecordSizer where
  base := (encodeNamed c name { r with inflight := [], spill := [] }).length
  prefixSums := sizes.scanl (· + ·) 0

/-- `recordSizer.of`, with 97 for `spillKeyLen`. -/
def RecordSizer.of (z : RecordSizer) (keep chunks : Nat) : Nat :=
  z.base +
    (if 0 < keep then (ascii ",\"Inflight\":[]").length + z.prefixSums.getD keep 0 - 1 else 0) +
    if 0 < chunks then
      (ascii ",\"Spill\":[]").length + chunks * (97 + (ascii "\"\",").length) - 1
    else 0

/-- `sizes` of `spillRecordReusing`. -/
def sizes (c : Codec) (r : SessionRecord) : List Nat :=
  r.inflight.map fun e => (c.marshal e).length + 1

variable {c : Codec} {name : Bytes → Bytes}

theorem encodeNamed_eq (r : SessionRecord) (h : ∀ key ∈ r.spill, name key = quote key) :
    encodeNamed c name r = encodeRecord c r := by
  rw [encodeRecord, encodeNamed, encodeNamed, List.map_congr_left h]

theorem sums_getD (es : List StoredInflight) (keep start : Nat) (h : keep ≤ es.length) :
    ((es.map fun e => (c.marshal e).length + 1).scanl (· + ·) start).getD keep 0 =
      start + itemsLength ((es.take keep).map c.marshal) := by
  induction es generalizing keep start with
  | nil =>
    obtain rfl : keep = 0 := Nat.le_zero.mp h
    rfl
  | cons e es ih =>
    cases keep with
    | zero =>
      rw [List.map_cons, List.scanl_cons]
      rfl
    | succ keep =>
      rw [List.map_cons, List.scanl_cons, List.getD_cons_succ, ih _ _ (Nat.le_of_succ_le_succ h),
        Nat.add_assoc]
      rfl

/-- For every record, number of entries and list of names that are not escaped. -/
theorem recordSizer_exact (c : Codec) (name : Bytes → Bytes) (r : SessionRecord) (keep : Nat)
    (hkeep : keep ≤ r.inflight.length) (names : List Bytes)
    (hlen : ∀ key ∈ names, key.length = 97) (hplain : ∀ key ∈ names, name key = quote key) :
    (newRecordSizer c name r (sizes c r)).of keep names.length = (encodeNamed c name
        { r with inflight := r.inflight.take keep, spill := names }).length := by
  rw [encodeNamed_eq _ hplain, recordSize_eq r hkeep hlen]
  unfold RecordSizer.of newRecordSizer sizes recordSize
  dsimp only
  rw [encodeNamed_eq _ (List.forall_mem_nil _), sums_getD _ _ _ hkeep, Nat.zero_add]

/-- One entry and one name. -/
theorem recordSizer_exact_one :
    (newRecordSizer backlogCodec quote (recordOf [backlogEntry])
      (sizes backlogCodec (recordOf [backlogEntry]))).of 1 1 =
      (encodeNamed backlogCodec quote
        { recordOf [backlogEntry] with spill := [List.replicate 97 97] }).length :=
  recordSizer_exact backlogCodec quote (recordOf [backlogEntry]) 1 (by decide)
    [List.replicate 97 97] (by decide) (fun _ _ => rfl)

end Natsmqtt5.Spill
