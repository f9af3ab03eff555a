import Mathlib.Data.List.Sublists
import Natsmqtt5.Spill.Record

/-!
# Spilling the in-flight entries of a record

`spillRecordReusing` (`sessionstore.go`): a record too large for a value keeps the oldest of its
in-flight entries, and the rest go to the payload bucket in chunks that the record names. How many
stay is found by trying fewer and fewer, each try with the chunks it would need and the size the
record would have (`recordSizer`). A chunk whose key is known is named without being written, and
the first write that fails ends the spilling.

The bucket is a function from keys to values. A write may succeed, fail, or fail after the server
has stored the value.

Results:
* `recordSize_eq`: the computed size is the length of the encoding.
* `spilled_counted_tail`: the entries in the record followed by those of the chunks it names are the
  entries there were, but for a tail as long as the count returned.
-/

namespace Natsmqtt5.Spill

variable (c : Codec)

/-! ## The payload bucket -/

/-- The payload bucket. -/
abbrev Blobs := Bytes → Option Bytes

def Blobs.put (blobs : Blobs) (key raw : Bytes) : Blobs :=
  fun k => if k = key then some raw else blobs k

/-- `blobOwner`: the first 16 bytes of the digest. -/
def blobOwner (clientID : Bytes) : Bytes := (c.digest clientID).take 32

/-- `blobDigest`: what follows the last dot, or the whole of a key without one. -/
def blobDigest (key : Bytes) : Bytes := (key.reverse.takeWhile (· != 46)).reverse

def blobKeyFor (owner raw : Bytes) : Bytes := owner ++ 46 :: c.digest raw

/-- `getBlob`: a value that does not have the digest of its key is not returned. -/
def getBlob (blobs : Blobs) (key : Bytes) : Option Bytes :=
  (blobs key).bind fun raw => if c.digest raw = blobDigest key then some raw else none

/-- `loadSpill`: the entries, and how many values could not be read. -/
def loadSpill (blobs : Blobs) : List Bytes → List StoredInflight × Nat
  | [] => ([], 0)
  | key :: keys =>
    let p := loadSpill blobs keys
    match (getBlob c blobs key).bind c.unmarshal with
    | some chunk => (chunk ++ p.1, p.2)
    | none => (p.1, p.2 + 1)

/-! ## The chunks -/

/-- The limits of the store: `blobLimit`, and `spillChunkIDs` as it is configured. -/
structure Limits where
  chunkMax : Nat
  spillChunkIDs : Int

/-- `defaultSpillChunkIDs` where none is configured. -/
def Limits.ids (lim : Limits) : Nat :=
  if lim.spillChunkIDs ≤ 0 then 1024 else lim.spillChunkIDs.toNat

/-- `pack`: the entries in spans that each fit one value. A span also ends after an entry whose
identifier is a multiple of the span of identifiers. -/
def packEntries (lim : Limits) (entries : List StoredInflight) : List (List StoredInflight) :=
  Fit.pack (fun e => (c.marshal e).length + 1) (fun e => e.id.toNat % lim.ids == 0) lim.chunkMax 2
    entries

/-- The value of a chunk. -/
def chunkText (chunk : List StoredInflight) : Bytes := array (chunk.map c.marshal)

def chunkKey (owner : Bytes) (chunk : List StoredInflight) : Bytes :=
  blobKeyFor c owner (chunkText c chunk)

/-- `recordSizer.of`: the size of the record with the first `keep` entries and the names of `chunks`
chunks. -/
def recordSize (r : SessionRecord) (keep chunks : Nat) : Nat :=
  (encodeRecord c { r with inflight := [], spill := [] }).length +
    (if 0 < keep then
      (ascii ",\"Inflight\":[]").length + itemsLength ((r.inflight.take keep).map c.marshal) - 1
    else 0) +
    if 0 < chunks then
      (ascii ",\"Spill\":[]").length + chunks * (97 + (ascii "\"\",").length) - 1
    else 0

/-- How `putBlob` ends: with an error the value may be stored or not. -/
inductive Put
  | ok
  | err (stored : Bool)

/-- What writing the chunks leaves: the bucket, the keys named and how many entries they have, the
values handed to the bucket, and whether a write failed. -/
structure Written where
  blobs : Blobs
  keys : List Bytes := []
  kept : Nat := 0
  puts : List Bytes := []
  failed : Bool := false

/-- The loop that writes the chunks: `put i` is how the write of the chunk `i` ends. -/
def writeChunks (owner : Bytes) (known : List Bytes) (put : Nat → Put) :
    Nat → Blobs → List (List StoredInflight) → Written
  | _, blobs, [] => { blobs }
  | i, blobs, chunk :: chunks =>
    let raw := chunkText c chunk
    let key := blobKeyFor c owner raw
    if key ∈ known then
      let w := writeChunks owner known put (i + 1) blobs chunks
      { w with keys := key :: w.keys, kept := chunk.length + w.kept }
    else
      match put i with
      | .err stored =>
        { blobs := if stored then blobs.put key raw else blobs, puts := [raw], failed := true }
      | .ok =>
        let w := writeChunks owner known put (i + 1) (blobs.put key raw) chunks
        { w with keys := key :: w.keys, kept := chunk.length + w.kept, puts := raw :: w.puts }

/-- The record after spilling, the entries lost, and what was done to the bucket. -/
structure Spilled where
  record : SessionRecord
  lost : Nat
  blobs : Blobs
  puts : List Bytes := []
  failed : Bool := false

/-- How many entries stay in the record. -/
def keepEntries (lim : Limits) (r : SessionRecord) (limit : Nat) : Nat :=
  Fit.search less
    (fun keep =>
      decide (recordSize c r keep (packEntries c lim (r.inflight.drop keep)).length ≤ limit))
    (less r.inflight.length)

/-- The chunks that are written. Where no entry stays and the names of the chunks are still too
many, the last ones go. -/
def spans (lim : Limits) (r : SessionRecord) (limit : Nat) : List (List StoredInflight) :=
  let keep := keepEntries c lim r limit
  let chunks := packEntries c lim (r.inflight.drop keep)
  if keep = 0 then
    chunks.take (Fit.search Nat.pred (fun n => decide (recordSize c r 0 n ≤ limit)) chunks.length)
  else chunks

/-- `spillRecordReusing` from where the record is known not to fit. -/
def divide (lim : Limits) (r : SessionRecord) (limit : Nat) (known : List Bytes) (blobs : Blobs)
    (put : Nat → Put) : Spilled :=
  let keep := keepEntries c lim r limit
  let w := writeChunks c (blobOwner c r.clientID) known put 0 blobs (spans c lim r limit)
  { record := { r with inflight := r.inflight.take keep, spill := w.keys }
    lost := r.inflight.length - (keep + w.kept)
    blobs := w.blobs
    puts := w.puts
    failed := w.failed }

def spillRecordReusing (lim : Limits) (r : SessionRecord) (limit : Nat) (known : List Bytes)
    (blobs : Blobs) (put : Nat → Put) : Spilled :=
  let r := trim c r limit
  if (encodeRecord c r).length ≤ limit ∨ r.inflight = [] then { record := r, lost := 0, blobs }
  else divide c lim r limit known blobs put

variable {c} {keys : List Bytes} {i m keep : Nat} {owner : Bytes} {es : List StoredInflight}
  {chunks : List (List StoredInflight)} {P : List StoredInflight → Prop} {lim : Limits}
  {r : SessionRecord} {limit : Nat} {known : List Bytes} {blobs : Blobs} {put : Nat → Put}
  {out : Spilled}

/-! ## The computed size -/

theorem length_blobKeyFor (clientID raw : Bytes) :
    (blobKeyFor c (blobOwner c clientID) raw).length = 97 := by
  simp [blobKeyFor, blobOwner, c.length_digest]

theorem length_chunkKeys (clientID : Bytes) (chunks : List (List StoredInflight)) :
    ∀ key ∈ chunks.map (chunkKey c (blobOwner c clientID)), key.length = 97 := by
  rintro key hkey
  obtain ⟨es, -, rfl⟩ := List.mem_map.mp hkey
  exact length_blobKeyFor clientID _

/-- The names of `n` chunks. -/
theorem itemsLength_keys (h : ∀ key ∈ keys, key.length = 97) :
    itemsLength (keys.map quote) = keys.length * 100 := by
  induction keys with
  | nil => rfl
  | cons key keys ih =>
    have hkey := h key List.mem_cons_self
    have hrest := ih fun k hk => h k (List.mem_cons_of_mem _ hk)
    rw [List.map_cons, itemsLength, Fit.total, ← itemsLength, hrest]
    simp only [quote, List.length_cons, List.length_append, List.length_nil, hkey]
    omega

theorem length_inflightField (r : SessionRecord) (keep : Nat) (h : keep ≤ r.inflight.length) :
    (listField (ascii "Inflight") ((r.inflight.take keep).map c.marshal)).length = if 0 < keep then
        (ascii ",\"Inflight\":[]").length + itemsLength ((r.inflight.take keep).map c.marshal) - 1
      else 0 := by
  have hname : (ascii "Inflight").length = 8 := by decide
  have htext : (ascii ",\"Inflight\":[]").length = 14 := by decide
  by_cases hkeep : 0 < keep
  · have hne : (r.inflight.take keep).map c.marshal ≠ [] := by
      rw [Ne, List.map_eq_nil_iff, List.take_eq_nil_iff]
      rintro (rfl | hnil)
      · exact absurd hkeep (Nat.lt_irrefl 0)
      · rw [hnil] at h
        exact absurd h (Nat.not_le_of_lt hkeep)
    rw [if_pos hkeep, length_listField_cons hne, hname, htext]
    omega
  · obtain rfl : keep = 0 := by omega
    simp

theorem length_spillField (h : ∀ key ∈ keys, key.length = 97) :
    (listField (ascii "Spill") (keys.map quote)).length = if 0 < keys.length then
        (ascii ",\"Spill\":[]").length + keys.length * (97 + (ascii "\"\",").length) - 1
      else 0 := by
  have hname : (ascii "Spill").length = 5 := by decide
  have htext : (ascii ",\"Spill\":[]").length = 11 := by decide
  have hquote : (ascii "\"\",").length = 3 := by decide
  by_cases hkeys : keys = []
  · simp [hkeys]
  · have hpos : 0 < keys.length := List.length_pos_of_ne_nil hkeys
    rw [if_pos hpos, length_listField_cons (mt List.map_eq_nil_iff.mp hkeys), itemsLength_keys h,
      hname, htext, hquote]
    omega

/-- The computed size is the length of the encoding. -/
theorem recordSize_eq (r : SessionRecord) (hkeep : keep ≤ r.inflight.length)
    (hkeys : ∀ key ∈ keys, key.length = 97) :
    (encodeRecord c { r with inflight := r.inflight.take keep, spill := keys }).length =
      recordSize c r keep keys.length := by
  rw [length_encode, length_inflightField r keep hkeep, length_spillField hkeys, recordSize]

/-- The record with no entry and the names `keys`. -/
theorem length_names (r : SessionRecord) (hkeys : ∀ key ∈ keys, key.length = 97) :
    (encodeRecord c { r with inflight := [], spill := keys }).length =
      recordSize c r 0 keys.length := recordSize_eq r (Nat.zero_le _) hkeys

theorem recordSize_mono (r : SessionRecord) (keep : Nat) {n : Nat} (h : n ≤ m) :
    recordSize c r keep n ≤ recordSize c r keep m := by
  have hquote : (ascii "\"\",").length = 3 := by decide
  have htext : (ascii ",\"Spill\":[]").length = 11 := by decide
  simp only [recordSize, hquote, htext]
  split_ifs <;> omega

/-! ## What is read back -/

/-- What the spilling of `all` rests on: a chunk of it is read back from its text, a known key is
stored with the chunk that has it, and no two chunks share a key. -/
structure Codec.Keeps (c : Codec) (owner : Bytes) (all : List StoredInflight) (known : List Bytes)
    (blobs : Blobs) : Prop where
  reads : ∀ es, es ≠ [] → es <:+: all → c.unmarshal (chunkText c es) = some es
  stored : ∀ es, es ≠ [] → es <:+: all → chunkKey c owner es ∈ known →
    blobs (chunkKey c owner es) = some (chunkText c es)
  determines : ∀ es es', es ≠ [] → es <:+: all → es' ≠ [] → es' <:+: all →
    chunkKey c owner es = chunkKey c owner es' → chunkText c es = chunkText c es'

theorem blobDigest_blobKeyFor (owner raw : Bytes) :
    blobDigest (blobKeyFor c owner raw) = c.digest raw := by
  have hhex : ∀ ch ∈ (c.digest raw).reverse, (ch != 46) = true := by
    intro ch hch
    exact bne_iff_ne.mpr (c.digest_hex raw ch (List.mem_reverse.mp hch))
  rw [blobDigest, blobKeyFor, List.reverse_append, List.reverse_cons, List.append_assoc,
    List.takeWhile_append_of_pos hhex, List.singleton_append,
    List.takeWhile_cons_of_neg (by decide), List.append_nil, List.reverse_reverse]

theorem getBlob_chunk (h : blobs (chunkKey c owner es) = some (chunkText c es)) :
    getBlob c blobs (chunkKey c owner es) = some (chunkText c es) := by
  rw [getBlob, h, Option.bind_some, chunkKey, blobDigest_blobKeyFor, if_pos rfl]

/-- Chunks that are stored are read back in order. -/
theorem loadSpill_chunks
    (hstored : ∀ es ∈ chunks, blobs (chunkKey c owner es) = some (chunkText c es))
    (hreads : ∀ es ∈ chunks, c.unmarshal (chunkText c es) = some es) :
    loadSpill c blobs (chunks.map (chunkKey c owner)) = (chunks.flatten, 0) := by
  induction chunks with
  | nil => rfl
  | cons es chunks ih =>
    have hrest := ih (fun e he => hstored e (List.mem_cons_of_mem _ he))
      fun e he => hreads e (List.mem_cons_of_mem _ he)
    rw [List.map_cons, loadSpill, getBlob_chunk (hstored es List.mem_cons_self), Option.bind_some,
      hreads es List.mem_cons_self, hrest, List.flatten_cons]

/-! ## What is written -/

/-- What the loop has done: it has kept the first `m` chunks. -/
structure Written.Keeps (c : Codec) (owner : Bytes) (chunks : List (List StoredInflight)) (m : Nat)
    (w : Written) : Prop where
  keys : w.keys = (chunks.take m).map (chunkKey c owner)
  kept : w.kept = (chunks.take m).flatten.length
  stored : ∀ es ∈ chunks.take m, w.blobs (chunkKey c owner es) = some (chunkText c es)
  puts : ∀ raw ∈ w.puts, ∃ es ∈ chunks, raw = chunkText c es

/-- One chunk more, which is stored. -/
theorem Written.Keeps.cons
    {w : Written} (h : w.Keeps c owner chunks m) {chunk : List StoredInflight}
    (hstored : w.blobs (chunkKey c owner chunk) = some (chunkText c chunk)) {puts : List Bytes}
    (hputs : ∀ raw ∈ puts, raw = chunkText c chunk ∨ raw ∈ w.puts) : { w with
      keys := chunkKey c owner chunk :: w.keys
      kept := chunk.length + w.kept
      puts := puts : Written }.Keeps c owner (chunk :: chunks) (m + 1) := by
  refine ⟨?_, ?_, ?_, ?_⟩
  · rw [List.take_succ_cons, List.map_cons, ← h.keys]
  · rw [List.take_succ_cons, List.flatten_cons, List.length_append, ← h.kept]
  · rw [List.take_succ_cons, List.forall_mem_cons]
    exact ⟨hstored, h.stored⟩
  · intro raw hraw
    rcases hputs raw hraw with rfl | hraw
    · exact ⟨chunk, List.mem_cons_self, rfl⟩
    · obtain ⟨es, hes, htext⟩ := h.puts raw hraw
      exact ⟨es, List.mem_cons_of_mem _ hes, htext⟩

/-- A write never takes a chunk away: the key it is made at has one content. -/
theorem put_stored (hkey : ∀ es es', P es → P es' → chunkKey c owner es = chunkKey c owner es' →
      chunkText c es = chunkText c es') {es' : List StoredInflight} (hes : P es) (hes' : P es')
    (h : blobs (chunkKey c owner es) = some (chunkText c es)) :
    blobs.put (chunkKey c owner es') (chunkText c es') (chunkKey c owner es) =
      some (chunkText c es) := by
  rw [Blobs.put]
  split_ifs with heq
  · rw [hkey es es' hes hes' heq]
  · exact h

theorem writeChunks_stored
    (hkey : ∀ es es', P es → P es' → chunkKey c owner es = chunkKey c owner es' →
      chunkText c es = chunkText c es') (hP : ∀ es ∈ chunks, P es)
    (hes : P es) (h : blobs (chunkKey c owner es) = some (chunkText c es)) :
    (writeChunks c owner known put i blobs chunks).blobs (chunkKey c owner es) =
      some (chunkText c es) := by
  induction chunks generalizing i blobs with
  | nil => exact h
  | cons chunk chunks ih =>
    obtain ⟨hchunk, hrest⟩ := List.forall_mem_cons.mp hP
    have hput := put_stored hkey hes hchunk h
    rw [writeChunks]
    dsimp only
    split_ifs with hknown
    · exact ih hrest h
    · cases put i with
      | ok => exact ih hrest hput
      | err stored =>
        cases stored with
        | false => exact h
        | true => exact hput

/-- The loop keeps the chunks up to the first write that fails. -/
theorem writeChunks_keeps
    (hkey : ∀ es es', P es → P es' → chunkKey c owner es = chunkKey c owner es' →
      chunkText c es = chunkText c es') (hP : ∀ es ∈ chunks, P es)
    (hknown : ∀ es, P es → chunkKey c owner es ∈ known →
      blobs (chunkKey c owner es) = some (chunkText c es)) :
    ∃ m, (writeChunks c owner known put i blobs chunks).Keeps c owner chunks m ∧
      ((∀ i, put i = .ok) → m = chunks.length) := by
  induction chunks generalizing i blobs with
  | nil => exact ⟨0, ⟨rfl, rfl, by simp, by simp [writeChunks]⟩, fun _ => rfl⟩
  | cons chunk chunks ih =>
    obtain ⟨hchunk, hrest⟩ := List.forall_mem_cons.mp hP
    rw [writeChunks]
    dsimp only
    split_ifs with hk
    · obtain ⟨m, hm, hall⟩ := ih (i := i + 1) hrest hknown
      have hnow := hknown chunk hchunk hk
      exact ⟨m + 1, hm.cons (writeChunks_stored hkey hrest hchunk hnow) fun _ => .inr,
        fun h => congrArg (· + 1) (hall h)⟩
    · cases hput : put i with
      | err stored =>
        refine ⟨0, ⟨rfl, rfl, by simp, ?_⟩, fun h => ?_⟩
        · intro raw hraw
          exact ⟨chunk, List.mem_cons_self, List.mem_singleton.mp hraw⟩
        · rw [h i] at hput
          contradiction
      | ok =>
        obtain ⟨m, hm, hall⟩ := ih (i := i + 1) hrest
          fun es hes hk' => put_stored hkey hes hchunk (hknown es hes hk')
        have hnow : (blobs.put (chunkKey c owner chunk) (chunkText c chunk))
            (chunkKey c owner chunk) = some (chunkText c chunk) := if_pos rfl
        exact ⟨m + 1, hm.cons (writeChunks_stored hkey hrest hchunk hnow) fun _ => List.mem_cons.mp,
          fun h => congrArg (· + 1) (hall h)⟩

/-! ## The chunks fit and are the entries -/

theorem flatten_packEntries (lim : Limits) (entries : List StoredInflight) :
    (packEntries c lim entries).flatten = entries := Fit.flatten_pack entries

theorem total_marshal (es : List StoredInflight) :
    Fit.total (fun e => (c.marshal e).length + 1) es = itemsLength (es.map c.marshal) := by
  induction es with
  | nil => rfl
  | cons e es ih => simp only [Fit.total, List.map_cons, ih]

/-- A chunk is within the limit: a single entry is by assumption. -/
theorem length_chunkText {entries : List StoredInflight}
    (hframe : ∀ e ∈ entries, (c.marshal e).length + 2 ≤ lim.chunkMax)
    (hes : es ∈ packEntries c lim entries) : (chunkText c es).length ≤ lim.chunkMax := by
  obtain ⟨hne, hsize⟩ := Fit.pack_pieces entries es hes
  rw [chunkText, length_array (mt List.map_eq_nil_iff.mp hne)]
  rcases hsize with hsize | ⟨e, rfl⟩
  · rw [total_marshal] at hsize
    omega
  · have he : e ∈ entries := by
      rw [← flatten_packEntries (c := c) lim entries]
      exact List.mem_flatten_of_mem hes List.mem_cons_self
    have hfit := hframe e he
    simp only [List.map_cons, List.map_nil, itemsLength, Fit.total]
    omega

theorem keepEntries_le (lim : Limits) (r : SessionRecord) (limit : Nat) :
    keepEntries c lim r limit ≤ r.inflight.length := by
  refine Nat.le_trans (Fit.search_le less_lt _) ?_
  rw [less]
  omega

/-- The chunks written are the first of those the rest of the entries is divided into. -/
theorem spans_take (lim : Limits) (r : SessionRecord) (limit : Nat) :
    ∃ n, spans c lim r limit =
      (packEntries c lim (r.inflight.drop (keepEntries c lim r limit))).take n := by
  rw [spans]
  split_ifs
  · exact ⟨_, rfl⟩
  · exact ⟨_, (List.take_length).symm⟩

theorem pred_lt (n : Nat) (h : 0 < n) : n.pred < n := Nat.pred_lt (Nat.ne_of_gt h)

/-- The record with the entries kept and all the names fits, if it does with neither. -/
theorem spans_fit (hbase : recordSize c r 0 0 ≤ limit) :
    recordSize c r (keepEntries c lim r limit) (spans c lim r limit).length ≤ limit := by
  rw [spans]
  split_ifs with hzero
  · rw [hzero, List.length_take, Nat.min_eq_left (Fit.search_le pred_lt _)]
    rcases Fit.search_ok pred_lt _ with hnone | hok
    · rw [hnone]
      exact hbase
    · exact of_decide_eq_true hok
  · rcases Fit.search_ok less_lt _ with hnone | hok
    · exact absurd hnone hzero
    · exact of_decide_eq_true hok

/-- Nothing is cut off where the names of all chunks fit. -/
theorem spans_all (hnames : recordSize c r 0 (packEntries c lim r.inflight).length ≤ limit) :
    spans c lim r limit =
      packEntries c lim (r.inflight.drop (keepEntries c lim r limit)) := by
  rw [spans]
  split_ifs with hzero
  · rw [hzero, List.drop_zero, Fit.search_eq pred_lt, decide_eq_true hnames]
    split_ifs with hempty hfit
    · rw [List.length_eq_zero_iff.mp hempty, List.take_nil]
    · exact List.take_length
    · exact absurd rfl hfit
  · rfl

/-! ## The result -/

/-- A list cut at `n`, and a prefix of what follows. -/
theorem take_append_take {α : Type} (l : List α) (n : Nat) {p : List α} (h : p <+: l.drop n) :
    l.take n ++ p = l.take (n + p.length) := by
  rw [List.take_add, ← List.prefix_iff_eq_take.mp h]

theorem prefix_flatten_take {α : Type} (L : List (List α)) (m : Nat) :
    (L.take m).flatten <+: L.flatten := by
  refine ⟨(L.drop m).flatten, ?_⟩
  rw [← List.flatten_append, List.take_append_drop]

section Divide

/-- The chunks of the entries after any number of them are what the assumptions speak of. -/
theorem chunk_infix
    (h : es ∈ packEntries c lim (r.inflight.drop keep)) : es ≠ [] ∧ es <:+: r.inflight := by
  refine ⟨(Fit.pack_pieces _ es h).1, ?_⟩
  have hin : es <:+: r.inflight.drop keep := by
    rw [← flatten_packEntries (c := c) lim (r.inflight.drop keep)]
    exact List.infix_of_mem_flatten h
  exact hin.trans (List.drop_suffix keep _).isInfix

theorem spans_infix (h : es ∈ spans c lim r limit) : es ≠ [] ∧ es <:+: r.inflight := by
  obtain ⟨n, hn⟩ := spans_take (c := c) lim r limit
  rw [hn] at h
  exact chunk_infix (List.mem_of_mem_take h)

theorem prefix_flatten_spans (lim : Limits) (r : SessionRecord) (limit : Nat) :
    (spans c lim r limit).flatten <+: r.inflight.drop (keepEntries c lim r limit) := by
  obtain ⟨n, hn⟩ := spans_take (c := c) lim r limit
  have h := prefix_flatten_take (packEntries c lim (r.inflight.drop (keepEntries c lim r limit))) n
  rw [flatten_packEntries] at h
  rw [hn]
  exact h

variable (hkeeps : c.Keeps (blobOwner c r.clientID) r.inflight known blobs)
  (hout : divide c lim r limit known blobs put = out)

include hkeeps

variable (lim limit put) in
/-- Of the chunks to be written, the first `m` are stored and named. -/
theorem divide_written : ∃ m,
    (writeChunks c (blobOwner c r.clientID) known put 0 blobs (spans c lim r limit)).Keeps c
      (blobOwner c r.clientID) (spans c lim r limit) m ∧
    ((∀ i, put i = .ok) → m = (spans c lim r limit).length) :=
  writeChunks_keeps (fun es es' h h' => hkeeps.determines es es' h.1 h.2 h'.1 h'.2)
    (fun _ hes => spans_infix hes) fun es h => hkeeps.stored es h.1 h.2

include hout

/-- The entries kept and those of the chunks named are the first entries of the record, and the
count is of those after them. -/
theorem divide_entries : out.lost ≤ r.inflight.length ∧
    (loadSpill c out.blobs out.record.spill).2 = 0 ∧
    out.record.inflight ++ (loadSpill c out.blobs out.record.spill).1 =
      r.inflight.take (r.inflight.length - out.lost) := by
  obtain ⟨m, hm, -⟩ := divide_written lim limit put hkeeps
  have hprefix := (prefix_flatten_take (spans c lim r limit) m).trans
    (prefix_flatten_spans (c := c) lim r limit)
  have hload := loadSpill_chunks hm.stored fun es hes => by
    obtain ⟨hne, hin⟩ := spans_infix (List.mem_of_mem_take hes)
    exact hkeeps.reads es hne hin
  rw [← hm.keys] at hload
  have hkeep := keepEntries_le (c := c) lim r limit
  have hlen := hprefix.length_le
  rw [List.length_drop, ← hm.kept] at hlen
  subst hout
  refine ⟨Nat.sub_le _ _, congrArg Prod.snd hload, ?_⟩
  have hcount : r.inflight.length - (divide c lim r limit known blobs put).lost =
      keepEntries c lim r limit + ((spans c lim r limit).take m).flatten.length := by
    rw [← hm.kept]
    simp only [divide]
    omega
  rw [hcount, ← take_append_take _ _ hprefix]
  exact congrArg (r.inflight.take (keepEntries c lim r limit) ++ ·) (congrArg Prod.fst hload)

theorem divide_puts (hframe : ∀ e ∈ r.inflight, (c.marshal e).length + 2 ≤ lim.chunkMax) :
    ∀ raw ∈ out.puts, raw.length ≤ lim.chunkMax := by
  obtain ⟨m, hm, -⟩ := divide_written lim limit put hkeeps
  subst hout
  intro raw hraw
  obtain ⟨es, hes, rfl⟩ := hm.puts raw hraw
  obtain ⟨n, hn⟩ := spans_take (c := c) lim r limit
  rw [hn] at hes
  exact length_chunkText (fun e he => hframe e (List.mem_of_mem_drop he)) (List.mem_of_mem_take hes)

/-- The names written are at most those that were counted. -/
theorem divide_fits (hbase : recordSize c r 0 0 ≤ limit) :
    (encodeRecord c out.record).length ≤ limit := by
  obtain ⟨m, hm, -⟩ := divide_written lim limit put hkeeps
  subst hout
  have hspill : (divide c lim r limit known blobs put).record.spill =
      ((spans c lim r limit).take m).map (chunkKey c (blobOwner c r.clientID)) := hm.keys
  have hkeys : ∀ key ∈ (divide c lim r limit known blobs put).record.spill, key.length = 97 := by
    rw [hspill]
    exact length_chunkKeys r.clientID _
  have hcount : (divide c lim r limit known blobs put).record.spill.length ≤
      (spans c lim r limit).length := by
    rw [hspill, List.length_map]
    exact List.length_take_le' _ _
  calc (encodeRecord c (divide c lim r limit known blobs put).record).length
      = recordSize c r (keepEntries c lim r limit)
          (divide c lim r limit known blobs put).record.spill.length :=
        recordSize_eq r (keepEntries_le lim r limit) hkeys
    _ ≤ recordSize c r (keepEntries c lim r limit) (spans c lim r limit).length :=
        recordSize_mono r _ hcount
    _ ≤ limit := spans_fit hbase

theorem divide_lost (hput : ∀ i, put i = .ok)
    (hnames : recordSize c r 0 (packEntries c lim r.inflight).length ≤ limit) : out.lost = 0 := by
  obtain ⟨m, hm, hall⟩ := divide_written lim limit put hkeeps
  have hkeep := keepEntries_le (c := c) lim r limit
  have hkept := hm.kept
  rw [hall hput, List.take_length, spans_all hnames, flatten_packEntries, List.length_drop] at hkept
  subst hout
  simp only [divide, spans_all hnames] at hkept ⊢
  omega

end Divide

section Spill

theorem spillRecordReusing_eq (lim : Limits) (r : SessionRecord) (limit : Nat) (known : List Bytes)
    (blobs : Blobs) (put : Nat → Put) : spillRecordReusing c lim r limit known blobs put =
      if (encodeRecord c (trim c r limit)).length ≤ limit ∨ (trim c r limit).inflight = [] then
        { record := trim c r limit, lost := 0, blobs }
      else divide c lim (trim c r limit) limit known blobs put := rfl

/-- A trimmed record as `divide` finds it. -/
theorem Codec.Keeps.trimmed {t : SessionRecord}
    (hkeeps : c.Keeps (blobOwner c r.clientID) r.inflight known blobs)
    (htrim : r.Trimmed t) : c.Keeps (blobOwner c t.clientID) t.inflight known blobs := by
  rw [htrim.inflight, htrim.clientID]
  exact hkeeps

section

variable (hkeeps : c.Keeps (blobOwner c r.clientID) r.inflight known blobs)
include hkeeps

/-- What is in the record and in the chunks it names are the first entries, and the count is of the
others. -/
theorem spill_entries (hout : spillRecordReusing c lim r limit known blobs put = out) :
    out.lost ≤ r.inflight.length ∧ (loadSpill c out.blobs out.record.spill).2 = 0 ∧
      out.record.inflight ++ (loadSpill c out.blobs out.record.spill).1 =
        r.inflight.take (r.inflight.length - out.lost) := by
  have htrim := trimmed_trim c r limit
  rw [spillRecordReusing_eq] at hout
  generalize trim c r limit = t at hout htrim
  split_ifs at hout
  · subst hout
    refine ⟨Nat.zero_le _, ?_, ?_⟩
    · rw [htrim.spill, loadSpill]
    · rw [htrim.spill, loadSpill, List.append_nil, htrim.inflight, Nat.sub_zero, List.take_length]
  · rw [← htrim.inflight]
    exact divide_entries (hkeeps.trimmed htrim) hout

/-- The record fits a value if it does without its entries. -/
theorem spill_fits (hbase : (encodeRecord c { r with inflight := [], spill := [] }).length ≤ limit)
    (hout : spillRecordReusing c lim r limit known blobs put = out) :
    (encodeRecord c out.record).length ≤ limit := by
  have htrim := trimmed_trim c r limit
  rw [spillRecordReusing_eq] at hout
  generalize trim c r limit = t at hout htrim
  have hle := Nat.le_trans htrim.length_le hbase
  split_ifs at hout with hfits
  · subst hout
    rcases hfits with hfits | hnil
    · exact hfits
    · rw [length_encode, hnil, htrim.spill, List.map_nil, List.map_nil, listField_nil,
        listField_nil]
      exact hle
  · exact divide_fits (hkeeps.trimmed htrim) hout hle

theorem spill_puts (hframe : ∀ e ∈ r.inflight, (c.marshal e).length + 2 ≤ lim.chunkMax)
    (hout : spillRecordReusing c lim r limit known blobs put = out) :
    ∀ raw ∈ out.puts, raw.length ≤ lim.chunkMax := by
  have htrim := trimmed_trim c r limit
  rw [spillRecordReusing_eq] at hout
  generalize trim c r limit = t at hout htrim
  split_ifs at hout
  · subst hout
    exact List.forall_mem_nil _
  · rw [← htrim.inflight] at hframe
    exact divide_puts (hkeeps.trimmed htrim) hout hframe

theorem spill_lost (hput : ∀ i, put i = .ok) (hnames : (encodeRecord c { trim c r limit with
      inflight := []
      spill := (packEntries c lim r.inflight).map
        (chunkKey c (blobOwner c r.clientID)) }).length ≤ limit) {out : Spilled}
    (hout : spillRecordReusing c lim r limit known blobs put = out) : out.lost = 0 := by
  have htrim := trimmed_trim c r limit
  rw [spillRecordReusing_eq] at hout
  generalize trim c r limit = t at hout htrim hnames
  have hsize := length_names (c := c) t
    (length_chunkKeys (c := c) r.clientID (packEntries c lim r.inflight))
  rw [hsize, List.length_map, ← htrim.inflight] at hnames
  split_ifs at hout
  · subst hout
    rfl
  · exact divide_lost (hkeeps.trimmed htrim) hout hput hnames

end

end Spill

/-- The entries that stay in the record, followed by those of the chunks it names, are the first of
the entries there were, all but as many as are counted as lost. No chunk written is above the limit
of a chunk. The record fits a value if it does without entries, and nothing is lost where no write
fails and the names of all chunks fit. -/
theorem spilled_counted_tail (lim : Limits) (r : SessionRecord) (limit : Nat) (known : List Bytes)
    (blobs : Blobs) (put : Nat → Put)
    (hframe : ∀ e ∈ r.inflight, (c.marshal e).length + 2 ≤ lim.chunkMax)
    (hkeeps : c.Keeps (blobOwner c r.clientID) r.inflight known blobs) :
    let out := spillRecordReusing c lim r limit known blobs put
    let tail := loadSpill c out.blobs out.record.spill
    (out.lost ≤ r.inflight.length ∧ tail.2 = 0 ∧
      out.record.inflight ++ tail.1 = r.inflight.take (r.inflight.length - out.lost)) ∧
    (∀ raw ∈ out.puts, raw.length ≤ lim.chunkMax) ∧
    ((encodeRecord c { r with inflight := [], spill := [] }).length ≤ limit →
      (encodeRecord c out.record).length ≤ limit) ∧
    ((∀ i, put i = .ok) →
      (encodeRecord c { trim c r limit with
        inflight := []
        spill := (packEntries c lim r.inflight).map
          (chunkKey c (blobOwner c r.clientID)) }).length ≤ limit →
      out.lost = 0) := by
  intro out tail
  have hout : spillRecordReusing c lim r limit known blobs put = out := rfl
  clear_value out
  exact ⟨spill_entries hkeeps hout, spill_puts hkeeps hframe hout,
    fun hbase => spill_fits hkeeps hbase hout,
    fun hput hnames => spill_lost hkeeps hput hnames hout⟩

/-! ## A codec on two entries -/

/-- Of fewer entries as well. -/
theorem Codec.Keeps.fewer {owner : Bytes} {all all' : List StoredInflight} {known : List Bytes}
    {blobs : Blobs} (h : c.Keeps owner all known blobs) (hall : all' <:+: all) :
    c.Keeps owner all' known blobs where
  reads es hne he := h.reads es hne (he.trans hall)
  stored es hne he := h.stored es hne (he.trans hall)
  determines es es' hne he hne' he' := h.determines es es' hne (he.trans hall) hne' (he'.trans hall)

theorem Codec.keeps_of_sublists {owner : Bytes} {all : List StoredInflight} {blobs : Blobs}
    (hreads : ∀ es ∈ all.sublists, es ≠ [] → c.unmarshal (chunkText c es) = some es)
    (hkeys : ∀ es ∈ all.sublists, ∀ es' ∈ all.sublists, es ≠ [] → es' ≠ [] →
      chunkKey c owner es = chunkKey c owner es' → chunkText c es = chunkText c es') :
    c.Keeps owner all [] blobs where
  reads es hne h := hreads es (List.mem_sublists.mpr h.sublist) hne
  stored _ _ _ hmem := absurd hmem List.not_mem_nil
  determines es es' hne h hne' h' := hkeys es (List.mem_sublists.mpr h.sublist) es'
    (List.mem_sublists.mpr h'.sublist) hne hne'

/-- A message of a backlog. -/
def backlogEntry : StoredInflight :=
  { id := 1
    qos := 1
    seq := 7
    retain := true
    subID := 3
    ack := ascii "$JS.ACK.MQTT5.g.1.7.3.1700000000000000000.0" }

/-- A message past its PUBREC. -/
def releasedEntry : StoredInflight := { id := 2, qos := 2, rel := true }

/-- What `json.Marshal` writes of the two. -/
def entryText (e : StoredInflight) : Bytes :=
  if e = backlogEntry then
    ascii ("\x7b\"ID\":1,\"QoS\":1,\"Seq\":7,\"Retain\":true,\"SubID\":3," ++
      "\"Ack\":\"$JS.ACK.MQTT5.g.1.7.3.1700000000000000000.0\"," ++
      "\"BlobAt\":\"0001-01-01T00:00:00Z\",\"At\":\"0001-01-01T00:00:00Z\"\x7d")
  else
    ascii ("\x7b\"ID\":2,\"QoS\":2,\"Rel\":true," ++
      "\"BlobAt\":\"0001-01-01T00:00:00Z\",\"At\":\"0001-01-01T00:00:00Z\"\x7d")

/-- The SHA-256 of the empty name, of the chunk of each entry and of the chunk of both. -/
def digestOf (raw : Bytes) : Bytes :=
  ascii (if raw = [] then
    "e3b0c44298fc1c149afbf4c8996fb92427ae41e4649b934ca495991b7852b855"
  else if raw = array [entryText backlogEntry] then
    "27d19129abc6b57ef91339b484dc51e526eaef6eba59421344e9f9896f9b4175"
  else if raw = array [entryText releasedEntry] then
    "d67107cf9cf2b528284060165019aab879a997e10050d070f1c7c8dbae362c62"
  else
    "7d0f6d27a85af0321c65ea51397f3256356e4c72826157f0a330f19657eaeedd")

def backlogCodec : Codec where
  marshal := entryText
  marshalDelivered _ := []
  unmarshal raw := [backlogEntry, releasedEntry].sublists.find? fun es =>
    array (es.map entryText) = raw
  digest := digestOf
  length_digest raw := by unfold digestOf; split_ifs <;> decide +kernel
  digest_hex raw := by unfold digestOf; split_ifs <;> decide +kernel

/-- A record with some entries. -/
def recordOf (es : List StoredInflight) : SessionRecord :=
  ⟨[], [123], [], [], 0, [], es, [], [], [125]⟩

theorem backlogCodec_keeps (blobs : Blobs) : backlogCodec.Keeps (blobOwner backlogCodec [])
    [backlogEntry, releasedEntry] [] blobs :=
  Codec.keeps_of_sublists (by decide +kernel) (by decide +kernel)

/-- The record of both entries, which fits with the names of two chunks; the write of the second one
ends as `put` says. -/
def spilledTwo (put : Put) : Spilled :=
  spillRecordReusing backlogCodec ⟨170, 1⟩ (recordOf [backlogEntry, releasedEntry]) 220 []
    (fun _ => none) fun i => if i = 1 then put else .ok

/-- Without a failing write nothing is lost, and the entry of the chunk that is not written. -/
theorem spilled_counted_tail_two :
    (spilledTwo .ok).record.spill.length = 2 ∧ (spilledTwo .ok).lost = 0 ∧
    (spilledTwo (.err true)).lost = 1 ∧ (spilledTwo (.err true)).record.inflight ++
      (loadSpill backlogCodec (spilledTwo (.err true)).blobs
        (spilledTwo (.err true)).record.spill).1 = [backlogEntry] := by
  have hnames := fun put : Nat → Put => spilled_counted_tail ⟨170, 1⟩
    (recordOf [backlogEntry, releasedEntry]) 220 [] (fun _ => none) put (by decide +kernel)
    (backlogCodec_keeps _)
  have hlost : (spilledTwo (.err true)).lost = 1 := by decide +kernel
  refine ⟨by decide +kernel, ?_, hlost, ?_⟩
  · exact (hnames _).2.2.2 (fun i => ite_self _) (by decide +kernel)
  · unfold spilledTwo at hlost ⊢
    rw [(hnames _).1.2.2, hlost]
    rfl

end Natsmqtt5.Spill
