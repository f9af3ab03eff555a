import Natsmqtt5.Recency
import Natsmqtt5.Wire.RoundTrip

/-!
# Outbound Topic Aliases

`outalias.go`: the aliases the broker sets on one connection for the PUBLISH packets it writes, and
the end of `writePacket` (`conn.go`), which is where they are used. The table is a list in the order
of use, its front the most recently used, with an index by Topic Name. A name that is in the table
goes as its alias alone; a new one takes a free alias or, when the table is full and has paid for
itself, the one of the least recently used name, if the name has been seen before.

`Client` is the other end: it reads the bytes and applies the rules for an alias in a PUBLISH.

Results:
* `OutAliases.Ok.hit`, `.assign`: the table and the client's mapping stay the same through a PUBLISH
  that uses an alias and one that sets it.
-/

namespace Natsmqtt5.Wire.Alias

open Function

def minAliasedTopic : Nat := 8

def maxSeenAliasNames : Nat := 32

structure OutAlias where
  topic : Bytes
  aliasNum : UInt16
  deriving DecidableEq

/-- `outAliases`. The elements of `byTopic` are those of `order`; a nil `seen` is the empty one. -/
structure OutAliases where
  max : UInt16
  byTopic : Bytes → Option OutAlias := fun _ => none
  order : List OutAlias := []
  saved : Int := 0
  spent : Int := 0
  seen : List Bytes := []

def newOutAliases (max : UInt16) : OutAliases := { max }

def OutAliases.hit (t : OutAliases) (topic : Bytes) : Option (OutAliases × UInt16) :=
  (t.byTopic topic).map fun el => ({ t with order := el :: t.order.erase el }, el.aliasNum)

/-- The table has an alias for as many names as the client allows. -/
def OutAliases.full (t : OutAliases) : Bool := decide (t.max.toNat ≤ t.order.length)

/-- `next`. A full table is not empty. -/
def OutAliases.next (t : OutAliases) : UInt16 :=
  if t.full then (t.order.getLast?.map OutAlias.aliasNum).getD 0
  else UInt16.ofNat t.order.length + 1

/-- The least recently used name goes. -/
def OutAliases.evict (t : OutAliases) : OutAliases :=
  match t.order.getLast? with
  | none => t
  | some old =>
    { t with byTopic := update t.byTopic old.topic none, order := t.order.dropLast }

def OutAliases.assign (t : OutAliases) (topic : Bytes) : OutAliases :=
  let a : OutAlias := ⟨topic, t.next⟩
  let t := if t.full then t.evict else t
  { t with byTopic := update t.byTopic topic (some a), order := a :: t.order }

/-- A full table admits a name on its second sighting. -/
def OutAliases.sighted (t : OutAliases) (topic : Bytes) : OutAliases × Bool :=
  if t.full then
    if t.seen.any (· = topic) then ({ t with seen := t.seen.filter (· ≠ topic) }, true)
    else
      let seen := if maxSeenAliasNames ≤ t.seen.length then [] else t.seen
      ({ t with seen := topic :: seen }, false)
  else (t, true)

def withAlias (p : Publish) (a : UInt16) (omitTopic : Bool) : Publish :=
  { p with
    properties := { p.properties with topicAlias := some a }
    topic := if omitTopic then [] else p.topic }

/-- `overLimit`, for a client that has a limit. -/
def tooLarge (n : Nat) (limit : UInt32) : Bool := decide (0 < limit) && decide (limit.toNat < n)

/-- A name that is not in the table takes an alias, unless that takes the packet over the limit. -/
def OutAliases.set (t : OutAliases) (p : Publish) (raw : Bytes) (maxPacketSize : UInt32) :
    OutAliases × Bytes :=
  match Wire.encode (.publish (withAlias p t.next false)) with
  | .error _ => (t, raw)
  | .ok out =>
    if tooLarge out.length maxPacketSize then (t, raw)
    else ({ t with spent := t.spent + (out.length - raw.length) }.assign p.topic, out)

def OutAliases.encode (t : OutAliases) (p : Publish) (raw : Bytes) (maxPacketSize : UInt32) :
    OutAliases × Bytes :=
  match t.hit p.topic with
  | some (t, a) =>
    match Wire.encode (.publish (withAlias p a true)) with
    | .error _ => (t, raw)
    | .ok out => ({ t with saved := t.saved + (raw.length - out.length) }, out)
  | none =>
    if t.full && decide (t.saved < t.spent) then (t, raw)
    else
      match t.sighted p.topic with
      | (t, false) => (t, raw)
      | (t, true) => t.set p raw maxPacketSize

/-- `conn`: what its write side has of aliases. -/
structure Conn where
  outAlias : Option OutAliases
  clientMaxPacketSize : UInt32

def Conn.aliasPublish (c : Conn) (p : Publish) (raw : Bytes) : Conn × Bytes :=
  match c.outAlias with
  | none => (c, raw)
  | some t =>
    if p.topic.length < minAliasedTopic then (c, raw)
    else
      let r := t.encode p raw c.clientMaxPacketSize
      ({ c with outAlias := some r.1 }, r.2)

/-- `writePacket`, for a PUBLISH: none is written when it cannot be encoded or is too large. -/
def Conn.writePublish (c : Conn) (p : Publish) : Conn × Option Bytes :=
  match Wire.encode (.publish p) with
  | .error _ => (c, none)
  | .ok raw =>
    if tooLarge raw.length c.clientMaxPacketSize then (c, none)
    else
      let r := c.aliasPublish p raw
      (r.1, some r.2)

/-- The packets written, one after the other. -/
def Conn.writeAll (c : Conn) : List Publish → Conn × List Bytes
  | [] => (c, [])
  | p :: ps =>
    let r := c.writePublish p
    let rest := r.1.writeAll ps
    (rest.1, r.2.toList ++ rest.2)

/-! ## The client -/

/-- A client, with its Topic Alias Maximum and its Maximum Packet Size. -/
structure Client where
  max : UInt16
  limit : UInt32
  aliases : Nat → Option Bytes := fun _ => none

/-- A PUBLISH as the client takes it: an alias with a Topic Name sets the mapping, one without uses
it. An alias of 0 or above the maximum, or one that is not set, is a Protocol Error. -/
def Client.resolve (k : Client) (q : Publish) : Option (Client × Publish) :=
  match q.properties.topicAlias with
  | none => some (k, q)
  | some a =>
    let bare := { q with properties := { q.properties with topicAlias := none } }
    if a = 0 ∨ k.max < a then none
    else if q.topic = [] then
      (k.aliases a.toNat).map fun name => (k, { bare with topic := name })
    else some ({ k with aliases := update k.aliases a.toNat (some q.topic) }, bare)

/-- One packet is read. -/
def Client.receive (k : Client) (bs : Bytes) : Option (Client × Publish) :=
  match (read k.limit).run bs with
  | .ok (.publish q, []) => k.resolve q
  | _ => none

def Client.receiveAll (k : Client) : List Bytes → Option (Client × List Publish)
  | [] => some (k, [])
  | bs :: bss => do
    let (k, p) ← k.receive bs
    let (k, ps) ← k.receiveAll bss
    pure (k, p :: ps)

/-! ## The table and the client's mapping -/

/-- The slot of an entry. -/
def OutAlias.slot (a : OutAlias) : Nat := a.aliasNum.toNat

/-- The table is within its bound, its index is right, and it is what the client has been told. -/
structure OutAliases.Ok (t : OutAliases) (m : Nat → Option Bytes) : Prop where
  slots : Recency.Slots OutAlias.topic OutAlias.slot t.order
  told : Recency.Told OutAlias.topic OutAlias.slot t.order m
  index : ∀ topic el, t.byTopic topic = some el ↔ el ∈ t.order ∧ el.topic = topic
  length : t.order.length ≤ t.max.toNat

theorem ok_new (max : UInt16) : (newOutAliases max).Ok fun _ => none := by
  refine ⟨.nil, .nil, fun topic el => ?_, Nat.zero_le _⟩
  simp [newOutAliases]

section Table

variable {t t' : OutAliases} {m : Nat → Option Bytes} {topic : Bytes} {a : UInt16}
  {byTopic : Bytes → Option OutAlias} {l : List OutAlias}

/-- The table as the client sees it. -/
theorem OutAliases.Ok.mapping (h : t.Ok m) (topic : Bytes) (a : UInt16) :
    (t.byTopic topic).map OutAlias.aliasNum = some a ↔ m a.toNat = some topic := by
  rw [h.told, Option.map_eq_some_iff]
  constructor
  · rintro ⟨el, hel, rfl⟩
    obtain ⟨hmem, htopic⟩ := (h.index topic el).mp hel
    exact ⟨el, hmem, rfl, htopic⟩
  · rintro ⟨el, hmem, hslot, htopic⟩
    exact ⟨el, (h.index topic el).mpr ⟨hmem, htopic⟩, UInt16.toNat_inj.mp hslot⟩

theorem OutAliases.Ok.hit (h : t.Ok m) (hhit : t.hit topic = some (t', a)) :
    t'.Ok m ∧ t'.max = t.max ∧ m a.toNat = some topic ∧ 1 ≤ a.toNat ∧ a.toNat ≤ t.max.toNat := by
  obtain ⟨el, hel, heq⟩ := Option.map_eq_some_iff.mp hhit
  cases heq
  obtain ⟨hmem, htopic⟩ := (h.index topic el).mp hel
  have hperm : (el :: t.order.erase el).Perm t.order := (List.perm_cons_erase hmem).symm
  have hrange : 1 ≤ el.aliasNum.toNat ∧ el.aliasNum.toNat ≤ t.order.length := h.slots.range hmem
  refine ⟨⟨h.slots.perm hperm, h.told.perm hperm, fun name x => ?_, ?_⟩, rfl, ?_, hrange.1,
    hrange.2.trans h.length⟩
  · rw [h.index name x, hperm.mem_iff]
  · exact hperm.length_eq.trans_le h.length
  · exact (h.told _ _).mpr ⟨el, hmem, rfl, htopic⟩

theorem OutAliases.Ok.sighted (h : t.Ok m) (topic : Bytes) :
    (t.sighted topic).1.Ok m ∧ (t.sighted topic).1.max = t.max ∧
      (t.sighted topic).1.byTopic = t.byTopic := by
  unfold OutAliases.sighted
  split_ifs <;> exact ⟨{ h with }, rfl, rfl⟩

/-- A name the index does not have is no entry's. -/
theorem OutAliases.Ok.not_mem (h : t.Ok m) (hnew : t.byTopic topic = none) :
    topic ∉ t.order.map OutAlias.topic := by
  intro hmem
  obtain ⟨el, hel, htopic⟩ := List.mem_map.mp hmem
  rw [(h.index topic el).mpr ⟨hel, htopic⟩] at hnew
  cases hnew

/-- The index after an entry is put in front. -/
theorem index_cons (el : OutAlias) (h : ∀ name x, byTopic name = some x ↔ x ∈ l ∧ x.topic = name)
    (hnew : el.topic ∉ l.map OutAlias.topic) (name : Bytes) (x : OutAlias) :
    update byTopic el.topic (some el) name = some x ↔ x ∈ el :: l ∧ x.topic = name := by
  rw [List.mem_cons]
  by_cases hname : name = el.topic
  · subst hname
    rw [update_self, Option.some.injEq]
    constructor
    · rintro rfl
      exact ⟨.inl rfl, rfl⟩
    · rintro ⟨rfl | hx, htopic⟩
      · rfl
      · exact absurd (List.mem_map.mpr ⟨x, hx, htopic⟩) hnew
  · rw [update_of_ne hname, h name x]
    constructor
    · rintro ⟨hx, htopic⟩
      exact ⟨.inr hx, htopic⟩
    · rintro ⟨rfl | hx, htopic⟩
      · exact absurd htopic.symm hname
      · exact ⟨hx, htopic⟩

/-- The index after the last entry goes. -/
theorem index_dropLast {old : OutAlias}
    (h : ∀ name x, byTopic name = some x ↔ x ∈ l ++ [old] ∧ x.topic = name)
    (hnodup : ((l ++ [old]).map OutAlias.topic).Nodup) (name : Bytes) (x : OutAlias) :
    update byTopic old.topic none name = some x ↔ x ∈ l ∧ x.topic = name := by
  rw [List.map_append, List.map_singleton, List.nodup_append] at hnodup
  have hold : ∀ x ∈ l, x.topic ≠ old.topic := fun x hx =>
    hnodup.2.2 x.topic (List.mem_map_of_mem hx) old.topic (List.mem_singleton_self _)
  by_cases hname : name = old.topic
  · subst hname
    rw [update_self]
    constructor
    · intro hx
      cases hx
    · rintro ⟨hx, htopic⟩
      exact absurd htopic (hold x hx)
  · rw [update_of_ne hname, h name x, List.mem_append, List.mem_singleton]
    constructor
    · rintro ⟨hx | rfl, htopic⟩
      · exact ⟨hx, htopic⟩
      · exact absurd htopic.symm hname
    · rintro ⟨hx, htopic⟩
      exact ⟨.inl hx, htopic⟩

theorem OutAliases.full_iff : t.full = true ↔ t.max.toNat ≤ t.order.length := decide_eq_true_iff

/-- `next` and `assign`: the alias is in range, and the client that is told of it has the table. -/
theorem OutAliases.Ok.assign (h : t.Ok m) (hmax : 1 ≤ t.max.toNat)
    (hnew : t.byTopic topic = none) :
    (1 ≤ t.next.toNat ∧ t.next.toNat ≤ t.max.toNat) ∧ (t.assign topic).max = t.max ∧
      (t.assign topic).Ok (update m t.next.toNat (some topic)) := by
  have hkey := h.not_mem hnew
  by_cases hfull : t.full = true
  · have hlen := full_iff.mp hfull
    obtain ⟨l, old, hl⟩ : ∃ l old, t.order = l ++ [old] :=
      ⟨_, _, (List.dropLast_append_getLast (List.ne_nil_of_length_pos (by omega))).symm⟩
    have hnext : t.next = old.aliasNum := by
      unfold OutAliases.next
      rw [if_pos hfull, hl, List.getLast?_concat]
      rfl
    have hassign : t.assign topic = { t with
        byTopic := update (update t.byTopic old.topic none) topic
          (some ⟨topic, old.aliasNum⟩)
        order := ⟨topic, old.aliasNum⟩ :: l } := by
      unfold OutAliases.assign OutAliases.evict
      rw [if_pos hfull, hnext, hl, List.getLast?_concat]
      simp
    have hslots := h.slots
    have htold := h.told
    have hindex := h.index
    rw [hl] at hslots htold hindex hkey
    have hrange : 1 ≤ old.aliasNum.toNat ∧ old.aliasNum.toNat ≤ (l ++ [old]).length :=
      hslots.range (a := old) (by simp)
    have hkey' : topic ∉ l.map OutAlias.topic := fun hmem =>
      hkey (by rw [List.map_append]; exact List.mem_append_left _ hmem)
    have hlen' : (l ++ [old]).length ≤ t.max.toNat := hl ▸ h.length
    rw [hnext, hassign]
    refine ⟨⟨hrange.1, hrange.2.trans hlen'⟩, rfl, ?_, ?_, ?_, ?_⟩
    · exact hslots.replace (a := ⟨topic, old.aliasNum⟩) hkey' rfl
    · exact htold.replace (a := ⟨topic, old.aliasNum⟩) hslots rfl
    · exact index_cons ⟨topic, old.aliasNum⟩ (index_dropLast hindex hslots.keys) hkey'
    · simpa using hlen'
  · have hlen : t.order.length < t.max.toNat := by
      rw [full_iff] at hfull
      omega
    have hbound := t.max.toNat_lt
    have hnext : t.next = UInt16.ofNat t.order.length + 1 := if_neg hfull
    have hnat : t.next.toNat = t.order.length + 1 := by
      rw [hnext, UInt16.toNat_add, UInt16.toNat_ofNat']
      have hone : (1 : UInt16).toNat = 1 := rfl
      omega
    have hslot : OutAlias.slot ⟨topic, t.next⟩ = t.order.length + 1 := hnat
    have hassign : t.assign topic = { t with
        byTopic := update t.byTopic topic (some ⟨topic, t.next⟩)
        order := ⟨topic, t.next⟩ :: t.order } := by
      unfold OutAliases.assign
      rw [if_neg hfull]
    rw [hassign]
    refine ⟨by omega, rfl, ?_, ?_, ?_, ?_⟩
    · exact h.slots.push hkey hslot
    · exact h.told.push h.slots hslot
    · exact index_cons ⟨topic, t.next⟩ h.index hkey
    · exact hlen

end Table

end Natsmqtt5.Wire.Alias
