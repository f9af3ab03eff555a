import Natsmqtt5.Alias.Table
import Natsmqtt5.Wire.Encodable

/-!
# Aliases are invisible

The PUBLISH packets a connection writes with Topic Aliases, read by a client that applies the rules
for them. An alias that replaces a name of at least eight bytes makes the packet no longer: the
property takes three bytes and the Property Length at most one more.

Results:
* `encode_use`: the alias alone is always encoded, in fewer bytes than the name.
* `aliases_invisible`: any number of packets.
-/

namespace Natsmqtt5.Wire.Alias

variable {p : Publish} {a : UInt16} {omitTopic : Bool} {n : Nat} {limit : UInt32} {k : Client}
  {t : OutAliases} {raw out : Bytes} {c : Conn}

/-! ## A PUBLISH with an alias -/

theorem legal_withAlias (h : p.Legal) (ha : a ≠ 0) : (withAlias p a omitTopic).Legal := by
  refine ⟨h.qos, h.dup, ?_, h.packetID, fun id v hv => ?_, .inr (Option.some_ne_none a)⟩
  · cases omitTopic with
    | true => exact isString_nil
    | false => exact h.topic
  · by_cases hid : id = .topicAlias
    · subst hid
      rw [List.mem_singleton.mp hv]
      exact ⟨trivial, ha⟩
    · have hget : (p.properties.set .topicAlias a).get id = p.properties.get id :=
        p.properties.get_set_of_ne a hid
      exact h.properties id v (hget ▸ hv)

/-- What the client reads of it. -/
theorem canon_withAlias : (withAlias p a omitTopic).canon =
    { p.canon with
      properties := { p.canon.properties with topicAlias := some a }
      topic := if omitTopic then [] else p.topic } := rfl

theorem canon_topicAlias (h : p.properties.topicAlias = none) :
    { p.canon with properties := { p.canon.properties with topicAlias := none } } = p.canon := by
  have hnone : p.canon.properties.topicAlias = none := by
    simp [Publish.canon, Properties.legalIn, Properties.restrict, h]
  rw [← hnone]

/-! ## Lengths -/

theorem PropID.all_split : ∃ before after, PropID.all = before ++ .topicAlias :: after ∧
    PropID.topicAlias ∉ before ∧ PropID.topicAlias ∉ after :=
  ⟨PropID.all.take 19, PropID.all.drop 20, by decide, by decide, by decide⟩

/-- One property of two bytes more is three bytes more. -/
theorem length_body {props props' : Properties}
    (hother : ∀ id, id ≠ .topicAlias → props'.get id = props.get id)
    (hold : props.get .topicAlias = []) (hnew : props'.get .topicAlias = [a]) :
    (props'.body .publish).length = (props.body .publish).length + 3 := by
  obtain ⟨before, after, hall, hb, ha⟩ := PropID.all_split
  have hseg : ∀ ids : List PropID, PropID.topicAlias ∉ ids →
      (ids.flatMap fun id => ((props'.legalIn .publish).get id).map (Item.mk id)) =
        ids.flatMap fun id => ((props.legalIn .publish).get id).map (Item.mk id) := by
    intro ids hids
    refine List.flatMap_congr fun id hid => ?_
    rw [Properties.get_legalIn, Properties.get_legalIn, hother id fun heq => hids (heq ▸ hid)]
  have hnew' : (props'.legalIn .publish).get .topicAlias = [a] :=
    (Properties.get_legalIn _ _ _).trans ((if_pos rfl).trans hnew)
  have hold' : (props.legalIn .publish).get .topicAlias = [] :=
    (Properties.get_legalIn _ _ _).trans ((if_pos rfl).trans hold)
  have hput : (Item.mk .topicAlias a).put.length = 3 := rfl
  unfold Properties.body Properties.items
  rw [hall]
  simp only [List.flatMap_append, List.flatMap_cons, hseg before hb, hseg after ha, hnew', hold',
    List.map_cons, List.map_nil, List.flatMap_nil, List.length_append, List.nil_append,
    List.append_nil, hput]
  omega

/-- A Variable Byte Integer of a value that is a little larger is one byte longer at most. -/
theorem length_varByteInt_add {k : Nat} (hk : k < 128) :
    (appendVarByteInt (n + k)).length ≤ (appendVarByteInt n).length + 1 := by
  have hmono := appendVarByteInt_mono (a := (n + k) / 128) (b := n) (by omega)
  rw [appendVarByteInt_eq (n + k)]
  split
  · rw [List.length_cons]
    omega
  · rw [List.length_singleton]
    omega

theorem length_frame (q : Publish) : (Packet.publish q).frame.length =
    1 + ((appendVarByteInt q.bytes.length).length + q.bytes.length) := by
  simp only [Packet.frame, List.length_append, List.length_singleton]
  rfl

theorem length_bytes (q : Publish) : q.bytes.length = 2 + q.topic.length +
    (if 0 < q.qos then 2 else 0) + ((appendVarByteInt (q.properties.body .publish).length).length +
      (q.properties.body .publish).length) + q.payload.length := by
  unfold Publish.bytes Properties.bytes
  split <;> simp only [List.length_append, length_putString, length_putUint16, List.length_nil] <;>
    omega

theorem checked_withAlias (h : Checked p.properties) :
    Checked (withAlias p a omitTopic).properties := by
  intro id v hv
  by_cases hid : id = .topicAlias
  · subst hid
    rfl
  · have hget : (p.properties.set .topicAlias a).get id = p.properties.get id :=
      p.properties.get_set_of_ne a hid
    exact h id v (hget ▸ hv)

section

variable (hnone : p.properties.topicAlias = none)
include hnone

theorem length_body_withAlias : ((withAlias p a omitTopic).properties.body .publish).length =
      (p.properties.body .publish).length + 3 :=
  length_body (fun id hid => p.properties.get_set_of_ne (show PropID.topicAlias.Val from a) hid)
    (by simp [Properties.get, hnone]) rfl

/-- Without the name the body is shorter. -/
theorem length_bytes_use (hlen : minAliasedTopic ≤ p.topic.length) :
    (withAlias p a true).bytes.length < p.bytes.length := by
  have hvar := length_varByteInt_add (n := (p.properties.body .publish).length) (k := 3) (by decide)
  rw [length_bytes, length_bytes, length_body_withAlias hnone]
  simp only [withAlias, minAliasedTopic, if_pos, List.length_nil] at hlen ⊢
  omega

/-- The alias alone is always encoded, in fewer bytes. -/
theorem encode_use {raw : Bytes}
    (hlen : minAliasedTopic ≤ p.topic.length) (hraw : Wire.encode (.publish p) = .ok raw) :
    ∃ out, Wire.encode (.publish (withAlias p a true)) = .ok out ∧ out.length < raw.length := by
  obtain ⟨he, rfl⟩ := encode_publish_iff.mp hraw
  have hlt := length_bytes_use (a := a) hnone hlen
  refine ⟨_, encode_publish_iff.mpr ⟨⟨he.qos, Nat.zero_le _, checked_withAlias he.properties,
    (Nat.le_of_lt hlt).trans he.fits⟩, rfl⟩, ?_⟩
  have hmono := appendVarByteInt_mono (Nat.le_of_lt hlt)
  rw [length_frame, length_frame]
  omega

end

theorem tooLarge_of_fits (h : limit = 0 ∨ n ≤ limit.toNat) : tooLarge n limit = false := by
  unfold tooLarge
  rcases h with rfl | h
  · rfl
  · rw [decide_eq_false (p := limit.toNat < n) (by omega), Bool.and_false]

theorem fits_of_not_tooLarge (h : ¬ tooLarge n limit = true) : limit = 0 ∨ n ≤ limit.toNat := by
  by_contra hlarge
  push Not at hlarge
  refine h ?_
  unfold tooLarge
  rw [Bool.and_eq_true]
  refine ⟨decide_eq_true ?_, decide_eq_true hlarge.2⟩
  exact UInt32.pos_iff_ne_zero.mpr hlarge.1

/-! ## One packet -/

/-- A PUBLISH of the broker: legal, without an alias of its own, and with an encoding within the
client's limit. -/
structure Plain (p : Publish) (raw : Bytes) (limit : UInt32) : Prop where
  legal : p.Legal
  topicAlias : p.properties.topicAlias = none
  encoded : Wire.encode (.publish p) = .ok raw
  fits : limit = 0 ∨ raw.length ≤ limit.toNat

/-- The client takes `out` for `p`, and has the table `t` then. -/
def Resolves (k : Client) (p : Publish) (t : OutAliases) (out : Bytes) : Prop :=
  ∃ m, k.receive out = some ({ k with aliases := m }, p.canon) ∧ t.Ok m ∧ t.max = k.max ∧
    (k.limit = 0 ∨ out.length ≤ k.limit.toNat)

/-- The client reads what is encoded of a legal packet within its limit. -/
theorem receive_encoded {q : Publish} (h : q.Legal) (hout : Wire.encode (.publish q) = .ok out)
    (hlimit : k.limit = 0 ∨ out.length ≤ k.limit.toNat) : k.receive out = k.resolve q.canon := by
  obtain ⟨rfl, hb⟩ := frame_of_encode (p := .publish q) h hout
  have hread := read_frame (p := .publish q) h hb hlimit []
  rw [List.append_nil] at hread
  unfold Client.receive
  rw [hread]
  rfl

/-- The plain encoding. -/
theorem resolves_raw (hp : Plain p raw k.limit) (ht : t.Ok k.aliases) (hmax : t.max = k.max) :
    Resolves k p t raw := by
  refine ⟨k.aliases, ?_, ht, hmax, hp.fits⟩
  have hnone : p.canon.properties.topicAlias = none := by
    rw [← canon_topicAlias hp.topicAlias]
  rw [receive_encoded hp.legal hp.encoded hp.fits]
  unfold Client.resolve
  rw [hnone]

theorem ne_zero_of_toNat (h : 1 ≤ a.toNat) : a ≠ 0 := by
  rintro rfl
  exact absurd h (by decide)

/-- An alias in range. -/
theorem alias_accepted (h1 : 1 ≤ a.toNat) (h2 : a.toNat ≤ k.max.toNat) : ¬ (a = 0 ∨ k.max < a) := by
  rintro (h | h)
  · exact ne_zero_of_toNat h1 h
  · exact absurd (UInt16.lt_iff_toNat_lt.mp h) (by omega)

section

variable (hp : Plain p raw k.limit) (hlen : minAliasedTopic ≤ p.topic.length)
  (ht : t.Ok k.aliases) (hmax : t.max = k.max)
include hp hlen ht hmax

/-- The alias alone, for a name the client has it for. -/
theorem resolves_hit (h1 : 1 ≤ a.toNat) (h2 : a.toNat ≤ k.max.toNat)
    (htold : k.aliases a.toNat = some p.topic)
    (hout : Wire.encode (.publish (withAlias p a true)) = .ok out) : Resolves k p t out := by
  have ha := ne_zero_of_toNat h1
  obtain ⟨out', hout', hlt⟩ := encode_use (a := a) hp.topicAlias hlen hp.encoded
  obtain rfl := Except.ok.inj (hout.symm.trans hout')
  have hfits : k.limit = 0 ∨ out.length ≤ k.limit.toNat :=
    hp.fits.imp_right (Nat.le_of_lt hlt).trans
  refine ⟨k.aliases, ?_, ht, hmax, hfits⟩
  rw [receive_encoded (legal_withAlias hp.legal ha) hout hfits, canon_withAlias]
  unfold Client.resolve
  simp only [if_neg (alias_accepted h1 h2), if_true, htold, Option.map_some]
  exact congrArg (fun q => some (k, q)) (canon_topicAlias hp.topicAlias)

/-- The name with its new alias. -/
theorem resolves_set (hpos : 1 ≤ t.max.toNat) (hnew : t.byTopic p.topic = none) :
    Resolves k p (t.set p raw k.limit).1 (t.set p raw k.limit).2 := by
  unfold OutAliases.set
  split
  · exact resolves_raw hp ht hmax
  · rename_i out hout
    split_ifs with hbig
    · exact resolves_raw hp ht hmax
    · let u : OutAliases := { t with spent := t.spent + (out.length - raw.length) }
      have hu : u.Ok k.aliases := { ht with }
      obtain ⟨⟨h1, h2⟩, hmax', hok⟩ := hu.assign hpos hnew
      have hnext : u.next = t.next := rfl
      rw [hnext] at h1 h2 hok
      have hfits : k.limit = 0 ∨ out.length ≤ k.limit.toNat := fits_of_not_tooLarge hbig
      refine ⟨_, ?_, hok, hmax'.trans hmax, hfits⟩
      have hname : p.topic ≠ [] := fun hnil => by
        rw [hnil] at hlen
        exact absurd hlen (by decide)
      rw [receive_encoded (legal_withAlias hp.legal (ne_zero_of_toNat h1)) hout hfits,
        canon_withAlias]
      unfold Client.resolve
      have hacc := alias_accepted (k := k) h1 (hmax ▸ h2)
      simp only [if_neg hacc, Bool.false_eq_true, if_false, if_neg hname]
      exact congrArg (fun q => some (Client.mk k.max k.limit (Function.update k.aliases
        t.next.toNat (some p.topic)), q)) (canon_topicAlias hp.topicAlias)

/-- **One packet.** What `encode` writes, the client takes for the packet. -/
theorem resolves_encode (hpos : 1 ≤ t.max.toNat) :
    Resolves k p (t.encode p raw k.limit).1 (t.encode p raw k.limit).2 := by
  unfold OutAliases.encode
  split
  · rename_i t' a hhit
    obtain ⟨ht', hmax', htold, h1, h2⟩ := ht.hit hhit
    split
    · exact resolves_raw hp ht' (hmax'.trans hmax)
    · rename_i out hout
      exact resolves_hit hp hlen { ht' with } (hmax'.trans hmax) h1 (hmax ▸ h2) htold hout
  · rename_i hmiss
    have hnew : t.byTopic p.topic = none := Option.map_eq_none_iff.mp hmiss
    obtain ⟨ht', hmax', hby⟩ := ht.sighted p.topic
    split_ifs
    · exact resolves_raw hp ht hmax
    · split
      · rename_i t' heq
        rw [heq] at ht' hmax'
        exact resolves_raw hp ht' (hmax'.trans hmax)
      · rename_i t' heq
        rw [heq] at ht' hmax' hby
        exact resolves_set hp hlen ht' (hmax'.trans hmax) (hmax' ▸ hpos) (hby ▸ hnew)

end

/-! ## Any number of packets -/

/-- The connection's table is what the client has been told. -/
structure Synced (c : Conn) (k : Client) : Prop where
  table : ∃ t, c.outAlias = some t ∧ t.Ok k.aliases ∧ t.max = k.max
  max : 1 ≤ k.max.toNat
  limit : c.clientMaxPacketSize = k.limit

theorem write_resolves (h : Synced c k) (hp : Plain p raw k.limit) :
    ∃ out m, (c.writePublish p).2 = some out ∧
      k.receive out = some ({ k with aliases := m }, p.canon) ∧
      Synced (c.writePublish p).1 { k with aliases := m } ∧
      (k.limit = 0 ∨ out.length ≤ k.limit.toNat) := by
  obtain ⟨t, hc, ht, hmax⟩ := h.table
  have hsmall : tooLarge raw.length c.clientMaxPacketSize = false := by
    rw [h.limit]
    exact tooLarge_of_fits hp.fits
  have hwrite : c.writePublish p = ((c.aliasPublish p raw).1, some (c.aliasPublish p raw).2) := by
    unfold Conn.writePublish
    rw [hp.encoded]
    simp only [hsmall, Bool.false_eq_true, if_false]
  rw [hwrite]
  unfold Conn.aliasPublish
  rw [hc]
  simp only
  split_ifs with hshort
  · obtain ⟨m, hrec, hok, hm, hfits⟩ := resolves_raw hp ht hmax
    exact ⟨raw, m, rfl, hrec, ⟨⟨t, hc, hok, hm⟩, h.max, h.limit⟩, hfits⟩
  · rw [h.limit]
    obtain ⟨m, hrec, hok, hm, hfits⟩ :=
      resolves_encode hp (by omega) ht hmax (hmax.symm ▸ h.max)
    exact ⟨_, m, rfl, hrec, ⟨⟨_, rfl, hok, hm⟩, h.max, rfl⟩, hfits⟩

theorem writeAll_resolves (h : Synced c k) {ps : List Publish}
    (hps : ∀ p ∈ ps, ∃ raw, Plain p raw k.limit) :
    ∃ m, k.receiveAll (c.writeAll ps).2 = some ({ k with aliases := m }, ps.map Publish.canon) ∧
      Synced (c.writeAll ps).1 { k with aliases := m } ∧
      ∀ out ∈ (c.writeAll ps).2, k.limit = 0 ∨ out.length ≤ k.limit.toNat := by
  induction ps generalizing c k with
  | nil => exact ⟨k.aliases, rfl, h, List.forall_mem_nil _⟩
  | cons p ps ih =>
    obtain ⟨raw, hp⟩ := hps p List.mem_cons_self
    obtain ⟨out, m, hout, hrec, hsync, hfits⟩ := write_resolves h hp
    obtain ⟨m', hall, hsync', hfits'⟩ := ih hsync fun q hq => hps q (List.mem_cons_of_mem p hq)
    have hcons : (c.writeAll (p :: ps)).2 = out :: ((c.writePublish p).1.writeAll ps).2 := by
      simp only [Conn.writeAll, hout, Option.toList_some, List.singleton_append]
    rw [hcons]
    refine ⟨m', ?_, hsync', List.forall_mem_cons.mpr ⟨hfits, hfits'⟩⟩
    simp only [Client.receiveAll, hrec, Option.bind_eq_bind, Option.bind_some, hall, List.map_cons]
    rfl

/-- **Aliases are invisible.** Whatever the client's Topic Alias Maximum of at least 1 and its
Maximum Packet Size, and whatever PUBLISH packets with an encoding within it are written: the client
takes every packet for the one that was sent, and has then the table that the broker has. No packet
is above the limit. -/
theorem aliases_invisible (max : UInt16) (limit : UInt32) (ps : List Publish) (hmax : 1 ≤ max)
    (hps : ∀ p ∈ ps, ∃ raw, Plain p raw limit) :
    let written := (Conn.mk (some (newOutAliases max)) limit).writeAll ps
    ∃ (k : Client) (t : OutAliases),
      ({ max := max, limit := limit } : Client).receiveAll written.2 =
        some (k, ps.map Publish.canon) ∧
      written.1.outAlias = some t ∧
      (∀ topic a, (t.byTopic topic).map OutAlias.aliasNum = some a ↔
        k.aliases a.toNat = some topic) ∧
      ∀ out ∈ written.2, limit = 0 ∨ out.length ≤ limit.toNat := by
  have hsync : Synced ⟨some (newOutAliases max), limit⟩ { max := max, limit := limit } :=
    ⟨⟨_, rfl, ok_new max, rfl⟩, UInt16.le_iff_toNat_le.mp hmax, rfl⟩
  obtain ⟨m, hall, ⟨⟨t, ht, hok, -⟩, -, -⟩, hfits⟩ := writeAll_resolves hsync hps
  exact ⟨_, t, hall, ht, hok.mapping, hfits⟩

/-- A PUBLISH at QoS 0 on a name of eight letters. -/
def lettersPublish (ch : UInt8) : Publish :=
  { dup := false, qos := 0, retain := false, topic := List.replicate 8 ch, packetID := 0,
    properties := {}, payload := [1] }

/-- Two packets on one name and three on another: the second of these takes the only alias there is
from the first name. -/
def twoNames : List Publish := [0x61, 0x61, 0x62, 0x62, 0x62].map lettersPublish

theorem plain_letters {p : Publish} (hp : p ∈ twoNames) : ∃ raw, Plain p raw 0 := by
  have hlegal : p.Legal := by
    obtain ⟨ch, hch, rfl⟩ := List.mem_map.mp hp
    refine ⟨by simp [lettersPublish], nofun, ?_, fun h => absurd rfl h, Properties.legal_empty,
      .inl (List.cons_ne_nil _ _)⟩
    have hletter : ch = 0x61 ∨ ch = 0x62 := by simpa using hch
    rcases hletter with rfl | rfl
    · exact ⟨by decide, List.replicate 8 0x61, rfl, by decide⟩
    · exact ⟨by decide, List.replicate 8 0x62, rfl, by decide⟩
  have hlen : ∀ p ∈ twoNames, p.properties.topicAlias = none ∧ p.bytes.length ≤ maxVarByteInt := by
    decide
  obtain ⟨halias, hfits⟩ := hlen p hp
  exact ⟨_, hlegal, halias, encode_eq_frame (p := .publish p) hlegal hfits, .inl rfl⟩

theorem aliases_invisible_remapped :
    ∃ k : Client,
      ({ max := 1, limit := 0 } : Client).receiveAll ((Conn.mk (some (newOutAliases 1)) 0).writeAll
        twoNames).2 = some (k, twoNames.map Publish.canon) ∧
      k.aliases 1 = some (List.replicate 8 0x62) := by
  obtain ⟨k, t, hall, ht, hmap, -⟩ := aliases_invisible 1 0 twoNames (by decide)
    fun p => plain_letters
  have hlast : (((Conn.mk (some (newOutAliases 1)) 0).writeAll twoNames).1.outAlias.bind fun t =>
      t.byTopic (List.replicate 8 0x62)).map OutAlias.aliasNum = some 1 := by
    decide
  rw [ht] at hlast
  exact ⟨k, hall, (hmap _ 1).mp hlast⟩

end Natsmqtt5.Wire.Alias
