import Natsmqtt5.Alias.Invisible
import Natsmqtt5.Fit

/-!
# The ledger of the aliases

`saved` and `spent` of `outAliases`, against the bytes a connection writes: what it writes beyond
the plain encodings of the same packets is `spent - saved`. An alias that is set costs its property
of three bytes, and one byte more where the Property Length or the Remaining Length grows by one; an
alias that is used takes at least four bytes off. A full table remaps an alias only when it has
saved as much as it has spent.

Results:
* `alias_ledger`: any number of packets.
-/

namespace Natsmqtt5.Wire.Alias

/-! ## What an alias costs and saves -/

section Lengths

variable {p : Publish} {a : UInt16} {raw out : Bytes}

section

variable (hnone : p.properties.topicAlias = none)
include hnone

/-- With the name it is four bytes longer at most. -/
theorem length_bytes_set : (withAlias p a false).bytes.length ≤ p.bytes.length + 4 := by
  have hvar := length_varByteInt_add (n := (p.properties.body .publish).length) (k := 3) (by decide)
  rw [length_bytes, length_bytes, length_body_withAlias hnone]
  simp only [withAlias, Bool.false_eq_true, if_false]
  omega

/-- Setting an alias costs five bytes at most. -/
theorem length_set (hraw : Wire.encode (.publish p) = .ok raw)
    (hout : Wire.encode (.publish (withAlias p a false)) = .ok out) :
    out.length ≤ raw.length + 5 := by
  obtain ⟨-, rfl⟩ := encode_publish_iff.mp hraw
  obtain ⟨-, rfl⟩ := encode_publish_iff.mp hout
  have hle := length_bytes_set (a := a) hnone
  have hmono := appendVarByteInt_mono hle
  have hvar := length_varByteInt_add (n := p.bytes.length) (k := 4) (by decide)
  rw [length_frame, length_frame]
  omega

end

end Lengths

/-! ## One packet -/

/-- What the table has cost. -/
def OutAliases.owed (t : OutAliases) : Int := t.spent - t.saved

/-- A table that is what some client has been told, with an alias at least. -/
def Sound (t : OutAliases) : Prop := (∃ m, t.Ok m) ∧ 1 ≤ t.max.toNat

/-- What packets that cost `e` bytes do to a table. -/
structure Balance (t t' : OutAliases) (e : Int) : Prop where
  max : t'.max = t.max
  grows : t.order.length ≤ t'.order.length
  exact : e = t'.owed - t.owed
  bound : t.owed ≤ 5 * t.order.length → t'.owed ≤ 5 * t'.order.length
  full : t.full = true → t'.owed ≤ Max.max 5 t.owed

section Steps

variable {t t' t'' : OutAliases} {p : Publish} {raw : Bytes} {topic : Bytes} {e e' : Int}

theorem Balance.refl (t : OutAliases) : Balance t t 0 :=
  ⟨rfl, Nat.le_refl _, (Int.sub_self _).symm, id, fun _ => Int.le_max_right 5 _⟩

theorem Balance.trans (h : Balance t t' e) (h' : Balance t' t'' e') : Balance t t'' (e + e') where
  max := h'.max.trans h.max
  grows := h.grows.trans h'.grows
  exact := by
    rw [h.exact, h'.exact]
    omega
  bound hb := h'.bound (h.bound hb)
  full hf := by
    have hf' : t'.full = true := by
      rw [OutAliases.full_iff, h.max] at *
      exact hf.trans h.grows
    have h1 := h.full hf
    have h2 := h'.full hf'
    omega

/-- The plain encoding, or the alias alone. -/
theorem Balance.saves (hmax : t'.max = t.max) (hlen : t'.order.length = t.order.length)
    (hexact : e = t'.owed - t.owed) (hneg : e ≤ 0) : Balance t t' e := by
  refine ⟨hmax, hlen.ge, hexact, fun hb => ?_, fun _ => ?_⟩
  · rw [hlen]
    omega
  · omega

/-- A free alias is set. -/
theorem Balance.fills (hmax : t'.max = t.max) (hfree : t.full = false)
    (hlen : t'.order.length = t.order.length + 1) (hexact : e = t'.owed - t.owed) (hcost : e ≤ 5) :
    Balance t t' e := by
  refine ⟨hmax, by omega, hexact, fun hb => ?_, fun hf => ?_⟩
  · rw [hlen]
    omega
  · rw [hfree] at hf
    contradiction

/-- A table that has paid for itself gives an alias to another name. -/
theorem Balance.remaps (hpos : 1 ≤ t.order.length) (hmax : t'.max = t.max)
    (hlen : t'.order.length = t.order.length) (hpaid : t.owed ≤ 0) (hexact : e = t'.owed - t.owed)
    (hcost : e ≤ 5) : Balance t t' e := by
  refine ⟨hmax, hlen.ge, hexact, fun _ => ?_, fun _ => ?_⟩
  · rw [hlen]
    omega
  · omega

theorem length_pos_of_full (hpos : 1 ≤ t.max.toNat) (hfull : t.full = true) :
    1 ≤ t.order.length :=
  hpos.trans (OutAliases.full_iff.mp hfull)

theorem assign_order (hpos : 1 ≤ t.max.toNat) : (t.assign topic).order.length =
    if t.full then t.order.length else t.order.length + 1 := by
  unfold OutAliases.assign
  split_ifs with hfull
  · have hlen := length_pos_of_full hpos hfull
    obtain ⟨l, old, hl⟩ : ∃ l old, t.order = l ++ [old] :=
      ⟨_, _, (List.dropLast_append_getLast (List.ne_nil_of_length_pos hlen)).symm⟩
    simp only [OutAliases.evict, hl, List.getLast?_concat, List.dropLast_concat, List.length_cons,
      List.length_append, List.length_nil]
  · rfl

theorem assign_owed : (t.assign topic).owed = t.owed := by
  unfold OutAliases.assign OutAliases.evict OutAliases.owed
  split_ifs
  · split <;> rfl
  · rfl

theorem sighted_spec : (t.sighted topic).1.order = t.order ∧ (t.sighted topic).1.owed = t.owed := by
  unfold OutAliases.sighted
  split_ifs <;> exact ⟨rfl, rfl⟩

/-- A new name with its alias, or plain. -/
theorem set_balance (hs : Sound t) (hnone : p.properties.topicAlias = none)
    (hraw : Wire.encode (.publish p) = .ok raw) (limit : UInt32) (hnew : t.byTopic p.topic = none)
    (hpaid : t.full = true → t.owed ≤ 0) :
    Sound (t.set p raw limit).1 ∧
      Balance t (t.set p raw limit).1 ((t.set p raw limit).2.length - raw.length) := by
  obtain ⟨⟨m, hok⟩, hpos⟩ := hs
  have hplain : Sound t ∧ Balance t t ((raw.length : Int) - raw.length) := by
    rw [Int.sub_self]
    exact ⟨⟨⟨m, hok⟩, hpos⟩, Balance.refl t⟩
  unfold OutAliases.set
  split
  · exact hplain
  · rename_i out hout
    split_ifs
    · exact hplain
    · let u : OutAliases := { t with spent := t.spent + (out.length - raw.length) }
      have hu : u.Ok m := { hok with }
      have howed : u.owed = t.owed + (out.length - raw.length) := by
        change t.spent + (out.length - raw.length) - t.saved = t.spent - t.saved + _
        omega
      obtain ⟨-, hmax, hok'⟩ := hu.assign hpos hnew
      have hcost := length_set hnone hraw hout
      have horder : (u.assign p.topic).order.length =
          if t.full then t.order.length else t.order.length + 1 := assign_order (t := u) hpos
      have hexact : (out.length : Int) - raw.length = (u.assign p.topic).owed - t.owed := by
        rw [assign_owed, howed]
        omega
      have hpos' : 1 ≤ (u.assign p.topic).max.toNat := by
        rw [hmax]
        exact hpos
      have hfive : (out.length : Int) - raw.length ≤ 5 := by omega
      refine ⟨⟨⟨_, hok'⟩, hpos'⟩, ?_⟩
      by_cases hfull : t.full = true
      · rw [if_pos hfull] at horder
        exact Balance.remaps (length_pos_of_full hpos hfull) hmax horder (hpaid hfull) hexact hfive
      · rw [if_neg hfull] at horder
        exact Balance.fills hmax (Bool.eq_false_of_not_eq_true hfull) horder hexact hfive

theorem encode_balance (hs : Sound t) (hnone : p.properties.topicAlias = none)
    (hlen : minAliasedTopic ≤ p.topic.length) (hraw : Wire.encode (.publish p) = .ok raw)
    (limit : UInt32) :
    Sound (t.encode p raw limit).1 ∧
      Balance t (t.encode p raw limit).1 ((t.encode p raw limit).2.length - raw.length) := by
  obtain ⟨⟨m, hok⟩, hpos⟩ := hs
  have hself : ((raw.length : Int) - raw.length) = 0 := Int.sub_self _
  unfold OutAliases.encode
  split
  · rename_i t' a hhit
    obtain ⟨hok', hmax, -⟩ := hok.hit hhit
    obtain ⟨el, hel, heq⟩ := Option.map_eq_some_iff.mp hhit
    cases heq
    have horder : (el :: t.order.erase el).length = t.order.length :=
      (List.perm_cons_erase ((hok.index _ _).mp hel).1).length_eq.symm
    obtain ⟨out, hout, hless⟩ := encode_use (a := el.aliasNum) hnone hlen hraw
    rw [hout]
    refine ⟨⟨⟨m, { hok' with }⟩, hpos⟩, ?_⟩
    have hneg : (out.length : Int) - raw.length ≤ 0 := by omega
    refine Balance.saves rfl horder ?_ hneg
    change (out.length : Int) - raw.length =
      t.spent - (t.saved + (raw.length - out.length)) - (t.spent - t.saved)
    omega
  · rename_i hmiss
    have hnew : t.byTopic p.topic = none := Option.map_eq_none_iff.mp hmiss
    obtain ⟨hok', hmax, hby⟩ := hok.sighted p.topic
    obtain ⟨horder, howed⟩ : (t.sighted p.topic).1.order = t.order ∧
        (t.sighted p.topic).1.owed = t.owed := sighted_spec
    split_ifs with hdebt
    · rw [hself]
      exact ⟨⟨⟨m, hok⟩, hpos⟩, Balance.refl t⟩
    · have hpaid : t.full = true → t.owed ≤ 0 := by
        intro hfull
        rw [hfull, Bool.true_and, decide_eq_true_iff] at hdebt
        unfold OutAliases.owed
        omega
      have hsight : Balance t (t.sighted p.topic).1 0 :=
        Balance.saves hmax (by rw [horder]) (by rw [howed, Int.sub_self]) (Int.le_refl 0)
      split
      · rename_i t' heq
        rw [heq] at hok' hmax hsight
        rw [hself]
        exact ⟨⟨⟨m, hok'⟩, hmax ▸ hpos⟩, hsight⟩
      · rename_i t' heq
        rw [heq] at hok' hmax hby hsight horder howed
        have hfull : t'.full = t.full := by
          unfold OutAliases.full
          rw [hmax, horder]
        obtain ⟨hs', hb⟩ := set_balance ⟨⟨m, hok'⟩, hmax ▸ hpos⟩ hnone hraw limit (hby ▸ hnew)
          (by rw [hfull, howed]; exact hpaid)
        have htrans := hsight.trans hb
        rw [Int.zero_add] at htrans
        exact ⟨hs', htrans⟩

end Steps

/-! ## Any number of packets -/

/-- The plain encoding of a packet the connection writes. -/
def Conn.plain (c : Conn) (p : Publish) : Option Bytes :=
  match Wire.encode (.publish p) with
  | .error _ => none
  | .ok raw => if tooLarge raw.length c.clientMaxPacketSize then none else some raw

/-- The bytes written of some packets beyond those of their plain encodings. -/
def Conn.excess (c : Conn) (ps : List Publish) : Int :=
  (Fit.total List.length (c.writeAll ps).2 : Int) - Fit.total List.length (ps.filterMap c.plain)

section Run

variable {c : Conn} {t : OutAliases} {p : Publish} {ps : List Publish} {raw : Bytes}

theorem plain_some (h : c.plain p = some raw) : Wire.encode (.publish p) = .ok raw ∧
      c.writePublish p = ((c.aliasPublish p raw).1, some (c.aliasPublish p raw).2) := by
  unfold Conn.plain at h
  unfold Conn.writePublish
  cases henc : Wire.encode (.publish p) with
  | error e =>
    rw [henc] at h
    cases h
  | ok raw' =>
    rw [henc] at h
    dsimp only at h ⊢
    split_ifs at h with hbig
    cases h
    exact ⟨rfl, if_neg hbig⟩

theorem plain_none (h : c.plain p = none) : c.writePublish p = (c, none) := by
  unfold Conn.plain at h
  unfold Conn.writePublish
  cases henc : Wire.encode (.publish p) with
  | error e => rfl
  | ok raw =>
    rw [henc] at h
    dsimp only at h ⊢
    split_ifs at h with hbig
    rw [if_pos hbig]

/-- The bytes of a packet, none when it is not written. -/
def size (o : Option Bytes) : Nat := Fit.total List.length o.toList

theorem write_balance (hc : c.outAlias = some t) (hs : Sound t)
    (hnone : p.properties.topicAlias = none) :
    ∃ t', (c.writePublish p).1 = { c with outAlias := some t' } ∧ Sound t' ∧
      Balance t t' (size (c.writePublish p).2 - size (c.plain p)) := by
  cases hp : c.plain p with
  | none =>
    rw [plain_none hp]
    refine ⟨t, ?_, hs, Balance.refl t⟩
    rw [← hc]
  | some raw =>
    obtain ⟨hraw, hwrite⟩ := plain_some hp
    rw [hwrite]
    unfold Conn.aliasPublish
    rw [hc]
    simp only
    split_ifs with hshort
    · refine ⟨t, ?_, hs, ?_⟩
      · rw [← hc]
      · rw [Int.sub_self]
        exact Balance.refl t
    · obtain ⟨hs', hb⟩ := encode_balance hs hnone (by omega) hraw c.clientMaxPacketSize
      exact ⟨_, rfl, hs', hb⟩

theorem excess_cons (c : Conn) (p : Publish) (ps : List Publish)
    (hlimit : (c.writePublish p).1.clientMaxPacketSize = c.clientMaxPacketSize) :
    c.excess (p :: ps) = ((size (c.writePublish p).2 : Int) - size (c.plain p)) +
      (c.writePublish p).1.excess ps := by
  have hplain : (c.writePublish p).1.plain = c.plain := by
    funext q
    unfold Conn.plain
    rw [hlimit]
  have hcons : (p :: ps).filterMap c.plain = (c.plain p).toList ++ ps.filterMap c.plain := by
    rw [List.filterMap_cons]
    cases c.plain p <;> rfl
  unfold Conn.excess size
  rw [Conn.writeAll, hcons, hplain, Fit.total_append, Fit.total_append]
  omega

theorem writeAll_balance (hc : c.outAlias = some t) (hs : Sound t)
    (hps : ∀ p ∈ ps, p.properties.topicAlias = none) :
    ∃ t', (c.writeAll ps).1 = { c with outAlias := some t' } ∧ Sound t' ∧
      Balance t t' (c.excess ps) := by
  induction ps generalizing c t with
  | nil =>
    refine ⟨t, ?_, hs, Balance.refl t⟩
    rw [← hc]
    rfl
  | cons p ps ih =>
    obtain ⟨hp, hps⟩ := List.forall_mem_cons.mp hps
    obtain ⟨u, hu, hsu, hbu⟩ := write_balance hc hs hp
    obtain ⟨t', ht', hs', hb⟩ := ih (c := (c.writePublish p).1) (by rw [hu]) hsu hps
    refine ⟨t', ?_, hs', ?_⟩
    · rw [Conn.writeAll, ht', hu]
    · rw [excess_cons c p ps (by rw [hu])]
      exact hbu.trans hb

theorem writeAll_append (qs rs : List Publish) :
    (c.writeAll (qs ++ rs)).1 = ((c.writeAll qs).1.writeAll rs).1 := by
  induction qs generalizing c with
  | nil => rfl
  | cons q qs ih => exact ih

/-- A name that has an alias goes in fewer bytes. -/
theorem write_use {el : OutAlias} (hc : c.outAlias = some t)
    (hnone : p.properties.topicAlias = none) (hlen : minAliasedTopic ≤ p.topic.length)
    (hel : t.byTopic p.topic = some el) (hp : c.plain p = some raw) :
    ∃ out, (c.writePublish p).2 = some out ∧ out.length < raw.length := by
  obtain ⟨hraw, hwrite⟩ := plain_some hp
  obtain ⟨out, hout, hless⟩ := encode_use (a := el.aliasNum) hnone hlen hraw
  refine ⟨out, ?_, hless⟩
  rw [hwrite]
  unfold Conn.aliasPublish OutAliases.encode OutAliases.hit
  rw [hc]
  simp only [if_neg (Nat.not_lt.mpr hlen), hel, Option.map_some, hout]

end Run

/-- **The ledger of the aliases.** Whatever the client's Topic Alias Maximum of at least 1 and its
Maximum Packet Size, and whatever PUBLISH packets without an alias of their own are written: the
bytes written beyond the plain encodings are what was spent less what was saved, five for each alias
at most. A name that has an alias takes fewer bytes than its plain packet. From a moment on at which
the table is full, the difference is not above 5 or what it was then. -/
theorem alias_ledger (max : UInt16) (limit : UInt32) (ps : List Publish) (hmax : 1 ≤ max)
    (hps : ∀ p ∈ ps, p.properties.topicAlias = none) :
    let c := Conn.mk (some (newOutAliases max)) limit
    ∃ t, (c.writeAll ps).1 = ⟨some t, limit⟩ ∧
      c.excess ps = t.spent - t.saved ∧
      c.excess ps ≤ 5 * max.toNat ∧
      (∀ p raw, p.properties.topicAlias = none → minAliasedTopic ≤ p.topic.length →
        (t.byTopic p.topic).isSome → c.plain p = some raw →
        ∃ out, ((c.writeAll ps).1.writePublish p).2 = some out ∧ out.length < raw.length) ∧
      ∀ qs rs, ps = qs ++ rs → ∀ u, (c.writeAll qs).1.outAlias = some u → u.full = true →
        c.excess ps ≤ Max.max 5 (c.excess qs) := by
  intro c
  have hnew : Sound (newOutAliases max) :=
    ⟨⟨_, ok_new max⟩, UInt16.le_iff_toNat_le.mp hmax⟩
  have hzero : (newOutAliases max).owed = 0 := rfl
  obtain ⟨t, ht, ⟨⟨m, hok⟩, -⟩, hb⟩ := writeAll_balance (c := c) rfl hnew hps
  have hexact : c.excess ps = t.owed := by
    rw [hb.exact, hzero, Int.sub_zero]
  have hlen : t.order.length ≤ max.toNat := by
    have := hok.length
    rw [hb.max] at this
    exact this
  have hbound := hb.bound (by rw [hzero]; omega)
  refine ⟨t, ht, hexact, by omega, ?_, ?_⟩
  · intro p raw hnone hname hin hp
    obtain ⟨el, hel⟩ := Option.isSome_iff_exists.mp hin
    exact write_use (c := (c.writeAll ps).1) (by rw [ht]) hnone hname hel (by rw [ht]; exact hp)
  · rintro qs rs rfl u hu hfull
    have hqs : ∀ p ∈ qs, p.properties.topicAlias = none := fun p hp =>
      hps p (List.mem_append_left _ hp)
    have hrs : ∀ p ∈ rs, p.properties.topicAlias = none := fun p hp =>
      hps p (List.mem_append_right _ hp)
    obtain ⟨u', hu', hsu, hbu⟩ := writeAll_balance (c := c) rfl hnew hqs
    have heq : u' = u := by
      rw [hu'] at hu
      exact Option.some.inj hu
    subst heq
    obtain ⟨t', ht', -, hb'⟩ := writeAll_balance (c := (c.writeAll qs).1) hu hsu hrs
    have htt : t' = t := by
      rw [writeAll_append, ht', hu'] at ht
      exact Option.some.inj (congrArg Conn.outAlias ht)
    subst htt
    have hle := hb'.full hfull
    rw [hexact, hbu.exact, hzero, Int.sub_zero]
    exact hle

/-- One alias, which two names use in turn: three bytes spent and five saved for each. The table is
full from the first packet on. -/
theorem alias_ledger_remapped :
    let c := Conn.mk (some (newOutAliases 1)) 0
    c.excess twoNames = -4 ∧ (c.writeAll (twoNames.take 2)).1.outAlias.any OutAliases.full ∧
      c.excess twoNames ≤ Max.max 5 (c.excess (twoNames.take 2)) := by
  obtain ⟨-, -, -, -, -, hfull⟩ := alias_ledger 1 0 twoNames (by decide) (by decide)
  refine ⟨by decide, by decide, ?_⟩
  exact hfull (twoNames.take 2) (twoNames.drop 2) rfl _ rfl (by decide)

end Natsmqtt5.Wire.Alias
