import Natsmqtt5.Wire.RoundTrip

/-!
# The encoding of any PUBLISH

What `encode` makes of a PUBLISH, legal or not: `Encodable` says which have an encoding.

Results:
* `encode_publish_iff`: when a PUBLISH has an encoding, and which.
-/

namespace Natsmqtt5.Wire

variable {ctx : PType} {bs : Bytes} {p : Properties}

theorem putItems_ok_iff {its : List Item} :
    putItems ctx its = .ok bs ↔ (∀ it ∈ its, it.id.checkEncode it.val = .ok ()) ∧
      bs = (its.filter fun it => it.id.allowedIn ctx).flatMap Item.put := by
  constructor
  · intro h
    have hall : ∀ it ∈ its, it.id.checkEncode it.val = .ok () := by
      induction its generalizing bs with
      | nil => exact List.forall_mem_nil _
      | cons it its ih =>
        unfold putItems at h
        cases hc : it.id.checkEncode it.val with
        | error e =>
          rw [hc] at h
          cases h
        | ok u =>
          rw [hc] at h
          cases hr : putItems ctx its with
          | error e =>
            rw [hr] at h
            cases h
          | ok rest => exact List.forall_mem_cons.mpr ⟨hc, ih hr⟩
    rw [putItems_ok hall] at h
    exact ⟨hall, (Except.ok.inj h).symm⟩
  · rintro ⟨hall, rfl⟩
    exact putItems_ok hall

/-- The values `encode` refuses none of. -/
def Checked (p : Properties) : Prop := ∀ id, ∀ v ∈ p.get id, id.checkEncode v = .ok ()

theorem checked_iff : Checked p ↔ ∀ it ∈ p.items, it.id.checkEncode it.val = .ok () := by
  constructor
  · intro h it hit
    exact h it.id it.val (Properties.mem_items.1 hit)
  · intro h id v hv
    exact h ⟨id, v⟩ (Properties.mem_items.2 hv)

theorem encode_properties_iff : p.encode ctx = .ok bs ↔ Checked p ∧ bs = p.bytes ctx := by
  rw [checked_iff]
  unfold Properties.encode
  cases hput : putItems ctx p.items with
  | error e =>
    constructor
    · intro h
      cases h
    · rintro ⟨hall, -⟩
      rw [putItems_ok hall] at hput
      cases hput
  | ok body =>
    obtain ⟨hall, rfl⟩ := putItems_ok_iff.mp hput
    rw [Properties.bytes, Properties.body, Properties.items_legalIn]
    constructor
    · intro h
      exact ⟨hall, (Except.ok.inj h).symm⟩
    · rintro ⟨-, rfl⟩
      rfl

/-- The PUBLISH packets that have an encoding. -/
structure Encodable (p : Publish) : Prop where
  qos : qosValid p.qos = true
  topic : p.topic.length ≤ 65535
  properties : Checked p.properties
  fits : p.bytes.length ≤ maxVarByteInt

/-- A step and what follows it. -/
theorem bind_ok_iff {α β : Type} {x : Except Err α} {f : α → Except Err β} {b : β} :
    (x >>= f) = .ok b ↔ ∃ a, x = .ok a ∧ f a = .ok b := by
  cases x with
  | error e =>
    constructor
    · intro h
      cases h
    · rintro ⟨a, ha, -⟩
      cases ha
  | ok a =>
    constructor
    · intro h
      exact ⟨a, rfl, h⟩
    · rintro ⟨a', ha, hf⟩
      cases ha
      exact hf

theorem encode_publish_iff {raw : Bytes} {p : Publish} :
    Wire.encode (.publish p) = .ok raw ↔ Encodable p ∧ raw = (Packet.publish p).frame := by
  have hbody : ∀ r, p.encode = .ok r ↔ (qosValid p.qos = true ∧ p.topic.length ≤ 65535 ∧
      Checked p.properties) ∧ r = (publishFlags p.dup p.qos p.retain, p.bytes) := by
    intro r
    unfold Publish.encode
    constructor
    · intro h
      obtain ⟨_, hq, h⟩ := bind_ok_iff.mp h
      obtain ⟨_, ht, h⟩ := bind_ok_iff.mp h
      obtain ⟨props, hp, h⟩ := bind_ok_iff.mp h
      obtain ⟨hprops, rfl⟩ := encode_properties_iff.mp hp
      have hqos : qosValid p.qos = true := by simpa using refuse_ok.mp hq
      exact ⟨⟨hqos, checkLen_ok.mp ht, hprops⟩, (Except.ok.inj h).symm⟩
    · rintro ⟨⟨hq, ht, hp⟩, rfl⟩
      rw [refuse_ok.2 (by rw [hq]; rfl), checkLen_ok.2 ht, encode_properties_iff.mpr ⟨hp, rfl⟩]
      rfl
  unfold Wire.encode
  constructor
  · intro h
    obtain ⟨r, hr, h⟩ := bind_ok_iff.mp h
    obtain ⟨⟨hq, ht, hp⟩, rfl⟩ := (hbody r).mp hr
    obtain ⟨_, hb, h⟩ := bind_ok_iff.mp h
    have hfits : ¬ maxVarByteInt < p.bytes.length := of_decide_eq_false (refuse_ok.mp hb)
    exact ⟨⟨hq, ht, hp, Nat.not_lt.mp hfits⟩, (Except.ok.inj h).symm⟩
  · rintro ⟨he, rfl⟩
    refine bind_ok_iff.mpr ⟨_, (hbody _).mpr ⟨⟨he.qos, he.topic, he.properties⟩, rfl⟩, ?_⟩
    rw [refuse_ok.2 (decide_eq_false (Nat.not_lt.mpr he.fits))]
    rfl

end Natsmqtt5.Wire
