import Mathlib.Data.List.Flatten
import Natsmqtt5.Wire.Items

/-!
# Properties reused in another packet

A `Properties` that was read in one context and is encoded in another: `encode` drops what is not
legal there, so that the peer need not refuse it. The one thing it does not look at is how often a
property comes: a PUBLISH may repeat the Subscription Identifier and a SUBSCRIBE may not.

Results:
* `reused_properties_accepted`: what is left of the properties is read back exactly when the context
  is no SUBSCRIBE that is given several Subscription Identifiers.
* `reused_identifiers_refused`: two Subscription Identifiers of a PUBLISH, written in a SUBSCRIBE,
  are refused.
-/

namespace Natsmqtt5.Wire

open Parse

/-- Dropping properties makes no longer body. -/
theorem Properties.length_body_le (p : Properties) (ctx : PType) :
    (p.body ctx).length ≤ (p.items.flatMap Item.put).length := by
  rw [body, items_legalIn]
  exact (List.filter_sublist.flatMap Item.put).length_le

/-- A SUBSCRIBE keeps every Subscription Identifier. -/
theorem Properties.legalIn_subscribe (p : Properties) :
    (p.legalIn .subscribe).subscriptionIdentifiers = p.subscriptionIdentifiers :=
  p.get_legalIn .subscribe .subscriptionID

/-- Properties read in one context and written in another are read back there, less what is not
legal, unless the other context is a SUBSCRIBE and they have several Subscription Identifiers. -/
theorem reused_properties_accepted (x y : PType) (input rest : Bytes) (p : Properties)
    (hread : (readProperties x).run input = .ok (p, rest)) :
    (∃ bs, p.encode y = .ok bs ∧
      ∀ more, (readProperties y).run (bs ++ more) = .ok (p.legalIn y, more)) ↔
    (y = .subscribe → p.subscriptionIdentifiers.length ≤ 1) := by
  obtain ⟨-, -, hlegal, -⟩ := readProperties_takes x input p rest hread
  obtain ⟨-, -, hlen⟩ := readProperties_length x input p rest hread
  constructor
  · rintro ⟨bs, -, hback⟩ rfl
    -- What a SUBSCRIBE accepts has one identifier at most.
    obtain ⟨-, -, -, -, hone, -⟩ := readProperties_takes .subscribe _ _ _ (hback [])
    rw [Properties.legalIn_subscribe] at hone
    exact hone rfl
  · intro hone
    refine ⟨p.bytes y, Properties.encode_ok hlegal y, ?_⟩
    exact readProperties_reads hlegal hone (Nat.le_trans (p.length_body_le y) hlen)

/-- The properties of a Will, written in a PUBLISH: the Will Delay Interval is left out, and the
Content Type stays. -/
theorem reused_properties_accepted_will :
    (readProperties .willContext).run [9, 0x18, 0, 0, 0, 5, 3, 0, 1, 97] =
      .ok ({ willDelayInterval := some 5, contentType := [97] }, []) ∧
    Properties.encode { willDelayInterval := some 5, contentType := [97] } .publish =
      .ok [4, 3, 0, 1, 97] ∧
    ∃ bs, Properties.encode { willDelayInterval := some 5, contentType := [97] } .publish = .ok bs ∧
      ∀ more, (readProperties .publish).run (bs ++ more) =
        .ok ({ contentType := [97] }, more) :=
  ⟨by decide, by decide, (reused_properties_accepted .willContext .publish
    [9, 0x18, 0, 0, 0, 5, 3, 0, 1, 97] [] _ (by decide)).2 (by decide)⟩

/-- A PUBLISH may repeat the Subscription Identifier; written in a SUBSCRIBE it is a Protocol
Error. -/
theorem reused_identifiers_refused :
    (readProperties .publish).run [4, 0x0B, 1, 0x0B, 2] =
      .ok ({ subscriptionIdentifiers := [1, 2] }, []) ∧
    Properties.encode { subscriptionIdentifiers := [1, 2] } .subscribe =
      .ok [4, 0x0B, 1, 0x0B, 2] ∧
    (readProperties .subscribe).run [4, 0x0B, 1, 0x0B, 2] =
      .error (.protocol (.propertyRepeated 0x0B)) := by
  refine ⟨by decide, by decide, by decide⟩

end Natsmqtt5.Wire
