import Natsmqtt5.Lts
import Natsmqtt5.Message

/-!
# The retained view follows the stream

`retain.go`: the retained messages live in a stream, one for each subject, and every broker keeps a
view of it in memory. The view has two writers: `apply`, which the ordered consumer calls with the
messages of the stream in sequence order, and `store`, which after its append is acknowledged
writes its own message into the view. The append and the update of the view are two steps, and any
number of `store` calls run on a broker.

`stream` is what was ever appended, in order; the sequence of a message is its place, from 1. The
stream holds the last message of a subject only, so the consumer may pass over a message that was
replaced before it was delivered (`skip`), and need not. `subjectToName` is the same function of the
same subject in both writers, so the subject is the key of the view. Expiry, `sweep` and `reconcile`
are not here.

Results:
* `view_converges`: when every message has been applied and every `store` has returned, the view of
  each broker is the last message of each topic, as long as `store` does not write a message into
  the view after a newer one of its topic was applied.
* `stale_view`: `store` looks at no sequence, so it does.
-/

namespace Natsmqtt5.Retain

open Function

/-! ## State -/

/-- `retained`, without `topicName`, the key it is kept under. -/
structure Retained where
  payload : Bytes
  qos : QoS
  props : Wire.Properties
  stored : Nat
  seq : Nat
  id : Bytes
  deriving DecidableEq

structure Tombstone where
  seq : Nat
  stored : Nat

/-- The view of a broker: `byTopic` and `tombstones`. -/
structure View (τ : Type) where
  byTopic : τ → Option Retained := fun _ => none
  tombstones : τ → Option Tombstone := fun _ => none

/-- A message of the stream. -/
structure Stored (τ : Type) where
  topic : τ
  msg : Msg
  time : Nat

/-- A call of `store` whose append was acknowledged. -/
structure Storing (τ : Type) where
  topic : τ
  p : Publish
  msg : Msg
  /-- `ack.Sequence`. -/
  seq : Nat

structure Broker (τ : Type) where
  view : View τ := {}
  /-- How many messages the consumer is past. -/
  consumed : Nat := 0
  storing : List (Storing τ) := []

structure State (τ κ : Type) where
  stream : List (Stored τ) := []
  broker : κ → Broker τ := fun _ => {}

variable {τ κ : Type}

/-! ## Steps -/

section Steps

variable [DecidableEq τ] [DecidableEq κ] {stream : List (Stored τ)} {t : τ} {m : Stored τ}
  {seq now : Nat} {v : View τ} {c : Storing τ} {k : Broker τ} {s : State τ κ}

/-- `newRetained`, with the stream's time and sequence. -/
def newRetained (m : Msg) (time seq : Nat) : Retained :=
  { payload := m.data, qos := (fromNATS m).qos, props := (fromNATS m).props, stored := time,
    seq := seq, id := messageID m }

/-- `apply`: the message at sequence `seq`. -/
def View.apply (v : View τ) (m : Stored τ) (seq : Nat) : View τ :=
  if m.msg.data = [] then
    { byTopic := update v.byTopic m.topic none
      tombstones := update v.tombstones m.topic (some ⟨seq, m.time⟩) }
  else
    { byTopic := update v.byTopic m.topic (some (newRetained m.msg m.time seq))
      tombstones := update v.tombstones m.topic none }

/-- The message `store` appends. `id` is its argument, `fresh` what `newMessageID` gave. -/
def storeMsg (originClientID id fresh : Bytes) (p : Publish) : Msg :=
  let m := toNATS originClientID fresh p
  if id = [] then m else { m with header := m.header.set .msgID id }

/-- The second half of `store`: the view has the message at once. -/
def View.store (v : View τ) (c : Storing τ) (now : Nat) : View τ :=
  if c.p.payload = [] then
    { byTopic := update v.byTopic c.topic none
      tombstones := update v.tombstones c.topic (some ⟨c.seq, now⟩) }
  else
    { byTopic := update v.byTopic c.topic (some
        { payload := c.p.payload, qos := c.p.qos, props := (fromNATS c.msg).props, stored := now,
          seq := c.seq, id := messageID c.msg })
      tombstones := update v.tombstones c.topic none }

inductive Act (τ κ : Type)
  /-- `store` appends; `acked` says that the acknowledgement reaches it. -/
  | append (b : κ) (topic : τ) (originClientID id fresh : Bytes) (p : Publish) (time : Nat)
      (acked : Bool)
  /-- The `i`th of the broker's calls of `store` updates the view and returns. -/
  | update (b : κ) (i now : Nat)
  /-- The consumer hands the next message to `apply`. -/
  | apply (b : κ)
  /-- The next message was replaced and is gone from the stream. -/
  | skip (b : κ)

def State.setBroker (s : State τ κ) (b : κ) (k : Broker τ) : State τ κ :=
  { s with broker := update s.broker b k }

def step (s : State τ κ) : Act τ κ → Option (State τ κ)
  | .append b topic originClientID id fresh p time acked =>
    let m := storeMsg originClientID id fresh p
    let k := s.broker b
    let call : Storing τ := ⟨topic, p, m, s.stream.length + 1⟩
    let s' := s.setBroker b { k with storing := if acked then k.storing ++ [call] else k.storing }
    some { s' with stream := s.stream ++ [⟨topic, m, time⟩] }
  | .update b i now =>
    let k := s.broker b
    match k.storing[i]? with
    | none => none
    | some c => some (s.setBroker b
        { k with view := k.view.store c now, storing := k.storing.eraseIdx i })
  | .apply b =>
    let k := s.broker b
    match s.stream[k.consumed]? with
    | none => none
    | some m => some (s.setBroker b
        { k with view := k.view.apply m (k.consumed + 1), consumed := k.consumed + 1 })
  | .skip b =>
    let k := s.broker b
    match s.stream[k.consumed]? with
    | none => none
    | some m =>
      if (s.stream.drop (k.consumed + 1)).any fun n => n.topic = m.topic then
        some (s.setBroker b { k with consumed := k.consumed + 1 })
      else none

/-! ## Statements -/

/-- The last message of a topic, with its sequence. -/
def lastFor (stream : List (Stored τ)) (t : τ) : Option (Stored τ × Nat) :=
  ((stream.zipIdx 1).filter fun p => p.1.topic = t).getLast?

/-- What a view has of a message: nothing, if it clears the topic. -/
def retainedOf (p : Stored τ × Nat) : Option Retained :=
  if p.1.msg.data = [] then none else some (newRetained p.1.msg p.1.time p.2)

/-- A retained message without the time it was stored, which the two writers take from two
clocks. -/
def Retained.unstamped (r : Retained) : Retained := { r with stored := 0 }

/-- The view of `t` is the message `p`: its payload, QoS, properties, id and sequence. -/
def View.Shows (v : View τ) (t : τ) (p : Option (Stored τ × Nat)) : Prop :=
  (v.byTopic t).map Retained.unstamped = (p.bind retainedOf).map Retained.unstamped

/-- The consumer has handed over the whole stream and every `store` has returned. -/
def State.Quiet (s : State τ κ) : Prop :=
  ∀ b, (s.broker b).consumed = s.stream.length ∧ (s.broker b).storing = []

/-- `store` updates the view only while the consumer has not passed a newer message of its topic. -/
def Ordered (s : State τ κ) : Act τ κ → Prop
  | .update b i _ => ∀ c ∈ (s.broker b).storing[i]?,
      ∀ m ∈ (s.stream.take (s.broker b).consumed).drop c.seq, m.topic ≠ c.topic
  | _ => True

/-! ## The last message of a topic -/

omit [DecidableEq κ] in
theorem lastFor_append (stream : List (Stored τ)) (m : Stored τ) (t : τ) :
    lastFor (stream ++ [m]) t =
      if m.topic = t then some (m, stream.length + 1) else lastFor stream t := by
  unfold lastFor
  rw [List.zipIdx_append, List.filter_append, List.getLast?_append]
  by_cases h : m.topic = t
  · simp [h, Nat.add_comm]
  · simp [h]

/-- It is in the stream, and later than every other of its topic. -/
theorem lastFor_spec (h : lastFor stream t = some (m, seq)) :
    1 ≤ seq ∧ stream[seq - 1]? = some m ∧ m.topic = t ∧
      ∀ j n, stream[j]? = some n → n.topic = t → j < seq := by
  induction stream using List.reverseRecOn with
  | nil => simp [lastFor] at h
  | append_singleton stream x ih =>
    rw [lastFor_append] at h
    split at h
    · rename_i hx
      obtain ⟨rfl, rfl⟩ := Prod.mk.inj (Option.some.inj h)
      refine ⟨Nat.le_add_left _ _, by simp, hx, fun j n hj _ => ?_⟩
      have := (List.getElem?_eq_some_iff.mp hj).1
      simpa using this
    · rename_i hx
      obtain ⟨hseq, hget, htopic, hmax⟩ := ih h
      have hlt := (List.getElem?_eq_some_iff.mp hget).1
      refine ⟨hseq, by rw [List.getElem?_append_left hlt, hget], htopic, fun j n hj hn => ?_⟩
      by_cases hjl : j < stream.length
      · rw [List.getElem?_append_left hjl] at hj
        exact hmax j n hj hn
      · have hle := (List.getElem?_eq_some_iff.mp hj).1
        have hj' : j = stream.length := by
          simp only [List.length_append, List.length_singleton] at hle
          omega
        subst hj'
        simp only [List.getElem?_concat_length, Option.some.injEq] at hj
        exact absurd (hj ▸ hn) hx

theorem lastFor_le (h : lastFor stream t = some (m, seq)) : seq ≤ stream.length := by
  obtain ⟨hseq, hget, -⟩ := lastFor_spec h
  have := (List.getElem?_eq_some_iff.mp hget).1
  omega

theorem lastFor_isSome {j : Nat} {n : Stored τ} (hj : stream[j]? = some n) :
    (lastFor stream n.topic).isSome = true := by
  unfold lastFor
  rw [List.getLast?_isSome]
  intro hnil
  have hmem : (n, j + 1) ∈ (stream.zipIdx 1).filter fun p => p.1.topic = n.topic := by
    rw [List.mem_filter, List.mk_mem_zipIdx_iff_le_and_getElem?_sub]
    simp [hj]
  rw [hnil] at hmem
  cases hmem

/-! ## The two writers -/

theorem View.shows_apply (v : View τ) (m : Stored τ) (seq : Nat) :
    (v.apply m seq).Shows m.topic (some (m, seq)) := by
  unfold Shows apply retainedOf
  by_cases h : m.msg.data = []
  · simp [h]
  · simp [h]

theorem View.apply_of_ne (h : t ≠ m.topic) : (v.apply m seq).byTopic t = v.byTopic t := by
  unfold apply
  split <;> exact update_of_ne h _ _

/-- What a call of `store` knows of the message it appended. -/
structure Storing.Ok (stream : List (Stored τ)) (c : Storing τ) : Prop where
  appended : ∃ time, stream[c.seq - 1]? = some ⟨c.topic, c.msg, time⟩
  pos : 1 ≤ c.seq
  data : c.msg.data = c.p.payload
  qos : (fromNATS c.msg).qos = c.p.qos

/-- The view `store` writes is the view `apply` writes. -/
theorem View.shows_store (h : c.Ok stream) (v : View τ) (now time : Nat) :
    (v.store c now).Shows c.topic (some (⟨c.topic, c.msg, time⟩, c.seq)) := by
  unfold Shows store retainedOf
  by_cases hp : c.p.payload = []
  · simp [hp, h.data]
  · simp [hp, h.data, newRetained, Retained.unstamped, h.qos]

theorem View.store_of_ne (h : t ≠ c.topic) : (v.store c now).byTopic t = v.byTopic t := by
  unfold store
  split <;> exact update_of_ne h _ _

theorem qos_storeMsg (originClientID id fresh : Bytes) (p : Publish) :
    (fromNATS (storeMsg originClientID id fresh p)).qos = p.qos := by
  unfold storeMsg
  simp only
  split
  · exact qos_fromNATS_toNATS _ _ _
  · rw [← qos_fromNATS_toNATS originClientID fresh p]
    simp only [fromNATS, Header.get,
      Header.values_set_of_ne (show HeaderKey.qos ≠ .msgID by decide)]

theorem data_storeMsg (originClientID id fresh : Bytes) (p : Publish) :
    (storeMsg originClientID id fresh p).data = p.payload := by
  unfold storeMsg toNATS
  simp only
  split <;> rfl

/-! ## The invariant -/

structure Broker.Ok (stream : List (Stored τ)) (k : Broker τ) : Prop where
  storing : ∀ c ∈ k.storing, c.Ok stream
  /-- What the consumer has handed over last for a topic is in the view, unless more is to come. -/
  shows : ∀ t m seq, lastFor stream t = some (m, seq) → seq ≤ k.consumed →
    k.view.Shows t (some (m, seq))
  absent : ∀ t, lastFor stream t = none → k.view.byTopic t = none

omit [DecidableEq τ] in
theorem Storing.Ok.append (h : c.Ok stream) (m : Stored τ) : c.Ok (stream ++ [m]) := by
  obtain ⟨time, hget⟩ := h.appended
  have hlt := (List.getElem?_eq_some_iff.mp hget).1
  exact ⟨⟨time, by rw [List.getElem?_append_left hlt, hget]⟩, h.pos, h.data, h.qos⟩

theorem Broker.Ok.append (h : k.Ok stream) (hle : k.consumed ≤ stream.length)
    (m : Stored τ) {calls : List (Storing τ)}
    (hcalls : ∀ c ∈ calls, c ∈ k.storing ∨ c.Ok (stream ++ [m])) :
    { k with storing := calls }.Ok (stream ++ [m]) := by
  refine ⟨fun c hc => ?_, fun t n seq hlast hseq => ?_, fun t hnone => ?_⟩
  · rcases hcalls c hc with hc | hc
    · exact (h.storing c hc).append m
    · exact hc
  · rw [lastFor_append] at hlast
    split at hlast
    · obtain ⟨-, rfl⟩ := Prod.mk.inj (Option.some.inj hlast)
      simp only at hseq
      omega
    · exact h.shows t n seq hlast hseq
  · rw [lastFor_append] at hnone
    split at hnone
    · cases hnone
    · exact h.absent t hnone

theorem Broker.Ok.apply (h : k.Ok stream) (hget : stream[k.consumed]? = some m) :
    { k with view := k.view.apply m (k.consumed + 1), consumed := k.consumed + 1 }.Ok stream := by
  refine ⟨h.storing, fun t n seq hlast hseq => ?_, fun t hnone => ?_⟩
  · by_cases ht : t = m.topic
    · subst ht
      obtain ⟨hpos, hn, -, hmax⟩ := lastFor_spec hlast
      have hlt := hmax _ _ hget rfl
      simp only at hseq
      obtain rfl : seq = k.consumed + 1 := by omega
      rw [Nat.add_sub_cancel, hget] at hn
      cases hn
      exact k.view.shows_apply m (k.consumed + 1)
    · have hold : seq ≤ k.consumed := by
        by_contra hnot
        simp only at hseq
        obtain rfl : seq = k.consumed + 1 := by omega
        obtain ⟨-, hn, htopic, -⟩ := lastFor_spec hlast
        rw [Nat.add_sub_cancel, hget] at hn
        cases hn
        exact ht htopic.symm
      have := h.shows t n seq hlast hold
      unfold View.Shows at this ⊢
      rwa [View.apply_of_ne ht]
  · have ht : t ≠ m.topic := by
      rintro rfl
      have := lastFor_isSome hget
      rw [hnone] at this
      cases this
    rw [View.apply_of_ne ht]
    exact h.absent t hnone

theorem Broker.Ok.skip (h : k.Ok stream) (hget : stream[k.consumed]? = some m)
    (hnew : ∃ n ∈ stream.drop (k.consumed + 1), n.topic = m.topic) :
    { k with consumed := k.consumed + 1 }.Ok stream := by
  refine ⟨h.storing, fun t n seq hlast hseq => h.shows t n seq hlast ?_, h.absent⟩
  by_contra hnot
  simp only at hseq
  obtain rfl : seq = k.consumed + 1 := by omega
  obtain ⟨-, hn, htopic, hmax⟩ := lastFor_spec hlast
  rw [Nat.add_sub_cancel, hget] at hn
  cases hn
  obtain ⟨n, hmem, hn⟩ := hnew
  obtain ⟨j, hj⟩ := List.getElem?_of_mem hmem
  rw [List.getElem?_drop] at hj
  have := hmax _ n hj (hn.trans htopic)
  omega

theorem Broker.Ok.update (h : k.Ok stream) {i : Nat} (hc : k.storing[i]? = some c)
    (hnew : ∀ m ∈ (stream.take k.consumed).drop c.seq, m.topic ≠ c.topic) :
    { k with view := k.view.store c now, storing := k.storing.eraseIdx i }.Ok stream := by
  have hok := h.storing c (List.mem_of_getElem? hc)
  obtain ⟨time, happ⟩ := hok.appended
  refine ⟨fun d hd => h.storing d (List.mem_of_mem_eraseIdx hd), fun t n seq hlast hseq => ?_,
    fun t hnone => ?_⟩
  · by_cases ht : t = c.topic
    · subst ht
      obtain ⟨hpos, hn, htopic, hmax⟩ := lastFor_spec hlast
      have hle := hmax _ _ happ rfl
      have hcpos := hok.pos
      -- a later message of the topic would be one the consumer has passed
      obtain rfl : seq = c.seq := by
        by_contra hne
        refine hnew n ?_ htopic
        rw [List.mem_iff_getElem?]
        refine ⟨seq - 1 - c.seq, ?_⟩
        rw [List.getElem?_drop, List.getElem?_take_of_lt (by simp only at hseq; omega)]
        rw [show c.seq + (seq - 1 - c.seq) = seq - 1 by omega, hn]
      rw [happ] at hn
      cases hn
      exact k.view.shows_store hok now time
    · have := h.shows t n seq hlast hseq
      unfold View.Shows at this ⊢
      rwa [View.store_of_ne ht]
  · have ht : t ≠ c.topic := by
      rintro rfl
      have := lastFor_isSome happ
      rw [hnone] at this
      cases this
    rw [View.store_of_ne ht]
    exact h.absent t hnone

def State.Ok (s : State τ κ) : Prop :=
  ∀ b, (s.broker b).consumed ≤ s.stream.length ∧ (s.broker b).Ok s.stream

theorem State.Ok.setBroker (h : s.Ok) {b : κ}
    (hle : k.consumed ≤ s.stream.length) (hk : k.Ok s.stream) : (s.setBroker b k).Ok := by
  intro d
  by_cases hd : d = b
  · subst hd
    simp only [State.setBroker, update_self]
    exact ⟨hle, hk⟩
  · simp only [State.setBroker, update_of_ne hd]
    exact h d

variable {t : State τ κ}

theorem append_ok (h : s.Ok) (b : κ) (topic : τ)
    (originClientID id fresh : Bytes) (p : Publish) (time : Nat) (acked : Bool)
    (hs : step s (.append b topic originClientID id fresh p time acked) = some t) : t.Ok := by
  cases hs
  intro d
  have hcall : Storing.Ok (s.stream ++ [⟨topic, storeMsg originClientID id fresh p, time⟩])
      ⟨topic, p, storeMsg originClientID id fresh p, s.stream.length + 1⟩ :=
    ⟨⟨time, by simp⟩, Nat.le_add_left _ _, data_storeMsg _ _ _ _, qos_storeMsg _ _ _ _⟩
  obtain ⟨hle, hok⟩ := h d
  by_cases hd : d = b
  · subst hd
    simp only [State.setBroker, update_self]
    refine ⟨by simp only [List.length_append]; omega, hok.append hle _ fun c hc => ?_⟩
    split at hc
    · rcases List.mem_append.mp hc with hc | hc
      · exact .inl hc
      · obtain rfl := List.mem_singleton.mp hc
        exact .inr hcall
    · exact .inl hc
  · simp only [State.setBroker, update_of_ne hd]
    exact ⟨by simp only [List.length_append]; omega, hok.append hle _ fun c hc => .inl hc⟩

theorem step_ok {a : Act τ κ} (h : s.Ok) (hord : Ordered s a) (hs : step s a = some t) : t.Ok := by
  cases a <;> simp only [step] at hs
  case append b topic origin id fresh p time acked =>
    exact append_ok h b topic origin id fresh p time acked hs
  case update b i now =>
    split at hs <;> cases hs
    rename_i c hc
    exact h.setBroker (h b).1 ((h b).2.update hc (hord c hc))
  case apply b =>
    split at hs <;> cases hs
    rename_i m hm
    exact h.setBroker (List.getElem?_eq_some_iff.mp hm).1 ((h b).2.apply hm)
  case skip b =>
    split at hs
    · cases hs
    · rename_i m hm
      split at hs <;> cases hs
      rename_i hnew
      refine h.setBroker (List.getElem?_eq_some_iff.mp hm).1 ((h b).2.skip hm ?_)
      simpa using hnew

/-- **The view converges.** In every run in which `store` writes no message into the view of a
broker whose consumer is past a newer one of the topic: once every consumer is at the end of the
stream and every `store` has returned, each broker's view of each topic is the last message appended
for it, or nothing if that one clears the topic. -/
theorem view_converges (s : State τ κ) (h : Lts.Reach step Ordered {} s) (hq : s.Quiet) (b : κ)
    (t : τ) : (s.broker b).view.Shows t (lastFor s.stream t) := by
  have hok : s.Ok := h.invariant
    (fun d => ⟨le_rfl, fun _ hc => absurd hc List.not_mem_nil, fun _ _ _ hlast => (nomatch hlast),
      fun _ _ => rfl⟩)
    fun u a v hu hord hs => step_ok hu hord hs
  obtain ⟨hcons, -⟩ := hq b
  cases hlast : lastFor s.stream t with
  | none =>
    unfold View.Shows
    rw [(hok b).2.absent t hlast]
    rfl
  | some p =>
    exact (hok b).2.shows t p.1 p.2 hlast (hcons ▸ lastFor_le hlast)

end Steps

/-! ## Runs -/

instance [DecidableEq τ] (s : State τ κ) (a : Act τ κ) : Decidable (Ordered s a) := by
  unfold Ordered
  split <;> infer_instance

/-- A retained QoS 1 message of one byte. -/
def byte (n : UInt8) : Publish := ⟨.qos1, true, {}, [n]⟩

/-- One broker stores two messages of a topic; the view takes them in order, and the consumer
delivers both when they are there. -/
def orderedRun : List (Act Unit Lts.Two) :=
  [.append .first () [] [] [1] (byte 7) 0 true, .append .first () [] [] [2] (byte 8) 1 true,
    .update .first 0 2, .apply .first, .update .first 0 3, .apply .first, .skip .second,
    .apply .second]

theorem view_converges_ordered :
    ∃ s : State Unit Lts.Two, Lts.Reach step Ordered {} s ∧ s.Quiet ∧
      ((s.broker .first).view.byTopic ()).map Retained.payload = some [8] ∧
      (s.broker .first).view.Shows () (lastFor s.stream ()) := by
  obtain ⟨s, hreach, hs⟩ := Lts.reach_of_exec_any step Ordered {} orderedRun
    (fun s => decide ((∀ b, (s.broker b).consumed = s.stream.length ∧
      (s.broker b).storing.length = 0) ∧
      ((s.broker .first).view.byTopic ()).map Retained.payload = some [8])) (by decide)
  obtain ⟨hq, hp⟩ := of_decide_eq_true hs
  have hq' : s.Quiet := fun b => ⟨(hq b).1, List.length_eq_zero_iff.mp (hq b).2⟩
  exact ⟨s, hreach, hq', hp, view_converges s hreach hq' .first ()⟩

/-- The first of two calls of `store` updates the view after the consumer has delivered both
messages. -/
def staleRun : List (Act Unit Unit) :=
  [.append () () [] [] [1] (byte 7) 0 true, .append () () [] [] [2] (byte 8) 1 true,
    .update () 1 2, .apply (), .apply (), .update () 0 3]

theorem stale_view :
    ∃ s : State Unit Unit, Lts.Reach step Lts.free {} s ∧ s.Quiet ∧
      ¬ (s.broker ()).view.Shows () (lastFor s.stream ()) := by
  obtain ⟨s, hreach, hs⟩ := Lts.reach_of_exec_any step Lts.free {} staleRun
    (fun s => decide (((s.broker ()).consumed = s.stream.length ∧
      (s.broker ()).storing.length = 0) ∧ ((s.broker ()).view.byTopic ()).map Retained.unstamped ≠
        ((lastFor s.stream ()).bind retainedOf).map Retained.unstamped)) (by decide)
  obtain ⟨⟨hcons, hcalls⟩, hne⟩ := of_decide_eq_true hs
  exact ⟨s, hreach, fun _ => ⟨hcons, List.length_eq_zero_iff.mp hcalls⟩, hne⟩

end Natsmqtt5.Retain
