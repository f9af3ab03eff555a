import Natsmqtt5.Topic.Filter
import Natsmqtt5.Topic.Publish
import Natsmqtt5.Lts

/-!
# Which topics a PUBLISH reaches

`handlePublish` (`publish.go`) asks the Authorizer about a Topic Name and publishes the message on
the name's subject. The subjects of clients and the broker's own lie in one space, and brokers
subscribe to parts of it and publish again what comes there: `ingest` (`ingest.go`) takes what is
published under `$ingest`, and `handlePlain` (`plainpublish.go`) takes from all subjects what has no
id. This puts them together: any number of brokers, each with its own options and one subject
prefix, any connections and their Topic Aliases, and all messages that come of a PUBLISH, each with
the Topic Name that the Authorizer allowed.

A write to JetStream or NATS is done, refused, or done without the caller being told. NATS gives a
message to a subscription whose subject matches; that one member of a queue group takes it is left
open. What answers a request (`_NATSMQTT5.reauthorize`, `$broker`, the reply of `handleIngest`)
publishes on the request's reply subject only, and a PUBLISH has none. The Packet Identifiers of QoS
2, the flush of `DurablePublish` and its ids for retries are not here.

Results:
* `published_elsewhere`: a client without `RestrictDollarTopics` publishes to `$ingest/a`, which the
  Authorizer allowed, and a broker with `NATSIngest` publishes it on `a` and retains it there.
* `published_on_its_topic`: in every run without such a PUBLISH, everything that comes of a PUBLISH
  is on the subject of the name that the Authorizer allowed, and is retained under that name.
-/

namespace Natsmqtt5.Topic

/-! ## Options and messages -/

/-- `Options`, as far as it decides where a message goes, with what the broker has. -/
structure Options where
  restrictDollarTopics : Bool := true
  escapeNATSWildcards : Bool := false
  natsIngest : Bool := false
  queuePlainPublishes : Bool := false
  maxQoS : QoS := .qos2
  retainAvailable : Bool := true
  /-- The offline queue is up. -/
  queue : Bool := true

/-- `newMessageID` is not empty. -/
abbrev MessageID := { id : Bytes // id ≠ [] }

/-- What a message was published for. -/
inductive Purpose
  | retained
  | queued
  | live
  deriving DecidableEq

/-- A message that a broker published. -/
structure Sent where
  purpose : Purpose
  subject : Bytes
  msg : Msg

/-- What a write comes to. -/
inductive Write
  | done
  | refused
  /-- It was done, and the caller has an error. -/
  | unanswered
  deriving DecidableEq

/-- The writes of one call, and the id of its message. -/
structure Env where
  store : Write
  keep : Write
  publish : Write
  id : MessageID

/-! ## Subjects -/

/-- `$ingest`. -/
def ingestLevel : Bytes := ascii ['$', 'i', 'n', 'g', 'e', 's', 't']

def retainedSubject (p subject : Bytes) : Bytes := prefixed p (retainedLevel ++ 46 :: subject)

def queuedSubject (p subject : Bytes) : Bytes := prefixed p (queueLevel ++ 46 :: subject)

def ingestSubject (p subject : Bytes) : Bytes := prefixed p (ingestLevel ++ 46 :: subject)

/-- The topic under which the retained store has a message of its stream (`apply`). -/
def retainedTopic (p subject : Bytes) : Option Bytes :=
  (trimPrefix p subject).bind fun s => (cutPrefix (retainedLevel ++ [46]) s).map subjectToName

/-! ## Publishing -/

/-- The write that failed. -/
inductive Failed
  | store
  | keep
  | publish
  deriving DecidableEq

/-- The message of a call that was or was not made. -/
def Write.sent (w : Write) (m : Sent) : List Sent := if w = .refused then [] else [m]

/-- What `handlePublish` and `publishThrough` do with a message: `retain.store`, `offlineQueue.keep`
and the live copy, each after the one before was confirmed. -/
def fanOut (p : Bytes) (o : Options) (env : Env) (subject : Bytes) (retain : Bool) (qos : QoS)
    (msg : Msg) : List Sent × Option Failed :=
  let stored := if retain then env.store.sent ⟨.retained, retainedSubject p subject, msg⟩ else []
  if retain ∧ env.store ≠ .done then (stored, some .store)
  else
    let keeps := o.queue ∧ qos ≠ .qos0
    let queued := if keeps then env.keep.sent ⟨.queued, queuedSubject p subject, msg⟩ else []
    if keeps ∧ env.keep ≠ .done then (stored ++ queued, some .keep)
    else
      (stored ++ queued ++ env.publish.sent ⟨.live, prefixed p subject, msg⟩,
        if env.publish = .done then none else some .publish)

/-- What the Authorizer answers. A broker without one allows everything. -/
inductive Answer
  | allow
  | deny
  | unavailable
  deriving DecidableEq

/-- The subject of a Topic Name that passed the checks and that the Authorizer allowed. -/
def authorizedSubject (o : Options) (answer : Answer) (name : Bytes) : Except ReasonCode Bytes :=
  match validateName name o.escapeNATSWildcards with
  | .error _ => .error .topicNameInvalid
  | .ok () =>
    if o.restrictDollarTopics && dollarName name then .error .topicNameInvalid
    else
      match answer with
      | .unavailable => .error .implementationSpecificError
      | .deny => .error .notAuthorized
      | .allow =>
        match nameToSubject name o.escapeNATSWildcards with
        | .error _ => .error .topicNameInvalid
        | .ok subject => .ok subject

/-- The code `handlePublish` rejects with. -/
def Failed.code : Failed → ReasonCode
  | .store => .unspecifiedError
  | .keep => .implementationSpecificError
  | .publish => .implementationSpecificError

inductive Outcome
  | accepted
  /-- `rejectPublish`. -/
  | rejected (code : ReasonCode)
  /-- `sendDisconnect`, and the connection ends. -/
  | disconnected (code : ReasonCode)
  deriving DecidableEq

/-- What `handlePublish` leaves. -/
structure Handled where
  outcome : Outcome
  aliases : UInt16 → Option Bytes
  /-- The Topic Name, once it is resolved. -/
  name : Bytes := []
  sent : List Sent := []

def handlePublish (p : Bytes) (o : Options) (topicAliasMax : UInt16)
    (aliases : UInt16 → Option Bytes) (clientID : Bytes) (answer : Answer) (env : Env)
    (pub : PublishPacket) : Handled :=
  match packetRefused o.maxQoS o.retainAvailable pub with
  | some fault => { outcome := .disconnected fault.code, aliases }
  | none =>
    match resolveAlias topicAliasMax aliases pub with
    | .error fault => { outcome := .disconnected fault.code, aliases }
    | .ok (aliases, name) =>
      match authorizedSubject o answer name with
      | .error code => { outcome := .rejected code, aliases, name }
      | .ok subject =>
        let out := fanOut p o env subject pub.retain pub.qos
          (toNATS clientID env.id pub.toPublish)
        { outcome := out.2.elim .accepted fun f => .rejected f.code
          aliases, name, sent := out.1 }

/-! ## Publishing again -/

/-- `publishThrough`, for the subject `suffix` without the prefix. -/
def publishThrough (p : Bytes) (o : Options) (env : Env) (m : Msg) (suffix : Bytes) : List Sent :=
  let name := subjectToName suffix
  match validateName name o.escapeNATSWildcards with
  | .error _ => []
  | .ok () =>
    let f := fromNATS m
    if dollarName name then []
    else if o.maxQoS.toNat < f.qos.toNat then []
    else if f.retain && !o.retainAvailable then []
    else if f.props.responseTopic ≠ [] ∧ hasWildcard f.props.responseTopic then []
    else
      match nameToSubject name o.escapeNATSWildcards with
      | .error _ => []
      | .ok subject =>
        (fanOut p o env subject f.retain f.qos
          (toNATS f.origin env.id ⟨f.qos, f.retain, f.props, m.data⟩)).1

/-- `ingest`, without its answer. -/
def ingest (p : Bytes) (o : Options) (env : Env) (m : Sent) : List Sent :=
  match cutPrefix (ingestSubject p []) m.subject with
  | none => []
  | some suffix => if suffix = [] then [] else publishThrough p o env m.msg suffix

/-- `wantsQueueCopy`. A message without headers has no QoS. -/
def wantsQueueCopy (p : Bytes) (m : Sent) : Bool :=
  if messageID m.msg ≠ [] then false
  else
    match atoi (m.msg.header.get .qos) with
    | none => false
    | some n =>
      if n < 1 ∨ 2 < n then false
      else
        match trimPrefix p m.subject with
        | none => false
        | some suffix => !dollarName suffix

def handlePlain (p : Bytes) (o : Options) (env : Env) (m : Sent) : List Sent :=
  if wantsQueueCopy p m then publishThrough p o env m.msg ((trimPrefix p m.subject).getD [])
  else []

/-! ## The system -/

/-- `sent` is everything that was published, each with the Topic Name of the PUBLISH it comes of. -/
structure State (κ : Type) where
  aliases : κ → UInt16 → Option Bytes
  sent : List (Sent × Bytes)

def State.fresh {κ : Type} : State κ where
  aliases := fun _ _ => none
  sent := []

inductive Act (β κ : Type)
  /-- `handlePublish` on broker `b`, for a PUBLISH of the connection `c`. -/
  | publish (b : β) (c : κ) (topicAliasMax : UInt16) (clientID : Bytes) (answer : Answer)
      (env : Env)
      (pub : PublishPacket)
  /-- NATS gives message `i` to the ingest subscription of `b`. -/
  | ingest (b : β) (i : Nat) (env : Env)
  /-- Or to the subscription of `b` for plain publishes. -/
  | plain (b : β) (i : Nat) (env : Env)

section Steps

variable {β κ : Type} [DecidableEq κ] (p : Bytes) (o : β → Options)

def step (s : State κ) : Act β κ → Option (State κ)
  | .publish b c topicAliasMax clientID answer env pub =>
    let h := handlePublish p (o b) topicAliasMax (s.aliases c) clientID answer env pub
    some { aliases := Function.update s.aliases c h.aliases
           sent := s.sent ++ h.sent.map (·, h.name) }
  | .ingest b i env =>
    match s.sent[i]? with
    | none => none
    | some (m, name) =>
      if (o b).natsIngest && natsMatch (ingestSubject p [62]) m.subject then
        some { s with sent := s.sent ++ (ingest p (o b) env m).map (·, name) }
      else none
  | .plain b i env =>
    match s.sent[i]? with
    | none => none
    | some (m, name) =>
      if (o b).queuePlainPublishes && natsMatch (prefixed p [62]) m.subject then
        some { s with sent := s.sent ++ (handlePlain p (o b) env m).map (·, name) }
      else none

/-! ## The condition -/

/-- A broker with `NATSIngest` would publish the name again, without its first level. -/
def Ingested (name : Bytes) : Prop :=
  ∃ b, (o b).natsIngest = true ∧ ∃ n ∈ cutPrefix (ingestLevel ++ [47]) name,
    (validateName n (o b).escapeNATSWildcards).toBool = true ∧ dollarName n = false

/-- No client of a broker without `RestrictDollarTopics` publishes to such a name. -/
def NotIngested (s : State κ) : Act β κ → Prop
  | .publish b c topicAliasMax _ _ _ pub =>
    (o b).restrictDollarTopics = false →
      ∀ r ∈ (resolveAlias topicAliasMax (s.aliases c) pub).toOption, ¬ Ingested o r.2
  | _ => True

instance [Fintype β] (name : Bytes) : Decidable (Ingested o name) :=
  inferInstanceAs (Decidable (∃ _, _ ∧ _))

instance [Fintype β] (s : State κ) (a : Act β κ) : Decidable (NotIngested o s a) := by
  unfold NotIngested
  split <;> infer_instance

end Steps

/-! ## What the functions publish -/

/-- The subject a message is published on for a purpose, of the live subject without the prefix. -/
def Purpose.at (p subject : Bytes) : Purpose → Bytes
  | .retained => retainedSubject p subject
  | .queued => queuedSubject p subject
  | .live => prefixed p subject

section Facts

variable {p subject name suffix : Bytes} {env : Env} {m : Sent} {o : Options} {msg : Msg}
  {answer : Answer} {escape : Bool}

theorem Write.mem_sent {w : Write} {x : Sent} (h : x ∈ w.sent m) : x = m := by
  unfold Write.sent at h
  split_ifs at h
  · cases h
  · exact List.mem_singleton.1 h

/-- Whatever fails, every copy is the same message, on the subject of its purpose. -/
theorem fanOut_sent {retain : Bool} {qos : QoS}
    (h : m ∈ (fanOut p o env subject retain qos msg).1) :
    m.msg = msg ∧ m.subject = m.purpose.at p subject := by
  have hstored : m ∈ (if retain then
      env.store.sent ⟨.retained, retainedSubject p subject, msg⟩ else []) →
      m.msg = msg ∧ m.subject = m.purpose.at p subject := by
    intro hm
    split_ifs at hm
    · rw [Write.mem_sent hm]
      exact ⟨rfl, rfl⟩
    · cases hm
  have hqueued : m ∈ (if o.queue ∧ qos ≠ .qos0 then
      env.keep.sent ⟨.queued, queuedSubject p subject, msg⟩ else []) →
      m.msg = msg ∧ m.subject = m.purpose.at p subject := by
    intro hm
    split_ifs at hm
    · rw [Write.mem_sent hm]
      exact ⟨rfl, rfl⟩
    · cases hm
  unfold fanOut at h
  dsimp only at h
  split at h
  · exact hstored h
  · split at h
    · exact (List.mem_append.1 h).elim hstored hqueued
    · rcases List.mem_append.1 h with h | h
      · exact (List.mem_append.1 h).elim hstored hqueued
      · rw [Write.mem_sent h]
        exact ⟨rfl, rfl⟩

theorem authorizedSubject_ok (h : authorizedSubject o answer name = .ok subject) :
    validateName name o.escapeNATSWildcards = .ok () ∧ answer = .allow ∧
      (o.restrictDollarTopics = true → dollarName name = false) ∧
      subject = convert name false o.escapeNATSWildcards := by
  unfold authorizedSubject at h
  split at h
  · cases h
  · rename_i hv
    split_ifs at h with hdollar
    cases answer with
    | unavailable => cases h
    | deny => cases h
    | allow =>
      dsimp only at h
      split at h <;> cases h
      rename_i subject' hs
      refine ⟨hv, rfl, fun hr => ?_, (nameToSubject_ok hs).2⟩
      simpa [hr] using hdollar

/-- Everything that `handlePublish` publishes is for the Topic Name it resolved and the Authorizer
allowed. -/
theorem handlePublish_sent {topicAliasMax : UInt16} {aliases : UInt16 → Option Bytes}
    {clientID : Bytes} {pub : PublishPacket}
    (h : m ∈ (handlePublish p o topicAliasMax aliases clientID answer env pub).sent) :
    ∃ r, resolveAlias topicAliasMax aliases pub = .ok r ∧
      (handlePublish p o topicAliasMax aliases clientID answer env pub).name = r.2 ∧
      validateName r.2 o.escapeNATSWildcards = .ok () ∧
      (o.restrictDollarTopics = true → dollarName r.2 = false) ∧
      messageID m.msg ≠ [] ∧
      m.subject = m.purpose.at p (convert r.2 false o.escapeNATSWildcards) := by
  unfold handlePublish at h ⊢
  split at h
  · cases h
  · split at h
    · cases h
    · rename_i aliases' name hr
      dsimp only at h ⊢
      split at h
      · cases h
      · rename_i subject hs
        obtain ⟨hv, -, hdollar, rfl⟩ := authorizedSubject_ok hs
        obtain ⟨hmsg, hat⟩ := fanOut_sent h
        refine ⟨(aliases', name), hr, ?_, hv, hdollar, ?_, hat⟩
        · rfl
        · rw [hmsg, messageID_toNATS]
          exact env.id.2

/-- `publishThrough` publishes only for a name it accepts. -/
theorem publishThrough_sent (h : m ∈ publishThrough p o env msg suffix) :
    validateName (subjectToName suffix) o.escapeNATSWildcards = .ok () ∧
      dollarName (subjectToName suffix) = false := by
  unfold publishThrough at h
  dsimp only at h
  split at h
  · cases h
  · rename_i hv
    split at h
    · cases h
    · rename_i hdollar
      exact ⟨hv, by simpa using hdollar⟩

theorem handlePlain_nil (h : messageID m.msg ≠ []) : handlePlain p o env m = [] := by
  have hw : wantsQueueCopy p m = false := by
    rw [wantsQueueCopy, if_pos h]
  rw [handlePlain, hw]
  rfl

/-! ## Subjects under a prefix -/

theorem cutPrefix_prefixed (p a s : Bytes) :
    cutPrefix (prefixed p a) (prefixed p s) = cutPrefix a s := by
  unfold prefixed
  split_ifs
  · rfl
  · simp [cutPrefix]

/-- The name of a subject under `$ingest`. -/
theorem cutPrefix_ingest
    (h : cutPrefix (ingestLevel ++ [46]) (convert name false escape) = some suffix) :
    cutPrefix (ingestLevel ++ [47]) name = some (subjectToName suffix) := by
  have hname := subjectToName_convert name escape
  rw [cutPrefix_eq_some h, List.append_assoc, List.singleton_append,
    subjectToName_level (by decide) (by decide)] at hname
  rw [← hname, cutPrefix_level]

/-- No name that is accepted has a subject under `$retained`. -/
theorem cutPrefix_retained (h : reserved name = false) :
    cutPrefix (retainedLevel ++ [46]) (convert name false escape) = none := by
  cases hc : cutPrefix (retainedLevel ++ [46]) (convert name false escape) with
  | none => rfl
  | some suffix =>
    have hname := subjectToName_convert name escape
    rw [cutPrefix_eq_some hc, List.append_assoc, List.singleton_append,
      subjectToName_level (by decide) (by decide)] at hname
    rw [reserved, ← hname, firstLevel_append (by decide)] at h
    cases h

end Facts

/-! ## The invariant -/

section Runs

variable {β κ : Type} [DecidableEq κ] {p name : Bytes} {o : β → Options} {m : Sent} {s : State κ}

/-- A message that comes of a PUBLISH to `name`. -/
structure Own (p : Bytes) (o : β → Options) (m : Sent) (name : Bytes) : Prop where
  id : messageID m.msg ≠ []
  subject : ∃ escape, m.subject = m.purpose.at p (convert name false escape)
  accepted : reserved name = false
  clear : ¬ Ingested o name

/-- What is under `$retained` is retained under the name. -/
theorem Own.retainedTopic {t : Bytes} (h : Own p o m name)
    (ht : retainedTopic p m.subject = some t) : t = name := by
  obtain ⟨escape, hs⟩ := h.subject
  rw [Topic.retainedTopic, hs] at ht
  cases hp : m.purpose with
  | retained =>
    rw [hp, Purpose.at, retainedSubject, trimPrefix_prefixed, Option.bind_some, cutPrefix_level,
      Option.map_some, subjectToName_convert] at ht
    exact (Option.some.inj ht).symm
  | queued =>
    rw [hp, Purpose.at, queuedSubject, trimPrefix_prefixed] at ht
    cases ht
  | live =>
    rw [hp, Purpose.at, trimPrefix_prefixed, Option.bind_some, cutPrefix_retained h.accepted] at ht
    cases ht

/-- A live copy is on the subject of the name. -/
theorem Own.live (h : Own p o m name) (hp : m.purpose = .live) :
    (trimPrefix p m.subject).map subjectToName = some name := by
  obtain ⟨escape, hs⟩ := h.subject
  rw [hs, hp, Purpose.at, trimPrefix_prefixed, Option.map_some, subjectToName_convert]

/-- Nothing that comes of it is ingested. -/
theorem Own.ingest_nil (h : Own p o m name) {b : β} {env : Env}
    (hb : (o b).natsIngest = true) : ingest p (o b) env m = [] := by
  obtain ⟨escape, hs⟩ := h.subject
  rw [ingest, hs]
  cases hp : m.purpose with
  | retained =>
    rw [Purpose.at, retainedSubject, ingestSubject, cutPrefix_prefixed]
    rfl
  | queued =>
    rw [Purpose.at, queuedSubject, ingestSubject, cutPrefix_prefixed]
    rfl
  | live =>
    rw [Purpose.at, ingestSubject, cutPrefix_prefixed]
    cases hc : cutPrefix (ingestLevel ++ [46]) (convert name false escape) with
    | none => rfl
    | some suffix =>
      dsimp only
      split_ifs with hsuffix
      · rfl
      · refine List.eq_nil_iff_forall_not_mem.2 fun x hx => ?_
        obtain ⟨hv, hdollar⟩ := publishThrough_sent hx
        exact h.clear ⟨b, hb, _, cutPrefix_ingest hc, by rw [hv]; rfl, hdollar⟩

/-- Every message that was published comes of the PUBLISH it is counted for. -/
def Inv (p : Bytes) (o : β → Options) (s : State κ) : Prop := ∀ x ∈ s.sent, Own p o x.1 x.2

omit [DecidableEq κ] in
theorem Inv.sent (h : Inv p o s) {new : List Sent}
    (hnew : ∀ m ∈ new, Own p o m name) (aliases : κ → UInt16 → Option Bytes) :
    Inv p o { aliases, sent := s.sent ++ new.map (·, name) } := by
  intro x hx
  rcases List.mem_append.1 hx with hx | hx
  · exact h x hx
  · obtain ⟨m, hm, rfl⟩ := List.mem_map.1 hx
    exact hnew m hm

/-- A name that starts with another byte is not under `$ingest`. -/
theorem not_ingested_of_not_dollar (h : dollarName name = false) : ¬ Ingested o name := by
  rintro ⟨b, -, n, hn, -⟩
  rw [cutPrefix_eq_some hn] at h
  cases h

theorem step_inv {t : State κ} {a : Act β κ} (h : Inv p o s) (hok : NotIngested o s a)
    (hs : step p o s a = some t) : Inv p o t := by
  cases a with
  | publish b c topicAliasMax clientID answer env pub =>
    cases hs
    refine h.sent (fun m hm => ?_) _
    obtain ⟨r, hr, hname, hv, hdollar, hid, hsubject⟩ := handlePublish_sent hm
    rw [hname]
    refine ⟨hid, ⟨_, hsubject⟩, validateName_not_reserved hv, ?_⟩
    cases hrestrict : (o b).restrictDollarTopics with
    | true => exact not_ingested_of_not_dollar (hdollar hrestrict)
    | false => exact hok hrestrict r (by rw [hr]; rfl)
  | ingest b i env =>
    simp only [step] at hs
    split at hs
    · cases hs
    · rename_i m name hm
      split_ifs at hs with hb
      cases hs
      have hown := h _ (List.mem_of_getElem? hm)
      rw [hown.ingest_nil (Bool.and_eq_true_iff.1 hb).1]
      exact h.sent (fun _ hx => absurd hx List.not_mem_nil) s.aliases
  | plain b i env =>
    simp only [step] at hs
    split at hs
    · cases hs
    · rename_i m name hm
      split_ifs at hs with hb
      cases hs
      have hown := h _ (List.mem_of_getElem? hm)
      rw [handlePlain_nil hown.id]
      exact h.sent (fun _ hx => absurd hx List.not_mem_nil) s.aliases

/-- **No publish reaches a topic the Authorizer was not asked about.** In every run in which no
client of a broker without `RestrictDollarTopics` publishes to a name that another broker ingests,
every live copy that comes of a PUBLISH is on the subject of the Topic Name that the Authorizer
allowed, and whatever is stored as retained is stored under that name. -/
theorem published_on_its_topic {s : State κ}
    (h : Lts.Reach (step p o) (NotIngested o) State.fresh s) (m : Sent) (name : Bytes)
    (hm : (m, name) ∈ s.sent) :
    (m.purpose = .live → (trimPrefix p m.subject).map subjectToName = some name) ∧
      ∀ t, retainedTopic p m.subject = some t → t = name := by
  have hinv : Inv p o s := h.invariant nofun fun _ _ _ =>
      step_inv
  have hown := hinv (m, name) hm
  exact ⟨hown.live, fun t ht => hown.retainedTopic ht⟩

end Runs

/-! ## A broker that takes what is published under `$ingest` -/

def mqtt : Bytes := ascii ['m', 'q', 't', 't']

/-- One broker: clients may publish under `$`, and it ingests. -/
def openBroker : Unit → Options := fun _ =>
  { restrictDollarTopics := false
    escapeNATSWildcards := true
    natsIngest := true
    queuePlainPublishes := true }

/-- All writes are done. -/
def allDone : Env := ⟨.done, .done, .done, ⟨[49], by decide⟩⟩

/-- A retained PUBLISH of QoS 1 to `name`. -/
def publishTo (name : List Char) : Act Unit Unit :=
  .publish () () 0 (ascii ['c']) .allow allDone 
    { topic := ascii name, qos := .qos1, retain := true, payload := [1] }

/-- A PUBLISH to `a/*`, and one under `$ingest` to a name that is not ingested. -/
def quietRun : List (Act Unit Unit) :=
  [publishTo ['a', '/', '*'], publishTo ['$', 'i', 'n', 'g', 'e', 's', 't', '/', '$', 'a'],
    .ingest () 5 allDone, .plain () 2 allDone]

theorem published_on_its_topic_quiet :
    ∃ s : State Unit, Lts.Reach (step mqtt openBroker) (NotIngested openBroker) State.fresh s ∧
      s.sent.length = 6 ∧
      ∀ m name, (m, name) ∈ s.sent →
        (m.purpose = .live → (trimPrefix mqtt m.subject).map subjectToName = some name) ∧
          ∀ t, retainedTopic mqtt m.subject = some t → t = name := by
  exact Lts.exists_reach_of quietRun (by decide) fun s hreach _ => published_on_its_topic hreach

/-- The Authorizer is asked about `$ingest/a`, and the message is published on `a` and retained
there. -/
theorem published_elsewhere :
    ∃ s : State Unit, Lts.Reach (step mqtt openBroker) Lts.free State.fresh s ∧
      ∃ live retained name, (live, name) ∈ s.sent ∧ (retained, name) ∈ s.sent ∧
        name = ascii ['$', 'i', 'n', 'g', 'e', 's', 't', '/', 'a'] ∧
        live.purpose = .live ∧
        (trimPrefix mqtt live.subject).map subjectToName = some (ascii ['a']) ∧
        retainedTopic mqtt retained.subject = some (ascii ['a']) := by
  obtain ⟨s, hreach, hs⟩ := Lts.reach_of_exec_any (step mqtt openBroker) Lts.free
    (State.fresh : State Unit)
    [publishTo ['$', 'i', 'n', 'g', 'e', 's', 't', '/', 'a'], .ingest () 2 allDone]
    (fun s => s.sent.any (fun x => x.2 = ascii ['$', 'i', 'n', 'g', 'e', 's', 't', '/', 'a'] ∧
        x.1.purpose = .live ∧ (trimPrefix mqtt x.1.subject).map subjectToName = some (ascii ['a']))
          &&
      s.sent.any (fun x => x.2 = ascii ['$', 'i', 'n', 'g', 'e', 's', 't', '/', 'a'] ∧
        retainedTopic mqtt x.1.subject = some (ascii ['a'])))
    (by decide)
  obtain ⟨hlive, hretained⟩ := Bool.and_eq_true_iff.1 hs
  obtain ⟨x, hx, hxl⟩ := List.any_eq_true.1 hlive
  obtain ⟨y, hy, hyr⟩ := List.any_eq_true.1 hretained
  obtain ⟨hxn, hxp, hxs⟩ := of_decide_eq_true hxl
  obtain ⟨hyn, hys⟩ := of_decide_eq_true hyr
  refine ⟨s, hreach, x.1, y.1, x.2, hx, ?_, hxn, hxp, hxs, hys⟩
  rw [hxn, ← hyn]
  exact hy

end Natsmqtt5.Topic
