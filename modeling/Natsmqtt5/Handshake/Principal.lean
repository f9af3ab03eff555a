import Natsmqtt5.Handshake.OneConnection

/-!
# Who the Authorizer is asked about

The identity and User Name of a CONNECT are fields of the session (`setPrincipal`), written by a
handshake before it attaches, and `handlePublish` and `subscribeOne` read them from there for every
packet. This adds to the handshakes what each connection authenticated as, those fields, the packets
that connections handle (a displaced one goes on with what its socket had buffered) and the end of a
connection. `handleAuth` replaces the identity when a re-authentication ends with another one; it
reads the User Name from the session first.

Results:
* `asked_as_another`: two handshakes that resume one session set the principal in one order and
  attach in the other; the connection that stays attached is then asked about as the other one.
* `asked_as_itself`: in every run in which a handshake sets the principal, and a packet is handled,
  only while whoever else holds or is about to hold the session authenticated as the same principal,
  every request names the principal of the connection the packet was read from, and the session's
  principal is that of its connection.
-/

namespace Natsmqtt5.Handshake

open Function

variable {κ : Type} {i : SessionID} {p : Place κ}

/-- The session whose principal `setPrincipal` sets next. -/
def Place.namingOn : Place κ → Option SessionID
  | .naming _ i _ => some i
  | _ => none

/-- The session `attach` attaches to next. -/
def Place.attachingOn : Place κ → Option SessionID
  | .attaching i _ => some i
  | _ => none

/-- The session of a connection that reads packets. -/
def Place.connectedOn : Place κ → Option SessionID
  | .connected i _ => some i
  | _ => none

/-- The session a handshake has set the principal of. -/
def Place.named : Place κ → Option SessionID
  | .attaching i _ => some i
  | p => p.attached

/-- `negotiate` has returned. -/
def Place.returned : Place κ → Bool
  | .connected _ _ | .failed | .ended _ => true
  | _ => false

/-- A handshake that has not come to `setPrincipal`. -/
def Place.early : Place κ → Bool
  | .offline | .takingOver _ | .claiming _ _ _ | .making _ _ _ | .naming _ _ _ => true
  | _ => false

theorem Place.named_of_attachingOn (h : p.attachingOn = some i) : p.named = some i := by
  cases p <;> first | exact h | cases h

theorem Place.named_of_connectedOn (h : p.connectedOn = some i) : p.named = some i := by
  cases p <;> first | exact h | cases h

namespace Authz

/-! ## State -/

/-- `session.principal`: the identity the Authenticator named, and the User Name of the CONNECT. -/
structure Principal where
  identity : String := ""
  username : String := ""
  deriving DecidableEq

/-- The actions of an `AuthzRequest` made for a packet that was read. -/
inductive Action
  | publish
  | subscribe
  deriving DecidableEq

/-- An `AuthzRequest`, with the connection its packet was read from. -/
structure Request (κ : Type) where
  conn : κ
  action : Action
  principal : Principal
  /-- What the connection was authenticated as when it was made. -/
  own : Principal
  deriving DecidableEq

structure State (κ : Type) where
  hs : Handshake.State κ
  /-- `session.identity` and `session.username`. -/
  principal : SessionID → Principal
  /-- What the connection authenticated as, last. -/
  auth : κ → Principal
  /-- The User Name `handleAuth` has read from the session. -/
  reading : κ → Option String
  /-- `conn.finish` has run. -/
  finished : κ → Bool
  /-- The requests so far. -/
  asked : List (Request κ)
  /-- `conn.sess`, once the handshake has set the principal. -/
  sess : κ → Option SessionID
  /-- The connection a session lost last, and those that have set its principal since. -/
  setters : SessionID → List κ

/-- A broker that has not seen the client. -/
def State.fresh : State κ where
  hs := Handshake.State.fresh
  principal := fun _ => {}
  auth := fun _ => {}
  reading := fun _ => none
  finished := fun _ => false
  asked := []
  sess := fun _ => none
  setters := fun _ => []

/-! ## Steps -/

inductive Act (κ : Type)
  /-- A CONNECT was read and its client authenticated. -/
  | connect (c : κ) (p : Connect) (principal : Principal)
  /-- A step of a handshake other than the first and `setPrincipal`. -/
  | handshake (a : Handshake.Act κ)
  | setPrincipal (c : κ)
  /-- `handlePublish` or `subscribeOne` makes the request for a packet of `c`. -/
  | authorize (c : κ) (action : Action)
  /-- `handleAuth` of `c`, at the end of a re-authentication, reads the session's User Name. -/
  | reauthRead (c : κ)
  /-- Then it sets the principal to the new identity. -/
  | reauthSet (c : κ) (identity : String)
  /-- `conn.finish`, after the read loop or a handshake that failed: `c` is detached, at
  time `now`. -/
  | finish (c : κ) (now : Nat)
  /-- A session ends and leaves `Broker.sessions`. -/
  | release (i : SessionID)

/-- The handshake steps that `Act.handshake` stands for: `finish` has its own here. -/
def inner : Handshake.Act κ → Bool
  | .connect _ _ | .setPrincipal _ | .finish _ _ | .discard _ | .releaseSession _ => false
  | _ => true

variable [DecidableEq κ] {c : κ} {s : Handshake.State κ}

/-- The session a connection that handles packets serves. -/
def State.serving (s : State κ) (c : κ) : Option SessionID :=
  if s.finished c then none else (s.hs.conns c).place.connectedOn

def step (s : State κ) : Act κ → Option (State κ)
  | .connect c p principal =>
    (Handshake.step s.hs (.connect c p)).map fun hs =>
      { s with hs, auth := update s.auth c principal }
  | .handshake a =>
    if inner a then (Handshake.step s.hs a).map fun hs => { s with hs } else none
  | .setPrincipal c =>
    match (s.hs.conns c).place.namingOn with
    | none => none
    | some i =>
      (Handshake.step s.hs (.setPrincipal c)).map fun hs =>
        { s with
          hs
          principal := update s.principal i (s.auth c)
          sess := update s.sess c (some i)
          setters := update s.setters i (c :: s.setters i) }
  | .authorize c action =>
    (s.serving c).map fun i =>
      { s with asked := s.asked ++ [⟨c, action, s.principal i, s.auth c⟩] }
  | .reauthRead c =>
    (s.serving c).map fun i =>
      { s with reading := update s.reading c (some (s.principal i).username) }
  | .reauthSet c identity =>
    match s.serving c, s.reading c with
    | some i, some username =>
      if identity = "" ∨ identity = (s.auth c).identity then none
      else some { s with
        principal := update s.principal i ⟨identity, username⟩
        auth := update s.auth c ⟨identity, (s.auth c).username⟩
        reading := update s.reading c none
        setters := update s.setters i (c :: s.setters i) }
    | _, _ => none
  | .finish c now =>
    if s.finished c = false ∧ (s.hs.conns c).place.returned then
      (s.sess c).map fun i =>
        { s with
          hs := detach s.hs i c now
          finished := update s.finished c true
          setters :=
            if (s.hs.session i).conn = some c then update s.setters i [c] else s.setters }
    else none
  | .release i =>
    some { s with hs := releaseSession (s.hs.setSession i (discard (s.hs.session i))) i }

/-! ## The condition -/

/-- Whoever is attached to session `i`, or about to be, authenticated as `c` did. -/
def Agrees (s : State κ) (c : κ) (i : SessionID) : Prop :=
  ∀ d, ((s.hs.session i).conn = some d ∨ (s.hs.conns d).place.attachingOn = some i) →
    s.auth d = s.auth c

/-- While a packet of `c` is handled: also when no connection is attached any more, where it is
asked of the one the session lost last and of those that have set its principal since. -/
def MayAsk (s : State κ) (c : κ) (i : SessionID) : Prop :=
  Agrees s c i ∧ ((s.hs.session i).conn = none → ∀ d ∈ s.setters i, s.auth d = s.auth c)

/-- A step is taken only while nobody else's principal is in play. -/
def SamePrincipal (s : State κ) : Act κ → Prop
  | .setPrincipal c => ∀ i ∈ (s.hs.conns c).place.namingOn, Agrees s c i
  | .authorize c _ => ∀ i ∈ s.serving c, MayAsk s c i
  | .reauthRead c => ∀ i ∈ s.serving c, MayAsk s c i
  | .reauthSet c _ => ∀ i ∈ s.serving c, ∀ d,
      ((s.hs.session i).conn = some d ∨ (s.hs.conns d).place.attachingOn = some i) → d = c
  | _ => True

instance [Fintype κ] (s : State κ) (c : κ) (i : SessionID) : Decidable (Agrees s c i) :=
  inferInstanceAs (Decidable (∀ _, _ → _))

instance [Fintype κ] (s : State κ) (c : κ) (i : SessionID) : Decidable (MayAsk s c i) :=
  inferInstanceAs (Decidable (_ ∧ _))

instance [Fintype κ] (s : State κ) (a : Act κ) : Decidable (SamePrincipal s a) := by
  unfold SamePrincipal
  split <;> infer_instance

/-! ## What a handshake step does to the session's connection -/

/-- Nobody is attached anew, and no handshake comes to `setPrincipal` or passes it. -/
structure Quiet (s t : Handshake.State κ) : Prop where
  conn : ∀ i c, (t.session i).conn = some c → (s.session i).conn = some c
  attaching : ∀ d i, (t.conns d).place.attachingOn = some i → (s.conns d).place.attachingOn = some i
  named : ∀ d i, (t.conns d).place.named = some i → (s.conns d).place.named = some i
  early : ∀ d, (t.conns d).place.early = true → (s.conns d).place.early = true

/-- `c` is attached to session `i`. -/
structure AttachedTo (s t : Handshake.State κ) (c : κ) (i : SessionID) : Prop where
  was : (s.conns c).place.attachingOn = some i
  conn : ∀ j d, (t.session j).conn = some d → (j = i ∧ d = c) ∨ (s.session j).conn = some d
  attaching : ∀ d j, (t.conns d).place.attachingOn = some j → (s.conns d).place.attachingOn = some j
  named : ∀ d j, (t.conns d).place.named = some j → (s.conns d).place.named = some j
  early : ∀ d, (t.conns d).place.early = true → (s.conns d).place.early = true

/-- One handshake goes on without coming to an attach, and the others are where they were. -/
theorem Quiet.goto {s' : Handshake.State κ}
    (hconn : ∀ i d, (s'.session i).conn = some d → (s.session i).conn = some d)
    (hplace : ∀ d, (s'.conns d).place = (s.conns d).place) (ha : p.attachingOn = none)
    (hn : p.named = none ∨ p.named = (s.conns c).place.named)
    (he : p.early = false ∨ (s.conns c).place.early = true) : Quiet s (s'.goto c p) where
  conn := hconn
  attaching d i h := by
    rw [goto_place] at h
    split at h
    · rw [ha] at h
      cases h
    · rw [← hplace]
      exact h
  named d i h := by
    rw [goto_place] at h
    split at h
    · rename_i hd
      rcases hn with hn | hn
      · rw [hn] at h
        cases h
      · rw [hd, ← hn]
        exact h
    · rw [← hplace]
      exact h
  early d h := by
    rw [goto_place] at h
    split at h
    · rename_i hd
      rcases he with he | he
      · rw [he] at h
        cases h
      · rw [hd]
        exact he
    · rw [← hplace]
      exact h

theorem takeOver_conn (s : Handshake.State κ) (i j : SessionID) :
    ((takeOver s i).session j).conn = (s.session j).conn := by
  rw [takeOver]
  cases (s.session i).conn <;> rfl

omit [DecidableEq κ] in
theorem setSession_conn {sess : Session κ} (h : sess.conn = (s.session i).conn) (j : SessionID) :
    ((s.setSession i sess).session j).conn = (s.session j).conn := by
  by_cases hj : j = i
  · subst hj
    simp [Handshake.State.setSession, h]
  · simp [Handshake.State.setSession, hj]

omit [DecidableEq κ] in
theorem claimForResume_conn {sess sess' : Session κ} {now : Nat}
    (h : claimForResume sess now = some sess') : sess'.conn = sess.conn := by
  rw [claimForResume] at h
  split at h
  · cases h
  · split at h <;> cases h <;> rfl

theorem takeOverSession_conn (s : Handshake.State κ) (cleanStart : Bool) (now : Nat)
    (j : SessionID) :
    ((takeOverSession s cleanStart now).1.session j).conn = (s.session j).conn := by
  rw [takeOverSession]
  split
  · rfl
  · rename_i i hreg
    dsimp only
    split
    · have hd : (discard ((takeOver s i).session i)).conn = ((takeOver s i).session i).conn := rfl
      exact (setSession_conn hd j).trans (takeOver_conn s i j)
    · rename_i sess hsess
      split at hsess
      · cases hsess
      · exact (setSession_conn (claimForResume_conn hsess) j).trans (takeOver_conn s i j)

omit [DecidableEq κ] in
theorem newSession_conn (s : Handshake.State κ) (j : SessionID) (d : κ)
    (h : ((newSession s).1.session j).conn = some d) : (s.session j).conn = some d := by
  by_cases hj : j = s.nextSession
  · subst hj
    simp [newSession] at h
  · simpa [newSession, hj] using h

theorem close_conn (s : Handshake.State κ) (prev : Option κ) (j : SessionID) :
    ((s.closeOpt prev).session j).conn = (s.session j).conn := by
  cases prev <;> rfl

/-- A handshake step other than the first and `setPrincipal` is quiet, or is an attach. -/
theorem inner_step {t : Handshake.State κ} {a : Handshake.Act κ} (hin : inner a = true)
    (h : Handshake.step s a = some t) : Quiet s t ∨ ∃ c i, AttachedTo s t c i := by
  cases a <;> simp only [Handshake.step] at h
  case connect | setPrincipal | finish | discard | releaseSession => cases hin
  case takeOverSession c now =>
    split at h <;> cases h
    rename_i p hp
    refine .inl (Quiet.goto (fun i d hd => ?_) (takeOverSession_place s p.cleanStart now) rfl
      (.inl rfl)
      (.inr (by rw [hp]; rfl)))
    rwa [takeOverSession_conn] at hd
  case claim c present =>
    split at h
    · rename_i p sess resumed hp
      split at h <;> cases h
      · exact .inl (Quiet.goto (fun _ _ hd => hd) (close_place s c) rfl (.inl rfl) (.inl rfl))
      · exact .inl (Quiet.goto (fun _ _ hd => hd) (fun _ => rfl) rfl (.inl rfl)
          (.inr (by rw [hp]; rfl)))
    · cases h
  case newSession c =>
    split at h <;> cases h
    · rename_i p i resumed hp
      exact .inl (Quiet.goto (fun _ _ hd => hd) (fun _ => rfl) rfl (.inl rfl)
        (.inr (by rw [hp]; rfl)))
    · rename_i p resumed hp
      exact .inl (Quiet.goto (newSession_conn s) (fun _ => rfl) rfl (.inl rfl)
        (.inr (by rw [hp]; rfl)))
  case attach c =>
    split at h <;> cases h
    rename_i i resumed hp
    have hq : Quiet s (s.goto c (.displacing i resumed (Handshake.attach s i c).2)) :=
      Quiet.goto (fun _ _ hd => hd) (fun _ => rfl) rfl (.inr (by rw [hp]; rfl)) (.inl rfl)
    refine .inr ⟨c, i, by rw [hp]; rfl, fun j d hd => ?_, hq.attaching, hq.named, hq.early⟩
    by_cases hj : j = i
    · subst hj
      have hc : c = d := by
        simpa [Handshake.attach, Handshake.State.goto, Handshake.State.setSession] using hd
      exact .inl ⟨rfl, hc.symm⟩
    · right
      simpa [Handshake.attach, Handshake.State.goto, Handshake.State.setSession, hj] using hd
  case closePrev c =>
    split at h <;> cases h
    rename_i i resumed prev hp
    refine .inl (Quiet.goto (fun j d hd => ?_) (closeOpt_place s prev) rfl (.inr (by rw [hp]; rfl))
      (.inl rfl))
    rwa [close_conn] at hd
  case registerSession c =>
    split at h <;> cases h
    rename_i i resumed hp
    exact .inl (Quiet.goto (fun _ _ hd => hd) (fun _ => rfl) rfl (.inr (by rw [hp]; rfl))
      (.inl rfl))
  case resumeSubscriptions c ok =>
    split at h
    · rename_i i resumed hp
      split at h <;> cases h
      · exact .inl (Quiet.goto (fun _ _ hd => hd) (close_place s c) rfl (.inl rfl) (.inl rfl))
      · exact .inl (Quiet.goto (fun _ _ hd => hd) (fun _ => rfl) rfl (.inr (by rw [hp]; rfl))
          (.inl rfl))
    · cases h
  case connack c =>
    split at h
    · rename_i i resumed hp
      split at h <;> cases h
      · exact .inl (Quiet.goto (fun _ _ hd => hd) (fun _ => rfl) rfl (.inl rfl) (.inl rfl))
      · exact .inl (Quiet.goto (fun _ _ hd => hd) (fun _ => rfl) rfl (.inr (by rw [hp]; rfl))
          (.inl rfl))
    · cases h
  case close c =>
    cases h
    refine .inl ⟨fun _ _ hd => hd, fun d i hd => ?_, fun d i hd => ?_, fun d hd => ?_⟩
    · rwa [close_place] at hd
    · rwa [close_place] at hd
    · rwa [close_place] at hd

/-! ## The invariant -/

structure Inv (s : State κ) : Prop where
  /-- The session's principal is that of its connection. -/
  attached : ∀ i c, (s.hs.session i).conn = some c → s.principal i = s.auth c ∧ s.sess c = some i
  /-- And that of a connection about to be attached. -/
  attaching : ∀ c i, (s.hs.conns c).place.attachingOn = some i → s.principal i = s.auth c
  named : ∀ c i, (s.hs.conns c).place.named = some i → s.sess c = some i
  setters : ∀ i c, s.sess c = some i →
    ∃ d ∈ s.setters i, s.sess d = some i ∧ s.principal i = s.auth d
  early : ∀ c, (s.hs.conns c).place.early = true → s.sess c = none
  reading : ∀ c u, s.reading c = some u → u = (s.auth c).username ∧ s.sess c ≠ none
  asked : ∀ r ∈ s.asked, r.principal = r.own

omit [DecidableEq κ] in
theorem fresh_inv : Inv (State.fresh : State κ) where
  attached := nofun
  attaching := nofun
  named := nofun
  setters := nofun
  early _ _ := rfl
  reading := nofun
  asked := nofun

variable {s : State κ} {hs : Handshake.State κ}

omit [DecidableEq κ] in
/-- A change of the handshakes that attaches nobody. -/
theorem Inv.quiet (h : Inv s) (hq : Quiet s.hs hs) : Inv { s with hs } :=
  { h with
    attached i c hc := h.attached i c (hq.conn i c hc)
    attaching c i hc := h.attaching c i (hq.attaching c i hc)
    named c i hc := h.named c i (hq.named c i hc)
    early c hc := h.early c (hq.early c hc) }

omit [DecidableEq κ] in
/-- An attach names the principal that its handshake has set. -/
theorem Inv.attach (h : Inv s) (ha : AttachedTo s.hs hs c i) : Inv { s with hs } :=
  { h with
    attached j d hd := by
      rcases ha.conn j d hd with ⟨rfl, rfl⟩ | hold
      · exact ⟨h.attaching d j ha.was, h.named d j (Place.named_of_attachingOn ha.was)⟩
      · exact h.attached j d hold
    attaching d j hd := h.attaching d j (ha.attaching d j hd)
    named d j hd := h.named d j (ha.named d j hd)
    early d hd := h.early d (ha.early d hd) }

/-- A CONNECT is read on a connection that has set no principal. -/
theorem Inv.authenticate (h : Inv s) (hc : (s.hs.conns c).place.early = true) (pr : Principal) :
    Inv { s with auth := update s.auth c pr } := by
  have hauth {d : κ} (hd : s.sess d ≠ none) : update s.auth c pr d = s.auth d := by
    refine update_of_ne ?_ _ _
    rintro rfl
    exact hd (h.early d hc)
  have hauth' {i : SessionID} {d : κ} (hd : s.sess d = some i) :
      update s.auth c pr d = s.auth d := hauth (by rw [hd]; exact Option.some_ne_none i)
  refine ⟨fun i d hd => ?_, fun d i hd => ?_, h.named, fun i d hd => ?_, h.early, fun d u hu => ?_,
    h.asked⟩
  · obtain ⟨hp, hn⟩ := h.attached i d hd
    exact ⟨hp.trans (hauth' hn).symm, hn⟩
  · have hn := h.named d i (Place.named_of_attachingOn hd)
    exact (h.attaching d i hd).trans (hauth' hn).symm
  · obtain ⟨e, he, hn, hp⟩ := h.setters i d hd
    exact ⟨e, he, hn, hp.trans (hauth' hn).symm⟩
  · obtain ⟨hu, hn⟩ := h.reading d u hu
    exact ⟨hu.trans (congrArg Principal.username (hauth hn).symm), hn⟩

omit [DecidableEq κ] in
/-- While a packet of `c` is handled in such a run, the session's principal is `c`'s. -/
theorem Inv.principal_eq (h : Inv s) (hc : s.sess c = some i)
    (hm : MayAsk s c i) : s.principal i = s.auth c := by
  cases hconn : (s.hs.session i).conn with
  | some d =>
    rw [(h.attached i d hconn).1]
    exact hm.1 d (.inl hconn)
  | none =>
    obtain ⟨d, hd, -, hp⟩ := h.setters i c hc
    rw [hp]
    exact hm.2 hconn d hd

omit [DecidableEq κ] in
theorem serving_named (h : s.serving c = some i) : (s.hs.conns c).place.named = some i := by
  rw [State.serving] at h
  split at h
  · cases h
  · exact Place.named_of_connectedOn h

/-- A handshake sets the principal of a session that only its own principal is attached to. -/
theorem Inv.setPrincipal (h : Inv s) {r : Bool}
    (hc : (s.hs.conns c).place.early = true) (hag : Agrees s c i)
    (hconn : ∀ j, (hs.session j).conn = (s.hs.session j).conn)
    (hplace : ∀ d, (hs.conns d).place = if d = c then .attaching i r else (s.hs.conns d).place) :
    Inv { s with
      hs
      principal := update s.principal i (s.auth c)
      sess := update s.sess c (some i)
      setters := update s.setters i (c :: s.setters i) } := by
  have hnone : s.sess c = none := h.early c hc
  have hne {j : SessionID} {d : κ} (hd : s.sess d = some j) : d ≠ c := by
    rintro rfl
    cases hnone.symm.trans hd
  have hsess {j : SessionID} {d : κ} (hd : s.sess d = some j) :
      update s.sess c (some i) d = some j := by
    rwa [update_of_ne (hne hd)]
  have hprincipal {j : SessionID} {d : κ} (hd : s.principal j = s.auth d)
      (hj : j = i → s.auth d = s.auth c) :
      update s.principal i (s.auth c) j = s.auth d := by
    by_cases hji : j = i
    · subst hji
      rw [update_self, hj rfl]
    · rwa [update_of_ne hji]
  have hself : update s.principal i (s.auth c) i = s.auth c := update_self _ _ _
  have hcsess : update s.sess c (some i) c = some i := update_self _ _ _
  refine ⟨fun j d hd => ?_, fun d j hd => ?_, fun d j hd => ?_, fun j d hd => ?_, fun d hd => ?_,
    fun d u hu => ?_, h.asked⟩
  · have hd' : (s.hs.session j).conn = some d := (hconn j).symm.trans hd
    obtain ⟨hp, hn⟩ := h.attached j d hd'
    refine ⟨hprincipal hp fun hji => ?_, hsess hn⟩
    subst hji
    exact hag d (.inl hd')
  · have hd' : ((hs.conns d).place).attachingOn = some j := hd
    rw [hplace] at hd'
    split at hd'
    · rename_i hdc
      cases hd'
      rw [hdc]
      exact hself
    · refine hprincipal (h.attaching d j hd') fun hji => ?_
      subst hji
      exact hag d (.inr hd')
  · have hd' : ((hs.conns d).place).named = some j := hd
    rw [hplace] at hd'
    split at hd'
    · rename_i hdc
      cases hd'
      rw [hdc]
      exact hcsess
    · exact hsess (h.named d j hd')
  · by_cases hji : j = i
    · subst hji
      refine ⟨c, ?_, hcsess, hself⟩
      change c ∈ update s.setters j (c :: s.setters j) j
      rw [update_self]
      exact List.mem_cons_self
    · have hdc : d ≠ c := by
        rintro rfl
        exact hji (Option.some.inj (hd.symm.trans hcsess))
      have hd' : s.sess d = some j := (update_of_ne hdc _ _).symm.trans hd
      obtain ⟨e, he, hn, hp⟩ := h.setters j d hd'
      refine ⟨e, ?_, hsess hn, hprincipal hp fun h => absurd h hji⟩
      change e ∈ update s.setters i (c :: s.setters i) j
      rwa [update_of_ne hji]
  · have hd' : ((hs.conns d).place).early = true := hd
    rw [hplace] at hd'
    split at hd'
    · cases hd'
    · rename_i hdc
      exact (update_of_ne hdc _ _).trans (h.early d hd')
  · obtain ⟨hu, hn⟩ := h.reading d u hu
    refine ⟨hu, ?_⟩
    have hdc : d ≠ c := by
      rintro rfl
      exact hn hnone
    change update s.sess c (some i) d ≠ none
    rwa [update_of_ne hdc]

/-- A re-authentication of the session's only connection. -/
theorem Inv.reauth (h : Inv s) {identity username : String}
    (hc : s.sess c = some i) (hread : s.reading c = some username)
    (honly : ∀ d, ((s.hs.session i).conn = some d ∨ (s.hs.conns d).place.attachingOn = some i) →
      d = c) : Inv { s with
      principal := update s.principal i ⟨identity, username⟩
      auth := update s.auth c ⟨identity, (s.auth c).username⟩
      reading := update s.reading c none
      setters := update s.setters i (c :: s.setters i) } := by
  obtain ⟨hu, -⟩ := h.reading c username hread
  have hself : update s.principal i ⟨identity, username⟩ i =
      update s.auth c ⟨identity, (s.auth c).username⟩ c := by
    rw [update_self, update_self, hu]
  -- Of another session, neither the principal nor the connections that set it change.
  have hother {j : SessionID} {d : κ} (hj : j ≠ i) (hd : s.sess d = some j)
      (hp : s.principal j = s.auth d) :
      update s.principal i ⟨identity, username⟩ j =
        update s.auth c ⟨identity, (s.auth c).username⟩ d := by
    have hdc : d ≠ c := by
      rintro rfl
      exact hj (Option.some.inj (hd.symm.trans hc))
    rw [update_of_ne hj, update_of_ne hdc, hp]
  refine ⟨fun j d hd => ?_, fun d j hd => ?_, h.named, fun j d hd => ?_, h.early,
    fun d u hu => ?_, h.asked⟩
  · obtain ⟨hp, hn⟩ := h.attached j d hd
    refine ⟨?_, hn⟩
    by_cases hji : j = i
    · subst hji
      rw [honly d (.inl hd)]
      exact hself
    · exact hother hji hn hp
  · by_cases hji : j = i
    · subst hji
      rw [honly d (.inr hd)]
      exact hself
    · exact hother hji (h.named d j (Place.named_of_attachingOn hd)) (h.attaching d j hd)
  · by_cases hji : j = i
    · subst hji
      refine ⟨c, ?_, hc, hself⟩
      change c ∈ update s.setters j (c :: s.setters j) j
      rw [update_self]
      exact List.mem_cons_self
    · obtain ⟨e, he, hn, hp⟩ := h.setters j d hd
      refine ⟨e, ?_, hn, hother hji hn hp⟩
      change e ∈ update s.setters i (c :: s.setters i) j
      rwa [update_of_ne hji]
  · by_cases hdc : d = c
    · subst hdc
      change update s.reading d none d = some u at hu
      rw [update_self] at hu
      cases hu
    · change update s.reading c none d = some u at hu
      rw [update_of_ne hdc] at hu
      obtain ⟨hu, hn⟩ := h.reading d u hu
      refine ⟨hu.trans ?_, hn⟩
      change _ = (update s.auth c _ d).username
      rw [update_of_ne hdc]

theorem detach_quiet (s : Handshake.State κ) (i : SessionID) (c : κ) (now : Nat) :
    Quiet s (detach s i c now) := by
  rw [detach]
  split
  · refine ⟨fun j d hd => ?_, fun _ _ hd => hd, fun _ _ hd => hd, fun _ hd => hd⟩
    by_cases hj : j = i
    · subst hj
      simp [Handshake.State.setSession] at hd
    · simpa [Handshake.State.setSession, hj] using hd
  · exact ⟨fun _ _ hd => hd, fun _ _ hd => hd, fun _ _ hd => hd, fun _ hd => hd⟩

omit [DecidableEq κ] in
theorem release_quiet (s : Handshake.State κ) (i : SessionID) :
    Quiet s (releaseSession (s.setSession i (discard (s.session i))) i) := by
  refine ⟨fun j d hd => ?_, fun _ _ hd => hd, fun _ _ hd => hd, fun _ hd => hd⟩
  have hdiscard : (discard (s.session i)).conn = (s.session i).conn := rfl
  exact (setSession_conn hdiscard j).symm.trans hd

/-- The end of a connection: when it was attached, the principal it leaves is its own. -/
theorem Inv.finish (h : Inv s) (now : Nat) : Inv { s with
      hs := detach s.hs i c now
      finished := update s.finished c true
      setters :=
        if (s.hs.session i).conn = some c then update s.setters i [c]
        else s.setters } := by
  refine { h.quiet (detach_quiet s.hs i c now) with setters := fun j d hd => ?_ }
  obtain ⟨e, he, hn, hp⟩ := h.setters j d hd
  by_cases hc : (s.hs.session i).conn = some c
  · rw [if_pos hc]
    by_cases hj : j = i
    · subst hj
      obtain ⟨hpc, hcn⟩ := h.attached j c hc
      exact ⟨c, by simp, hcn, hpc⟩
    · refine ⟨e, ?_, hn, hp⟩
      change e ∈ update s.setters i [c] j
      rwa [update_of_ne hj]
  · rw [if_neg hc]
    exact ⟨e, he, hn, hp⟩

/-- Every step in which nobody else's principal is in play keeps the invariant. -/
theorem step_inv {t : State κ} {a : Act κ} (h : Inv s) (hok : SamePrincipal s a)
    (hs : step s a = some t) : Inv t := by
  cases a <;> simp only [step] at hs
  case connect c p pr =>
    obtain ⟨hs', hstep, rfl⟩ := Option.map_eq_some_iff.1 hs
    simp only [Handshake.step] at hstep
    split at hstep <;> cases hstep
    rename_i hp
    have hq : Quiet s.hs (s.hs.goto c (.takingOver p)) :=
      Quiet.goto (fun _ _ hd => hd) (fun _ => rfl) rfl (.inl rfl) (.inr (by rw [hp]; rfl))
    exact (h.authenticate (by rw [hp]; rfl) pr).quiet hq
  case handshake a =>
    split at hs
    · rename_i hin
      obtain ⟨hs', hstep, rfl⟩ := Option.map_eq_some_iff.1 hs
      rcases inner_step hin hstep with hq | ⟨c, i, ha⟩
      · exact h.quiet hq
      · exact h.attach ha
    · cases hs
  case setPrincipal c =>
    split at hs
    · cases hs
    · rename_i i hi
      obtain ⟨hs', hstep, rfl⟩ := Option.map_eq_some_iff.1 hs
      simp only [Handshake.step] at hstep
      split at hstep <;> cases hstep
      rename_i p j resumed hp
      have hji : j = i := by
        rw [hp] at hi
        exact Option.some.inj hi
      subst hji
      refine h.setPrincipal (r := resumed) (by rw [hp]; rfl) (hok j hi) (setSession_conn rfl)
        fun d => ?_
      exact goto_place _ c d _
  case authorize c action =>
    obtain ⟨i, hi, rfl⟩ := Option.map_eq_some_iff.1 hs
    have hp := h.principal_eq (h.named c i (serving_named hi)) (hok i hi)
    refine { h with asked := fun r hr => ?_ }
    rcases List.mem_append.1 hr with hr | hr
    · exact h.asked r hr
    · rw [List.mem_singleton.1 hr]
      exact hp
  case reauthRead c =>
    obtain ⟨i, hi, rfl⟩ := Option.map_eq_some_iff.1 hs
    have hn := h.named c i (serving_named hi)
    have hp := h.principal_eq hn (hok i hi)
    refine { h with reading := fun d u hu => ?_ }
    by_cases hdc : d = c
    · subst hdc
      change update s.reading d _ d = some u at hu
      rw [update_self] at hu
      cases hu
      refine ⟨congrArg Principal.username hp, ?_⟩
      rw [hn]
      exact Option.some_ne_none i
    · change update s.reading c _ d = some u at hu
      rw [update_of_ne hdc] at hu
      exact h.reading d u hu
  case reauthSet c identity =>
    split at hs
    · rename_i i username hi hread
      split at hs <;> cases hs
      exact h.reauth (h.named c i (serving_named hi)) hread (hok i hi)
    · cases hs
  case finish c now =>
    split at hs
    · obtain ⟨i, hi, rfl⟩ := Option.map_eq_some_iff.1 hs
      exact h.finish now
    · cases hs
  case release i =>
    cases hs
    exact h.quiet (release_quiet s.hs i)

/-! ## Runs -/

/-- In every run in which the principal is set, and packets are handled, only while nobody else's
principal is in play, the Authorizer is asked about the principal of the connection that sent the
packet. -/
theorem asked_as_itself {s : State κ} (h : Lts.Reach step SamePrincipal State.fresh s) :
    (∀ r ∈ s.asked, r.principal = r.own) ∧
      ∀ i c, (s.hs.session i).conn = some c → s.principal i = s.auth c := by
  have hinv : Inv s := h.invariant fresh_inv fun _ _ _ => step_inv
  exact ⟨hinv.asked, fun i c hc => (hinv.attached i c hc).1⟩

/-- A handshake of `c` up to `setPrincipal`, for a CONNECT that resumes. -/
def toPrincipal (c : κ) (principal : Principal) : List (Act κ) :=
  [.connect c ⟨false, 60⟩ principal, .handshake (.takeOverSession c 0),
    .handshake (.claim c (some false)), .handshake (.newSession c)]

/-- From `attach` to the CONNACK. -/
def fromAttach (c : κ) : List (Act κ) :=
  [.handshake (.attach c), .handshake (.closePrev c), .handshake (.registerSession c),
    .handshake (.resumeSubscriptions c true), .handshake (.connack c)]

def alice : Principal := ⟨"alice", "a"⟩

def bob : Principal := ⟨"bob", "b"⟩

/-- One client at a time: the second connects with another principal once the first has ended. -/
def inTurnRun : List (Act Lts.Two) :=
  toPrincipal .first alice ++ [.setPrincipal .first] ++ fromAttach .first ++
    [.authorize .first .publish, .finish .first 1] ++
    toPrincipal .second bob ++ [.setPrincipal .second] ++ fromAttach .second ++
    [.authorize .second .subscribe]

theorem asked_as_itself_inTurn :
    ∃ s : State Lts.Two, Lts.Reach step SamePrincipal State.fresh s ∧
      (s.hs.session 0).conn = some .second ∧ s.principal 0 = s.auth .second ∧
      s.auth .second = bob ∧ s.asked.map Request.own = [alice, bob] ∧
      ∀ r ∈ s.asked, r.principal = r.own := by
  obtain ⟨s, hreach, hs⟩ := Lts.reach_of_exec_any step SamePrincipal State.fresh inTurnRun
    (fun s => decide ((s.hs.session 0).conn = some .second ∧ s.auth .second = bob ∧
      s.asked.map Request.own = [alice, bob]))
    (by decide)
  obtain ⟨hconn, hauth, hasked⟩ := of_decide_eq_true hs
  obtain ⟨hown, hprincipal⟩ := asked_as_itself hreach
  exact ⟨s, hreach, hconn, hprincipal 0 .second hconn, hauth, hasked, hown⟩

/-- Two handshakes resume one session: `1` sets the principal first and attaches last. -/
def crossedRun : List (Act (Fin 3)) :=
  toPrincipal 0 alice ++ [.setPrincipal 0] ++ fromAttach 0 ++
    toPrincipal 1 alice ++ toPrincipal 2 bob ++ [.setPrincipal 1, .setPrincipal 2] ++
    fromAttach 2 ++ fromAttach 1 ++ [.authorize 1 .publish]

/-- The connection that stays attached is asked about as the one it displaced. -/
theorem asked_as_another :
    ∃ s : State (Fin 3), Lts.Reach step Lts.free State.fresh s ∧
      (s.hs.session 0).conn = some 1 ∧ s.auth 1 = alice ∧ s.principal 0 = bob ∧
      s.asked = [⟨1, .publish, bob, alice⟩] := by
  exact Lts.exists_reach crossedRun (by decide)

end Authz

end Natsmqtt5.Handshake
