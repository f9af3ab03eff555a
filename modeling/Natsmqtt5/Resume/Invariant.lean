import Natsmqtt5.Resume.Model

/-!
# What a handshake that resumes a session relies on

The record a session holds is what the bucket had at the session's revision (`Wrote`), and it lists
the filters the session serves or has yet to rebuild as long as they have not changed since it was
read or drawn up (`Kept`: every write says what the session is subscribed to). So a session that is
up to date when its handshake claims holds the very record the claim reads. From there on the
filters it serves and those it has yet to rebuild make up the record's (`Awaits`, `Rebuilds`). What
a displaced connection still rebuilds adds nothing to that (`Left`).

Results:
* `Inv.upToDate`: an up-to-date session holds the record a claim reads, which lists its filters.
* `Inv.setSession`, `Inv.setConn`, `Inv.wrote`: the changes of state that keep the invariant.
-/

namespace Natsmqtt5.Resume

open Function
open Store (Record StoredSubscription Live Kind Claim)

variable {κ : Type} {sess : Session κ} {p : Place} {h : Hs} {writes : List (Nat × Option Record)}
  {last rev : Nat} {r : Record}

/-! ## Filters -/

@[simp] theorem filters_nil : filters [] = ∅ := rfl

@[simp] theorem filters_cons (sub : StoredSubscription) (l : List StoredSubscription) :
    filters (sub :: l) = insert sub.filter (filters l) := by
  simp [filters]

theorem filters_remove (l : List StoredSubscription) (f : String) :
    filters (remove l f) = (filters l).erase f := by
  ext g
  simp only [filters, remove, List.mem_toFinset, List.mem_map, List.mem_filter, Finset.mem_erase,
    decide_eq_true_eq]
  constructor
  · rintro ⟨x, ⟨hx, hne⟩, rfl⟩
    exact ⟨hne, x, hx, rfl⟩
  · rintro ⟨hne, x, hx, rfl⟩
    exact ⟨x, ⟨hx, hne⟩, rfl⟩

theorem filters_install (l : List StoredSubscription) (sub : StoredSubscription) :
    filters (install l sub) = insert sub.filter (filters l) := by
  have : install l sub = sub :: remove l sub.filter := rfl
  rw [this, filters_cons, filters_remove]
  ext g
  simp only [Finset.mem_insert, Finset.mem_erase]
  tauto

theorem filters_subset_install (l : List StoredSubscription) (sub : StoredSubscription) :
    filters l ⊆ filters (install l sub) := by
  rw [filters_install]
  exact Finset.subset_insert _ _

/-- A filter the session has anyway adds none to it. -/
theorem allFilters_install {sub : StoredSubscription} (h : sub.filter ∈ sess.allFilters) :
    filters (install sess.subs sub) ∪ filters sess.unrestored = sess.allFilters := by
  rw [filters_install, Finset.insert_union]
  exact Finset.insert_eq_self.mpr h

/-! ## The invariant -/

/-- Revision `rev` left record `r` in the bucket, or the bucket has moved on from it. -/
def Wrote (writes : List (Nat × Option Record)) (last rev : Nat) (r : Record) : Prop :=
  (rev, some r) ∈ writes ∨ rev < last

/-- What a handshake that has not attached relies on. -/
structure Awaits (sess : Session κ) (h : Hs) : Prop where
  all : filters h.read.subscriptions = sess.allFilters
  stored : filters h.stored ⊆ filters h.read.subscriptions
  covers : filters h.read.subscriptions ⊆ filters sess.subs ∪ filters h.stored

/-- What one that has attached relies on, with `todo` to rebuild. -/
structure Rebuilds (sess : Session κ) (h : Hs) (todo : List StoredSubscription) : Prop where
  served : filters sess.subs ⊆ filters h.read.subscriptions
  listed : filters todo ⊆ filters h.read.subscriptions
  covers : filters h.read.subscriptions ⊆ filters sess.subs ∪ filters todo

/-- The record says what the session serves or has yet to rebuild, unless that has changed since. -/
structure Kept (sess : Session κ) : Prop where
  record : sess.saved = true → ∀ r, sess.record = some r →
    filters r.subscriptions = sess.allFilters
  write : sess.saving = true → ∀ w, sess.write = some w →
    filters w.record.subscriptions = sess.allFilters
  live : sess.saved = true ∨ sess.saving = true → sess.discarded = false

/-- Only what no flag speaks of has changed. -/
theorem Kept.of_eq {sess' : Session κ} (h : Kept sess)
    (hrec : sess'.saved = true → sess.saved = true ∧ sess'.record = sess.record)
    (hwrite : sess'.saving = true → sess.saving = true ∧
      ∀ w', sess'.write = some w' → ∃ w, sess.write = some w ∧ w'.record = w.record)
    (hall : sess.discarded = false → sess'.allFilters = sess.allFilters)
    (hdis : sess'.discarded = sess.discarded) : Kept sess' where
  record hs r hr := by
    obtain ⟨hs, he⟩ := hrec hs
    rw [hall (h.live (.inl hs))]
    exact h.record hs r (he ▸ hr)
  write hs w' hw' := by
    obtain ⟨hs, hw⟩ := hwrite hs
    obtain ⟨w, hw, he⟩ := hw w' hw'
    rw [hall (h.live (.inr hs)), he]
    exact h.write hs w hw
  live hs := hdis.trans (h.live (hs.imp (fun h => (hrec h).1) fun h => (hwrite h).1))

/-- What a connection between `attach` and the CONNACK, displaced or not, has left to rebuild. -/
structure Left (sess : Session κ) (c : κ) (todo : List StoredSubscription) : Prop where
  covers : sess.discarded = false →
    filters sess.unrestored ⊆ filters sess.subs ∪ filters todo
  listed : sess.conn = some c → sess.discarded = false → filters todo ⊆ sess.allFilters

/-- The record a place carries from its claim to `bindRecord`, with its revision. -/
def Place.carries : Place → Option (Record × Nat)
  | .making _ _ read rev _ => some (read, rev)
  | .binding h => some (h.read, h.rev)
  | _ => none

/-- The handshake of a place that has a session and has not attached. -/
def Place.hs : Place → Option Hs
  | .binding h => some h
  | .naming h => some h
  | .attaching h => some h
  | _ => none

/-- The handshake of a place from `newSession` on, and what was to be rebuilt then; nothing once it
has been. -/
def Place.owes : Place → Option (Hs × List StoredSubscription)
  | .binding h | .naming h | .attaching h | .registering h | .restoring h _ => some (h, h.stored)
  | .answering h | .serving h => some (h, [])
  | _ => none

/-- The session a place refers to. -/
def Place.names : Place → Option SessionID
  | .claiming _ sess => sess
  | .recreating _ sess => sess
  | .making _ sess _ _ _ => sess
  | .binding h => some h.sess
  | .naming h => some h.sess
  | .attaching h => some h.sess
  | .registering h => some h.sess
  | .restoring h _ => some h.sess
  | .answering h => some h.sess
  | .serving h => some h.sess
  | .ended h => some h.sess
  | _ => none

theorem Place.names_of_hs (hp : p.hs = some h) : p.names = some h.sess := by
  unfold Place.hs at hp
  split at hp <;> cases hp <;> rfl

theorem Place.names_of_pending {todo : List StoredSubscription}
    (hp : p.pending = some (h, todo)) : p.names = some h.sess := by
  unfold Place.pending at hp
  split at hp <;> cases hp <;> rfl

theorem Place.names_of_bound (hp : p.bound = some h) : p.names = some h.sess := by
  unfold Place.bound at hp
  split at hp <;> cases hp <;> rfl

theorem Place.awaits_of_hs (hp : p.hs = some h) : p.awaits = some h.sess := by
  unfold Place.hs at hp
  split at hp <;> cases hp <;> rfl

theorem Place.owes_of_hs (hp : p.hs = some h) : p.owes = some (h, h.stored) := by
  unfold Place.hs at hp
  split at hp <;> cases hp <;> rfl

theorem Place.names_of_awaits {i : SessionID} (hp : p.awaits = some i) : p.names = some i := by
  unfold Place.awaits at hp
  split at hp <;> first | exact hp | cases hp

theorem Place.names_of_owes {l : List StoredSubscription} (hp : p.owes = some (h, l)) :
    p.names = some h.sess := by
  unfold Place.owes at hp
  split at hp <;> cases hp <;> rfl

/-- What the place of connection `c` relies on. -/
structure PlaceOk (s : State κ) (c : κ) (k : Conn) : Prop where
  carries : ∀ r rev, k.place.carries = some (r, rev) → Wrote s.writes s.bucket.last rev r
  making : ∀ expiry i read rev present, k.place = .making expiry (some i) read rev present →
    filters read.subscriptions = (s.session i).allFilters
  awaits : ∀ h, k.place.hs = some h → h.resumed = true → Awaits (s.session h.sess) h
  pending : ∀ h todo, k.place.pending = some (h, todo) → k.closed = false →
    (s.session h.sess).conn = some c ∧ (h.resumed = true → Rebuilds (s.session h.sess) h todo)
  live : ∀ i, k.place.awaits = some i → (s.session i).discarded = false
  owes : ∀ h l, k.place.owes = some (h, l) →
    ((s.session h.sess).unrestored = [] ∨ (s.session h.sess).unrestored = l) ∧
      (h.resumed = false → l = [])
  left : ∀ h todo, k.place.pending = some (h, todo) → Left (s.session h.sess) c todo
  names : ∀ i, k.place.names = some i → i < s.nextSession

/-- What a session says of the bucket's writes, of which revision `last` is the newest. -/
structure SessionOk (writes : List (Nat × Option Record)) (last : Nat) (sess : Store.Bound) :
    Prop where
  record : ∀ r, sess.record = some r → Wrote writes last sess.rev r
  commits : ∀ gen r rev, sess.write = some (.committing gen r rev) → Wrote writes last rev r
  stores : ∀ gen r put rev, sess.write = some (.storing gen r put rev) →
    ∀ r', put = some r' → r' = r

/-- A session between two writes. -/
theorem SessionOk.noWrite {sess : Store.Bound}
    (h : SessionOk writes last sess) : SessionOk writes last { sess with write := none } :=
  ⟨h.record, nofun, nofun⟩

/-- A session whose write has begun: what it puts is what it will commit. -/
theorem SessionOk.storing {gen : Nat}
    {sess : Store.Bound} {put : Option Record} (h : SessionOk writes last sess)
    (hput : ∀ r', put = some r' → r' = r) :
    SessionOk writes last { sess with write := some (.storing gen r put rev) } :=
  ⟨h.record, nofun, (fun _ _ _ _ hw => by cases hw; exact hput)⟩

/-- A session whose write is done and not committed. -/
theorem SessionOk.committing {gen : Nat} {sess : Store.Bound} (h : SessionOk writes last sess)
    (hr : Wrote writes last rev r) :
    SessionOk writes last { sess with write := some (.committing gen r rev) } :=
  ⟨h.record, (fun _ _ _ hw => by cases hw; exact hr), nofun⟩

/-- What every state of a run has. -/
structure Inv (s : State κ) : Prop where
  bounded : ∀ w ∈ s.writes, w.1 ≤ s.bucket.last
  latest : ∀ r, (s.bucket.last, some r) ∈ s.writes → s.bucket.value = some r
  places : ∀ c, PlaceOk s c (s.conns c)
  sessions : ∀ i, SessionOk s.writes s.bucket.last (s.session i).toBound
  kept : ∀ i, Kept (s.session i)
  made : ∀ b i, s.registered b = some i → i < s.nextSession
  answers : ∀ a ∈ s.log, a.served = a.read

theorem inv_empty : Inv (State.empty : State κ) where
  bounded := nofun
  latest := nofun
  places c :=
    { carries := nofun
      making := nofun
      awaits := nofun
      pending := nofun
      live := nofun
      owes := nofun
      left := nofun
      names := fun i h => by cases h }
  sessions i :=
    { record := nofun
      commits := nofun
      stores := fun gen r put rev h => by cases h }
  kept _ := ⟨nofun, nofun, nofun⟩
  made := nofun
  answers := nofun

/-- An up-to-date session holds the record a claim reads. -/
theorem Inv.upToDate {s : State κ} (h : Inv s) {i now : Nat} (hup : s.UpToDate i now) :
    ∃ r, s.bucket.get = some (r, s.bucket.last) ∧ r.resumable now = true ∧
      filters r.subscriptions = (s.session i).allFilters := by
  obtain ⟨hrev, hsaved, r, hr, hres⟩ := hup
  refine ⟨r, ?_, hres, (h.kept i).record hsaved r hr⟩
  rw [Kv.Bucket.get_eq_some]
  refine ⟨?_, rfl⟩
  rcases (h.sessions i).record r hr with hw | hlt
  · rw [hrev] at hw
    exact h.latest r hw
  · omega

/-! ### Small changes -/

section Small

variable {s : State κ} {c : κ} {i : SessionID} {k : Conn}

theorem Inv.setConn [DecidableEq κ] (h : Inv s) (hk : PlaceOk s c k) : Inv (s.setConn c k) :=
  { h with
    places c' := by
      by_cases hc : c' = c
      · subst hc
        simp only [State.setConn, update_self]
        exact { hk with }
      · simp only [State.setConn, update_of_ne hc]
        exact { h.places c' with } }

/-- A place that relies on nothing but its session having been made. -/
theorem PlaceOk.idle (hcar : k.place.carries = none) (hhs : k.place.awaits = none)
    (hpend : k.place.pending = none) (howes : k.place.owes = none)
    (hnames : ∀ i, k.place.names = some i → i < s.nextSession) : PlaceOk s c k where
  carries r rev hr := by rw [hcar] at hr; cases hr
  making expiry i read rev present hp := by rw [hp] at hcar; cases hcar
  awaits h hh := by rw [Place.owes_of_hs hh] at howes; cases howes
  pending h todo hh := by rw [hpend] at hh; cases hh
  live i hi := by rw [hhs] at hi; cases hi
  owes h l hl := by rw [howes] at hl; cases hl
  left h todo hh := by rw [hpend] at hh; cases hh
  names := hnames

/-- A connection whose CONNACK is written. -/
theorem PlaceOk.serving {hs : Hs} (hk : PlaceOk s c k) (hp : k.place = .answering hs) :
    PlaceOk s c { k with place := .serving hs } where
  carries := nofun
  making := nofun
  awaits := nofun
  pending := nofun
  live := nofun
  owes h l hl := hk.owes h l (by rw [hp]; exact hl)
  left := nofun
  names i hi := hk.names i (by rw [hp]; exact hi)

/-- A connection that goes on before `attach`, with its record bound. -/
theorem PlaceOk.carryOn {k' : Conn} {hs : Hs} (hk : PlaceOk s c k) (hp : k.place.hs = some hs)
    (hcar : k'.place.carries = none) (hhs : k'.place.hs = some hs)
    (hpend : k'.place.pending = none) : PlaceOk s c k' where
  carries r rev hr := by rw [hcar] at hr; cases hr
  making expiry i read rev present hm := by rw [hm] at hcar; cases hcar
  awaits h hh := hk.awaits h (by rw [hp, ← hhs, hh])
  pending h todo hh := by rw [hpend] at hh; cases hh
  live i hi := hk.live i (by rw [Place.awaits_of_hs hp, ← Place.awaits_of_hs hhs, hi])
  owes h l hl := hk.owes h l (by rw [Place.owes_of_hs hp, ← Place.owes_of_hs hhs, hl])
  left h todo hh := by rw [hpend] at hh; cases hh
  names i hi := hk.names i (by rw [Place.names_of_hs hp, ← Place.names_of_hs hhs, hi])

/-- A connection that has attached and has `todo` to rebuild. -/
theorem PlaceOk.attached {hs : Hs} {todo : List StoredSubscription}
    (hp : k.place.pending = some (hs, todo)) (hname : hs.sess < s.nextSession)
    (howes : ∀ h l, k.place.owes = some (h, l) →
      ((s.session h.sess).unrestored = [] ∨ (s.session h.sess).unrestored = l) ∧
        (h.resumed = false → l = []))
    (hleft : Left (s.session hs.sess) c todo)
    (hok : k.closed = false → (s.session hs.sess).conn = some c ∧
      (hs.resumed = true → Rebuilds (s.session hs.sess) hs todo)) : PlaceOk s c k := by
  have hfree : k.place.carries = none ∧ k.place.hs = none ∧ k.place.awaits = none := by
    revert hp
    cases k.place <;> simp [Place.pending, Place.carries, Place.hs, Place.awaits]
  exact
    { carries := fun r rev hr => by rw [hfree.1] at hr; cases hr
      making := fun expiry i read rev present hm => by rw [hm] at hp; cases hp
      awaits := fun h hh => by rw [hfree.2.1] at hh; cases hh
      pending := fun h' todo' hh => by rw [hp] at hh; cases hh; exact hok
      live := fun i hi => by rw [hfree.2.2] at hi; cases hi
      owes := howes
      left := fun h' todo' hh => by rw [hp] at hh; cases hh; exact hleft
      names := fun i hi => by rw [Place.names_of_pending hp] at hi; cases hi; exact hname }

/-- Closing a connection asks less of it. -/
theorem Inv.close [DecidableEq κ] (h : Inv s) (c : κ) : Inv (s.close c) := by
  exact h.setConn { h.places c with pending := nofun }

theorem Inv.closeOpt [DecidableEq κ] (h : Inv s) (prev : Option κ) : Inv (s.closeOpt prev) := by
  cases prev with
  | none => exact h
  | some c => exact h.close c

theorem Inv.register (h : Inv s) (b : Broker) {i : Option SessionID}
    (hi : ∀ j, i = some j → j < s.nextSession) : Inv (s.register b i) :=
  { h with
    places c := { h.places c with }
    made b' j hj := by
      by_cases hb : b' = b
      · subst hb
        simp only [State.register, update_self] at hj
        exact hi j hj
      · simp only [State.register, update_of_ne hb] at hj
        exact h.made b' j hj }

theorem Wrote.wrote {last' : Nat}
    {w : Nat × Option Record} (h : Wrote writes last rev r) (hlt : last < last') :
    Wrote (writes ++ [w]) last' rev r := by
  rcases h with h | h
  · exact .inl (List.mem_append_left _ h)
  · exact .inr (h.trans hlt)

/-- A write to the bucket: it is the newest. -/
theorem Inv.wrote (h : Inv s) {b : Kv.Bucket Record} (hlt : s.bucket.last < b.last) :
    Inv (s.wrote b) where
  bounded w hw := by
    rcases List.mem_append.mp hw with hw | hw
    · exact (h.bounded w hw).trans hlt.le
    · rw [List.mem_singleton.mp hw]
      exact le_rfl
  latest r hr := by
    rcases List.mem_append.mp hr with hr | hr
    · exact absurd (h.bounded _ hr) (by simpa [State.wrote] using hlt)
    · exact (Prod.mk.inj (List.mem_singleton.mp hr)).2.symm
  places c :=
    { h.places c with carries := fun r rev hr => ((h.places c).carries r rev hr).wrote hlt }
  sessions i :=
    { record := fun r hr => ((h.sessions i).record r hr).wrote hlt
      commits := fun gen r rev hw => ((h.sessions i).commits gen r rev hw).wrote hlt
      stores := (h.sessions i).stores }
  kept := h.kept
  made := h.made
  answers := h.answers

/-- Changing a session. A handshake that waits for it must see the same filters in all, and no fewer
served; one that has attached must find what it relies on, and no more left to rebuild. -/
theorem Inv.setSession (h : Inv s) (hok : SessionOk s.writes s.bucket.last sess.toBound)
    (hkept : Kept sess)
    (hun : sess.unrestored = [] ∨ sess.unrestored = (s.session i).unrestored)
    (hwait : s.Waiting i → (s.session i).discarded = false →
      (sess.allFilters = (s.session i).allFilters ∧
        filters (s.session i).subs ⊆ filters sess.subs) ∧ sess.discarded = false)
    (hleft : ∀ c h todo, (s.conns c).place.pending = some (h, todo) → h.sess = i →
      Left (s.session i) c todo → Left sess c todo)
    (hpend : ∀ c h todo, (s.conns c).place.pending = some (h, todo) → h.sess = i →
      (s.conns c).closed = false →
        sess.conn = some c ∧ (h.resumed = true → Rebuilds sess h todo)) :
    Inv (s.setSession i sess) :=
  { h with
    places c := by
      have hk := h.places c
      have hw : ∀ j, (s.conns c).place.awaits = some j → j = i →
          (sess.allFilters = (s.session i).allFilters ∧
            filters (s.session i).subs ⊆ filters sess.subs) ∧ sess.discarded = false := by
        rintro j hj rfl
        exact hwait ⟨c, hj⟩ (hk.live j hj)
      refine ⟨hk.carries, ?_, ?_, ?_, ?_, ?_, ?_, hk.names⟩
      · intro expiry j read rev present hp
        by_cases hj : j = i
        · subst hj
          simp only [State.setSession, update_self]
          rw [(hw j (by rw [show (s.conns c).place = _ from hp]; rfl) rfl).1.1]
          exact hk.making expiry j read rev present hp
        · simp only [State.setSession, update_of_ne hj]
          exact hk.making expiry j read rev present hp
      · intro hs hhs hres
        have ha := hk.awaits hs hhs hres
        by_cases hj : hs.sess = i
        · obtain ⟨⟨hall, hsub⟩, -⟩ := hw hs.sess (Place.awaits_of_hs hhs) hj
          subst hj
          simp only [State.setSession, update_self]
          exact ⟨ha.all.trans hall.symm, ha.stored,
            ha.covers.trans (Finset.union_subset_union hsub (Finset.Subset.refl _))⟩
        · simp only [State.setSession, update_of_ne hj]
          exact ha
      · intro hs todo hp hopen
        by_cases hj : hs.sess = i
        · have := hpend c hs todo hp hj hopen
          subst hj
          simpa only [State.setSession, update_self] using this
        · simp only [State.setSession, update_of_ne hj]
          exact hk.pending hs todo hp hopen
      · intro j hj
        by_cases hji : j = i
        · have := (hw j hj hji).2
          subst hji
          simpa only [State.setSession, update_self] using this
        · simp only [State.setSession, update_of_ne hji]
          exact hk.live j hj
      · intro hs l hl
        obtain ⟨ho, hfresh⟩ := hk.owes hs l hl
        refine ⟨?_, hfresh⟩
        by_cases hj : hs.sess = i
        · subst hj
          simp only [State.setSession, update_self]
          rcases hun with hun | hun
          · exact .inl hun
          · rwa [hun]
        · simp only [State.setSession, update_of_ne hj]
          exact ho
      · intro hs todo hp
        have hl := hk.left hs todo hp
        by_cases hj : hs.sess = i
        · subst hj
          simp only [State.setSession, update_self]
          exact hleft c hs todo hp rfl hl
        · simp only [State.setSession, update_of_ne hj]
          exact hl
    sessions j := by
      by_cases hj : j = i
      · subst hj
        simp only [State.setSession, update_self]
        exact hok
      · simp only [State.setSession, update_of_ne hj]
        exact h.sessions j
    kept j := by
      by_cases hj : j = i
      · subst hj
        simp only [State.setSession, update_self]
        exact hkept
      · simp only [State.setSession, update_of_ne hj]
        exact h.kept j }

/-- Changing what no handshake relies on. -/
theorem Inv.setSession_quiet (h : Inv s) (hok : SessionOk s.writes s.bucket.last sess.toBound)
    (hkept : Kept sess) (hsubs : sess.subs = (s.session i).subs)
    (hun : sess.unrestored = (s.session i).unrestored) (hconn : sess.conn = (s.session i).conn)
    (hdis : sess.discarded = (s.session i).discarded) : Inv (s.setSession i sess) := by
  have hall : sess.allFilters = (s.session i).allFilters := by
    unfold Session.allFilters
    rw [hsubs, hun]
  refine h.setSession hok hkept (.inr hun)
    (fun _ hlive => ⟨⟨hall, by rw [hsubs]⟩, hdis.trans hlive⟩) (fun c hs todo _ _ hl => ?_)
    fun c hs todo hp hj hopen => ?_
  · refine ⟨fun hd => ?_, fun hc hd => ?_⟩
    · rw [hun, hsubs]
      exact hl.covers (hdis ▸ hd)
    · rw [hall]
      exact hl.listed (hconn ▸ hc) (hdis ▸ hd)
  · obtain ⟨hc, hr⟩ := (h.places c).pending hs todo hp hopen
    subst hj
    refine ⟨hconn.trans hc, fun hres => ?_⟩
    obtain ⟨h1, h2, h3⟩ := hr hres
    exact ⟨by rw [hsubs]; exact h1, h2, by rw [hsubs]; exact h3⟩

/-- Tearing a session down that no handshake waits for and no open one has attached to. -/
theorem Inv.tearDown (h : Inv s) (hwait : ¬ s.Waiting i)
    (hclosed : ∀ c h todo, (s.conns c).place.pending = some (h, todo) → h.sess = i →
      (s.conns c).closed = true) : Inv (s.setSession i (discard (s.session i))) := by
  refine h.setSession (h.sessions i) ⟨nofun, nofun, by rintro (h | h) <;> cases h⟩ (.inr rfl)
    (fun hw => absurd hw hwait) (fun _ _ _ _ _ _ => ⟨nofun, nofun⟩) fun c hs todo hp hj hopen => ?_
  rw [hclosed c hs todo hp hj] at hopen
  cases hopen

/-- The client changes its filters: no open handshake has attached to the session, and nothing is
left to rebuild in it. -/
theorem Inv.setSubs (h : Inv s) {hs : Hs} (subs : List StoredSubscription)
    (hp : (s.conns c).place = .serving hs) (hconn : (s.session hs.sess).conn = some c)
    (hok : s.Waiting hs.sess → filters subs ∪ filters (s.session hs.sess).unrestored =
      (s.session hs.sess).allFilters ∧ filters (s.session hs.sess).subs ⊆ filters subs) :
    Inv (s.setSession hs.sess ((s.session hs.sess).setSubs subs)) := by
  have hother : ∀ d h' todo, (s.conns d).place.pending = some (h', todo) →
      (s.session hs.sess).conn ≠ some d := by
    rintro d h' todo hd heq
    rw [hconn] at heq
    cases heq
    rw [hp] at hd
    cases hd
  have hdone : (s.session hs.sess).unrestored = [] :=
    ((h.places c).owes hs [] (by rw [hp]; rfl)).1.elim id id
  refine h.setSession (h.sessions hs.sess) ⟨nofun, nofun, by rintro (h | h) <;> cases h⟩ (.inr rfl)
    (fun hw hlive => ⟨hok hw, hlive⟩) (fun d h' todo hd _ _ => ⟨fun _ => ?_, fun hc => ?_⟩)
    fun d h' todo hd hi hopen => ?_
  · show filters (s.session hs.sess).unrestored ⊆ _
    rw [hdone]
    exact Finset.empty_subset _
  · exact absurd hc (hother d h' todo hd)
  · exact absurd (hi ▸ ((h.places d).pending h' todo hd hopen).1) (hother d h' todo hd)

end Small

end Natsmqtt5.Resume
