import Natsmqtt5.Base64
import Natsmqtt5.Message.Forwarded

/-!
# The SCRAM exchange

`scram.go`: a client names its user in a client-first-message, the broker answers with the salt and
iteration count of the user's credential, and the client-final-message proves that the client knows
the password without sending it. HMAC, the hash and PBKDF2 are any functions. What `newNonce`
returns is an argument, and so is the `secret` that `fakeSaltFor` draws when it is first called.

The client is the one RFC 5802 describes, with the password used as it is given. It reads the
server-first-message by its grammar and computes everything else from that.

Results:
* **`scram_exchange`**: a client that knows the password of its user's credential completes the
  exchange as that user, and is sent the server signature it computes itself; and whatever the two
  messages are, an exchange is only ever completed for a known user whose key the proof recovers.
-/

namespace Natsmqtt5.Scram

/-! ## Credentials -/

/-- `mac`, `sha256.Sum256` and `pbkdf2.Key`, which can fail. -/
structure Crypto where
  mac : Bytes → Bytes → Bytes
  sum256 : Bytes → Bytes
  pbkdf2 : Bytes → Bytes → Int → Option Bytes
  length_mac : ∀ key msg, (mac key msg).length = 32

structure Credential where
  salt : Bytes := []
  iterations : Int := 0
  storedKey : Bytes := []
  serverKey : Bytes := []
  deriving DecidableEq

def defaultIterations : Int := 4096

variable (x : Crypto)

def newCredential (password salt : Bytes) (iterations : Int) : Option Credential :=
  let iterations := if iterations = 0 then defaultIterations else iterations
  (x.pbkdf2 password salt iterations).map fun salted =>
    ⟨salt, iterations, x.sum256 (x.mac salted (ascii "Client Key")),
      x.mac salted (ascii "Server Key")⟩

/-! ## Messages -/

/-- A gs2 header without channel binding and authorization identity, and the rest. -/
def splitGS2 (msg : Bytes) : Option (Bytes × Bytes) :=
  if [110, 44, 44].isPrefixOf msg || [121, 44, 44].isPrefixOf msg then
    some (msg.take 3, msg.drop 3)
  else none

/-- One turn of the loop of `parseAttrs`: the first attribute of a name counts. -/
def addAttr (m : List (UInt8 × Bytes)) : Bytes → List (UInt8 × Bytes)
  | name :: 61 :: v => if m.any (·.1 == name) then m else m ++ [(name, v)]
  | _ => m

def parseAttrs (s : Bytes) : List (UInt8 × Bytes) := (s.splitOn 44).foldl addAttr []

/-- `attrs[name]`. -/
def attr (m : List (UInt8 × Bytes)) (name : UInt8) : Bytes := (m.lookup name).getD []

/-- `=2C` is a comma and `=3D` an equals sign. -/
def unescapeUser : Bytes → Bytes
  | 61 :: 50 :: 67 :: s => 44 :: unescapeUser s
  | 61 :: 51 :: 68 :: s => 61 :: unescapeUser s
  | b :: s => b :: unescapeUser s
  | [] => []

/-- `strings.LastIndex`, of a text that is not empty. -/
def lastIndex (sub : Bytes) : Bytes → Option Nat
  | [] => none
  | b :: s =>
    match lastIndex sub s with
    | some i => some (i + 1)
    | none => if sub.isPrefixOf (b :: s) then some 0 else none

/-- `,p=`. -/
def proofMark : Bytes := [44, 112, 61]

/-- `%d`. -/
def decimal (i : Int) : Bytes := if i < 0 then 45 :: itoa i.natAbs else itoa i.natAbs

def serverFirstMessage (nonce salt : Bytes) (iterations : Int) : Bytes :=
  (114 :: 61 :: nonce) ++ 44 :: ((115 :: 61 :: Base64.encode salt) ++
    44 :: (105 :: 61 :: decimal iterations))

def xor (a b : Bytes) : Bytes := List.zipWith (· ^^^ ·) a b

/-! ## The broker -/

structure Auther where
  /-- An error, or the user's credential if there is one. -/
  lookup : Bytes → Except Unit (Option Credential)
  ownsClientID : Option (Bytes → Bytes → Bool) := none
  fakeSalt : Option (Bytes → Bytes) := none
  secret : Bytes := []

def fakeSaltFor (a : Auther) (user : Bytes) : Bytes :=
  match a.fakeSalt with
  | some f => f user
  | none => (x.mac a.secret user).take 16

/-- What an exchange reads of `AuthBegin`. -/
structure AuthBegin where
  clientID : Bytes := []
  reauth : Bool := false
  identity : Bytes := []

/-- The Reason Codes of the errors. -/
inductive Refusal
  | notAuthorized
  | clientIdentifierNotValid
  | serverUnavailable
  | badUserNameOrPassword
  deriving DecidableEq

structure AuthStep where
  done : Bool := false
  identity : Bytes := []
  data : Bytes := []
  deriving DecidableEq

structure Exchange where
  user : Bytes := []
  cred : Credential := {}
  known : Bool := false
  clientFirstBare : Bytes := []
  serverFirst : Bytes := []
  combinedNonce : Bytes := []
  asked : Bool := false
  gs2 : Bytes := []

variable (a : Auther) (req : AuthBegin) (newNonce : Bytes)

def first (e : Exchange) (msg : Bytes) : Exchange × Except Refusal AuthStep :=
  match splitGS2 msg with
  | none => (e, .error .notAuthorized)
  | some (hdr, bare) =>
    let e := { e with gs2 := hdr }
    let attrs := parseAttrs bare
    let user := unescapeUser (attr attrs 110)
    let cnonce := attr attrs 114
    if user = [] ∨ cnonce = [] ∨ [109, 61].isPrefixOf bare then (e, .error .notAuthorized)
    else if req.reauth ∧ user ≠ req.identity then (e, .error .notAuthorized)
    else if a.ownsClientID.any (fun own => !own user req.clientID) ∧ !req.reauth then
      (e, .error .clientIdentifierNotValid)
    else
      match a.lookup user with
      | .error _ => (e, .error .serverUnavailable)
      | .ok found =>
        let cred := found.getD { salt := fakeSaltFor x a user, iterations := defaultIterations }
        let nonce := cnonce ++ newNonce
        let serverFirst := serverFirstMessage nonce cred.salt cred.iterations
        ({ e with
            user := user, cred := cred, known := found.isSome, clientFirstBare := bare
            combinedNonce := nonce, serverFirst := serverFirst },
          .ok { data := serverFirst })

def final (e : Exchange) (msg : Bytes) : Except Refusal AuthStep :=
  match lastIndex proofMark msg with
  | none => .error .badUserNameOrPassword
  | some i =>
    if !e.known then .error .badUserNameOrPassword
    else
      let withoutProof := msg.take i
      let attrs := parseAttrs withoutProof
      match Base64.decode (msg.drop (i + 3)) with
      | none => .error .badUserNameOrPassword
      | some proof =>
        if attr attrs 114 ≠ e.combinedNonce ∨ attr attrs 99 ≠ Base64.encode e.gs2 then
          .error .badUserNameOrPassword
        else
          let authMessage := e.clientFirstBare ++ 44 :: (e.serverFirst ++ 44 :: withoutProof)
          let clientSig := x.mac e.cred.storedKey authMessage
          if proof.length ≠ clientSig.length then .error .badUserNameOrPassword
          else if x.sum256 (xor proof clientSig) ≠ e.cred.storedKey then
            .error .badUserNameOrPassword
          else
            .ok ⟨true, e.user,
              118 :: 61 :: Base64.encode (x.mac e.cred.serverKey authMessage)⟩

def next (e : Exchange) (data : Bytes) : Exchange × Except Refusal AuthStep :=
  if !e.asked then first x a req newNonce { e with asked := true } data
  else (e, final x e data)

/-! ## The client -/

structure Client where
  user : Bytes
  password : Bytes
  nonce : Bytes
  gs2 : Bytes

def escapeUser (user : Bytes) : Bytes :=
  user.flatMap fun b => if b = 44 then [61, 50, 67] else if b = 61 then [61, 51, 68] else [b]

namespace Client

variable (k : Client)

/-- client-first-message-bare. -/
def firstBare : Bytes := (110 :: 61 :: escapeUser k.user) ++ 44 :: (114 :: 61 :: k.nonce)

/-- client-final-message-without-proof. -/
def withoutProof (nonce : Bytes) : Bytes :=
  (99 :: 61 :: Base64.encode k.gs2) ++ 44 :: (114 :: 61 :: nonce)

/-- The client-final-message, and the server signature the client will ask for. -/
def answer (serverFirst nonce salt : Bytes) (iterations : Int) : Option (Bytes × Bytes) :=
  (x.pbkdf2 k.password salt iterations).map fun salted =>
    let clientKey := x.mac salted (ascii "Client Key")
    let authMessage := k.firstBare ++ 44 :: (serverFirst ++ 44 :: k.withoutProof nonce)
    let clientSig := x.mac (x.sum256 clientKey) authMessage
    (k.withoutProof nonce ++ proofMark ++ Base64.encode (xor clientKey clientSig),
      x.mac (x.mac salted (ascii "Server Key")) authMessage)

/-- A server-first-message is read, whose nonce has to go on from the client's. -/
def final (serverFirst : Bytes) : Option (Bytes × Bytes) :=
  match serverFirst.splitOn 44 with
  | [114 :: 61 :: nonce, 115 :: 61 :: salt, 105 :: 61 :: iterations] =>
    if k.nonce.isPrefixOf nonce then
      (Base64.decode salt).bind fun salt => (digits iterations).bind fun iterations =>
        k.answer x serverFirst nonce salt iterations
    else none
  | _ => none

end Client

/-! ## What is written is read back -/

theorem splitGS2_eq {m hdr bare : Bytes} (h : splitGS2 m = some (hdr, bare)) :
    m = hdr ++ bare ∧ (hdr = ascii "n,," ∨ hdr = ascii "y,,") := by
  rw [splitGS2] at h
  split at h
  · cases h
    rename_i hpre
    refine ⟨(List.take_append_drop 3 m).symm, ?_⟩
    rw [Bool.or_eq_true, List.isPrefixOf_iff_prefix, List.isPrefixOf_iff_prefix] at hpre
    rcases hpre with ⟨t, rfl⟩ | ⟨t, rfl⟩
    · exact .inl rfl
    · exact .inr rfl
  · cases h

theorem unescapeUser_escapeUser (u : Bytes) : unescapeUser (escapeUser u) = u := by
  induction u with
  | nil => rfl
  | cons b u ih =>
    have hcons : escapeUser (b :: u) = (if b = 44 then [61, 50, 67] else
        if b = 61 then [61, 51, 68] else [b]) ++ escapeUser u := by simp [escapeUser]
    rw [hcons]
    by_cases hcomma : b = 44
    · subst hcomma
      exact congrArg _ ih
    · by_cases heq : b = 61
      · subst heq
        exact congrArg _ ih
      · rw [if_neg hcomma, if_neg heq, List.singleton_append, unescapeUser, ih]
        · exact fun s hb _ => heq hb
        · exact fun s hb _ => heq hb

theorem comma_not_mem_escapeUser (u : Bytes) : 44 ∉ escapeUser u := by
  intro h
  obtain ⟨b, -, hb⟩ := List.mem_flatMap.mp h
  split_ifs at hb <;> simp_all

theorem comma_not_mem_of_digits : ∀ {s : Bytes} {m n : Nat}, s.foldlM digit m = some n → 44 ∉ s
  | [], _, _, _ => List.not_mem_nil
  | b :: s, m, n, h => by
    rw [List.foldlM_cons] at h
    obtain ⟨m', hb, hs⟩ := Option.bind_eq_some_iff.mp h
    have hne : b ≠ 44 := by
      rintro rfl
      cases hb
    simp [hne.symm, comma_not_mem_of_digits hs]

theorem parseAttrs_two {n m : UInt8} {v w : Bytes} (hnm : n ≠ m) (hn : 44 ∉ n :: 61 :: v)
    (hm : 44 ∉ m :: 61 :: w) :
    parseAttrs ((n :: 61 :: v) ++ 44 :: (m :: 61 :: w)) = [(n, v), (m, w)] := by
  have hsplit : ((n :: 61 :: v) ++ 44 :: (m :: 61 :: w)).splitOn 44 =
      [n :: 61 :: v, m :: 61 :: w] := by
    refine Eq.trans (congrArg _ ?_) (List.splitOn_intercalate 44 ?_ (List.cons_ne_nil _ _))
    · simp
    · simp only [List.forall_mem_cons]
      exact ⟨hn, hm, fun _ h => absurd h List.not_mem_nil⟩
  rw [parseAttrs, hsplit]
  simp [addAttr, hnm]

theorem splitOn_serverFirstMessage {nonce : Bytes} (h : 44 ∉ nonce) (salt : Bytes) (n : Nat) :
    (serverFirstMessage nonce salt n).splitOn 44 =
      [114 :: 61 :: nonce, 115 :: 61 :: Base64.encode salt, 105 :: 61 :: itoa n] := by
  have hn : decimal n = itoa n := if_neg (by omega)
  rw [serverFirstMessage, hn]
  refine Eq.trans (congrArg _ ?_) (List.splitOn_intercalate 44 ?_ (List.cons_ne_nil _ _))
  · simp
  · simp [h, Base64.comma_not_mem_encode, comma_not_mem_of_digits (foldlM_digit_itoa n)]

theorem lastIndex_eq_none {s : Bytes} (h : 44 ∉ s) : lastIndex proofMark s = none := by
  induction s with
  | nil => rfl
  | cons b s ih =>
    rw [List.mem_cons, not_or] at h
    rw [lastIndex, ih h.2]
    simp [proofMark, h.1]

theorem lastIndex_proofMark (s : Bytes) {p : Bytes} (h : 44 ∉ p) :
    lastIndex proofMark (s ++ proofMark ++ p) = some s.length := by
  induction s with
  | nil =>
    have hnone : lastIndex proofMark (112 :: 61 :: p) = none := lastIndex_eq_none (by simp [h])
    change lastIndex proofMark (44 :: 112 :: 61 :: p) = _
    rw [lastIndex, hnone]
    simp [proofMark]
  | cons b s ih =>
    change lastIndex proofMark (b :: (s ++ proofMark ++ p)) = _
    rw [lastIndex, ih]
    rfl

theorem eq_of_lastIndex {s : Bytes} {i : Nat} (h : lastIndex proofMark s = some i) :
    s = s.take i ++ proofMark ++ s.drop (i + 3) := by
  induction s generalizing i with
  | nil => cases h
  | cons b s ih =>
    rw [lastIndex] at h
    split at h
    · cases h
      simpa using ih ‹_›
    · split at h
      · cases h
        rename_i hpre
        obtain ⟨t, ht⟩ := List.isPrefixOf_iff_prefix.mp hpre
        simp [← ht, proofMark]
      · cases h

theorem xor_cancel {a b : Bytes} (h : a.length = b.length) : xor (xor a b) b = a := by
  induction a generalizing b with
  | nil => rfl
  | cons u a ih =>
    cases b with
    | nil => cases h
    | cons v b =>
      have hrest := ih (Nat.succ.inj h)
      simp only [xor, List.zipWith_cons_cons, UInt8.xor_assoc, UInt8.xor_self,
        UInt8.xor_zero] at hrest ⊢
      rw [hrest]

/-! ## A client that knows the password -/

variable {x a req newNonce} {k : Client} {cred : Credential} {e : Exchange}

theorem first_client (hown : a.ownsClientID = none) (hre : req.reauth = false) (hu : k.user ≠ [])
    (hne : k.nonce ≠ []) (hk : 44 ∉ k.nonce) (hg : k.gs2 = ascii "n,," ∨ k.gs2 = ascii "y,,")
    (hl : a.lookup k.user = .ok (some cred)) :
    first x a req newNonce e (k.gs2 ++ k.firstBare) =
      let nonce := k.nonce ++ newNonce
      let serverFirst := serverFirstMessage nonce cred.salt cred.iterations
      ({ e with
          user := k.user, cred := cred, known := true, clientFirstBare := k.firstBare
          serverFirst := serverFirst, combinedNonce := nonce, gs2 := k.gs2 },
        .ok { data := serverFirst }) := by
  have hsplit : splitGS2 (k.gs2 ++ k.firstBare) = some (k.gs2, k.firstBare) := by
    rcases hg with h | h <;> rw [h] <;> rfl
  have hattrs : parseAttrs k.firstBare = [(110, escapeUser k.user), (114, k.nonce)] :=
    parseAttrs_two (by decide) (by simp [comma_not_mem_escapeUser]) (by simp [hk])
  have hm : [109, 61].isPrefixOf k.firstBare = false := rfl
  simp [first, hsplit, hattrs, attr, List.lookup_cons, unescapeUser_escapeUser, hu, hne, hm, hre,
    hown, hl]

theorem final_client {nonce salted : Bytes} (hn : 44 ∉ nonce)
    (hs : cred.storedKey = x.sum256 (x.mac salted (ascii "Client Key")))
    (hv : cred.serverKey = x.mac salted (ascii "Server Key"))
    (he : e.known ∧ e.cred = cred ∧ e.clientFirstBare = k.firstBare ∧ e.combinedNonce = nonce ∧
      e.gs2 = k.gs2) {fin sig : Bytes}
    (h : k.answer x e.serverFirst nonce cred.salt cred.iterations = some (fin, sig))
    (hp : x.pbkdf2 k.password cred.salt cred.iterations = some salted) :
    final x e fin = .ok ⟨true, e.user, 118 :: 61 :: Base64.encode sig⟩ := by
  obtain ⟨hknown, hcred, hbare, hnonce, hgs2⟩ := he
  rw [Client.answer, hp, Option.map_some] at h
  cases h
  have hattrs : parseAttrs (k.withoutProof nonce) = [(99, Base64.encode k.gs2), (114, nonce)] :=
    parseAttrs_two (by decide) (by simp [Base64.comma_not_mem_encode]) (by simp [hn])
  have htake (w p : Bytes) : (w ++ proofMark ++ p).take w.length = w := by
    rw [List.append_assoc, List.take_left]
  have hdrop (w p : Bytes) : (w ++ proofMark ++ p).drop (w.length + 3) = p := by
    change ((w ++ proofMark) ++ p).drop (w.length + proofMark.length) = p
    rw [← List.length_append, List.drop_left]
  rw [final, lastIndex_proofMark _ (Base64.comma_not_mem_encode _)]
  simp only [htake, hdrop, Base64.decode_encode, hattrs, hknown, hcred, hbare, hnonce, hgs2, hs, hv]
  rw [xor_cancel (by simp [x.length_mac])]
  simp [attr, List.lookup_cons, xor, x.length_mac]

/-! ## Any two messages -/

/-- What the first message does, whatever it is. -/
theorem first_cases {e' : Exchange} {m : Bytes} {r : Except Refusal AuthStep}
    (h : first x a req newNonce e m = (e', r)) :
    e'.asked = e.asked ∧ ((e'.known = e.known ∧ ∃ c, r = .error c) ∨
      ∃ hdr bare found, m = hdr ++ bare ∧ (hdr = ascii "n,," ∨ hdr = ascii "y,,") ∧
        a.lookup e'.user = .ok found ∧ e'.user = unescapeUser (attr (parseAttrs bare) 110) ∧
        r = .ok { data := e'.serverFirst } ∧ e'.known = found.isSome ∧
        (∀ cred, found = some cred → e'.cred = cred) ∧ e'.clientFirstBare = bare ∧
        e'.combinedNonce = attr (parseAttrs bare) 114 ++ newNonce ∧ e'.gs2 = hdr) := by
  rw [first] at h
  rcases hs : splitGS2 m with _ | ⟨hdr, bare⟩
  · rw [hs] at h
    cases h
    exact ⟨rfl, .inl ⟨rfl, _, rfl⟩⟩
  · simp only [hs] at h
    split_ifs at h
    · cases h
      exact ⟨rfl, .inl ⟨rfl, _, rfl⟩⟩
    · cases h
      exact ⟨rfl, .inl ⟨rfl, _, rfl⟩⟩
    · cases h
      exact ⟨rfl, .inl ⟨rfl, _, rfl⟩⟩
    · rcases hl : a.lookup (unescapeUser (attr (parseAttrs bare) 110)) with _ | found
      · rw [hl] at h
        cases h
        exact ⟨rfl, .inl ⟨rfl, _, rfl⟩⟩
      · rw [hl] at h
        cases h
        obtain ⟨hm, hhdr⟩ := splitGS2_eq hs
        refine ⟨rfl, .inr ⟨hdr, bare, found, hm, hhdr, hl, rfl, rfl, rfl, ?_, rfl, rfl, rfl⟩⟩
        rintro cred rfl
        rfl

/-- What a completed exchange has checked. -/
theorem final_done {e : Exchange} {m : Bytes} {s : AuthStep} (h : final x e m = .ok s) :
    e.known ∧ s.identity = e.user ∧ ∃ w p proof, m = w ++ proofMark ++ p ∧
      attr (parseAttrs w) 114 = e.combinedNonce ∧
      attr (parseAttrs w) 99 = Base64.encode e.gs2 ∧ Base64.decode p = some proof ∧
      proof.length = 32 ∧
      x.sum256 (xor proof (x.mac e.cred.storedKey
        (e.clientFirstBare ++ 44 :: (e.serverFirst ++ 44 :: w)))) = e.cred.storedKey := by
  rw [final] at h
  rcases hi : lastIndex proofMark m with _ | i
  · rw [hi] at h
    cases h
  · rcases hp : Base64.decode (m.drop (i + 3)) with _ | proof
    · simp only [hi, hp] at h
      split_ifs at h
    · simp only [hi, hp] at h
      split_ifs at h with hknown hattrs hlen hkey
      cases h
      rw [not_or, not_not, not_not] at hattrs
      rw [not_not, x.length_mac] at hlen
      exact ⟨by simpa using hknown, rfl, _, _, proof, eq_of_lastIndex hi, hattrs.1, hattrs.2, hp,
        hlen, not_not.mp hkey⟩

/-! ## The exchange -/

theorem scram_exchange (x : Crypto) (a : Auther) (req : AuthBegin) (newNonce : Bytes) :
    (∀ (k : Client) (salt : Bytes) (n : Nat) (cred : Credential),
      a.ownsClientID = none → req.reauth = false → k.user ≠ [] → k.nonce ≠ [] → 44 ∉ k.nonce →
      44 ∉ newNonce → (k.gs2 = ascii "n,," ∨ k.gs2 = ascii "y,,") →
      newCredential x k.password salt n = some cred → a.lookup k.user = .ok (some cred) →
      ∃ e serverFirst fin sig,
        next x a req newNonce {} (k.gs2 ++ k.firstBare) = (e, .ok { data := serverFirst }) ∧
        k.final x serverFirst = some (fin, sig) ∧
        (next x a req newNonce e fin).2 =
          .ok ⟨true, k.user, ascii "v=" ++ Base64.encode sig⟩) ∧
    ∀ m₁ m₂ e r s, next x a req newNonce {} m₁ = (e, r) →
      (r = .ok s → s.done = false) ∧
      ((next x a req newNonce e m₂).2 = .ok s → ∃ hdr bare cred serverFirst w p proof,
        m₁ = hdr ++ bare ∧ (hdr = ascii "n,," ∨ hdr = ascii "y,,") ∧
        a.lookup s.identity = .ok (some cred) ∧
        s.identity = unescapeUser (attr (parseAttrs bare) 110) ∧
        r = .ok { data := serverFirst } ∧ m₂ = w ++ ascii ",p=" ++ p ∧
        attr (parseAttrs w) 114 = attr (parseAttrs bare) 114 ++ newNonce ∧
        attr (parseAttrs w) 99 = Base64.encode hdr ∧
        Base64.decode p = some proof ∧ proof.length = 32 ∧
        x.sum256 (xor proof (x.mac cred.storedKey
          (bare ++ ascii "," ++ serverFirst ++ ascii "," ++ w))) = cred.storedKey) := by
  constructor
  · intro k salt n cred hown hre hu hne hk hnew hg hcred hl
    have hnonce : 44 ∉ k.nonce ++ newNonce := by simp [hk, hnew]
    obtain ⟨i, hiter⟩ : ∃ i : Nat, (if (n : Int) = 0 then defaultIterations else n) = i := by
      split
      · exact ⟨4096, rfl⟩
      · exact ⟨n, rfl⟩
    obtain ⟨salted, hp, rfl⟩ := Option.map_eq_some_iff.mp hcred
    simp only [hiter] at hp hl
    have hfinal : k.final x (serverFirstMessage (k.nonce ++ newNonce) salt i) =
        k.answer x (serverFirstMessage (k.nonce ++ newNonce) salt i) (k.nonce ++ newNonce) salt
          i := by
      rw [Client.final, splitOn_serverFirstMessage hnonce]
      simp [Base64.decode_encode, digits_itoa]
    rw [Client.answer, hp, Option.map_some] at hfinal
    refine ⟨_, _, _, _, first_client hown hre hu hne hk hg hl, hfinal, ?_⟩
    exact final_client hnonce rfl rfl ⟨rfl, rfl, rfl, rfl, rfl⟩ (by rw [Client.answer, hp]; rfl) hp
  · intro m₁ m₂ e r s hr
    change first x a req newNonce { asked := true } m₁ = (e, r) at hr
    obtain ⟨hasked, ⟨hknown, c, rfl⟩ | ⟨hdr, bare, found, hm, hhdr, hl, huser, rfl, hknown, hcred,
      hbare, hnonce, hgs2⟩⟩ := first_cases hr
    · refine ⟨(fun h => by cases h), fun h => ?_⟩
      rw [next, if_neg (by simp [hasked])] at h
      exact absurd (hknown.symm.trans (final_done h).1) (by decide)
    · refine ⟨(fun h => by cases h; rfl), fun h => ?_⟩
      rw [next, if_neg (by simp [hasked])] at h
      obtain ⟨hk, hid, w, p, proof, hm₂, hr, hc, hp, hlen, hkey⟩ := final_done h
      obtain ⟨cred, rfl⟩ := Option.isSome_iff_exists.mp (hknown.symm.trans hk)
      rw [hcred cred rfl, hbare] at hkey
      refine ⟨hdr, bare, cred, e.serverFirst, w, p, proof, hm, hhdr, hid ▸ hl, hid ▸ huser, rfl,
        hm₂, hnonce ▸ hr, hgs2 ▸ hc, hp, hlen, ?_⟩
      have hauth : bare ++ ascii "," ++ e.serverFirst ++ ascii "," ++ w =
          bare ++ 44 :: (e.serverFirst ++ 44 :: w) := by simp [ascii]
      rw [hauth, hkey]

/-- 32 bytes. -/
def block (n : Nat) : Bytes := (List.range 32).reverse.map fun i => (n / 256 ^ i).toUInt8

/-- HMAC, the hash and PBKDF2 on the inputs of the example of RFC 7677. -/
def rfc7677 : Crypto where
  mac key msg := block (
    if key = block 0xc4a49510323ab4f952cac1fa99441939e78ea74d6be81ddf7096e87513dc615d then
      if msg = ascii "Client Key" then
        0xa60fc923d67e8644a92d16b96eda5ef4656b0c725c484374be25535576996e8b
      else 0xc1f3cbc1c13a9d35a14c0990eed97629ea225863e566a4314ab99f3f00e5d9d5
    else if key = block 0x586e5df283e6dceb5c3e791d8b8528ec191e664045ce971792e2e6b5bb13e2a6 then
      0xd27312467c28a40a8a7f05c73c0de33eb3cbfb4a83783b58144cf19ac6be1bdf
    else 0xeabae24d1062db75a9451ff0b6ea7e98c8546549ff741e672d3251b2397de46e)
  sum256 _ := block 0x586e5df283e6dceb5c3e791d8b8528ec191e664045ce971792e2e6b5bb13e2a6
  pbkdf2 _ _ _ := some (block 0xc4a49510323ab4f952cac1fa99441939e78ea74d6be81ddf7096e87513dc615d)
  length_mac _ _ := by simp [block]

def pencil : Client :=
  ⟨ascii "user", ascii "pencil", ascii "rOprNGfwEbeRWgbNEkqO", ascii "n,,"⟩

theorem scram_exchange_pencil : ∃ cred e serverFirst fin sig,
    let a : Auther := { lookup := fun _ => .ok (some cred) }
    let nonce := ascii "%hvYDpWUa2RaTCAfuxFIlj)hNlF$k0"
    newCredential rfc7677 pencil.password ((block 0x5b6d99689d12358eeca04b141236fa81).drop 16)
      (4096 : Nat) = some cred ∧
    next rfc7677 a {} nonce {} (ascii "n,,n=user,r=rOprNGfwEbeRWgbNEkqO") =
      (e, .ok { data := serverFirst }) ∧
    pencil.final rfc7677 serverFirst = some (fin, sig) ∧
    (next rfc7677 a {} nonce e fin).2 =
      .ok ⟨true, ascii "user", ascii "v=" ++ Base64.encode sig⟩ := by
  obtain ⟨cred, hcred⟩ : ∃ cred, newCredential rfc7677 pencil.password
    ((block 0x5b6d99689d12358eeca04b141236fa81).drop 16) (4096 : Nat) = some cred := ⟨_, rfl⟩
  obtain ⟨e, serverFirst, fin, sig, h⟩ :=
    (scram_exchange rfc7677 { lookup := fun _ => .ok (some cred) } {}
      (ascii "%hvYDpWUa2RaTCAfuxFIlj)hNlF$k0")).1 pencil _ 4096 cred rfl rfl (by decide) (by decide)
      (by decide) (by decide) (.inl rfl) hcred rfl
  exact ⟨cred, e, serverFirst, fin, sig, hcred, h⟩

/-! ## Unknown users -/

/-- A client-final-message has one refusal, and completes no exchange of an unknown user. -/
theorem final_cases (x : Crypto) (e : Exchange) (m : Bytes) :
    final x e m = .error .badUserNameOrPassword ∨ e.known = true ∧ ∃ s, final x e m = .ok s := by
  unfold final
  split
  · exact .inl rfl
  · split_ifs with hknown
    · exact .inl rfl
    · dsimp only
      split
      · exact .inl rfl
      · split_ifs
        · exact .inl rfl
        · exact .inl rfl
        · exact .inl rfl
        · exact .inr ⟨by simpa using hknown, _, rfl⟩

/-- **An unknown user is not told apart from a wrong password.** Whether `user` has no credential or
one with the made-up salt, any two messages get the same answers, unless the second completes the
exchange. -/
theorem unknown_user_not_told_apart (x : Crypto) (a : Auther) (req : AuthBegin) (e : Exchange)
    (newNonce user storedKey serverKey m₁ m₂ : Bytes) :
    let ask found :=
      first x { a with lookup := Function.update a.lookup user (.ok found) } req newNonce e m₁
    let known := ask (some ⟨fakeSaltFor x a user, defaultIterations, storedKey, serverKey⟩)
    (ask none).2 = known.2 ∧
      (final x (ask none).1 m₂ = final x known.1 m₂ ∨ ∃ s, final x known.1 m₂ = .ok s) := by
  simp only [first]
  rcases splitGS2 m₁ with _ | ⟨hdr, bare⟩
  · exact ⟨rfl, .inl rfl⟩
  · by_cases hu : unescapeUser (attr (parseAttrs bare) 110) = user
    · simp only [hu, Function.update_self]
      split_ifs
      · exact ⟨rfl, .inl rfl⟩
      · exact ⟨rfl, .inl rfl⟩
      · exact ⟨rfl, .inl rfl⟩
      · refine ⟨rfl, (final_cases x _ m₂).imp (fun hknown => ?_) And.right⟩
        rw [hknown]
        exact (final_cases x _ m₂).resolve_right (by simp)
    · simp only [Function.update_of_ne hu]
      exact ⟨rfl, .inl rfl⟩

end Natsmqtt5.Scram
