import Natsmqtt5.Outbound.Outcome
import Natsmqtt5.Tally
import Mathlib.Data.Fintype.Powerset

/-!
# The client's side of the exchanges

The session with its client. The client owes one acknowledgement for each PUBLISH and each PUBREL it
has received, and sends it once, on any connection it has; or the packet or its acknowledgement is
lost. An identifier is given to a new message only when nothing is due for it any more, so what is
due is followed from the goroutine that writes the packet to the reader that has handled its
acknowledgement.

What the session remembers of an identifier (`Session.memory`) is the entry or the withdrawal, and
the record of a resend. Both end by design before the last acknowledgement may have come: a record
of a resend with the next attach, a withdrawal with the second, an entry with a restore from a
record that does not list it or when its message expires. `Settled` is the condition under which
they do not.
-/

namespace Natsmqtt5.Outbound

/-- A packet the client has received and not answered. -/
structure Debt where
  id : PacketID
  /-- A PUBREL, and not a PUBLISH. -/
  rel : Bool
  deriving DecidableEq

/-- A session and its client. -/
structure Link (κ : Type) where
  net : State κ := {}
  owes : List Debt := []

inductive Link.Act (κ : Type)
  | net (a : Outbound.Act κ)
  /-- The packet, or the acknowledgement of it, is lost. -/
  | lose (d : Debt)

/-- What an acknowledgement answers. -/
def debtOf (a : Ack) : Debt := ⟨a.id, decide (a.type = .pubcomp)⟩

variable {κ : Type}

/-- What a packet the broker writes has the client owe. -/
def Event.debt : Event κ → Option Debt
  | .publish _ id _ _ => some ⟨id, false⟩
  | .pubrel _ id _ => some ⟨id, true⟩
  | _ => none

def Conn.attached (k : Conn κ) : Bool :=
  match k.reader with
  | .offline => false
  | _ => true

/-- The events of `t` that are not in `s`. -/
def newEvents (s t : State κ) : List (Event κ) := t.log.take (t.log.length - s.log.length)

def Link.step [DecidableEq κ] (s : Link κ) : Link.Act κ → Option (Link κ)
  | .net (.send c a) =>
    if debtOf a ∈ s.owes ∧ (s.net.conns c).attached = true then
      (Outbound.step s.net (.send c a)).map fun t => ⟨t, s.owes.erase (debtOf a)⟩
    else none
  | .net a => (Outbound.step s.net a).map fun t =>
      ⟨t, (newEvents s.net t).filterMap Event.debt ++ s.owes⟩
  | .lose d => if d ∈ s.owes then some { s with owes := s.owes.erase d } else none

/-! ## What is due -/

/-- The acknowledgement a reader has in hand. -/
def Reader.handled : Reader κ → Option Ack
  | .acking a => some a
  | .forgettingWithdrawn a => some a
  | .forgettingResent a => some a
  | .receiving a => some a
  | .mismatched a => some a
  | .failing a => some a
  | _ => none

/-- The PUBREC it has taken the entry for. -/
def Reader.accepted : Reader κ → List PacketID
  | .accepting o => [o.packetID]
  | _ => []

/-- The PUBREL it is about to write or queue. -/
def Reader.pubrel : Reader κ → List PacketID
  | .answering id _ => [id]
  | .notFound id => [id]
  | _ => []

/-- The PUBRELs a connection has still to write. -/
def Conn.pubrels (k : Conn κ) : List PacketID :=
  if k.closed then []
  else k.reader.pubrel ++ k.relIDs.map Prod.fst ++ k.draining.map Prod.fst

/-- The acknowledgements a connection has still to handle. -/
def Conn.unhandled (k : Conn κ) : List Ack :=
  match k.reader with
  | .ended => []
  | r => r.handled.toList ++ k.inbox

/-- Those, and the ones it has still to follow with a PUBREL. -/
def Conn.acks (k : Conn κ) : List PacketID :=
  k.unhandled.map Ack.id ++ k.reader.accepted ++ k.pubrels

/-- The packets a delivery goroutine has a record for and has still to write. -/
def Delivery.due : Delivery κ → List PacketID
  | .releasingMessage o _ _ => [o.packetID]
  | .claimed o _ _ => [o.packetID]
  | .marked o _ _ => [o.packetID]
  | .abandoning id _ _ => [id]
  | .serving ready => ready.map Entry.packetID
  | .slotted ready => ready.map Entry.packetID
  | .tracking _ ready => ready.map Entry.packetID
  | .refusing ready kept _ => (ready ++ kept).map Entry.packetID
  | .refunding ready kept => (ready ++ kept).map Entry.packetID
  | .flushing ready => ready.map Entry.packetID
  | .discarding id ready => id :: ready.map Entry.packetID
  | .dropping ready => ready.map Entry.packetID
  | _ => []

/-- The acknowledgements the client may still send, or that wait on the connections of `A`. -/
def Link.due (s : Link κ) (A : Finset κ) : Multiset PacketID :=
  (s.owes.map Debt.id : Multiset PacketID) + ∑ c ∈ A, ((s.net.conns c).acks : Multiset PacketID)

/-- The records the session has of an identifier. -/
def Session.memory (s : Session κ) (id : PacketID) : Nat :=
  (s.busy id).toNat + (s.resent id).isSome.toNat

/-! ## Statements -/

/-- The messages published in a stretch of the log, with their identifiers. -/
def published (log : List (Event κ)) : List (PacketID × Nat) :=
  log.filterMap fun e =>
    match e with
    | .publish _ id msg _ => some (id, msg)
    | _ => none

/-- The first `n` events of the log. -/
def oldest (n : Nat) (log : List (Event κ)) : List (Event κ) := log.drop (log.length - n)

/-- Every acknowledgement that removed an entry was sent when the client had received the entry's
message under that identifier. -/
def Answered (log : List (Event κ)) : Prop :=
  ∀ c a msg, .completed c a msg ∈ log → (a.id, msg) ∈ published (oldest a.stamp log)

/-- The identifier of an expired or oversized resend that is about to be completed. -/
def Delivery.expired : Delivery κ → Option PacketID
  | .completing id _ _ => some id
  | _ => none

/-- The session is not about to forget an identifier for which an acknowledgement is due: when a
connection attaches, no two are due for one identifier, and none for one it will not keep; a record
restores the identifiers the client owes for, with the messages it was sent; and a message that
expired is owed nothing. `nextID` passes over the records of resends. -/
def Link.Kept (s : Link κ) : Outbound.Act κ → Prop
  | .attach c _ => ∀ A, (s.due A).Nodup ∧ ∀ id ∈ s.due A, (s.net.sess.attach c).busy id = true
  | .restore inflight ws =>
    (s.owes.map Debt.id).Nodup ∧
      (∀ d ∈ s.owes, (restored s.net.sess.sendSeq inflight ws).busy d.id = true) ∧
      ∀ o ∈ inflight, o.awaitingPubcomp = true ∨ o.packetID ∈ s.owes.map Debt.id →
        (o.packetID, o.msg) ∈ published s.net.log
  | .completeInflight c => ∀ id ∈ (s.net.conns c).delivery.expired,
      (s.net.sess.inflightEntry id).isSome = true → ∀ A, id ∉ s.due A
  | .nextID _ => ∀ p ∈ s.net.sess.nextID, (s.net.sess.resent p.2).isNone = true
  | _ => True

/-- What the delivery goroutine of the session's connection has still to write. -/
def State.pending (s : State κ) : List PacketID :=
  match s.sess.conn with
  | none => []
  | some c => (s.conns c).delivery.due

/-- A delivery goroutine claims a resend, takes an identifier or writes a packet. -/
def Act.commits : Act κ → Bool
  | .markResent _ => true
  | .takeQuotaSlot _ => true
  | .nextID _ => true
  | .trackInflight _ _ _ _ => true
  | .writeResend _ w => w = .sent
  | .sendPrepared _ w => w = .sent
  | _ => false

/-- The resend whose record a delivery goroutine is about to drop. -/
def Delivery.abandons : Delivery κ → Option PacketID
  | .abandoning id _ _ => some id
  | _ => none

/-- The entry it is about to complete. -/
def Delivery.completes : Delivery κ → Option PacketID
  | .completing id _ _ => some id
  | .discarding id _ => some id
  | .refusing (o :: _) _ _ => some o.packetID
  | _ => none

/-- The delivery goroutine of `c` is not about to end what another connection relies on: a record
that it drops is not its own, and an entry that it completes stays as a withdrawal or has nothing
due. -/
def Link.Spares [DecidableEq κ] (s : Link κ) (c : κ) : Prop :=
  (∀ id ∈ (s.net.conns c).delivery.abandons, ∀ r ∈ s.net.sess.resent id, r.conn ≠ c) ∧
    ∀ id ∈ (s.net.conns c).delivery.completes, ∀ o ∈ s.net.sess.inflightEntry id,
      resentElsewhere c o = none → id ∉ s.net.pending ∧ ∀ A, id ∉ s.due A

/-- A step that keeps what is due. The delivery goroutine of a displaced connection may go on, but
commits itself to nothing new and spares what the session's connection relies on. -/
def Settled [DecidableEq κ] (s : Link κ) : Link.Act κ → Prop
  | .net a => (∀ c ∈ a.delivers, s.net.sess.conn = some c ∨ a.commits = false ∧ s.Spares c) ∧
      s.Kept a
  | .lose _ => True

end Natsmqtt5.Outbound
