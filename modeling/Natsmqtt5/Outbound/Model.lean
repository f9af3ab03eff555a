import Natsmqtt5.Lts
import Natsmqtt5.Outbound.Session
import Mathlib.Data.Finset.Card

/-!
# PUBLISH to a client: deliveries, resends and acknowledgements

One session and the connections that serve it, one after the other. On each connection run the
delivery goroutine (`retransmit` and `resend` in `retransmit.go`, then `prepare` and `sendPrepared`
in `subscribe.go`), the reader (`handlePuback`, `handlePubrec`, `handlePubcomp` in `publish.go`),
the pullers of shared subscriptions (`shared.go`) and the goroutine of `drainPubrels`. A displaced
connection's goroutines run on: its delivery goroutine until it sees the connection closed, its
reader until it has handled the packets its socket had buffered. `restore` is another broker's claim
of the session after this one was killed.

One step is what the source does under one lock, one operation on the send quota (the channel
`c.quota`, whose length is `quota` here) or one write of a packet. Whether a message has expired, is
too large for the client, is still wanted, or can be written is the action's choice. QoS 0 messages
take no slot and are left out, a PUBREL always fits the client's Maximum Packet Size, and the waits
that only narrow the order of steps (`awaitPredecessorLoop`) are not there.

The model keeps for itself: `log`, the packets written, sent by the client and read, newest first;
how long the log was when an acknowledgement was sent (`Ack`); and the exchange a queued PUBREL is
for. `seq` goes on counting over a restore, so that it names an exchange.
-/

namespace Natsmqtt5.Outbound

/-! ## State -/

/-- A PUBACK, PUBREC or PUBCOMP of the client. -/
structure Ack where
  type : AckType
  id : PacketID
  /-- A Reason Code of 0x80 or more. -/
  error : Bool := false
  /-- The length of the log when the client sent it. -/
  stamp : Nat := 0
  deriving DecidableEq

/-- Where a delivery goroutine stands. `held` says that `resend` has taken a slot, `todo` are the
snapshots it has still to resend, `ready` the prepared deliveries it has not written. -/
inductive Delivery (κ : Type)
  /-- Before `retransmit`. -/
  | waiting
  | resending (todo : List (Entry κ))
  /-- `inflightEntry` comes next. -/
  | reading (snapshot : Entry κ) (held : Bool) (todo : List (Entry κ))
  /-- With the live entry's copy: `markResent` or `takeQuotaSlot` comes next. -/
  | deciding (o : Entry κ) (held : Bool) (todo : List (Entry κ))
  /-- The PUBREL write comes next. -/
  | releasingMessage (o : Entry κ) (held : Bool) (todo : List (Entry κ))
  /-- `takeQuotaSlot` is done. -/
  | claimed (o : Entry κ) (held : Bool) (todo : List (Entry κ))
  /-- `markResentWritten` is done; the PUBLISH write comes next. -/
  | marked (o : Entry κ) (held : Bool) (todo : List (Entry κ))
  /-- Expired or too large: `abandonResend` comes next. -/
  | abandoning (id : PacketID) (held : Bool) (todo : List (Entry κ))
  /-- `completeInflight` comes next. -/
  | completing (id : PacketID) (held : Bool) (todo : List (Entry κ))
  /-- `releaseQuota` comes next. -/
  | releasing (todo : List (Entry κ))
  /-- `retransmit` is done. -/
  | serving (ready : List (Entry κ))
  /-- In `prepare`, with a slot. -/
  | slotted (ready : List (Entry κ))
  /-- `nextID` is done; `trackInflight` comes next. -/
  | tracking (id : PacketID) (ready : List (Entry κ))
  /-- The record could not be written: the shared QoS 2 messages go back. -/
  | refusing (ready : List (Entry κ)) (kept : List (Entry κ)) (back : Bool)
  /-- One went back; `releaseQuota` comes next. -/
  | refunding (ready : List (Entry κ)) (kept : List (Entry κ))
  | flushing (ready : List (Entry κ))
  /-- Too large: `completeInflight` comes next. -/
  | discarding (id : PacketID) (ready : List (Entry κ))
  /-- `releaseQuota` comes next. -/
  | dropping (ready : List (Entry κ))
  /-- The goroutine has returned. -/
  | stopped

/-- Where a reader stands. -/
inductive Reader (κ : Type)
  /-- The connection has not attached. -/
  | offline
  | idle
  /-- A PUBACK or PUBCOMP: `completeInflight` comes next. -/
  | acking (a : Ack)
  | forgettingWithdrawn (a : Ack)
  | forgettingResent (a : Ack)
  /-- A PUBREC: `inflightEntry` comes next. -/
  | receiving (a : Ack)
  /-- For a QoS 1 message: `completeInflight` and the DISCONNECT come next. -/
  | mismatched (a : Ack)
  /-- With an error code: `completeInflight` comes next. -/
  | failing (a : Ack)
  /-- With the entry's copy: `awaitPubcomp` comes next. -/
  | accepting (o : Entry κ)
  /-- `queuePubrel`, or the PUBREL write, comes next. -/
  | answering (id : PacketID) (seq : Nat)
  /-- Unknown: the PUBREL with 0x92 comes next. -/
  | notFound (id : PacketID)
  /-- `releaseQuota` comes next. -/
  | releasing
  | ended

structure Conn (κ : Type) where
  closed : Bool := false
  clientReceiveMax : Nat := 0
  /-- The length of `c.quota`. -/
  quota : Nat := 0
  /-- How many of the slots the pullers hold. -/
  pulled : Nat := 0
  delivery : Delivery κ := .waiting
  reader : Reader κ := .offline
  relIDs : List (PacketID × Nat) := []
  /-- The identifiers `drainPubrels` has taken. -/
  draining : List (PacketID × Nat) := []
  /-- What the client has sent and the reader has not read. -/
  inbox : List Ack := []

/-- What the statements about whole runs see. -/
inductive Event (κ : Type)
  | publish (c : κ) (id : PacketID) (msg seq : Nat)
  | pubrel (c : κ) (id : PacketID) (seq : Option Nat)
  | sent (c : κ) (a : Ack)
  | read (c : κ) (a : Ack)
  /-- An acknowledgement removed the entry. -/
  | completed (c : κ) (a : Ack) (msg : Nat)

structure State (κ : Type) where
  sess : Session κ := {}
  conns : κ → Conn κ := fun _ => {}
  log : List (Event κ) := []

section Steps

variable {κ : Type} [DecidableEq κ]

def State.setConn (s : State κ) (c : κ) (k : Conn κ) : State κ :=
  { s with conns := Function.update s.conns c k }

def State.deliver (s : State κ) (c : κ) (d : Delivery κ) : State κ :=
  s.setConn c { s.conns c with delivery := d }

def State.handle (s : State κ) (c : κ) (r : Reader κ) : State κ :=
  s.setConn c { s.conns c with reader := r }

def State.note (s : State κ) (e : Event κ) : State κ := { s with log := e :: s.log }

/-- A slot is taken, where there is room. -/
def State.takeQuota (s : State κ) (c : κ) (d : Delivery κ) : Option (State κ) :=
  let k := s.conns c
  if k.quota < k.clientReceiveMax then
    some (s.setConn c { k with quota := k.quota + 1, delivery := d })
  else none

/-- `releaseQuota`, by the delivery goroutine. -/
def State.releaseQuota (s : State κ) (c : κ) (d : Delivery κ) : State κ :=
  s.setConn c { s.conns c with quota := (s.conns c).quota - 1, delivery := d }

/-- The delivery goroutine fails: the connection is closed and nothing more is sent. -/
def State.fail (s : State κ) (c : κ) (spent : Bool) : State κ :=
  let k := s.conns c
  s.setConn c { k with
    closed := true
    quota := if spent then k.quota else k.quota - 1
    delivery := .stopped }

/-- `sendDisconnect`, and the reader returns. -/
def State.disconnect (s : State κ) (c : κ) : State κ :=
  s.setConn c { s.conns c with closed := true, reader := .ended }

/-- The end of `resend`: a slot that was not spent goes back. -/
def after (held : Bool) (todo : List (Entry κ)) : Delivery κ :=
  if held then .releasing todo else .resending todo

/-- A connection of a broker that was killed. -/
def Conn.kill (k : Conn κ) : Conn κ :=
  match k.reader with
  | .offline => k
  | _ => { k with closed := true, delivery := .stopped, reader := .ended, relIDs := [],
                  draining := [], inbox := [] }

/-- How a write of a PUBLISH ends. -/
inductive Write
  | sent
  /-- Too large for the client. -/
  | discarded
  | failed
  deriving DecidableEq

inductive Act (κ : Type)
  | attach (c : κ) (receiveMax : Nat)
  | close (c : κ)
  /-- Another broker restores the session from its record. -/
  | restore (inflight : List (Entry κ)) (withdrawn : List (PacketID × AckType × Nat))
  /-- `withdrawInflight` or a hand-back takes the entry of `id`. -/
  | withdraw (id : PacketID)
  -- the delivery goroutine
  | unacknowledged (c : κ)
  | resend (c : κ)
  /-- The connection has ended while `resend` waited for a slot. -/
  | giveUp (c : κ)
  | inflightEntry (c : κ)
  | markResent (c : κ)
  | takeQuotaSlot (c : κ)
  | expire (c : κ)
  | markResentWritten (c : κ)
  | abandonResend (c : κ)
  | completeInflight (c : κ)
  | releaseQuota (c : κ)
  | writeResend (c : κ) (w : Write)
  | takeSlot (c : κ)
  /-- `deliverShared`: the slot is a puller's. -/
  | takePulled (c : κ)
  /-- Not wanted any more, or expired. -/
  | drop (c : κ)
  | nextID (c : κ)
  | trackInflight (c : κ) (qos : QoS) (msg : Nat) (shared : Bool)
  /-- `recordQoS2`, and whether the write of the record failed. -/
  | recordQoS2 (c : κ) (failed : Bool)
  | refuse (c : κ)
  | sendPrepared (c : κ) (w : Write)
  -- the pullers
  | pull (c : κ)
  | unpull (c : κ)
  -- the client and the reader
  | send (c : κ) (a : Ack)
  | read (c : κ)
  | handle (c : κ) (queue : Bool)
  -- `drainPubrels`
  | drain (c : κ)
  | writePubrel (c : κ) (failed : Bool)

/-- A session restored from a record. -/
def restored (seq : Nat) (inflight : List (Entry κ)) (ws : List (PacketID × AckType × Nat)) :
    Session κ :=
  let s : Session κ := { sendSeq := seq, attaches := if ws = [] then 0 else 2 }
  let s := ws.foldl (fun s w => s.restoreWithdrawn w.1 w.2.1 w.2.2) s
  inflight.foldl (fun s o => s.restoreInflight
    { packetID := o.packetID, qos := o.qos, msg := o.msg, awaitingPubcomp := o.awaitingPubcomp,
      shared := o.shared }) s

/-- The reader reads a packet. -/
def recv (a : Ack) : Reader κ := if a.type = .pubrec then .receiving a else .acking a

/-- One step of the reader's handlers. `queue` says that the PUBREL waits for the record. -/
def handle (s : State κ) (c : κ) (queue : Bool) : Reader κ → Option (State κ)
  | .acking a =>
    match s.sess.completeInflight c a.id with
    | (_, none) => some (s.handle c (.forgettingWithdrawn a))
    | (sess, some o) =>
      let s := { s with sess := sess }.note (.completed c a o.msg)
      if a.type = .puback ∧ o.qos ≠ .qos1 then some (s.disconnect c)
      else some (s.handle c (if o.quotaHeld then .releasing else .idle))
  | .forgettingWithdrawn a =>
    match s.sess.forgetWithdrawn a.id a.type with
    | none => some (s.handle c (.forgettingResent a))
    | some (sess, w) => some ({ s with sess := sess }.handle c
        (if w.quotaHolder = some c then .releasing else .idle))
  | .forgettingResent a =>
    match s.sess.forgetResent c a.id a.type with
    | none => some (s.disconnect c)
    | some (sess, quota) => some ({ s with sess := sess }.handle c
        (if quota then .releasing else .idle))
  | .receiving a =>
    match s.sess.inflightEntry a.id with
    | none => some (s.handle c (.notFound a.id))
    | some o =>
      if o.qos ≠ .qos2 then some (s.handle c (.mismatched a))
      else if a.error then some (s.handle c (.failing a))
      else some (s.handle c (.accepting o))
  | .mismatched a =>
    match s.sess.completeInflight c a.id with
    | (_, none) => some (s.disconnect c)
    | (sess, some o) => some (({ s with sess := sess }.note (.completed c a o.msg)).disconnect c)
  | .failing a =>
    match s.sess.completeInflight c a.id with
    | (_, none) => some (s.handle c .idle)
    | (sess, some o) => some (({ s with sess := sess }.note (.completed c a o.msg)).handle c
        (if o.quotaHeld then .releasing else .idle))
  | .accepting o =>
    some ({ s with sess := s.sess.awaitPubcomp o.packetID }.handle c (.answering o.packetID o.seq))
  | .answering id seq =>
    if queue then
      some (s.setConn c { s.conns c with
        relIDs := (s.conns c).relIDs ++ [(id, seq)], reader := .idle })
    else if (s.conns c).closed then some (s.disconnect c)
    else some (({ s with sess := s.sess.settleOwned id }.note (.pubrel c id (some seq))).handle c
      .idle)
  | .notFound id =>
    if (s.conns c).closed then some (s.disconnect c)
    else some ((s.note (.pubrel c id none)).handle c .idle)
  | .releasing =>
    some (s.setConn c { s.conns c with quota := (s.conns c).quota - 1, reader := .idle })
  | _ => none

def step (s : State κ) : Act κ → Option (State κ)
  | .attach c receiveMax =>
    match (s.conns c).reader with
    | .offline =>
      some ({ s with sess := s.sess.attach c }.setConn c
        { s.conns c with clientReceiveMax := receiveMax, reader := .idle })
    | _ => none
  | .close c => some (s.setConn c { s.conns c with closed := true })
  | .restore inflight ws =>
    some { s with
      sess := restored s.sess.sendSeq inflight ws
      conns := fun c => (s.conns c).kill }
  | .withdraw id => (s.sess.withdraw id).map fun sess => { s with sess := sess }
  | .unacknowledged c =>
    match (s.conns c).delivery, (s.conns c).reader with
    | .waiting, .offline => none
    | .waiting, _ => some (s.deliver c (.resending s.sess.inflight))
    | _, _ => none
  | .resend c =>
    match (s.conns c).delivery with
    | .resending [] => some (s.deliver c (.serving []))
    | .resending (o :: todo) =>
      if o.awaitingPubcomp then some (s.deliver c (.reading o false todo))
      else s.takeQuota c (.reading o true todo)
    | _ => none
  | .giveUp c =>
    match (s.conns c).delivery with
    | .resending (o :: todo) =>
      if !o.awaitingPubcomp && (s.conns c).closed then some (s.deliver c (.resending todo))
      else none
    | _ => none
  | .inflightEntry c =>
    match (s.conns c).delivery with
    | .reading snapshot held todo =>
      match s.sess.inflightEntry snapshot.packetID with
      | none => some (s.deliver c (after held todo))
      | some o => some (s.deliver c (.deciding o held todo))
    | _ => none
  | .markResent c =>
    match (s.conns c).delivery with
    | .deciding o held todo =>
      if o.awaitingPubcomp then
        match s.sess.markResent c o.packetID with
        | none => some (s.deliver c (after held todo))
        | some sess => some ({ s with sess := sess }.deliver c (.releasingMessage o held todo))
      else none
    | _ => none
  | .takeQuotaSlot c =>
    match (s.conns c).delivery with
    | .deciding o held todo =>
      if o.awaitingPubcomp then none
      else
        match s.sess.takeQuotaSlot c o.packetID with
        | none => some (s.deliver c (after held todo))
        | some sess => some ({ s with sess := sess }.deliver c (.claimed o held todo))
    | _ => none
  | .expire c =>
    match (s.conns c).delivery with
    | .claimed o held todo =>
      if o.qos = .qos1 then some (s.deliver c (.abandoning o.packetID held todo)) else none
    | _ => none
  | .markResentWritten c =>
    match (s.conns c).delivery with
    | .claimed o held todo =>
      some ({ s with sess := s.sess.markResentWritten c o.packetID }.deliver c
        (.marked o held todo))
    | _ => none
  | .abandonResend c =>
    match (s.conns c).delivery with
    | .abandoning id held todo =>
      some ({ s with sess := s.sess.abandonResend c id }.deliver c (.completing id held todo))
    | _ => none
  | .completeInflight c =>
    match (s.conns c).delivery with
    | .completing id held todo =>
      some ({ s with sess := (s.sess.completeInflight c id).1 }.deliver c (after held todo))
    | .discarding id ready =>
      some ({ s with sess := (s.sess.completeInflight c id).1 }.deliver c (.dropping ready))
    | _ => none
  | .releaseQuota c =>
    match (s.conns c).delivery with
    | .releasing todo => some (s.releaseQuota c (.resending todo))
    | .dropping ready => some (s.releaseQuota c (.flushing ready))
    | .refunding ready kept => some (s.releaseQuota c (.refusing ready kept true))
    | _ => none
  | .writeResend c w =>
    match (s.conns c).delivery with
    | .releasingMessage o held todo =>
      match w with
      | .sent =>
        if (s.conns c).closed then none
        else some ((s.note (.pubrel c o.packetID (some o.seq))).deliver c (after held todo))
      | .discarded => none
      | .failed => some (s.fail c (!held))
    | .marked o held todo =>
      match w with
      | .sent =>
        if (s.conns c).closed then none
        else some ((s.note (.publish c o.packetID o.msg o.seq)).deliver c (.resending todo))
      | .discarded => some (s.deliver c (.abandoning o.packetID held todo))
      | .failed => some (s.fail c (!held))
    | _ => none
  | .takeSlot c =>
    match (s.conns c).delivery with
    | .serving ready => s.takeQuota c (.slotted ready)
    | _ => none
  | .takePulled c =>
    match (s.conns c).delivery with
    | .serving [] =>
      if 0 < (s.conns c).pulled then
        some (s.setConn c { s.conns c with
          pulled := (s.conns c).pulled - 1, delivery := .slotted [] })
      else none
    | _ => none
  | .drop c =>
    match (s.conns c).delivery with
    | .slotted ready => some (s.releaseQuota c (.serving ready))
    | _ => none
  | .nextID c =>
    match (s.conns c).delivery with
    | .slotted ready =>
      match s.sess.nextID with
      | none => some (s.fail c false)
      | some (sess, id) => some ({ s with sess := sess }.deliver c (.tracking id ready))
    | _ => none
  | .trackInflight c qos msg shared =>
    match (s.conns c).delivery with
    | .tracking id ready =>
      if qos = .qos0 then none
      else
        let o : Entry κ := ⟨id, qos, s.sess.sendSeq + 1, msg, false, true, none, shared⟩
        some ({ s with sess := s.sess.trackInflight o }.deliver c (.serving (ready ++ [o])))
    | _ => none
  | .recordQoS2 c failed =>
    match (s.conns c).delivery with
    | .serving ready =>
      some (s.deliver c (if failed then .refusing ready [] false else .flushing ready))
    | _ => none
  | .refuse c =>
    match (s.conns c).delivery with
    | .refusing [] kept back => some (if back then s.fail c true else s.deliver c (.flushing kept))
    | .refusing (o :: ready) kept back =>
      if o.qos = .qos2 ∧ o.shared then
        match s.sess.completeInflight c o.packetID with
        | (_, none) => some (s.deliver c (.refusing ready (kept ++ [o]) back))
        | (sess, some _) => some ({ s with sess := sess }.deliver c (.refunding ready kept))
      else some (s.deliver c (.refusing ready (kept ++ [o]) back))
    | _ => none
  | .sendPrepared c w =>
    match (s.conns c).delivery with
    | .flushing [] => some (s.deliver c (.serving []))
    | .flushing (o :: ready) =>
      match w with
      | .sent =>
        if (s.conns c).closed then none
        else some ((s.note (.publish c o.packetID o.msg o.seq)).deliver c (.flushing ready))
      | .discarded => some (s.deliver c (.discarding o.packetID ready))
      | .failed => some (s.fail c true)
    | _ => none
  | .pull c =>
    match (s.conns c).reader with
    | .offline => none
    | _ =>
      let k := s.conns c
      if k.quota < k.clientReceiveMax then
        some (s.setConn c { k with quota := k.quota + 1, pulled := k.pulled + 1 })
      else none
  | .unpull c =>
    let k := s.conns c
    if 0 < k.pulled then
      some (s.setConn c { k with quota := k.quota - 1, pulled := k.pulled - 1 })
    else none
  | .send c a =>
    let a := { a with stamp := s.log.length }
    some ((s.note (.sent c a)).setConn c
      { s.conns c with inbox := (s.conns c).inbox ++ [a] })
  | .read c =>
    match (s.conns c).reader, (s.conns c).inbox with
    | .idle, a :: inbox =>
      some ((s.note (.read c a)).setConn c
        { s.conns c with inbox := inbox, reader := recv a })
    | _, _ => none
  | .handle c queue => handle s c queue (s.conns c).reader
  | .drain c =>
    match (s.conns c).draining with
    | [] => some (s.setConn c { s.conns c with draining := (s.conns c).relIDs, relIDs := [] })
    | _ => none
  | .writePubrel c failed =>
    match (s.conns c).draining with
    | [] => none
    | (id, seq) :: rest =>
      if (failed && s.sess.heldGroupMessage id) || (s.conns c).closed then
        some (s.setConn c { s.conns c with closed := true, draining := [] })
      else
        some (({ s with sess := s.sess.settleOwned id }.note (.pubrel c id (some seq))).setConn c
          { s.conns c with draining := rest })

end Steps

/-! ## Pieces of runs -/

/-- A connection attaches and reads what is unacknowledged. -/
def attachRun (c : Nat) (receiveMax : Nat) : List (Act Nat) :=
  [.attach c receiveMax, .unacknowledged c]

/-- A message at `qos` is delivered. -/
def deliverRun (c : Nat) (qos : QoS) (msg : Nat) : List (Act Nat) :=
  [.takeSlot c, .nextID c, .trackInflight c qos msg false, .recordQoS2 c false,
    .sendPrepared c .sent, .sendPrepared c .sent]

/-- `resend` of the next snapshot, up to `takeQuotaSlot`. -/
def claimRun (c : Nat) : List (Act Nat) := [.resend c, .inflightEntry c, .takeQuotaSlot c]

/-- The client sends an acknowledgement, and the reader handles it in `n` steps. -/
def ackRun (c : Nat) (a : Ack) (n : Nat) : List (Act Nat) :=
  [.send c a, .read c] ++ List.replicate n (.handle c false)

end Natsmqtt5.Outbound
