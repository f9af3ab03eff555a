import Natsmqtt5.Away.Model

/-!
# What a step does to the messages on their way

`Outcome limit s a s'` says what the step from `s` to `s'` does, in terms of what a connection's
delivery goroutine has taken off the queue and not prepared (`Loop.taken`) and of what it has still
to write (`Loop.ready`). Steps that differ only in where the goroutine stands are one case.
-/

namespace Natsmqtt5.Away

/-- The deliveries a goroutine has taken off the queue and not prepared. -/
@[simp] def Loop.taken : Loop → List Nat
  | .taking ds => ds
  | .preparing ds _ => ds
  | .flushing _ ds => ds
  | _ => []

/-- The messages in flight that a goroutine has still to write. -/
@[simp] def Loop.ready : Loop → List Nat
  | .resending todo => todo
  | .preparing _ ready => ready
  | .flushing ready _ => ready
  | _ => []

/-- The goroutine has taken its snapshot of what is in flight, and not returned. -/
@[simp] def Loop.running : Loop → Bool
  | .offline => false
  | .starting => false
  | .stopped => false
  | _ => true

/-- What waits in a connection, oldest first. -/
def Conn.waiting (k : Conn) : List Nat := k.held ++ k.unsent ++ k.loop.taken ++ k.queue

section

variable {κ : Type} {limit : Nat} {s s' : State κ} {c : κ} {w : Write}

/-- The steps that strand nothing: no more messages than the queue and the buffer hold, an attach
only when no other connection has a message waiting or a handler on its way, and a failed write
only when the burst has nothing left to prepare. -/
def Sound (limit : Nat) (s : State κ) : Act κ → Prop
  | .route => s.next < limit ∧ s.next < deliveryQueueDepth
  | .enqueue _ => s.next < limit ∧ s.next < deliveryQueueDepth
  | .attach c => ∀ d, d ≠ c → (s.conns d).waiting = [] ∧ (s.conns d).routing = 0
  | .send c w => w = .failed → (s.conns c).loop.taken = []
  | _ => True

variable [DecidableEq κ]

instance [Fintype κ] (limit : Nat) (s : State κ) (a : Act κ) : Decidable (Sound limit s a) := by
  unfold Sound
  split <;> infer_instance

inductive Outcome (limit : Nat) (s : State κ) : Act κ → State κ → Prop
  | route : Outcome limit s .route (routeAway limit s)
  | enqueue {c : κ} {s' : State κ} (h : step limit s (.enqueue c) = some s') :
      Outcome limit s (.enqueue c) s'
  | attach {c : κ} (hl : (s.conns c).loop = .offline) : Outcome limit s (.attach c)
      { s.setConn c { s.conns c with loop := .starting, queue := (s.conns c).queue ++ s.away }
        with conn := some c, last := some c, away := [] }
  | close {c : κ} : Outcome limit s (.close c) (s.setConn c { s.conns c with closed := true })
  /-- The goroutine begins with what is in flight. -/
  | snapshot {c : κ} (hl : (s.conns c).loop = .starting) :
      Outcome limit s (.retransmit c) (s.goto c (.resending s.inflight))
  /-- The message to be resent was completed in the meantime. -/
  | skip {c : κ} {w : Write} {n : Nat} {todo : List Nat}
      (hl : (s.conns c).loop = .resending (n :: todo)) (hn : n ∉ s.inflight) :
      Outcome limit s (.resend c w) (s.goto c (.resending todo))
  | write {a : Act κ} {c : κ} {n : Nat} {w : Write} {l : Loop} (hrun : (s.conns c).loop.running)
      (hrun' : l.running) (hready : (s.conns c).loop.ready = n :: l.ready)
      (htaken : l.taken = (s.conns c).loop.taken) :
      Outcome limit s a ((s.write n w).goto c l)
  /-- A write fails. -/
  | fail {a : Act κ} {c : κ} (hrun : (s.conns c).loop.running)
      (htaken : Sound limit s a → (s.conns c).loop.taken = []) : Outcome limit s a (s.fail c)
  | exhausted {c : κ} (h : 65535 ≤ s.tracked.length) :
      Outcome limit s (.prepare c .exhausted) (s.fail c)
  | goto {a : Act κ} {c : κ} {l : Loop} (hrun : (s.conns c).loop.running) (hrun' : l.running)
      (hready : l.ready = (s.conns c).loop.ready) (htaken : l.taken = (s.conns c).loop.taken) :
      Outcome limit s a (s.goto c l)
  | take {c : κ} {d : Nat} {queue : List Nat} {l : Loop} (hrun : (s.conns c).loop.running)
      (hrun' : l.running) (hq : (s.conns c).queue = d :: queue)
      (hready : l.ready = (s.conns c).loop.ready)
      (htaken : l.taken = (s.conns c).loop.taken ++ [d]) :
      Outcome limit s (.take c true) (s.setConn c { s.conns c with queue := queue, loop := l })
  /-- A delivery leaves the queue and is not wanted. -/
  | unwanted {c : κ} {d : Nat} {queue : List Nat} (hrun : (s.conns c).loop.running)
      (hq : (s.conns c).queue = d :: queue) : Outcome limit s (.take c false)
      { s.setConn c { s.conns c with queue := queue } with dropped := s.dropped ++ [d] }
  | track {c : κ} {d : Nat} {ds ready : List Nat}
      (hl : (s.conns c).loop = .preparing (d :: ds) ready) (hopen : (s.conns c).closed = false) :
      Outcome limit s (.prepare c .ok)
        ({ s with inflight := s.inflight ++ [d], tracked := s.tracked ++ [d] }.goto c
          (.preparing ds (ready ++ [d])))
  | expire {c : κ} {d : Nat} {ds ready : List Nat}
      (hl : (s.conns c).loop = .preparing (d :: ds) ready) (hopen : (s.conns c).closed = false) :
      Outcome limit s (.prepare c .unwanted)
        ({ s with dropped := s.dropped ++ [d] }.goto c (.preparing ds ready))
  /-- The burst ends with the connection. -/
  | keep {c : κ} {p : Prepare} {ds : List Nat} {l : Loop} (hrun : (s.conns c).loop.running)
      (hclosed : (s.conns c).closed = true) (htaken : (s.conns c).loop.taken = ds)
      (hl : l = .stopped ∨ l = .flushing (s.conns c).loop.ready []) :
      Outcome limit s (.prepare c p) (s.keepUnsent c ds l)
  | stop {c : κ} (hne : (s.conns c).loop ≠ .stopped) (htaken : (s.conns c).loop.taken = []) :
      Outcome limit s (.stop c) (s.goto c .stopped)
  | sealQueue {c : κ} (hstop : (s.conns c).loop = .stopped) (hopen : (s.conns c).sealed = false) :
      Outcome limit s (.sealQueue c) (s.setConn c
        { s.conns c with sealed := true, held := (s.conns c).unsent ++ (s.conns c).queue,
                         unsent := [], queue := [] })
  | hold {c : κ} {unwanted : List Nat} (hsealed : (s.conns c).sealed = true) :
      Outcome limit s (.hold c unwanted) (holdAway limit
        { s.setConn c { s.conns c with held := [], finished := true } with
          dropped := s.dropped ++ (s.conns c).held.filter (· ∈ unwanted) }
        ((s.conns c).held.filter (· ∉ unwanted)))
  | detach {c : κ} (hfin : (s.conns c).finished = true) (hconn : s.conn = some c) :
      Outcome limit s (.detach c) { s with conn := none }
  | ack {n : Nat} (hn : n ∈ s.sent) :
      Outcome limit s (.ack n) { s with inflight := s.inflight.erase n }

theorem Outcome.of_resend (h : step limit s (.resend c w) = some s') :
    Outcome limit s (.resend c w) s' := by
  simp only [step] at h
  split at h
  · rename_i hl
    cases h
    exact .goto (by simp [hl]) rfl (by simp [hl]) (by simp [hl])
  · rename_i n todo hl
    split at h
    · rename_i hn
      cases h
      exact .skip hl hn
    · split at h
      · cases h
        exact .fail (by simp [hl]) fun _ => by simp [hl]
      · split at h <;> cases h
        exact .write (by simp [hl]) rfl (by simp [hl]) (by simp [hl])
  · cases h

theorem Outcome.of_take {wanted : Bool} (h : step limit s (.take c wanted) = some s') :
    Outcome limit s (.take c wanted) s' := by
  simp only [step] at h
  split at h
  · rename_i d queue hl hq
    split at h
    · cases h
    · cases wanted with
      | true =>
        cases h
        exact .take (by simp [hl]) rfl hq (by simp [hl]) (by simp [hl])
      | false =>
        cases h
        exact .unwanted (by simp [hl]) hq
  · rename_i ds d queue hl hq
    split at h
    · cases h
    · cases wanted with
      | true =>
        cases h
        exact .take (by simp [hl]) rfl hq (by simp [hl]) (by simp [hl])
      | false =>
        cases h
        exact .unwanted (by simp [hl]) hq
  · cases h

theorem Outcome.of_prepareStep {d : Nat} {ds ready : List Nat} {p : Prepare}
    (hl : (s.conns c).loop = .preparing (d :: ds) ready)
    (h : prepareStep s c d ds ready p = some s') : Outcome limit s (.prepare c p) s' := by
  have hrun : (s.conns c).loop.running = true := by simp [hl]
  have htaken : (s.conns c).loop.taken = d :: ds := by simp [hl]
  have hready : (s.conns c).loop.ready = ready := by simp [hl]
  unfold prepareStep at h
  cases p with
  | ok =>
    simp only at h
    split at h <;> cases h
    · rename_i hclosed
      exact .keep hrun hclosed htaken (.inl rfl)
    · rename_i hopen
      exact .track hl (by simpa using hopen)
  | noQuota =>
    simp only at h
    split at h
    · rename_i hnil
      split at h <;> cases h
      rename_i hclosed
      exact .keep hrun hclosed htaken (.inr (by rw [hready, hnil]))
    · cases h
      exact .goto hrun rfl (by simp [hl]) (by simp [hl])
  | unwanted =>
    simp only at h
    split at h <;> cases h
    · rename_i hclosed
      exact .keep hrun hclosed htaken (.inr (by rw [hready]))
    · rename_i hopen
      exact .expire hl (by simpa using hopen)
  | exhausted =>
    simp only at h
    split at h <;> cases h
    rename_i hlen
    exact .exhausted hlen

theorem Outcome.of_flush (h : step limit s (.flush c) = some s') :
    Outcome limit s (.flush c) s' := by
  simp only [step] at h
  split at h <;> cases h
  · rename_i ready hl
    exact .goto (by simp [hl]) rfl (by simp [hl]) (by simp [hl])
  · rename_i hl
    exact .goto (by simp [hl]) rfl (by simp [hl]) (by simp [hl])
  · rename_i ds _ hl
    exact .goto (by simp [hl]) rfl (by simp [hl]) (by simp [hl])

theorem Outcome.of_send (h : step limit s (.send c w) = some s') :
    Outcome limit s (.send c w) s' := by
  simp only [step] at h
  split at h
  · rename_i n ready ds hl
    have hrun : (s.conns c).loop.running = true := by simp [hl]
    split at h
    · rename_i hw
      cases h
      exact .fail hrun fun hok => hok hw
    · split at h <;> cases h
      exact .write hrun rfl (by simp [hl]) (by simp [hl])
  · cases h

theorem Outcome.of_stop (h : step limit s (.stop c) = some s') : Outcome limit s (.stop c) s' := by
  simp only [step] at h
  split at h
  · split at h <;> cases h
    · rename_i hl
      exact .stop (by simp [hl]) (by simp [hl])
    · rename_i todo hl
      exact .stop (by simp [hl]) (by simp [hl])
    · rename_i hl
      exact .stop (by simp [hl]) (by simp [hl])
  · cases h

theorem Outcome.of_step {a : Act κ} (h : step limit s a = some s') : Outcome limit s a s' := by
  cases a <;> simp only [step] at h
  case route =>
    cases h
    exact .route
  case enqueue c => exact .enqueue h
  case attach c =>
    split at h <;> cases h
    rename_i hl
    exact .attach hl
  case close c =>
    cases h
    exact .close
  case retransmit c =>
    split at h <;> cases h
    rename_i hl
    exact .snapshot hl
  case resend c w => exact .of_resend h
  case take c wanted => exact .of_take h
  case endTake c =>
    split at h
    · rename_i ds hl
      split at h <;> cases h
      exact .goto (by simp [hl]) rfl (by simp [hl]) (by simp [hl])
    · cases h
  case prepare c p =>
    split at h
    · rename_i d ds ready hl
      exact .of_prepareStep hl h
    · cases h
  case flush c => exact .of_flush h
  case send c w => exact .of_send h
  case stop c => exact .of_stop h
  case sealQueue c =>
    split at h <;> cases h
    rename_i hc
    exact .sealQueue hc.1 hc.2
  case hold c unwanted =>
    split at h <;> cases h
    rename_i hc
    exact .hold hc.1
  case detach c =>
    split at h <;> cases h
    rename_i hc
    exact .detach hc.1 hc.2
  case ack n =>
    split at h <;> cases h
    rename_i hn
    exact .ack hn

end

end Natsmqtt5.Away
