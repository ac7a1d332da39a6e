import Netx.Buf.PoolContract
import Netx.Queue.Hands

/-!
# A gateway of pool, queues and senders

The composition of the integration tests: a handler copies a datagram into a pooled
buffer and pushes that on the queue of the datagram's peer, a sender of the peer pops,
writes and releases it, and `OnDrop` is `Release`. Any number of threads do so at once.
A step is a step of the pool or of one queue, with what the thread does up to the next.
-/

set_option autoImplicit false

namespace Netx.Gateway

/-- A pooled buffer; that it has not been released is its only owner's word. -/
abbrev Packet := Buf.Held Unit

def Packet.data (b : Packet) : List UInt8 :=
  b.buf.B

/-- The nil pointer that the ring puts into empty slots. -/
instance : Inhabited Packet where
  default := {
    owner := ()
    size := 0
    buf := {
      id := 0
      full := []
      length := 0
      sizeClass := -1
      sized := nofun
      bounded := le_refl 0 }
    B := ⟨0, 0, 0⟩ }

inductive Call where
  | push (b : Packet)
  | popWait
  | close
  | drain
  deriving DecidableEq

def Call.op : Call → Queue.Op Packet
  | .push b => .push b
  | .popWait => .popWait
  | .close => .close
  | .drain => .drain

/-- What follows a `Release`: nothing, the rest of the queue call whose `OnDrop` it was,
or the next round of a sender. -/
inductive After (Q : Type) where
  | done
  | within (q : Q)
  | popWait (q : Q)
  deriving DecidableEq

/-- The next step of a thread: `Copy` before the charge and before the `sync.Pool`, a
call on a queue before it begins and then inside it, `WriteTo`, and `Release` before the
refund and before the `sync.Pool`. -/
inductive Pc (Q : Type) where
  | idle
  | reserve (q : Q) (data : List UInt8)
  | take (q : Q) (data : List UInt8)
  | call (q : Q) (call : Call)
  | within (q : Q)
  | write (q : Q) (b : Packet)
  | refund (b : Packet) (after : After Q)
  | put (b : Packet) (after : After Q)
  deriving DecidableEq

def After.next {Q : Type} : After Q → Pc Q
  | .done => .idle
  | .within q => .within q
  | .popWait q => .call q .popWait

/-- What became of the datagrams of a peer. The last are those handed to `WriteTo`, whose
error the sender ignores. -/
structure Log where
  received : Multiset (List UInt8)
  refused : Multiset (List UInt8)
  rejected : Multiset (List UInt8)
  dropped : Multiset (List UInt8)
  handed : Multiset (List UInt8)

structure World (Tid Q : Type) where
  pool : Buf.World Unit
  queue : Q → Queue.State Tid Packet
  pc : Tid → Pc Q
  log : Q → Log

/-- A datagram arrives, a sender starts, a queue is closed or drained, or a thread goes
on: outside the queues, with the choice of the `sync.Pool`, or inside one. -/
inductive Act (Q : Type) where
  | receive (q : Q) (data : List UInt8)
  | start (q : Q) (call : Call)
  | next (pick : Option Nat)
  | within (act : Queue.Act Packet)

def Call.starts : Call → Bool
  | .push _ => false
  | _ => true

section Steps

variable {Tid Q : Type} [DecidableEq Tid] [DecidableEq Q]

def World.setPc (w : World Tid Q) (tid : Tid) (pc : Pc Q) : World Tid Q :=
  { w with pc := Function.update w.pc tid pc }

def World.setQueue (w : World Tid Q) (q : Q) (queue : Queue.State Tid Packet) : World Tid Q :=
  { w with queue := Function.update w.queue q queue }

def World.setLog (w : World Tid Q) (q : Q) (log : Log) : World Tid Q :=
  { w with log := Function.update w.log q log }

def World.inPool (w : World Tid Q) (action : Buf.Action Unit) : Option (World Tid Q) :=
  (w.pool.step action).map fun pool => { w with pool }

def World.release (w : World Tid Q) (tid : Tid) (b : Packet) (after : After Q) :
    Option (World Tid Q) :=
  (w.inPool (.release b)).map (·.setPc tid (.refund b after))

def copyCall (data : List UInt8) : Buf.Call Unit :=
  .reserve () data.length (some data)

def takeCall (data : List UInt8) : Buf.Call Unit :=
  .take () data.length (some data)

def World.next (w : World Tid Q) (tid : Tid) (pick : Option Nat) : Option (World Tid Q) :=
  match w.pc tid with
  | .reserve q data =>
      let log := w.log q
      match (w.pool.pool.advance pick (copyCall data)).2 with
      | .goes _ => (w.inPool (.next (copyCall data) pick)).map (·.setPc tid (.take q data))
      | .refused =>
          (w.inPool (.next (copyCall data) pick)).map fun w =>
            (w.setPc tid .idle).setLog q { log with refused := data ::ₘ log.refused }
      | _ => none
  | .take q data =>
      match (w.pool.pool.advance pick (takeCall data)).2 with
      | .granted b =>
          (w.inPool (.next (takeCall data) pick)).map (·.setPc tid (.call q (.push b)))
      | _ => none
  | .call q call =>
      ((w.queue q).step (tid, .call call.op)).map fun queue =>
        (w.setQueue q queue).setPc tid (.within q)
  | .write q b =>
      let log := w.log q
      (w.setLog q { log with handed := b.data ::ₘ log.handed }).release tid b (.popWait q)
  | .refund b after =>
      match (w.pool.pool.advance pick (.refund b.size b.buf : Buf.Call Unit)).2 with
      | .goes _ =>
          (w.inPool (.next (.refund b.size b.buf) pick)).map (·.setPc tid (.put b after))
      | .panicked => (w.inPool (.next (.refund b.size b.buf) pick)).map (·.setPc tid .idle)
      | _ => none
  | .put b after =>
      (w.inPool (.next (.put b.buf) pick)).map (·.setPc tid after.next)
  | .idle | .within _ => none

/-- A queue call hands an item to `OnDrop`, returns, or goes on. -/
def World.settle (w : World Tid Q) (tid : Tid) (q : Q) :
    List Packet → List (Queue.Reply Packet) → Option (World Tid Q)
  | b :: _, replies =>
      let log := w.log q
      (w.setLog q { log with dropped := b.data ::ₘ log.dropped }).release tid b
        (if replies.isEmpty then .within q else .done)
  | [], [] => some w
  | [], .push _ true :: _ => some (w.setPc tid .idle)
  | [], .push b false :: _ =>
      let log := w.log q
      (w.setLog q { log with rejected := b.data ::ₘ log.rejected }).release tid b .done
  | [], .popWait (.ok b) :: _ => some (w.setPc tid (.write q b))
  | [], .popWait (.error _) :: _ => some (w.setPc tid (.call q .drain))
  | [], .close :: _ | [], .drain _ :: _ => some (w.setPc tid .idle)
  | _, _ => none

def World.inQueue (w : World Tid Q) (tid : Tid) (act : Queue.Act Packet) :
    Option (World Tid Q) :=
  match w.pc tid, act with
  | _, .call _ => none
  | .within q, act =>
      (Queue.effect (w.queue q).shared ((w.queue q).thread tid) act).bind fun e =>
        (w.setQueue q ((w.queue q).apply tid e)).settle tid q e.drops e.replies
  | _, _ => none

def World.step (w : World Tid Q) : Tid × Act Q → Option (World Tid Q)
  | (tid, .receive q data) =>
      let log := w.log q
      if w.pc tid = .idle then
        (w.inPool (.copy () data)).map fun w =>
          (w.setPc tid (.reserve q data)).setLog q { log with received := data ::ₘ log.received }
      else none
  | (tid, .start q call) =>
      if w.pc tid = .idle ∧ call.starts then some (w.setPc tid (.call q call)) else none
  | (tid, .next pick) => w.next tid pick
  | (tid, .within act) => w.inQueue tid act

def World.start (budget : Option Limit.Budget) (ring : Q → Queue.Ring Packet) :
    World Tid Q where
  pool := .start budget
  queue q := .start (ring q)
  pc _ := .idle
  log _ := ⟨0, 0, 0, 0, 0⟩

def system (Tid Q : Type) [DecidableEq Tid] [DecidableEq Q] (o : Q → Queue.Options) :
    Transition.System (World Tid Q) (Tid × Act Q) where
  initial w := ∃ budget ring, (∀ b ∈ budget, Limit.Budget.newBudget b.max = some b) ∧
    (∀ q, (o q).onDrop = true ∧ Queue.Ring.new (o q) = some (ring q)) ∧ w = .start budget ring
  step := World.step

end Steps

end Netx.Gateway
