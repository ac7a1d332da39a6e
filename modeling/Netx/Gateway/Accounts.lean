import Netx.Gateway.Composition
import Netx.Transition.Tally

/-!
# The accounts of the gateway

Every buffer that is out of the pool is in a queue or in the hands of one thread, every
call on the pool belongs to one thread, and every datagram that was received is in flight
or in one of the logs.
-/

set_option autoImplicit false

namespace Netx.Gateway

open Transition (tally tally_exchange)

section Hands

variable {Q : Type}

def Call.hand : Call → Multiset Packet
  | .push b => {b}
  | _ => 0

/-- The buffer that a thread has outside the queues. -/
def Pc.hand : Pc Q → Multiset Packet
  | .call _ c => c.hand
  | .write _ b => {b}
  | _ => 0

/-- The call on the pool that a thread is in. -/
def Pc.calls : Pc Q → Multiset (Buf.Call Unit)
  | .reserve _ data => {copyCall data}
  | .take _ data => {takeCall data}
  | .refund b _ => {.refund b.size b.buf}
  | .put b _ => {.put b.buf}
  | _ => 0

/-- The datagrams of a peer that a thread has outside the queues. -/
def Pc.flight [DecidableEq Q] (q : Q) : Pc Q → Multiset (List UInt8)
  | .reserve p data | .take p data => if p = q then {data} else 0
  | .call p c => if p = q then c.hand.map Packet.data else 0
  | .write p b => if p = q then {b.data} else 0
  | _ => 0

@[simp] theorem After.next_hand (after : After Q) : after.next.hand = 0 := by
  cases after <;> rfl

@[simp] theorem After.next_calls (after : After Q) : after.next.calls = 0 := by
  cases after <;> rfl

@[simp] theorem After.next_flight [DecidableEq Q] (after : After Q) (q : Q) :
    after.next.flight q = 0 := by
  cases after with
  | done | within => rfl
  | popWait p =>
      simp only [After.next, Pc.flight, Call.hand, Multiset.map_zero, ite_self]

theorem Pc.flight_of_hand [DecidableEq Q] {q : Q} {pc : Pc Q}
    (known : pc = .idle ∨ pc = .call q .drain ∨ ∃ b, pc = .write q b) :
    pc.flight q = pc.hand.map Packet.data ∧ (∀ p, p ≠ q → pc.flight p = 0) ∧ pc.calls = 0 := by
  rcases known with rfl | rfl | ⟨b, rfl⟩
  · exact ⟨rfl, fun _ _ => rfl, rfl⟩
  · refine ⟨?_, fun p other => if_neg (Ne.symm other), rfl⟩
    exact if_pos rfl
  · refine ⟨?_, fun p other => if_neg (Ne.symm other), rfl⟩
    rw [Pc.flight, if_pos rfl, Pc.hand, Multiset.map_singleton]

theorem Call.op_hand (call : Call) : call.op.hand = call.hand := by
  cases call <;> rfl

end Hands

def Log.settled (log : Log) : Multiset (List UInt8) :=
  log.refused + log.rejected + log.dropped + log.handed

theorem Log.settled_rejected (log : Log) (data : List UInt8) :
    { log with rejected := data ::ₘ log.rejected }.settled = log.settled + {data} := by
  simp only [Log.settled, ← Multiset.singleton_add]
  ac_rfl

theorem Log.settled_dropped (log : Log) (data : List UInt8) :
    { log with dropped := data ::ₘ log.dropped }.settled = log.settled + {data} := by
  simp only [Log.settled, ← Multiset.singleton_add]
  ac_rfl

section Pool

variable {w next : Buf.World Unit} {b : Packet} {data : List UInt8} {c : Buf.Call Unit}

theorem copy_step (stepped : w.step (.copy () data) = some next) :
    next.held = w.held ∧ next.busy = copyCall data ::ₘ w.busy := by
  cases stepped
  exact ⟨rfl, rfl⟩

theorem release_step (stepped : w.step (.release b) = some next) :
    b ::ₘ next.held = w.held ∧ next.busy = .refund b.size b.buf ::ₘ w.busy := by
  obtain ⟨member, same⟩ := Option.ite_none_right_eq_some.mp stepped
  cases same
  exact ⟨Multiset.cons_erase member, rfl⟩

/-- What a step of a call on the pool leaves to be done, and what it grants. -/
def leaves : Buf.Progress Unit → Multiset (Buf.Call Unit)
  | .goes c => {c}
  | _ => 0

def grants : Buf.Progress Unit → Multiset Packet
  | .granted b => {b}
  | _ => 0

theorem next_step {pick : Option Nat} (stepped : w.step (.next c pick) = some next) :
    next.held = grants (w.pool.advance pick c).2 + w.held ∧
      next.busy + {c} = w.busy + leaves (w.pool.advance pick c).2 := by
  simp only [Buf.World.step] at stepped
  generalize w.pool.advance pick c = result at stepped ⊢
  obtain ⟨pool, progress⟩ := result
  obtain ⟨member, same⟩ := Option.ite_none_right_eq_some.mp stepped
  obtain ⟨rest, split⟩ := Multiset.exists_cons_of_mem member
  cases same
  rw [split, Multiset.erase_cons_head, ← Multiset.singleton_add]
  cases progress with
  | goes d =>
      refine ⟨(zero_add _).symm, ?_⟩
      simp only [Buf.World.proceed, leaves, ← Multiset.singleton_add]
      ac_rfl
  | granted b =>
      refine ⟨(Multiset.singleton_add _ _).symm, ?_⟩
      simp only [Buf.World.proceed, leaves, add_zero]
      ac_rfl
  | refused | released | panicked =>
      refine ⟨(zero_add _).symm, ?_⟩
      simp only [Buf.World.proceed, leaves, add_zero]
      ac_rfl

variable {pool : Buf.Pool} {pick : Option Nat}

private theorem advance_copy (advanced : (pool.advance pick (copyCall data)).2 = .goes c) :
    c = takeCall data := by
  simp only [copyCall, Buf.Pool.advance] at advanced
  split at advanced
  · cases advanced
    rfl
  · cases advanced

theorem advance_take (advanced : (pool.advance pick (takeCall data)).2 = .granted b) :
    b.data = data := by
  cases fetched : pool.fetch data.length pick with
  | mk buffer after =>
      simp only [takeCall, Buf.Pool.advance, fetched] at advanced
      cases advanced
      exact (Buf.Pool.fetch_fits fetched).grant_copies () rfl

private theorem advance_refund
    (advanced : (pool.advance pick (.refund b.size b.buf : Buf.Call Unit)).2 = .goes c) :
    c = .put b.buf := by
  simp only [Buf.Pool.advance] at advanced
  split at advanced
  · cases advanced
  · cases advanced
    rfl

end Pool

section Worlds

variable {Tid Q : Type}

theorem World.inPool_eq {w next : World Tid Q} {action : Buf.Action Unit}
    {goes : World Tid Q → World Tid Q} (stepped : (w.inPool action).map goes = some next) :
    ∃ pool, w.pool.step action = some pool ∧ next = goes { w with pool } := by
  rw [World.inPool, Option.map_map] at stepped
  obtain ⟨pool, found, same⟩ := Option.map_eq_some_iff.mp stepped
  exact ⟨pool, found, same.symm⟩

variable [DecidableEq Tid] [DecidableEq Q]

inductive Moves (w : World Tid Q) (tid : Tid) : World Tid Q → Prop where
  | receive (q : Q) (data : List UInt8) (pool : Buf.World Unit) : w.pc tid = .idle →
      w.pool.step (.copy () data) = some pool →
      Moves w tid (({ w with pool }.setPc tid (.reserve q data)).setLog q
        { w.log q with received := data ::ₘ (w.log q).received })
  | start (q : Q) (c : Call) : w.pc tid = .idle → c.starts = true →
      Moves w tid (w.setPc tid (.call q c))
  | reserved (q : Q) (data : List UInt8) (pick : Option Nat) (pool : Buf.World Unit) :
      w.pc tid = .reserve q data →
      (w.pool.pool.advance pick (copyCall data)).2 = .goes (takeCall data) →
      w.pool.step (.next (copyCall data) pick) = some pool →
      Moves w tid ({ w with pool }.setPc tid (.take q data))
  | refused (q : Q) (data : List UInt8) (pick : Option Nat) (pool : Buf.World Unit) :
      w.pc tid = .reserve q data →
      (w.pool.pool.advance pick (copyCall data)).2 = .refused →
      w.pool.step (.next (copyCall data) pick) = some pool →
      Moves w tid (({ w with pool }.setPc tid .idle).setLog q
        { w.log q with refused := data ::ₘ (w.log q).refused })
  | taken (q : Q) (data : List UInt8) (b : Packet) (pick : Option Nat) (pool : Buf.World Unit) :
      w.pc tid = .take q data →
      (w.pool.pool.advance pick (takeCall data)).2 = .granted b →
      w.pool.step (.next (takeCall data) pick) = some pool →
      Moves w tid ({ w with pool }.setPc tid (.call q (.push b)))
  | call (q : Q) (c : Call) (e : Queue.Effect Packet) : w.pc tid = .call q c →
      Queue.effect (w.queue q).shared ((w.queue q).thread tid) (.call c.op) = some e →
      Moves w tid ((w.setQueue q ((w.queue q).apply tid e)).setPc tid (.within q))
  | write (q : Q) (b : Packet) (pool : Buf.World Unit) : w.pc tid = .write q b →
      w.pool.step (.release b) = some pool →
      Moves w tid (({ w with pool }.setLog q
        { w.log q with handed := b.data ::ₘ (w.log q).handed }).setPc tid (.refund b (.popWait q)))
  | refunded (b : Packet) (after : After Q) (pick : Option Nat) (pool : Buf.World Unit) :
      w.pc tid = .refund b after →
      (w.pool.pool.advance pick (.refund b.size b.buf : Buf.Call Unit)).2 = .goes (.put b.buf) →
      w.pool.step (.next (.refund b.size b.buf) pick) = some pool →
      Moves w tid ({ w with pool }.setPc tid (.put b after))
  | panicked (b : Packet) (after : After Q) (pick : Option Nat) (pool : Buf.World Unit) :
      w.pc tid = .refund b after →
      (w.pool.pool.advance pick (.refund b.size b.buf : Buf.Call Unit)).2 = .panicked →
      w.pool.step (.next (.refund b.size b.buf) pick) = some pool →
      Moves w tid ({ w with pool }.setPc tid .idle)
  | put (b : Packet) (after : After Q) (pick : Option Nat) (pool : Buf.World Unit) :
      w.pc tid = .put b after → w.pool.step (.next (.put b.buf) pick) = some pool →
      Moves w tid ({ w with pool }.setPc tid after.next)
  | goesOn (q : Q) (act : Queue.Act Packet) (e : Queue.Effect Packet) : w.pc tid = .within q →
      act.hand = 0 → Queue.effect (w.queue q).shared ((w.queue q).thread tid) act = some e →
      e.drops = [] → e.replies = [] →
      Moves w tid (w.setQueue q ((w.queue q).apply tid e))
  | returns (q : Q) (act : Queue.Act Packet) (e : Queue.Effect Packet)
      (reply : Queue.Reply Packet) (pc : Pc Q) :
      w.pc tid = .within q → act.hand = 0 →
      Queue.effect (w.queue q).shared ((w.queue q).thread tid) act = some e →
      e.drops = [] → e.replies = [reply] → reply.hand = pc.hand →
      pc = .idle ∨ pc = .call q .drain ∨ (∃ b, pc = .write q b) →
      Moves w tid ((w.setQueue q ((w.queue q).apply tid e)).setPc tid pc)
  | rejected (q : Q) (act : Queue.Act Packet) (e : Queue.Effect Packet) (b : Packet)
      (pool : Buf.World Unit) : w.pc tid = .within q → act.hand = 0 →
      Queue.effect (w.queue q).shared ((w.queue q).thread tid) act = some e →
      e.drops = [] → e.replies = [.push b false] → w.pool.step (.release b) = some pool →
      Moves w tid ((({ w with pool }.setQueue q ((w.queue q).apply tid e)).setLog q
        { w.log q with rejected := b.data ::ₘ (w.log q).rejected }).setPc tid (.refund b .done))
  | dropped (q : Q) (act : Queue.Act Packet) (e : Queue.Effect Packet) (b : Packet)
      (pool : Buf.World Unit) : w.pc tid = .within q → act.hand = 0 →
      Queue.effect (w.queue q).shared ((w.queue q).thread tid) act = some e →
      e.drops = [b] → e.returned = 0 → w.pool.step (.release b) = some pool →
      Moves w tid ((({ w with pool }.setQueue q ((w.queue q).apply tid e)).setLog q
        { w.log q with dropped := b.data ::ₘ (w.log q).dropped }).setPc tid
          (.refund b (if e.replies.isEmpty then .within q else .done)))

variable {w next : World Tid Q} {tid : Tid}

theorem World.next_moves {pick : Option Nat} (stepped : w.next tid pick = some next) :
    Moves w tid next := by
  unfold World.next at stepped
  split at stepped
  · rename_i q data here
    split at stepped
    · rename_i c advanced
      cases advance_copy advanced
      obtain ⟨pool, found, rfl⟩ := World.inPool_eq stepped
      exact .reserved q data pick pool here advanced found
    · rename_i advanced
      obtain ⟨pool, found, rfl⟩ := World.inPool_eq stepped
      exact .refused q data pick pool here advanced found
    · cases stepped
  · rename_i q data here
    split at stepped
    · rename_i b advanced
      obtain ⟨pool, found, rfl⟩ := World.inPool_eq stepped
      exact .taken q data b pick pool here advanced found
    · cases stepped
  · rename_i q c here
    obtain ⟨_, inside, rfl⟩ := Option.map_eq_some_iff.mp stepped
    obtain ⟨e, found, rfl⟩ := Option.map_eq_some_iff.mp inside
    exact .call q c e here found
  · rename_i q b here
    obtain ⟨pool, found, rfl⟩ := World.inPool_eq stepped
    exact .write q b pool here found
  · rename_i b after here
    split at stepped
    · rename_i c advanced
      cases advance_refund advanced
      obtain ⟨pool, found, rfl⟩ := World.inPool_eq stepped
      exact .refunded b after pick pool here advanced found
    · rename_i advanced
      obtain ⟨pool, found, rfl⟩ := World.inPool_eq stepped
      exact .panicked b after pick pool here advanced found
    · cases stepped
  · rename_i b after here
    obtain ⟨pool, found, rfl⟩ := World.inPool_eq stepped
    exact .put b after pick pool here found
  · cases stepped
  · cases stepped

theorem World.settle_moves {q : Q} {act : Queue.Act Packet} {e : Queue.Effect Packet}
    (here : w.pc tid = .within q) (quiet : act.hand = 0)
    (found : Queue.effect (w.queue q).shared ((w.queue q).thread tid) act = some e)
    (settled : (w.setQueue q ((w.queue q).apply tid e)).settle tid q e.drops e.replies =
      some next) : Moves w tid next := by
  rcases (Queue.effect_moves found).single with ⟨drops, none | ⟨reply, one⟩⟩ | ⟨b, one, nothing⟩
  · rw [drops, none] at settled
    cases settled
    exact .goesOn q act e here quiet found drops none
  · rw [drops, one] at settled
    cases reply with
    | push b accepted =>
        cases accepted with
        | true =>
            cases settled
            exact .returns q act e _ .idle here quiet found drops one rfl (.inl rfl)
        | false =>
            obtain ⟨pool, released, rfl⟩ := World.inPool_eq settled
            exact .rejected q act e b pool here quiet found drops one released
    | popWait result =>
        cases result with
        | ok b =>
            cases settled
            exact .returns q act e _ (.write q b) here quiet found drops one rfl
              (.inr (.inr ⟨b, rfl⟩))
        | error err =>
            cases settled
            exact .returns q act e _ (.call q .drain) here quiet found drops one rfl
              (.inr (.inl rfl))
    | close | drain =>
        cases settled
        exact .returns q act e _ .idle here quiet found drops one rfl (.inl rfl)
    | _ => cases settled
  · rw [one] at settled
    obtain ⟨pool, released, rfl⟩ := World.inPool_eq settled
    exact .dropped q act e b pool here quiet found one nothing released

theorem World.step_moves {act : Act Q} (stepped : w.step (tid, act) = some next) :
    Moves w tid next := by
  cases act with
  | receive q data =>
      obtain ⟨idle, copied⟩ := Option.ite_none_right_eq_some.mp stepped
      obtain ⟨pool, found, rfl⟩ := World.inPool_eq copied
      exact .receive q data pool idle found
  | start q c =>
      obtain ⟨⟨idle, starts⟩, same⟩ := Option.ite_none_right_eq_some.mp stepped
      cases same
      exact .start q c idle starts
  | next pick => exact World.next_moves stepped
  | within _ =>
      simp only [World.step, World.inQueue] at stepped
      split at stepped
      · cases stepped
      · rename_i inner _ _ q here notCall
        obtain ⟨e, found, settled⟩ := Option.bind_eq_some_iff.mp stepped
        refine World.settle_moves here ?_ found settled
        cases inner with
        | call op => exact absurd rfl (notCall op)
        | _ => rfl
      · cases stepped

variable [Fintype Tid] [Fintype Q]

structure World.Accounted (w : World Tid Q) : Prop where
  busy : w.pool.busy = tally Finset.univ w.pc Pc.calls
  held : w.pool.held =
    tally Finset.univ w.queue Queue.State.items + tally Finset.univ w.pc Pc.hand
  logged : ∀ q, (w.log q).received = (w.log q).settled +
    tally Finset.univ w.pc (Pc.flight q) + (w.queue q).items.map Packet.data

theorem World.Accounted.change (accounted : w.Accounted) {pc : Pc Q}
    (pcs : next.pc = Function.update w.pc tid pc) (queues : next.queue = w.queue)
    (logs : next.log = w.log)
    (busy : next.pool.busy + (w.pc tid).calls = w.pool.busy + pc.calls)
    (held : next.pool.held + (w.pc tid).hand = w.pool.held + pc.hand)
    (flight : ∀ q, pc.flight q = (w.pc tid).flight q) : next.Accounted := by
  have exchange {M : Type} [AddCommMonoid M] (weight : Pc Q → M) :=
    tally_exchange weight pcs (Finset.mem_univ tid)
  refine ⟨?_, ?_, fun q => ?_⟩
  · rw [accounted.busy, ← exchange] at busy
    exact add_right_cancel busy
  · rw [accounted.held, add_assoc, ← exchange, ← add_assoc] at held
    rw [queues]
    exact add_right_cancel held
  · have same := exchange (Pc.flight q)
    rw [flight q] at same
    rw [queues, logs, add_right_cancel same]
    exact accounted.logged q

theorem World.Accounted.exchange (accounted : w.Accounted) {q : Q} {pc : Pc Q}
    {queue : Queue.State Tid Packet} {log : Log}
    (pcs : next.pc = Function.update w.pc tid pc)
    (queues : next.queue = Function.update w.queue q queue)
    (logs : next.log = Function.update w.log q log)
    (busy : next.pool.busy + (w.pc tid).calls = w.pool.busy + pc.calls)
    (held : next.pool.held + ((w.queue q).items + (w.pc tid).hand) =
      w.pool.held + (queue.items + pc.hand))
    (logged : log.received +
        ((w.log q).settled + (w.pc tid).flight q + (w.queue q).items.map Packet.data) =
      (w.log q).received + (log.settled + pc.flight q + queue.items.map Packet.data))
    (elsewhere : ∀ p, p ≠ q → pc.flight p = (w.pc tid).flight p) : next.Accounted := by
  have exchange {M : Type} [AddCommMonoid M] (weight : Pc Q → M) :=
    tally_exchange weight pcs (Finset.mem_univ tid)
  have moved : tally Finset.univ next.queue Queue.State.items + (w.queue q).items =
      tally Finset.univ w.queue Queue.State.items + queue.items :=
    tally_exchange _ queues (Finset.mem_univ q)
  refine ⟨?_, ?_, fun p => ?_⟩
  · rw [accounted.busy, ← exchange] at busy
    exact add_right_cancel busy
  · refine add_right_cancel (b := (w.queue q).items + (w.pc tid).hand) (held.trans ?_)
    calc w.pool.held + (queue.items + pc.hand)
        = (tally Finset.univ w.queue Queue.State.items + queue.items) +
            (tally Finset.univ w.pc Pc.hand + pc.hand) := by
          rw [accounted.held]
          ac_rfl
      _ = (tally Finset.univ next.queue Queue.State.items + (w.queue q).items) +
            (tally Finset.univ next.pc Pc.hand + (w.pc tid).hand) := by rw [moved, exchange]
      _ = _ := by ac_rfl
  · by_cases same : p = q
    · subst same
      rw [queues, logs, Function.update_self, Function.update_self]
      refine add_right_cancel (b := (w.log p).settled + (w.pc tid).flight p +
        (w.queue p).items.map Packet.data) (logged.trans ?_)
      rw [accounted.logged p]
      calc (w.log p).settled + tally Finset.univ w.pc (Pc.flight p) +
            (w.queue p).items.map Packet.data +
            (log.settled + pc.flight p + queue.items.map Packet.data)
          = (w.log p).settled + (tally Finset.univ w.pc (Pc.flight p) + pc.flight p) +
            (w.queue p).items.map Packet.data +
            (log.settled + queue.items.map Packet.data) := by ac_rfl
        _ = (w.log p).settled + (tally Finset.univ next.pc (Pc.flight p) +
              (w.pc tid).flight p) + (w.queue p).items.map Packet.data +
            (log.settled + queue.items.map Packet.data) := by rw [exchange]
        _ = _ := by ac_rfl
    · have flight := exchange (Pc.flight p)
      rw [elsewhere p same] at flight
      rw [queues, logs, Function.update_of_ne same, Function.update_of_ne same,
        add_right_cancel flight]
      exact accounted.logged p

end Worlds

end Netx.Gateway
