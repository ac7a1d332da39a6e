import Netx.Gateway.Accounts
import Netx.Queue.Closing

/-!
# No buffer is lost between pool and queues

What the pool and the queues promise on their own holds of them inside the gateway, and
the accounts tie them together.
-/

set_option autoImplicit false

namespace Netx.Gateway

open Transition (System tally tally_split)

section Queues

def serves : Queue.Pc Packet → Prop
  | .push _ | .pushSignal _ _ | .pushDrop _ _ => True
  | .pop (.wait _) | .popSignal _ _ (.wait _) | .popMore _ (.wait _) => True
  | .popWaitCheck | .popWaitSelect => True
  | .close | .closeDone | .drain | .drainDrop _ _ => True
  | _ => False

def answers : Queue.Reply Packet → Prop
  | .push _ _ | .popWait _ | .close | .drain _ => True
  | _ => False

variable {s : Queue.Shared Packet} {pc : Queue.Pc Packet} {act : Queue.Act Packet}
  {e : Queue.Effect Packet}

private theorem serves_entry (c : Call) : serves c.op.entry := by
  cases c <;> trivial

private theorem serves_moves (served : serves pc) (moved : Queue.Moves s pc act e) :
    (serves e.pc ∧ e.replies = []) ∨
      e.pc = .idle ∧ ∃ reply, e.replies = [reply] ∧ answers reply := by
  cases moved with
  | popSignal v caller | popMore v caller =>
      cases caller with
      | direct => exact served.elim
      | wait woken => exact .inr ⟨rfl, _, rfl, trivial⟩
  | pop v more caller | popSignalMore v caller =>
      cases caller with
      | direct => exact served.elim
      | wait woken => exact .inl ⟨trivial, rfl⟩
  | pushRefused | pushSignal | pushDrop | popWaitEmpty | popWaitCancel | closeAgain | closeDone
  | drain | drainDone => exact .inr ⟨rfl, _, rfl, trivial⟩
  | push | pushSignalDrop | popWaitNone | popWaitPark | popWaitToken | popWaitClosed | closeFirst
  | drainDrops | drainDrop => exact .inl ⟨trivial, rfl⟩
  | _ => exact served.elim

/-- Only a `PopWait` that finds no token and `done` open can do nothing but be cancelled. -/
theorem serves_enabled (s : Queue.Shared Packet) (served : serves pc) :
    (∃ act e, Queue.effect s pc act = some e ∧ act ≠ .cancel ∧ ∀ op, act ≠ .call op) ∨
      pc = .popWaitSelect ∧ s.notEmpty = false ∧ s.done = false := by
  have goes {e : Queue.Effect Packet} (found : Queue.effect s pc .next = some e) :
      ∃ act e, Queue.effect s pc act = some e ∧ act ≠ .cancel ∧ ∀ op, act ≠ .call op :=
    ⟨.next, e, found, by simp, by simp⟩
  cases pc with
  | push | pop | drain | pushDrop | closeDone | popMore => exact .inl (goes rfl)
  | pushSignal v evicted =>
      cases evicted with
      | none => exact .inl (goes rfl)
      | some dropped =>
          cases hook : s.ring.onDrop <;> exact .inl (goes (by simp only [Queue.effect, hook]; rfl))
  | popSignal v more caller => cases more <;> exact .inl (goes rfl)
  | popWaitCheck =>
      by_cases ended : s.ring.closed = true ∧ s.ring.n = 0
      · exact .inl (goes (if_pos ended))
      · exact .inl (goes (if_neg ended))
  | popWaitSelect =>
      cases token : s.notEmpty with
      | true => exact .inl ⟨.token, _, if_pos token, by simp, by simp⟩
      | false =>
          cases done : s.done with
          | true => exact .inl ⟨.closed, _, if_pos done, by simp, by simp⟩
          | false => exact .inr ⟨rfl, rfl, rfl⟩
  | close =>
      cases result : s.ring.close with
      | mk first ring =>
          cases first <;> exact .inl (goes (by simp only [Queue.effect, result]; rfl))
  | drainDrop count rest => cases rest <;> exact .inl (goes rfl)
  | _ => exact served.elim

/-- A `PopWait` waits: its queue is empty and open, or a thread is on its way to wake it. -/
def Waits {Tid : Type} (s : Queue.State Tid Packet) (tid : Tid) : Prop :=
  s.thread tid = .popWaitSelect ∧
    (s.shared.ring.contents = [] ∧ s.shared.ring.closed = false ∨
      ∃ other, s.thread other = .closeDone ∨ (s.thread other).RefillsNotEmpty)

private theorem waits_of_parked {Tid : Type} [DecidableEq Tid] {o : Queue.Options}
    {s : Queue.State Tid Packet} (reached : (Queue.system Tid Packet o).Reachable s) {tid : Tid}
    (parked : s.thread tid = .popWaitSelect) (token : s.shared.notEmpty = false)
    (done : s.shared.done = false) : Waits s tid := by
  refine ⟨parked, ?_⟩
  cases closed : s.shared.ring.closed with
  | true =>
      obtain ⟨other, closing⟩ := (Queue.reachable_close_cover reached closed).resolve_left
        (by simp [done])
      exact .inr ⟨other, .inl closing⟩
  | false =>
      by_cases occupied : 0 < s.shared.ring.n
      · obtain ⟨other, refills⟩ := (Queue.reachable_consumer_cover reached occupied).resolve_left
          (by simp [token, done])
        exact .inr ⟨other, .inr refills⟩
      · refine .inl ⟨List.length_eq_zero_iff.mp ?_, rfl⟩
        rw [Queue.Ring.length_contents]
        omega

end Queues

def After.stands {Q : Type} : After Q → Option Q
  | .within q => some q
  | _ => none

def Pc.stands {Q : Type} : Pc Q → Option Q
  | .within q => some q
  | .refund _ after | .put _ after => after.stands
  | _ => none

theorem After.next_stands {Q : Type} (after : After Q) : after.next.stands = after.stands := by
  cases after <;> rfl

section Steps

variable {Tid Q : Type} [DecidableEq Tid] [DecidableEq Q] {o : Q → Queue.Options}
  {w next : World Tid Q} {tid : Tid}

/-- A step is a step of the pool or none, and of each queue or none. -/
theorem Moves.parts (moved : Moves w tid next) :
    (next.pool = w.pool ∨ ∃ action, w.pool.step action = some next.pool) ∧
      ∀ q, next.queue q = w.queue q ∨ ∃ act, (w.queue q).step (tid, act) = some (next.queue q) := by
  have moves : ∀ {q act e}, Queue.effect (w.queue q).shared ((w.queue q).thread tid) act = some e →
      ∀ p, Function.update w.queue q ((w.queue q).apply tid e) p = w.queue p ∨
        ∃ act, (w.queue p).step (tid, act) =
          some (Function.update w.queue q ((w.queue q).apply tid e) p) := by
    intro q act e found p
    by_cases same : p = q
    · subst same
      refine .inr ⟨act, ?_⟩
      rw [Queue.State.step, found, Function.update_self]
      rfl
    · exact .inl (Function.update_of_ne same _ _)
  cases moved with
  | receive q data pool _ stepped | write q b pool _ stepped =>
      exact ⟨.inr ⟨_, stepped⟩, fun _ => .inl rfl⟩
  | start => exact ⟨.inl rfl, fun _ => .inl rfl⟩
  | reserved _ _ _ _ _ _ stepped | refused _ _ _ _ _ _ stepped | taken _ _ _ _ _ _ _ stepped
  | refunded _ _ _ _ _ _ stepped | panicked _ _ _ _ _ _ stepped | put _ _ _ _ _ stepped =>
      exact ⟨.inr ⟨_, stepped⟩, fun _ => .inl rfl⟩
  | call q c e _ found | goesOn q act e _ _ found | returns q act e reply pc _ _ found =>
      exact ⟨.inl rfl, moves found⟩
  | rejected q act e b pool _ _ found _ _ stepped | dropped q act e b pool _ _ found _ _ stepped =>
      exact ⟨.inr ⟨_, stepped⟩, moves found⟩

def World.Placed (w : World Tid Q) : Prop :=
  ∀ q tid, if (w.pc tid).stands = some q then serves ((w.queue q).thread tid)
    else (w.queue q).thread tid = .idle

variable {pc : Pc Q} {e : Queue.Effect Packet} {b : Packet} {q : Q} {c : Buf.Call Unit}

omit [DecidableEq Tid] in
theorem World.Placed.served (placed : w.Placed) (stands : (w.pc tid).stands = some q) :
    serves ((w.queue q).thread tid) := by
  have place := placed q tid
  rwa [if_pos stands] at place

omit [DecidableEq Tid] in
theorem World.Placed.idle (placed : w.Placed) (q : Q) (stands : (w.pc tid).stands = none) :
    (w.queue q).thread tid = .idle := by
  have place := placed q tid
  rwa [stands, if_neg (Option.some_ne_none q).symm] at place

theorem World.Placed.aside (placed : w.Placed) (pcs : next.pc = Function.update w.pc tid pc)
    (queues : next.queue = w.queue) (stands : pc.stands = (w.pc tid).stands) : next.Placed := by
  intro q other
  have place := placed q other
  rw [queues, pcs]
  by_cases same : other = tid
  · subst same
    rw [Function.update_self, stands]
    exact place
  · rw [Function.update_of_ne same]
    exact place

theorem World.Placed.inside (placed : w.Placed) (pcs : next.pc = Function.update w.pc tid pc)
    (queues : next.queue = Function.update w.queue q ((w.queue q).apply tid e))
    (before : (w.pc tid).stands = some q ∨ (w.pc tid).stands = none)
    (after : pc.stands = some q ∧ serves e.pc ∨ pc.stands = none ∧ e.pc = .idle) : next.Placed := by
  intro p other
  have place := placed p other
  rw [queues, pcs]
  by_cases same : other = tid
  · subst same
    rw [Function.update_self]
    by_cases here : p = q
    · subst here
      rw [Function.update_self]
      simp only [Queue.State.apply, Function.update_self]
      rcases after with ⟨stands, served⟩ | ⟨stands, idle⟩
      · rw [if_pos stands]
        exact served
      · rw [stands, if_neg (Option.some_ne_none p).symm]
        exact idle
    · rw [Function.update_of_ne here]
      have elsewhere : ∀ {s : Option Q}, s = some q ∨ s = none → s ≠ some p := by
        rintro _ (rfl | rfl) same
        · exact here (Option.some.inj same).symm
        · cases same
      rw [if_neg (elsewhere before)] at place
      rw [if_neg (elsewhere (after.imp And.left And.left))]
      exact place
  · rw [Function.update_of_ne same]
    by_cases here : p = q
    · subst here
      rw [Function.update_self]
      simp only [Queue.State.apply, Function.update_of_ne same]
      exact place
    · rw [Function.update_of_ne here]
      exact place

private theorem next_panics {pool pool' : Buf.World Unit} {pick : Option Nat}
    (stepped : pool.step (.next c pick) = some pool')
    (advanced : (pool.pool.advance pick c).2 = .panicked) : pool'.panicked = true := by
  simp only [Buf.World.step] at stepped
  obtain ⟨_, same⟩ := Option.ite_none_right_eq_some.mp stepped
  rw [advanced] at same
  cases same
  rfl

theorem World.Placed.step (placed : w.Placed) (calm : next.pool.panicked = false)
    (moved : Moves w tid next) : next.Placed := by
  have stood {q : Q} (here : w.pc tid = .within q) : (w.pc tid).stands = some q := by
    rw [here]
    rfl
  have within : ∀ {q e act}, w.pc tid = .within q →
      Queue.effect (w.queue q).shared ((w.queue q).thread tid) act = some e →
      (serves e.pc ∧ e.replies = []) ∨
        e.pc = .idle ∧ ∃ reply, e.replies = [reply] ∧ answers reply := by
    intro q e act here found
    exact serves_moves (placed.served (stood here)) (Queue.effect_moves found)
  cases moved with
  | receive q data pool here | start q c here | reserved q data pick pool here
  | refused q data pick pool here | taken q data b pick pool here | write q b pool here
  | refunded b after pick pool here =>
      refine placed.aside rfl rfl ?_
      rw [here]
      rfl
  | panicked b after pick pool here advanced stepped =>
      cases calm.symm.trans (next_panics stepped advanced)
  | put b after pick pool here =>
      refine placed.aside rfl rfl ?_
      rw [here]
      exact after.next_stands
  | call q c e here found =>
      rw [placed.idle q (by rw [here]; rfl)] at found
      cases found
      refine placed.inside rfl rfl ?_ (.inl ⟨rfl, serves_entry c⟩)
      rw [here]
      exact .inr rfl
  | goesOn q act e here quiet found drops replies =>
      rcases within here found with ⟨served, _⟩ | ⟨_, reply, one, _⟩
      · exact placed.inside (Function.update_eq_self tid w.pc).symm rfl (.inl (stood here))
          (.inl ⟨stood here, served⟩)
      · rw [replies] at one
        cases one
  | returns q act e reply pc here quiet found drops one hand known =>
      rcases within here found with ⟨_, none⟩ | ⟨idle, _⟩
      · rw [one] at none
        cases none
      · refine placed.inside rfl rfl (.inl (stood here)) (.inr ⟨?_, idle⟩)
        rcases known with rfl | rfl | ⟨b, rfl⟩ <;> rfl
  | rejected q act e b pool here quiet found drops one =>
      rcases within here found with ⟨_, none⟩ | ⟨idle, _⟩
      · rw [one] at none
        cases none
      · exact placed.inside rfl rfl (.inl (stood here)) (.inr ⟨rfl, idle⟩)
  | dropped q act e b pool here quiet found =>
      refine placed.inside rfl rfl (.inl (stood here)) ?_
      rcases within here found with ⟨served, none⟩ | ⟨idle, reply, one, _⟩
      · refine .inl ⟨?_, served⟩
        rw [none]
        rfl
      · refine .inr ⟨?_, idle⟩
        rw [one]
        rfl

variable [Fintype Tid]

omit [DecidableEq Q] in
theorem apply_items {act : Queue.Act Packet}
    (reached : (Queue.system Tid Packet (o q)).Reachable (w.queue q)) (hook : (o q).onDrop = true)
    (found : Queue.effect (w.queue q).shared ((w.queue q).thread tid) act = some e) :
    (w.queue q).items + act.hand = ((w.queue q).apply tid e).items + (e.returned + e.drops) := by
  refine Queue.State.apply_items ((Queue.effect_moves found).conserves ?_ ?_)
  · exact (Queue.reachable_ledger reached).1
  · rw [Queue.reachable_onDrop reached, hook]

variable [Fintype Q]

theorem World.Accounted.inPool (accounted : w.Accounted) {pick : Option Nat} {pool : Buf.World Unit}
    (stepped : w.pool.step (.next c pick) = some pool) (before : (w.pc tid).calls = {c})
    (empty : (w.pc tid).hand = 0) (after : pc.calls = leaves (w.pool.pool.advance pick c).2)
    (granted : pc.hand = grants (w.pool.pool.advance pick c).2)
    (flight : ∀ q, pc.flight q = (w.pc tid).flight q) :
    ({ w with pool }.setPc tid pc).Accounted := by
  obtain ⟨held, busy⟩ := next_step stepped
  refine accounted.change rfl rfl rfl ?_ ?_ flight
  · rw [before, after]
    exact busy
  · rw [empty, granted, add_zero, add_comm]
    exact held

theorem World.Accounted.gives (accounted : w.Accounted) {after : After Q}
    {queue : Queue.State Tid Packet} {log : Log}
    (pcs : next.pc = Function.update w.pc tid (.refund b after))
    (queues : next.queue = Function.update w.queue q queue)
    (logs : next.log = Function.update w.log q log) (here : w.pc tid = .within q)
    (items : (w.queue q).items = queue.items + {b})
    (stepped : w.pool.step (.release b) = some next.pool)
    (received : log.received = (w.log q).received)
    (settled : log.settled = (w.log q).settled + {b.data}) : next.Accounted := by
  obtain ⟨held, busy⟩ := release_step stepped
  refine accounted.exchange pcs queues logs ?_ ?_ ?_ ?_ <;>
    simp only [here, ← held, busy, items, received, settled, Pc.calls, Pc.hand, Pc.flight,
      ← Multiset.singleton_add, Multiset.map_add, Multiset.map_singleton, add_zero, implies_true]
  · ac_rfl
  · ac_rfl
  · ac_rfl

theorem World.Accounted.step (accounted : w.Accounted)
    (reached : ∀ q, (Queue.system Tid Packet (o q)).Reachable (w.queue q))
    (hook : ∀ q, (o q).onDrop = true) (moved : Moves w tid next) : next.Accounted := by
  cases moved with
  | receive q data pool here stepped =>
      obtain ⟨held, busy⟩ := copy_step stepped
      refine accounted.exchange rfl (Function.update_eq_self q w.queue).symm rfl ?_ ?_ ?_ ?_ <;>
        simp only [here, World.setPc, World.setLog, held, busy, Pc.calls, Pc.hand, Pc.flight,
          Log.settled, if_true, ← Multiset.singleton_add, add_zero]
      · ac_rfl
      · ac_rfl
      · exact fun p other => if_neg other.symm
  | start q c here starts =>
      have empty : c.hand = 0 := by
        cases c with
        | push b => cases starts
        | popWait | close | drain => rfl
      refine accounted.change rfl rfl rfl ?_ ?_ ?_ <;>
        simp [here, World.setPc, Pc.calls, Pc.hand, Pc.flight, empty]
  | refused q data pick pool here advanced stepped =>
      obtain ⟨held, busy⟩ := next_step stepped
      rw [advanced] at held busy
      refine accounted.exchange rfl (Function.update_eq_self q w.queue).symm rfl ?_ ?_ ?_ ?_ <;>
        simp only [here, World.setPc, World.setLog, held, Pc.hand, Pc.flight, grants,
          Log.settled, if_true, ← Multiset.singleton_add, add_zero, zero_add]
      · exact busy
      · ac_rfl
      · exact fun p other => (if_neg other.symm).symm
  | taken q data b pick pool here advanced stepped =>
      refine accounted.inPool stepped ?_ ?_ ?_ ?_ fun p => ?_ <;> simp only [here, advanced]
      · rfl
      · rfl
      · rfl
      · rfl
      · simp only [Pc.flight, Call.hand, Multiset.map_singleton, advance_take advanced]
  | write q b pool here stepped =>
      obtain ⟨held, busy⟩ := release_step stepped
      refine accounted.exchange rfl (Function.update_eq_self q w.queue).symm rfl ?_ ?_ ?_ ?_ <;>
        simp only [here, World.setPc, World.setLog, ← held, busy, Pc.calls, Pc.hand, Pc.flight,
          Log.settled, if_true, ← Multiset.singleton_add, add_zero]
      · ac_rfl
      · ac_rfl
      · ac_rfl
      · exact fun p other => (if_neg other.symm).symm
  | reserved _ _ pick pool here advanced stepped | refunded _ _ pick pool here advanced stepped
  | panicked _ _ pick pool here advanced stepped =>
      refine accounted.inPool stepped ?_ ?_ ?_ ?_ fun p => ?_ <;> simp only [here, advanced] <;> rfl
  | put b after pick pool here stepped =>
      refine accounted.inPool stepped ?_ ?_ after.next_calls after.next_hand fun p => ?_ <;>
        rw [here]
      · rfl
      · rfl
      · exact after.next_flight p
  | call q c e here found =>
      have items := apply_items (reached q) (hook q) found
      obtain ⟨returned, drops⟩ := (Queue.effect_moves found).call_quiet
      have same : (w.queue q).items + c.hand = ((w.queue q).apply tid e).items := by
        simpa [returned, drops, Queue.Act.hand, c.op_hand] using items
      refine accounted.exchange rfl rfl (Function.update_eq_self q w.log).symm ?_ ?_ ?_ ?_ <;>
        simp only [here, World.setPc, World.setQueue, ← same, Pc.calls, Pc.hand, Pc.flight, if_true,
          Multiset.map_add, add_zero]
      · ac_rfl
      · exact fun p other => (if_neg other.symm).symm
  | goesOn q act e here quiet found drops replies =>
      have items := apply_items (reached q) (hook q) found
      rw [quiet, Queue.Effect.returned, drops, replies] at items
      have same : (w.queue q).items = ((w.queue q).apply tid e).items := by simpa using items
      refine accounted.exchange (Function.update_eq_self tid w.pc).symm rfl
        (Function.update_eq_self q w.log).symm rfl ?_ ?_ fun _ _ => rfl <;>
        simp only [World.setQueue, same]
  | returns q act e reply pc here quiet found drops one hand known =>
      have items := apply_items (reached q) (hook q) found
      rw [quiet, Queue.Effect.returned, drops, one] at items
      have same : (w.queue q).items = ((w.queue q).apply tid e).items + pc.hand := by
        simpa [hand] using items
      obtain ⟨flight, elsewhere, calls⟩ := Pc.flight_of_hand known
      refine accounted.exchange rfl rfl (Function.update_eq_self q w.log).symm ?_ ?_ ?_ ?_ <;>
        rw [here]
      · rw [calls]
        rfl
      · rw [same]
        exact congrArg (w.pool.held + ·) (add_zero _)
      · rw [same, flight, Multiset.map_add]
        simp only [Pc.flight, add_zero]
        ac_rfl
      · exact elsewhere
  | rejected q act e b pool here quiet found drops one stepped =>
      have items := apply_items (reached q) (hook q) found
      rw [quiet, Queue.Effect.returned, drops, one] at items
      have same : (w.queue q).items = ((w.queue q).apply tid e).items + {b} := by
        simpa [Queue.Reply.hand] using items
      exact accounted.gives rfl rfl rfl here same stepped rfl (Log.settled_rejected _ _)
  | dropped q act e b pool here quiet found drops nothing stepped =>
      have items := apply_items (reached q) (hook q) found
      rw [quiet, nothing, drops] at items
      have same : (w.queue q).items = ((w.queue q).apply tid e).items + {b} := by
        simpa using items
      exact accounted.gives rfl rfl rfl here same stepped rfl (Log.settled_dropped _ _)

structure World.Sound (o : Q → Queue.Options) (w : World Tid Q) : Prop where
  pool : (Buf.system Unit).Reachable w.pool
  queue : ∀ q, (Queue.system Tid Packet (o q)).Reachable (w.queue q)
  hook : ∀ q, (o q).onDrop = true
  placed : w.Placed
  accounted : w.Accounted

omit [DecidableEq Tid] [DecidableEq Q] [Fintype Q] in
private theorem tally_idle (idle : ∀ tid, w.pc tid = .idle) {M : Type} [AddCommMonoid M]
    {weight : Pc Q → M} (zero : weight .idle = 0) : tally Finset.univ w.pc weight = 0 :=
  Finset.sum_eq_zero fun tid _ => by rw [idle tid, zero]

theorem World.Sound.start {budget : Option Limit.Budget} {ring : Q → Queue.Ring Packet}
    (made : ∀ b ∈ budget, Limit.Budget.newBudget b.max = some b)
    (created : ∀ q, (o q).onDrop = true ∧ Queue.Ring.new (o q) = some (ring q)) :
    (World.start budget ring : World Tid Q).Sound o where
  pool := .initial ⟨budget, made, rfl⟩
  queue q := .initial ⟨ring q, (created q).2, rfl⟩
  hook q := (created q).1
  placed q tid := if_neg (Option.some_ne_none q).symm |>.mpr rfl
  accounted := by
    have none (q : Q) : ((World.start budget ring : World Tid Q).queue q).items = 0 :=
      Queue.State.items_eq_zero (Queue.Ring.new_valid (created q).2).2 fun _ => rfl
    have idle (tid : Tid) : (World.start budget ring : World Tid Q).pc tid = .idle := rfl
    refine ⟨(tally_idle idle rfl).symm, ?_, fun q => ?_⟩
    · rw [tally_idle idle rfl, add_zero]
      exact (Finset.sum_eq_zero fun q _ => none q).symm
    · rw [none q, tally_idle idle rfl]
      rfl

theorem World.Sound.step (sound : w.Sound o) {act : Act Q}
    (stepped : w.step (tid, act) = some next) : next.Sound o := by
  have moved := World.step_moves stepped
  obtain ⟨pool, queues⟩ := moved.parts
  have reached : (Buf.system Unit).Reachable next.pool := by
    rcases pool with same | ⟨action, inside⟩
    · exact same ▸ sound.pool
    · exact sound.pool.step inside
  refine ⟨reached, fun q => ?_, sound.hook, ?_, ?_⟩
  · rcases queues q with same | ⟨act, inside⟩
    · exact same ▸ sound.queue q
    · exact (sound.queue q).step inside
  · exact sound.placed.step (Buf.World.Sound.reached reached).calm moved
  · exact sound.accounted.step sound.queue sound.hook moved

theorem World.Sound.reached (reached : (system Tid Q o).Reachable w) : w.Sound o := by
  refine reached.invariant (World.Sound o) ?_ ?_
  · rintro _ ⟨budget, ring, made, created, rfl⟩
    exact .start made created
  · rintro _ ⟨tid, act⟩ _ _ sound stepped
    exact sound.step stepped

theorem World.Accounted.mem_held (accounted : w.Accounted) (here : w.pc tid = pc)
    (member : b ∈ pc.hand) : b ∈ w.pool.held := by
  rw [accounted.held, tally_split _ (Finset.mem_univ tid), here]
  exact Multiset.mem_add.mpr (.inr (Multiset.mem_add.mpr (.inl member)))

omit [DecidableEq Tid] in
theorem World.Accounted.mem_items (accounted : w.Accounted) (member : b ∈ (w.queue q).items) :
    b ∈ w.pool.held := by
  rw [accounted.held, tally_split _ (Finset.mem_univ q)]
  exact Multiset.mem_add.mpr (.inl (Multiset.mem_add.mpr (.inl member)))

theorem World.Accounted.advances (accounted : w.Accounted) (here : w.pc tid = pc)
    (calls : pc.calls = {c}) :
    c ∈ w.pool.busy ∧ ∃ pool, w.pool.step (.next c none) = some pool := by
  have busy : c ∈ w.pool.busy := by
    rw [accounted.busy, tally_split _ (Finset.mem_univ tid), here, calls]
    exact Multiset.mem_add.mpr (.inl (Multiset.mem_singleton_self c))
  exact ⟨busy, _, if_pos busy⟩

omit [DecidableEq Q] [Fintype Tid] [Fintype Q] in
private theorem release_enabled (held : b ∈ w.pool.held) (after : After Q) :
    ∃ next, w.release tid b after = some next := by
  have stepped : w.pool.step (.release b) = some _ := if_pos held
  exact ⟨_, by rw [World.release, World.inPool, stepped]; rfl⟩

omit [Fintype Tid] [Fintype Q] in
private theorem settle_enabled (dropped : ∀ b ∈ e.drops, b ∈ w.pool.held)
    (rejected : ∀ b, .push b false ∈ e.replies → b ∈ w.pool.held)
    (known : e.replies = [] ∨ ∃ reply, e.replies = [reply] ∧ answers reply) :
    ∃ next, w.settle tid q e.drops e.replies = some next := by
  cases drops : e.drops with
  | cons b rest =>
      rw [drops] at dropped
      simp only [World.settle]
      refine release_enabled ?_ _
      exact dropped b List.mem_cons_self
  | nil =>
      rcases known with none | ⟨reply, one, answered⟩
      · rw [none]
        exact ⟨w, rfl⟩
      · rw [one] at rejected ⊢
        cases reply with
        | push b accepted =>
            cases accepted with
            | true => exact ⟨_, rfl⟩
            | false =>
                simp only [World.settle]
                refine release_enabled ?_ _
                exact rejected b List.mem_cons_self
        | popWait result => cases result <;> exact ⟨_, rfl⟩
        | close | drain => exact ⟨_, rfl⟩
        | _ => exact answered.elim

/-- A step of a queue call returns and drops only what it held, which can be dealt with. -/
theorem World.Sound.settles (sound : w.Sound o) {act : Queue.Act Packet}
    (served : serves ((w.queue q).thread tid))
    (found : Queue.effect (w.queue q).shared ((w.queue q).thread tid) act = some e)
    (outside : ∀ op, act ≠ .call op) :
    ∃ next, (w.setQueue q ((w.queue q).apply tid e)).settle tid q e.drops e.replies =
      some next := by
  have quiet : act.hand = 0 := by
    cases act with
    | call op => exact absurd rfl (outside op)
    | _ => rfl
  have items := apply_items (sound.queue q) (sound.hook q) found
  rw [quiet, add_zero] at items
  have given : ∀ b ∈ e.returned + e.drops, b ∈ w.pool.held := by
    intro b member
    refine sound.accounted.mem_items (q := q) ?_
    rw [items]
    exact Multiset.mem_add.mpr (.inr member)
  have known := serves_moves served (Queue.effect_moves found)
  refine settle_enabled (fun b member => ?_) (fun b member => ?_) ?_
  · exact given b (Multiset.mem_add.mpr (.inr (Multiset.mem_coe.mpr member)))
  · refine given b (Multiset.mem_add.mpr (.inl ?_))
    rcases known with ⟨_, none⟩ | ⟨_, reply, one, _⟩
    · rw [none] at member
      cases member
    · rw [one, List.mem_singleton] at member
      rw [Queue.Effect.returned, one, ← member]
      exact Multiset.mem_singleton_self b
  · exact known.imp And.right And.right

/-- A thread that has something to do can do it, without its context being cancelled, or
waits in `PopWait`: nothing it releases has been released before, and no call on the pool or
on a queue gets stuck. -/
theorem World.Sound.progress (sound : w.Sound o) (working : w.pc tid ≠ .idle) :
    (∃ act next, act ≠ .within .cancel ∧ w.step (tid, act) = some next) ∨
      ∃ q, w.pc tid = .within q ∧ Waits (w.queue q) tid := by
  have contract := (Buf.World.Sound.reached sound.pool).contract
  have goes (found : ∃ next, w.step (tid, .next none) = some next) :
      ∃ act next, act ≠ .within .cancel ∧ w.step (tid, act) = some next :=
    found.elim fun next stepped => ⟨.next none, next, by simp, stepped⟩
  cases here : w.pc tid with
  | idle => exact absurd here working
  | reserve q data =>
      obtain ⟨busy, pool, stepped⟩ := sound.accounted.advances here rfl
      refine .inl (goes ?_)
      simp only [World.step, World.next, here, World.inPool, stepped]
      by_cases exhausted : w.pool.pool.Exhausted data.length
      · have advanced := contract.refuses () data.length (some data) none busy exhausted
        rw [show w.pool.pool.advance none (copyCall data) = _ from advanced]
        exact ⟨_, rfl⟩
      · obtain ⟨_, advanced⟩ := contract.admits () data.length (some data) none busy exhausted
        rw [show w.pool.pool.advance none (copyCall data) = _ from advanced]
        exact ⟨_, rfl⟩
  | take q data =>
      obtain ⟨busy, pool, stepped⟩ := sound.accounted.advances here rfl
      refine .inl (goes ?_)
      simp only [World.step, World.next, here, World.inPool, stepped]
      obtain ⟨_, b, advanced, _⟩ := contract.grants () data.length (some data) none busy
      rw [show w.pool.pool.advance none (takeCall data) = _ from advanced]
      exact ⟨_, rfl⟩
  | call q c =>
      have idle := sound.placed.idle q (by rw [here]; rfl)
      refine .inl (goes ?_)
      simp only [World.step, World.next, here, Queue.State.step, idle, Queue.effect]
      exact ⟨_, rfl⟩
  | within q =>
      have served := sound.placed.served (q := q) (by rw [here]; rfl)
      rcases serves_enabled (w.queue q).shared served with
        ⟨act, e, found, going, outside⟩ | ⟨parked, token, done⟩
      case inr => exact .inr ⟨q, rfl, waits_of_parked (sound.queue q) parked token done⟩
      obtain ⟨next, settled⟩ := sound.settles served found outside
      refine .inl ⟨.within act, next, by simpa using going, ?_⟩
      cases act with
      | call op => exact absurd rfl (outside op)
      | _ =>
          simp only [World.step, World.inQueue, here, found, Option.bind_some]
          exact settled
  | write q b =>
      refine .inl (goes ?_)
      simp only [World.step, World.next, here]
      refine release_enabled ?_ _
      exact sound.accounted.mem_held here (Multiset.mem_singleton_self b)
  | refund b after =>
      obtain ⟨busy, pool, stepped⟩ := sound.accounted.advances here rfl
      refine .inl (goes ?_)
      simp only [World.step, World.next, here, World.inPool, stepped]
      obtain ⟨_, _, advanced, _⟩ := contract.refunds b.size b.buf none busy
      rw [advanced]
      exact ⟨_, rfl⟩
  | put b after =>
      obtain ⟨_, pool, stepped⟩ := sound.accounted.advances here rfl
      refine .inl (goes ?_)
      simp only [World.step, World.next, here, World.inPool, stepped]
      exact ⟨_, rfl⟩

omit [Fintype Tid] [Fintype Q] in
/-- A run of the gateway is a run of each of its queues. -/
theorem queue_leads {actions : List (Tid × Act Q)}
    (executed : (system Tid Q o).exec w actions = some next) (q : Q) :
    (w.queue q).Leads (o q) (next.queue q) := by
  refine System.exec_keeps (fun later : World Tid Q => (w.queue q).Leads (o q) (later.queue q)) ?_
    ⟨[], rfl⟩ executed
  rintro before ⟨tid, act⟩ after ⟨front, led⟩ stepped
  rcases (World.step_moves stepped).parts.2 q with same | ⟨inner, inside⟩
  · exact same ▸ ⟨front, led⟩
  · refine ⟨front ++ [(tid, inner)], ?_⟩
    rw [System.exec_append, led, Option.bind_some]
    exact System.exec_step inside rfl

structure Contract (o : Q → Queue.Options) (w : World Tid Q) : Prop where
  pool : Buf.PoolContract w.pool
  queue : ∀ q, Queue.Ledger (w.queue q)
  /-- A buffer that is out of the pool is in one queue, one queue call or one thread. -/
  held : w.pool.held =
    tally Finset.univ w.queue Queue.State.items + tally Finset.univ w.pc Pc.hand
  /-- A datagram is refused, rejected, dropped, handed to `WriteTo` for its own peer, or on
  its way there. -/
  conserved : ∀ q, (w.log q).received = (w.log q).settled +
    tally Finset.univ w.pc (Pc.flight q) + (w.queue q).items.map Packet.data
  /-- Nobody needs a cancellation to go on, except a `PopWait` with nothing to wake up for yet. -/
  progress : ∀ tid, w.pc tid ≠ .idle →
    (∃ act next, act ≠ .within .cancel ∧ w.step (tid, act) = some next) ∨
      ∃ q, w.pc tid = .within q ∧ Waits (w.queue q) tid
  /-- A queue that is closed and drained stays empty. -/
  shut : ∀ q actions later, (w.queue q).shared.ring.closed = true →
    (w.queue q).shared.ring.contents = [] → (system Tid Q o).exec w actions = some later →
    (later.queue q).shared.ring.closed = true ∧ (later.queue q).shared.ring.contents = []
  /-- With nobody at work and nothing queued, nothing is charged and all is settled. -/
  settled : (∀ tid, w.pc tid = .idle) → (∀ q, (w.queue q).shared.ring.contents = []) →
    w.pool.held = 0 ∧ (∀ b, w.pool.pool.budget = some b → b.used = 0) ∧
      ∀ q, (w.log q).received = (w.log q).settled

theorem gateway_loses_no_buffer (o : Q → Queue.Options)
    (reached : (system Tid Q o).Reachable w) : Contract o w := by
  have sound := World.Sound.reached reached
  have pool := (Buf.World.Sound.reached sound.pool).contract
  refine ⟨pool, fun q => (Queue.reachable_ledger (sound.queue q)).2, sound.accounted.held,
    sound.accounted.logged, fun tid => sound.progress, ?_, fun idle empty => ?_⟩
  · intro q actions later closed empty executed
    obtain ⟨closedLater, _, fewer⟩ := (queue_leads executed q).closed (sound.queue q) closed
    rw [← Queue.Ring.length_contents, ← Queue.Ring.length_contents, empty] at fewer
    exact ⟨closedLater, List.length_eq_zero_iff.mp (Nat.le_zero.mp fewer)⟩
  · have items (q : Q) : (w.queue q).items = 0 := Queue.State.items_eq_zero (empty q) fun tid =>
      sound.placed.idle q (by rw [idle tid]; rfl)
    have none : w.pool.held = 0 := by
      rw [sound.accounted.held, tally_idle idle rfl, add_zero]
      exact Finset.sum_eq_zero fun q _ => items q
    refine ⟨none, fun b budget => ?_, fun q => ?_⟩
    · rw [pool.settled (sound.accounted.busy.trans (tally_idle idle rfl)) b budget, none]
      rfl
    · rw [sound.accounted.logged q, tally_idle idle rfl, items q]
      simp

end Steps

def oneSlot (_ : Unit) : Queue.Options :=
  ⟨1, .dropOldest, true⟩

/-- A handler gets three datagrams. The second is evicted by the third, the others are
written, and the queue is closed and drained. -/
def evictingRun : List (Bool × Act Unit) :=
  let receive (data : List UInt8) : List (Bool × Act Unit) :=
    (false, .receive () data) :: List.replicate 3 (false, .next none)
  let within (tid : Bool) (n : Nat) : List (Bool × Act Unit) :=
    List.replicate n (tid, .within .next)
  let next (tid : Bool) (n : Nat) : List (Bool × Act Unit) := List.replicate n (tid, .next none)
  [receive [1], within false 2, [(true, .start () .popWait)], next true 1, within true 2,
    next true 4, receive [2], within false 2, receive [3], within false 3, next false 2,
    within true 2, next true 4, [(false, .start () .close)], next false 1, within false 2,
    within true 2, next true 1, within true 2].flatten

def evictingStart : World Bool Unit :=
  .start (some ⟨192, 0⟩) fun _ => (Queue.Ring.new (oneSlot ())).get rfl

theorem gateway_loses_no_buffer_evicting :
    ∃ w : World Bool Unit,
      (system Bool Unit oneSlot).exec evictingStart evictingRun = some w ∧
      (w.pool.pool.budget = some ⟨192, 0⟩ ∧
        (w.log ()).handed = {[1], [3]} ∧ (w.log ()).dropped = {[2]}) ∧ Contract oneSlot w := by
  have checked : ((system Bool Unit oneSlot).exec evictingStart evictingRun).any (fun w => decide
      (w.pool.pool.budget = some ⟨192, 0⟩ ∧
        (w.log ()).handed = {[1], [3]} ∧ (w.log ()).dropped = {[2]})) = true := by
    decide +kernel
  obtain ⟨w, executed, facts⟩ := System.exec_of_check _ checked
  have begun : (system Bool Unit oneSlot).initial evictingStart := by
    refine ⟨some ⟨192, 0⟩, _, ?_, fun q => ⟨rfl, Option.some_get _ |>.symm⟩, rfl⟩
    rintro _ ⟨⟩
    rfl
  exact ⟨w, executed, of_decide_eq_true facts,
    gateway_loses_no_buffer oneSlot (.exec (.initial begun) executed)⟩

end Netx.Gateway
