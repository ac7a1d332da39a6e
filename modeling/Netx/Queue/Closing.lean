import Netx.Queue.WakeUps

/-!
# Closing a shared ring

`Close` sets the flag in its critical section and closes `done` in a later
step. From the first step on nothing is accepted, so an empty ring stays empty;
from the second on every waiter can move.
-/

set_option autoImplicit false

namespace Netx.Queue

open Transition (System)

variable {T : Type}

/-- What a step does to `done` and to its own call: `done` stays closed, a call replies
with the last of its steps, and `PopWait` reports a closed ring where it has just found
the ring closed and empty. -/
structure Orderly (s : Shared T) (e : Effect T) : Prop where
  done : s.done = true → e.shared.done = true
  idle : ∀ reply, e.replies = [reply] → e.pc = .idle
  finished : e.replies = [.popWait (.error .closed)] →
    s.ring.closed = true ∧ s.ring.n = 0 ∧ e.shared = s

variable {s : Shared T} {e : Effect T}

theorem Orderly.silent (done : s.done = true → e.shared.done = true) (none : e.replies = []) :
    Orderly s e := by
  refine ⟨done, fun reply replied => ?_, fun replied => ?_⟩
  · rw [none] at replied
    cases replied
  · rw [none] at replied
    cases replied

theorem Orderly.reply {shared : Shared T} {reply : Reply T}
    (done : s.done = true → shared.done = true) (other : reply ≠ .popWait (.error .closed)) :
    Orderly s (.reply shared reply) := by
  refine ⟨done, fun _ _ => rfl, fun replied => ?_⟩
  exact absurd (List.cons.inj replied).1 other

variable [Inhabited T]

/-- A step on a closed ring accepts nothing and leaves the ring closed. -/
theorem Moves.after_close {pc : Pc T} {act : Act T} (moved : Moves s pc act e)
    (valid : s.ring.Valid) (shut : s.ring.closed = true) :
    e.shared.ring.closed = true ∧ e.accepted = [] ∧ e.shared.ring.n ≤ s.ring.n := by
  cases moved with
  | pushRefused v result =>
      obtain ⟨_, _, closed, same, _⟩ := Ring.push_spec valid result
      exact ⟨closed.trans shut, rfl, same.le⟩
  | @push v evicted ring result =>
      obtain ⟨_, _, _, pushed⟩ := Ring.push_spec valid result
      cases evicted <;> exact absurd shut (by simp [pushed.1])
  | pushWaitRefused v woken result =>
      obtain ⟨_, _, closed, _, same, _⟩ := Ring.pushWait_spec valid result
      exact ⟨closed.trans shut, rfl, same.le⟩
  | pushWait v woken result | pushWaitPark v woken result =>
      obtain ⟨_, _, _, opened, _⟩ := Ring.pushWait_spec valid result
      exact absurd shut (by simp [opened])
  | popNone result | popWaitNone woken result =>
      obtain ⟨_, _, _, _, rfl⟩ := Ring.pop_spec valid result
      exact ⟨shut, rfl, Nat.le_refl _⟩
  | pop v more caller result =>
      obtain ⟨_, _, closed, _, fewer, _⟩ := Ring.pop_spec valid result
      exact ⟨closed.trans shut, rfl, by simp only; omega⟩
  | drainDrops result | drain result =>
      obtain ⟨_, _, closed, empty, _⟩ := Ring.drain_spec valid result
      exact ⟨closed.trans shut, rfl, empty ▸ Nat.zero_le _⟩
  | closeFirst result | closeAgain result =>
      obtain ⟨_, _, closed, same, _⟩ := Ring.close_spec valid result
      exact ⟨closed, rfl, same.le⟩
  | _ => exact ⟨shut, rfl, Nat.le_refl _⟩

theorem Moves.orderly {pc : Pc T} {act : Act T} (moved : Moves s pc act e) : Orderly s e := by
  cases moved with
  | popWaitEmpty closed empty => exact ⟨id, fun _ _ => rfl, fun _ => ⟨closed, empty, rfl⟩⟩
  | closeDone => exact .reply (fun _ => rfl) nofun
  | pushDrop | drain => exact ⟨id, fun _ _ => rfl, nofun⟩
  | popSignal v caller | popMore v caller => cases caller <;> exact .reply id nofun
  | _ => first | exact .silent id rfl | exact .reply id nofun

section Runs

variable {Tid : Type} [DecidableEq Tid] {o : Options} {s next later : State Tid T}

/-- Some run leads from one state to the other. -/
def State.Leads (o : Options) (s later : State Tid T) : Prop :=
  ∃ actions, (system Tid T o).exec s actions = some later

theorem State.Leads.reachable (leads : s.Leads o later) (reached : (system Tid T o).Reachable s) :
    (system Tid T o).Reachable later :=
  leads.elim fun _ executed => reached.exec executed

/-- What every step keeps in reachable states holds wherever a run leads. -/
theorem State.Leads.keeps (leads : s.Leads o later) (reached : (system Tid T o).Reachable s)
    (property : State Tid T → Prop)
    (keep : ∀ (state : State Tid T) (tid : Tid) (act : Act T) (e : Effect T),
      state.shared.ring.Valid → property state →
      Moves state.shared (state.thread tid) act e → property (state.apply tid e))
    (held : property s) : property later := by
  obtain ⟨actions, executed⟩ := leads
  refine (System.exec_keeps (fun state => (system Tid T o).Reachable state ∧ property state) ?_
    ⟨reached, held⟩ executed).2
  rintro state ⟨tid, act⟩ after ⟨before, holds⟩ stepped
  refine ⟨before.step stepped, ?_⟩
  obtain ⟨e, moved, rfl⟩ := State.step_moves stepped
  exact keep state tid act e (reachable_ledger before).1 holds moved

theorem State.Leads.closed (leads : s.Leads o later) (reached : (system Tid T o).Reachable s)
    (shut : s.shared.ring.closed = true) :
    later.shared.ring.closed = true ∧ later.accepted = s.accepted ∧
      later.shared.ring.n ≤ s.shared.ring.n := by
  refine leads.keeps reached (fun state => state.shared.ring.closed = true ∧
    state.accepted = s.accepted ∧ state.shared.ring.n ≤ s.shared.ring.n) ?_
    ⟨shut, rfl, Nat.le_refl _⟩
  rintro state tid act e valid ⟨closed, accepted, fewer⟩ moved
  obtain ⟨closedAfter, none, fewerAfter⟩ := moved.after_close valid closed
  refine ⟨closedAfter, ?_, fewerAfter.trans fewer⟩
  simp only [State.apply, none, List.map_nil, List.append_nil, accepted]

theorem State.Leads.done (leads : s.Leads o later) (reached : (system Tid T o).Reachable s)
    (done : s.shared.done = true) : later.shared.done = true :=
  leads.keeps reached (fun state => state.shared.done = true)
    (fun _ _ _ _ _ held moved => moved.orderly.done held) done

theorem State.Leads.replies (leads : s.Leads o later) (reached : (system Tid T o).Reachable s) :
    ∃ more, later.replies = s.replies ++ more := by
  refine leads.keeps reached (fun state => ∃ more, state.replies = s.replies ++ more) ?_
    ⟨[], (List.append_nil _).symm⟩
  rintro state tid act e _ ⟨more, known⟩ _
  exact ⟨more ++ e.replies.map (tid, ·), by simp only [State.apply, known, List.append_assoc]⟩

/-- The step that ends a call with the reply. -/
def State.Replies (s : State Tid T) (tid : Tid) (reply : Reply T) (next : State Tid T) : Prop :=
  (∃ act, s.step (tid, act) = some next) ∧ next.replies = s.replies ++ [(tid, reply)]

variable {tid : Tid}

theorem State.Replies.reachable {reply : Reply T} (ends : s.Replies tid reply next)
    (reached : (system Tid T o).Reachable s) : (system Tid T o).Reachable next :=
  ends.1.elim fun _ stepped => reached.step stepped

theorem State.Replies.moves {reply : Reply T} (ends : s.Replies tid reply next) :
    ∃ act e, Moves s.shared (s.thread tid) act e ∧ next = s.apply tid e ∧ e.replies = [reply] := by
  obtain ⟨⟨act, stepped⟩, logged⟩ := ends
  obtain ⟨e, moved, rfl⟩ := State.step_moves stepped
  obtain ⟨only, replied, same⟩ :=
    List.map_eq_singleton_iff.mp (List.append_cancel_left logged)
  exact ⟨act, e, moved, rfl, replied.trans (by rw [(Prod.mk.inj same).2])⟩

/-- A `Pop` or `PopWait` that has taken an item out has only to signal before it
returns it, and no other thread can keep it from that. -/
theorem State.returns_popped (o : Options) (ledger : Ledger s) (tid : Tid) :
    ∃ count final, count ≤ 2 ∧
      (system Tid T o).exec s (List.replicate count (tid, .next)) = some final ∧
      (ofThread tid final.replies).flatMap Reply.popped =
        (ofThread tid s.removed).filterMap Removal.popped? := by
  have account := ledger.popped tid
  have settled : ∀ (final : State Tid T) (caller : Caller) (v : T), (s.thread tid).popped = [v] →
      final.replies = s.replies ++ [caller.popped v].map (tid, ·) →
      (ofThread tid final.replies).flatMap Reply.popped =
        (ofThread tid s.removed).filterMap Removal.popped? := by
    intro final caller v held known
    rw [known, account, held, ofThread_append, ofThread_own, List.flatMap_append]
    cases caller <;> rfl
  cases stands : s.thread tid with
  | popSignal v more caller =>
      cases more with
      | false =>
          refine ⟨1, _, by omega, by simp [system, State.step, stands, effect]; rfl, ?_⟩
          exact settled _ caller v (by rw [stands, Pc.popped]) rfl
      | true =>
          refine ⟨2, _, by omega,
            by simp [system, State.step, stands, effect, State.apply]; rfl, ?_⟩
          exact settled _ caller v (by rw [stands, Pc.popped]) (by simp [Effect.reply])
  | popMore v caller =>
      refine ⟨1, _, by omega, by simp [system, State.step, stands, effect]; rfl, ?_⟩
      exact settled _ caller v (by rw [stands, Pc.popped]) rfl
  | _ =>
      refine ⟨0, s, by omega, rfl, ?_⟩
      simpa [stands, Pc.popped] using account.symm

/-- Nothing is left in a closed ring. Every accepted item was dropped by `Drain`
or an eviction, or taken out by a `Pop` or `PopWait` that has returned it or does
so within two steps of its own. -/
structure State.Drained (o : Options) (s : State Tid T) : Prop where
  closed : s.shared.ring.closed = true
  empty : s.shared.ring.contents = []
  removed : s.accepted.map Prod.snd = s.removed.map fun entry => entry.2.item
  returned : ∀ tid, (ofThread tid s.removed).filterMap Removal.popped? =
    (ofThread tid s.replies).flatMap Reply.popped ++ (s.thread tid).popped
  returns : ∀ tid, ∃ count final, count ≤ 2 ∧
    (system Tid T o).exec s (List.replicate count (tid, .next)) = some final ∧
    (ofThread tid final.replies).flatMap Reply.popped =
      (ofThread tid s.removed).filterMap Removal.popped?

private theorem drained_of_empty (reached : (system Tid T o).Reachable s)
    (closed : s.shared.ring.closed = true) (none : s.shared.ring.n = 0) : s.Drained o := by
  obtain ⟨_, ledger⟩ := reachable_ledger reached
  have empty : s.shared.ring.contents = [] := by
    rw [← List.length_eq_zero_iff, Ring.length_contents, none]
  refine ⟨closed, empty, ?_, ledger.popped, State.returns_popped o ledger⟩
  have conserved := ledger.conserved
  simpa only [State.fifo, empty, List.append_nil] using conserved

/-- A call of the thread that ends in `next` has added nothing to the ring, and what its
thread adds later belongs to later calls. -/
structure State.Unsent (o : Options) (s : State Tid T) (tid : Tid) (next : State Tid T) : Prop where
  accepted : next.accepted = s.accepted
  before : ofThread tid next.accepted = (ofThread tid s.replies).flatMap Reply.accepted
  after : ∀ later, next.Leads o later → ∃ more, later.replies = next.replies ++ more ∧
    ofThread tid later.accepted = ofThread tid next.accepted ++
      (ofThread tid more).flatMap Reply.accepted ++ (later.thread tid).accepted

/-- What `Close` promises, seen from one reachable state. -/
structure Closing (o : Options) (s : State Tid T) : Prop where
  /-- The critical section of the first `Close` is the last to see the ring open. -/
  refuses : ∀ tid next later, s.thread tid = .close → s.shared.ring.closed = false →
    s.step (tid, .next) = some next → next.Leads o later →
    next.thread tid = .closeDone ∧ later.shared.ring.closed = true ∧
      later.accepted = s.accepted
  drains : ∀ tid next later, s.Replies tid (.popWait (.error .closed)) next →
    next.Leads o later → s.Drained o ∧ later.Drained o
  unsent : ∀ tid v err next, s.Replies tid (.pushWait v (some err)) next → s.Unsent o tid next
  /-- The first `Close` returns from `closeDone`. -/
  wakes : ∀ tid next later waiter, s.thread tid = .closeDone →
    s.step (tid, .next) = some next → next.Leads o later →
    (later.thread waiter).ParkedPush ∨ (later.thread waiter).ParkedPop →
    ∃ woken, later.step (waiter, .closed) = some woken

private theorem unsent_of_failed (reached : (system Tid T o).Reachable s) {v : T} {err : WaitError}
    (ends : s.Replies tid (.pushWait v (some err)) next) : s.Unsent o tid next := by
  obtain ⟨act, e, moved, rfl, replied⟩ := ends.moves
  obtain ⟨valid, ledger⟩ := reachable_ledger reached
  have idle := moved.orderly.idle _ replied
  have account := (moved.balanced valid).accepted
  rw [replied, idle] at account
  obtain ⟨held, none⟩ := List.append_eq_nil_iff.mp account
  have reachedNext := ends.reachable reached
  have accepted : (s.apply tid e).accepted = s.accepted := by
    simp only [State.apply, none, List.map_nil, List.append_nil]
  have before := ledger.accepted tid
  rw [held, List.append_nil] at before
  refine ⟨accepted, by rw [accepted, before], ?_⟩
  intro later leads
  obtain ⟨more, known⟩ := leads.replies reachedNext
  have total := (reachable_ledger (leads.reachable reachedNext)).2.accepted tid
  refine ⟨more, known, ?_⟩
  have own : ofThread tid (s.apply tid e).replies =
      ofThread tid s.replies ++ [.pushWait v (some err)] := by
    rw [State.apply, ofThread_append, ofThread_own, replied]
  rw [total, known, ofThread_append, own, accepted, before]
  simp [Reply.accepted]

private theorem parked_wakes (done : s.shared.done = true) {waiter : Tid}
    (parked : (s.thread waiter).ParkedPush ∨ (s.thread waiter).ParkedPop) :
    ∃ woken, s.step (waiter, .closed) = some woken := by
  cases stands : s.thread waiter with
  | pushWaitSelect v => simp [State.step, stands, effect, done]
  | popWaitSelect => simp [State.step, stands, effect, done]
  | _ => simp [stands, Pc.ParkedPush, Pc.ParkedPop] at parked

/-- `Close` loses no accepted item and strands no waiter. -/
theorem close_loses_and_strands_nothing (o : Options) (reached : (system Tid T o).Reachable s) :
    Closing o s where
  refuses := by
    intro tid next later stands opened stepped leads
    obtain ⟨e, moved, rfl⟩ := State.step_moves stepped
    rw [stands] at moved
    have reachedNext := reached.step stepped
    cases moved with
    | closeFirst result =>
        obtain ⟨_, _, closed, _⟩ := Ring.close_spec (reachable_ledger reached).1 result
        obtain ⟨shut, accepted, _⟩ := leads.closed reachedNext closed
        refine ⟨Function.update_self .., shut, accepted.trans ?_⟩
        simp [State.apply]
    | closeAgain result =>
        obtain ⟨_, _, _, _, _, again⟩ := Ring.close_spec (reachable_ledger reached).1 result
        simp [opened] at again
  drains := by
    intro tid next later ends leads
    obtain ⟨act, e, moved, rfl, replied⟩ := ends.moves
    obtain ⟨closed, none, same⟩ := moved.orderly.finished replied
    have reachedNext := ends.reachable reached
    obtain ⟨shut, _, fewer⟩ := leads.closed reachedNext (by rw [State.apply, same, closed])
    refine ⟨drained_of_empty reached closed none,
      drained_of_empty (leads.reachable reachedNext) shut ?_⟩
    rw [State.apply, same, none] at fewer
    exact Nat.le_zero.mp fewer
  unsent := fun _ _ _ _ ends => unsent_of_failed reached ends
  wakes := by
    intro tid next later waiter stands stepped leads parked
    obtain ⟨e, moved, rfl⟩ := State.step_moves stepped
    rw [stands] at moved
    cases moved with
    | closeDone => exact parked_wakes (leads.done (reached.step stepped) rfl) parked

/-- While `Close` is between its two steps, one `PopWait` has taken the last item
and another finds the ring closed and empty. -/
def closingRun : List (Nat × Act Nat) :=
  [(0, .call (.push 7)), (0, .next), (0, .next), (1, .call .popWait), (2, .call .close),
    (2, .next), (1, .next), (3, .call .popWait), (3, .next)]

theorem close_loses_and_strands_nothing_racing :
    ∃ s next : State Nat Nat, (system Nat Nat ⟨1, .dropOldest, true⟩).exec (.start oneSlot)
        closingRun = some s ∧ s.Replies 3 (.popWait (.error .closed)) next ∧
      (s.thread 1).popped = [7] ∧ s.thread 2 = .closeDone ∧
      Closing ⟨1, .dropOldest, true⟩ s := by
  have executed : (system Nat Nat ⟨1, .dropOldest, true⟩).exec (.start oneSlot)
      closingRun = some _ := rfl
  exact ⟨_, _, executed, ⟨⟨.next, rfl⟩, rfl⟩, rfl, rfl, close_loses_and_strands_nothing _
    (.exec (.initial ⟨_, new_oneSlot, rfl⟩) executed)⟩

end Runs

end Netx.Queue
