import Netx.Queue.Threads

/-!
# A shared ring is a bounded first-in first-out list

`Balanced` says what one step of one thread does to the ring and to the
account of its items. It is proved once per critical section and lifted to
every interleaving.
-/

set_option autoImplicit false

namespace Netx.Queue

variable {T : Type}

/-- Items of the call in progress that the ring has accepted. -/
def Pc.accepted : Pc T → List T
  | .pushSignal v _ => [v]
  | .pushDrop v _ => [v]
  | .pushWaitSignal v _ => [v]
  | .pushWaitMore v => [v]
  | _ => []

/-- Items of the call in progress that it has taken and will return. -/
def Pc.popped : Pc T → List T
  | .popSignal v _ _ => [v]
  | .popMore v _ => [v]
  | _ => []

/-- Items of the call in progress that it has still to hand to `OnDrop`. -/
def Pc.dropped : Pc T → List T
  | .pushSignal _ evicted => evicted.toList
  | .pushDrop _ dropped => [dropped]
  | .drainDrop _ rest => rest
  | _ => []

/-- The item of a push that reported success. -/
def Reply.accepted : Reply T → List T
  | .push v true => [v]
  | .pushWait v none => [v]
  | _ => []

def Reply.popped : Reply T → List T
  | .pop item => item.toList
  | .popWait (.ok v) => [v]
  | _ => []

@[simp] def Removal.popped? : Removal T → Option T
  | .popped v => some v
  | .dropped _ => none

@[simp] def Removal.dropped? : Removal T → Option T
  | .popped _ => none
  | .dropped v => some v

@[simp] theorem item_comp_dropped : Removal.item ∘ Removal.dropped = @id T := rfl

@[simp] theorem dropped?_comp_dropped : Removal.dropped? ∘ Removal.dropped = @some T := rfl

variable [Inhabited T]

/-- One step keeps the ring valid, moves its contents as a bounded list would,
and keeps each thread's account of what it pushed, popped and dropped. -/
structure Balanced (s : Shared T) (pc : Pc T) (e : Effect T) : Prop where
  valid : e.shared.ring.Valid
  fixed : s.ring.Fixed e.shared.ring
  fifo : ∀ accepted removed, Circular.Fifo.Steps s.ring.items.length
    ⟨accepted, removed, s.ring.contents⟩
    ⟨accepted ++ e.accepted, removed ++ e.removed.map Removal.item, e.shared.ring.contents⟩
  accepted : pc.accepted ++ e.accepted = e.replies.flatMap Reply.accepted ++ e.pc.accepted
  popped : pc.popped ++ e.removed.filterMap Removal.popped? =
    e.replies.flatMap Reply.popped ++ e.pc.popped
  dropped : s.ring.onDrop = true →
    pc.dropped ++ e.removed.filterMap Removal.dropped? = e.drops ++ e.pc.dropped

variable {s : Shared T}

/-- A step that leaves the contents of the ring alone has only local accounts. -/
theorem Balanced.of_contents {pc : Pc T} {e : Effect T} (valid : e.shared.ring.Valid)
    (fixed : s.ring.Fixed e.shared.ring) (contents : e.shared.ring.contents = s.ring.contents)
    (none : e.accepted = [] ∧ e.removed = [])
    (accepted : pc.accepted = e.replies.flatMap Reply.accepted ++ e.pc.accepted)
    (popped : pc.popped = e.replies.flatMap Reply.popped ++ e.pc.popped)
    (dropped : s.ring.onDrop = true → pc.dropped = e.drops ++ e.pc.dropped) : Balanced s pc e where
  valid := valid
  fixed := fixed
  fifo before gone := by
    rw [none.1, none.2, contents, List.map_nil, List.append_nil, List.append_nil]
    exact .refl
  accepted := by simpa [none.1] using accepted
  popped := by simpa [none.2] using popped
  dropped hook := by simpa [none.2] using dropped hook

/-- Every step of a thread is balanced. -/
theorem Moves.balanced {pc : Pc T} {act : Act T} {e : Effect T} (moved : Moves s pc act e)
    (valid : s.ring.Valid) : Balanced s pc e := by
  have kept : s.ring.Fixed s.ring := ⟨rfl, rfl⟩
  have emptied {items : List T} {ring : Ring T} (same : items = s.ring.contents)
      (contents : ring.contents = []) (accepted removed : List T) :
      Circular.Fifo.Steps s.ring.items.length ⟨accepted, removed, s.ring.contents⟩
        ⟨accepted ++ [], removed ++ (items.map Removal.dropped).map Removal.item,
          ring.contents⟩ := by
    rw [contents, same, List.append_nil, List.map_map, show Removal.item ∘ Removal.dropped = id
      from rfl, List.map_id]
    exact .drain ⟨accepted, removed, s.ring.contents⟩
  cases moved with
  | pushRefused v result =>
      obtain ⟨nextValid, fixed, _, _, contents⟩ := Ring.push_spec valid result
      exact .of_contents nextValid fixed contents ⟨rfl, rfl⟩ rfl rfl fun _ => rfl
  | @push v evicted ring result =>
      obtain ⟨nextValid, fixed, _, pushed⟩ := Ring.push_spec valid result
      refine ⟨nextValid, fixed, fun accepted removed => ?_, rfl, by cases evicted <;> rfl,
        fun _ => by cases evicted <;> rfl⟩
      cases evicted with
      | none =>
          obtain ⟨_, room, _, contents⟩ := pushed
          simp only [Option.toList_none, List.map_nil, List.append_nil, contents]
          exact .single (.accept v (by rwa [Ring.length_contents]))
      | some oldest =>
          obtain ⟨_, full, _, rest, before, after⟩ := pushed
          have length : rest.length < s.ring.items.length := by
            have total := s.ring.length_contents
            rw [before, List.length_cons] at total
            omega
          simp only [Option.toList_some, List.map_cons, List.map_nil, Removal.item, before,
            after]
          exact .tail (.single (.remove rfl)) (.accept v length)
  | pushWaitRefused v woken result =>
      obtain ⟨nextValid, fixed, _, _, _, contents⟩ := Ring.pushWait_spec valid result
      exact .of_contents nextValid fixed contents ⟨rfl, rfl⟩ rfl rfl fun _ => rfl
  | pushWait v woken result =>
      obtain ⟨nextValid, fixed, _, _, room, _, _, contents⟩ := Ring.pushWait_spec valid result
      refine ⟨nextValid, fixed, fun accepted removed => ?_, rfl, rfl, fun _ => rfl⟩
      simp only [List.map_nil, List.append_nil, contents]
      exact .single (.accept v (by rwa [Ring.length_contents]))
  | pushWaitPark v woken result =>
      obtain ⟨nextValid, fixed, _, _, rfl, _⟩ := Ring.pushWait_spec valid result
      exact .of_contents nextValid fixed rfl ⟨rfl, rfl⟩ rfl rfl fun _ => rfl
  | popNone result | popWaitNone woken result =>
      obtain ⟨nextValid, fixed, _, _, rfl⟩ := Ring.pop_spec valid result
      exact .of_contents nextValid fixed rfl ⟨rfl, rfl⟩ rfl rfl fun _ => rfl
  | pop v more caller result =>
      obtain ⟨nextValid, fixed, _, _, _, contents⟩ := Ring.pop_spec valid result
      refine ⟨nextValid, fixed, fun accepted removed => ?_, rfl, rfl, fun _ => rfl⟩
      simp only [List.append_nil, List.map_cons, List.map_nil, Removal.item, contents]
      exact .single (.remove rfl)
  | drainDrops result =>
      obtain ⟨nextValid, fixed, _, _, same, contents⟩ := Ring.drain_spec valid result
      exact ⟨nextValid, fixed, emptied same contents, rfl, by simp [Pc.popped],
        fun _ => by simp [Pc.dropped]⟩
  | drain result unset =>
      obtain ⟨nextValid, fixed, _, _, same, contents⟩ := Ring.drain_spec valid result
      exact ⟨nextValid, fixed, emptied same contents, rfl, by simp [Pc.popped, Reply.popped],
        fun set => absurd set (by simp [unset])⟩
  | closeFirst result | closeAgain result =>
      obtain ⟨nextValid, fixed, _, _, contents, _⟩ := Ring.close_spec valid result
      exact .of_contents nextValid fixed contents ⟨rfl, rfl⟩ rfl rfl fun _ => rfl
  | call op =>
      cases op <;> exact .of_contents valid kept rfl ⟨rfl, rfl⟩ rfl rfl fun _ => rfl
  | pushSignal v evicted quiet =>
      refine .of_contents valid kept rfl ⟨rfl, rfl⟩ rfl rfl fun hook => ?_
      rcases quiet with rfl | unset
      · rfl
      · rw [hook] at unset
        cases unset
  | popSignal v caller | popMore v caller =>
      cases caller <;> exact .of_contents valid kept rfl ⟨rfl, rfl⟩ rfl rfl fun _ => rfl
  | _ => exact .of_contents valid kept rfl ⟨rfl, rfl⟩ rfl rfl fun _ => rfl

section Ledger

variable {Tid : Type} [DecidableEq Tid]

/-- The entries of a log that belong to one thread. -/
def ofThread {α : Type} (tid : Tid) (log : List (Tid × α)) : List α :=
  log.filterMap fun entry => if entry.1 = tid then some entry.2 else none

variable {α : Type} {tid : Tid}

@[simp] theorem ofThread_append (tid : Tid) (front back : List (Tid × α)) :
    ofThread tid (front ++ back) = ofThread tid front ++ ofThread tid back :=
  List.filterMap_append

@[simp] theorem ofThread_own (tid : Tid) (entries : List α) :
    ofThread tid (entries.map (tid, ·)) = entries := by
  simp [ofThread, List.filterMap_map]

private theorem ofThread_other {other : Tid} (different : other ≠ tid) (entries : List α) :
    ofThread tid (entries.map (other, ·)) = [] := by
  simp [ofThread, List.filterMap_map, different]

/-- The bounded list a state of the ring stands for, with its whole history. -/
def State.fifo (s : State Tid T) : Circular.Fifo T where
  accepted := s.accepted.map Prod.snd
  removed := s.removed.map fun entry => entry.2.item
  live := s.shared.ring.contents

/-- The account of every item that was ever offered to the ring. -/
structure Ledger (s : State Tid T) : Prop where
  /-- The live window holds what was accepted and not removed, oldest first. -/
  conserved : s.fifo.accepted = s.fifo.removed ++ s.fifo.live
  bounded : s.fifo.live.length ≤ s.shared.ring.items.length
  masked : ∀ index, index &&& s.shared.ring.mask = index % s.shared.ring.items.length
  blank : Circular.Blank s.shared.ring.items s.shared.ring.head s.shared.ring.n
  /-- A thread's accepted items are those of its pushes that succeeded. -/
  accepted : ∀ tid, ofThread tid s.accepted =
    (ofThread tid s.replies).flatMap Reply.accepted ++ (s.thread tid).accepted
  /-- A popped item is returned, once, by the call that removed it. -/
  popped : ∀ tid, (ofThread tid s.removed).filterMap Removal.popped? =
    (ofThread tid s.replies).flatMap Reply.popped ++ (s.thread tid).popped
  /-- A dropped item is handed to `OnDrop`, once, by the call that removed it. -/
  dropped : s.shared.ring.onDrop = true →
    ∀ tid, (ofThread tid s.removed).filterMap Removal.dropped? =
      ofThread tid s.drops ++ (s.thread tid).dropped
  counted : s.shared.ring.stats.pushed =
    s.shared.ring.stats.popped + s.shared.ring.stats.dropped + s.shared.ring.n

variable {s : State Tid T}

private theorem apply_fifo_steps {e : Effect T} (balanced : Balanced s.shared (s.thread tid) e) :
    Circular.Fifo.Steps s.shared.ring.items.length s.fifo (s.apply tid e).fifo := by
  have steps := balanced.fifo s.fifo.accepted s.fifo.removed
  have own : (s.apply tid e).fifo = ⟨s.fifo.accepted ++ e.accepted,
      s.fifo.removed ++ e.removed.map Removal.item, e.shared.ring.contents⟩ := by
    simp [State.fifo, State.apply, Function.comp_def]
  rw [own]
  exact steps

private theorem start_ledger {o : Options} {ring : Ring T} (created : Ring.new o = some ring) :
    (State.start ring : State Tid T).shared.ring.Valid ∧
      Ledger (State.start ring : State Tid T) := by
  obtain ⟨valid, empty⟩ := Ring.new_valid created
  refine ⟨valid, ?_, ?_, valid.and_mask, valid.blank, ?_, ?_, ?_, valid.counted⟩
  · simpa [State.fifo, State.start] using empty
  · simp [State.fifo, State.start, empty]
  · intro tid
    rfl
  · intro tid
    rfl
  · intro _ tid
    rfl

/-- One step of any thread keeps the ledger: the acting thread's entries by
balance, those of the others because they do not change. -/
theorem apply_ledger {e : Effect T} (balanced : Balanced s.shared (s.thread tid) e)
    (ledger : Ledger s) : Ledger (s.apply tid e) := by
  have length := balanced.fixed.length
  obtain ⟨conserved, bounded⟩ := (apply_fifo_steps balanced).conserved
    ⟨ledger.conserved, ledger.bounded⟩
  refine ⟨conserved, by simpa [State.apply, length] using bounded,
    balanced.valid.and_mask, balanced.valid.blank, ?_, ?_, ?_, balanced.valid.counted⟩
  · intro other
    by_cases same : other = tid
    · subst same
      have before := ledger.accepted other
      have step := balanced.accepted
      simp only [State.apply, ofThread_append, ofThread_own, Function.update_self, before,
        List.flatMap_append, List.append_assoc, step]
    · simpa [State.apply, same, ofThread_other (Ne.symm same)] using ledger.accepted other
  · intro other
    by_cases same : other = tid
    · subst same
      have before := ledger.popped other
      have step := balanced.popped
      simp only [State.apply, ofThread_append, ofThread_own, Function.update_self, before,
        List.flatMap_append, List.filterMap_append, List.append_assoc, step]
    · simpa [State.apply, same, ofThread_other (Ne.symm same)] using ledger.popped other
  · intro hookAfter other
    have hook : s.shared.ring.onDrop = true := balanced.fixed.onDrop.symm.trans hookAfter
    by_cases same : other = tid
    · subst same
      have before := ledger.dropped hook other
      have step := balanced.dropped hook
      simp only [State.apply, ofThread_append, ofThread_own, Function.update_self, before,
        List.filterMap_append, List.append_assoc, step]
    · simpa [State.apply, same, ofThread_other (Ne.symm same)] using
        ledger.dropped hook other

theorem reachable_ledger {o : Options} (reached : (system Tid T o).Reachable s) :
    s.shared.ring.Valid ∧ Ledger s := by
  refine reached.invariant (fun s => s.shared.ring.Valid ∧ Ledger s) ?_ ?_
  · rintro _ ⟨ring, created, rfl⟩
    exact start_ledger created
  · rintro before ⟨tid, act⟩ next _ ⟨valid, ledger⟩ stepped
    obtain ⟨e, moved, rfl⟩ := State.step_moves stepped
    have balanced := moved.balanced valid
    exact ⟨balanced.valid, apply_ledger balanced ledger⟩

/-- Every reachable state of a shared ring keeps the ledger, and every step is
zero or more steps of the bounded first-in first-out list it stands for. -/
theorem ring_refines_bounded_fifo (o : Options) {s : State Tid T}
    (reached : (system Tid T o).Reachable s) :
    Ledger s ∧ ∀ action next, s.step action = some next →
      Circular.Fifo.Steps s.shared.ring.items.length s.fifo next.fifo := by
  obtain ⟨valid, ledger⟩ := reachable_ledger reached
  refine ⟨ledger, ?_⟩
  rintro ⟨tid, act⟩ next stepped
  obtain ⟨e, moved, rfl⟩ := State.step_moves stepped
  exact apply_fifo_steps (moved.balanced valid)

/-- A ring of one slot that evicts. -/
def oneSlot : Ring Nat where
  items := [0]
  mask := 0
  head := 0
  n := 0
  closed := false
  policy := .dropOldest
  onDrop := true
  stats := {}

theorem new_oneSlot : Ring.new ⟨1, .dropOldest, true⟩ = some oneSlot := rfl

/-- Two pushes race and the first one's item is evicted; a pop takes the other. -/
def evictingRun : List (Nat × Act Nat) :=
  [(0, .call (.push 7)), (1, .call (.push 8)), (0, .next), (1, .next), (1, .next),
    (1, .next), (2, .call .pop), (2, .next), (2, .next)]

theorem ring_refines_bounded_fifo_evicting :
    ∃ s : State Nat Nat,
      (system Nat Nat ⟨1, .dropOldest, true⟩).exec (.start oneSlot) evictingRun = some s ∧
      s.drops = [(1, 7)] ∧ Ledger s := by
  have executed : (system Nat Nat ⟨1, .dropOldest, true⟩).exec (.start oneSlot)
      evictingRun = some _ := rfl
  exact ⟨_, executed, rfl, (ring_refines_bounded_fifo _
    (.exec (.initial ⟨_, new_oneSlot, rfl⟩) executed)).1⟩

end Ledger

end Netx.Queue
