import Netx.Queue.ThreadsProperties

/-!
# Wake-ups of waiting producers and consumers

Both signal channels hold at most one token, so a waiter is safe only while
some token, some pending signal or the closed `done` covers it. For consumers
this holds in every run. For producers it is lost exactly where a step removes
items, or consumes a token, without a signal of its own.
-/

set_option autoImplicit false

namespace Netx.Queue

variable {T : Type}

/-- Blocked in the `select` of `PushWait`. -/
def Pc.ParkedPush : Pc T → Prop
  | .pushWaitSelect _ => True
  | _ => False

/-- Blocked in the `select` of `PopWait`. -/
def Pc.ParkedPop : Pc T → Prop
  | .popWaitSelect => True
  | _ => False

/-- A `notFull` signal is still to be sent, or a token was taken out of
`notFull` by a `PushWait` that has not retried yet. -/
def Pc.RefillsNotFull : Pc T → Prop
  | .popSignal _ _ _ => True
  | .pushWaitSignal _ more => more = true
  | .pushWaitMore _ => True
  | .pushWait _ woken => woken = true
  | _ => False

/-- A `notEmpty` signal is still to be sent, or a token was taken out of
`notEmpty` by a `PopWait` that has not retried its `Pop` yet. -/
def Pc.RefillsNotEmpty : Pc T → Prop
  | .pushSignal _ _ => True
  | .pushWaitSignal _ _ => True
  | .popSignal _ more _ => more = true
  | .popMore _ _ => True
  | .pop (.wait woken) => woken = true
  | _ => False

section Consumers

variable [Inhabited T] {o : Options} {e : Effect T} {pc : Pc T}

/-- What one step does for waiting consumers while items remain: it leaves a
cover behind, or it takes none away. -/
theorem Moves.consumer_cover {s : Shared T} {act : Act T} (moved : Moves s pc act e)
    (valid : s.ring.Valid) (occupied : 0 < e.shared.ring.n) :
    e.shared.notEmpty = true ∨ e.shared.done = true ∨ e.pc.RefillsNotEmpty ∨
      (0 < s.ring.n ∧ ¬pc.RefillsNotEmpty ∧
        (s.notEmpty = true → e.shared.notEmpty = true) ∧
        (s.done = true → e.shared.done = true)) := by
  have calm (before : 0 < s.ring.n) (silent : ¬pc.RefillsNotEmpty)
      (token : s.notEmpty = true → e.shared.notEmpty = true)
      (done : s.done = true → e.shared.done = true) :
      e.shared.notEmpty = true ∨ e.shared.done = true ∨ e.pc.RefillsNotEmpty ∨
        (0 < s.ring.n ∧ ¬pc.RefillsNotEmpty ∧
          (s.notEmpty = true → e.shared.notEmpty = true) ∧
          (s.done = true → e.shared.done = true)) :=
    .inr (.inr (.inr ⟨before, silent, token, done⟩))
  cases moved with
  | pushRefused v result =>
      obtain ⟨_, _, _, same, _⟩ := Ring.push_spec valid result
      exact calm (same ▸ occupied) id id id
  | pushWaitRefused v woken result =>
      obtain ⟨_, _, _, _, same, _⟩ := Ring.pushWait_spec valid result
      exact calm (same ▸ occupied) id id id
  | pushWaitPark v woken result =>
      obtain ⟨_, _, _, _, rfl, _⟩ := Ring.pushWait_spec valid result
      exact calm occupied id id id
  | popNone result | popWaitNone woken result =>
      obtain ⟨_, _, _, none, rfl⟩ := Ring.pop_spec valid result
      exact absurd occupied (by simp [Effect.reply, none])
  | pop v more caller result =>
      obtain ⟨_, _, _, rfl, _⟩ := Ring.pop_spec valid result
      exact .inr (.inr (.inl (decide_eq_true occupied)))
  | drainDrops result | drain result =>
      obtain ⟨_, _, _, empty, _⟩ := Ring.drain_spec valid result
      exact absurd occupied (by simp [empty])
  | closeFirst result | closeAgain result =>
      obtain ⟨_, _, _, same, _⟩ := Ring.close_spec valid result
      exact calm (same ▸ occupied) id id id
  | pushSignal | pushSignalDrop | pushWaitSignal | pushWaitSignalMore | popMore =>
      exact .inl rfl
  | push | pushWait | popSignalMore => exact .inr (.inr (.inl trivial))
  | popSignal => exact calm occupied nofun id id
  | popWaitToken => exact .inr (.inr (.inl rfl))
  | popWaitClosed shut => exact .inr (.inl shut)
  | closeDone => exact .inr (.inl rfl)
  | call op => cases op <;> exact calm occupied nofun id id
  | _ => exact calm occupied nofun id id

variable {Tid : Type} [DecidableEq Tid]

/-- No parked consumer is left without a cover while items remain. -/
def ConsumersCovered (s : State Tid T) : Prop :=
  ∀ tid, (s.thread tid).ParkedPop → 0 < s.shared.ring.n →
    s.shared.notEmpty = true ∨ s.shared.done = true ∨
      ∃ other, other ≠ tid ∧ (s.thread other).RefillsNotEmpty

variable {s : State Tid T}

/-- Where every step leaves a cover behind or takes none away, what needs one has one. -/
theorem reachable_covered (Needs Shows : Shared T → Prop) (Comes : Pc T → Prop)
    (reached : (system Tid T o).Reachable s)
    (fresh : ∀ ring, Ring.new o = some ring → ¬Needs (State.start ring : State Tid T).shared)
    (kept : ∀ {s pc act e}, Moves s pc act e → s.ring.Valid → Needs e.shared →
      Shows e.shared ∨ Comes e.pc ∨ Needs s ∧ ¬Comes pc ∧ (Shows s → Shows e.shared))
    (needs : Needs s.shared) : Shows s.shared ∨ ∃ tid, Comes (s.thread tid) := by
  revert needs
  refine reached.invariant
    (fun s => Needs s.shared → Shows s.shared ∨ ∃ tid, Comes (s.thread tid)) ?_ ?_
  · rintro _ ⟨ring, created, rfl⟩ needs
    exact absurd needs (fresh ring created)
  · rintro before ⟨tid, act⟩ next reachedBefore covered stepped needs
    obtain ⟨e, moved, rfl⟩ := State.step_moves stepped
    have comes : (∃ other, Comes ((before.apply tid e).thread other)) ↔
        Comes e.pc ∨ ∃ other, other ≠ tid ∧ Comes (before.thread other) :=
      Function.exists_update_iff before.thread fun _ => Comes
    rw [comes]
    rcases kept moved (reachable_ledger reachedBefore).1 needs with
      shown | own | ⟨old, silent, stays⟩
    · exact .inl shown
    · exact .inr (.inl own)
    · rcases covered old with shown | ⟨other, coming⟩
      · exact .inl (stays shown)
      · refine .inr (.inr ⟨other, ?_, coming⟩)
        rintro rfl
        exact silent coming

/-- While items remain, something covers the consumers, parked or not. -/
theorem reachable_consumer_cover (reached : (system Tid T o).Reachable s)
    (occupied : 0 < s.shared.ring.n) :
    (s.shared.notEmpty = true ∨ s.shared.done = true) ∨
      ∃ tid, (s.thread tid).RefillsNotEmpty := by
  refine reachable_covered (fun s => 0 < s.ring.n) (fun s => s.notEmpty = true ∨ s.done = true)
    Pc.RefillsNotEmpty reached (fun ring created occupied => ?_)
    (fun moved valid occupied => ?_) occupied
  · obtain ⟨_, empty⟩ := Ring.new_valid created
    have none : ring.n = 0 := by rw [← Ring.length_contents, empty, List.length_nil]
    exact absurd occupied (by simp [State.start, none])
  · rcases moved.consumer_cover valid occupied with token | done | own | kept
    · exact .inl (.inl token)
    · exact .inl (.inr done)
    · exact .inr (.inl own)
    · obtain ⟨before, silent, keepsToken, keepsDone⟩ := kept
      exact .inr (.inr ⟨before, silent, Or.imp keepsToken keepsDone⟩)

/-- Only `Close` closes the ring, and its next step closes `done`. -/
theorem Moves.close_cover {s : Shared T} {act : Act T} (moved : Moves s pc act e)
    (valid : s.ring.Valid) (closed : e.shared.ring.closed = true) :
    e.shared.done = true ∨ e.pc = .closeDone ∨
      s.ring.closed = true ∧ pc ≠ .closeDone ∧ (s.done = true → e.shared.done = true) := by
  have kept (silent : pc ≠ .closeDone) (done : e.shared.done = s.done)
      (same : e.shared.ring.closed = s.ring.closed) :
      e.shared.done = true ∨ e.pc = .closeDone ∨
        s.ring.closed = true ∧ pc ≠ .closeDone ∧ (s.done = true → e.shared.done = true) :=
    .inr (.inr ⟨same.symm.trans closed, silent, done.trans⟩)
  cases moved with
  | pushRefused v result | push v result =>
      exact kept nofun rfl (Ring.push_spec valid result).2.2.1
  | pushWaitRefused v woken result | pushWait v woken result | pushWaitPark v woken result =>
      exact kept nofun rfl (Ring.pushWait_spec valid result).2.2.1
  | popNone result | popWaitNone woken result | pop v more caller result =>
      exact kept nofun rfl (Ring.pop_spec valid result).2.2.1
  | drainDrops result | drain result => exact kept nofun rfl (Ring.drain_spec valid result).2.2.1
  | closeFirst result => exact .inr (.inl rfl)
  | closeAgain result =>
      obtain ⟨_, _, _, _, _, again⟩ := Ring.close_spec valid result
      exact .inr (.inr ⟨by simpa using again, nofun, id⟩)
  | closeDone => exact .inl rfl
  | _ => exact kept nofun rfl rfl

theorem reachable_close_cover (reached : (system Tid T o).Reachable s)
    (closed : s.shared.ring.closed = true) :
    s.shared.done = true ∨ ∃ tid, s.thread tid = .closeDone := by
  refine reachable_covered (fun s => s.ring.closed = true) (fun s => s.done = true)
    (fun pc => pc = .closeDone) reached (fun ring created closed => ?_) Moves.close_cover closed
  obtain ⟨_, made⟩ := Option.ite_none_left_eq_some.mp created
  cases made
  cases closed

theorem Moves.cancel_channels {s : Shared T} (moved : Moves s pc .cancel e) :
    e.shared.notEmpty = s.notEmpty ∧ e.shared.notFull = s.notFull := by
  cases moved <;> exact ⟨rfl, rfl⟩

/-- In every reachable state a parked consumer of a non-empty ring is covered,
and no cancellation takes a token out of a channel. -/
theorem no_consumer_wake_up_lost (o : Options) {s : State Tid T}
    (reached : (system Tid T o).Reachable s) :
    ConsumersCovered s ∧ ∀ tid next, s.step (tid, .cancel) = some next →
      next.shared.notEmpty = s.shared.notEmpty ∧ next.shared.notFull = s.shared.notFull := by
  constructor
  · intro tid parked occupied
    rcases reachable_consumer_cover reached occupied with (token | done) | ⟨other, refills⟩
    · exact .inl token
    · exact .inr (.inl done)
    · refine .inr (.inr ⟨other, ?_, refills⟩)
      rintro rfl
      cases pc : s.thread other <;> simp_all [Pc.ParkedPop, Pc.RefillsNotEmpty]
  · intro tid next stepped
    obtain ⟨e, moved, rfl⟩ := State.step_moves stepped
    exact moved.cancel_channels

/-- A consumer parks on an empty ring and a push has stored but not signalled. -/
def parkedConsumerRun : List (Nat × Act Nat) :=
  [(0, .call .popWait), (0, .next), (0, .next), (1, .call (.push 7)), (1, .next)]

theorem no_consumer_wake_up_lost_parked :
    ∃ s : State Nat Nat, (system Nat Nat ⟨1, .dropOldest, true⟩).exec (.start oneSlot)
        parkedConsumerRun = some s ∧
      (s.thread 0).ParkedPop ∧ 0 < s.shared.ring.n ∧ s.shared.notEmpty = false ∧
      ConsumersCovered s := by
  have executed : (system Nat Nat ⟨1, .dropOldest, true⟩).exec (.start oneSlot)
      parkedConsumerRun = some _ := rfl
  exact ⟨_, executed, trivial, by decide, rfl, (no_consumer_wake_up_lost _
    (.exec (.initial ⟨_, new_oneSlot, rfl⟩) executed)).1⟩

end Consumers

section Producers

variable {Tid : Type} {act : Act T} {s : State Tid T} {e : Effect T} {pc : Pc T}

theorem Pc.ParkedPush.not_refills (parked : pc.ParkedPush) : ¬pc.RefillsNotFull := by
  cases pc <;> first | exact id | exact parked.elim

/-- No parked producer is left without a cover while the ring has room. -/
def ProducersCovered (s : State Tid T) : Prop :=
  ∀ tid, (s.thread tid).ParkedPush → s.shared.ring.n < s.shared.ring.items.length →
    s.shared.notFull = true ∨ s.shared.done = true ∨
      ∃ other, other ≠ tid ∧ (s.thread other).RefillsNotFull

theorem ProducersCovered.of_cover (cover : s.shared.notFull = true ∨ s.shared.done = true ∨
      ∃ tid, (s.thread tid).RefillsNotFull) : ProducersCovered s := by
  intro tid parked _
  rcases cover with token | done | ⟨other, refills⟩
  · exact .inl token
  · exact .inr (.inl done)
  · refine .inr (.inr ⟨other, ?_, refills⟩)
    rintro rfl
    exact parked.not_refills refills

variable [DecidableEq Tid] [Inhabited T]

/-- The two ways a step can make room or use up a token without a signal: a
`Drain` that removes items, and a woken `PushWait` that finds the ring closed. -/
def Loses (s : Shared T) (pc : Pc T) : Prop :=
  (pc = .drain ∧ 0 < s.ring.n) ∨
    ((∃ v, pc = .pushWait v true) ∧ s.ring.closed = true ∧ s.ring.n < s.ring.items.length)

theorem Moves.loses {s : Shared T} (moved : Moves s pc act e) (valid : s.ring.Valid)
    (loses : Loses s pc) :
    e.shared.ring.n < e.shared.ring.items.length ∧ e.shared.notFull = s.notFull ∧
      e.shared.done = s.done ∧ ¬e.pc.ParkedPush ∧ ¬e.pc.RefillsNotFull := by
  rcases loses with ⟨rfl, _⟩ | ⟨⟨v, rfl⟩, shut, room⟩
  · cases moved with
    | drainDrops result | drain result =>
        obtain ⟨nextValid, _, _, empty, _⟩ := Ring.drain_spec valid result
        exact ⟨empty ▸ nextValid.positive, rfl, rfl, id, id⟩
  · cases moved with
    | pushWaitRefused _ _ result =>
        obtain ⟨_, fixed, _, _, same, _⟩ := Ring.pushWait_spec valid result
        refine ⟨?_, rfl, rfl, id, id⟩
        simpa only [Effect.reply, same, fixed.length] using room
    | pushWait _ _ result | pushWaitPark _ _ result =>
        obtain ⟨_, _, _, opened, _⟩ := Ring.pushWait_spec valid result
        exact absurd shut (by simp [opened])

/-- What one step does for waiting producers while there is room: it leaves a
cover behind, it takes none away and parks nobody, or it is a losing one. -/
theorem Moves.producer_cover {s : Shared T} (moved : Moves s pc act e) (valid : s.ring.Valid)
    (room : e.shared.ring.n < e.shared.ring.items.length) :
    e.shared.notFull = true ∨ e.shared.done = true ∨ e.pc.RefillsNotFull ∨
      (s.ring.n < s.ring.items.length ∧ ¬pc.RefillsNotFull ∧ ¬e.pc.ParkedPush ∧
        (s.notFull = true → e.shared.notFull = true) ∧
        (s.done = true → e.shared.done = true)) ∨
      Loses s pc := by
  have calm (before : s.ring.n < s.ring.items.length) (silent : ¬pc.RefillsNotFull)
      (unparked : ¬e.pc.ParkedPush) (token : s.notFull = true → e.shared.notFull = true)
      (done : s.done = true → e.shared.done = true) :
      e.shared.notFull = true ∨ e.shared.done = true ∨ e.pc.RefillsNotFull ∨
        (s.ring.n < s.ring.items.length ∧ ¬pc.RefillsNotFull ∧ ¬e.pc.ParkedPush ∧
          (s.notFull = true → e.shared.notFull = true) ∧
          (s.done = true → e.shared.done = true)) ∨ Loses s pc :=
    .inr (.inr (.inr (.inl ⟨before, silent, unparked, token, done⟩)))
  have emptied (free : ¬0 < s.ring.n) : s.ring.n < s.ring.items.length := by
    have positive := valid.positive
    omega
  cases moved with
  | pushRefused v result =>
      obtain ⟨_, fixed, _, same, _⟩ := Ring.push_spec valid result
      simp only [Effect.reply, same, fixed.length] at room
      exact calm room id id id id
  | @push v evicted ring result =>
      obtain ⟨_, fixed, _, pushed⟩ := Ring.push_spec valid result
      cases evicted with
      | none => exact calm pushed.2.1 id id id id
      | some oldest =>
          obtain ⟨_, full, same, _⟩ := pushed
          simp only [same, fixed.length, full] at room
          omega
  | pushWaitRefused v woken result =>
      obtain ⟨_, fixed, _, shut, same, _⟩ := Ring.pushWait_spec valid result
      simp only [Effect.reply, same, fixed.length] at room
      cases woken with
      | true => exact .inr (.inr (.inr (.inr (.inr ⟨⟨v, rfl⟩, shut, room⟩))))
      | false => exact calm room nofun id id id
  | pushWaitPark v woken result =>
      obtain ⟨_, _, _, _, rfl, full⟩ := Ring.pushWait_spec valid result
      exact absurd room (by simp [full])
  | pushWait v woken result =>
      obtain ⟨_, fixed, _, _, _, _, rfl, _⟩ := Ring.pushWait_spec valid result
      simp only [fixed.length] at room
      exact .inr (.inr (.inl (decide_eq_true room)))
  | popNone result | popWaitNone woken result =>
      obtain ⟨_, _, _, none, rfl⟩ := Ring.pop_spec valid result
      exact calm (emptied (by omega)) id id id id
  | drainDrops | drain =>
      by_cases occupied : 0 < s.ring.n
      · exact .inr (.inr (.inr (.inr (.inl ⟨rfl, occupied⟩))))
      · exact calm (emptied occupied) id id id id
  | closeFirst result | closeAgain result =>
      obtain ⟨_, fixed, _, same, _⟩ := Ring.close_spec valid result
      simp only [Effect.reply, same, fixed.length] at room
      exact calm room id id id id
  | pushWaitMore | popSignal | popSignalMore => exact .inl rfl
  | pop | pushWaitSignalMore => exact .inr (.inr (.inl trivial))
  | pushWaitToken => exact .inr (.inr (.inl rfl))
  | pushWaitClosed v shut => exact .inr (.inl shut)
  | closeDone => exact .inr (.inl rfl)
  | call op => cases op <;> exact calm room nofun nofun id id
  | _ => exact calm room nofun nofun id id

/-- A losing step of `tid` while another producer is parked and nothing else
covers it. -/
def Strands (s : State Tid T) (action : Tid × Act T) : Prop :=
  Loses s.shared (s.thread action.1) ∧ s.shared.notFull = false ∧ s.shared.done = false ∧
    (∃ other, other ≠ action.1 ∧ (s.thread other).ParkedPush) ∧
    ∀ other, other ≠ action.1 → ¬(s.thread other).RefillsNotFull

theorem State.strands_uncovers {tid : Tid} (valid : s.shared.ring.Valid)
    (moved : Moves s.shared (s.thread tid) act e) (strands : Strands s (tid, act)) :
    ¬ProducersCovered (s.apply tid e) := by
  obtain ⟨loses, token, open_, ⟨parked, apart, waits⟩, silent⟩ := strands
  obtain ⟨room, sameToken, sameDone, _, unarmed⟩ := moved.loses valid loses
  intro covered
  have waitsStill : ((s.apply tid e).thread parked).ParkedPush := by
    simpa only [State.apply, Function.update_of_ne apart] using waits
  rcases covered parked waitsStill room with held | shut | ⟨other, _, refills⟩
  · exact Bool.false_ne_true (token.symm.trans (sameToken.symm.trans held))
  · exact Bool.false_ne_true (open_.symm.trans (sameDone.symm.trans shut))
  · by_cases own : other = tid
    · subst own
      exact unarmed (by simpa only [State.apply, Function.update_self] using refills)
    · exact silent other own
        (by simpa only [State.apply, Function.update_of_ne own] using refills)

theorem State.covered_or_strands {tid : Tid} (valid : s.shared.ring.Valid)
    (moved : Moves s.shared (s.thread tid) act e) (covered : ProducersCovered s)
    (safe : ¬Strands s (tid, act)) : ProducersCovered (s.apply tid e) := by
  have refill : (∃ other, ((s.apply tid e).thread other).RefillsNotFull) ↔
      e.pc.RefillsNotFull ∨ ∃ other, other ≠ tid ∧ (s.thread other).RefillsNotFull :=
    Function.exists_update_iff s.thread fun _ pc => pc.RefillsNotFull
  intro waiter parked room
  rcases moved.producer_cover valid room with token | done | own | calm | loses
  · exact .inl token
  · exact .inr (.inl done)
  · exact ProducersCovered.of_cover (.inr (.inr (refill.mpr (.inl own)))) waiter parked room
  · obtain ⟨roomBefore, silent, unparked, keepsToken, keepsDone⟩ := calm
    have apart : waiter ≠ tid := by
      rintro rfl
      exact unparked (by simpa only [State.apply, Function.update_self] using parked)
    have waits : (s.thread waiter).ParkedPush := by
      simpa only [State.apply, Function.update_of_ne apart] using parked
    rcases covered waiter waits roomBefore with token | done | ⟨other, different, refills⟩
    · exact .inl (keepsToken token)
    · exact .inr (.inl (keepsDone done))
    · have elsewhere : other ≠ tid := by
        rintro rfl
        exact silent refills
      exact ProducersCovered.of_cover
        (.inr (.inr (refill.mpr (.inr ⟨other, elsewhere, refills⟩)))) waiter parked room
  · obtain ⟨_, sameToken, sameDone, unparked, _⟩ := moved.loses valid loses
    have apart : waiter ≠ tid := by
      rintro rfl
      exact unparked (by simpa only [State.apply, Function.update_self] using parked)
    have waits : (s.thread waiter).ParkedPush := by
      simpa only [State.apply, Function.update_of_ne apart] using parked
    by_cases token : s.shared.notFull = true
    · exact .inl (sameToken.trans token)
    by_cases done : s.shared.done = true
    · exact .inr (.inl (sameDone.trans done))
    by_cases silent : ∀ other, other ≠ tid → ¬(s.thread other).RefillsNotFull
    · exact absurd ⟨loses, Bool.eq_false_iff.mpr token, Bool.eq_false_iff.mpr done,
        ⟨waiter, apart, waits⟩, silent⟩ safe
    · push Not at silent
      exact ProducersCovered.of_cover (.inr (.inr (refill.mpr (.inr silent)))) waiter parked
        room

/-- The wake-ups of waiting producers. A run keeps every parked producer covered
exactly if no step of it is a `Drain` of a non-empty ring, or a woken `PushWait`
finding the ring closed, at a moment when some other `PushWait` is parked, there
is no token, `done` is open and no other thread is about to signal. -/
theorem producers_covered_iff_not_stranded (o : Options) {ring : Ring T}
    (created : Ring.new o = some ring) {actions : List (Tid × Act T)} {final : State Tid T}
    (executed : (system Tid T o).exec (.start ring) actions = some final) :
    (∀ s, (system Tid T o).Visits (.start ring) actions s → ProducersCovered s) ↔
      ∀ s action, (system Tid T o).Takes (.start ring) actions s action →
        ¬Strands s action := by
  have begun : (system Tid T o).Reachable (.start ring) := .initial ⟨ring, created, rfl⟩
  refine Transition.System.visits_iff_takes _ _ ?_ begun (fun _ parked => parked.elim) executed
  rintro s ⟨tid, act⟩ next reached covered stepped
  obtain ⟨e, moved, rfl⟩ := State.step_moves stepped
  obtain ⟨valid, _⟩ := reachable_ledger reached
  exact ⟨fun kept strands => State.strands_uncovers valid moved strands kept,
    State.covered_or_strands valid moved covered⟩

end Producers

/-- A producer parks on a full ring, which is then popped with a signal. -/
def signalledProducerRun : List (Nat × Act Nat) :=
  [(0, .call (.push 7)), (0, .next), (0, .next), (1, .call (.pushWait 8)), (1, .next),
    (2, .call .pop), (2, .next), (2, .next)]

theorem producers_covered_iff_not_stranded_popped :
    (∃ final, (system Nat Nat ⟨1, .dropOldest, true⟩).exec (.start oneSlot)
      signalledProducerRun = some final) ∧
    ((∀ s, (system Nat Nat ⟨1, .dropOldest, true⟩).Visits (.start oneSlot)
        signalledProducerRun s → ProducersCovered s) ↔
      ∀ s action, (system Nat Nat ⟨1, .dropOldest, true⟩).Takes (.start oneSlot)
        signalledProducerRun s action → ¬Strands s action) := by
  have executed : (system Nat Nat ⟨1, .dropOldest, true⟩).exec (.start oneSlot)
      signalledProducerRun = some _ := rfl
  exact ⟨⟨_, executed⟩, producers_covered_iff_not_stranded _ new_oneSlot executed⟩

/-- The same with `Drain` in place of `Pop`. -/
def strandedProducerRun : List (Nat × Act Nat) :=
  [(0, .call (.push 7)), (0, .next), (0, .next), (1, .call (.pushWait 8)), (1, .next),
    (2, .call .drain), (2, .next), (2, .next), (2, .next)]

/-- After `Drain` the ring is empty, and yet the parked producer has no token, no
signal on its way and no closed `done` to wake it. -/
theorem producer_stranded_by_drain :
    ∃ s : State Nat Nat, (system Nat Nat ⟨1, .dropOldest, true⟩).exec (.start oneSlot)
        strandedProducerRun = some s ∧
      s.shared.ring.n = 0 ∧ (s.thread 1).ParkedPush ∧ (∀ tid, tid ≠ 1 → s.thread tid = .idle) ∧
      ¬ProducersCovered s := by
  have executed : (system Nat Nat ⟨1, .dropOldest, true⟩).exec (.start oneSlot)
      strandedProducerRun = some _ := rfl
  have others : ∀ tid, tid ≠ 1 →
      ((Option.get _ (Option.isSome_of_eq_some executed)).thread tid) = .idle := by
    intro tid apart
    rcases tid with _ | _ | _ | tid
    · rfl
    · exact absurd rfl apart
    · rfl
    · rfl
  refine ⟨_, executed, rfl, trivial, others, fun covered => ?_⟩
  rcases covered 1 trivial (by decide) with token | done | ⟨other, apart, refills⟩
  · cases token
  · cases done
  · exact (others other apart ▸ refills : (Pc.idle : Pc Nat).RefillsNotFull)

end Netx.Queue
