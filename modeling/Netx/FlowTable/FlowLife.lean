import Netx.FlowTable.Advancing
import Netx.Transition.Tally

/-!
# The life of one flow

Any number of threads close, touch, freeze and expire one flow. Every load,
compare-and-swap and or-operation is a step of its own.
-/

set_option autoImplicit false

namespace Netx.FlowTable.Life

open Transition

inductive Op where
  | beginClose
  | close
  | touch
  | freeze
  | expire (cutoff : Int)
  deriving DecidableEq, Repr

inductive Reply where
  | began (done : Bool)
  | closed (done : Bool)
  | touched
  | froze
  | expired (done : Bool)
  deriving DecidableEq, Repr

/-- The points of a thread; a `Touch` reads the time before it looks at the flow. -/
inductive Pc where
  | idle
  | beginClose (stage : BeginCloseStage)
  | close (stage : CloseStage)
  | touchClock
  | touch (stage : TouchStage)
  | freeze
  | expire (cutoff : Int)
  | expireCas (v : Int)

/-- The flow, and the results of the calls that have returned. -/
structure World (T : Type) where
  flow : Flow
  replies : List Reply
  pc : T → Pc

/-- A thread calls, is told the time, or takes its next step. -/
inductive Act where
  | call (op : Op)
  | clock (now : Int)
  | next

def Op.enter : Op → Pc
  | .beginClose => .beginClose .cas
  | .close => .close .load
  | .touch => .touchClock
  | .freeze => .freeze
  | .expire cutoff => .expire cutoff

section Steps

variable {T : Type} [DecidableEq T]

def World.goes (w : World T) (t : T) (flow : Flow) (pc : Pc) : World T :=
  { w with flow, pc := Function.update w.pc t pc }

def World.returns (w : World T) (t : T) (flow : Flow) (reply : Reply) : World T where
  flow
  replies := reply :: w.replies
  pc := Function.update w.pc t .idle

def World.next (w : World T) (t : T) : Option (World T) :=
  match w.pc t with
  | .beginClose stage =>
      match w.flow.beginClose stage with
      | (flow, .goes stage) => some (w.goes t flow (.beginClose stage))
      | (flow, .returns done) => some (w.returns t flow (.began done))
  | .close stage =>
      match w.flow.close stage with
      | (flow, .goes stage) => some (w.goes t flow (.close stage))
      | (flow, .returns done) => some (w.returns t flow (.closed done))
  | .touch stage =>
      match w.flow.touch stage with
      | (flow, .goes stage) => some (w.goes t flow (.touch stage))
      | (flow, .returns _) => some (w.returns t flow .touched)
  | .freeze => some (w.returns t w.flow.freeze .froze)
  | .expire cutoff =>
      match w.flow.expire cutoff with
      | .goes v => some (w.goes t w.flow (.expireCas v))
      | .returns done => some (w.returns t w.flow (.expired done))
  | .expireCas v =>
      match w.flow.expireCas v with
      | (flow, done) => some (w.returns t flow (.expired done))
  | .idle | .touchClock => none

def World.step (w : World T) : T × Act → Option (World T)
  | (t, .call op) =>
      match w.pc t with
      | .idle => some (w.goes t w.flow op.enter)
      | _ => none
  | (t, .clock now) =>
      match w.pc t with
      | .touchClock => some (w.goes t w.flow (.touch (.load (clear now))))
      | _ => none
  | (t, .next) => w.next t

/-- A new flow, made at time `now`. -/
def World.start (id : UInt64) (now : Int) : World T where
  flow := .newInTable id now
  replies := []
  pc := fun _ => .idle

def system (T : Type) [DecidableEq T] : Transition.System (World T) (T × Act) where
  initial w := ∃ id now, w = .start id now
  step := World.step

/-- What a thread can do at each of its points. -/
inductive Moves (w : World T) (t : T) : Act → World T → Prop where
  | call (op : Op) : w.pc t = .idle → Moves w t (.call op) (w.goes t w.flow op.enter)
  | clock (now : Int) : w.pc t = .touchClock →
      Moves w t (.clock now) (w.goes t w.flow (.touch (.load (clear now))))
  | begins : w.pc t = .beginClose .cas → w.flow.state = .opened →
      Moves w t .next (w.goes t { w.flow with state := .closing } (.beginClose .freeze))
  | beginFails : w.pc t = .beginClose .cas → w.flow.state ≠ .opened →
      Moves w t .next (w.returns t w.flow (.began false))
  | began : w.pc t = .beginClose .freeze →
      Moves w t .next (w.returns t w.flow.freeze (.began true))
  | closeFails : w.pc t = .close .load → w.flow.state = .closed →
      Moves w t .next (w.returns t w.flow (.closed false))
  | closeLoad : w.pc t = .close .load → w.flow.state ≠ .closed →
      Moves w t .next (w.goes t w.flow (.close (.cas w.flow.state)))
  | closes : w.pc t = .close (.cas w.flow.state) →
      Moves w t .next (w.goes t { w.flow with state := .closed } (.close .freeze))
  | closeRetry (s : State) : w.pc t = .close (.cas s) → w.flow.state ≠ s →
      Moves w t .next (w.goes t w.flow (.close .load))
  | closed : w.pc t = .close .freeze →
      Moves w t .next (w.returns t w.flow.freeze (.closed true))
  | touching (stage stage' : TouchStage) (flow : Flow) : w.pc t = .touch stage →
      w.flow.touch stage = (flow, .goes stage') →
      Moves w t .next (w.goes t flow (.touch stage'))
  | touched (stage : TouchStage) (flow : Flow) (result : Unit) : w.pc t = .touch stage →
      w.flow.touch stage = (flow, .returns result) →
      Moves w t .next (w.returns t flow .touched)
  | freeze : w.pc t = .freeze → Moves w t .next (w.returns t w.flow.freeze .froze)
  | expire (cutoff : Int) (done : Bool) : w.pc t = .expire cutoff →
      Moves w t .next (w.returns t w.flow (.expired done))
  | expireLoad (cutoff v : Int) : w.pc t = .expire cutoff →
      Moves w t .next (w.goes t w.flow (.expireCas v))
  | expireCas (v : Int) (flow : Flow) (done : Bool) : w.pc t = .expireCas v →
      w.flow.expireCas v = (flow, done) → Moves w t .next (w.returns t flow (.expired done))

theorem World.next_moves {w next : World T} {t : T} (found : w.next t = some next) :
    Moves w t .next next := by
  cases here : w.pc t with
  | idle | touchClock =>
      simp only [World.next, here] at found
      cases found
  | beginClose stage =>
      simp only [World.next, here] at found
      cases stage with
      | cas =>
          by_cases opened : w.flow.state = .opened
          · simp only [Flow.beginClose, if_pos opened, Option.some.injEq] at found
            subst found
            exact .begins here opened
          · simp only [Flow.beginClose, if_neg opened, Option.some.injEq] at found
            subst found
            exact .beginFails here opened
      | freeze =>
          cases found
          exact .began here
  | close stage =>
      simp only [World.next, here] at found
      cases stage with
      | load =>
          by_cases closed : w.flow.state = .closed
          · simp only [Flow.close, if_pos closed, Option.some.injEq] at found
            subst found
            exact .closeFails here closed
          · simp only [Flow.close, if_neg closed, Option.some.injEq] at found
            subst found
            exact .closeLoad here closed
      | cas s =>
          by_cases same : w.flow.state = s
          · subst same
            simp only [Flow.close, if_pos, Option.some.injEq] at found
            subst found
            exact .closes here
          · simp only [Flow.close, if_neg same, Option.some.injEq] at found
            subst found
            exact .closeRetry s here same
      | freeze =>
          cases found
          exact .closed here
  | touch stage =>
      simp only [World.next, here] at found
      split at found
      · cases found
        exact .touching stage _ _ here ‹_›
      · cases found
        exact .touched stage _ _ here ‹_›
  | freeze =>
      simp only [World.next, here] at found
      cases found
      exact .freeze here
  | expire cutoff =>
      simp only [World.next, here] at found
      split at found
      · cases found
        exact .expireLoad cutoff _ here
      · cases found
        exact .expire cutoff _ here
  | expireCas v =>
      simp only [World.next, here] at found
      cases found
      exact .expireCas v _ _ here rfl

theorem World.step_moves {w next : World T} {t : T} {act : Act}
    (stepped : w.step (t, act) = some next) : Moves w t act next := by
  cases act with
  | call op =>
      simp only [World.step] at stepped
      split at stepped
      · cases stepped
        exact .call op ‹_›
      · cases stepped
  | clock now =>
      simp only [World.step] at stepped
      split at stepped
      · cases stepped
        exact .clock now ‹_›
      · cases stepped
  | next => exact World.next_moves stepped

end Steps

/-- The `BeginClose` has made its transition and not returned. -/
def Pc.begins : Pc → Nat
  | .beginClose .freeze => 1
  | _ => 0

/-- The `Close` has made its transition and not returned. -/
def Pc.closes : Pc → Nat
  | .close .freeze => 1
  | _ => 0

/-- How many calls can have moved a flow out of `Open` that is in this state. -/
def left : State → Nat
  | .opened => 0
  | _ => 1

/-- How many calls have moved a flow to `Closed` that is in this state. -/
def entered : State → Nat
  | .closed => 1
  | _ => 0

theorem left_le (s : State) : left s ≤ 1 := by
  cases s <;> decide

private theorem entered_le (s : State) : entered s ≤ 1 := by
  cases s <;> decide

private theorem entered_of_ne {s : State} (live : s ≠ .closed) : entered s = 0 := by
  cases s with
  | closed => exact absurd rfl live
  | opened | closing => rfl

private theorem state_of_entered {s : State} (done : entered s ≠ 0) : s = .closed := by
  by_contra live
  exact done (entered_of_ne live)

/-- What a thread knows of the state or of the word it is about to swap. -/
def Pc.Sound : Pc → Prop
  | .close (.cas s) => s ≠ .closed
  | .touch stage => stage.Sound
  | _ => True

structure World.Sound {T : Type} [Fintype T] (w : World T) : Prop where
  stages : ∀ t, (w.pc t).Sound
  begun : w.replies.count (.began true) + tally Finset.univ w.pc Pc.begins ≤
    left w.flow.state
  closed : w.replies.count (.closed true) + tally Finset.univ w.pc Pc.closes =
    entered w.flow.state
  replied : ∀ done, .closed done ∈ w.replies → w.flow.state = .closed
  frozen : .began true ∈ w.replies ∨ .closed true ∈ w.replies → isFrozen w.flow.seen = true

section Invariant

variable {T : Type} {w next : World T}

theorem World.Sound.start [Fintype T] (id : UInt64) (now : Int) :
    (World.start id now : World T).Sound where
  stages _ := trivial
  begun := by simp [World.start, tally, Pc.begins]
  closed := by simp [World.start, tally, Pc.closes, Flow.newInTable, entered]
  replied _ member := (List.not_mem_nil member).elim
  frozen replied := by simp [World.start] at replied

variable [DecidableEq T] {t : T} {act : Act}

/-- A step of a thread advances the flow. -/
theorem Moves.advances (sound : (w.pc t).Sound) (moved : Moves w t act next) :
    w.flow.Advances next.flow := by
  cases moved with
  | begins here opened => exact (Flow.Writes.begins opened).advances trivial
  | closes here => exact Flow.Writes.closes.advances trivial
  | began | closed | freeze => exact Flow.Writes.freezes.advances trivial
  | touching stage stage' flow here swapped | touched stage flow result here swapped =>
      rw [here] at sound
      exact (Flow.touch_writes swapped).advances sound
  | expireCas v flow done here swapped => exact (Flow.expireCas_writes swapped).advances trivial
  | _ => exact .refl _

variable [Fintype T] {flow : Flow} {pc : Pc}

/-- One thread moves on, and its transition is accounted for. -/
theorem World.Sound.change (sound : w.Sound) {replies : List Reply} (stage : pc.Sound)
    (begun : replies.count (.began true) + pc.begins + left w.flow.state ≤
      w.replies.count (.began true) + (w.pc t).begins + left flow.state)
    (closed : replies.count (.closed true) + pc.closes + entered w.flow.state =
      w.replies.count (.closed true) + (w.pc t).closes + entered flow.state)
    (replied : ∀ done, .closed done ∈ replies → flow.state = .closed)
    (frozen : .began true ∈ replies ∨ .closed true ∈ replies → isFrozen flow.seen = true) :
    World.Sound { flow, replies, pc := Function.update w.pc t pc } := by
  refine ⟨fun other => ?_, ?_, ?_, replied, frozen⟩
  · simp only [Function.update_apply]
    split_ifs with acting
    · subst acting
      exact stage
    · exact sound.stages other
  · have before := sound.begun
    rw [tally_split Pc.begins (Finset.mem_univ t)] at before
    simp only [tally_update Pc.begins pc (Finset.mem_univ t)]
    omega
  · have before := sound.closed
    rw [tally_split Pc.closes (Finset.mem_univ t)] at before
    simp only [tally_update Pc.closes pc (Finset.mem_univ t)]
    omega

theorem World.Sound.goes (sound : w.Sound) {pc' : Pc} (here : w.pc t = pc)
    (weights : pc'.begins = pc.begins ∧ pc'.closes = pc.closes) (state : flow.state = w.flow.state)
    (advances : w.flow.Advances flow) (stage : pc'.Sound) : (w.goes t flow pc').Sound := by
  rw [← here] at weights
  refine sound.change stage (by rw [state]; omega) (by rw [state]; omega) ?_ ?_
  · exact fun done member => state.trans (sound.replied done member)
  · exact fun replied => advances.stays_frozen (sound.frozen replied)

/-- A call returns something other than a transition of its own. -/
theorem World.Sound.returns (sound : w.Sound) {reply : Reply} (here : w.pc t = pc)
    (weights : pc.begins = 0 ∧ pc.closes = 0) (state : flow.state = w.flow.state)
    (advances : w.flow.Advances flow) (other : reply ≠ .began true ∧ reply ≠ .closed true)
    (closed : ∀ done, reply = .closed done → w.flow.state = .closed) :
    (w.returns t flow reply).Sound := by
  rw [← here] at weights
  refine sound.change trivial ?_ ?_ ?_ ?_
  · rw [List.count_cons_of_ne other.1, state, weights.1]
    exact Nat.le_refl _
  · rw [List.count_cons_of_ne other.2, state, weights.2]
    rfl
  · intro done member
    rw [state]
    rcases List.mem_cons.mp member with same | old
    · exact closed done same.symm
    · exact sound.replied done old
  · rintro replied
    refine advances.stays_frozen (sound.frozen ?_)
    rcases replied with began | done
    · exact .inl ((List.mem_cons.mp began).resolve_left other.1.symm)
    · exact .inr ((List.mem_cons.mp done).resolve_left other.2.symm)

theorem World.Sound.moves (sound : w.Sound) (moved : Moves w t act next) : next.Sound := by
  have stage := sound.stages t
  have advances := moved.advances stage
  cases moved with
  | call op here =>
      exact sound.goes here (by cases op <;> exact ⟨rfl, rfl⟩) rfl advances
        (by cases op <;> trivial)
  | clock now here => exact sound.goes here ⟨rfl, rfl⟩ rfl advances (isFrozen_clear now)
  | begins here opened =>
      have unclosed : ∀ done, .closed done ∉ w.replies := by
        intro done member
        have closed := sound.replied done member
        rw [opened] at closed
        cases closed
      refine sound.change trivial ?_ ?_ (fun done member => (unclosed done member).elim)
        fun replied => advances.stays_frozen (sound.frozen replied)
      · rw [here, opened]
        exact Nat.le_refl _
      · rw [here, opened]
        rfl
  | beginFails here other =>
      exact sound.returns here ⟨rfl, rfl⟩ rfl advances (by simp) (by simp)
  | began here =>
      refine sound.change trivial ?_ ?_ ?_ fun _ => isFrozen_setFrozen w.flow.seen
      · rw [here, List.count_cons_self]
        exact Nat.le_refl _
      · rw [here, List.count_cons_of_ne (by simp)]
        rfl
      · intro done member
        exact sound.replied done ((List.mem_cons.mp member).resolve_left (by simp))
  | closeFails here closed =>
      exact sound.returns here ⟨rfl, rfl⟩ rfl advances (by simp) fun _ _ => closed
  | closeLoad here live => exact sound.goes here ⟨rfl, rfl⟩ rfl advances live
  | closes here =>
      rw [here] at stage
      refine sound.change trivial ?_ ?_ (fun _ _ => rfl)
        fun replied => advances.stays_frozen (sound.frozen replied)
      · have most := left_le w.flow.state
        rw [here]
        show _ + 0 + _ ≤ _ + 0 + 1
        omega
      · rw [here, entered_of_ne stage]
        rfl
  | closeRetry s here lost => exact sound.goes here ⟨rfl, rfl⟩ rfl advances trivial
  | closed here =>
      have done : w.flow.state = .closed := by
        have before := sound.closed
        rw [tally_split Pc.closes (Finset.mem_univ t), here] at before
        have own : (Pc.close .freeze).closes = 1 := rfl
        exact state_of_entered (by omega)
      refine sound.change trivial ?_ ?_ (fun _ _ => done) fun _ => isFrozen_setFrozen w.flow.seen
      · rw [here, List.count_cons_of_ne (by simp)]
        exact Nat.le_refl _
      · rw [here, List.count_cons_self]
        rfl
  | touching now later flow here swapped =>
      rw [here] at stage
      have state := congrArg (fun result => result.1.state) swapped
      exact sound.goes here ⟨rfl, rfl⟩ (state.symm.trans (w.flow.touch_state now)) advances
        (Flow.touch_goes stage (congrArg Prod.snd swapped))
  | touched now flow result here swapped =>
      have state := congrArg (fun result => result.1.state) swapped
      exact sound.returns here ⟨rfl, rfl⟩ (state.symm.trans (w.flow.touch_state now)) advances
        (by simp) (by simp)
  | freeze here => exact sound.returns here ⟨rfl, rfl⟩ rfl advances (by simp) (by simp)
  | expire cutoff done here =>
      exact sound.returns here ⟨rfl, rfl⟩ rfl advances (by simp) (by simp)
  | expireLoad cutoff v here => exact sound.goes here ⟨rfl, rfl⟩ rfl advances trivial
  | expireCas v flow done here swapped =>
      have state := congrArg (fun result => result.1.state) swapped
      exact sound.returns here ⟨rfl, rfl⟩ (state.symm.trans (w.flow.expireCas_state v)) advances
        (by simp) (by simp)

theorem sound_of_reached (reached : (system T).Reachable w) : w.Sound := by
  refine reached.invariant World.Sound ?_ ?_
  · rintro _ ⟨id, now, rfl⟩
    exact .start id now
  · rintro w ⟨t, act⟩ next _ sound stepped
    exact sound.moves (World.step_moves stepped)

/-- A run advances the flow. -/
theorem World.Sound.exec (sound : w.Sound) {actions : List (T × Act)} {final : World T}
    (executed : (system T).exec w actions = some final) : w.flow.Advances final.flow := by
  refine (System.exec_keeps (fun u : World T => u.Sound ∧ w.flow.Advances u.flow) ?_
    ⟨sound, .refl _⟩ executed).2
  rintro u ⟨t, act⟩ next ⟨kept, advanced⟩ stepped
  have moved := World.step_moves stepped
  exact ⟨kept.moves moved, advanced.trans (moved.advances (kept.stages t))⟩

end Invariant

/-- What is known of a flow in a state, and of everything that follows it. -/
structure World.Lives {T : Type} [Fintype T] [DecidableEq T] (w : World T) : Prop where
  began_once : w.replies.count (.began true) ≤ 1
  closed_once : w.replies.count (.closed true) ≤ 1
  /-- A `BeginClose` returns true only after it moved the flow from `Open` to `Closing`. -/
  began_open : ∀ t next, w.step (t, .next) = some next →
    (next.replies = .began true :: w.replies → w.pc t = .beginClose .freeze) ∧
    (next.pc t = .beginClose .freeze →
      w.flow.state = .opened ∧ next.flow.state = .closing)
  /-- Only the compare-and-swap of a `Close` moves the flow to `Closed`. -/
  closer : ∀ action next, w.step action = some next → w.flow.state ≠ .closed →
    next.flow.state = .closed → ∃ t, action = (t, .next) ∧ next.pc t = .close .freeze
  /-- Once a `Close` has returned, one has made that transition: it has returned true or
  has only to freeze the flow. -/
  closed_by_one : ∀ done, .closed done ∈ w.replies →
    w.replies.count (.closed true) + ∑ t, (w.pc t).closes = 1
  closer_returns : ∀ t, w.pc t = .close .freeze →
    ∃ next, w.step (t, .next) = some next ∧ next.replies = .closed true :: w.replies
  touch_state : ∀ t stage next, w.pc t = .touch stage → w.step (t, .next) = some next →
    next.flow.state = w.flow.state
  forward : ∀ actions final, (system T).exec w actions = some final →
    w.flow.state.rank ≤ final.flow.state.rank ∧ w.flow.lastSeen ≤ final.flow.lastSeen
  frozen : isFrozen w.flow.seen = true → ∀ actions final,
    (system T).exec w actions = some final →
    isFrozen final.flow.seen = true ∧ final.flow.lastSeen = w.flow.lastSeen
  /-- After a `BeginClose` or a `Close` has returned true, nothing moves `LastSeen`, in
  particular no `Touch`. -/
  untouched : .began true ∈ w.replies ∨ .closed true ∈ w.replies → ∀ actions final,
    (system T).exec w actions = some final → final.flow.lastSeen = w.flow.lastSeen

section Contract

variable {T : Type} [DecidableEq T] {w next : World T} {t : T} {act : Act}

theorem Moves.began_true (moved : Moves w t act next)
    (returned : next.replies = .began true :: w.replies) : w.pc t = .beginClose .freeze := by
  cases moved with
  | began here => exact here
  | _ => simp [World.goes, World.returns] at returned

theorem Moves.began_open (moved : Moves w t act next)
    (begun : next.pc t = .beginClose .freeze) :
    w.flow.state = .opened ∧ next.flow.state = .closing := by
  cases moved with
  | begins here opened => exact ⟨opened, rfl⟩
  | call op => cases op <;> simp [World.goes, Op.enter] at begun
  | _ => simp [World.goes, World.returns] at begun

theorem Moves.closer (moved : Moves w t act next) (before : w.flow.state ≠ .closed)
    (after : next.flow.state = .closed) : act = .next ∧ next.pc t = .close .freeze := by
  cases moved with
  | closes here => exact ⟨rfl, by simp only [World.goes, Function.update_self]⟩
  | begins => cases after
  | touching stage _ flow here swapped | touched stage flow _ here swapped =>
      have state := congrArg (fun result => result.1.state) swapped
      exact absurd ((w.flow.touch_state stage).symm.trans (state.trans after)) before
  | expireCas v flow _ here swapped =>
      have state := congrArg (fun result => result.1.state) swapped
      exact absurd ((w.flow.expireCas_state v).symm.trans (state.trans after)) before
  | _ => exact absurd after before

theorem Moves.touch_state {stage : TouchStage} (here : w.pc t = .touch stage)
    (moved : Moves w t .next next) : next.flow.state = w.flow.state := by
  cases moved with
  | begins other | closes other =>
      rw [here] at other
      cases other
  | touching stage _ flow _ swapped | touched stage flow _ _ swapped =>
      have state := congrArg (fun result => result.1.state) swapped
      exact state.symm.trans (w.flow.touch_state stage)
  | expireCas v flow _ other =>
      rw [here] at other
      cases other
  | _ => rfl

variable [Fintype T]

/-- A flow closes once, its `LastSeen` moves forward until the flow is frozen, and both
under any interleaving of the atomic operations. -/
theorem flow_lives (reached : (system T).Reachable w) : w.Lives := by
  have sound := sound_of_reached reached
  have moves : ∀ {t act next}, w.step (t, act) = some next → Moves w t act next :=
    World.step_moves
  exact {
    began_once := by
      have most := left_le w.flow.state
      have begun := sound.begun
      omega
    closed_once := by
      have most := entered_le w.flow.state
      have closed := sound.closed
      omega
    began_open := fun t next stepped =>
      ⟨(moves stepped).began_true, (moves stepped).began_open⟩
    closer := by
      rintro ⟨t, act⟩ next stepped before after
      obtain ⟨rfl, closing⟩ := (moves stepped).closer before after
      exact ⟨t, rfl, closing⟩
    closed_by_one := fun done returned => by
      have closed := sound.closed
      rw [sound.replied done returned] at closed
      exact closed
    closer_returns := fun t here => ⟨_, by simp only [World.step, World.next, here]; rfl, rfl⟩
    touch_state := fun t stage next here stepped => (moves stepped).touch_state here
    forward := fun actions final executed =>
      ⟨(sound.exec executed).state, (sound.exec executed).lastSeen⟩
    frozen := fun before actions final executed =>
      ⟨(sound.exec executed).stays_frozen before, (sound.exec executed).lastSeen_eq before⟩
    untouched := fun returned actions final executed =>
      (sound.exec executed).lastSeen_eq (sound.frozen returned) }

end Contract

/-- Two threads race to close a flow that a third has begun to close and that a fourth
touches too late. -/
def racing : List (Fin 4 × Act) :=
  [(0, .call .beginClose), (0, .next), (1, .call .close), (1, .next), (2, .call .close),
    (2, .next), (1, .next), (2, .next), (2, .next), (3, .call .touch), (0, .next),
    (3, .clock 9), (3, .next), (1, .next)]

theorem flow_lives_racing :
    ∃ w, (system (Fin 4)).exec (.start 1 5) racing = some w ∧
      (w.replies = [.closed true, .touched, .began true, .closed false] ∧
        w.flow.state = .closed ∧ w.flow.seen = 5) ∧ w.Lives := by
  have checked : ((system (Fin 4)).exec (.start 1 5) racing).any (fun w => decide
      (w.replies = [.closed true, .touched, .began true, .closed false] ∧
        w.flow.state = .closed ∧ w.flow.seen = 5)) = true := by
    decide +kernel
  obtain ⟨w, executed, facts⟩ := System.exec_of_check _ checked
  exact ⟨w, executed, of_decide_eq_true facts,
    flow_lives (.exec (.initial ⟨1, 5, rfl⟩) executed)⟩

end Netx.FlowTable.Life
