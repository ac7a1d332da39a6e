import Netx.Queue.Ring
import Netx.Transition.System

/-!
# Threads sharing a ring

Any number of threads call the operations of one ring. A step of a thread is
one critical section, one channel operation or one callback. The state also
keeps what was accepted, what left the ring, which `OnDrop` calls were made and
what the calls returned.
-/

set_option autoImplicit false

namespace Netx.Queue

inductive Op (T : Type) where
  | push (v : T)
  | pushWait (v : T)
  | pop
  | popWait
  | close
  | drain
  | len
  | stats

inductive WaitError where
  | closed
  | canceled
  deriving DecidableEq, Repr

inductive Reply (T : Type) where
  | push (v : T) (accepted : Bool)
  | pushWait (v : T) (err : Option WaitError)
  | pop (item : Option T)
  | popWait (result : Except WaitError T)
  | close
  | drain (count : Nat)
  | len (n : Nat)
  | stats (s : Stats)

/-- Who runs `Pop`: its caller, or `PopWait`, which may have been woken by a
token it took out of `notEmpty`. -/
inductive Caller where
  | direct
  | wait (woken : Bool)
  deriving DecidableEq, Repr

/-- Where a thread stands: the critical section, channel operation or callback
it performs next. `woken` marks a wait that took a token and has not retried. -/
inductive Pc (T : Type) where
  | idle
  | push (v : T)
  | pushSignal (v : T) (evicted : Option T)
  | pushDrop (v dropped : T)
  | pushWait (v : T) (woken : Bool)
  | pushWaitSignal (v : T) (more : Bool)
  | pushWaitMore (v : T)
  | pushWaitSelect (v : T)
  | pop (caller : Caller)
  | popSignal (v : T) (more : Bool) (caller : Caller)
  | popMore (v : T) (caller : Caller)
  | popWaitCheck
  | popWaitSelect
  | close
  | closeDone
  | drain
  | drainDrop (count : Nat) (rest : List T)
  | len
  | stats

/-- Actions of a thread. In a `select`, `token` receives from the signal
channel, `closed` from `done`, and `cancel` from the context. -/
inductive Act (T : Type) where
  | call (op : Op T)
  | next
  | token
  | closed
  | cancel

inductive Removal (T : Type) where
  | popped (v : T)
  | dropped (v : T)

def Removal.item {T : Type} : Removal T → T
  | .popped v => v
  | .dropped v => v

/-- The ring with its two signal channels of capacity one and `done`. -/
structure Shared (T : Type) where
  ring : Ring T
  notEmpty : Bool
  notFull : Bool
  done : Bool

/-- What one step of one thread does. -/
structure Effect (T : Type) where
  shared : Shared T
  pc : Pc T
  accepted : List T := []
  removed : List (Removal T) := []
  drops : List T := []
  replies : List (Reply T) := []

section Effects

variable {T : Type} [Inhabited T]

def Op.entry : Op T → Pc T
  | .push v => .push v
  | .pushWait v => .pushWait v false
  | .pop => .pop .direct
  | .popWait => .pop (.wait false)
  | .close => .close
  | .drain => .drain
  | .len => .len
  | .stats => .stats

def Effect.reply (shared : Shared T) (reply : Reply T) : Effect T :=
  { shared, pc := .idle, replies := [reply] }

def Caller.popped : Caller → T → Reply T
  | .direct, v => .pop (some v)
  | .wait _, v => .popWait (.ok v)

def pushSection (s : Shared T) (v : T) : Effect T :=
  match s.ring.push v with
  | (none, ring) => .reply { s with ring } (.push v false)
  | (some evicted, ring) => {
      shared := { s with ring }
      pc := .pushSignal v evicted
      accepted := [v]
      removed := evicted.toList.map .dropped }

def pushWaitSection (s : Shared T) (v : T) : Effect T :=
  match s.ring.pushWait v with
  | (.closed, ring) => .reply { s with ring } (.pushWait v (some .closed))
  | (.accepted more, ring) => {
      shared := { s with ring }
      pc := .pushWaitSignal v more
      accepted := [v] }
  | (.full, ring) => { shared := { s with ring }, pc := .pushWaitSelect v }

def popSection (s : Shared T) (caller : Caller) : Effect T :=
  match s.ring.pop with
  | (none, ring) =>
      match caller with
      | .direct => .reply { s with ring } (.pop none)
      | .wait _ => { shared := { s with ring }, pc := .popWaitCheck }
  | (some (v, more), ring) => {
      shared := { s with ring }
      pc := .popSignal v more caller
      removed := [.popped v] }

def drainSection (s : Shared T) : Effect T :=
  let (items, ring) := s.ring.drain
  if s.ring.onDrop then {
    shared := { s with ring }
    pc := .drainDrop items.length items
    removed := items.map .dropped }
  else {
    shared := { s with ring }
    pc := .idle
    removed := items.map .dropped
    replies := [.drain items.length] }

/-- The step of a thread at a program point, `none` when it is not enabled. -/
def effect (s : Shared T) : Pc T → Act T → Option (Effect T)
  | .idle, .call op => some { shared := s, pc := op.entry }
  | .push v, .next => some (pushSection s v)
  | .pushSignal v evicted, .next =>
      let s := { s with notEmpty := true }
      match evicted with
      | some dropped =>
          if s.ring.onDrop then some { shared := s, pc := .pushDrop v dropped }
          else some (.reply s (.push v true))
      | none => some (.reply s (.push v true))
  | .pushDrop v dropped, .next =>
      some { shared := s, pc := .idle, drops := [dropped], replies := [.push v true] }
  | .pushWait v _, .next => some (pushWaitSection s v)
  | .pushWaitSignal v more, .next =>
      let s := { s with notEmpty := true }
      if more then some { shared := s, pc := .pushWaitMore v }
      else some (.reply s (.pushWait v none))
  | .pushWaitMore v, .next =>
      some (.reply { s with notFull := true } (.pushWait v none))
  | .pushWaitSelect v, .token =>
      if s.notFull then some { shared := { s with notFull := false }, pc := .pushWait v true }
      else none
  | .pushWaitSelect v, .closed =>
      if s.done then some { shared := s, pc := .pushWait v false } else none
  | .pushWaitSelect v, .cancel => some (.reply s (.pushWait v (some .canceled)))
  | .pop caller, .next => some (popSection s caller)
  | .popSignal v more caller, .next =>
      let s := { s with notFull := true }
      if more then some { shared := s, pc := .popMore v caller }
      else some (.reply s (caller.popped v))
  | .popMore v caller, .next =>
      some (.reply { s with notEmpty := true } (caller.popped v))
  | .popWaitCheck, .next =>
      if s.ring.closed ∧ s.ring.n = 0 then some (.reply s (.popWait (.error .closed)))
      else some { shared := s, pc := .popWaitSelect }
  | .popWaitSelect, .token =>
      if s.notEmpty then
        some { shared := { s with notEmpty := false }, pc := .pop (.wait true) }
      else none
  | .popWaitSelect, .closed =>
      if s.done then some { shared := s, pc := .pop (.wait false) } else none
  | .popWaitSelect, .cancel => some (.reply s (.popWait (.error .canceled)))
  | .close, .next =>
      match s.ring.close with
      | (true, ring) => some { shared := { s with ring }, pc := .closeDone }
      | (false, ring) => some (.reply { s with ring } .close)
  | .closeDone, .next => some (.reply { s with done := true } .close)
  | .drain, .next => some (drainSection s)
  | .drainDrop count (v :: rest), .next =>
      some { shared := s, pc := .drainDrop count rest, drops := [v] }
  | .drainDrop count [], .next => some (.reply s (.drain count))
  | .len, .next => some (.reply s (.len s.ring.n))
  | .stats, .next => some (.reply s (.stats s.ring.getStats))
  | _, _ => none

/-- What a thread can do at each of its program points. -/
inductive Moves (s : Shared T) : Pc T → Act T → Effect T → Prop where
  | call (op : Op T) : Moves s .idle (.call op) { shared := s, pc := op.entry }
  | pushRefused (v : T) {ring : Ring T} : s.ring.push v = (none, ring) →
      Moves s (.push v) .next (.reply { s with ring } (.push v false))
  | push (v : T) {evicted : Option T} {ring : Ring T} : s.ring.push v = (some evicted, ring) →
      Moves s (.push v) .next
        { shared := { s with ring }, pc := .pushSignal v evicted, accepted := [v],
          removed := evicted.toList.map .dropped }
  | pushSignalDrop (v dropped : T) : s.ring.onDrop = true →
      Moves s (.pushSignal v (some dropped)) .next
        { shared := { s with notEmpty := true }, pc := .pushDrop v dropped }
  | pushSignal (v : T) (evicted : Option T) : evicted = none ∨ s.ring.onDrop = false →
      Moves s (.pushSignal v evicted) .next
        (.reply { s with notEmpty := true } (.push v true))
  | pushDrop (v dropped : T) : Moves s (.pushDrop v dropped) .next
      { shared := s, pc := .idle, drops := [dropped], replies := [.push v true] }
  | pushWaitRefused (v : T) (woken : Bool) {ring : Ring T} : s.ring.pushWait v = (.closed, ring) →
      Moves s (.pushWait v woken) .next (.reply { s with ring } (.pushWait v (some .closed)))
  | pushWait (v : T) (woken : Bool) {more : Bool} {ring : Ring T} :
      s.ring.pushWait v = (.accepted more, ring) → Moves s (.pushWait v woken) .next
        { shared := { s with ring }, pc := .pushWaitSignal v more, accepted := [v] }
  | pushWaitPark (v : T) (woken : Bool) {ring : Ring T} : s.ring.pushWait v = (.full, ring) →
      Moves s (.pushWait v woken) .next { shared := { s with ring }, pc := .pushWaitSelect v }
  | pushWaitSignalMore (v : T) : Moves s (.pushWaitSignal v true) .next
      { shared := { s with notEmpty := true }, pc := .pushWaitMore v }
  | pushWaitSignal (v : T) : Moves s (.pushWaitSignal v false) .next
      (.reply { s with notEmpty := true } (.pushWait v none))
  | pushWaitMore (v : T) : Moves s (.pushWaitMore v) .next
      (.reply { s with notFull := true } (.pushWait v none))
  | pushWaitToken (v : T) : s.notFull = true → Moves s (.pushWaitSelect v) .token
      { shared := { s with notFull := false }, pc := .pushWait v true }
  | pushWaitClosed (v : T) : s.done = true → Moves s (.pushWaitSelect v) .closed
      { shared := s, pc := .pushWait v false }
  | pushWaitCancel (v : T) : Moves s (.pushWaitSelect v) .cancel
      (.reply s (.pushWait v (some .canceled)))
  | popNone {ring : Ring T} : s.ring.pop = (none, ring) →
      Moves s (.pop .direct) .next (.reply { s with ring } (.pop none))
  | popWaitNone (woken : Bool) {ring : Ring T} : s.ring.pop = (none, ring) →
      Moves s (.pop (.wait woken)) .next { shared := { s with ring }, pc := .popWaitCheck }
  | pop (v : T) (more : Bool) (caller : Caller) {ring : Ring T} :
      s.ring.pop = (some (v, more), ring) → Moves s (.pop caller) .next
        { shared := { s with ring }, pc := .popSignal v more caller, removed := [.popped v] }
  | popSignalMore (v : T) (caller : Caller) : Moves s (.popSignal v true caller) .next
      { shared := { s with notFull := true }, pc := .popMore v caller }
  | popSignal (v : T) (caller : Caller) : Moves s (.popSignal v false caller) .next
      (.reply { s with notFull := true } (caller.popped v))
  | popMore (v : T) (caller : Caller) : Moves s (.popMore v caller) .next
      (.reply { s with notEmpty := true } (caller.popped v))
  | popWaitEmpty : s.ring.closed = true → s.ring.n = 0 → Moves s .popWaitCheck .next
      (.reply s (.popWait (.error .closed)))
  | popWaitPark : ¬(s.ring.closed = true ∧ s.ring.n = 0) → Moves s .popWaitCheck .next
      { shared := s, pc := .popWaitSelect }
  | popWaitToken : s.notEmpty = true → Moves s .popWaitSelect .token
      { shared := { s with notEmpty := false }, pc := .pop (.wait true) }
  | popWaitClosed : s.done = true → Moves s .popWaitSelect .closed
      { shared := s, pc := .pop (.wait false) }
  | popWaitCancel : Moves s .popWaitSelect .cancel (.reply s (.popWait (.error .canceled)))
  | closeFirst {ring : Ring T} : s.ring.close = (true, ring) → Moves s .close .next
      { shared := { s with ring }, pc := .closeDone }
  | closeAgain {ring : Ring T} : s.ring.close = (false, ring) → Moves s .close .next
      (.reply { s with ring } .close)
  | closeDone : Moves s .closeDone .next (.reply { s with done := true } .close)
  | drainDrops {items : List T} {ring : Ring T} : s.ring.drain = (items, ring) →
      s.ring.onDrop = true → Moves s .drain .next
        { shared := { s with ring }, pc := .drainDrop items.length items,
          removed := items.map .dropped }
  | drain {items : List T} {ring : Ring T} : s.ring.drain = (items, ring) →
      s.ring.onDrop = false → Moves s .drain .next
        { shared := { s with ring }, pc := .idle, removed := items.map .dropped,
          replies := [.drain items.length] }
  | drainDrop (count : Nat) (v : T) (rest : List T) :
      Moves s (.drainDrop count (v :: rest)) .next
        { shared := s, pc := .drainDrop count rest, drops := [v] }
  | drainDone (count : Nat) : Moves s (.drainDrop count []) .next (.reply s (.drain count))
  | len : Moves s .len .next (.reply s (.len s.ring.n))
  | stats : Moves s .stats .next (.reply s (.stats s.ring.getStats))

theorem effect_moves {s : Shared T} {pc : Pc T} {act : Act T} {e : Effect T}
    (found : effect s pc act = some e) : Moves s pc act e := by
  cases pc with
  | idle =>
      cases act with
      | call op => cases found; exact .call op
      | _ => cases found
  | push v =>
      cases act with
      | next =>
          simp only [effect, pushSection] at found
          split at found <;> cases found
          · exact .pushRefused v ‹_›
          · exact .push v ‹_›
      | _ => cases found
  | pushSignal v evicted =>
      cases act with
      | next =>
          cases evicted with
          | none => cases found; exact .pushSignal v none (.inl rfl)
          | some dropped =>
              simp only [effect] at found
              split at found
              · cases found
                exact .pushSignalDrop v dropped ‹_›
              · rename_i unset
                cases found
                exact .pushSignal v (some dropped) (.inr (by simpa using unset))
      | _ => cases found
  | pushDrop v dropped =>
      cases act with
      | next => cases found; exact .pushDrop v dropped
      | _ => cases found
  | pushWait v woken =>
      cases act with
      | next =>
          simp only [effect, pushWaitSection] at found
          split at found <;> cases found
          · exact .pushWaitRefused v woken ‹_›
          · exact .pushWait v woken ‹_›
          · exact .pushWaitPark v woken ‹_›
      | _ => cases found
  | pushWaitSignal v more =>
      cases act with
      | next =>
          cases more with
          | true => cases found; exact .pushWaitSignalMore v
          | false => cases found; exact .pushWaitSignal v
      | _ => cases found
  | pushWaitMore v =>
      cases act with
      | next => cases found; exact .pushWaitMore v
      | _ => cases found
  | pushWaitSelect v =>
      cases act with
      | token =>
          obtain ⟨available, same⟩ := Option.ite_none_right_eq_some.mp found
          cases same
          exact .pushWaitToken v available
      | closed =>
          obtain ⟨shut, same⟩ := Option.ite_none_right_eq_some.mp found
          cases same
          exact .pushWaitClosed v shut
      | cancel => cases found; exact .pushWaitCancel v
      | _ => cases found
  | pop caller =>
      cases act with
      | next =>
          simp only [effect, popSection] at found
          split at found
          · cases caller <;> cases found
            · exact .popNone ‹_›
            · exact .popWaitNone _ ‹_›
          · cases found
            exact .pop _ _ caller ‹_›
      | _ => cases found
  | popSignal v more caller =>
      cases act with
      | next =>
          cases more with
          | true => cases found; exact .popSignalMore v caller
          | false => cases found; exact .popSignal v caller
      | _ => cases found
  | popMore v caller =>
      cases act with
      | next => cases found; exact .popMore v caller
      | _ => cases found
  | popWaitCheck =>
      cases act with
      | next =>
          simp only [effect] at found
          split at found
          · rename_i finished
            cases found
            exact .popWaitEmpty finished.1 finished.2
          · cases found
            exact .popWaitPark ‹_›
      | _ => cases found
  | popWaitSelect =>
      cases act with
      | token =>
          obtain ⟨available, same⟩ := Option.ite_none_right_eq_some.mp found
          cases same
          exact .popWaitToken available
      | closed =>
          obtain ⟨shut, same⟩ := Option.ite_none_right_eq_some.mp found
          cases same
          exact .popWaitClosed shut
      | cancel => cases found; exact .popWaitCancel
      | _ => cases found
  | close =>
      cases act with
      | next =>
          cases result : s.ring.close with
          | mk first ring =>
              simp only [effect, result] at found
              cases first with
              | true => cases found; exact .closeFirst result
              | false => cases found; exact .closeAgain result
      | _ => cases found
  | closeDone =>
      cases act with
      | next => cases found; exact .closeDone
      | _ => cases found
  | drain =>
      cases act with
      | next =>
          simp only [effect, drainSection] at found
          split at found <;> cases found
          · exact .drainDrops rfl ‹_›
          · exact .drain rfl (Bool.eq_false_iff.mpr ‹_›)
      | _ => cases found
  | drainDrop count rest =>
      cases act with
      | next =>
          cases rest with
          | nil => cases found; exact .drainDone count
          | cons v rest => cases found; exact .drainDrop count v rest
      | _ => cases rest <;> cases found
  | len =>
      cases act with
      | next => cases found; exact .len
      | _ => cases found
  | stats =>
      cases act with
      | next => cases found; exact .stats
      | _ => cases found

end Effects

structure State (Tid T : Type) where
  shared : Shared T
  thread : Tid → Pc T
  accepted : List (Tid × T)
  removed : List (Tid × Removal T)
  drops : List (Tid × T)
  replies : List (Tid × Reply T)

section System

variable {Tid T : Type} [DecidableEq Tid] [Inhabited T]

def State.apply (s : State Tid T) (tid : Tid) (e : Effect T) : State Tid T where
  shared := e.shared
  thread := Function.update s.thread tid e.pc
  accepted := s.accepted ++ e.accepted.map (tid, ·)
  removed := s.removed ++ e.removed.map (tid, ·)
  drops := s.drops ++ e.drops.map (tid, ·)
  replies := s.replies ++ e.replies.map (tid, ·)

def State.step (s : State Tid T) (action : Tid × Act T) : Option (State Tid T) :=
  (effect s.shared (s.thread action.1) action.2).map (s.apply action.1)

def State.start (ring : Ring T) : State Tid T where
  shared := { ring, notEmpty := false, notFull := false, done := false }
  thread := fun _ => .idle
  accepted := []
  removed := []
  drops := []
  replies := []

/-- All runs of threads over a ring returned by `New`. -/
def system (Tid T : Type) [DecidableEq Tid] [Inhabited T] (o : Options) :
    Transition.System (State Tid T) (Tid × Act T) where
  initial s := ∃ ring, Ring.new o = some ring ∧ s = .start ring
  step := State.step

theorem State.step_moves {s next : State Tid T} {tid : Tid} {act : Act T}
    (stepped : s.step (tid, act) = some next) :
    ∃ e, Moves s.shared (s.thread tid) act e ∧ next = s.apply tid e := by
  obtain ⟨e, found, same⟩ := Option.map_eq_some_iff.mp stepped
  exact ⟨e, effect_moves found, same.symm⟩

end System

end Netx.Queue
