import Netx.Runtime.Service
import Netx.Udp.ConnProperties

/-!
# A UDP connection as a service

The runtime makes one `Serve` and one `Shutdown` call on a `Conn`, and the context
of `Serve` may close it. While reads work and the drain lasts, `Serve` returns nil
or finds its gate closed, and `Shutdown` returns nil.
-/

set_option autoImplicit false

namespace Netx.Runtime.UdpService

open Errors Udp

def request : Act Role → Request
  | .call op => .call op
  | .fire source => .fire source
  | .ctxEnds _ => .ctxEnds
  | _ => .further

def allowed : Action Role → Bool
  | .call role act => role.may (request act)
  | .reader _ _ => true

/-- A read fails for good only on a closed `Conn`. -/
def healthy (w : World Role) : Action Role → Bool
  | .reader _ (.fails (.fatal _)) => w.shared.conn.closed
  | _ => true

def reply (w : World Role) (role : Role) : Option Reply :=
  match w.pc role with
  | .returned answer => some answer
  | _ => none

/-- `Serve` comes to its gate after the `Conn` was closed. -/
def late (w : World Role) : Action Role → Bool
  | .call .serve .next =>
      match w.pc .serve with
      | .gate => w.shared.conn.closed
      | _ => false
  | _ => false

/-- The points each call can be at. -/
def Within : Role → Pc → Prop
  | .serve, .idle | .serve, .gate | .serve, .afterFunc | .serve, .spawn _ => True
  | .serve, .wait | .serve, .readFatal => True
  | .serve, .unregister err | .serve, .closeDone err => err = none
  | .serve, .returned (.served err) => err = none
  | .serve, .returned (.refused err) => err = ErrClosed
  | .shutdown, .idle | .shutdown, .close _ .shutdown | .shutdown, .readServing => True
  | .shutdown, .select | .shutdown, .returned .notServing => True
  | .shutdown, .returned .shutdownDone => True
  | .afterFunc, .idle | .afterFunc, .close _ .close | .afterFunc, .returned .closed => True
  | _, _ => False

structure Fit (w : World Role) : Prop where
  within : ∀ role, Within role (w.pc role)
  held : w.pc .serve = .idle ∨ w.pc .serve = .gate → w.shared.conn.serving = false
  failing : ∀ i err, (w.shared.reader i).stage = .failed err → w.shared.conn.closed = true
  quiet : w.shared.conn.fatal = none
  alive : w.shared.ctx .shutdown = none

section Moves

variable {o : Options} {s s' : Shared Role} {pc pc' : Pc} {act : Act Role}

theorem Within.serve_moves (permitted : Role.may .serve (request act) = true)
    (held : pc = .idle ∨ pc = .gate → s.conn.serving = false) (quiet : s.conn.fatal = none)
    (within : Within .serve pc) (moved : Moves o .serve s pc act s' pc') :
    Within .serve pc' := by
  cases moved with
  | gateClosed closed => rfl
  | gateServing serving =>
      rw [held (.inr rfl)] at serving
      cases serving
  | readFatal => exact quiet
  | unregister err | closeDone err => exact within
  | ctxEnds _ err running => exact within
  | serve | gate closed serving | afterFunc | spawn k more | spawned k all | wait zero => trivial
  | close | shutdown | fire source armed ended => cases permitted
  | _ => cases within

theorem Within.shutdown_moves (permitted : Role.may .shutdown (request act) = true)
    (alive : s.ctx .shutdown = none) (within : Within .shutdown pc)
    (moved : Moves o .shutdown s pc act s' pc') : Within .shutdown pc' := by
  cases moved with
  | shutdown | readServing serving | notServing idle | done finished => trivial
  | closing stage next after conn closed | closed stage after conn closed =>
      cases after <;> first | exact within.elim | trivial
  | ctxDone err ended =>
      rw [alive] at ended
      cases ended
  | serve | close | fire source armed ended | ctxEnds _ err running => cases permitted
  | _ => exact within.elim

theorem Within.afterFunc_moves (permitted : Role.may .afterFunc (request act) = true)
    (within : Within .afterFunc pc) (moved : Moves o .afterFunc s pc act s' pc') :
    Within .afterFunc pc' := by
  cases moved with
  | fire source armed ended => trivial
  | closing stage next after conn closed | closed stage after conn closed =>
      cases after <;> first | exact within.elim | trivial
  | ctxEnds _ err running => exact within
  | serve | close | shutdown => cases permitted
  | _ => exact within.elim

variable {role : Role}

/-- Only `Serve` at its gate starts to serve. -/
theorem serving_moves (moved : Moves o role s pc act s' pc') :
    s'.conn.serving = s.conn.serving ∨ pc = .gate ∧ pc' = .afterFunc := by
  cases moved with
  | gate closed serving => exact .inr ⟨rfl, rfl⟩
  | closing stage next after conn closed | closed stage after conn closed =>
      exact .inl (Conn.close_closes closed).forward.1.serving
  | _ => exact .inl rfl

private theorem before_gate_moves (moved : Moves o role s pc act s' pc')
    (before : pc' = .idle ∨ pc' = .gate) : pc = .idle ∨ pc = .gate := by
  cases moved with
  | serve => exact .inl rfl
  | ctxEnds _ err running => exact before
  | closed stage after conn closed => cases after <;> rcases before with here | here <;> cases here
  | _ => rcases before with here | here <;> cases here

theorem Within.gate (within : Within role .gate) : role = .serve := by
  cases role with
  | serve => rfl
  | _ => exact within.elim

private theorem conn_moves (moved : Moves o role s pc act s' pc') :
    s'.conn.fatal = s.conn.fatal ∧ (s.conn.closed = true → s'.conn.closed = true) := by
  cases moved with
  | closing stage next after conn closed | closed stage after conn closed =>
      have forward := (Conn.close_closes closed).forward
      exact ⟨forward.2, forward.1.closed⟩
  | _ => exact ⟨rfl, id⟩

private theorem failed_moves (moved : Moves o role s pc act s' pc') {i : Nat} {err : Err}
    (failed : (s'.reader i).stage = .failed err) : (s.reader i).stage = .failed err := by
  cases moved with
  | spawn k more =>
      by_cases same : i = k
      · subst same
        simp only [Shared.spawn, Shared.setReader, Function.update_self] at failed
        split at failed <;> cases failed
      · simp only [Shared.spawn, Shared.setReader, Function.update_of_ne same] at failed
        exact failed
  | _ => exact failed

private theorem failed_reads {i : Nat} {c c' : Conn} {r r' : Reader} {act : ReaderAct}
    (stepped : Reads o i c r act c' r') {err : Err} (failed : r'.stage = .failed err) :
    act = .fails (.fatal err) := by
  cases stepped with
  | fails leaves failure here other =>
      cases failure with
      | fatal reason =>
          cases failed
          rfl
      | truncated => cases leaves <;> cases failed
      | netClosed | transient => cases failed
  | closing stage next conn here closed => cases next <;> cases failed
  | timer leaves here => cases leaves <;> cases failed
  | _ => cases failed

end Moves

section Runs

variable {o : Options} {w next : World Role} {action : Action Role}

theorem Fit.start (o : Options) : Fit (.start o) :=
  ⟨fun role => by cases role <;> trivial, fun _ => rfl, nofun, rfl, rfl⟩

variable {role : Role} {answer : Reply}

theorem Fit.within_moves (fit : Fit w) {act : Act Role} {shared : Shared Role} {pc : Pc}
    (permitted : role.may (request act) = true)
    (moved : Moves o role w.shared (w.pc role) act shared pc) : Within role pc := by
  cases role with
  | serve => exact (fit.within .serve).serve_moves permitted fit.held fit.quiet moved
  | shutdown => exact (fit.within .shutdown).shutdown_moves permitted fit.alive moved
  | afterFunc => exact (fit.within .afterFunc).afterFunc_moves permitted moved

theorem Fit.moves (fit : Fit w) {act : Act Role} {shared : Shared Role} {pc : Pc}
    (permitted : role.may (request act) = true)
    (moved : Moves o role w.shared (w.pc role) act shared pc) :
    Fit { shared, pc := Function.update w.pc role pc } := by
  obtain ⟨fatal, closed⟩ := conn_moves moved
  refine ⟨?_, ?_, ?_, fatal.trans fit.quiet, ?_⟩
  · intro other
    simp only [Function.update_apply]
    split_ifs with acting
    · subst acting
      exact fit.within_moves permitted moved
    · exact fit.within other
  · intro before
    simp only [Function.update_apply] at before
    split_ifs at before with acting
    · subst acting
      rcases serving_moves moved with same | ⟨_, passed⟩
      · exact same.trans (fit.held (before_gate_moves moved before))
      · rw [passed] at before
        rcases before with here | here <;> cases here
    · rcases serving_moves moved with same | ⟨here, _⟩
      · exact same.trans (fit.held before)
      · have within := fit.within role
        rw [here] at within
        exact absurd within.gate.symm acting
  · intro i err failed
    exact closed (fit.failing i err (failed_moves moved failed))
  · generalize w.pc role = point at moved
    cases moved with
    | ctxEnds _ err running =>
        have other : .shutdown ≠ role := by
          rintro rfl
          cases permitted
        exact (Function.update_of_ne other _ _).trans fit.alive
    | _ => exact fit.alive

theorem Fit.step (fit : Fit w) (permitted : allowed action = true)
    (sane : healthy w action = true) (stepped : w.step o action = some next) : Fit next := by
  rcases World.step_cases stepped with ⟨role, act, shared, pc, rfl, moved, rfl⟩ |
    ⟨i, act, conn, reader, rfl, moved, rfl⟩
  · exact fit.moves permitted moved
  · have forward := moved.forward
    refine ⟨fit.within, fun before => forward.serving.trans (fit.held before), ?_, ?_, fit.alive⟩
    · intro j err failed
      by_cases same : j = i
      · subst same
        simp only [Shared.setReader, Function.update_self] at failed
        obtain rfl := failed_reads moved failed
        exact forward.closed sane
      · simp only [Shared.setReader, Shared.withConn, Function.update_of_ne same] at failed
        exact forward.closed (fit.failing j err failed)
    · cases moved with
      | failed err here => exact (forward.fatal (fit.failing i err here)).trans fit.quiet
      | closing stage next conn here closed =>
          exact (Conn.close_closes closed).forward.2.trans fit.quiet
      | _ => exact fit.quiet

theorem reply_eq_some : reply w role = some answer ↔ w.pc role = .returned answer := by
  unfold reply
  split
  · rename_i here
    simp [here]
  · rename_i other
    exact iff_of_false nofun (other answer)

theorem reply_stays (stepped : w.step o action = some next) (replied : reply w role = some answer) :
    reply next role = some answer :=
  reply_eq_some.mpr (World.returned_stays stepped (reply_eq_some.mp replied))

theorem Fit.drained (fit : Fit w) (replied : reply w .shutdown = some answer) : answer.Drained := by
  have within := fit.within .shutdown
  rw [reply_eq_some.mp replied] at within
  cases answer <;> trivial

/-- `Serve` fails only where it finds its gate closed. -/
theorem Fit.serve_fails (fit : Fit w) (failed : Failed (reply w .serve)) :
    w.pc .serve = .returned (.refused ErrClosed) := by
  obtain ⟨answer, err, replied, result⟩ := failed.reply
  have here := reply_eq_some.mp replied
  have within := fit.within .serve
  rw [here] at within ⊢
  cases answer with
  | refused err => rw [show err = ErrClosed from within]
  | served err =>
      cases result
      cases within
  | _ => cases result

/-- A step makes `Serve` fail exactly if it comes to a closed gate. -/
theorem Fit.failed_iff (fit : Fit w) (permitted : allowed action = true)
    (sane : healthy w action = true) (stepped : w.step o action = some next)
    (working : ¬Failed (reply w .serve)) :
    Failed (reply next .serve) ↔ late w action = true := by
  have unfailed (refused : w.pc .serve = .returned (.refused ErrClosed)) : False :=
    working ⟨ErrClosed, by rw [reply_eq_some.mpr refused]; rfl⟩
  constructor
  · intro failed
    have refused := (fit.step permitted sane stepped).serve_fails failed
    rcases World.step_cases stepped with ⟨role, act, shared, pc, rfl, moved, rfl⟩ |
      ⟨i, act, conn, reader, rfl, _, rfl⟩
    · simp only [Function.update_apply] at refused
      split_ifs at refused with acting
      · subst acting
        generalize here : w.pc .serve = point at moved
        cases moved with
        | gateClosed closed => simp only [late, here, closed]
        | gateServing serving => cases refused
        | ctxEnds _ err running => exact (unfailed (here.trans refused)).elim
        | closed stage after conn closed => cases after <;> cases refused
        | _ => cases refused
      · exact (unfailed refused).elim
    · exact absurd failed working
  · intro closed
    unfold late at closed
    split at closed
    · split at closed
      · rename_i here
        have refused : next =
            ⟨w.shared, Function.update w.pc .serve (.returned (.refused ErrClosed))⟩ := by
          simpa [World.step, effect, Udp.next, here, closed] using stepped.symm
        exact ⟨ErrClosed, by rw [refused]; rfl⟩
      · cases closed
    · cases closed

end Runs

end Netx.Runtime.UdpService
