import Netx.Runtime.Service
import Netx.Tcp.Contract

/-!
# A TCP server as a service

The runtime makes one `Serve` and one `Shutdown` call on a server, and the
context of `Serve` may close it. While the listener works and the drain lasts,
`Serve` returns nil or finds its gate closed, and `Shutdown` returns nil.
-/

set_option autoImplicit false

namespace Netx.Runtime.TcpService

open Errors Tcp

def request : Act Role → Request
  | .call op => .call op
  | .fire source => .fire source
  | .ctxEnds _ => .ctxEnds
  | _ => .further

def allowed : Action Role → Bool
  | .call role act => role.may (request act)
  | .conn _ _ => true

/-- `Accept` fails for good only on a closed listener. -/
def healthy (w : World Role) : Action Role → Bool
  | .call _ (.acceptFails temporary _) => temporary || !w.shared.server.listening
  | _ => true

def reply (w : World Role) (role : Role) : Option Reply :=
  match w.pc role with
  | .returned answer => some answer
  | _ => none

/-- `Serve` comes to its gate after the server was stopped. -/
def late (w : World Role) : Action Role → Bool
  | .call .serve .next =>
      match w.pc .serve with
      | .gate => w.shared.server.stopped
      | _ => false
  | _ => false

/-- The points each call can be at. -/
def Within : Role → Pc Role → Prop
  | .serve, .idle | .serve, .gate => True
  | .serve, .returned (.refused err) => err = ErrClosed
  | .serve, pc => pc.owns = true
  | .shutdown, .idle | .shutdown, .stopAccept _ .shutdown | .shutdown, .readServing => True
  | .shutdown, .select | .shutdown, .returned .notServing => True
  | .shutdown, .returned .shutdownDone => True
  | .afterFunc, .idle | .afterFunc, .stopAccept _ (.close _) => True
  | .afterFunc, .abortAll (.close _) | .afterFunc, .closing (.close _) _ => True
  | .afterFunc, .returned .closed => True
  | _, _ => False

structure Fit (w : World Role) : Prop where
  sound : ∃ o, w.Sound o
  within : ∀ role, Within role (w.pc role)
  unbroken : w.shared.broken = false
  closing : ∀ role err, w.pc role = .checkStopped false err → w.shared.server.stopped = true
  alive : w.shared.ctx .shutdown = none

theorem Within.of_owns {pc : Pc Role} (owns : pc.owns = true) : Within .serve pc := by
  cases pc with
  | returned reply =>
      cases reply with
      | served err => exact owns
      | _ => cases owns
  | idle | gate => cases owns
  | _ => exact owns

theorem Within.owns {role : Role} {pc : Pc Role} (within : Within role pc)
    (owns : pc.owns = true) : role = .serve := by
  cases role with
  | serve => rfl
  | shutdown =>
      cases pc with
      | stopAccept stage after => cases after <;> first | exact within.elim | cases owns
      | returned reply => cases reply <;> first | exact within.elim | cases owns
      | _ => first | exact within.elim | cases owns
  | afterFunc =>
      cases pc with
      | stopAccept stage after | abortAll after | closing after =>
          cases after <;> first | exact within.elim | cases owns
      | returned reply => cases reply <;> first | exact within.elim | cases owns
      | _ => first | exact within.elim | cases owns

section Moves

variable {s s' : Shared Role} {pc pc' : Pc Role} {act : Act Role}

theorem Within.outside (within : Within .serve pc) (owns : pc.owns = false) :
    pc = .idle ∨ pc = .gate ∨ pc = .returned (.refused ErrClosed) := by
  cases pc with
  | idle => exact .inl rfl
  | gate => exact .inr (.inl rfl)
  | returned reply =>
      cases reply with
      | refused err => exact .inr (.inr (by rw [show err = ErrClosed from within]))
      | served err => cases owns
      | _ => cases within
  | _ => exact absurd (owns.symm.trans within) nofun

theorem Within.serve_moves (permitted : Role.may .serve (request act) = true)
    (alone : pc = .gate → s.server.serving = false) (within : Within .serve pc)
    (moved : Moves .serve s pc act s' pc') : Within .serve pc' := by
  cases owns : pc.owns with
  | true =>
      rcases moved.gate_cases with ⟨same, _⟩ | ⟨passed, _⟩
      · exact .of_owns (same.trans owns)
      · exact .of_owns passed
  | false =>
      rcases within.outside owns with rfl | rfl | rfl
      · cases moved with
        | serve | ctxEnds _ err running => trivial
        | _ => cases permitted
      · cases moved with
        | gateStopped stopped => rfl
        | gateServing serving =>
            rw [alone rfl] at serving
            cases serving
        | gate stopped serving => rfl
        | ctxEnds _ err running => trivial
      · cases moved with
        | ctxEnds _ err running => rfl

theorem Within.shutdown_moves (permitted : Role.may .shutdown (request act) = true)
    (alive : s.ctx .shutdown = none) (within : Within .shutdown pc)
    (moved : Moves .shutdown s pc act s' pc') : Within .shutdown pc' := by
  cases moved with
  | shutdown | readServing serving | notServing idle | done finished => trivial
  | stopEnter after | stopSkip after | stopSet after | stopListener after | stopDraining after
  | stopLeave after =>
      cases after <;> first | exact within.elim | trivial
  | ctxDone err ended =>
      rw [alive] at ended
      cases ended
  | serve | close | fire source armed ended | ctxEnds _ err running => cases permitted
  | _ => exact within.elim

theorem Within.afterFunc_moves (permitted : Role.may .afterFunc (request act) = true)
    (within : Within .afterFunc pc) (moved : Moves .afterFunc s pc act s' pc') :
    Within .afterFunc pc' := by
  cases moved with
  | fire source armed ended => trivial
  | stopEnter after | stopSkip after | stopSet after | stopListener after | stopDraining after
  | stopLeave after =>
      cases after <;> first | exact within.elim | trivial
  | abortAll after | closeConn i after | closed after =>
      cases after <;> first | exact within.elim | trivial
  | ctxEnds _ err running => exact within
  | serve | close | shutdown => cases permitted
  | _ => exact within.elim

end Moves

section Runs

variable {w next : World Role} {action : Action Role}

theorem Fit.start {o : Options} (start : (system Role o).initial w) : Fit w := by
  refine ⟨⟨o, .start start⟩, ?_, ?_, ?_, ?_⟩ <;> obtain ⟨admission, server, _, _, rfl⟩ := start
  · intro role
    cases role <;> trivial
  · rfl
  · exact nofun
  · rfl

/-- Nobody but `Serve` itself passes its gate. -/
theorem Fit.alone (fit : Fit w) (here : w.pc .serve = .gate) :
    w.shared.server.serving = false := by
  by_contra serving
  obtain ⟨o, sound⟩ := fit.sound
  obtain ⟨role, owns⟩ := sound.owned.held (by simpa using serving)
  obtain rfl := (fit.within role).owns owns
  rw [here] at owns
  cases owns

variable {shared : Shared Role} {answer : Reply} {role : Role} {act : Act Role} {pc : Pc Role}

theorem Fit.within_moves (fit : Fit w) (permitted : role.may (request act) = true)
    (moved : Moves role w.shared (w.pc role) act shared pc) : Within role pc := by
  cases role with
  | serve => exact (fit.within .serve).serve_moves permitted fit.alone moved
  | shutdown => exact (fit.within .shutdown).shutdown_moves permitted fit.alive moved
  | afterFunc => exact (fit.within .afterFunc).afterFunc_moves permitted moved

theorem Fit.broken_moves (fit : Fit w) (moved : Moves role w.shared (w.pc role) act shared pc) :
    shared.broken = false := by
  generalize here : w.pc role = point at moved
  cases moved with
  | permanent err running =>
      rw [fit.closing role err here] at running
      cases running
  | _ => exact fit.unbroken

theorem Fit.closing_moves (fit : Fit w) (sane : healthy w (.call role act) = true)
    (moved : Moves role w.shared (w.pc role) act shared pc) {err : Err}
    (here : pc = .checkStopped false err) : shared.server.stopped = true := by
  generalize before : w.pc role = point at moved
  obtain ⟨o, sound⟩ := fit.sound
  cases moved with
  | acceptFails temporary err =>
      cases here
      exact sound.heard (by simpa [healthy] using sane)
  | ctxEnds _ err running => exact fit.closing role _ (before.trans here)
  | work i server c inLoop advanced =>
      unfold Conn.afterWork at here
      split at here
      · cases here
      · split at here <;> cases here
  | stopSkip after | stopLeave after | closed after => cases after <;> cases here
  | _ => cases here

theorem Fit.step (fit : Fit w) (permitted : allowed action = true)
    (sane : healthy w action = true) (stepped : w.step action = some next) : Fit next := by
  obtain ⟨o, sound⟩ := fit.sound
  have forward := World.forward_step sound.worked stepped
  refine ⟨⟨o, sound.step stepped⟩, ?_, ?_, ?_, ?_⟩
  all_goals
    rcases World.step_cases stepped with ⟨role, act, shared, pc, rfl, moved, rfl⟩ |
      ⟨i, server, c, _, advanced, rfl⟩ | ⟨i, _, rfl⟩
  · intro other
    simp only [Function.update_apply]
    split_ifs with acting
    · subst acting
      exact fit.within_moves permitted moved
    · exact fit.within other
  · exact fit.within
  · exact fit.within
  · exact fit.broken_moves moved
  · exact fit.unbroken
  · exact fit.unbroken
  · intro other err here
    simp only [Function.update_apply] at here
    split_ifs at here with acting
    · subst acting
      exact fit.closing_moves sane moved here
    · exact forward.server.stopped (fit.closing other err here)
  · exact fun other err here => forward.server.stopped (fit.closing other err here)
  · exact fit.closing
  · generalize w.pc role = point at moved
    cases moved with
    | ctxEnds _ err running =>
        have other : .shutdown ≠ role := by
          rintro rfl
          cases permitted
        exact (Function.update_of_ne other _ _).trans fit.alive
    | _ => exact fit.alive
  · exact fit.alive
  · exact fit.alive

theorem reply_eq_some : reply w role = some answer ↔ w.pc role = .returned answer := by
  unfold reply
  split
  · rename_i here
    simp [here]
  · rename_i other
    exact iff_of_false nofun (other answer)

theorem reply_stays (stepped : w.step action = some next) (replied : reply w role = some answer) :
    reply next role = some answer :=
  reply_eq_some.mpr (World.returned_stays stepped (reply_eq_some.mp replied))

theorem Fit.drained (fit : Fit w) (replied : reply w .shutdown = some answer) : answer.Drained := by
  have within := fit.within .shutdown
  rw [reply_eq_some.mp replied] at within
  cases answer <;> trivial

/-- `Serve` fails only where it finds its gate closed. -/
theorem Fit.serve_fails (fit : Fit w) (failed : Failed (reply w .serve)) :
    w.pc .serve = .returned (.refused ErrClosed) := by
  obtain ⟨answer, err, replied, result⟩ := failed.reply
  have here := reply_eq_some.mp replied
  cases answer with
  | refused err =>
      have within := fit.within .serve
      rw [here] at within ⊢
      rw [show err = ErrClosed from within]
  | served err =>
      obtain ⟨o, sound⟩ := fit.sound
      have stands := sound.stands .serve
      cases result
      rw [here] at stands
      exact absurd (fit.unbroken.symm.trans stands) nofun
  | _ => cases result

/-- A step makes `Serve` fail exactly if it comes to a closed gate. -/
theorem Fit.failed_iff (fit : Fit w) (permitted : allowed action = true)
    (sane : healthy w action = true) (stepped : w.step action = some next)
    (working : ¬Failed (reply w .serve)) :
    Failed (reply next .serve) ↔ late w action = true := by
  have unfailed (refused : w.pc .serve = .returned (.refused ErrClosed)) : False :=
    working ⟨ErrClosed, by rw [reply_eq_some.mpr refused]; rfl⟩
  constructor
  · intro failed
    have refused := (fit.step permitted sane stepped).serve_fails failed
    rcases World.step_cases stepped with ⟨role, act, shared, pc, rfl, moved, rfl⟩ |
      ⟨i, server, c, _, _, rfl⟩ | ⟨i, _, rfl⟩
    · simp only [Function.update_apply] at refused
      split_ifs at refused with acting
      · subst acting
        generalize here : w.pc .serve = point at moved
        cases moved with
        | gateStopped stopped => simp only [late, here, stopped]
        | gateServing serving => cases refused
        | ctxEnds _ err running => exact (unfailed (here.trans refused)).elim
        | work i server c inLoop advanced =>
            unfold Conn.afterWork at refused
            split at refused
            · cases refused
            · split at refused <;> cases refused
        | stopSkip after | stopLeave after | closed after => cases after <;> cases refused
        | _ => cases refused
      · exact (unfailed refused).elim
    · exact absurd failed working
    · exact absurd failed working
  · intro closed
    unfold late at closed
    split at closed
    · split at closed
      · rename_i here
        have refused : next =
            ⟨w.shared, Function.update w.pc .serve (.returned (.refused ErrClosed))⟩ := by
          simpa [World.step, effect, Tcp.next, here, closed] using stepped.symm
        exact ⟨ErrClosed, by rw [refused]; rfl⟩
      · cases closed
    · cases closed

end Runs

end Netx.Runtime.TcpService
