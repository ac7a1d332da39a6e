import Netx.Udp.Conn

/-! What the steps of `Close` and of the readers leave alone in a `Conn`. -/

set_option autoImplicit false

namespace Netx.Udp

open Errors

/-- Readers and `Close` never serve, never reopen, and record an error only while
the `Conn` is open. -/
structure Conn.Forward (c c' : Conn) : Prop where
  serving : c'.serving = c.serving
  done : c'.done = c.done
  closed : c.closed = true → c'.closed = true
  fatal : c.closed = true → c'.fatal = c.fatal

theorem Conn.Forward.refl (c : Conn) : c.Forward c :=
  ⟨rfl, rfl, id, fun _ => rfl⟩

section Steps

variable {o : Options} {c c' : Conn}

/-- A step of `Close`. Whoever comes late waits until it is over. -/
inductive Closes (o : Options) (c : Conn) : Closing → Conn → Option Closing → Prop where
  | first : c.closeOnce = .unused → Closes o c .enter { c with closeOnce := .running } (some .set)
  | late : c.closeOnce = .finished → Closes o c .enter c none
  | set : Closes o c .set { c with closed := true } (some .signal)
  | signal : Closes o c .signal
      { c with closing := true, crashed := c.crashed || c.closing } (some (.socket 0))
  | socket (k : Nat) : k < o.socks →
      Closes o c (.socket k) { c with sockets := c.sockets.erase k } (some (.socket (k + 1)))
  | sockets (k : Nat) : o.socks ≤ k → Closes o c (.socket k) c (some .leave)
  | leave : Closes o c .leave { c with closeOnce := .finished } none

variable {stage : Closing} {next : Option Closing}

theorem Conn.close_closes (stepped : c.close o stage = some (c', next)) :
    Closes o c stage c' next := by
  cases stage with
  | enter =>
      simp only [Conn.close] at stepped
      split at stepped <;> cases stepped
      · exact .first ‹_›
      · exact .late ‹_›
  | socket k =>
      simp only [Conn.close] at stepped
      split at stepped <;> cases stepped
      · exact .socket k ‹_›
      · exact .sockets k (Nat.le_of_not_lt ‹_›)
  | set | signal | leave =>
      cases stepped
      constructor

theorem Closes.forward (closes : Closes o c stage c' next) :
    c.Forward c' ∧ c'.fatal = c.fatal := by
  cases closes with
  | set => exact ⟨⟨rfl, rfl, fun _ => rfl, fun _ => rfl⟩, rfl⟩
  | _ => exact ⟨⟨rfl, rfl, id, fun _ => rfl⟩, rfl⟩

theorem Conn.fail_forward (c : Conn) (err : Err) : c.Forward (c.fail err) := by
  unfold Conn.fail
  split
  · rename_i recorded
    refine ⟨rfl, rfl, id, fun closed => ?_⟩
    rw [recorded.2] at closed
    cases closed
  · exact .refl c

variable {i : Nat} {r r' : Reader} {act : ReaderAct}

theorem Reads.forward (stepped : Reads o i c r act c' r') : c.Forward c' := by
  cases stepped with
  | failed err here => exact c.fail_forward err
  | closing stage next conn here closed => exact (Conn.close_closes closed).forward.1
  | finished here => exact ⟨rfl, rfl, id, fun _ => rfl⟩
  | _ => exact .refl c

end Steps

theorem World.returned_stays {Call : Type} [DecidableEq Call] {o : Options}
    {w next : World Call} {action : Action Call} {reply : Runtime.Reply}
    (stepped : w.step o action = some next) {a : Call}
    (returned : w.pc a = .returned reply) : next.pc a = .returned reply := by
  rcases World.step_cases stepped with ⟨role, act, shared, pc, rfl, moved, rfl⟩ |
    ⟨i, act, conn, reader, rfl, moved, rfl⟩
  · simp only [Function.update_apply]
    split_ifs with acting
    · subst acting
      rw [returned] at moved
      cases moved with
      | ctxEnds _ err running => rfl
    · exact returned
  · exact returned

end Netx.Udp
