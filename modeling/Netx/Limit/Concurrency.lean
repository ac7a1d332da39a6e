import Mathlib.Algebra.Order.Ring.Int

/-! The concurrency limiter of `limit.go`, one atomic operation at a time. -/

set_option autoImplicit false

namespace Netx.Limit

structure Concurrency where
  max : Int
  inUse : Int
  deriving DecidableEq, Repr

namespace Concurrency

/-- `NewConcurrency`, with `none` where the source panics. -/
def newConcurrency (max : Int) : Option Concurrency :=
  if max ≤ 0 then none else some { max, inUse := 0 }

/-- The test of `TryAcquire` on the value it has loaded. -/
def full (c : Concurrency) (loaded : Int) : Bool :=
  decide (loaded ≥ c.max)

/-- The compare-and-swap of `TryAcquire` after it has loaded a value. -/
def compareAndSwap (c : Concurrency) (loaded : Int) : Bool × Concurrency :=
  if c.inUse = loaded then (true, { c with inUse := loaded + 1 }) else (false, c)

/-- `TryAcquire` while no other call comes in between. -/
def tryAcquire (c : Concurrency) : Bool × Concurrency :=
  if c.full c.inUse then (false, c) else c.compareAndSwap c.inUse

/-- `Release` and whether it panics; a panic gives the permit back first. -/
def release (c : Concurrency) : Bool × Concurrency :=
  if c.inUse - 1 < 0 then (true, c) else (false, { c with inUse := c.inUse - 1 })

theorem newConcurrency_inUse {max : Int} {c : Concurrency}
    (created : newConcurrency max = some c) : c.inUse = 0 := by
  unfold newConcurrency at created
  split at created
  · cases created
  · cases created
    rfl

theorem tryAcquire_eq (c : Concurrency) : c.tryAcquire =
    if c.inUse + 1 ≤ c.max then (true, { c with inUse := c.inUse + 1 }) else (false, c) := by
  unfold tryAcquire full compareAndSwap
  by_cases room : c.inUse + 1 ≤ c.max
  · rw [if_pos room, decide_eq_false (by omega), if_neg Bool.false_ne_true, if_pos rfl]
  · rw [if_neg room, decide_eq_true (by omega), if_pos rfl]

theorem release_eq {c : Concurrency} (held : 0 < c.inUse) :
    c.release = (false, { c with inUse := c.inUse - 1 }) := by
  unfold release
  rw [if_neg (by omega)]

end Concurrency

end Netx.Limit
