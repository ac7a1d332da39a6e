import Mathlib.Algebra.Order.Ring.Int

/-! The byte budget of `limit.go`, one whole call at a time. -/

set_option autoImplicit false

namespace Netx.Limit

structure Budget where
  max : Int
  used : Int
  deriving DecidableEq, Repr

namespace Budget

/-- `NewBudget`, with `none` where the source panics. -/
def newBudget (max : Int) : Option Budget :=
  if max ≤ 0 then none else some { max, used := 0 }

def reserve (n : Int) (budget : Budget) : Bool × Budget :=
  if n < 0 then (false, budget)
  else if n > budget.max - budget.used then (false, budget)
  else (true, { budget with used := budget.used + n })

/-- `Release(n)` and whether it panics. The subtraction stays in place when it
panics because more than the amount in use was released. -/
def release (n : Int) (budget : Budget) : Bool × Budget :=
  if n < 0 then (true, budget)
  else
    let used := budget.used - n
    (decide (used < 0), { budget with used })

end Budget

end Netx.Limit
