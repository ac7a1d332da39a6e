import Netx.Buf.Capacity
import Netx.Limit.Budget

/-!
# Pooled buffers

The pool of `buf/buf.go`. A `sync.Pool` may hand out any element put into it
and not handed out since, or a fresh one, so `get` takes that choice as an
argument.
-/

set_option autoImplicit false

set_option linter.dupNamespace false

namespace Netx.Buf

/-- A buffer: `full` is its backing array and `length` the length of `B`. The
array of a pooled buffer has exactly the size of its class. -/
structure Buf where
  id : Nat
  full : List UInt8
  length : Nat
  sizeClass : Int
  sized : 0 ≤ sizeClass → full.length = minSize <<< sizeClass.toNat
  bounded : length ≤ full.length
  deriving DecidableEq

namespace Buf

def B (b : Buf) : List UInt8 :=
  b.full.take b.length

/-- `full[:n]`. -/
def slice (n : Nat) (b : Buf) : Buf :=
  { b with length := min n b.full.length, bounded := Nat.min_le_right _ _ }

/-- The buffer after its owner wrote `bytes` through `B`. -/
def write (bytes : List UInt8) (b : Buf) : Buf :=
  let kept := bytes.take b.length
  { b with
    full := kept ++ b.full.drop kept.length
    sized := fun pooled => by
      rw [← b.sized pooled, List.length_append, List.length_drop, List.length_take]
      have := b.bounded
      omega
    bounded := by
      rw [List.length_append, List.length_drop, List.length_take]
      have := b.bounded
      omega }

theorem length_B (b : Buf) : b.B.length = b.length := by
  rw [B, List.length_take, Nat.min_eq_left b.bounded]

end Buf

/-- Idle buffers by class, each in the class it belongs to. -/
structure Pool where
  pools : Nat → List Buf
  budget : Option Limit.Budget
  allocated : Nat
  classed : ∀ i, ∀ b ∈ pools i, b.sizeClass = i

namespace Pool

def newPool (budget : Option Limit.Budget) : Pool :=
  { pools := fun _ => [], budget, allocated := 0, classed := by simp }

/-- A buffer of its own backing array: of class `i`, or of `n` bytes and unpooled. -/
def alloc (request : Nat ⊕ Nat) (pool : Pool) : Buf × Pool :=
  let b : Buf := match request with
    | .inl i => {
        id := pool.allocated
        full := List.replicate (minSize <<< i) 0
        length := 0
        sizeClass := i
        sized := by simp
        bounded := Nat.zero_le _ }
    | .inr n => {
        id := pool.allocated
        full := List.replicate n 0
        length := 0
        sizeClass := -1
        sized := by simp
        bounded := Nat.zero_le _ }
  (b, { pool with allocated := pool.allocated + 1 })

/-- `sync.Pool.Get` of class `i`: the picked idle buffer, else a new one. -/
def take (i : Nat) (pick : Option Nat) (pool : Pool) : Buf × Pool :=
  match pick.bind fun place => (pool.pools i)[place]?.map (place, ·) with
  | some (place, b) =>
      (b, { pool with
        pools := Function.update pool.pools i ((pool.pools i).eraseIdx place)
        classed := by
          intro j c member
          by_cases same : j = i
          · subst j
            rw [Function.update_self] at member
            exact pool.classed i c (List.mem_of_mem_eraseIdx member)
          · rw [Function.update_of_ne same] at member
            exact pool.classed j c member })
  | none => pool.alloc (.inl i)

/-- `Get(n)`. The outer `none` is the panic for a negative size, the inner one
the refusal of an exhausted budget. -/
def get (n : Int) (pick : Option Nat) (pool : Pool) : Option (Option Buf × Pool) :=
  if n < 0 then none
  else
    let n := n.toNat
    let reserved := match pool.budget with
      | none => (true, pool)
      | some budget =>
          let (granted, budget) := budget.reserve (capacity n)
          (granted, { pool with budget := some budget })
    match reserved with
    | (false, pool) => some (none, pool)
    | (true, pool) =>
        let (b, pool) := if classOf n ≥ 0 then pool.take (classOf n).toNat pick
          else pool.alloc (.inr n)
        some (some (b.slice n), pool)

/-- `sync.Pool.Put` of a buffer into its class. -/
def put (b : Buf) (pooled : 0 ≤ b.sizeClass) (pool : Pool) : Pool :=
  let i := b.sizeClass.toNat
  { pool with
    pools := Function.update pool.pools i (b.slice 0 :: pool.pools i)
    classed := by
      intro j c member
      by_cases same : j = i
      · subst j
        rw [Function.update_self, List.mem_cons] at member
        rcases member with rfl | member
        · exact (Int.toNat_of_nonneg pooled).symm
        · exact pool.classed i c member
      · rw [Function.update_of_ne same] at member
        exact pool.classed j c member }

/-- `Release`, with `none` where refunding the backing array's size panics. -/
def release (b : Buf) (pool : Pool) : Option Pool :=
  let refunded := match pool.budget with
    | none => (false, pool)
    | some budget =>
        let (panics, budget) := budget.release b.full.length
        (panics, { pool with budget := some budget })
  match refunded with
  | (true, _) => none
  | (false, pool) =>
      if pooled : 0 ≤ b.sizeClass then some (pool.put b pooled) else some pool

theorem take_sizeClass {i : Nat} {pick : Option Nat} {pool after : Pool} {b : Buf}
    (result : pool.take i pick = (b, after)) : b.sizeClass = i := by
  unfold take at result
  split at result
  · rename_i place c picked
    cases result
    obtain ⟨_, _, found⟩ := Option.bind_eq_some_iff.mp picked
    obtain ⟨_, indexed, same⟩ := Option.map_eq_some_iff.mp found
    cases same
    exact pool.classed i b (List.mem_of_getElem? indexed)
  · cases result
    rfl

/-- A granted buffer has the length requested. -/
theorem get_length {n : Nat} {pick : Option Nat} {pool after : Pool} {b : Buf}
    (result : pool.get n pick = some (some b, after)) : b.B.length = n := by
  rw [b.length_B]
  simp only [get, Int.toNat_natCast] at result
  rw [if_neg (by omega)] at result
  split at result
  · cases result
  · rename_i charged _
    by_cases pooled : classOf n ≥ 0
    · rw [if_pos pooled] at result
      cases taken : charged.take (classOf n).toNat pick with
      | mk c rest =>
          simp only [taken, Option.some.injEq, Prod.mk.injEq] at result
          obtain ⟨rfl, rfl⟩ := result
          have sized := c.sized (by rw [take_sizeClass taken]; omega)
          rw [take_sizeClass taken, Int.toNat_natCast] at sized
          have fits := le_capacity n
          rw [capacity, if_pos pooled, ← sized] at fits
          exact Nat.min_eq_left fits
    · rw [if_neg pooled] at result
      cases result
      simp [alloc, Buf.slice]

end Pool

end Netx.Buf
