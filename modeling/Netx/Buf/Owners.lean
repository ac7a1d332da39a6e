import Netx.Buf.Pool
import Netx.Transition.System
import Mathlib.Data.Multiset.AddSub

/-!
# The owners of pooled buffers

Any number of `Get`, `Copy` and `Release` calls on one pool. The charge to the
budget, the exchange with a `sync.Pool` and the refund are steps of their own, and
between them other calls go on, owners use their buffers as they like and a
`sync.Pool` drops what it holds.
-/

set_option autoImplicit false

set_option linter.dupNamespace false

namespace Netx.Buf

namespace Pool

/-- `Get` charges the budget. -/
def charge (n : Nat) (pool : Pool) : Bool × Pool :=
  match pool.budget with
  | none => (true, pool)
  | some budget =>
      let (granted, budget) := budget.reserve (capacity n)
      (granted, { pool with budget := some budget })

/-- `Get` takes a buffer from its class or allocates one. -/
def fetch (n : Nat) (pick : Option Nat) (pool : Pool) : Buf × Pool :=
  if classOf n ≥ 0 then pool.take (classOf n).toNat pick else pool.alloc (.inr n)

/-- `Release` refunds the backing array, and whether that panics. -/
def refund (b : Buf) (pool : Pool) : Bool × Pool :=
  match pool.budget with
  | none => (false, pool)
  | some budget =>
      let (panics, budget) := budget.release b.full.length
      (panics, { pool with budget := some budget })

/-- `Release` gives a pooled buffer back to its class. -/
def keep (b : Buf) (pool : Pool) : Pool :=
  if pooled : 0 ≤ b.sizeClass then pool.put b pooled else pool

/-- A `sync.Pool` forgets an element. -/
def drop (i place : Nat) (pool : Pool) : Pool :=
  { pool with
    pools := Function.update pool.pools i ((pool.pools i).eraseIdx place)
    classed := by
      intro j c member
      by_cases same : j = i
      · subst j
        rw [Function.update_self] at member
        exact pool.classed i c (List.mem_of_mem_eraseIdx member)
      · rw [Function.update_of_ne same] at member
        exact pool.classed j c member }

/-- Without interruption the steps are those of `Get`. -/
theorem get_eq (n : Nat) (pick : Option Nat) (pool : Pool) :
    pool.get n pick = match pool.charge n with
      | (false, pool) => some (none, pool)
      | (true, pool) =>
          some (some ((pool.fetch n pick).1.slice n), (pool.fetch n pick).2) := by
  simp only [get, Int.toNat_natCast]
  rw [if_neg (by omega)]
  rfl

theorem release_eq (b : Buf) (pool : Pool) :
    pool.release b = match pool.refund b with
      | (true, _) => none
      | (false, pool) => some (pool.keep b) := by
  unfold release refund keep
  cases pool.budget with
  | none => exact (apply_dite some _ _ _).symm
  | some budget =>
      cases released : budget.release b.full.length with
      | mk panics after =>
          simp only [released]
          cases panics with
          | true => rfl
          | false => exact (apply_dite some _ _ _).symm

end Pool

/-- A slice: the array it points into, its length and its capacity. -/
structure Slice where
  array : Nat
  len : Nat
  cap : Nat
  deriving DecidableEq, Repr

/-- A buffer in the hands of an owner. `size` is what was asked for, and `B` is what the
owner has made of it since. -/
structure Held (Owner : Type) where
  owner : Owner
  size : Nat
  buf : Buf
  B : Slice
  deriving DecidableEq

/-- The next step of a call. A `Copy` is a `Get` with the data to be copied. -/
inductive Call (Owner : Type) where
  | reserve (owner : Owner) (n : Nat) (data : Option (List UInt8))
  | take (owner : Owner) (n : Nat) (data : Option (List UInt8))
  | refund (size : Nat) (b : Buf)
  | put (b : Buf)
  deriving DecidableEq

inductive Progress (Owner : Type) where
  | goes (call : Call Owner)
  | refused
  | granted (held : Held Owner)
  | released
  | panicked

/-- What `Get` returns once it has a buffer. -/
def Buf.grant {Owner : Type} (owner : Owner) (n : Nat) (data : Option (List UInt8)) (b : Buf) :
    Held Owner :=
  let b := b.slice n
  let b := data.elim b b.write
  { owner, size := n, buf := b, B := ⟨b.id, b.length, b.full.length⟩ }

/-- One step of a call; `pick` is the choice of the `sync.Pool`. -/
def Pool.advance {Owner : Type} (pick : Option Nat) (pool : Pool) :
    Call Owner → Pool × Progress Owner
  | .reserve owner n data =>
      match pool.charge n with
      | (true, pool) => (pool, .goes (.take owner n data))
      | (false, pool) => (pool, .refused)
  | .take owner n data =>
      let (b, pool) := pool.fetch n pick
      (pool, .granted (b.grant owner n data))
  | .refund _ b =>
      match pool.refund b with
      | (true, pool) => (pool, .panicked)
      | (false, pool) => (pool, .goes (.put b))
  | .put b => (pool.keep b, .released)

structure World (Owner : Type) where
  pool : Pool
  held : Multiset (Held Owner)
  busy : Multiset (Call Owner)
  panicked : Bool

/-- `get` and `copy` are called, a call goes on, an owner releases a buffer, changes its
slice and the bytes behind it, or hands it on, and a `sync.Pool` drops an element. -/
inductive Action (Owner : Type) where
  | get (owner : Owner) (n : Int)
  | copy (owner : Owner) (data : List UInt8)
  | next (call : Call Owner) (pick : Option Nat)
  | release (held : Held Owner)
  | edit (held : Held Owner) (B : Slice) (bytes : List UInt8)
  | give (held : Held Owner) (owner : Owner)
  | drop (i place : Nat)

/-- The bytes behind a buffer change, its backing array does not. -/
def Buf.overwrite (bytes : List UInt8) (b : Buf) : Buf :=
  (b.slice b.full.length).write bytes |>.slice b.length

section System

variable {Owner : Type} [DecidableEq Owner]

/-- A call has taken a step. -/
def World.proceed (w : World Owner) (pool : Pool) (rest : Multiset (Call Owner)) :
    Progress Owner → World Owner
  | .goes call => { w with pool, busy := call ::ₘ rest }
  | .granted held => { w with pool, held := held ::ₘ w.held, busy := rest }
  | .refused | .released => { w with pool, busy := rest }
  | .panicked => { w with pool, busy := rest, panicked := true }

/-- A `Get` of a negative size panics before it does anything. -/
def World.step (w : World Owner) : Action Owner → Option (World Owner)
  | .get owner n =>
      if n < 0 then some w else some { w with busy := .reserve owner n.toNat none ::ₘ w.busy }
  | .copy owner data =>
      some { w with busy := .reserve owner data.length (some data) ::ₘ w.busy }
  | .next call pick =>
      if call ∈ w.busy then
        let (pool, progress) := w.pool.advance pick call
        some (w.proceed pool (w.busy.erase call) progress)
      else none
  | .release held =>
      if held ∈ w.held then
        some { w with
          held := w.held.erase held
          busy := .refund held.size held.buf ::ₘ w.busy }
      else none
  | .edit held B bytes =>
      if held ∈ w.held then
        some { w with
          held := { held with B, buf := held.buf.overwrite bytes } ::ₘ w.held.erase held }
      else none
  | .give held owner =>
      if held ∈ w.held then
        some { w with held := { held with owner } ::ₘ w.held.erase held }
      else none
  | .drop i place => some { w with pool := w.pool.drop i place }

def World.start (budget : Option Limit.Budget) : World Owner where
  pool := .newPool budget
  held := 0
  busy := 0
  panicked := false

/-- Any pool, with a budget that `NewBudget` has made or with none. -/
def system (Owner : Type) [DecidableEq Owner] :
    Transition.System (World Owner) (Action Owner) where
  initial w := ∃ budget : Option Limit.Budget,
    (∀ b ∈ budget, Limit.Budget.newBudget b.max = some b) ∧ w = .start budget
  step := World.step

end System

end Netx.Buf
