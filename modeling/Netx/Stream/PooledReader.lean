import Netx.Buf.Pool
import Netx.Stream.Reader

/-! The environment of a reader that borrows from a `buf.Pool`. Before each of
its `Get` calls the other owners of the pool may have changed it in any way. -/

set_option autoImplicit false

namespace Netx.Stream

/-- What happens to the shared pool before one `Get`, and which idle buffer
that `Get` is handed. -/
structure Turn where
  others : Buf.Pool → Buf.Pool
  pick : Option Nat

structure PooledWorld (Source : Type) where
  source : Source
  pool : Buf.Pool
  turns : List Turn

namespace PooledWorld

variable {Source : Type}

def get (world : PooledWorld Source) (size : Nat) :
    Option (Borrowed Buf.Buf) × PooledWorld Source :=
  let turn := world.turns.headD { others := id, pick := none }
  let world := { world with pool := turn.others world.pool, turns := world.turns.tail }
  match world.pool.get size turn.pick with
  | some (some b, pool) => (some { handle := b, B := b.B }, { world with pool })
  | some (none, pool) => (none, { world with pool })
  | none => (none, world)

def release (world : PooledWorld Source) (borrowed : Borrowed Buf.Buf) :
    PooledWorld Source :=
  let released := world.pool.release (borrowed.handle.write borrowed.B)
  { world with pool := released.getD world.pool }

def environment (read : Source → (size : Nat) → ReadResult size × Source) :
    Environment (PooledWorld Source) Buf.Buf where
  read world size :=
    let (result, source) := read world.source size
    (result, { world with source })
  get := get
  release := release
  get_length := by
    intro world after size borrowed provided
    unfold get at provided
    dsimp only at provided
    split at provided
    · rename_i b pool granted
      cases provided
      exact Buf.Pool.get_length granted
    · cases provided
    · cases provided

end PooledWorld

end Netx.Stream
