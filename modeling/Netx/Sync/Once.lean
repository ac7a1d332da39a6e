/-! `sync.Once`: the first call runs the function, later ones wait until it is over. -/

set_option autoImplicit false

namespace Netx.Sync

inductive Once where
  | unused
  | running
  | finished
  deriving DecidableEq, Repr

end Netx.Sync
