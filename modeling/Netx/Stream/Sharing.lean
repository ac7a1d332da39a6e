import Netx.Buf.Accounting
import Netx.Stream.Stepwise

/-!
# Readers that share a pool

Any number of readers over one `buf.Pool` that others use as well. A call of a reader
waits wherever it asks its source or the pool for something, and a `Get` or a `Release`
takes the steps it takes in `Buf.World`.
-/

set_option autoImplicit false

namespace Netx.Stream

variable {Id : Type}

/-- What is left of a call. -/
abbrev Remaining (Id : Type) : Type :=
  Stepwise (Buf.Held Id) (Reply × Reader (Buf.Held Id))

/-- A call, with the reader that it was made on and what that had asked for by then. -/
structure Asked (Id : Type) where
  reader : Reader (Buf.Held Id)
  history : List (Event (Buf.Held Id))
  request : Call

/-- Between two calls, with the last one and its reply, or inside a call that waits for the
source or the pool. A reader is `broken` after a panic, or when it gives back a buffer that
it does not hold. -/
inductive Stage (Id : Type) where
  | rest (reader : Reader (Buf.Held Id)) (last : Option (Asked Id × Reply))
  | reading (asked : Asked Id) (reader : Reader (Buf.Held Id))
      (next : ReadResult (reader.data.length - reader.w) → Remaining Id)
  | getting (asked : Asked Id) (pending : Buf.Call Id) (reader : Reader (Buf.Held Id))
      (size : Nat) (next : Option (Borrowed (Buf.Held Id)) → Remaining Id)
  | releasing (asked : Asked Id) (pending : Buf.Call Id) (borrowed : Borrowed (Buf.Held Id))
      (next : Unit → Remaining Id)
  | broken

/-- The call of the pool that a reader waits for. -/
def Stage.pending : Stage Id → Multiset (Buf.Call Id)
  | .getting _ pending _ _ _ | .releasing _ pending _ _ => {pending}
  | _ => 0

/-- A reader, the buffers that the pool has granted it and that it has not begun to give
back, and what it has asked for and was answered. -/
structure Reading (Id : Type) where
  stage : Stage Id
  held : Multiset (Buf.Held Id)
  history : List (Event (Buf.Held Id))

namespace Reading

variable [DecidableEq Id] (owner : Id)

/-- A call goes on until it asks for something again. -/
def proceed (asked : Asked Id) (held : Multiset (Buf.Held Id))
    (history : List (Event (Buf.Held Id))) : Remaining Id → Reading Id
  | .done (reply, reader) => ⟨.rest reader (some (asked, reply)), held, history⟩
  | .ask (.read reader) next => ⟨.reading asked reader next, held, history⟩
  | .ask (.get reader size) next =>
      ⟨.getting asked (.reserve owner size none) reader size next, held, history⟩
  | .ask (.release borrowed) next =>
      let lent := borrowed.handle
      if lent ∈ held then
        ⟨.releasing asked (.refund lent.size (lent.buf.write borrowed.B)) borrowed next,
          held.erase lent, history⟩
      else ⟨.broken, held, history⟩
  | .ask .panic _ => ⟨.broken, held, history⟩

def call (request : Call) (reading : Reading Id) : Option (Reading Id) :=
  match reading.stage with
  | .rest reader _ =>
      some (proceed owner ⟨reader, reading.history, request⟩ reading.held reading.history
        (Stepwise.call reader request))
  | _ => none

/-- The source answers. -/
def source (result : (size : Nat) → ReadResult size) (reading : Reading Id) :
    Option (Reading Id) :=
  match reading.stage with
  | .reading asked reader next =>
      let answer := result (reader.data.length - reader.w)
      some (proceed owner asked reading.held (reading.history ++ [⟨.read reader, answer⟩])
        (next answer))
  | _ => none

/-- What has become of a `Get`. -/
def gets (asked : Asked Id) (reader : Reader (Buf.Held Id)) (size : Nat)
    (next : Option (Borrowed (Buf.Held Id)) → Remaining Id) (reading : Reading Id) :
    Buf.Progress Id → Reading Id
  | .goes call => { reading with stage := .getting asked call reader size next }
  | .refused =>
      proceed owner asked reading.held (reading.history ++ [⟨.get reader size, none⟩])
        (next none)
  | .granted held =>
      let borrowed : Borrowed (Buf.Held Id) := ⟨held, held.buf.B⟩
      proceed owner asked (held ::ₘ reading.held)
        (reading.history ++ [⟨.get reader size, some borrowed⟩]) (next (some borrowed))
  | .released | .panicked => { reading with stage := .broken }

/-- What has become of a `Release`. -/
def releases (asked : Asked Id) (borrowed : Borrowed (Buf.Held Id))
    (next : Unit → Remaining Id) (reading : Reading Id) : Buf.Progress Id → Reading Id
  | .goes call => { reading with stage := .releasing asked call borrowed next }
  | .released =>
      proceed owner asked reading.held (reading.history ++ [⟨.release borrowed, ()⟩]) (next ())
  | .refused | .granted _ | .panicked => { reading with stage := .broken }

/-- One step of a call of the pool; `pick` is the choice of the `sync.Pool`. -/
def pool (pick : Option Nat) (shared : Buf.Pool) (reading : Reading Id) :
    Option (Buf.Pool × Reading Id) :=
  match reading.stage with
  | .getting asked pending reader size next =>
      let (shared, progress) := shared.advance pick pending
      some (shared, gets owner asked reader size next reading progress)
  | .releasing asked pending borrowed next =>
      let (shared, progress) := shared.advance pick pending
      some (shared, releases owner asked borrowed next reading progress)
  | _ => none

/-- What the budget is charged for a reader. -/
def charge (reading : Reading Id) : Nat :=
  (reading.held.map fun lent => Buf.capacity lent.size).sum +
    (reading.stage.pending.map Buf.Call.charge).sum

end Reading

/-- `others` has the pool, and what other owners hold of it and do with it. -/
structure Shared (Id : Type) where
  others : Buf.World Id
  readers : Id → Reading Id

inductive Move (Id : Type) where
  | call (id : Id) (request : Call)
  | source (id : Id) (result : (size : Nat) → ReadResult size)
  | pool (id : Id) (pick : Option Nat)
  | other (action : Buf.Action Id)

section System

variable [DecidableEq Id]

namespace Shared

def set (shared : Shared Id) (id : Id) (reading : Reading Id) : Shared Id :=
  { shared with readers := Function.update shared.readers id reading }

def step (shared : Shared Id) : Move Id → Option (Shared Id)
  | .call id request => ((shared.readers id).call id request).map (shared.set id)
  | .source id result => ((shared.readers id).source id result).map (shared.set id)
  | .pool id pick =>
      ((shared.readers id).pool id pick shared.others.pool).map fun next =>
        { shared.set id next.2 with others := { shared.others with pool := next.1 } }
  | .other action => (shared.others.step action).map fun others => { shared with others }

end Shared

/-- Any pool, with a budget that `NewBudget` has made or with none, and readers that
`NewReader` has made. -/
def sharing (options : Id → ReaderOptions) : Transition.System (Shared Id) (Move Id) where
  initial shared := (Buf.system Id).initial shared.others ∧
    ∀ id, ∃ reader, Reader.newReader (Buf.Held Id) (options id) true = some reader ∧
      shared.readers id = ⟨.rest reader none, 0, []⟩
  step := Shared.step

end System

end Netx.Stream
