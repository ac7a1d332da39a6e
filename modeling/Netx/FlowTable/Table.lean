import Netx.Circular.Window
import Netx.FlowTable.Flow
import Netx.Transition.System
import Mathlib.Data.List.AList
import Mathlib.Logic.Function.Basic

/-!
# The flow table

Any number of concurrent calls on one table and on the flows it gave out. A step
is one atomic operation together with what the call does up to the next one, or
the return of a callback. A critical section without either is one step; the
others hold the lock of their shard over several steps.
-/

set_option autoImplicit false

namespace Netx.FlowTable

/-- `OnClose` is named only by whether it is set. -/
structure TableOptions where
  shards : Int
  idleTimeout : Int
  onClose : Bool

/-- What `NewTable` fixes; `hash` is the seeded hash of a key. -/
structure Table (K : Type) where
  size : Nat
  power : ∃ e, size = 2 ^ e
  hash : K → Nat
  idle : Int
  onClose : Bool

/-- The number of shards that `Shards` asks for. -/
def TableOptions.wanted (o : TableOptions) : Nat :=
  if o.shards ≤ 0 then 64 else o.shards.toNat

def newTable {K : Type} (o : TableOptions) (hash : K → Nat) : Table K where
  size := Circular.roundUp o.wanted
  power := Circular.roundUp_power o.wanted
  hash
  idle := o.idleTimeout
  onClose := o.onClose

/-- The index of the shard of a key, with `mask` one less than the size. -/
def Table.shard {K : Type} (t : Table K) (k : K) : Nat :=
  t.hash k &&& (t.size - 1)

/-- A map from keys to the addresses of flows. A key equals itself: there are no NaNs. -/
abbrev Flows (K : Type) := AList fun _ : K => Nat

/-- `mu` names the call that holds the lock. -/
structure Shard (K Call : Type) where
  mu : Option Call
  m : Flows K

/-- The table, the flows it created and the counter behind `NextID`. The last three
fields record the key each flow was stored under, the operations that took flows out
and the calls of `OnClose`. -/
structure Shared (K Call : Type) where
  shard : Nat → Shard K Call
  now : Int
  lastID : UInt64
  flow : Nat → Flow
  created : Nat
  key : Nat → Option K
  removed : List (Nat × Call)
  reports : List (K × Nat)

abbrev Victim (K : Type) := (_ : K) × Nat

inductive Op (K : Type) where
  | get (k : K)
  | getAndTouch (k : K)
  | getOrOpen (k : K) (newValue : Bool)
  | remove (k : K) (id : UInt64)
  | len
  | range
  | sweep (now : Int)
  | close
  | beginClose (f : Nat)
  | flowClose (f : Nat)
  | touch (f : Nat)

inductive Reply where
  | got (f : Option Nat)
  | opened (f : Nat) (created : Bool)
  | removed (done : Bool)
  | counted (n : Nat)
  | ranged
  | swept (n : Nat)
  | closed
  | began (done : Bool)
  | flowClosed (done : Bool)
  | touched
  | panicked
  deriving DecidableEq, Repr

/-- What follows `closed`: the return of a `Remove`, the other victims of a `Sweep`,
or the rest of the map that a `Close` took out of shard `i`. -/
inductive After (K : Type) where
  | remove
  | sweep (rest : List (Victim K)) (count : Nat)
  | close (i : Nat) (rest : Flows K)

/-- The next step of a call; `newValue`, `inRange` and `inOnClose` wait for a callback. -/
inductive Pc (K : Type) where
  | idle
  | get (k : K) (touch : Bool)
  | getOrOpen (k : K) (newValue : Bool)
  | newValue (k : K)
  | nextID (k : K)
  | insert (k : K) (id : UInt64)
  | remove (k : K) (id : UInt64)
  | removeFreeze (k : K) (f : Nat)
  | removeDelete (k : K) (f : Nat)
  | len (i n : Nat)
  | range (i : Nat)
  | rangeLocked (i : Nat) (rest : Flows K)
  | inRange (i : Nat) (rest : Flows K)
  | advance (now : Int)
  | advanceCas (now cur : Int)
  | sweep (cutoff : Int) (i : Nat) (victims : List (Victim K))
  | scan (cutoff : Int) (i : Nat) (rest : Flows K) (victims : List (Victim K))
  | scanCas (cutoff : Int) (i : Nat) (k : K) (f : Nat) (v : Int) (rest : Flows K)
      (victims : List (Victim K))
  | victims (rest : List (Victim K)) (count : Nat)
  | close (i : Nat)
  | closing (i : Nat) (rest : Flows K)
  | closed (stage : CloseStage) (k : K) (f : Nat) (after : After K)
  | onClose (k : K) (f : Nat) (after : After K)
  | inOnClose (k : K) (f : Nat) (after : After K)
  | beginClose (stage : BeginCloseStage) (f : Nat)
  | flowClose (stage : CloseStage) (f : Nat)
  | touchClock (f : Nat) (reply : Reply)
  | touch (stage : TouchStage) (f : Nat) (reply : Reply)
  | returned (reply : Reply)

/-- `visit` names the entry that the iteration over a map comes to next. -/
inductive Act (K : Type) where
  | call (op : Op K)
  | next
  | visit (k : K)
  | returns (again : Bool)
  | panics

def After.next {K : Type} : After K → Pc K
  | .remove => .returned (.removed true)
  | .sweep rest count => .victims rest count
  | .close i rest => .closing i rest

namespace Shared

variable {K Call : Type}

def setShard (s : Shared K Call) (i : Nat) (shard : Shard K Call) : Shared K Call :=
  { s with shard := Function.update s.shard i shard }

def lock (s : Shared K Call) (i : Nat) (call : Call) : Shared K Call :=
  s.setShard i { s.shard i with mu := some call }

def unlock (s : Shared K Call) (i : Nat) : Shared K Call :=
  s.setShard i { s.shard i with mu := none }

def setFlow (s : Shared K Call) (f : Nat) (flow : Flow) : Shared K Call :=
  { s with flow := Function.update s.flow f flow }

variable [DecidableEq K]

/-- The end of `GetOrOpen` on an absent key: the flow is made and stored. -/
def insert (t : Table K) (s : Shared K Call) (k : K) (id : UInt64) : Shared K Call :=
  { s.setShard (t.shard k)
      { mu := none, m := (s.shard (t.shard k)).m.insert k s.created } with
    flow := Function.update s.flow s.created (.newInTable id s.now)
    key := Function.update s.key s.created (some k)
    created := s.created + 1 }

def delete (s : Shared K Call) (i : Nat) (k : K) (f : Nat) (call : Call) : Shared K Call :=
  { s.setShard i { s.shard i with m := (s.shard i).m.erase k } with
    removed := s.removed ++ [(f, call)] }

/-- `Close` takes the whole map out of a shard. -/
def takeAll (s : Shared K Call) (i : Nat) (call : Call) : Shared K Call :=
  { s.setShard i { s.shard i with m := ∅ } with
    removed := s.removed ++ (s.shard i).m.entries.map fun entry => (entry.2, call) }

end Shared

section Calls

variable {K Call : Type} [DecidableEq K]

/-- `Sweep` once the clock is advanced. The cutoff is an `int64`. -/
def afterAdvance (t : Table K) (now : Int) : Pc K :=
  if t.idle ≤ 0 then .returned (.swept 0)
  else .sweep ((now - t.idle).bmod (2 ^ 64)) 0 []

/-- `Sweep` has decided on the entry of key `k`. -/
def afterExpire (call : Call) (s : Shared K Call) (cutoff : Int) (i : Nat) (k : K) (f : Nat)
    (rest : Flows K) (victims : List (Victim K)) (expired : Bool) : Shared K Call × Pc K :=
  if expired then
    (s.delete i k f call, .scan cutoff i (rest.erase k) (victims ++ [⟨k, f⟩]))
  else (s, .scan cutoff i (rest.erase k) victims)

/-- `closed` once the flow is closed. -/
def afterClose (t : Table K) (k : K) (f : Nat) (after : After K) : Pc K :=
  if t.onClose then .onClose k f after else after.next

/-- The steps that wait for nobody but the holder of a lock. -/
def next (t : Table K) (call : Call) (s : Shared K Call) : Pc K → Option (Shared K Call × Pc K)
  | .get k touch =>
      match (s.shard (t.shard k)).mu, (s.shard (t.shard k)).m.lookup k with
      | some _, _ => none
      | none, none => some (s, .returned (.got none))
      | none, some f =>
          some (s, if touch then .touchClock f (.got (some f)) else .returned (.got (some f)))
  | .getOrOpen k newValue =>
      match (s.shard (t.shard k)).mu, (s.shard (t.shard k)).m.lookup k with
      | some _, _ => none
      | none, none =>
          some (s.lock (t.shard k) call, if newValue then .newValue k else .nextID k)
      | none, some f => some (s, .returned (.opened f false))
  | .nextID k => some ({ s with lastID := s.lastID + 1 }, .insert k (s.lastID + 1))
  | .insert k id => some (s.insert t k id, .returned (.opened s.created true))
  | .remove k id =>
      match (s.shard (t.shard k)).mu, (s.shard (t.shard k)).m.lookup k with
      | some _, _ => none
      | none, none => some (s, .returned (.removed false))
      | none, some f =>
          if (s.flow f).id ≠ id then some (s, .returned (.removed false))
          else some (s.lock (t.shard k) call, .removeFreeze k f)
  | .removeFreeze k f => some (s.setFlow f (s.flow f).freeze, .removeDelete k f)
  | .removeDelete k f =>
      some ((s.delete (t.shard k) k f call).unlock (t.shard k), .closed .load k f .remove)
  | .len i n =>
      if i < t.size then
        match (s.shard i).mu with
        | some _ => none
        | none => some (s, .len (i + 1) (n + (s.shard i).m.keys.length))
      else some (s, .returned (.counted n))
  | .range i =>
      if i < t.size then
        match (s.shard i).mu with
        | some _ => none
        | none => some (s.lock i call, .rangeLocked i (s.shard i).m)
      else some (s, .returned .ranged)
  | .rangeLocked i rest => if rest.keys = [] then some (s.unlock i, .range (i + 1)) else none
  | .advance now =>
      some (s, if now ≤ s.now then afterAdvance t now else .advanceCas now s.now)
  | .advanceCas now cur =>
      if s.now = cur then some ({ s with now := now }, afterAdvance t now)
      else some (s, .advance now)
  | .sweep cutoff i victims =>
      if i < t.size then
        match (s.shard i).mu with
        | some _ => none
        | none => some (s.lock i call, .scan cutoff i (s.shard i).m victims)
      else some (s, .victims victims victims.length)
  | .scan cutoff i rest victims =>
      if rest.keys = [] then some (s.unlock i, .sweep cutoff (i + 1) victims) else none
  | .scanCas cutoff i k f v rest victims =>
      match (s.flow f).expireCas v with
      | (flow, expired) =>
          some (afterExpire call (s.setFlow f flow) cutoff i k f rest victims expired)
  | .victims [] count => some (s, .returned (.swept count))
  | .victims (⟨k, f⟩ :: rest) count => some (s, .closed .load k f (.sweep rest count))
  | .close i =>
      if i < t.size then
        match (s.shard i).mu with
        | some _ => none
        | none => some (s.takeAll i call, .closing i (s.shard i).m)
      else some (s, .returned .closed)
  | .closing i rest => if rest.keys = [] then some (s, .close (i + 1)) else none
  | .closed stage k f after =>
      match (s.flow f).close stage with
      | (flow, .goes stage) => some (s.setFlow f flow, .closed stage k f after)
      | (flow, .returns _) => some (s.setFlow f flow, afterClose t k f after)
  | .onClose k f after => some ({ s with reports := s.reports ++ [(k, f)] }, .inOnClose k f after)
  | .beginClose stage f =>
      match (s.flow f).beginClose stage with
      | (flow, .goes stage) => some (s.setFlow f flow, .beginClose stage f)
      | (flow, .returns done) => some (s.setFlow f flow, .returned (.began done))
  | .flowClose stage f =>
      match (s.flow f).close stage with
      | (flow, .goes stage) => some (s.setFlow f flow, .flowClose stage f)
      | (flow, .returns done) => some (s.setFlow f flow, .returned (.flowClosed done))
  | .touchClock f reply => some (s, .touch (.load (clear s.now)) f reply)
  | .touch stage f reply =>
      match (s.flow f).touch stage with
      | (flow, .goes stage) => some (s.setFlow f flow, .touch stage f reply)
      | (flow, .returns _) => some (s.setFlow f flow, .returned reply)
  | _ => none

/-- A caller has only flows that exist. -/
def enter (s : Shared K Call) : Op K → Option (Pc K)
  | .get k => some (.get k false)
  | .getAndTouch k => some (.get k true)
  | .getOrOpen k newValue => some (.getOrOpen k newValue)
  | .remove k id => some (.remove k id)
  | .len => some (.len 0 0)
  | .range => some (.range 0)
  | .sweep now => some (.advance now)
  | .close => some (.close 0)
  | .beginClose f => if f < s.created then some (.beginClose .cas f) else none
  | .flowClose f => if f < s.created then some (.flowClose .load f) else none
  | .touch f => if f < s.created then some (.touchClock f .touched) else none

/-- The iteration over a map comes to the entry of key `k`. -/
def visit (call : Call) (s : Shared K Call) (k : K) : Pc K → Option (Shared K Call × Pc K)
  | .rangeLocked i rest => (rest.lookup k).map fun _ => (s, .inRange i (rest.erase k))
  | .scan cutoff i rest victims =>
      (rest.lookup k).map fun f =>
        match (s.flow f).expire cutoff with
        | .goes v => (s, .scanCas cutoff i k f v rest victims)
        | .returns expired => afterExpire call s cutoff i k f rest victims expired
  | .closing i rest =>
      (rest.lookup k).map fun f => (s, .closed .load k f (.close i (rest.erase k)))
  | _ => none

def effect (t : Table K) (call : Call) (s : Shared K Call) (pc : Pc K) :
    Act K → Option (Shared K Call × Pc K)
  | .call op =>
      match pc with
      | .idle => (enter s op).map (s, ·)
      | _ => none
  | .next => next t call s pc
  | .visit k => visit call s k pc
  | .returns again =>
      match pc with
      | .newValue k => some (s, .nextID k)
      | .inRange i rest =>
          if again then some (s, .rangeLocked i rest) else some (s.unlock i, .returned .ranged)
      | .inOnClose _ _ after => some (s, after.next)
      | _ => none
  | .panics =>
      match pc with
      | .newValue k => some (s.unlock (t.shard k), .returned .panicked)
      | .inRange i _ => some (s.unlock i, .returned .panicked)
      | .inOnClose _ _ _ => some (s, .returned .panicked)
      | _ => none

/-- No `OnClose` panics. -/
def Pc.calm (pc : Pc K) : Act K → Bool
  | .panics =>
      match pc with
      | .inOnClose _ _ _ => false
      | _ => true
  | _ => true

/-- Where a call begins. -/
def Op.first : Op K → Pc K
  | .get k => .get k false
  | .getAndTouch k => .get k true
  | .getOrOpen k newValue => .getOrOpen k newValue
  | .remove k id => .remove k id
  | .len => .len 0 0
  | .range => .range 0
  | .sweep now => .advance now
  | .close => .close 0
  | .beginClose f => .beginClose .cas f
  | .flowClose f => .flowClose .load f
  | .touch f => .touchClock f .touched

omit [DecidableEq K] in
private theorem enter_first {s : Shared K Call} {op : Op K} {pc : Pc K}
    (entered : enter s op = some pc) : pc = op.first := by
  cases op with
  | beginClose | flowClose | touch =>
      obtain ⟨_, same⟩ := Option.ite_none_right_eq_some.mp entered
      cases same
      rfl
  | _ =>
      cases entered
      rfl

/-- What a call can do at each of its program points. -/
inductive Moves (t : Table K) (call : Call) (s : Shared K Call) :
    Pc K → Act K → Shared K Call → Pc K → Prop where
  | call (op : Op K) : enter s op = some op.first → Moves t call s .idle (.call op) s op.first
  | getMissed (k : K) (touch : Bool) : (s.shard (t.shard k)).mu = none →
      (s.shard (t.shard k)).m.lookup k = none →
      Moves t call s (.get k touch) .next s (.returned (.got none))
  | get (k : K) (f : Nat) : (s.shard (t.shard k)).mu = none →
      (s.shard (t.shard k)).m.lookup k = some f →
      Moves t call s (.get k false) .next s (.returned (.got (some f)))
  | getTouch (k : K) (f : Nat) : (s.shard (t.shard k)).mu = none →
      (s.shard (t.shard k)).m.lookup k = some f →
      Moves t call s (.get k true) .next s (.touchClock f (.got (some f)))
  | openFound (k : K) (newValue : Bool) (f : Nat) : (s.shard (t.shard k)).mu = none →
      (s.shard (t.shard k)).m.lookup k = some f →
      Moves t call s (.getOrOpen k newValue) .next s (.returned (.opened f false))
  | openAbsent (k : K) : (s.shard (t.shard k)).mu = none →
      (s.shard (t.shard k)).m.lookup k = none →
      Moves t call s (.getOrOpen k false) .next (s.lock (t.shard k) call) (.nextID k)
  | openNew (k : K) : (s.shard (t.shard k)).mu = none →
      (s.shard (t.shard k)).m.lookup k = none →
      Moves t call s (.getOrOpen k true) .next (s.lock (t.shard k) call) (.newValue k)
  | newValue (k : K) (again : Bool) : Moves t call s (.newValue k) (.returns again) s (.nextID k)
  | newValuePanics (k : K) : Moves t call s (.newValue k) .panics (s.unlock (t.shard k))
      (.returned .panicked)
  | nextID (k : K) : Moves t call s (.nextID k) .next { s with lastID := s.lastID + 1 }
      (.insert k (s.lastID + 1))
  | insert (k : K) (id : UInt64) : Moves t call s (.insert k id) .next (s.insert t k id)
      (.returned (.opened s.created true))
  | removeMissed (k : K) (id : UInt64) : (s.shard (t.shard k)).mu = none →
      (∀ f, (s.shard (t.shard k)).m.lookup k = some f → (s.flow f).id ≠ id) →
      Moves t call s (.remove k id) .next s (.returned (.removed false))
  | remove (k : K) (id : UInt64) (f : Nat) : (s.shard (t.shard k)).mu = none →
      (s.shard (t.shard k)).m.lookup k = some f → (s.flow f).id = id →
      Moves t call s (.remove k id) .next (s.lock (t.shard k) call) (.removeFreeze k f)
  | removeFreeze (k : K) (f : Nat) : Moves t call s (.removeFreeze k f) .next
      (s.setFlow f (s.flow f).freeze) (.removeDelete k f)
  | removeDelete (k : K) (f : Nat) : Moves t call s (.removeDelete k f) .next
      ((s.delete (t.shard k) k f call).unlock (t.shard k)) (.closed .load k f .remove)
  | len (i n : Nat) : i < t.size → (s.shard i).mu = none →
      Moves t call s (.len i n) .next s (.len (i + 1) (n + (s.shard i).m.keys.length))
  | lenDone (i n : Nat) : t.size ≤ i → Moves t call s (.len i n) .next s (.returned (.counted n))
  | range (i : Nat) : i < t.size → (s.shard i).mu = none →
      Moves t call s (.range i) .next (s.lock i call) (.rangeLocked i (s.shard i).m)
  | rangeDone (i : Nat) : t.size ≤ i → Moves t call s (.range i) .next s (.returned .ranged)
  | rangeNext (i : Nat) (rest : Flows K) : rest.keys = [] →
      Moves t call s (.rangeLocked i rest) .next (s.unlock i) (.range (i + 1))
  | rangeVisit (i : Nat) (rest : Flows K) (k : K) (f : Nat) : rest.lookup k = some f →
      Moves t call s (.rangeLocked i rest) (.visit k) s (.inRange i (rest.erase k))
  | rangeAgain (i : Nat) (rest : Flows K) :
      Moves t call s (.inRange i rest) (.returns true) s (.rangeLocked i rest)
  | rangeStops (i : Nat) (rest : Flows K) :
      Moves t call s (.inRange i rest) (.returns false) (s.unlock i) (.returned .ranged)
  | rangePanics (i : Nat) (rest : Flows K) :
      Moves t call s (.inRange i rest) .panics (s.unlock i) (.returned .panicked)
  | advancedOff (now : Int) : now ≤ s.now → t.idle ≤ 0 →
      Moves t call s (.advance now) .next s (.returned (.swept 0))
  | advanced (now : Int) : now ≤ s.now → 0 < t.idle →
      Moves t call s (.advance now) .next s (.sweep ((now - t.idle).bmod (2 ^ 64)) 0 [])
  | advance (now : Int) : s.now < now →
      Moves t call s (.advance now) .next s (.advanceCas now s.now)
  | advanceCasOff (now : Int) : t.idle ≤ 0 → Moves t call s (.advanceCas now s.now) .next
      { s with now := now } (.returned (.swept 0))
  | advanceCas (now : Int) : 0 < t.idle → Moves t call s (.advanceCas now s.now) .next
      { s with now := now } (.sweep ((now - t.idle).bmod (2 ^ 64)) 0 [])
  | advanceAgain (now cur : Int) : s.now ≠ cur →
      Moves t call s (.advanceCas now cur) .next s (.advance now)
  | sweep (cutoff : Int) (i : Nat) (victims : List (Victim K)) : i < t.size →
      (s.shard i).mu = none → Moves t call s (.sweep cutoff i victims) .next (s.lock i call)
        (.scan cutoff i (s.shard i).m victims)
  | sweepDone (cutoff : Int) (i : Nat) (victims : List (Victim K)) : t.size ≤ i →
      Moves t call s (.sweep cutoff i victims) .next s (.victims victims victims.length)
  | scanNext (cutoff : Int) (i : Nat) (rest : Flows K) (victims : List (Victim K)) :
      rest.keys = [] → Moves t call s (.scan cutoff i rest victims) .next (s.unlock i)
        (.sweep cutoff (i + 1) victims)
  | scanKept (cutoff : Int) (i : Nat) (rest : Flows K) (victims : List (Victim K)) (k : K)
      (f : Nat) : rest.lookup k = some f → (s.flow f).expire cutoff = .returns false →
      Moves t call s (.scan cutoff i rest victims) (.visit k) s
        (.scan cutoff i (rest.erase k) victims)
  | scanExpired (cutoff : Int) (i : Nat) (rest : Flows K) (victims : List (Victim K)) (k : K)
      (f : Nat) : rest.lookup k = some f → (s.flow f).expire cutoff = .returns true →
      Moves t call s (.scan cutoff i rest victims) (.visit k) (s.delete i k f call)
        (.scan cutoff i (rest.erase k) (victims ++ [⟨k, f⟩]))
  | scanLoaded (cutoff : Int) (i : Nat) (rest : Flows K) (victims : List (Victim K)) (k : K)
      (f : Nat) (v : Int) : rest.lookup k = some f → (s.flow f).expire cutoff = .goes v →
      Moves t call s (.scan cutoff i rest victims) (.visit k) s
        (.scanCas cutoff i k f v rest victims)
  | casKept (cutoff : Int) (i : Nat) (k : K) (f : Nat) (v : Int) (rest : Flows K)
      (victims : List (Victim K)) (flow : Flow) : (s.flow f).expireCas v = (flow, false) →
      Moves t call s (.scanCas cutoff i k f v rest victims) .next (s.setFlow f flow)
        (.scan cutoff i (rest.erase k) victims)
  | casExpired (cutoff : Int) (i : Nat) (k : K) (f : Nat) (v : Int) (rest : Flows K)
      (victims : List (Victim K)) (flow : Flow) : (s.flow f).expireCas v = (flow, true) →
      Moves t call s (.scanCas cutoff i k f v rest victims) .next
        ((s.setFlow f flow).delete i k f call)
        (.scan cutoff i (rest.erase k) (victims ++ [⟨k, f⟩]))
  | swept (count : Nat) : Moves t call s (.victims [] count) .next s (.returned (.swept count))
  | victim (k : K) (f : Nat) (rest : List (Victim K)) (count : Nat) :
      Moves t call s (.victims (⟨k, f⟩ :: rest) count) .next s
        (.closed .load k f (.sweep rest count))
  | close (i : Nat) : i < t.size → (s.shard i).mu = none →
      Moves t call s (.close i) .next (s.takeAll i call) (.closing i (s.shard i).m)
  | closeDone (i : Nat) : t.size ≤ i → Moves t call s (.close i) .next s (.returned .closed)
  | closeNext (i : Nat) (rest : Flows K) : rest.keys = [] →
      Moves t call s (.closing i rest) .next s (.close (i + 1))
  | closeVisit (i : Nat) (rest : Flows K) (k : K) (f : Nat) : rest.lookup k = some f →
      Moves t call s (.closing i rest) (.visit k) s
        (.closed .load k f (.close i (rest.erase k)))
  | closing (stage stage' : CloseStage) (k : K) (f : Nat) (after : After K) (flow : Flow) :
      (s.flow f).close stage = (flow, .goes stage') →
      Moves t call s (.closed stage k f after) .next (s.setFlow f flow)
        (.closed stage' k f after)
  | closed (stage : CloseStage) (k : K) (f : Nat) (after : After K) (flow : Flow)
      (result : Bool) : (s.flow f).close stage = (flow, .returns result) → t.onClose = true →
      Moves t call s (.closed stage k f after) .next (s.setFlow f flow) (.onClose k f after)
  | closedUnset (stage : CloseStage) (k : K) (f : Nat) (after : After K) (flow : Flow)
      (result : Bool) : (s.flow f).close stage = (flow, .returns result) → t.onClose = false →
      Moves t call s (.closed stage k f after) .next (s.setFlow f flow) after.next
  | onClose (k : K) (f : Nat) (after : After K) : Moves t call s (.onClose k f after) .next
      { s with reports := s.reports ++ [(k, f)] } (.inOnClose k f after)
  | onCloseReturns (k : K) (f : Nat) (after : After K) (again : Bool) :
      Moves t call s (.inOnClose k f after) (.returns again) s after.next
  | onClosePanics (k : K) (f : Nat) (after : After K) :
      Moves t call s (.inOnClose k f after) .panics s (.returned .panicked)
  | beginning (stage stage' : BeginCloseStage) (f : Nat) (flow : Flow) :
      (s.flow f).beginClose stage = (flow, .goes stage') →
      Moves t call s (.beginClose stage f) .next (s.setFlow f flow) (.beginClose stage' f)
  | began (stage : BeginCloseStage) (f : Nat) (flow : Flow) (done : Bool) :
      (s.flow f).beginClose stage = (flow, .returns done) →
      Moves t call s (.beginClose stage f) .next (s.setFlow f flow) (.returned (.began done))
  | flowClosing (stage stage' : CloseStage) (f : Nat) (flow : Flow) :
      (s.flow f).close stage = (flow, .goes stage') →
      Moves t call s (.flowClose stage f) .next (s.setFlow f flow) (.flowClose stage' f)
  | flowClosed (stage : CloseStage) (f : Nat) (flow : Flow) (done : Bool) :
      (s.flow f).close stage = (flow, .returns done) →
      Moves t call s (.flowClose stage f) .next (s.setFlow f flow)
        (.returned (.flowClosed done))
  | touchClock (f : Nat) (reply : Reply) : Moves t call s (.touchClock f reply) .next s
      (.touch (.load (clear s.now)) f reply)
  | touching (stage stage' : TouchStage) (f : Nat) (reply : Reply) (flow : Flow) :
      (s.flow f).touch stage = (flow, .goes stage') →
      Moves t call s (.touch stage f reply) .next (s.setFlow f flow) (.touch stage' f reply)
  | touched (stage : TouchStage) (f : Nat) (reply : Reply) (flow : Flow) (result : Unit) :
      (s.flow f).touch stage = (flow, .returns result) →
      Moves t call s (.touch stage f reply) .next (s.setFlow f flow) (.returned reply)

variable {t : Table K} {call : Call} {s s' : Shared K Call} {pc pc' : Pc K}

theorem next_moves (found : next t call s pc = some (s', pc')) :
    Moves t call s pc .next s' pc' := by
  cases pc with
  | get k touch =>
      simp only [next] at found
      split at found
      · cases found
      · cases found
        exact .getMissed k touch ‹_› ‹_›
      · cases touch <;> cases found
        · exact .get k _ ‹_› ‹_›
        · exact .getTouch k _ ‹_› ‹_›
  | getOrOpen k newValue =>
      simp only [next] at found
      split at found
      · cases found
      · cases newValue <;> cases found
        · exact .openAbsent k ‹_› ‹_›
        · exact .openNew k ‹_› ‹_›
      · cases found
        exact .openFound k newValue _ ‹_› ‹_›
  | nextID k => cases found; exact .nextID k
  | insert k id => cases found; exact .insert k id
  | remove k id =>
      simp only [next] at found
      split at found
      · cases found
      · rename_i free absent
        cases found
        exact .removeMissed k id free (by simp [absent])
      · rename_i f free present
        split at found
        · rename_i other
          cases found
          refine .removeMissed k id free fun f' present' => ?_
          rw [present] at present'
          cases present'
          exact other
        · rename_i same
          cases found
          exact .remove k id f free present (by simpa using same)
  | removeFreeze k f => cases found; exact .removeFreeze k f
  | removeDelete k f => cases found; exact .removeDelete k f
  | len i n =>
      simp only [next] at found
      split at found
      · split at found
        · cases found
        · cases found
          exact .len i n ‹_› ‹_›
      · cases found
        exact .lenDone i n (by omega)
  | range i =>
      simp only [next] at found
      split at found
      · split at found
        · cases found
        · cases found
          exact .range i ‹_› ‹_›
      · cases found
        exact .rangeDone i (by omega)
  | rangeLocked i rest =>
      obtain ⟨none, same⟩ := Option.ite_none_right_eq_some.mp found
      cases same
      exact .rangeNext i rest none
  | advance now =>
      simp only [next, afterAdvance] at found
      split at found
      · split at found <;> cases found
        · exact .advancedOff now ‹_› ‹_›
        · exact .advanced now ‹_› (by omega)
      · cases found
        exact .advance now (by omega)
  | advanceCas now cur =>
      simp only [next, afterAdvance] at found
      split at found
      · rename_i same
        subst same
        split at found <;> cases found
        · exact .advanceCasOff now ‹_›
        · exact .advanceCas now (by omega)
      · cases found
        exact .advanceAgain now cur ‹_›
  | sweep cutoff i victims =>
      simp only [next] at found
      split at found
      · split at found
        · cases found
        · cases found
          exact .sweep cutoff i victims ‹_› ‹_›
      · cases found
        exact .sweepDone cutoff i victims (by omega)
  | scan cutoff i rest victims =>
      obtain ⟨none, same⟩ := Option.ite_none_right_eq_some.mp found
      cases same
      exact .scanNext cutoff i rest victims none
  | scanCas cutoff i k f v rest victims =>
      simp only [next] at found
      generalize swapped : (s.flow f).expireCas v = result at found
      obtain ⟨flow, expired⟩ := result
      cases expired with
      | false => cases found; exact .casKept cutoff i k f v rest victims flow swapped
      | true => cases found; exact .casExpired cutoff i k f v rest victims flow swapped
  | victims rest count =>
      cases rest with
      | nil => cases found; exact .swept count
      | cons victim rest => cases found; exact .victim victim.1 victim.2 rest count
  | close i =>
      simp only [next] at found
      split at found
      · split at found
        · cases found
        · cases found
          exact .close i ‹_› ‹_›
      · cases found
        exact .closeDone i (by omega)
  | closing i rest =>
      obtain ⟨none, same⟩ := Option.ite_none_right_eq_some.mp found
      cases same
      exact .closeNext i rest none
  | closed stage k f after =>
      simp only [next, afterClose] at found
      split at found
      · cases found; exact .closing stage _ k f after _ ‹_›
      · split at found <;> cases found
        · exact .closed stage k f after _ _ ‹_› ‹_›
        · exact .closedUnset stage k f after _ _ ‹_› (Bool.eq_false_iff.mpr ‹_›)
  | onClose k f after => cases found; exact .onClose k f after
  | beginClose stage f =>
      simp only [next] at found
      split at found
      · cases found; exact .beginning stage _ f _ ‹_›
      · cases found; exact .began stage f _ _ ‹_›
  | flowClose stage f =>
      simp only [next] at found
      split at found
      · cases found; exact .flowClosing stage _ f _ ‹_›
      · cases found; exact .flowClosed stage f _ _ ‹_›
  | touchClock f reply => cases found; exact .touchClock f reply
  | touch stage f reply =>
      simp only [next] at found
      split at found
      · cases found; exact .touching stage _ f reply _ ‹_›
      · cases found; exact .touched stage f reply _ _ ‹_›
  | _ => cases found

private theorem visit_moves {k : K} (found : visit call s k pc = some (s', pc')) :
    Moves t call s pc (.visit k) s' pc' := by
  cases pc with
  | rangeLocked i rest =>
      obtain ⟨f, present, same⟩ := Option.map_eq_some_iff.mp found
      cases same
      exact .rangeVisit i rest k f present
  | scan cutoff i rest victims =>
      obtain ⟨f, present, same⟩ := Option.map_eq_some_iff.mp found
      split at same
      · cases same
        exact .scanLoaded cutoff i rest victims k f _ present ‹_›
      · rename_i expired decided
        cases expired with
        | false => cases same; exact .scanKept cutoff i rest victims k f present decided
        | true => cases same; exact .scanExpired cutoff i rest victims k f present decided
  | closing i rest =>
      obtain ⟨f, present, same⟩ := Option.map_eq_some_iff.mp found
      cases same
      exact .closeVisit i rest k f present
  | _ => cases found

theorem effect_moves {act : Act K} (found : effect t call s pc act = some (s', pc')) :
    Moves t call s pc act s' pc' := by
  cases act with
  | call op =>
      cases pc with
      | idle =>
          obtain ⟨_, entered, same⟩ := Option.map_eq_some_iff.mp found
          obtain rfl := enter_first entered
          cases same
          exact .call op entered
      | _ => cases found
  | next => exact next_moves found
  | visit k => exact visit_moves found
  | returns again =>
      cases pc with
      | newValue k => cases found; exact .newValue k again
      | inRange i rest =>
          cases again with
          | false => cases found; exact .rangeStops i rest
          | true => cases found; exact .rangeAgain i rest
      | inOnClose k f after => cases found; exact .onCloseReturns k f after again
      | _ => cases found
  | panics =>
      cases pc with
      | newValue k => cases found; exact .newValuePanics k
      | inRange i rest => cases found; exact .rangePanics i rest
      | inOnClose k f after => cases found; exact .onClosePanics k f after
      | _ => cases found

end Calls

structure World (K Call : Type) where
  shared : Shared K Call
  pc : Call → Pc K

/-- A call acts, or somebody else in the process takes an identifier. -/
inductive Action (K Call : Type) where
  | call (call : Call) (act : Act K)
  | nextID

section System

variable {K Call : Type} [DecidableEq K] [DecidableEq Call]

def World.step (t : Table K) (w : World K Call) : Action K Call → Option (World K Call)
  | .call call act =>
      (effect t call w.shared (w.pc call) act).map fun (shared, pc) =>
        { shared, pc := Function.update w.pc call pc }
  | .nextID => some { w with shared := { w.shared with lastID := w.shared.lastID + 1 } }

/-- The table as `NewTable` returns it at time `now`. -/
def World.start (now : Int) (lastID : UInt64) : World K Call where
  shared := {
    shard := fun _ => { mu := none, m := ∅ }
    now
    lastID
    flow := fun _ => { id := 0, state := .opened, seen := 0 }
    created := 0
    key := fun _ => none
    removed := []
    reports := [] }
  pc := fun _ => .idle

theorem World.step_cases {t : Table K} {w next : World K Call} {action : Action K Call}
    (stepped : w.step t action = some next) :
    (∃ call act shared pc, action = .call call act ∧
      Moves t call w.shared (w.pc call) act shared pc ∧
      next = { shared, pc := Function.update w.pc call pc }) ∨
    action = .nextID ∧
      next = { w with shared := { w.shared with lastID := w.shared.lastID + 1 } } := by
  cases action with
  | call call act =>
      obtain ⟨⟨shared, pc⟩, found, rfl⟩ := Option.map_eq_some_iff.mp stepped
      exact .inl ⟨call, act, shared, pc, rfl, effect_moves found, rfl⟩
  | nextID => exact .inr ⟨rfl, (Option.some.inj stepped).symm⟩

def system (Call : Type) [DecidableEq Call] (t : Table K) :
    Transition.System (World K Call) (Action K Call) where
  initial w := ∃ now lastID, w = .start now lastID
  step := World.step t

/-- The steps in which no `OnClose` panics. -/
def calm (w : World K Call) : Action K Call → Bool
  | .call call act => (w.pc call).calm act
  | .nextID => true

end System

end Netx.FlowTable
