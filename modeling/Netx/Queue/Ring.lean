import Netx.Circular.Window

/-!
# Bounded ring

The critical sections of `queue/queue.go`: what each operation does to the
ring between its lock and its unlock.
-/

set_option autoImplicit false

namespace Netx.Queue

inductive Policy where
  | reject
  | dropOldest
  deriving DecidableEq, Repr

/-- `onDrop` says whether an `OnDrop` callback is set. -/
structure Options where
  cap : Int
  policy : Policy
  onDrop : Bool

/-- Counters are unbounded. `len` is filled in by `Stats` only. -/
structure Stats where
  len : Nat := 0
  pushed : Nat := 0
  popped : Nat := 0
  dropped : Nat := 0
  rejected : Nat := 0
  deriving DecidableEq, Repr

structure Ring (T : Type) where
  items : List T
  mask : Nat
  head : Nat
  n : Nat
  closed : Bool
  policy : Policy
  onDrop : Bool
  stats : Stats

/-- What the critical section of `PushWait` found. -/
inductive PushWaitOutcome where
  | closed
  | accepted (more : Bool)
  | full
  deriving DecidableEq, Repr

namespace Ring

variable {T : Type} [Inhabited T]

/-- `New`, with `none` where the source panics. -/
def new (o : Options) : Option (Ring T) :=
  if o.cap ≤ 0 then none
  else
    let size := Circular.roundUp o.cap.toNat
    some {
      items := List.replicate size default
      mask := size - 1
      head := 0
      n := 0
      closed := false
      policy := o.policy
      onDrop := o.onDrop
      stats := {}
    }

/-- The write into the slot behind the last item that both pushes share. -/
def store (v : T) (r : Ring T) : Ring T :=
  { r with
    items := r.items.set ((r.head + r.n) &&& r.mask) v
    n := r.n + 1
    stats := { r.stats with pushed := r.stats.pushed + 1 } }

def popLocked (r : Ring T) : T × Ring T :=
  (r.items.getD r.head default, { r with
    items := r.items.set r.head default
    head := (r.head + 1) &&& r.mask
    n := r.n - 1 })

def reject (r : Ring T) : Ring T :=
  { r with stats := { r.stats with rejected := r.stats.rejected + 1 } }

/-- The section of `Push`: `none` when refused, else the evicted item if any. -/
def push (v : T) (r : Ring T) : Option (Option T) × Ring T :=
  if r.closed then (none, r.reject)
  else if r.n = r.items.length then
    if r.policy = .reject then (none, r.reject)
    else
      let (dropped, r) := r.popLocked
      let r := { r with stats := { r.stats with dropped := r.stats.dropped + 1 } }
      (some (some dropped), r.store v)
  else (some none, r.store v)

def pushWait (v : T) (r : Ring T) : PushWaitOutcome × Ring T :=
  if r.closed then (.closed, r.reject)
  else if r.n < r.items.length then
    let r := r.store v
    (.accepted (decide (r.n < r.items.length)), r)
  else (.full, r)

/-- The section of `Pop`: the item and whether more remain. -/
def pop (r : Ring T) : Option (T × Bool) × Ring T :=
  if r.n = 0 then (none, r)
  else
    let (v, r) := r.popLocked
    (some (v, decide (r.n > 0)),
      { r with stats := { r.stats with popped := r.stats.popped + 1 } })

/-- The section of `Close`: whether this call is the one that closes. -/
def close (r : Ring T) : Bool × Ring T :=
  if r.closed then (false, r) else (true, { r with closed := true })

/-- The loop of `Drain`, at most `rounds` times. -/
def drainLoop : Nat → Ring T → List T × Ring T
  | 0, r => ([], r)
  | rounds + 1, r =>
      if r.n > 0 then
        let (v, r) := r.popLocked
        let (items, r) := drainLoop rounds r
        (v :: items, r)
      else ([], r)

def drain (r : Ring T) : List T × Ring T :=
  let (items, r) := drainLoop r.n r
  (items, { r with stats := { r.stats with dropped := r.stats.dropped + items.length } })

def getStats (r : Ring T) : Stats :=
  { r.stats with len := r.n }

/-- The items between `head` and `head + n`. -/
def contents (r : Ring T) : List T :=
  Circular.window r.items r.head r.n

/-- A power of two of slots, a window that fits and nothing outside it. -/
structure Shaped (r : Ring T) : Prop where
  sized : ∃ k, r.items.length = 2 ^ k
  masked : r.mask = r.items.length - 1
  inside : r.head < r.items.length
  bounded : r.n ≤ r.items.length
  blank : Circular.Blank r.items r.head r.n

/-- Every item pushed was popped, was dropped or is still there. -/
def Counted (r : Ring T) : Prop :=
  r.stats.pushed = r.stats.popped + r.stats.dropped + r.n

/-- What no operation changes. -/
structure Fixed (r next : Ring T) : Prop where
  length : next.items.length = r.items.length
  onDrop : next.onDrop = r.onDrop

theorem length_contents (r : Ring T) : r.contents.length = r.n :=
  Circular.length_window _ _ _

namespace Shaped

variable {r : Ring T}

theorem positive (shaped : r.Shaped) : 0 < r.items.length :=
  Nat.lt_of_le_of_lt (Nat.zero_le _) shaped.inside

/-- Masking an index is taking it modulo the number of slots. -/
theorem and_mask (shaped : r.Shaped) (index : Nat) :
    index &&& r.mask = index % r.items.length := by
  obtain ⟨k, size⟩ := shaped.sized
  rw [shaped.masked, size, Nat.and_two_pow_sub_one_eq_mod]

private theorem contents_store (shaped : r.Shaped) (room : r.n < r.items.length) (v : T) :
    (r.store v).contents = r.contents ++ [v] := by
  simp only [contents, store, shaped.and_mask]
  exact Circular.window_push v room

theorem store (shaped : r.Shaped) (room : r.n < r.items.length) (v : T) :
    (r.store v).Shaped where
  sized := by simpa [Ring.store] using shaped.sized
  masked := by simpa [Ring.store] using shaped.masked
  inside := by simpa [Ring.store] using shaped.inside
  bounded := by
    simp only [Ring.store, List.length_set]
    omega
  blank := by
    simp only [Ring.store, shaped.and_mask]
    exact shaped.blank.push v

private theorem contents_popLocked (shaped : r.Shaped) (occupied : 0 < r.n) :
    r.contents = r.popLocked.1 :: r.popLocked.2.contents := by
  obtain ⟨count, same⟩ : ∃ count, r.n = count + 1 := ⟨r.n - 1, by omega⟩
  have bounded := shaped.bounded
  have front : r.head % r.items.length = r.head := Nat.mod_eq_of_lt shaped.inside
  have popped : Circular.window r.items r.head (count + 1) = _ :=
    Circular.window_pop default (by omega)
  have rest := Circular.window_mod (r.items.set r.head default) (r.head + 1) count
  rw [List.length_set] at rest
  simp only [contents, popLocked, shaped.and_mask, same, Nat.add_sub_cancel]
  rw [popped, front, rest]

private theorem popLocked (shaped : r.Shaped) (occupied : 0 < r.n) : r.popLocked.2.Shaped where
  sized := by simpa [Ring.popLocked] using shaped.sized
  masked := by simpa [Ring.popLocked] using shaped.masked
  inside := by
    simp only [Ring.popLocked, List.length_set, shaped.and_mask]
    exact Nat.mod_lt _ shaped.positive
  bounded := by
    have bounded := shaped.bounded
    simp only [Ring.popLocked, List.length_set]
    omega
  blank := by
    obtain ⟨count, same⟩ : ∃ count, r.n = count + 1 := ⟨r.n - 1, by omega⟩
    have front : r.head % r.items.length = r.head := Nat.mod_eq_of_lt shaped.inside
    have blank := shaped.blank
    rw [same] at blank
    have popped := blank.pop.mod
    rw [front, List.length_set] at popped
    simpa only [Ring.popLocked, shaped.and_mask, same, Nat.add_sub_cancel] using popped

private theorem with_stats (shaped : r.Shaped) (stats : Stats) :
    ({ r with stats } : Ring T).Shaped :=
  ⟨shaped.sized, shaped.masked, shaped.inside, shaped.bounded, shaped.blank⟩

end Shaped

/-- The representation invariant of a ring between two critical sections. -/
structure Valid (r : Ring T) : Prop extends r.Shaped where
  counted : r.Counted

variable {next r : Ring T}

theorem new_valid {o : Options} (accepted : new o = some r) : r.Valid ∧ r.contents = [] := by
  simp only [new, Option.ite_none_left_eq_some, Option.some.injEq] at accepted
  obtain ⟨_, rfl⟩ := accepted
  obtain ⟨k, size⟩ := Circular.roundUp_power o.cap.toNat
  refine ⟨⟨⟨⟨k, by simpa using size⟩, by simp, ?_, Nat.zero_le _, ?_⟩, rfl⟩, rfl⟩
  · rw [List.length_replicate, size]
    exact Nat.two_pow_pos k
  · intro place inside _
    simp only [List.getD_eq_getElem?_getD, List.getElem?_replicate]
    split <;> rfl

private theorem reject_valid (valid : r.Valid) : r.reject.Valid :=
  ⟨valid.with_stats _, valid.counted⟩

private theorem store_valid (valid : r.Valid) (room : r.n < r.items.length) (v : T) :
    (r.store v).Valid := by
  refine ⟨valid.store room v, ?_⟩
  have counted := valid.counted
  simp only [Counted, store] at counted ⊢
  omega

/-- What the section of `Push` does to the items, by its outcome. -/
def Pushed (r next : Ring T) (v : T) : Option (Option T) → Prop
  | none => next.n = r.n ∧ next.contents = r.contents
  | some none => r.closed = false ∧ r.n < r.items.length ∧ next.n = r.n + 1 ∧
      next.contents = r.contents ++ [v]
  | some (some dropped) => r.closed = false ∧ r.n = r.items.length ∧ next.n = r.n ∧
      ∃ rest, r.contents = dropped :: rest ∧ next.contents = rest ++ [v]

def PushWaited (r next : Ring T) (v : T) : PushWaitOutcome → Prop
  | .closed => r.closed = true ∧ next.n = r.n ∧ next.contents = r.contents
  | .full => r.closed = false ∧ next = r ∧ r.n = r.items.length
  | .accepted more => r.closed = false ∧ r.n < r.items.length ∧ next.n = r.n + 1 ∧
      more = decide (next.n < r.items.length) ∧ next.contents = r.contents ++ [v]

def Popped (r next : Ring T) : Option (T × Bool) → Prop
  | none => r.n = 0 ∧ next = r
  | some (v, more) =>
      more = decide (0 < next.n) ∧ next.n + 1 = r.n ∧ r.contents = v :: next.contents

/-- The section of `Push` appends an accepted item, after dropping the oldest
when the ring is full and its policy says so. -/
theorem push_spec {v : T} {outcome : Option (Option T)} (valid : r.Valid)
    (result : r.push v = (outcome, next)) :
    next.Valid ∧ r.Fixed next ∧ next.closed = r.closed ∧ r.Pushed next v outcome := by
  unfold push at result
  split at result
  · cases result
    exact ⟨reject_valid valid, ⟨rfl, rfl⟩, rfl, rfl, rfl⟩
  · rename_i opened
    have opened : r.closed = false := by simpa using opened
    split at result
    · rename_i full
      split at result
      · cases result
        exact ⟨reject_valid valid, ⟨rfl, rfl⟩, rfl, rfl, rfl⟩
      · have occupied : 0 < r.n := by
          rw [full]
          exact valid.positive
        have popped := valid.contents_popLocked occupied
        let evicted : Ring T := { r.popLocked.2 with
          stats := { r.stats with dropped := r.stats.dropped + 1 } }
        have evictedN : evicted.n + 1 = r.n := by
          show r.n - 1 + 1 = r.n
          omega
        have evictedLength : evicted.items.length = r.items.length := List.length_set
        have evictedValid : evicted.Valid := by
          refine ⟨(valid.popLocked occupied).with_stats _, ?_⟩
          have counted := valid.counted
          simp only [Counted, evicted, popLocked] at counted ⊢
          omega
        have room : evicted.n < evicted.items.length := by omega
        cases result
        exact ⟨store_valid evictedValid room v, ⟨List.length_set.trans evictedLength, rfl⟩,
          rfl, opened, full, evictedN, r.popLocked.2.contents, popped,
          evictedValid.contents_store room v⟩
    · have room : r.n < r.items.length := by
        have bounded := valid.bounded
        omega
      cases result
      exact ⟨store_valid valid room v, ⟨List.length_set, rfl⟩, rfl, opened, room, rfl,
        valid.contents_store room v⟩

theorem pushWait_spec {v : T} {outcome : PushWaitOutcome} (valid : r.Valid)
    (result : r.pushWait v = (outcome, next)) :
    next.Valid ∧ r.Fixed next ∧ next.closed = r.closed ∧ r.PushWaited next v outcome := by
  unfold pushWait at result
  split at result
  · rename_i shut
    cases result
    exact ⟨reject_valid valid, ⟨rfl, rfl⟩, rfl, shut, rfl, rfl⟩
  · rename_i opened
    have opened : r.closed = false := by simpa using opened
    split at result
    · rename_i room
      cases result
      refine ⟨store_valid valid room v, ⟨List.length_set, rfl⟩, rfl, opened, room, rfl, ?_,
        valid.contents_store room v⟩
      rw [decide_eq_decide]
      simp [store]
    · rename_i full
      have bounded := valid.bounded
      cases result
      exact ⟨valid, ⟨rfl, rfl⟩, rfl, opened, rfl, by omega⟩

theorem pop_spec {outcome : Option (T × Bool)} (valid : r.Valid)
    (result : r.pop = (outcome, next)) :
    next.Valid ∧ r.Fixed next ∧ next.closed = r.closed ∧ r.Popped next outcome := by
  unfold pop at result
  split at result
  · rename_i empty
    cases result
    exact ⟨valid, ⟨rfl, rfl⟩, rfl, empty, rfl⟩
  · have occupied : 0 < r.n := by omega
    cases result
    refine ⟨⟨(valid.popLocked occupied).with_stats _, ?_⟩, ⟨List.length_set, rfl⟩, rfl, rfl, ?_,
      valid.contents_popLocked occupied⟩
    · have counted := valid.counted
      simp only [Counted] at counted ⊢
      omega
    · show r.n - 1 + 1 = r.n
      omega

theorem close_spec {first : Bool} (valid : r.Valid) (result : r.close = (first, next)) :
    next.Valid ∧ r.Fixed next ∧ next.closed = true ∧
      next.n = r.n ∧ next.contents = r.contents ∧ first = !r.closed := by
  unfold close at result
  split at result
  · rename_i shut
    cases result
    exact ⟨valid, ⟨rfl, rfl⟩, shut, rfl, rfl, by simp [shut]⟩
  · rename_i opened
    cases result
    exact ⟨⟨⟨valid.sized, valid.masked, valid.inside, valid.bounded, valid.blank⟩,
      valid.counted⟩, ⟨rfl, rfl⟩, rfl, rfl, rfl, by simpa using opened⟩

private theorem drainLoop_spec {rounds : Nat} {items : List T} (shaped : r.Shaped)
    (enough : r.n ≤ rounds) (result : r.drainLoop rounds = (items, next)) :
    next.Shaped ∧ r.Fixed next ∧ next.closed = r.closed ∧
      next.stats = r.stats ∧ next.n = 0 ∧ items = r.contents := by
  induction rounds generalizing r items with
  | zero =>
      have empty : r.n = 0 := by omega
      cases result
      exact ⟨shaped, ⟨rfl, rfl⟩, rfl, rfl, empty, by simp [contents, empty]⟩
  | succ rounds ih =>
      unfold drainLoop at result
      split at result
      · rename_i occupied
        cases drained : r.popLocked.2.drainLoop rounds with
        | mk rest final =>
            simp only [drained] at result
            cases result
            have fewer : r.popLocked.2.n ≤ rounds := by
              show r.n - 1 ≤ rounds
              omega
            obtain ⟨finalShaped, fixed, closed, stats, empty, same⟩ :=
              ih (shaped.popLocked occupied) fewer drained
            refine ⟨finalShaped, ⟨fixed.length.trans List.length_set, fixed.onDrop⟩,
              closed, stats, empty, ?_⟩
            rw [same, shaped.contents_popLocked occupied]
      · have empty : r.n = 0 := by omega
        cases result
        exact ⟨shaped, ⟨rfl, rfl⟩, rfl, rfl, empty, by simp [contents, empty]⟩

theorem drain_spec {items : List T} (valid : r.Valid) (result : r.drain = (items, next)) :
    next.Valid ∧ r.Fixed next ∧ next.closed = r.closed ∧
      next.n = 0 ∧ items = r.contents ∧ next.contents = [] := by
  unfold drain at result
  cases drained : r.drainLoop r.n with
  | mk removed final =>
      simp only [drained] at result
      cases result
      obtain ⟨shaped, fixed, closed, stats, empty, same⟩ :=
        drainLoop_spec valid.toShaped (Nat.le_refl _) drained
      refine ⟨⟨shaped.with_stats _, ?_⟩, ⟨fixed.length, fixed.onDrop⟩, closed, empty, same,
        by simp [contents, empty]⟩
      have counted := valid.counted
      have total : items.length = r.n := by rw [same, length_contents]
      simp only [Counted, stats] at counted ⊢
      omega

end Ring

end Netx.Queue
