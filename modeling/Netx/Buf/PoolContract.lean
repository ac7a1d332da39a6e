import Netx.Buf.Accounting

/-!
# What a pool promises its owners
-/

set_option autoImplicit false

set_option linter.dupNamespace false

namespace Netx.Buf

variable {Owner : Type}

/-- A buffer that somebody holds is held once, is idle in no pool, and no call is giving
it back. -/
structure World.Exclusive (w : World Owner) : Prop where
  held : (w.held.map fun h => h.buf.id).Nodup
  idle : ∀ h ∈ w.held, ∀ i, ∀ b ∈ w.pool.pools i, b.id ≠ h.buf.id
  calls : ∀ h ∈ w.held, ∀ call ∈ w.busy, h.buf.id ∉ call.ids

/-- Less is left of the budget than a buffer of `n` bytes costs. -/
def Pool.Exhausted (pool : Pool) (n : Nat) : Prop :=
  ∃ b, pool.budget = some b ∧ b.max - b.used < capacity n

structure PoolContract (w : World Owner) : Prop where
  refuses : ∀ owner n data pick, .reserve owner n data ∈ w.busy → w.pool.Exhausted n →
    w.pool.advance pick (.reserve owner n data) = (w.pool, .refused)
  admits : ∀ owner n data pick, .reserve owner n data ∈ w.busy → ¬w.pool.Exhausted n →
    ∃ pool, w.pool.advance pick (.reserve owner n data) = (pool, .goes (.take owner n data))
  grants : ∀ owner n data pick, .take owner n data ∈ w.busy → ∃ pool h,
    w.pool.advance pick (.take owner n data) = (pool, .granted h) ∧
      (h.B.array = h.buf.id ∧ h.B.len = n ∧ h.B.cap = capacity n) ∧
      (∀ bytes, data = some bytes → h.buf.B = bytes) ∧
      (∀ other ∈ w.held, other.buf.id ≠ h.buf.id) ∧ ∀ i, ∀ b ∈ pool.pools i, b.id ≠ h.buf.id
  refunds : ∀ size b pick, .refund size b ∈ w.busy →
    b.full.length = capacity size ∧
      ∃ pool, w.pool.advance pick (.refund size b : Call Owner) = (pool, .goes (.put b)) ∧
        pool.budget = w.pool.budget.map fun limit =>
          { limit with used := limit.used - capacity size }
  calm : w.panicked = false
  exclusive : w.Exclusive
  classes : ∀ i, ∀ b ∈ w.pool.pools i, b.full.length = 64 * 2 ^ i
  used : ∀ b, w.pool.budget = some b → b.used = w.charged
  settled : w.busy = 0 → ∀ b, w.pool.budget = some b →
    b.used = (w.held.map fun h => capacity h.size).sum

theorem Pool.mem_ids {pool : Pool} {i : Nat} {b : Buf} (known : i < numClasses)
    (member : b ∈ pool.pools i) : b.id ∈ pool.ids := by
  rw [Pool.ids_split known]
  exact Multiset.mem_add.mpr (.inl (Multiset.mem_coe.mpr (List.mem_map_of_mem member)))

theorem World.Sound.exclusive {w : World Owner} (sound : w.Sound) : w.Exclusive := by
  have distinct := sound.distinct
  rw [World.ids, add_assoc, Multiset.nodup_add] at distinct
  obtain ⟨once, _, disjoint⟩ := distinct
  refine ⟨once, ?_, ?_⟩
  · intro h member i b idle same
    have known : i < numClasses := by
      by_contra beyond
      rw [sound.idle i (by omega)] at idle
      cases idle
    refine Multiset.disjoint_left.mp disjoint (Multiset.mem_map_of_mem _ member) ?_
    rw [← same]
    exact Multiset.mem_add.mpr (.inr (Pool.mem_ids known idle))
  · intro h member call busy back
    refine Multiset.disjoint_left.mp disjoint (Multiset.mem_map_of_mem _ member) ?_
    exact Multiset.mem_add.mpr (.inl (Multiset.mem_bind.mpr ⟨call, busy, back⟩))

theorem Pool.exhausted_iff {pool : Pool} {n : Nat} :
    pool.Exhausted n ↔ (pool.charge n).1 = false :=
  Pool.charge_false_iff.symm

section Grants

variable {b : Buf} {n : Nat}

theorem Buf.Fits.slice_length (fits : b.Fits n) : (b.slice n).length = n := by
  have room := le_capacity n
  rw [← fits.full] at room
  exact Nat.min_eq_left room

theorem Buf.Fits.grant_slice (fits : b.Fits n) (owner : Owner) (data : Option (List UInt8)) :
    (b.grant owner n data).B = ⟨(b.grant owner n data).buf.id, n, capacity n⟩ := by
  have size : (b.grant owner n data).buf.length = n := by
    cases data <;> exact fits.slice_length
  have full := (fits.grant owner data).full
  show Slice.mk (b.grant owner n data).buf.id (b.grant owner n data).buf.length
    (b.grant owner n data).buf.full.length = _
  rw [size, full]

theorem Buf.Fits.grant_copies (fits : b.Fits n) (owner : Owner) {bytes : List UInt8}
    (long : bytes.length = n) : (b.grant owner n (some bytes)).buf.B = bytes := by
  have size := fits.slice_length
  have whole : bytes.take (b.slice n).length = bytes := by
    rw [size, ← long, List.take_length]
  show ((b.slice n).write bytes).full.take (b.slice n).length = bytes
  simp only [Buf.write, whole]
  rw [size, ← long, List.take_left]

end Grants

theorem World.Sound.contract {w : World Owner} (sound : w.Sound) : PoolContract w where
  refuses owner n data pick _ exhausted := by
    have refused := Pool.exhausted_iff.mp exhausted
    have same := Pool.charge_refused refused
    have charged : w.pool.charge n = (false, w.pool) := Prod.ext refused same
    simp only [Pool.advance, charged]
  admits owner n data pick _ enough := by
    rw [Pool.exhausted_iff] at enough
    cases charged : w.pool.charge n with
    | mk granted pool =>
        rw [charged] at enough
        obtain rfl : granted = true := Bool.eq_true_of_not_eq_false enough
        exact ⟨pool, by simp only [Pool.advance, charged]⟩
  grants owner n data pick member := by
    cases fetched : w.pool.fetch n pick with
    | mk b pool =>
        have fits := Pool.fetch_fits fetched
        obtain ⟨rest, split⟩ := Multiset.exists_cons_of_mem member
        have parts : World.Sound ⟨w.pool, w.held, .take owner n data ::ₘ rest, w.panicked⟩ := by
          rw [← split]
          exact sound
        have exclusive := (parts.fetch fetched).exclusive
        refine ⟨pool, b.grant owner n data, by simp only [Pool.advance, fetched], ?_, ?_, ?_,
          exclusive.idle _ (Multiset.mem_cons_self _ _)⟩
        · rw [fits.grant_slice]
          exact ⟨rfl, rfl, rfl⟩
        · rintro bytes rfl
          exact fits.grant_copies owner (sound.busy _ member bytes rfl)
        · intro other holds same
          have once := exclusive.held
          rw [Multiset.map_cons, Multiset.nodup_cons] at once
          exact once.1 (Multiset.mem_map.mpr ⟨other, holds, same⟩)
  refunds size b pick member := by
    obtain ⟨rest, split⟩ := Multiset.exists_cons_of_mem member
    have parts : World.Sound ⟨w.pool, w.held, .refund size b ::ₘ rest, w.panicked⟩ := by
      rw [← split]
      exact sound
    have full := (sound.busy _ member).full
    refine ⟨full, { w.pool with budget := w.pool.budget.map fun limit =>
      { limit with used := limit.used - capacity size } }, ?_, rfl⟩
    simp only [Pool.advance, Pool.refund_eq parts.inUse, full]
  calm := sound.calm
  exclusive := sound.exclusive
  classes i b idle := by
    have sized := b.sized (by rw [w.pool.classed i b idle]; omega)
    rw [sized, w.pool.classed i b idle, Int.toNat_natCast, Nat.shiftLeft_eq]
    rfl
  used b member := sound.used b member
  settled none b member := by
    rw [sound.used b member, World.charged, none]
    simp

/-- Any owners of any pool, with or without a budget. -/
theorem pool_accounts_for_buffers [DecidableEq Owner] {w : World Owner}
    (reached : (system Owner).Reachable w) :
    PoolContract w ∧ ∀ n,
      (n ≤ 65536 → IsLeast { c | (∃ k, c = 2 ^ k) ∧ max n 64 ≤ c } (capacity n)) ∧
      (65536 < n → capacity n = n) :=
  ⟨(World.Sound.reached reached).contract, fun _ => ⟨capacity_isLeast, capacity_of_large⟩⟩

/-- What owner 0 gets for 100 bytes, and what it makes of it. -/
def firstHeld : Held Nat :=
  ((Pool.newPool none).alloc (.inl 1)).1.grant 0 100 none

def editedHeld : Held Nat :=
  { firstHeld with B := ⟨7, 0, 0⟩, buf := firstHeld.buf.overwrite [1, 2, 3] }

/-- Owner 1 is refused a second buffer of 100 bytes, but not a copy of three bytes. Owner
0 loses its slice and gives its buffer back, and owner 1 gets that one. -/
def recyclingRun : List (Action Nat) := [
  .get 0 100, .next (.reserve 0 100 none) none, .next (.take 0 100 none) none,
  .get 1 100, .next (.reserve 1 100 none) none,
  .copy 1 [4, 5, 6], .next (.reserve 1 3 (some [4, 5, 6])) none,
  .next (.take 1 3 (some [4, 5, 6])) none,
  .edit firstHeld ⟨7, 0, 0⟩ [1, 2, 3], .release editedHeld,
  .next (.refund 100 editedHeld.buf) none, .next (.put editedHeld.buf) none,
  .get 1 100, .next (.reserve 1 100 none) none, .next (.take 1 100 none) (some 0)]

theorem pool_accounts_for_buffers_recycled :
    ∃ w : World Nat, (system Nat).exec (.start (some ⟨192, 0⟩)) recyclingRun = some w ∧
      (w.pool.budget = some ⟨192, 192⟩ ∧
        w.held.map (fun h => (h.owner, h.buf.id, h.B)) =
          {(1, 0, ⟨0, 100, 128⟩), (1, 1, ⟨1, 3, 64⟩)}) ∧
      PoolContract w := by
  have checked : ((system Nat).exec (.start (some ⟨192, 0⟩)) recyclingRun).any (fun w => decide
      (w.pool.budget = some ⟨192, 192⟩ ∧
        w.held.map (fun h => (h.owner, h.buf.id, h.B)) =
          {(1, 0, ⟨0, 100, 128⟩), (1, 1, ⟨1, 3, 64⟩)})) = true := by
    decide +kernel
  obtain ⟨w, executed, facts⟩ := Transition.System.exec_of_check _ checked
  have made : (system Nat).initial (.start (some ⟨192, 0⟩)) :=
    ⟨some ⟨192, 0⟩, by rintro _ ⟨⟩; rfl, rfl⟩
  exact ⟨w, executed, of_decide_eq_true facts,
    (pool_accounts_for_buffers (.exec (.initial made) executed)).1⟩

end Netx.Buf
