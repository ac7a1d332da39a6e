import Netx.Buf.Owners
import Netx.Transition.Tally
import Mathlib.Algebra.BigOperators.Group.Multiset.Basic
import Mathlib.Data.Multiset.Bind

/-!
# Accounting of pooled buffers

Every buffer is in one place, and the budget is charged for exactly those that are
out of the pool.
-/

set_option autoImplicit false

set_option linter.dupNamespace false

namespace Netx.Buf

open Transition (tally tally_split tally_update tally_update_of_notMem)

/-- The buffer was made for requests like this one. -/
structure Buf.Fits (b : Buf) (size : Nat) : Prop where
  full : b.full.length = capacity size
  sizeClass : b.sizeClass = classOf size

namespace Pool

/-- The buffers in the `sync.Pool`s. -/
def ids (pool : Pool) : Multiset Nat :=
  tally (Finset.range numClasses) pool.pools fun idle => (idle.map Buf.id : Multiset Nat)

variable {pool : Pool}

theorem ids_split {i : Nat} (known : i < numClasses) :
    pool.ids = ((pool.pools i).map Buf.id : Multiset Nat) +
      tally ((Finset.range numClasses).erase i) pool.pools
        fun idle => (idle.map Buf.id : Multiset Nat) :=
  tally_split _ (Finset.mem_range.mpr known)

variable {b : Buf} {n : Nat} {pool' : Pool}

private theorem ids_update {i : Nat} (known : i < numClasses) {idle : List Buf}
    (same : pool'.pools = Function.update pool.pools i idle) :
    pool'.ids = (idle.map Buf.id : Multiset Nat) +
      tally ((Finset.range numClasses).erase i) pool.pools
        fun idle => (idle.map Buf.id : Multiset Nat) := by
  rw [ids, same]
  exact tally_update _ idle (Finset.mem_range.mpr known)

private theorem map_eraseIdx {idle : List Buf} {place : Nat} (here : idle[place]? = some b) :
    (idle.map Buf.id : Multiset Nat) = b.id ::ₘ ((idle.eraseIdx place).map Buf.id) := by
  obtain ⟨inside, rfl⟩ := List.getElem?_eq_some_iff.mp here
  have order := (List.getElem_cons_eraseIdx_perm inside).map Buf.id
  exact (Multiset.coe_eq_coe.mpr order).symm

/-- How a call of `Get` comes by its buffer: it is new, or it was idle. -/
inductive Fetched (pool : Pool) (b : Buf) (pool' : Pool) : Prop where
  | new : b.id = pool.allocated → pool'.allocated = pool.allocated + 1 →
      pool'.pools = pool.pools → pool'.budget = pool.budget → Fetched pool b pool'
  | idle (i place : Nat) : i < numClasses → (pool.pools i)[place]? = some b →
      pool'.allocated = pool.allocated →
      pool'.pools = Function.update pool.pools i ((pool.pools i).eraseIdx place) →
      pool'.budget = pool.budget → Fetched pool b pool'

theorem fetch_fits {pick : Option Nat} (fetched : pool.fetch n pick = (b, pool')) : b.Fits n := by
  unfold fetch at fetched
  split at fetched
  · rename_i pooled
    have same := take_sizeClass fetched
    rw [Int.toNat_of_nonneg pooled] at same
    refine ⟨?_, same⟩
    rw [b.sized (same ▸ pooled), same, capacity_of_pooled pooled]
  · rename_i unpooled
    have above : large < n := by
      by_contra within
      exact unpooled (classOf_nonneg_iff.mpr (by omega))
    cases fetched
    refine ⟨?_, ?_⟩
    · rw [capacity_of_large above]
      exact List.length_replicate
    · exact (if_pos above).symm

private theorem fetch_fetched {pick : Option Nat} (fetched : pool.fetch n pick = (b, pool')) :
    pool.Fetched b pool' := by
  unfold fetch at fetched
  split at fetched
  · rename_i pooled
    have known : (classOf n).toNat < numClasses := by
      have bound := classOf_lt n
      omega
    unfold take at fetched
    split at fetched
    · rename_i place c picked
      cases fetched
      obtain ⟨_, _, found⟩ := Option.bind_eq_some_iff.mp picked
      obtain ⟨_, indexed, same⟩ := Option.map_eq_some_iff.mp found
      cases same
      exact .idle _ place known indexed rfl rfl rfl
    · cases fetched
      exact .new rfl rfl rfl rfl
  · cases fetched
    exact .new rfl rfl rfl rfl

theorem Fetched.budget (fetched : pool.Fetched b pool') : pool'.budget = pool.budget := by
  cases fetched with
  | new _ _ _ same | idle _ _ _ _ _ _ same => exact same

theorem Fetched.ids (fetched : pool.Fetched b pool') :
    b.id = pool.allocated ∧ pool'.allocated = pool.allocated + 1 ∧ pool'.ids = pool.ids ∨
      pool'.allocated = pool.allocated ∧ b.id ::ₘ pool'.ids = pool.ids := by
  cases fetched with
  | new fresh allocated pools =>
      refine .inl ⟨fresh, allocated, ?_⟩
      rw [Pool.ids, pools]
      rfl
  | idle i place known here allocated pools =>
      refine .inr ⟨allocated, ?_⟩
      rw [ids_update known pools, ids_split known, map_eraseIdx here, Multiset.cons_add]

theorem Fetched.idle_beyond (fetched : pool.Fetched b pool')
    (beyond : ∀ i, numClasses ≤ i → pool.pools i = []) (i : Nat) (above : numClasses ≤ i) :
    pool'.pools i = [] := by
  cases fetched with
  | new _ _ pools => rw [pools, beyond i above]
  | idle j place known _ _ pools =>
      rw [pools, Function.update_of_ne (by omega), beyond i above]

private theorem keep_ids (known : b.sizeClass < numClasses) :
    (pool.keep b).ids ≤ b.id ::ₘ pool.ids := by
  unfold keep
  split
  · rename_i pooled
    have class_lt : b.sizeClass.toNat < numClasses := by omega
    have pools : (pool.put b pooled).pools = Function.update pool.pools b.sizeClass.toNat
      (b.slice 0 :: pool.pools b.sizeClass.toNat) := rfl
    rw [ids_update class_lt pools, ids_split class_lt, List.map_cons, ← Multiset.cons_coe,
      Multiset.cons_add]
    exact le_refl _
  · exact Multiset.le_cons_self _ _

private theorem keep_beyond (known : b.sizeClass < numClasses)
    (beyond : ∀ i, numClasses ≤ i → pool.pools i = []) (i : Nat) (above : numClasses ≤ i) :
    (pool.keep b).pools i = [] := by
  unfold keep
  split
  · exact (Function.update_of_ne (by omega) _ _).trans (beyond i above)
  · exact beyond i above

private theorem keep_frame (b : Buf) :
    (pool.keep b).budget = pool.budget ∧ (pool.keep b).allocated = pool.allocated := by
  unfold keep
  split <;> exact ⟨rfl, rfl⟩

private theorem drop_ids (i place : Nat) : (pool.drop i place).ids ≤ pool.ids := by
  by_cases known : i < numClasses
  · have pools : (pool.drop i place).pools =
      Function.update pool.pools i ((pool.pools i).eraseIdx place) := rfl
    rw [ids_update known pools, ids_split known]
    refine Multiset.add_le_add_right ?_
    exact Multiset.map_le_map (Multiset.coe_le.mpr (List.eraseIdx_sublist _ _).subperm)
  · have outside : i ∉ Finset.range numClasses := fun member =>
      known (Finset.mem_range.mp member)
    exact le_of_eq (tally_update_of_notMem _ _ outside)

private theorem drop_beyond (i place : Nat) (beyond : ∀ j, numClasses ≤ j → pool.pools j = [])
    (j : Nat) (above : numClasses ≤ j) : (pool.drop i place).pools j = [] := by
  by_cases same : j = i
  · subst same
    have empty := beyond j above
    exact (Function.update_self _ _ _).trans (by rw [empty]; rfl)
  · exact (Function.update_of_ne same _ _).trans (beyond j above)

/-- `Get` is refused when less is left of the budget than the buffer costs. -/
theorem charge_false_iff : (pool.charge n).1 = false ↔
    ∃ b, pool.budget = some b ∧ b.max - b.used < capacity n := by
  unfold charge
  cases pool.budget with
  | none => simp
  | some b =>
      simp only [Limit.Budget.reserve, Option.some.injEq, exists_eq_left']
      rw [if_neg (by omega)]
      split
      · rename_i small
        simpa using small
      · rename_i enough
        simpa using enough

theorem charge_refused (refused : (pool.charge n).1 = false) : (pool.charge n).2 = pool := by
  obtain ⟨b, budget, small⟩ := charge_false_iff.mp refused
  simp only [charge, budget, Limit.Budget.reserve]
  rw [if_neg (by omega), if_pos small]
  exact congrArg (Pool.mk pool.pools · pool.allocated pool.classed) budget.symm

private theorem charge_granted (granted : (pool.charge n).1 = true) :
    (pool.charge n).2 = { pool with
      budget := pool.budget.map fun b => { b with used := b.used + capacity n } } := by
  have enough : ¬∃ b, pool.budget = some b ∧ b.max - b.used < capacity n := by
    rw [← charge_false_iff, granted]
    exact nofun
  unfold charge
  cases budget : pool.budget with
  | none => exact congrArg (Pool.mk pool.pools · pool.allocated pool.classed) budget
  | some b =>
      have fits : ¬(b.max - b.used < capacity n) := fun small => enough ⟨b, budget, small⟩
      simp only [Limit.Budget.reserve]
      rw [if_neg (by omega), if_neg fits]
      rfl

/-- A refund of what is in use does not panic. -/
theorem refund_eq (inUse : ∀ budget ∈ pool.budget, (b.full.length : Int) ≤ budget.used) :
    pool.refund b = (false, { pool with
      budget := pool.budget.map fun budget =>
        { budget with used := budget.used - b.full.length } }) := by
  unfold refund
  cases budget : pool.budget with
  | none =>
      exact congrArg (fun budget => (false, Pool.mk pool.pools budget pool.allocated pool.classed))
        budget
  | some limit =>
      have enough := inUse limit budget
      have calm : ¬(limit.used - b.full.length < 0) := by omega
      simp only [Limit.Budget.release]
      rw [if_neg (by omega)]
      simp only [decide_eq_false calm]
      rfl

end Pool

namespace Call

variable {Owner : Type}

/-- The buffer that a call is giving back. -/
def ids : Call Owner → Multiset Nat
  | .refund _ b | .put b => {b.id}
  | _ => 0

/-- What the budget is charged for a call. -/
def charge : Call Owner → Nat
  | .take _ n _ => capacity n
  | .refund size _ => capacity size
  | _ => 0

def Sound : Call Owner → Prop
  | .reserve _ n data | .take _ n data => ∀ bytes ∈ data, bytes.length = n
  | .refund size b => b.Fits size
  | .put b => b.sizeClass < numClasses

end Call

theorem Buf.Fits.class_lt {b : Buf} {size : Nat} (fits : b.Fits size) :
    b.sizeClass < numClasses :=
  fits.sizeClass ▸ classOf_lt size

private theorem length_write (b : Buf) (bytes : List UInt8) :
    (b.write bytes).full.length = b.full.length := by
  have bound := b.bounded
  simp only [Buf.write, List.length_append, List.length_drop, List.length_take]
  omega

section Grants

variable {Owner : Type} {b : Buf} {n : Nat}

private theorem grant_id (owner : Owner) (data : Option (List UInt8)) :
    (b.grant owner n data).buf.id = b.id := by
  cases data <;> rfl

theorem Buf.Fits.grant (fits : b.Fits n) (owner : Owner) (data : Option (List UInt8)) :
    (b.grant owner n data).buf.Fits n := by
  cases data with
  | none => exact ⟨fits.full, fits.sizeClass⟩
  | some bytes => exact ⟨(length_write _ _).trans fits.full, fits.sizeClass⟩

theorem Buf.Fits.write (fits : b.Fits n) (bytes : List UInt8) : (b.write bytes).Fits n :=
  ⟨(length_write b bytes).trans fits.full, fits.sizeClass⟩

theorem Buf.Fits.overwrite (fits : b.Fits n) (bytes : List UInt8) :
    (b.overwrite bytes).Fits n :=
  ⟨(length_write _ _).trans fits.full, fits.sizeClass⟩

end Grants

namespace World

variable {Owner : Type}

/-- Every buffer that is held, on its way back or idle. -/
def ids (w : World Owner) : Multiset Nat :=
  w.held.map (fun h => h.buf.id) + w.busy.bind Call.ids + w.pool.ids

/-- The capacity of the buffers that are out of the pool, with those that a call is just
taking out or has not yet refunded. -/
def charged (w : World Owner) : Nat :=
  (w.held.map fun h => capacity h.size).sum + (w.busy.map Call.charge).sum

structure Sound (w : World Owner) : Prop where
  distinct : w.ids.Nodup
  allocated : ∀ id ∈ w.ids, id < w.pool.allocated
  idle : ∀ i, numClasses ≤ i → w.pool.pools i = []
  held : ∀ h ∈ w.held, h.buf.Fits h.size
  busy : ∀ call ∈ w.busy, call.Sound
  used : ∀ b ∈ w.pool.budget, b.used = w.charged
  calm : w.panicked = false

theorem Sound.start {budget : Option Limit.Budget}
    (made : ∀ b ∈ budget, Limit.Budget.newBudget b.max = some b) :
    (World.start budget : World Owner).Sound where
  distinct := by
    have none : (World.start budget : World Owner).ids = 0 := by
      simp [ids, World.start, Pool.ids, Pool.newPool, tally]
    rw [none]
    exact Multiset.nodup_zero
  allocated := by
    have none : (World.start budget : World Owner).ids = 0 := by
      simp [ids, World.start, Pool.ids, Pool.newPool, tally]
    rw [none]
    exact fun id member => absurd member (Multiset.notMem_zero id)
  idle _ _ := rfl
  held h member := absurd member (Multiset.notMem_zero h)
  busy call member := absurd member (Multiset.notMem_zero call)
  used b member := by
    have fresh := made b member
    unfold Limit.Budget.newBudget at fresh
    split at fresh
    · cases fresh
    · rw [← Option.some.inj fresh]
      rfl
  calm := rfl

variable {w w' : World Owner}

/-- Buffers that stay where they are, move or are forgotten. -/
theorem Sound.apart (sound : w.Sound) (less : w'.ids ≤ w.ids)
    (more : w.pool.allocated ≤ w'.pool.allocated) :
    w'.ids.Nodup ∧ ∀ id ∈ w'.ids, id < w'.pool.allocated :=
  ⟨Multiset.nodup_of_le less sound.distinct, fun id member =>
    lt_of_lt_of_le (sound.allocated id (Multiset.mem_of_le less member)) more⟩

/-- A new buffer. -/
theorem Sound.apart_new (sound : w.Sound) (ids : w'.ids = w.pool.allocated ::ₘ w.ids)
    (more : w'.pool.allocated = w.pool.allocated + 1) :
    w'.ids.Nodup ∧ ∀ id ∈ w'.ids, id < w'.pool.allocated := by
  rw [ids, more]
  refine ⟨Multiset.nodup_cons.mpr ⟨fun member => ?_, sound.distinct⟩, fun id member => ?_⟩
  · exact lt_irrefl _ (sound.allocated _ member)
  · rcases Multiset.mem_cons.mp member with rfl | old
    · exact Nat.lt_succ_self _
    · exact Nat.lt_succ_of_lt (sound.allocated id old)

section Parts

variable (pool : Pool) (held : Multiset (Held Owner)) (busy : Multiset (Call Owner)) (p : Bool)

private theorem ids_call (call : Call Owner) :
    ids ⟨pool, held, call ::ₘ busy, p⟩ = call.ids + ids ⟨pool, held, busy, p⟩ := by
  simp only [ids, Multiset.cons_bind]
  ac_rfl

private theorem ids_held (h : Held Owner) :
    ids ⟨pool, h ::ₘ held, busy, p⟩ = h.buf.id ::ₘ ids ⟨pool, held, busy, p⟩ := by
  simp only [ids, Multiset.map_cons, Multiset.cons_add]

private theorem charged_call (call : Call Owner) :
    charged ⟨pool, held, call ::ₘ busy, p⟩ = call.charge + charged ⟨pool, held, busy, p⟩ := by
  simp only [charged, Multiset.map_cons, Multiset.sum_cons]
  omega

private theorem charged_held (h : Held Owner) :
    charged ⟨pool, h ::ₘ held, busy, p⟩ =
      capacity h.size + charged ⟨pool, held, busy, p⟩ := by
  simp only [charged, Multiset.map_cons, Multiset.sum_cons]
  omega

end Parts

section Steps

variable {pool : Pool} {held : Multiset (Held Owner)} {busy : Multiset (Call Owner)} {p : Bool}
  {data : Option (List UInt8)} {n size : Nat} {owner : Owner} {b : Buf}

/-- A call of `Get` begins or is refused. -/
theorem sound_reserve_iff :
    Sound ⟨pool, held, .reserve owner n data ::ₘ busy, p⟩ ↔
      (∀ bytes ∈ data, bytes.length = n) ∧ Sound ⟨pool, held, busy, p⟩ := by
  have ids := (ids_call pool held busy p (.reserve owner n data)).trans (zero_add _)
  have charged := (charged_call pool held busy p (.reserve owner n data)).trans (zero_add _)
  constructor
  · intro sound
    obtain ⟨copied, others⟩ := Multiset.forall_mem_cons.mp sound.busy
    refine ⟨copied, ?_⟩
    exact {
      distinct := ids ▸ sound.distinct
      allocated := ids ▸ sound.allocated
      idle := sound.idle
      held := sound.held
      busy := others
      used := charged ▸ sound.used
      calm := sound.calm }
  · rintro ⟨copied, sound⟩
    exact {
      distinct := ids ▸ sound.distinct
      allocated := ids ▸ sound.allocated
      idle := sound.idle
      held := sound.held
      busy := Multiset.forall_mem_cons.mpr ⟨copied, sound.busy⟩
      used := charged ▸ sound.used
      calm := sound.calm }

theorem Sound.charge (copied : ∀ bytes ∈ data, bytes.length = n)
    (sound : Sound ⟨pool, held, busy, p⟩) (granted : (pool.charge n).1 = true) :
    Sound ⟨(pool.charge n).2, held, .take owner n data ::ₘ busy, p⟩ := by
  rw [Pool.charge_granted granted]
  have ids := (ids_call { pool with
    budget := pool.budget.map fun b => { b with used := b.used + capacity n } } held busy p
    (.take owner n data)).trans (zero_add _)
  refine ⟨ids ▸ sound.distinct, ids ▸ sound.allocated, sound.idle, sound.held,
    Multiset.forall_mem_cons.mpr ⟨copied, sound.busy⟩, ?_, sound.calm⟩
  intro b member
  obtain ⟨before, present, rfl⟩ := Option.map_eq_some_iff.mp member
  have used := sound.used before present
  rw [charged_call]
  show before.used + capacity n = _
  rw [used, Nat.cast_add, add_comm]
  rfl

theorem Sound.fetch {pick : Option Nat} {pool' : Pool}
    (sound : Sound ⟨pool, held, .take owner n data ::ₘ busy, p⟩)
    (fetched : pool.fetch n pick = (b, pool')) :
    Sound ⟨pool', b.grant owner n data ::ₘ held, busy, p⟩ := by
  have obtained := Pool.fetch_fetched fetched
  have before := (ids_call pool held busy p (.take owner n data)).trans (zero_add _)
  have after := ids_held pool' held busy p (b.grant owner n data)
  rw [grant_id] at after
  have apart : (ids ⟨pool', b.grant owner n data ::ₘ held, busy, p⟩).Nodup ∧
      ∀ id ∈ ids ⟨pool', b.grant owner n data ::ₘ held, busy, p⟩, id < pool'.allocated := by
    rcases obtained.ids with ⟨fresh, allocated, same⟩ | ⟨allocated, moved⟩
    · refine sound.apart_new ?_ allocated
      rw [after, before, fresh]
      simp only [ids, same]
    · refine sound.apart (le_of_eq ?_) allocated.ge
      rw [after, before]
      simp only [ids, ← moved, Multiset.add_cons]
  refine ⟨apart.1, apart.2, obtained.idle_beyond sound.idle,
    Multiset.forall_mem_cons.mpr ⟨(Pool.fetch_fits fetched).grant owner data, sound.held⟩,
    fun call member => sound.busy call (Multiset.mem_cons_of_mem member), ?_, sound.calm⟩
  intro budget member
  rw [obtained.budget] at member
  rw [sound.used budget member, charged_held, charged_call]
  rfl

theorem Sound.used_refund (sound : Sound ⟨pool, held, .refund size b ::ₘ busy, p⟩)
    (budget : Limit.Budget) (member : budget ∈ pool.budget) :
    budget.used = b.full.length + charged ⟨pool, held, busy, p⟩ := by
  obtain ⟨fits, _⟩ := Multiset.forall_mem_cons.mp sound.busy
  rw [sound.used budget member, charged_call, fits.full]
  exact Nat.cast_add _ _

/-- What a call gives back is in use. -/
theorem Sound.inUse (sound : Sound ⟨pool, held, .refund size b ::ₘ busy, p⟩) (budget : Limit.Budget)
    (member : budget ∈ pool.budget) : (b.full.length : Int) ≤ budget.used := by
  rw [sound.used_refund budget member]
  omega

theorem Sound.refund (sound : Sound ⟨pool, held, .refund size b ::ₘ busy, p⟩) :
    (pool.refund b).1 = false ∧ Sound ⟨(pool.refund b).2, held, .put b ::ₘ busy, p⟩ := by
  obtain ⟨fits, others⟩ := Multiset.forall_mem_cons.mp sound.busy
  rw [Pool.refund_eq sound.inUse]
  have ids : ∀ budget, ids ⟨{ pool with budget }, held, .put b ::ₘ busy, p⟩ =
      ids ⟨pool, held, .refund size b ::ₘ busy, p⟩ := by
    intro budget
    rw [ids_call, ids_call]
    rfl
  refine ⟨rfl, (ids _).symm ▸ sound.distinct, (ids _).symm ▸ sound.allocated, sound.idle,
    sound.held, Multiset.forall_mem_cons.mpr ⟨fits.class_lt, others⟩, ?_, sound.calm⟩
  intro after member
  obtain ⟨budget, present, rfl⟩ := Option.map_eq_some_iff.mp member
  have whole := sound.used_refund budget present
  rw [charged_call]
  show budget.used - b.full.length = _
  rw [whole, add_sub_cancel_left]
  exact congrArg Nat.cast (zero_add _).symm

theorem Sound.keep (sound : Sound ⟨pool, held, .put b ::ₘ busy, p⟩) :
    Sound ⟨pool.keep b, held, busy, p⟩ := by
  obtain ⟨known, others⟩ := Multiset.forall_mem_cons.mp sound.busy
  obtain ⟨budget, allocated⟩ := pool.keep_frame b
  have less : ids ⟨pool.keep b, held, busy, p⟩ ≤ ids ⟨pool, held, .put b ::ₘ busy, p⟩ := by
    rw [ids_call]
    simp only [ids, Call.ids]
    calc
      held.map (fun h => h.buf.id) + busy.bind Call.ids + (pool.keep b).ids ≤
          held.map (fun h => h.buf.id) + busy.bind Call.ids + (b.id ::ₘ pool.ids) :=
        Multiset.add_le_add_left (Pool.keep_ids known)
      _ = {b.id} + (held.map (fun h => h.buf.id) + busy.bind Call.ids + pool.ids) := by
        rw [Multiset.add_cons, Multiset.singleton_add]
  have apart := sound.apart less allocated.ge
  refine ⟨apart.1, apart.2, Pool.keep_beyond known sound.idle, sound.held, others, ?_,
    sound.calm⟩
  intro limit member
  rw [budget] at member
  rw [sound.used limit member, charged_call]
  exact congrArg Nat.cast (zero_add _)

/-- An owner does something to a buffer it keeps. -/
theorem Sound.edit {h h' : Held Owner} (sound : Sound ⟨pool, h ::ₘ held, busy, p⟩)
    (fits : h'.buf.Fits h'.size) (same : h'.buf.id = h.buf.id) (size : h'.size = h.size) :
    Sound ⟨pool, h' ::ₘ held, busy, p⟩ := by
  have ids : ids ⟨pool, h' ::ₘ held, busy, p⟩ = ids ⟨pool, h ::ₘ held, busy, p⟩ := by
    rw [ids_held, ids_held, same]
  have charged : charged ⟨pool, h' ::ₘ held, busy, p⟩ =
      charged ⟨pool, h ::ₘ held, busy, p⟩ := by
    rw [charged_held, charged_held, size]
  refine ⟨ids ▸ sound.distinct, ids ▸ sound.allocated, sound.idle, ?_, sound.busy,
    charged ▸ sound.used, sound.calm⟩
  exact Multiset.forall_mem_cons.mpr ⟨fits, (Multiset.forall_mem_cons.mp sound.held).2⟩

theorem Sound.release {h : Held Owner} (sound : Sound ⟨pool, h ::ₘ held, busy, p⟩) :
    Sound ⟨pool, held, .refund h.size h.buf ::ₘ busy, p⟩ := by
  obtain ⟨fits, others⟩ := Multiset.forall_mem_cons.mp sound.held
  have ids : ids ⟨pool, held, .refund h.size h.buf ::ₘ busy, p⟩ =
      ids ⟨pool, h ::ₘ held, busy, p⟩ := by
    rw [ids_call, ids_held]
    exact Multiset.singleton_add _ _
  have charged : charged ⟨pool, held, .refund h.size h.buf ::ₘ busy, p⟩ =
      charged ⟨pool, h ::ₘ held, busy, p⟩ := by
    rw [charged_call, charged_held]
    rfl
  exact ⟨ids ▸ sound.distinct, ids ▸ sound.allocated, sound.idle, others,
    Multiset.forall_mem_cons.mpr ⟨fits, sound.busy⟩, charged ▸ sound.used, sound.calm⟩

theorem Sound.drop (sound : Sound ⟨pool, held, busy, p⟩) (i place : Nat) :
    Sound ⟨pool.drop i place, held, busy, p⟩ := by
  have less : ids ⟨pool.drop i place, held, busy, p⟩ ≤ ids ⟨pool, held, busy, p⟩ :=
    Multiset.add_le_add_left (Pool.drop_ids i place)
  have apart := sound.apart less le_rfl
  exact ⟨apart.1, apart.2, Pool.drop_beyond i place sound.idle, sound.held, sound.busy,
    sound.used, sound.calm⟩

end Steps

theorem Sound.next {call : Call Owner} {rest : Multiset (Call Owner)} {pick : Option Nat}
    (sound : Sound ⟨w.pool, w.held, call ::ₘ rest, w.panicked⟩) :
    (w.proceed (w.pool.advance pick call).1 rest (w.pool.advance pick call).2).Sound := by
  cases call with
  | reserve owner n data =>
      obtain ⟨copied, before⟩ := sound_reserve_iff.mp sound
      cases charged : w.pool.charge n with
      | mk granted pool =>
          simp only [Pool.advance, charged]
          cases granted with
          | true =>
              have after : Sound ⟨_, _, .take owner n data ::ₘ rest, _⟩ :=
                before.charge copied (congrArg Prod.fst charged)
              rw [charged] at after
              exact after
          | false =>
              have same := Pool.charge_refused (congrArg Prod.fst charged)
              rw [charged] at same
              obtain rfl : pool = w.pool := same
              exact before
  | take owner n data =>
      cases fetched : w.pool.fetch n pick with
      | mk b pool =>
          simp only [Pool.advance, fetched]
          exact sound.fetch fetched
  | refund size b =>
      obtain ⟨calm, after⟩ := sound.refund
      cases refunded : w.pool.refund b with
      | mk panics pool =>
          simp only [Pool.advance, refunded]
          rw [refunded] at calm after
          obtain rfl : panics = false := calm
          exact after
  | put b => exact sound.keep

variable [DecidableEq Owner]

theorem Sound.step {action : Action Owner} (sound : w.Sound) (stepped : w.step action = some w') :
    w'.Sound := by
  have parts : Sound ⟨w.pool, w.held, w.busy, w.panicked⟩ := sound
  cases action with
  | get owner n =>
      simp only [World.step] at stepped
      split at stepped
      · cases stepped
        exact sound
      · cases stepped
        exact sound_reserve_iff.mpr ⟨fun _ => nofun, sound⟩
  | copy owner data =>
      cases stepped
      refine sound_reserve_iff.mpr ⟨?_, sound⟩
      rintro _ ⟨⟩
      rfl
  | next call pick =>
      obtain ⟨member, same⟩ := Option.ite_none_right_eq_some.mp stepped
      cases same
      rw [← Multiset.cons_erase member] at parts
      exact Sound.next parts
  | release h =>
      obtain ⟨member, same⟩ := Option.ite_none_right_eq_some.mp stepped
      cases same
      rw [← Multiset.cons_erase member] at parts
      exact parts.release
  | edit h B bytes =>
      obtain ⟨member, same⟩ := Option.ite_none_right_eq_some.mp stepped
      cases same
      rw [← Multiset.cons_erase member] at parts
      exact parts.edit ((sound.held h member).overwrite bytes) rfl rfl
  | give h owner =>
      obtain ⟨member, same⟩ := Option.ite_none_right_eq_some.mp stepped
      cases same
      rw [← Multiset.cons_erase member] at parts
      exact parts.edit (sound.held h member) rfl rfl
  | drop i place =>
      cases stepped
      exact sound.drop i place

/-- What others hold of the pool, and what they are doing with it. -/
def beside (w : World Owner) (held : Multiset (Held Owner)) (busy : Multiset (Call Owner)) :
    World Owner :=
  { w with held := held + w.held, busy := busy + w.busy }

omit [DecidableEq Owner] in
private theorem proceed_beside (w : World Owner) (pool : Pool) (held : Multiset (Held Owner))
    (busy rest : Multiset (Call Owner)) (progress : Progress Owner) :
    (w.beside held busy).proceed pool (busy + rest) progress =
      (w.proceed pool rest progress).beside held busy := by
  cases progress <;> simp only [proceed, beside, Multiset.add_cons]

/-- A step does not depend on what others hold. -/
theorem step_beside {action : Action Owner} (stepped : w.step action = some w')
    (held : Multiset (Held Owner)) (busy : Multiset (Call Owner)) :
    (w.beside held busy).step action = some (w'.beside held busy) := by
  have inside : ∀ {h : Held Owner}, h ∈ w.held → h ∈ held + w.held :=
    fun member => Multiset.mem_add.mpr (.inr member)
  cases action with
  | get owner n =>
      simp only [World.step] at stepped ⊢
      split at stepped <;> cases stepped
      · rename_i negative
        rw [if_pos negative]
      · rename_i nonneg
        rw [if_neg nonneg]
        simp only [beside, Multiset.add_cons]
  | copy owner data =>
      cases stepped
      simp only [World.step, beside, Multiset.add_cons]
  | next call pick =>
      obtain ⟨member, same⟩ := Option.ite_none_right_eq_some.mp stepped
      have here : call ∈ busy + w.busy := Multiset.mem_add.mpr (.inr member)
      have after := proceed_beside w (w.pool.advance pick call).1 held busy (w.busy.erase call)
        (w.pool.advance pick call).2
      have reached : w.proceed (w.pool.advance pick call).1 (w.busy.erase call)
        (w.pool.advance pick call).2 = w' := Option.some.inj same
      rw [← Multiset.erase_add_right_pos _ member, reached] at after
      exact (if_pos here).trans (congrArg some after)
  | release h =>
      obtain ⟨member, same⟩ := Option.ite_none_right_eq_some.mp stepped
      cases same
      simp only [World.step, beside, if_pos (inside member),
        Multiset.erase_add_right_pos _ member, Multiset.add_cons]
  | edit h B bytes =>
      obtain ⟨member, same⟩ := Option.ite_none_right_eq_some.mp stepped
      cases same
      simp only [World.step, beside, if_pos (inside member),
        Multiset.erase_add_right_pos _ member, Multiset.add_cons]
  | give h owner =>
      obtain ⟨member, same⟩ := Option.ite_none_right_eq_some.mp stepped
      cases same
      simp only [World.step, beside, if_pos (inside member),
        Multiset.erase_add_right_pos _ member, Multiset.add_cons]
  | drop i place =>
      cases stepped
      rfl

theorem Sound.reached (reached : (system Owner).Reachable w) : w.Sound := by
  refine reached.invariant Sound ?_ fun _ _ _ _ sound stepped => sound.step stepped
  rintro _ ⟨budget, made, rfl⟩
  exact .start made

end World

end Netx.Buf
