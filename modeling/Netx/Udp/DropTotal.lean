import Netx.Transition.Tally
import Netx.Udp.Receive
import Mathlib.Data.List.MinMax

/-!
# The drop counter of a socket

Readers of one socket report the kernel's drop count, modulo `2 ^ 32` and out of order.
`observe` moves the last count forward with a compare-and-swap and then adds the
difference to the total.
-/

set_option autoImplicit false

namespace Netx.Udp.Drops

open Transition

/-- The difference `int32(raw - prev)`. -/
def delta (raw prev : UInt32) : Int32 :=
  (raw - prev).toInt32

/-- The points of a reader in `observe`: before the load, before the compare-and-swap
and before the addition. The true count stands for the report. -/
inductive Pc where
  | idle
  | load (count : Nat)
  | cas (count : Nat) (prev : UInt32)
  | add (delta : Int32)
  deriving DecidableEq, Repr

/-- The counter, the true count that its `last` stands for, and the true counts that
readers have reported. -/
structure World (T : Type) where
  counter : DropCounter
  accounted : Nat
  reported : List Nat
  pc : T → Pc

inductive Act where
  | report (count : Nat)
  | next

section Steps

variable {T : Type} [DecidableEq T]

def World.setPc (w : World T) (t : T) (pc : Pc) : World T :=
  { w with pc := Function.update w.pc t pc }

def World.next (w : World T) (t : T) : Option (World T) :=
  match w.pc t with
  | .idle => none
  | .load count =>
      some (w.setPc t
        (if delta (.ofNat count) w.counter.last ≤ 0 then .idle else .cas count w.counter.last))
  | .cas count prev =>
      if w.counter.last = prev then
        some ({ w with
          counter := { w.counter with last := .ofNat count }
          accounted := count }.setPc t (.add (delta (.ofNat count) prev)))
      else some (w.setPc t (.load count))
  | .add delta =>
      some ({ w with
        counter := { w.counter with total := w.counter.total + delta.toInt64.toUInt64 } }.setPc
          t .idle)

def World.step (w : World T) : T × Act → Option (World T)
  | (t, .report count) =>
      if w.pc t = .idle then
        some ({ w with reported := count :: w.reported }.setPc t (.load count))
      else none
  | (t, .next) => w.next t

def World.start : World T where
  counter := { last := 0, total := 0 }
  accounted := 0
  reported := []
  pc := fun _ => .idle

/-- Any number of readers that report any counts. -/
def system (T : Type) [DecidableEq T] : Transition.System (World T) (T × Act) where
  initial w := w = .start
  step := World.step

/-- The report in hand at a load or a compare-and-swap is less than half the range away
from what is accounted for. -/
def near (w : World T) : T × Act → Bool
  | (t, .next) =>
      match w.pc t with
      | .load count | .cas count _ =>
          decide (count < w.accounted + 2 ^ 31 ∧ w.accounted < count + 2 ^ 31)
      | _ => true
  | _ => true

/-- What a reader can do at each of its points. -/
inductive Moves (w : World T) (t : T) : Act → World T → Prop where
  | report (count : Nat) : w.pc t = .idle →
      Moves w t (.report count)
        ({ w with reported := count :: w.reported }.setPc t (.load count))
  | stale (count : Nat) : w.pc t = .load count →
      delta (.ofNat count) w.counter.last ≤ 0 → Moves w t .next (w.setPc t .idle)
  | load (count : Nat) : w.pc t = .load count →
      0 < delta (.ofNat count) w.counter.last →
      Moves w t .next (w.setPc t (.cas count w.counter.last))
  | swapped (count : Nat) : w.pc t = .cas count w.counter.last →
      Moves w t .next ({ w with
        counter := { w.counter with last := .ofNat count }
        accounted := count }.setPc t (.add (delta (.ofNat count) w.counter.last)))
  | retry (count : Nat) (prev : UInt32) : w.pc t = .cas count prev → w.counter.last ≠ prev →
      Moves w t .next (w.setPc t (.load count))
  | added (delta : Int32) : w.pc t = .add delta →
      Moves w t .next ({ w with
        counter := { w.counter with total := w.counter.total + delta.toInt64.toUInt64 } }.setPc
          t .idle)

theorem World.step_moves {w next : World T} {t : T} {act : Act}
    (stepped : w.step (t, act) = some next) : Moves w t act next := by
  cases act with
  | report count =>
      obtain ⟨free, same⟩ := Option.ite_none_right_eq_some.mp stepped
      cases same
      exact .report count free
  | next =>
      cases here : w.pc t with
      | idle =>
          simp only [World.step, World.next, here] at stepped
          cases stepped
      | load count =>
          simp only [World.step, World.next, here, Option.some.injEq] at stepped
          subst stepped
          split
          · exact .stale count here ‹_›
          · exact .load count here (Int32.not_le.mp ‹_›)
      | cas count prev =>
          simp only [World.step, World.next, here] at stepped
          split at stepped
          · rename_i same
            subst same
            cases stepped
            exact .swapped count here
          · cases stepped
            exact .retry count prev here ‹_›
      | add delta =>
          simp only [World.step, World.next, here, Option.some.injEq] at stepped
          subst stepped
          exact .added delta here

/-- The steps of a call with nobody else at the counter. -/
def observing (last : UInt32) (count : Nat) : List Act :=
  if delta (.ofNat count) last ≤ 0 then [.report count, .next]
  else [.report count, .next, .next, .next]

theorem observe_eq (d : DropCounter) (raw : UInt32) :
    d.observe raw = if delta raw d.last ≤ 0 then d
      else { last := raw, total := d.total + (delta raw d.last).toInt64.toUInt64 } :=
  rfl

/-- A call that nobody disturbs does what `DropCounter.observe` says. -/
theorem exec_observing {w : World T} {t : T} {count : Nat} (free : w.pc t = .idle) :
    ((system T).exec w ((observing w.counter.last count).map (t, ·))).map
        (fun next => (next.counter, next.pc)) =
      some (w.counter.observe (.ofNat count), w.pc) := by
  have back : Function.update w.pc t .idle = w.pc := by
    rw [← free, Function.update_eq_self]
  by_cases stale : delta (.ofNat count) w.counter.last ≤ 0
  · rw [observing, observe_eq, if_pos stale, if_pos stale]
    simp [system, World.step, World.next, World.setPc, free, stale, back]
  · rw [observing, observe_eq, if_neg stale, if_neg stale]
    simp [system, World.step, World.next, World.setPc, free, stale, back]

end Steps

/-! Differences of counts less than half the range apart. -/

private theorem toInt_delta (count accounted : Nat) :
    (delta (.ofNat count) (.ofNat accounted)).toInt =
      ((count : Int) - accounted).bmod (2 ^ 32) := by
  show (BitVec.ofNat 32 count - BitVec.ofNat 32 accounted).toInt = _
  rw [BitVec.toInt_sub, BitVec.toInt_ofNat', BitVec.toInt_ofNat', Int.sub_bmod_bmod,
    Int.bmod_sub_bmod]

private theorem toInt_delta_of_near {count accounted : Nat} (ahead : count < accounted + 2 ^ 31)
    (behind : accounted < count + 2 ^ 31) :
    (delta (.ofNat count) (.ofNat accounted)).toInt = (count : Int) - accounted := by
  rw [toInt_delta]
  apply Int.bmod_eq_of_le <;> omega

private theorem toNat_toUInt64_of_pos {d : Int32} (positive : 0 < d) :
    d.toInt64.toUInt64.toNat = d.toInt.toNat := by
  have nonneg : 0 ≤ d.toInt64 := by
    rw [Int64.le_iff_toInt_le, Int32.toInt_toInt64]
    exact Int.le_of_lt (Int32.lt_iff_toInt_lt.mp positive)
  rw [Int64.toNat_toUInt64_of_le nonneg]
  exact congrArg Int.toNat d.toInt_toInt64

/-- What a reader has moved `last` forward by and not added yet. -/
def Pc.pending : Pc → Nat
  | .add delta => delta.toInt.toNat
  | _ => 0

/-- The differences a reader has computed are positive. -/
def Pc.Forward : Pc → Prop
  | .cas count prev => 0 < delta (.ofNat count) prev
  | .add delta => 0 < delta
  | _ => True

/-- The count a reader may still account for. -/
def Pc.InHand (count : Nat) : Pc → Prop
  | .load c | .cas c _ => c = count
  | _ => False

def World.largest {T : Type} (w : World T) : Nat :=
  w.reported.foldr max 0

structure World.Counts {T : Type} [Fintype T] (w : World T) : Prop where
  last : w.counter.last = .ofNat w.accounted
  /-- The total is what is accounted for without what is still to be added. -/
  total : ∃ done, done + tally Finset.univ w.pc Pc.pending = w.accounted ∧
    w.counter.total.toNat = done % 2 ^ 64
  forward : ∀ t, (w.pc t).Forward
  genuine : w.accounted ∈ 0 :: w.reported
  handed : ∀ t count, (w.pc t).InHand count → count ∈ w.reported
  covered : ∀ count ∈ w.reported, count ≤ w.accounted ∨ ∃ t, (w.pc t).InHand count

section Invariant

variable {T : Type} [Fintype T] {w next : World T}

theorem World.Counts.start : (World.start : World T).Counts where
  last := rfl
  total := ⟨0, by simp [World.start, tally, Pc.pending], rfl⟩
  forward _ := trivial
  genuine := List.mem_cons_self
  handed _ _ held := held.elim
  covered _ member := (List.not_mem_nil member).elim

theorem World.Counts.accounted_le (counts : w.Counts) : w.accounted ≤ w.largest := by
  rcases List.mem_cons.mp counts.genuine with zero | member
  · rw [zero]
    exact Nat.zero_le _
  · exact List.le_max_of_le member (Nat.le_refl _)

/-- When no call is in progress everything reported is accounted for and added. -/
theorem World.Counts.settled (counts : w.Counts) (idle : ∀ t, w.pc t = .idle) :
    w.accounted = w.largest ∧ w.counter.total.toNat = w.accounted % 2 ^ 64 := by
  constructor
  · apply Nat.le_antisymm counts.accounted_le
    refine List.max_le_of_forall_le w.reported w.accounted fun count member => ?_
    rcases counts.covered count member with done | ⟨t, held⟩
    · exact done
    · rw [idle t] at held
      exact held.elim
  · obtain ⟨done, sum, total⟩ := counts.total
    have none_pending : tally Finset.univ w.pc Pc.pending = 0 :=
      Finset.sum_eq_zero fun t _ => by rw [idle t]; rfl
    rw [total, ← sum, none_pending, Nat.add_zero]

variable [DecidableEq T] {t : T} {act : Act}

/-- A reader moves on, and what it adds to the total or has still to add is what is
accounted for in addition. -/
theorem World.Counts.change (counts : w.Counts) {counter : DropCounter} {accounted : Nat}
    {reported : List Nat} {pc : Pc} (added : Nat)
    (last : counter.last = .ofNat accounted)
    (total : counter.total.toNat = (w.counter.total.toNat + added) % 2 ^ 64)
    (sum : added + pc.pending + w.accounted = (w.pc t).pending + accounted)
    (forward : pc.Forward) (genuine : accounted ∈ 0 :: reported)
    (later : w.accounted ≤ accounted) (more : w.reported ⊆ reported)
    (handed : ∀ count, pc.InHand count → count ∈ reported)
    (covered : ∀ count ∈ reported, count ∈ w.reported ∧ ¬(w.pc t).InHand count ∨
      count ≤ accounted ∨ pc.InHand count) :
    World.Counts { counter, accounted, reported, pc := Function.update w.pc t pc } := by
  refine ⟨last, ?_, fun other => ?_, genuine, fun other count held => ?_,
    fun count member => ?_⟩
  · obtain ⟨done, before, value⟩ := counts.total
    refine ⟨done + added, ?_, ?_⟩
    · rw [tally_split Pc.pending (Finset.mem_univ t)] at before
      rw [tally_update Pc.pending pc (Finset.mem_univ t)]
      show done + added + _ = accounted
      omega
    · show counter.total.toNat = _
      rw [total, value, Nat.mod_add_mod]
  · simp only [Function.update_apply]
    split_ifs with acting
    · subst acting
      exact forward
    · exact counts.forward other
  · simp only [Function.update_apply] at held
    split_ifs at held with acting
    · subst acting
      exact handed count held
    · exact more (counts.handed other count held)
  · rcases covered count member with ⟨old, free⟩ | done | held
    · rcases counts.covered count old with done | ⟨other, held⟩
      · exact .inl (Nat.le_trans done later)
      · have acting : other ≠ t := by
          rintro rfl
          exact free held
        exact .inr ⟨other, by simpa only [Function.update_of_ne acting] using held⟩
    · exact .inl done
    · exact .inr ⟨t, by simpa only [Function.update_self] using held⟩

theorem World.Counts.moves (counts : w.Counts) (allowed : near w (t, act) = true)
    (moved : Moves w t act next) : next.Counts := by
  have last := counts.last
  have same : w.counter.total.toNat = (w.counter.total.toNat + 0) % 2 ^ 64 :=
    (Nat.mod_eq_of_lt w.counter.total.toNat_lt).symm
  have reader := counts.handed t
  have forward := counts.forward t
  cases moved with
  | report count free =>
      refine counts.change 0 last same (by rw [free]; rfl) trivial ?_ (Nat.le_refl _)
        (List.subset_cons_self _ _) ?_ ?_
      · exact List.cons_subset_cons 0 (List.subset_cons_self _ _) counts.genuine
      · rintro _ rfl
        exact List.mem_cons_self
      · intro other member
        rcases List.mem_cons.mp member with rfl | old
        · exact .inr (.inr rfl)
        · exact .inl ⟨old, by rw [free]; exact id⟩
  | stale count here backward =>
      simp only [near, here, decide_eq_true_iff] at allowed
      have behind : count ≤ w.accounted := by
        rw [last, Int32.le_iff_toInt_le, toInt_delta_of_near allowed.1 allowed.2] at backward
        have zero : (0 : Int32).toInt = 0 := rfl
        omega
      refine counts.change 0 last same (by rw [here]; rfl) trivial counts.genuine
        (Nat.le_refl _) (List.Subset.refl _) (fun _ held => held.elim) ?_
      intro other member
      by_cases held : other = count
      · exact .inr (.inl (held ▸ behind))
      · exact .inl ⟨member, by rw [here]; exact fun same => held same.symm⟩
  | load count here ahead =>
      rw [here] at reader
      refine counts.change 0 last same (by rw [here]; rfl) ahead counts.genuine
        (Nat.le_refl _) (List.Subset.refl _) reader ?_
      intro other member
      by_cases held : count = other
      · exact .inr (.inr held)
      · exact .inl ⟨member, by rw [here]; exact held⟩
  | swapped count here =>
      simp only [near, here, decide_eq_true_iff] at allowed
      rw [here] at reader forward
      have difference := toInt_delta_of_near allowed.1 allowed.2
      rw [← last] at difference
      have ahead : (0 : Int) < (delta (.ofNat count) w.counter.last).toInt :=
        Int32.lt_iff_toInt_lt.mp forward
      have later : w.accounted ≤ count := by omega
      refine counts.change 0 rfl same ?_ forward (List.mem_cons_of_mem 0 (reader count rfl))
        later (List.Subset.refl _) (fun _ held => held.elim) ?_
      · rw [here]
        show 0 + (delta (.ofNat count) w.counter.last).toInt.toNat + w.accounted = 0 + count
        omega
      · intro other member
        by_cases held : other = count
        · exact .inr (.inl (Nat.le_of_eq held))
        · exact .inl ⟨member, by rw [here]; exact fun same => held same.symm⟩
  | retry count prev here lost =>
      rw [here] at reader
      refine counts.change 0 last same (by rw [here]; rfl) trivial counts.genuine
        (Nat.le_refl _) (List.Subset.refl _) reader ?_
      intro other member
      by_cases held : count = other
      · exact .inr (.inr held)
      · exact .inl ⟨member, by rw [here]; exact held⟩
  | added delta here =>
      rw [here] at forward
      refine counts.change delta.toInt.toNat last ?_ (by rw [here]; rfl) trivial
        counts.genuine (Nat.le_refl _) (List.Subset.refl _) (fun _ held => held.elim) ?_
      · rw [UInt64.toNat_add, toNat_toUInt64_of_pos forward]
      · intro other member
        exact .inl ⟨member, by rw [here]; exact id⟩

private theorem counts_of_reached (reached : ((system T).restrict near).Reachable w) :
    w.Counts := by
  refine reached.invariant World.Counts ?_ ?_
  · rintro w rfl
    exact .start
  · rintro w ⟨t, act⟩ next _ counts stepped
    obtain ⟨allowed, taken⟩ := System.restrict_step.mp stepped
    exact counts.moves allowed (World.step_moves taken)

/-- Only an addition changes the total, and it cannot pass what is accounted for. -/
theorem World.Counts.total_le (counts : w.Counts) (small : w.largest < 2 ^ 64)
    (moved : Moves w t act next) : w.counter.total ≤ next.counter.total := by
  cases moved with
  | added delta here =>
      obtain ⟨done, sum, total⟩ := counts.total
      have forward := counts.forward t
      rw [here] at forward
      have own : delta.toInt.toNat ≤ tally Finset.univ w.pc Pc.pending := by
        rw [tally_split Pc.pending (Finset.mem_univ t), here]
        exact Nat.le_add_right _ _
      have bounded : w.accounted ≤ w.largest := counts.accounted_le
      have sum : w.counter.total.toNat + delta.toInt64.toUInt64.toNat < 2 ^ 64 := by
        rw [total, toNat_toUInt64_of_pos forward]
        omega
      rw [UInt64.le_iff_toNat_le]
      show _ ≤ (w.counter.total + delta.toInt64.toUInt64).toNat
      rw [UInt64.toNat_add, Nat.mod_eq_of_lt sum]
      exact Nat.le_add_right _ _
  | _ => exact UInt64.le_refl _

end Invariant

/-- What is known of the total in a state, and of every step from it. -/
structure World.Recovers {T : Type} [DecidableEq T] (w : World T) : Prop where
  /-- Between calls the total is the largest true count, as a `uint64`. -/
  settled : (∀ t, w.pc t = .idle) → w.counter.total.toNat = w.largest % 2 ^ 64 ∧
    w.counter.last.toNat = w.counter.total.toNat % 2 ^ 32
  grows : w.largest < 2 ^ 64 → ∀ action next,
    ((system T).restrict near).step w action = some next →
    w.counter.total ≤ next.counter.total

/-- The counter recovers the kernel's count, up to the `2 ^ 64` its total can hold, from
reports in any order that are not half a range away when they are handled. -/
theorem drop_total_recovered {T : Type} [Fintype T] [DecidableEq T] {w : World T}
    (reached : ((system T).restrict near).Reachable w) : w.Recovers := by
  have counts := counts_of_reached reached
  constructor
  · intro idle
    obtain ⟨largest, total⟩ := counts.settled idle
    rw [counts.last, total, largest]
    refine ⟨rfl, ?_⟩
    rw [UInt32.toNat_ofNat', Nat.mod_mod_of_dvd _ (by decide)]
  · rintro small ⟨t, act⟩ next stepped
    exact counts.total_le small (World.step_moves (System.restrict_step.mp stepped).2)

/-- Two readers report counts out of order and across the end of the 32-bit range. -/
def crossing : List (Bool × Act) :=
  [(false, .report (2 ^ 31 - 1)), (false, .next), (false, .next), (false, .next),
    (true, .report (2 ^ 32 - 2)), (true, .next), (false, .report (2 ^ 32 - 16)),
    (false, .next), (false, .next), (true, .next), (true, .next), (true, .next), (true, .next),
    (false, .next), (false, .report (2 ^ 32 - 16)), (false, .next),
    (true, .report (2 ^ 32 + 5)), (true, .next), (true, .next), (true, .next)]

theorem drop_total_recovered_crossing :
    ∃ w, ((system Bool).restrict near).exec .start crossing = some w ∧
      (w.counter = ⟨5, 4294967301⟩ ∧ w.largest = 2 ^ 32 + 5 ∧ ∀ t, w.pc t = .idle) ∧
      w.Recovers := by
  have checked : (((system Bool).restrict near).exec .start crossing).any
      (fun w => decide (w.counter = ⟨5, 4294967301⟩ ∧ w.largest = 2 ^ 32 + 5 ∧
        ∀ t, w.pc t = .idle)) = true := by
    decide +kernel
  obtain ⟨w, executed, facts⟩ := System.exec_of_check _ checked
  exact ⟨w, executed, of_decide_eq_true facts,
    drop_total_recovered (.exec (.initial rfl) executed)⟩

section Climb

variable {T : Type} [Fintype T] [DecidableEq T] {w : World T}

/-- A report that is ahead is accounted for by a call that nobody disturbs. -/
theorem reached_observed (reached : ((system T).restrict near).Reachable w)
    (idle : ∀ t, w.pc t = .idle) (t : T) {count : Nat} (ahead : w.accounted < count)
    (close : count < w.accounted + 2 ^ 31) :
    ∃ next, ((system T).restrict near).Reachable next ∧ (∀ t, next.pc t = .idle) ∧
      next.accounted = count := by
  have counts := counts_of_reached reached
  have forward : ¬delta (.ofNat count) w.counter.last ≤ 0 := by
    rw [counts.last, Int32.le_iff_toInt_le, toInt_delta_of_near close (by omega)]
    have zero : (0 : Int32).toInt = 0 := rfl
    omega
  have back : Function.update w.pc t .idle = w.pc := by
    rw [← idle t, Function.update_eq_self]
  have executed : ((system T).restrict near).exec w
      [(t, .report count), (t, .next), (t, .next), (t, .next)] = some {
        counter := {
          last := .ofNat count
          total := w.counter.total +
            (delta (.ofNat count) w.counter.last).toInt64.toUInt64 }
        accounted := count
        reported := count :: w.reported
        pc := w.pc } := by
    have above : count < w.accounted + 2147483648 := close
    have below : w.accounted < count + 2147483648 := by omega
    simp [System.restrict, near, system, World.step, World.next, World.setPc, idle t, forward,
      above, below, back]
  exact ⟨_, reached.exec executed, idle, rfl⟩

/-- The true count can climb to any multiple of a quarter of the 32-bit range. -/
theorem reached_climb (t : T) (n : Nat) :
    ∃ w : World T, ((system T).restrict near).Reachable w ∧ (∀ t, w.pc t = .idle) ∧
      w.accounted = n * 2 ^ 30 := by
  induction n with
  | zero => exact ⟨.start, .initial rfl, fun _ => rfl, rfl⟩
  | succ n ih =>
      obtain ⟨w, reached, idle, accounted⟩ := ih
      exact reached_observed reached idle t (by omega) (by omega)

end Climb

/-- A total cannot hold the largest true count once that is `2 ^ 64`. -/
theorem drop_total_wraps :
    ∃ w : World (Fin 1), ((system (Fin 1)).restrict near).Reachable w ∧
      (∀ t, w.pc t = .idle) ∧ w.largest = 2 ^ 64 ∧ w.counter.total.toNat ≠ w.largest := by
  obtain ⟨w, reached, idle, accounted⟩ := reached_climb (0 : Fin 1) (2 ^ 34)
  have count : w.accounted = 2 ^ 64 := accounted.trans (pow_add 2 34 30).symm
  obtain ⟨largest, total⟩ := (counts_of_reached reached).settled idle
  refine ⟨w, reached, idle, largest.symm.trans count, ?_⟩
  rw [total, ← largest, count]
  decide

end Netx.Udp.Drops
