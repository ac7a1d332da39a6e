import Netx.Limit.AllOrNothing
import Netx.Limit.SharedProperties

/-!
# A call that nobody interrupts

The steps of a thread that is left alone add up to the calls of `Limiter`: its
`TryAcquire` comes to the same answer and the same leaves, whatever calls the other
threads have been stopped in, and its `Release` gives back what was acquired.
-/

set_option autoImplicit false

namespace Netx.Limit.Shared

open Transition Limiter

section Machine

variable {T L : Type} [DecidableEq T]

def World.put (w : World T L) (t : T) (leaf : L → Concurrency) (pc : Pc L) : World T L where
  leaf
  held := w.held
  pc := Function.update w.pc t pc

theorem World.put_setPc (w : World T L) (t : T) (leaf : L → Concurrency) (pc pc' : Pc L) :
    (w.put t leaf pc).setPc t pc' = w.put t leaf pc' := by
  simp only [World.put, World.setPc, Function.update_idem]

theorem World.put_pc (w : World T L) (t : T) (leaf : L → Concurrency) (pc : Pc L) :
    (w.put t leaf pc).pc t = pc := by
  simp only [World.put, Function.update_self]

theorem World.put_setLeaf [DecidableEq L] (w : World T L) (t : T) (leaf : L → Concurrency)
    (pc pc' : Pc L) (c : L) (value : Concurrency) :
    ((w.put t leaf pc).setLeaf c value).setPc t pc' =
      w.put t (Function.update leaf c value) pc' := by
  simp only [World.put, World.setLeaf, World.setPc, Function.update_idem]

variable [DecidableEq L] {t : T} {w start middle final : World T L}

def Runs (t : T) (start final : World T L) : Prop :=
  ∃ n, (system T L).exec start (.replicate n (t, .next)) = some final

theorem Runs.refl : Runs t start start :=
  ⟨0, rfl⟩

theorem Runs.step (stepped : start.next t = some middle) (rest : Runs t middle final) :
    Runs t start final := by
  obtain ⟨n, executed⟩ := rest
  exact ⟨n + 1, System.exec_step stepped executed⟩

theorem Runs.trans (front : Runs t start middle) (back : Runs t middle final) :
    Runs t start final := by
  obtain ⟨n, first⟩ := front
  obtain ⟨m, second⟩ := back
  refine ⟨n + m, ?_⟩
  rw [List.replicate_add, System.exec_append, first]
  exact second

theorem World.next_advance {pc pc' : Pc L} (here : w.pc t = pc)
    (advanced : pc.advance = some pc') : w.next t = some (w.setPc t pc') := by
  unfold World.next
  rw [here]
  unfold Pc.advance at advanced
  split at advanced <;> cases advanced <;> rfl

theorem Runs.advance {leaf : L → Concurrency} {pc pc' : Pc L} (advanced : pc.advance = some pc')
    (rest : Runs t (w.put t leaf pc') final) : Runs t (w.put t leaf pc) final := by
  refine .step (World.next_advance (w.put_pc t leaf pc) advanced) ?_
  rwa [World.put_setPc]

end Machine

section Releasing

variable {T L : Type} [DecidableEq T] [DecidableEq L] {t : T} {w : World T L}

private theorem taking_release (base : L → Concurrency) (c : L) :
    Function.update (taking base [c]) c
      { taking base [c] c with inUse := (taking base [c] c).inUse - 1 } = base := by
  rw [taking_singleton, Function.update_idem, Function.update_self]
  simp only [Int.add_sub_cancel]
  exact Function.update_eq_self c base

mutual

theorem releases : (l : Limiter L) → (base : L → Concurrency) →
    (∀ c, 0 ≤ (base c).inUse) → (work : List (Limiter L)) →
    (undoing : Option (Limiter L × List (Loop L))) →
    Runs t (w.put t (taking base l.occurrences) (.release (l :: work) undoing))
      (w.put t base (.release work undoing))
  | .leaf c, base, nonneg, work, undoing => by
      have least := nonneg c
      have held : ¬(taking base [c] c).inUse - 1 < 0 := by
        simp only [taking, List.count_singleton_self]
        omega
      refine .step ?_ .refl
      rw [occurrences, World.next, World.put_pc]
      show some _ = _
      rw [World.put_setLeaf]
      show some (w.put t (Function.update (taking base [c]) c
        { taking base [c] c with inUse := (taking base [c] c).inUse - 1 })
        (if (taking base [c] c).inUse - 1 < 0 then _ else _)) = _
      rw [if_neg held, taking_release]
  | .all members, base, nonneg, work, undoing => by
      exact .advance rfl (releasesAll members base nonneg work undoing)

private theorem releasesAll : (members : List (Limiter L)) → (base : L → Concurrency) →
    (∀ c, 0 ≤ (base c).inUse) → (work : List (Limiter L)) →
    (undoing : Option (Limiter L × List (Loop L))) →
    Runs t (w.put t (taking base (allOccurrences members)) (.release (members ++ work) undoing))
      (w.put t base (.release work undoing))
  | [], base, _, work, undoing => by
      rw [allOccurrences, taking_nil]
      exact .refl
  | l :: rest, base, nonneg, work, undoing => by
      have first := releases l (taking base (allOccurrences rest)) (taking_nonneg nonneg _)
        (rest ++ work) undoing
      rw [allOccurrences, taking_append, taking_comm]
      exact first.trans (releasesAll rest base nonneg work undoing)

end

end Releasing

section Acquiring

variable {T L : Type} [DecidableEq T] [DecidableEq L] {t : T} {w : World T L}

def loopPoint (acquired : List (Limiter L)) (loops : List (Loop L)) :
    List (Limiter L) → Pc L
  | [] => .acquired (.all acquired.reverse) loops
  | l :: rest => .enter l (⟨acquired, rest⟩ :: loops)

variable {members : List (Limiter L)} {loops : List (Loop L)} {l : Limiter L}
  {leaf : L → Concurrency}

theorem Runs.enterAll {final : World T L}
    (rest : Runs t (w.put t leaf (loopPoint [] loops members)) final) :
    Runs t (w.put t leaf (.enter (.all members) loops)) final := by
  cases members with
  | nil => exact .advance rfl rest
  | cons l members => exact .advance rfl rest

theorem Runs.goesOn {acquired : List (Limiter L)} {final : World T L}
    (rest : Runs t (w.put t leaf (loopPoint (l :: acquired) loops members)) final) :
    Runs t (w.put t leaf (.acquired l (⟨acquired, members⟩ :: loops))) final := by
  cases members with
  | nil =>
      refine .advance rfl ?_
      rw [Loop.receiver, ← List.reverse_cons]
      exact rest
  | cons next members => exact .advance rfl rest

theorem Runs.refuses {base : L → Concurrency} {acquired : List (Limiter L)}
    (nonneg : ∀ c, 0 ≤ (base c).inUse) :
    Runs t (w.put t (taking base (allOccurrences acquired))
        (.refused l (⟨acquired, members⟩ :: loops)))
      (w.put t base (.refused (.all (acquired.reverse ++ l :: members)) loops)) := by
  have undone := @releasesAll T L _ _ t w acquired base nonneg []
    (some (.all (acquired.reverse ++ l :: members), loops))
  rw [List.append_nil] at undone
  refine .advance rfl (undone.trans ?_)
  exact .advance rfl .refl

/-- A call acquires all permits if they fit, and else refuses with the leaves as in
`before`. -/
def Ends (t : T) (start w : World T L) (before leaf : L → Concurrency) (taken : List L)
    (l : Limiter L) (loops : List (Loop L)) : Prop :=
  Fits leaf taken ∧ Runs t start (w.put t (taking leaf taken) (.acquired l loops)) ∨
    ¬Fits leaf taken ∧ Runs t start (w.put t before (.refused l loops))

theorem Runs.ends {start middle : World T L} {before : L → Concurrency} {taken : List L}
    (front : Runs t start middle) (ends : Ends t middle w before leaf taken l loops) :
    Ends t start w before leaf taken l loops := by
  rcases ends with ⟨fits, back⟩ | ⟨refused, back⟩
  · exact .inl ⟨fits, front.trans back⟩
  · exact .inr ⟨refused, front.trans back⟩

private theorem acquires_leaf (c : L) (leaf : L → Concurrency) (loops : List (Loop L)) :
    Ends t (w.put t leaf (.enter (.leaf c) loops)) w leaf leaf [c] (.leaf c) loops := by
  have fits : Fits leaf [c] ↔ (leaf c).inUse + 1 ≤ (leaf c).max := by simp [Fits]
  have entered : Runs t (w.put t leaf (.enter (.leaf c) loops)) (w.put t leaf (.load c loops)) :=
    .advance rfl .refl
  refine entered.ends ?_
  by_cases room : (leaf c).inUse + 1 ≤ (leaf c).max
  · refine .inl ⟨fits.mpr room, ?_⟩
    have accepts : (leaf c).full (leaf c).inUse = false := decide_eq_false (by omega)
    have loaded : (w.put t leaf (.load c loops)).next t =
        some (w.put t leaf (.cas c (leaf c).inUse loops)) := by
      rw [World.next, World.put_pc]
      show (if (leaf c).full (leaf c).inUse = true then _ else _) = _
      rw [accepts, if_neg Bool.false_ne_true, World.put_setPc]
      rfl
    have swapped : (w.put t leaf (.cas c (leaf c).inUse loops)).next t =
        some (w.put t (taking leaf [c]) (.acquired (.leaf c) loops)) := by
      have swap : ((w.put t leaf (.cas c (leaf c).inUse loops)).leaf c).compareAndSwap
          (leaf c).inUse = (true, { leaf c with inUse := (leaf c).inUse + 1 }) := if_pos rfl
      simp only [World.next, World.put_pc, swap]
      rw [World.put_setLeaf, taking_singleton]
    exact .step loaded (.step swapped .refl)
  · refine .inr ⟨mt fits.mp room, .step ?_ .refl⟩
    have full : (leaf c).full (leaf c).inUse = true := decide_eq_true (by omega)
    rw [World.next, World.put_pc]
    show (if (leaf c).full (leaf c).inUse = true then _ else _) = _
    rw [if_pos full, World.put_setPc]

mutual

theorem acquires : (l : Limiter L) → (now : L → Concurrency) → (∀ c, 0 ≤ (now c).inUse) →
    (loops : List (Loop L)) →
    Ends t (w.put t now (.enter l loops)) w now now l.occurrences l loops
  | .leaf c, now, _, loops => by
      rw [occurrences]
      exact acquires_leaf c now loops
  | .all members, now, nonneg, loops => by
      have whole := acquiresAll members [] now nonneg loops
      rw [allOccurrences, taking_nil, List.reverse_nil, List.nil_append] at whole
      rw [occurrences]
      exact (Runs.enterAll .refl).ends whole

private theorem acquiresAll : (members acquired : List (Limiter L)) → (base : L → Concurrency) →
    (∀ c, 0 ≤ (base c).inUse) → (loops : List (Loop L)) →
    Ends t (w.put t (taking base (allOccurrences acquired)) (loopPoint acquired loops members)) w
      base (taking base (allOccurrences acquired)) (allOccurrences members)
      (.all (acquired.reverse ++ members)) loops
  | [], acquired, base, _, loops => by
      rw [allOccurrences, List.append_nil]
      refine .inl ⟨fun c member => ?_, ?_⟩
      · cases member
      · rw [taking_nil]
        exact .refl
  | l :: rest, acquired, base, nonneg, loops => by
      have here := taking_nonneg nonneg (allOccurrences acquired)
      rw [allOccurrences]
      rcases acquires l (taking base (allOccurrences acquired)) here (⟨acquired, rest⟩ :: loops)
        with ⟨fits, taken⟩ | ⟨refused, kept⟩
      · have further := acquiresAll rest (l :: acquired) base nonneg loops
        rw [allOccurrences, taking_append, taking_comm, List.reverse_cons, List.append_assoc,
          List.singleton_append] at further
        have reached := taken.trans (Runs.goesOn .refl)
        rcases further with ⟨more, ends⟩ | ⟨less, ends⟩
        · refine .inl ⟨fits_append.mpr ⟨fits, more⟩, ?_⟩
          rw [taking_append]
          exact reached.trans ends
        · exact .inr ⟨fun whole => less (fits_append.mp whole).2, reached.trans ends⟩
      · exact .inr ⟨fun whole => refused (fits_append.mp whole).1,
          kept.trans (Runs.refuses nonneg)⟩

end

end Acquiring

section Calls

variable {T L : Type} [DecidableEq L] {w : World T L}

theorem World.Fair.split [Fintype T] (fair : w.Fair) {holder : T} {place : Nat} {l : Limiter L}
    (found : (w.held holder)[place]? = some l) :
    ∃ base : L → Concurrency, (∀ c, 0 ≤ (base c).inUse) ∧ w.leaf = taking base l.occurrences := by
  refine ⟨fun c => { w.leaf c with inUse := (w.leaf c).inUse - l.occurrences.count c },
    fun c => ?_, funext fun c => ?_⟩
  · have part : (l.occurrences.count c : Int) ≤ permits c (w.held holder) := by
      have whole := permits_eraseIdx c found
      have rest := permits_nonneg c ((w.held holder).eraseIdx place)
      omega
    have all : permits c (w.held holder) ≤ tally Finset.univ w.held (permits c) :=
      Finset.single_le_sum (f := fun t => permits c (w.held t))
        (fun t _ => permits_nonneg c _) (Finset.mem_univ holder)
    have calls : 0 ≤ tally Finset.univ w.pc (Pc.taken c) :=
      Finset.sum_nonneg fun t _ => Pc.taken_nonneg c _
    have total := fair.total c
    show 0 ≤ (w.leaf c).inUse - (l.occurrences.count c : Int)
    omega
  · simp only [taking, Int.sub_add_cancel]

variable [DecidableEq T]

/-- A `TryAcquire` that is left alone answers as the sequential limiter does, leaves the
leaves as that one does, holds the limiter if it succeeded, and moves nobody else. -/
def AcquiresAlone (w : World T L) (t : T) (l : Limiter L) : Prop :=
  ∃ n ok final,
    (system T L).exec w ((t, .call l) :: .replicate n (t, .next)) = some final ∧
      l.tryAcquire Limiter.permits w.leaf = (some ok, final.leaf) ∧
      final.pc = Function.update w.pc t (.returned (.took ok)) ∧
      final.held = if ok then Function.update w.held t (l :: w.held t) else w.held

/-- So does the `Release` of a limiter that somebody holds, and it does not panic. -/
def ReleasesAlone (w : World T L) (t holder : T) (place : Nat) (l : Limiter L) : Prop :=
  ∃ n final,
    (system T L).exec w ((t, .give holder place) :: .replicate n (t, .next)) = some final ∧
      l.release Limiter.permits w.leaf = (false, final.leaf) ∧
      final.pc = Function.update w.pc t (.returned .released) ∧
      final.held = Function.update w.held holder ((w.held holder).eraseIdx place)

structure Alone (w : World T L) (t : T) : Prop where
  acquires : ∀ l, AcquiresAlone w t l
  releases : ∀ holder place l, (w.held holder)[place]? = some l →
    ReleasesAlone w t holder place l

private theorem alone_acquires {t : T} (free : (w.pc t).free = true)
    (nonneg : ∀ c, 0 ≤ (w.leaf c).inUse) (l : Limiter L) : AcquiresAlone w t l := by
  have called : w.step (t, .call l) = some (w.put t w.leaf (.enter l [])) := if_pos free
  have sequential := tryAcquire_settles l w.leaf nonneg
  have machine : Ends t (w.put t w.leaf (.enter l [])) w w.leaf w.leaf l.occurrences l [] :=
    acquires l w.leaf nonneg []
  rcases machine with ⟨fits, ends⟩ | ⟨refused, ends⟩
  · have took : Runs t (w.put t (taking w.leaf l.occurrences) (.acquired l []))
        ((w.setHeld t (l :: w.held t)).put t (taking w.leaf l.occurrences)
          (.returned (.took true))) := by
      refine .step ?_ .refl
      rw [World.next, World.put_pc]
      simp only [World.put, World.setPc, World.setHeld, Function.update_idem]
    obtain ⟨n, executed⟩ := ends.trans took
    refine ⟨n, true, _, System.exec_step called executed, ?_, rfl, rfl⟩
    rcases sequential with ⟨_, same⟩ | ⟨not, _⟩
    · exact same
    · exact (not fits).elim
  · have answered : Runs t (w.put t w.leaf (.refused l []))
        (w.put t w.leaf (.returned (.took false))) :=
      .advance rfl .refl
    obtain ⟨n, executed⟩ := ends.trans answered
    refine ⟨n, false, _, System.exec_step called executed, ?_, rfl, rfl⟩
    rcases sequential with ⟨fits, _⟩ | ⟨_, same⟩
    · exact (refused fits).elim
    · exact same

variable [Fintype T]

theorem World.Fair.alone_releases (fair : w.Fair) {t holder : T} {place : Nat} {l : Limiter L}
    (free : (w.pc t).free = true) (found : (w.held holder)[place]? = some l) :
    ReleasesAlone w t holder place l := by
  obtain ⟨base, nonneg, leaves⟩ := fair.split found
  let after := w.setHeld holder ((w.held holder).eraseIdx place)
  have given : w.step (t, .give holder place) =
      some (after.put t (taking base l.occurrences) (.release [l] none)) := by
    simp only [World.step, found, free, if_true]
    rw [← leaves]
    rfl
  have done : Runs t (after.put t base (.release [] none))
      (after.put t base (.returned .released)) :=
    .advance rfl .refl
  obtain ⟨n, executed⟩ := (releases l base nonneg [] none).trans done
  refine ⟨n, _, System.exec_step given executed, ?_, rfl, rfl⟩
  rw [leaves]
  exact release_taking l base nonneg

/-- The machine of the threads refines the sequential limiters: a call that nobody
interrupts is one call of theirs. -/
theorem alone_agrees (reached : (system T L).Reachable w) {t : T}
    (free : (w.pc t).free = true) : Alone w t := by
  have fair := fair_of_reached reached
  exact ⟨alone_acquires free fair.lower, fun _ _ _ found => fair.alone_releases free found⟩

theorem alone_agrees_beside :
    ∃ w, (system Bool Bool).exec (.start fun _ => 1)
        ((false, .call (.all [.leaf false, .leaf true])) :: .replicate 5 (false, .next)) =
          some w ∧ (w.leaf false).inUse = 1 ∧ Alone w true := by
  have checked : ((system Bool Bool).exec (.start fun _ => 1)
      ((false, .call (.all [.leaf false, .leaf true])) :: .replicate 5 (false, .next))).any
        (fun w => decide ((w.leaf false).inUse = 1 ∧ (w.pc true).free = true)) = true := by
    decide +kernel
  obtain ⟨w, executed, facts⟩ := System.exec_of_check _ checked
  obtain ⟨used, free⟩ := of_decide_eq_true facts
  exact ⟨w, executed, used,
    alone_agrees (.exec (.initial ⟨fun _ => 1, fun _ => rfl, rfl⟩) executed) free⟩

end Calls

end Netx.Limit.Shared
