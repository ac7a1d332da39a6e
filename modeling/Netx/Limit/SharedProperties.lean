import Netx.Limit.Shared
import Netx.Transition.Tally

/-!
# Shared limiters in any interleaving

Every permit of a leaf is accounted for: it belongs to a limiter that a thread holds, to
the part of a tree that a call has acquired so far, or to what a call is giving back.
Whatever the interleaving, no leaf goes beyond its maximum, no `Release` panics and a
refused call keeps nothing.
-/

set_option autoImplicit false

namespace Netx.Limit.Shared

open Transition

section Permits

variable {L : Type} [DecidableEq L] (c : L)

/-- The permits of a leaf that a list of limiters takes. -/
def permits (ls : List (Limiter L)) : Int :=
  (ls.map fun l => (l.occurrences.count c : Int)).sum

@[simp] theorem permits_nil : permits c [] = 0 := rfl

private theorem permits_cons (l : Limiter L) (ls : List (Limiter L)) :
    permits c (l :: ls) = (l.occurrences.count c : Int) + permits c ls := by
  rw [permits, List.map_cons, List.sum_cons, permits]

@[simp] theorem permits_append (front back : List (Limiter L)) :
    permits c (front ++ back) = permits c front + permits c back := by
  rw [permits, List.map_append, List.sum_append, permits, permits]

@[simp] theorem permits_reverse (ls : List (Limiter L)) :
    permits c ls.reverse = permits c ls := by
  rw [permits, List.map_reverse, List.sum_reverse, permits]

private theorem count_allOccurrences (members : List (Limiter L)) :
    ((Limiter.allOccurrences members).count c : Int) = permits c members := by
  induction members with
  | nil => simp [Limiter.allOccurrences]
  | cons l members ih =>
      rw [Limiter.allOccurrences, List.count_append, Nat.cast_add, ih, permits_cons]

@[simp] theorem permits_all (members : List (Limiter L)) (ls : List (Limiter L)) :
    permits c (.all members :: ls) = permits c members + permits c ls := by
  rw [permits_cons, Limiter.occurrences, count_allOccurrences]

private theorem permits_leaf (d : L) (ls : List (Limiter L)) :
    permits c (.leaf d :: ls) = (if d = c then 1 else 0) + permits c ls := by
  rw [permits_cons, Limiter.occurrences, List.count_singleton]
  by_cases same : d = c <;> simp [same]

theorem permits_eraseIdx {ls : List (Limiter L)} {place : Nat} {l : Limiter L}
    (found : ls[place]? = some l) :
    permits c ls = (l.occurrences.count c : Int) + permits c (ls.eraseIdx place) := by
  obtain ⟨inside, rfl⟩ := List.getElem?_eq_some_iff.mp found
  rw [permits, permits, ← List.eraseIdx_map,
    ← List.CommMonoid.add_sum_eraseIdx (i := place) (by simpa using inside), List.getElem_map]

theorem permits_nonneg (ls : List (Limiter L)) : 0 ≤ permits c ls :=
  List.sum_nonneg (by simp)

def loopPermits (loops : List (Loop L)) : Int :=
  (loops.map fun loop => permits c loop.acquired).sum

private theorem loopPermits_cons (loop : Loop L) (loops : List (Loop L)) :
    loopPermits c (loop :: loops) = permits c loop.acquired + loopPermits c loops := by
  rw [loopPermits, List.map_cons, List.sum_cons, loopPermits]

private theorem loopPermits_nonneg (loops : List (Loop L)) : 0 ≤ loopPermits c loops :=
  List.sum_nonneg (by simp [permits_nonneg])

/-- The permits that a call in progress has taken and not given back. -/
def Pc.taken : Pc L → Int
  | .enter _ loops | .load _ loops | .cas _ _ loops | .refused _ loops => loopPermits c loops
  | .acquired l loops => permits c [l] + loopPermits c loops
  | .release work none => permits c work
  | .release work (some (_, loops)) => permits c work + loopPermits c loops
  | .idle | .restore _ | .returned _ => 0

theorem Pc.taken_nonneg (pc : Pc L) : 0 ≤ pc.taken c := by
  cases pc with
  | enter | load | cas | refused => exact loopPermits_nonneg c _
  | acquired => exact add_nonneg (permits_nonneg c _) (loopPermits_nonneg c _)
  | release work undoing =>
      cases undoing with
      | none => exact permits_nonneg c _
      | some => exact add_nonneg (permits_nonneg c _) (loopPermits_nonneg c _)
  | idle | restore | returned => exact le_rfl

theorem Pc.taken_free {pc : Pc L} (free : pc.free = true) : pc.taken c = 0 := by
  cases pc with
  | idle | returned => rfl
  | _ => cases free

theorem Pc.taken_release (d : L) (work : List (Limiter L))
    (undoing : Option (Limiter L × List (Loop L))) :
    (Pc.release (.leaf d :: work) undoing).taken c =
      (if d = c then 1 else 0) + (Pc.release work undoing).taken c := by
  cases undoing with
  | none => exact permits_leaf c d work
  | some inside =>
      simp only [Pc.taken, permits_leaf]
      omega

/-- Between its atomic operations a call only passes on what it has taken. -/
theorem Pc.advance_taken {pc pc' : Pc L} (advanced : pc.advance = some pc') :
    pc'.taken c = pc.taken c := by
  have split (l : Limiter L) (before : List (Limiter L)) :
      permits c (l :: before) = permits c [l] + permits c before :=
    permits_append c [l] before
  unfold Pc.advance at advanced
  split at advanced <;> cases advanced
  · rfl
  · simp [Pc.taken]
  · simp [Pc.taken, loopPermits_cons]
  · rename_i l before next rest loops
    simp only [Pc.taken, loopPermits_cons, split l before]
    omega
  · simp only [Pc.taken, Loop.receiver, permits_all, permits_append, permits_reverse,
      permits_nil, loopPermits_cons]
    omega
  · rfl
  · simp only [Pc.taken, loopPermits_cons]
  · rfl
  · simp [Pc.taken]
  · rename_i members work undoing
    cases undoing <;> simp [Pc.taken]

end Permits

section Receivers

variable {L : Type}

def outermost (l : Limiter L) : List (Loop L) → Limiter L
  | [] => l
  | loop :: loops => outermost (loop.receiver l) loops

def Pc.called : Pc L → Option (Limiter L)
  | .enter l loops | .acquired l loops | .refused l loops => some (outermost l loops)
  | .load c loops | .cas c _ loops => some (outermost (.leaf c) loops)
  | .release _ undoing => undoing.map fun (l, loops) => outermost l loops
  | .idle | .restore _ | .returned _ => none

theorem Pc.advance_called {pc pc' : Pc L} {root : Limiter L} (called : pc.called = some root)
    (advanced : pc.advance = some pc') :
    pc'.called = some root ∨ pc' = .returned (.took false) := by
  unfold Pc.advance at advanced
  split at advanced <;> cases advanced
  · exact .inl called
  · exact .inl called
  · exact .inl called
  · refine .inl ?_
    rw [← called]
    simp [Pc.called, outermost, Loop.receiver]
  · exact .inl called
  · exact .inr rfl
  · exact .inl called
  · cases called
  · exact .inl called
  · exact .inl called

end Receivers

section Fairness

variable {T L : Type}

/-- What a thread knows of a leaf that it has loaded. -/
def Pc.Fits (leaf : L → Concurrency) : Pc L → Prop
  | .cas c loaded _ => loaded < (leaf c).max
  | .restore _ | .returned .panicked => False
  | _ => True

variable {pc : Pc L} {leaf : L → Concurrency}

theorem Pc.Fits.mono {leaf' : L → Concurrency} (fits : pc.Fits leaf)
    (same : ∀ c, (leaf' c).max = (leaf c).max) : pc.Fits leaf' := by
  cases pc with
  | cas c loaded loops =>
      show loaded < (leaf' c).max
      rw [same]
      exact fits
  | restore => exact fits
  | returned reply => cases reply <;> exact fits
  | _ => trivial

theorem Pc.Fits.advance {pc' : Pc L} (advanced : pc.advance = some pc') : pc'.Fits leaf := by
  unfold Pc.advance at advanced
  split at advanced <;> cases advanced <;> trivial

variable [DecidableEq L]

structure World.Fair [Fintype T] (w : World T L) : Prop where
  upper : ∀ c, (w.leaf c).inUse ≤ (w.leaf c).max
  total : ∀ c, (w.leaf c).inUse =
    tally Finset.univ w.held (permits c) + tally Finset.univ w.pc (Pc.taken c)
  fits : ∀ t, (w.pc t).Fits w.leaf

variable {w : World T L}

section Sums

variable [Fintype T]

theorem World.Fair.taken_le (fair : w.Fair) (c : L) (t : T) :
    (w.pc t).taken c ≤ (w.leaf c).inUse := by
  have own : (w.pc t).taken c ≤ tally Finset.univ w.pc (Pc.taken c) :=
    Finset.single_le_sum (f := fun t => (w.pc t).taken c)
      (fun t _ => Pc.taken_nonneg c _) (Finset.mem_univ t)
  have held : 0 ≤ tally Finset.univ w.held (permits c) :=
    Finset.sum_nonneg fun t _ => permits_nonneg c _
  have total := fair.total c
  omega

theorem World.Fair.lower (fair : w.Fair) (c : L) : 0 ≤ (w.leaf c).inUse := by
  rw [fair.total c]
  exact add_nonneg (Finset.sum_nonneg fun t _ => permits_nonneg c _)
    (Finset.sum_nonneg fun t _ => Pc.taken_nonneg c _)

theorem World.Fair.calm (fair : w.Fair) (t : T) :
    w.pc t ≠ .returned .panicked ∧ ∀ c, w.pc t ≠ .restore c := by
  have fits := fair.fits t
  refine ⟨fun panicked => ?_, fun c restores => ?_⟩
  · rw [panicked] at fits
    exact fits
  · rw [restores] at fits
    exact fits

theorem World.Fair.start {max : L → Int} (positive : ∀ c, 0 < max c) :
    (World.start max : World T L).Fair where
  upper c := (positive c).le
  total c := by simp [World.start, tally, Pc.taken]
  fits _ := trivial

end Sums

variable [DecidableEq T] [Fintype T] {next : World T L} {t : T} {act : Act T L}

/-- One thread's point and one thread's holding change, and every leaf by as much. -/
theorem World.Fair.change (fair : w.Fair) {holder : T} {held : List (Limiter L)}
    (same : ∀ c, (leaf c).max = (w.leaf c).max)
    (sum : ∀ c, (leaf c).inUse = (w.leaf c).inUse + (permits c held - permits c (w.held holder)) +
      (pc.taken c - (w.pc t).taken c)) (upper : ∀ c, (leaf c).inUse ≤ (leaf c).max)
    (fits : pc.Fits leaf) :
    World.Fair {
      leaf
      held := Function.update w.held holder held
      pc := Function.update w.pc t pc } := by
  refine ⟨upper, fun c => ?_, fun other => ?_⟩
  · have total := fair.total c
    have changed := sum c
    simp only [tally_change (permits c) held (Finset.mem_univ holder),
      tally_change (Pc.taken c) pc (Finset.mem_univ t)]
    omega
  · simp only [Function.update_apply]
    split_ifs with here
    · subst here
      exact fits
    · exact (fair.fits other).mono same

theorem World.Fair.apply (fair : w.Fair) (same : ∀ c, (leaf c).max = (w.leaf c).max)
    (sum : ∀ c, (leaf c).inUse = (w.leaf c).inUse + (pc.taken c - (w.pc t).taken c))
    (upper : ∀ c, (leaf c).inUse ≤ (leaf c).max) (fits : pc.Fits leaf) :
    World.Fair { leaf, held := w.held, pc := Function.update w.pc t pc } := by
  have changed : World.Fair {
      leaf
      held := Function.update w.held t (w.held t)
      pc := Function.update w.pc t pc } := by
    refine fair.change same (fun c => ?_) upper fits
    have here := sum c
    omega
  rwa [Function.update_eq_self] at changed

theorem World.Fair.move (fair : w.Fair) (taken : ∀ c, pc.taken c = (w.pc t).taken c)
    (fits : pc.Fits w.leaf) : (w.setPc t pc).Fair := by
  refine fair.apply (fun _ => rfl) (fun c => ?_) fair.upper fits
  rw [taken, sub_self, add_zero]

theorem World.Fair.atLeaf (fair : w.Fair) {d : L} {inUse : Int} (taken : ∀ c, pc.taken c =
      (w.pc t).taken c + if d = c then inUse - (w.leaf d).inUse else 0)
    (upper : inUse ≤ (w.leaf d).max) (fits : pc.Fits w.leaf) :
    ((w.setLeaf d { w.leaf d with inUse }).setPc t pc).Fair := by
  have same : ∀ c, ((w.setLeaf d { w.leaf d with inUse }).leaf c).max = (w.leaf c).max := by
    intro c
    by_cases here : c = d
    · rw [here, World.setLeaf_self]
    · rw [World.setLeaf_of_ne w _ here]
  refine fair.apply same (fun c => ?_) (fun c => ?_) (fits.mono same)
  · rw [taken]
    by_cases here : c = d
    · subst here
      rw [World.setLeaf_self, if_pos rfl]
      show inUse = _
      omega
    · rw [World.setLeaf_of_ne w _ here, if_neg (Ne.symm here)]
      omega
  · by_cases here : c = d
    · rw [here, World.setLeaf_self]
      exact upper
    · rw [World.setLeaf_of_ne w _ here]
      exact fair.upper c

theorem World.Fair.moves (fair : w.Fair) (moved : Moves w t act next) : next.Fair := by
  cases moved with
  | call l free =>
      refine fair.move (fun c => ?_) trivial
      rw [Pc.taken_free c free]
      rfl
  | give holder place l free found =>
      refine fair.change (fun _ => rfl) (fun c => ?_) fair.upper trivial
      have split := permits_eraseIdx c found
      have single : (Pc.release [l] none).taken c = (l.occurrences.count c : Int) := by
        simp [Pc.taken, permits_cons]
      rw [Pc.taken_free c free, single, split]
      show (w.leaf c).inUse = _
      omega
  | advance pc pc' here advanced =>
      refine fair.move (fun c => ?_) (.advance advanced)
      rw [here, Pc.advance_taken c advanced]
  | full c loops here most => exact fair.move (fun d => by rw [here]; rfl) trivial
  | load c loops here room => exact fair.move (fun d => by rw [here]; rfl) room
  | swapped c loops here =>
      have fits := fair.fits t
      rw [here] at fits
      have room : (w.leaf c).inUse < (w.leaf c).max := fits
      refine fair.atLeaf (fun d => ?_) room trivial
      rw [here]
      simp only [Pc.taken, permits_leaf, permits_nil]
      split <;> omega
  | retry c loaded loops here other => exact fair.move (fun d => by rw [here]; rfl) trivial
  | took l here =>
      refine fair.change (fun _ => rfl) (fun c => ?_) fair.upper trivial
      have split : permits c (l :: w.held t) = permits c [l] + permits c (w.held t) :=
        permits_append c [l] (w.held t)
      rw [here, split]
      show (w.leaf c).inUse = (w.leaf c).inUse + _ + (0 - (permits c [l] + 0))
      omega
  | released c work undoing here least =>
      have upper := fair.upper c
      refine fair.atLeaf (fun d => ?_) (by omega) trivial
      rw [here, Pc.taken_release]
      split <;> omega
  | below c work undoing here less =>
      have taken := fair.taken_le c t
      have rest := Pc.taken_nonneg c (Pc.release work undoing)
      rw [here, Pc.taken_release, if_pos rfl] at taken
      omega
  | restore c here =>
      have fits := fair.fits t
      rw [here] at fits
      exact fits.elim

theorem fair_of_reached (reached : (system T L).Reachable w) : w.Fair := by
  refine reached.invariant World.Fair ?_ ?_
  · rintro w ⟨max, made, rfl⟩
    refine .start fun c => ?_
    by_contra small
    have made := made c
    rw [Concurrency.newConcurrency, if_pos (by omega)] at made
    cases made
  · rintro w ⟨t, act⟩ next _ fair stepped
    exact fair.moves (World.step_moves stepped)

end Fairness

section Contract

variable {T L : Type} [DecidableEq T] [DecidableEq L] {w next : World T L} {t : T}

theorem Moves.called {root : Limiter L} (called : (w.pc t).called = some root)
    (moved : Moves w t .next next) :
    (next.pc t).called = some root ∨ next.pc t = .returned (.took false) ∨
      next.pc t = .returned (.took true) ∧ next.held t = root :: w.held t ∨
      ∃ c, next.pc t = .restore c := by
  cases moved with
  | advance pc pc' here advanced =>
      rw [here] at called
      rw [World.setPc_self]
      rcases Pc.advance_called called advanced with same | refused
      · exact .inl same
      · exact .inr (.inl refused)
  | full c loops here | load c loops here | swapped c loops here | retry c loaded loops here
  | released c work undoing here =>
      rw [here] at called
      rw [World.setPc_self]
      exact .inl called
  | took l here =>
      rw [here] at called
      cases called
      refine .inr (.inr (.inl ⟨World.setPc_self _ _ _, ?_⟩))
      simp only [World.setPc, World.setHeld, Function.update_self, outermost]
  | below c work undoing here => exact .inr (.inr (.inr ⟨c, World.setPc_self _ _ _⟩))
  | restore c here =>
      rw [here] at called
      cases called

/-- No thread ever waits for another one. -/
theorem World.next_enabled (w : World T L) {t : T} (busy : (w.pc t).free = false) :
    ∃ next, w.step (t, .next) = some next := by
  show ∃ next, w.next t = some next
  unfold World.next
  cases here : w.pc t with
  | idle | returned =>
      rw [here] at busy
      cases busy
  | enter l loops => rcases l with c | (_ | _) <;> exact ⟨_, rfl⟩
  | load c loops | cas c loaded loops =>
      dsimp only
      split <;> exact ⟨_, rfl⟩
  | acquired l loops => rcases loops with _ | ⟨⟨before, _ | _⟩, loops⟩ <;> exact ⟨_, rfl⟩
  | refused l loops => cases loops <;> exact ⟨_, rfl⟩
  | release work undoing =>
      rcases work with _ | ⟨c | members, work⟩
      · cases undoing <;> exact ⟨_, rfl⟩
      · exact ⟨_, rfl⟩
      · exact ⟨_, rfl⟩
  | restore c => exact ⟨_, rfl⟩

structure Kept [Fintype T] (w : World T L) : Prop where
  bounded : ∀ c, 0 ≤ (w.leaf c).inUse ∧ (w.leaf c).inUse ≤ (w.leaf c).max
  /-- The permits in use are those of what is held and those of calls in progress. -/
  total : ∀ c, (w.leaf c).inUse = ∑ t, permits c (w.held t) + ∑ t, (w.pc t).taken c
  /-- A call that has returned, refused or not, keeps nothing besides what is held. -/
  rested : ∀ t, (w.pc t).free = true → ∀ c, (w.pc t).taken c = 0
  calm : ∀ t, w.pc t ≠ .returned .panicked ∧ ∀ c, w.pc t ≠ .restore c
  /-- A leaf refuses exactly if all of its permits are in use at that moment. -/
  refuses : ∀ t c loops next, w.pc t = .load c loops → w.step (t, .next) = some next →
    ((∃ l, next.pc t = .refused l loops) ↔ (w.leaf c).inUse = (w.leaf c).max)
  /-- The limiter a call ends up holding is the one it was made for. -/
  answers : ∀ t root next, (w.pc t).called = some root → w.step (t, .next) = some next →
    (next.pc t).called = some root ∨ next.pc t = .returned (.took false) ∨
      next.pc t = .returned (.took true) ∧ next.held t = root :: w.held t
  waitFree : ∀ t, (w.pc t).free = false → ∃ next, w.step (t, .next) = some next

theorem World.refuses {c : L} {loops : List (Loop L)} (here : w.pc t = .load c loops)
    (upper : (w.leaf c).inUse ≤ (w.leaf c).max) (stepped : w.step (t, .next) = some next) :
    (∃ l, next.pc t = .refused l loops) ↔ (w.leaf c).inUse = (w.leaf c).max := by
  simp only [World.step, World.next, here, Concurrency.full, decide_eq_true_eq] at stepped
  split at stepped <;> cases stepped <;> rw [World.setPc_self]
  · exact ⟨fun _ => by omega, fun _ => ⟨_, rfl⟩⟩
  · refine ⟨fun refused => ?_, fun same => by omega⟩
    obtain ⟨l, same⟩ := refused
    cases same

variable [Fintype T]

/-- Threads that share limiters never take more than there is, never panic, and keep
nothing of a call that is refused. -/
theorem shared_limiters_kept (reached : (system T L).Reachable w) : Kept w := by
  have fair := fair_of_reached reached
  refine ⟨fun c => ⟨fair.lower c, fair.upper c⟩, fair.total,
    fun t free c => Pc.taken_free c free, fair.calm, ?_, ?_, fun t => w.next_enabled⟩
  · intro t c loops next here stepped
    exact World.refuses here (fair.upper c) stepped
  · intro t root next called stepped
    have after := fair.moves (World.step_moves stepped)
    rcases (World.step_moves stepped).called called with same | refused | took | ⟨c, restores⟩
    · exact .inl same
    · exact .inr (.inl refused)
    · exact .inr (.inr took)
    · exact ((after.calm t).2 c restores).elim

end Contract

/-- Two threads acquire the same two leaves in opposite order, and each finds the other at
its second one. -/
def crossing : List (Bool × Act Bool Bool) := [
  [(false, .call (.all [.leaf false, .leaf true])),
    (true, .call (.all [.leaf true, .all [.leaf false]]))],
  .replicate 5 (false, .next), .replicate 5 (true, .next), .replicate 2 (false, .next),
  .replicate 3 (true, .next), .replicate 4 (false, .next), .replicate 6 (true, .next)].flatten

def Pc.reply {L : Type} : Pc L → Option Reply
  | .returned reply => some reply
  | _ => none

theorem shared_limiters_kept_crossing :
    ∃ w, (system Bool Bool).exec (.start fun _ => 1) crossing = some w ∧
      ((w.pc false).reply = some (.took false) ∧ (w.pc true).reply = some (.took false)) ∧
      Kept w := by
  have checked : ((system Bool Bool).exec (.start fun _ => 1) crossing).any (fun w => decide
      ((w.pc false).reply = some (.took false) ∧ (w.pc true).reply = some (.took false))) =
      true := by
    decide +kernel
  obtain ⟨w, executed, facts⟩ := System.exec_of_check _ checked
  exact ⟨w, executed, of_decide_eq_true facts,
    shared_limiters_kept (.exec (.initial ⟨fun _ => 1, fun _ => rfl, rfl⟩) executed)⟩

end Netx.Limit.Shared
