import Netx.FlowTable.SweepDecision

/-!
# A sweep with nobody else at the table

Such a `Sweep` visits every entry, takes out the flows seen before its cutoff and no
others, and returns.
-/

set_option autoImplicit false

namespace Netx.FlowTable

open Transition

/-- One call and the table, while no other call acts. -/
def solo {K Call : Type} [DecidableEq K] (t : Table K) (c : Call) :
    Transition.System (Shared K Call × Pc K) (Act K) where
  initial p := p.2 = .idle
  step p act := effect t c p.1 p.2 act

/-- What a sweep with this cutoff leaves of the entry of key `k`. -/
def Shared.survivor {K Call : Type} [DecidableEq K] (s : Shared K Call) (cutoff : Int) (i : Nat)
    (k : K) : Option Nat :=
  ((s.shard i).m.lookup k).filter fun f => decide (cutoff ≤ (s.flow f).lastSeen)

/-- The sweep has decided on the entry of key `k` in shard `j`. -/
def Pc.Decided {K : Type} [DecidableEq K] (j : Nat) (k : K) : Pc K → Prop
  | .idle | .advance _ | .advanceCas _ _ => False
  | .sweep _ i _ => j < i
  | .scan _ i rest _ | .scanCas _ i _ _ _ rest _ => j < i ∨ j = i ∧ rest.lookup k = none
  | _ => True

/-- How far a sweep alone at the table has come since the table was `s`. -/
structure Sweeping {K Call : Type} [DecidableEq K] (t : Table K) (c : Call)
    (s : Shared K Call) (now : Int) (p : Shared K Call × Pc K) : Prop where
  guards : p.2.Guards t p.1
  sweeps : p.2.SweepOf t p.1.now now
  seen : ∀ f, (p.1.flow f).lastSeen = (s.flow f).lastSeen
  maps : ∀ j k, (p.2.Decided j k →
      (p.1.shard j).m.lookup k = s.survivor ((now - t.idle).bmod (2 ^ 64)) j k) ∧
    (¬p.2.Decided j k → (p.1.shard j).m.lookup k = (s.shard j).m.lookup k)
  evicted : ∃ evicted : List (Victim K),
    p.1.removed = s.removed ++ evicted.map (fun v => (v.2, c)) ∧ evicted.Nodup ∧
    ∀ k f, ⟨k, f⟩ ∈ evicted ↔ ∃ j, p.2.Decided j k ∧ (s.shard j).m.lookup k = some f ∧
      (s.flow f).lastSeen < (now - t.idle).bmod (2 ^ 64)
  loaded : ∀ cutoff i k f v rest found, p.2 = .scanCas cutoff i k f v rest found →
    (p.1.flow f).seen = v

section Solo

variable {K Call : Type} [DecidableEq K] {t : Table K} {c : Call}

/-- The steps of one call in the table. -/
theorem exec_solo [DecidableEq Call] (w : World K Call) (acts : List (Act K)) :
    (system Call t).exec w (acts.map (.call c)) =
      ((solo t c).exec (w.shared, w.pc c) acts).map fun p =>
        { shared := p.1, pc := Function.update w.pc c p.2 } := by
  induction acts generalizing w with
  | nil => simp
  | cons act acts ih =>
      simp only [List.map_cons, System.exec_cons]
      cases effected : effect t c w.shared (w.pc c) act with
      | none => simp [system, solo, World.step, effected]
      | some p =>
          have stepped : (system Call t).step w (.call c act) =
              some { shared := p.1, pc := Function.update w.pc c p.2 } := by
            simp [system, World.step, effected]
          have alone : (solo t c).step (w.shared, w.pc c) act = some p := effected
          rw [stepped, alone, Option.bind_some, Option.bind_some, ih]
          simp

end Solo

section Sweep

variable {K Call : Type} [DecidableEq K] {t : Table K} {c : Call} {s s₁ s₂ : Shared K Call}
  {pc pc' : Pc K} {now : Int} {k : K} {cutoff : Int} {f i : Nat}

private theorem survivor_of_none (absent : (s.shard i).m.lookup k = none) :
    s.survivor cutoff i k = none := by
  rw [Shared.survivor, absent, Option.filter_none]

private theorem survivor_of_some (present : (s.shard i).m.lookup k = some f) :
    s.survivor cutoff i k = if (s.flow f).lastSeen < cutoff then none else some f := by
  rw [Shared.survivor, present, Option.filter_some]
  by_cases old : (s.flow f).lastSeen < cutoff
  · rw [if_pos old, if_neg (by simpa using old)]
  · rw [if_neg old, if_pos (by simpa using old)]

/-- A step that decides on no entry. -/
theorem Sweeping.keeps (sweeping : Sweeping t c s now (s₁, pc)) (guards : pc'.Guards t s₂)
    (sweeps : pc'.SweepOf t s₂.now now) (maps : ∀ j, (s₂.shard j).m = (s₁.shard j).m)
    (removed : s₂.removed = s₁.removed)
    (seen : ∀ f, (s₂.flow f).lastSeen = (s₁.flow f).lastSeen)
    (decided : ∀ j k, pc.Decided j k → pc'.Decided j k)
    (fresh : ∀ j k, pc'.Decided j k → pc.Decided j k ∨ (s.shard j).m.lookup k = none)
    (loaded : ∀ cutoff i k f v rest found, pc' = .scanCas cutoff i k f v rest found →
      (s₂.flow f).seen = v) : Sweeping t c s now (s₂, pc') where
  guards := guards
  sweeps := sweeps
  seen f := (seen f).trans (sweeping.seen f)
  maps j k := by
    have before := sweeping.maps j k
    rw [show (s₂.shard j).m = (s₁.shard j).m from maps j]
    refine ⟨fun later => ?_, fun undecided => before.2 fun old => undecided (decided j k old)⟩
    by_cases old : pc.Decided j k
    · exact before.1 old
    · have absent := (fresh j k later).resolve_left old
      rw [survivor_of_none absent]
      exact (before.2 old).trans absent
  evicted := by
    obtain ⟨evicted, list, distinct, exactly⟩ := sweeping.evicted
    refine ⟨evicted, removed.trans list, distinct, fun k f => (exactly k f).trans ?_⟩
    refine exists_congr fun j => and_congr_left fun known => ⟨decided j k, fun after => ?_⟩
    refine (fresh j k after).resolve_right fun absent => ?_
    rw [absent] at known
    cases known.1
  loaded := loaded

/-- A step that decides on the entry of key `k`. -/
theorem Sweeping.decides (filed : s.Filed t) (sweeping : Sweeping t c s now (s₁, pc))
    {rest : Flows K} {found : List (Victim K)}
    (before : ∀ j k', pc.Decided j k' ↔ j < i ∨ j = i ∧ rest.lookup k' = none)
    (present : rest.lookup k = some f) (known : (s₁.shard i).m.lookup k = some f)
    (guards : (Pc.scan cutoff i (rest.erase k) found).Guards t s₂)
    (sweeps : (Pc.scan cutoff i (rest.erase k) found).SweepOf t s₂.now now)
    (seen : ∀ f, (s₂.flow f).lastSeen = (s₁.flow f).lastSeen) {done : Bool}
    (decision : done = true ↔ (s₁.flow f).lastSeen < cutoff) (maps : ∀ j, (s₂.shard j).m =
      if done = true ∧ j = i then (s₁.shard i).m.erase k else (s₁.shard j).m)
    (removed : s₂.removed = s₁.removed ++ if done then [(f, c)] else []) :
    Sweeping t c s now (s₂, .scan cutoff i (rest.erase k) found) := by
  have cut : cutoff = (now - t.idle).bmod (2 ^ 64) := sweeps.1
  rw [sweeping.seen f, cut] at decision
  have after : ∀ j k', (Pc.scan cutoff i (rest.erase k) found).Decided j k' ↔
      pc.Decided j k' ∨ j = i ∧ k' = k := by
    intro j k'
    rw [before]
    show j < i ∨ j = i ∧ (rest.erase k).lookup k' = none ↔ _
    by_cases same : k' = k
    · subst same
      simp [AList.lookup_erase, present]
    · simp [AList.lookup_erase_ne same, same]
  have undecided : ¬pc.Decided i k := by
    rw [before, present]
    simp
  have entry : (s.shard i).m.lookup k = some f := by
    rw [← (sweeping.maps i k).2 undecided]
    exact known
  refine ⟨guards, sweeps, fun g => (seen g).trans (sweeping.seen g), fun j k' => ?_, ?_, ?_⟩
  · by_cases target : j = i ∧ k' = k
    · obtain ⟨rfl, rfl⟩ := target
      refine ⟨fun _ => ?_, fun not => absurd ((after j k').mpr (.inr ⟨rfl, rfl⟩)) not⟩
      show (s₂.shard j).m.lookup k' = _
      rw [survivor_of_some entry, maps]
      by_cases gone : done = true
      · rw [if_pos ⟨gone, rfl⟩, if_pos (decision.mp gone), AList.lookup_erase]
      · rw [if_neg (fun both => gone both.1), if_neg (fun old => gone (decision.mpr old)), known]
    · have kept : (s₂.shard j).m.lookup k' = (s₁.shard j).m.lookup k' := by
        rw [maps]
        split
        · rename_i here
          obtain ⟨_, rfl⟩ := here
          rw [AList.lookup_erase_ne fun same => target ⟨rfl, same⟩]
        · rfl
      show (_ → (s₂.shard j).m.lookup k' = _) ∧ (_ → (s₂.shard j).m.lookup k' = _)
      rw [kept, after, or_iff_left target]
      exact sweeping.maps j k'
  · obtain ⟨evicted, list, distinct, exactly⟩ := sweeping.evicted
    have absent : (⟨k, f⟩ : Victim K) ∉ evicted := by
      rw [exactly]
      rintro ⟨j, decided, stored, _⟩
      obtain rfl := (filed.stored j k f stored).2
      obtain rfl := (filed.stored i k f entry).2
      exact undecided decided
    refine ⟨evicted ++ if done then [⟨k, f⟩] else [], ?_, ?_, fun k' f' => ?_⟩
    · rw [removed, list]
      cases done <;> simp
    · cases done with
      | false => simpa using distinct
      | true =>
          rw [if_pos rfl, ← List.concat_eq_append]
          exact distinct.concat absent
    · rw [List.mem_append, exactly]
      constructor
      · rintro (⟨j, decided, stored⟩ | new)
        · exact ⟨j, (after j k').mpr (.inl decided), stored⟩
        · cases done with
          | false => cases new
          | true =>
              cases List.mem_singleton.mp new
              exact ⟨i, (after i k).mpr (.inr ⟨rfl, rfl⟩), entry, decision.mp rfl⟩
      · rintro ⟨j, decided, stored, old⟩
        rcases (after j k').mp decided with before | ⟨rfl, rfl⟩
        · exact .inl ⟨j, before, stored, old⟩
        · rw [entry] at stored
          cases stored
          rw [if_pos (decision.mpr old)]
          exact .inr (List.mem_singleton_self _)
  · intro _ _ _ _ _ _ _ same
    cases same

theorem Flow.close_lastSeen (f : Flow) (stage : CloseStage) :
    (f.close stage).1.lastSeen = f.lastSeen := by
  cases stage with
  | load => rfl
  | cas s =>
      simp only [Flow.close]
      split <;> rfl
  | freeze => exact clear_setFrozen f.seen

omit [DecidableEq K] in
theorem Shared.setFlow_lastSeen {flow : Flow} (same : flow.lastSeen = (s.flow f).lastSeen)
    (g : Nat) :
    ((s.setFlow f flow).flow g).lastSeen = (s.flow g).lastSeen := by
  by_cases here : g = f
  · subst here
    rw [Shared.setFlow_self, same]
  · rw [Shared.setFlow_of_ne here]

/-- After the last shard everything is decided, and nothing is taken out. -/
theorem Sweeping.finishes (sweeping : Sweeping t c s now (s₁, pc))
    (past : ∀ j k, pc.Decided j k) (guards : pc'.Guards t s₂)
    (sweeps : pc'.SweepOf t s₂.now now) (maps : ∀ j, (s₂.shard j).m = (s₁.shard j).m)
    (removed : s₂.removed = s₁.removed)
    (seen : ∀ f, (s₂.flow f).lastSeen = (s₁.flow f).lastSeen)
    (still : ∀ j k, pc'.Decided j k)
    (loaded : ∀ cutoff i k f v rest found, pc' ≠ .scanCas cutoff i k f v rest found) :
    Sweeping t c s now (s₂, pc') :=
  sweeping.keeps guards sweeps maps removed seen (fun j k _ => still j k)
    (fun j k _ => .inl (past j k))
    fun cutoff i k f v rest found here => absurd here (loaded cutoff i k f v rest found)

theorem Sweeping.moves (positive : 0 < t.idle) (filed : s.Filed t) {act : Act K}
    (sweeping : Sweeping t c s now (s₁, pc)) (moved : Moves t c s₁ pc act s₂ pc') :
    Sweeping t c s now (s₂, pc') := by
  have guards := moved.guards sweeping.guards
  have sweeps := moved.sweepOf sweeping.sweeps
  have before : pc.SweepOf t s₁.now now := sweeping.sweeps
  cases moved with
  | advancedOff n _ off | advanceCasOff n off => omega
  | advanced n | advanceCas n =>
      exact sweeping.keeps guards sweeps (fun _ => rfl) rfl (fun _ => rfl)
        (fun _ _ impossible => impossible.elim)
        (fun j _ below => absurd below (Nat.not_lt_zero j)) (by simp)
  | advance n | advanceAgain n =>
      exact sweeping.keeps guards sweeps (fun _ => rfl) rfl (fun _ => rfl) (fun _ _ => id)
        (fun _ _ => .inl) (by simp)
  | sweep cutoff i victims inside free =>
      refine sweeping.keeps guards sweeps (fun _ => s₁.lock_m _ _ _) rfl (fun _ => rfl)
        (fun _ _ => .inl) ?_ (by simp)
      rintro j k (below | ⟨rfl, absent⟩)
      · exact .inl below
      · have unchanged := (sweeping.maps j k).2 (Nat.lt_irrefl j)
        exact .inr (unchanged.symm.trans absent)
  | sweepDone cutoff i victims all =>
      refine sweeping.keeps guards sweeps (fun _ => rfl) rfl (fun _ => rfl)
        (fun _ _ _ => trivial) ?_ (by simp)
      intro j k _
      by_cases below : j < i
      · exact .inl below
      · refine .inr (Option.eq_none_iff_forall_ne_some.mpr fun f present => below ?_)
        obtain rfl := (filed.stored j k f present).2
        exact Nat.lt_of_lt_of_le (t.shard_lt k) all
  | scanNext cutoff i rest victims empty =>
      have nothing : ∀ k, rest.lookup k = none := by
        intro k
        rw [AList.lookup_eq_none, AList.mem_keys, empty]
        exact List.not_mem_nil
      refine sweeping.keeps guards sweeps (fun _ => s₁.unlock_m _ _) rfl (fun _ => rfl) ?_ ?_
        (by simp)
      · rintro j k (below | ⟨rfl, _⟩)
        · exact Nat.lt_succ_of_lt below
        · exact Nat.lt_succ_self j
      · intro j k below
        rcases Nat.lt_succ_iff_lt_or_eq.mp below with before | same
        · exact .inl (.inl before)
        · exact .inl (.inr ⟨same, nothing k⟩)
  | scanKept cutoff i rest victims k f present expired =>
      refine sweeping.decides filed (fun _ _ => Iff.rfl) present (sweeping.guards k f present)
        guards sweeps (fun _ => rfl) (Flow.expire_before expired) (fun _ => ?_) ?_
      · simp
      · simp
  | scanExpired cutoff i rest victims k f present expired =>
      refine sweeping.decides filed (fun _ _ => Iff.rfl) present (sweeping.guards k f present)
        guards sweeps (fun _ => rfl) (Flow.expire_before expired) (fun j => ?_) ?_
      · rw [Shared.delete_m]
        simp
      · simp [Shared.delete]
  | scanLoaded cutoff i rest victims k f v present goes =>
      refine sweeping.keeps guards sweeps (fun _ => rfl) rfl (fun _ => rfl) (fun _ _ => id)
        (fun _ _ => .inl) ?_
      intro _ _ _ _ _ _ _ same
      cases same
      exact (Flow.expire_goes goes).1.symm
  | casKept cutoff i k f v rest victims flow swapped =>
      have loaded := sweeping.loaded _ _ _ _ _ _ _ rfl
      exact absurd ((Flow.expireCas_iff swapped).mpr loaded) (by simp)
  | casExpired cutoff i k f v rest victims flow swapped =>
      have known := sweeping.guards
      have old : (s₁.flow f).lastSeen < cutoff := by
        rw [Flow.lastSeen, sweeping.loaded _ _ _ _ _ _ _ rfl]
        exact before.2
      refine sweeping.decides filed (fun _ _ => Iff.rfl) known.1 (known.2 k f known.1) guards
        sweeps (Shared.setFlow_lastSeen (Flow.expireCas_lastSeen swapped))
        (iff_of_true rfl old) (fun j => ?_) ?_
      · rw [Shared.delete_m]
        simp [Shared.setFlow]
      · simp [Shared.delete, Shared.setFlow, Shared.setShard]
  | swept | victim | onClose | onClosePanics =>
      exact sweeping.finishes (fun _ _ => trivial) guards sweeps (fun _ => rfl) rfl
        (fun _ => rfl) (fun _ _ => trivial) (by simp)
  | closing stage _ k f after flow swapped | closed stage k f after flow _ swapped =>
      have same := (s₁.flow f).close_lastSeen stage
      rw [swapped] at same
      exact sweeping.finishes (fun _ _ => trivial) guards sweeps (fun _ => rfl) rfl
        (Shared.setFlow_lastSeen same) (fun _ _ => trivial) (by simp)
  | closedUnset stage k f after flow result swapped =>
      have same := (s₁.flow f).close_lastSeen stage
      rw [swapped] at same
      cases after with
      | sweep rest count =>
          exact sweeping.finishes (fun _ _ => trivial) guards sweeps (fun _ => rfl) rfl
            (Shared.setFlow_lastSeen same) (fun _ _ => trivial) (by simp [After.next])
      | remove | close => exact before.1.elim
  | onCloseReturns k f after =>
      cases after with
      | sweep rest count =>
          exact sweeping.finishes (fun _ _ => trivial) guards sweeps (fun _ => rfl) rfl
            (fun _ => rfl) (fun _ _ => trivial) (by simp [After.next])
      | remove | close => exact before.1.elim
  | _ => exact before.elim

theorem Sweeping.start : Sweeping t c s now (s, .advance now) where
  guards := trivial
  sweeps := rfl
  seen _ := rfl
  maps _ _ := ⟨fun impossible => impossible.elim, fun _ => rfl⟩
  evicted := ⟨[], (List.append_nil _).symm, List.nodup_nil, fun _ _ => by simp [Pc.Decided]⟩
  loaded := by simp

theorem sweeping_exec (positive : 0 < t.idle) (filed : s.Filed t) {acts : List (Act K)}
    (executed : (solo t c).exec (s, .advance now) acts = some (s₁, pc)) :
    Sweeping t c s now (s₁, pc) := by
  refine System.exec_keeps (Sweeping t c s now) ?_ .start executed
  rintro ⟨s₁, pc⟩ act ⟨s₂, pc'⟩ sweeping stepped
  exact sweeping.moves positive filed (effect_moves stepped)

end Sweep

/-- One call alone gets from one state to another. -/
def Leads {K Call : Type} [DecidableEq K] (t : Table K) (c : Call)
    (p q : Shared K Call × Pc K) : Prop :=
  ∃ acts, (solo t c).exec p acts = some q

section Progress

variable {K Call : Type} [DecidableEq K] {t : Table K} {c : Call}
  {p q r : Shared K Call × Pc K} {s : Shared K Call}

theorem Leads.refl (p : Shared K Call × Pc K) : Leads t c p p :=
  ⟨[], rfl⟩

theorem Leads.step (act : Act K) (effected : effect t c p.1 p.2 act = some q)
    (rest : Leads t c q r) : Leads t c p r := by
  obtain ⟨acts, executed⟩ := rest
  exact ⟨act :: acts, System.exec_step effected executed⟩

theorem Leads.trans (first : Leads t c p q) (second : Leads t c q r) : Leads t c p r := by
  obtain ⟨front, executed⟩ := first
  obtain ⟨back, remaining⟩ := second
  refine ⟨front ++ back, ?_⟩
  rw [System.exec_append, executed]
  exact remaining

private theorem leads_afterClose (s : Shared K Call) (k : K) (f : Nat) (after : After K) :
    ∃ s', Leads t c (s, afterClose t k f after) (s', after.next) := by
  unfold afterClose
  split
  · exact ⟨{ s with reports := s.reports ++ [(k, f)] },
      .step .next rfl (.step (.returns true) rfl (.refl _))⟩
  · exact ⟨s, .refl _⟩

/-- `Close` on the flow returns, whoever has closed it before. -/
theorem leads_closed (s : Shared K Call) (k : K) (f : Nat) (after : After K) :
    ∃ s', Leads t c (s, .closed .load k f after) (s', after.next) := by
  by_cases closed : (s.flow f).state = .closed
  · have returned : effect t c s (.closed .load k f after) .next =
        some (s.setFlow f (s.flow f), afterClose t k f after) := by
      simp only [effect, next, Flow.close, if_pos closed]
    obtain ⟨s', rest⟩ := leads_afterClose (c := c) (s.setFlow f (s.flow f)) k f after
    exact ⟨s', .step .next returned rest⟩
  · have loaded : effect t c s (.closed .load k f after) .next =
        some (s.setFlow f (s.flow f), .closed (.cas (s.flow f).state) k f after) := by
      simp only [effect, next, Flow.close, if_neg closed]
    have swapped : ∃ s', effect t c (s.setFlow f (s.flow f))
        (.closed (.cas (s.flow f).state) k f after) .next =
          some (s', .closed .freeze k f after) := by
      simp only [effect, next, Flow.close, Shared.setFlow_self, if_pos]
      exact ⟨_, rfl⟩
    obtain ⟨s₁, second⟩ := swapped
    obtain ⟨s', rest⟩ := leads_afterClose (c := c) (t := t)
      (s₁.setFlow f (s₁.flow f).freeze) k f after
    exact ⟨s', .step .next loaded (.step .next second (.step .next rfl rest))⟩

private theorem leads_victims (found : List (Victim K)) (count : Nat) (s : Shared K Call) :
    ∃ s', Leads t c (s, .victims found count) (s', .returned (.swept count)) := by
  induction found generalizing s with
  | nil => exact ⟨s, .step .next rfl (.refl _)⟩
  | cons victim rest ih =>
      obtain ⟨s₁, closed⟩ := leads_closed (t := t) (c := c) s victim.1 victim.2 (.sweep rest count)
      obtain ⟨s', remaining⟩ := ih s₁
      exact ⟨s', .step .next rfl (closed.trans remaining)⟩

/-- A visit decides on its entry and leaves the locks alone. -/
theorem leads_visit (s : Shared K Call) (cutoff : Int) (i : Nat) {rest : Flows K}
    (found : List (Victim K)) {k : K} {f : Nat} (present : rest.lookup k = some f) :
    ∃ s' found', Leads t c (s, .scan cutoff i rest found)
        (s', .scan cutoff i (rest.erase k) found') ∧
      ∀ j, (s'.shard j).mu = (s.shard j).mu := by
  have decides : ∀ (s : Shared K Call) expired, ∃ s' found',
      Leads t c (afterExpire c s cutoff i k f rest found expired)
        (s', .scan cutoff i (rest.erase k) found') ∧
      ∀ j, (s'.shard j).mu = (s.shard j).mu := by
    intro s expired
    cases expired with
    | false => exact ⟨s, found, .refl _, fun _ => rfl⟩
    | true =>
        exact ⟨_, _, .refl (s.delete i k f c, .scan cutoff i (rest.erase k) (found ++ [⟨k, f⟩])),
          fun j => s.delete_mu j i c k f⟩
  cases expired : (s.flow f).expire cutoff with
  | goes v =>
      have visited : effect t c s (.scan cutoff i rest found) (.visit k) =
          some (s, .scanCas cutoff i k f v rest found) := by
        simp only [effect, visit, present, Option.map_some, expired]
      obtain ⟨s', found', rest, locks⟩ := decides (s.setFlow f ((s.flow f).expireCas v).1)
        ((s.flow f).expireCas v).2
      exact ⟨s', found', .step _ visited (.step .next rfl rest), locks⟩
  | returns done =>
      have visited : effect t c s (.scan cutoff i rest found) (.visit k) =
          some (afterExpire c s cutoff i k f rest found done) := by
        simp only [effect, visit, present, Option.map_some, expired]
      obtain ⟨s', found', rest, locks⟩ := decides s done
      exact ⟨s', found', .step _ visited rest, locks⟩

private theorem leads_scan (cutoff : Int) (i : Nat) (n : Nat) (rest : Flows K)
    (size : rest.entries.length = n) (s : Shared K Call) (found : List (Victim K)) :
    ∃ (s' : Shared K Call) (found' : List (Victim K)), Leads t c (s, .scan cutoff i rest found)
        (s'.unlock i, .sweep cutoff (i + 1) found') ∧
      ∀ j, (s'.shard j).mu = (s.shard j).mu := by
  induction n generalizing rest s found with
  | zero =>
      have empty : rest.keys = [] := List.map_eq_nil_iff.mpr (List.length_eq_zero_iff.mp size)
      exact ⟨s, found, .step .next (if_pos empty) (.refl _), fun _ => rfl⟩
  | succ n ih =>
      obtain ⟨⟨k, f⟩, entries, list⟩ := List.exists_cons_of_length_eq_add_one size
      have present : rest.lookup k = some f :=
        mem_entries.mp (list ▸ List.mem_cons_self)
      have smaller : (rest.erase k).entries.length = n := by
        have perm := (entries_perm_erase present).length_eq
        rw [size, List.length_cons] at perm
        exact (Nat.succ.inj perm).symm
      obtain ⟨s₁, found₁, visited, locks₁⟩ :=
        leads_visit (t := t) (c := c) s cutoff i found present
      obtain ⟨s', found', remaining, locks⟩ := ih (rest.erase k) smaller s₁ found₁
      exact ⟨s', found', visited.trans remaining, fun j => (locks j).trans (locks₁ j)⟩

private theorem leads_sweep (cutoff : Int) (n i : Nat) (left : t.size ≤ i + n) (s : Shared K Call)
    (free : ∀ j, (s.shard j).mu = none) (found : List (Victim K)) :
    ∃ s' found', Leads t c (s, .sweep cutoff i found) (s', .victims found' found'.length) := by
  induction n generalizing i s found with
  | zero => exact ⟨s, found, .step .next (if_neg (by omega)) (.refl _)⟩
  | succ n ih =>
      by_cases inside : i < t.size
      · have locked : effect t c s (.sweep cutoff i found) .next =
            some (s.lock i c, .scan cutoff i (s.shard i).m found) := by
          simp only [effect, next, if_pos inside, free i]
        obtain ⟨s₁, found₁, scanned, locks⟩ := leads_scan (t := t) (c := c) cutoff i _
          (s.shard i).m rfl (s.lock i c) found
        have unlocked : ∀ j, ((s₁.unlock i).shard j).mu = none := by
          intro j
          rw [Shared.unlock_mu, locks, Shared.lock_mu]
          by_cases same : j = i
          · rw [if_pos same]
          · rw [if_neg same, if_neg same, free j]
        obtain ⟨s', found', remaining⟩ := ih (i + 1) (by omega) (s₁.unlock i) unlocked found₁
        exact ⟨s', found', .step .next locked (scanned.trans remaining)⟩
      · exact ⟨s, found, .step .next (if_neg inside) (.refl _)⟩

private theorem leads_advance (positive : 0 < t.idle) (now : Int) (s : Shared K Call) :
    ∃ clock, Leads t c (s, .advance now)
      ({ s with now := clock }, .sweep ((now - t.idle).bmod (2 ^ 64)) 0 []) := by
  have begins : afterAdvance t now = .sweep ((now - t.idle).bmod (2 ^ 64)) 0 [] :=
    if_neg (by omega)
  by_cases late : now ≤ s.now
  · refine ⟨s.now, .step .next ?_ (.refl _)⟩
    simp only [effect, next, if_pos late, begins]
  · have loaded : effect t c s (.advance now) .next = some (s, .advanceCas now s.now) := by
      simp only [effect, next, if_neg late]
    refine ⟨now, .step .next loaded (.step .next ?_ (.refl _))⟩
    simp only [effect, next, if_pos, begins]

/-- A sweep alone at the table returns the number of flows it has taken out. -/
theorem leads_returned (positive : 0 < t.idle) (now : Int) (s : Shared K Call)
    (free : ∀ j, (s.shard j).mu = none) :
    ∃ s' count, Leads t c (s, .advance now) (s', .returned (.swept count)) := by
  obtain ⟨clock, advanced⟩ := leads_advance (c := c) positive now s
  obtain ⟨s₁, found, swept⟩ := leads_sweep (c := c) _ t.size 0 (Nat.le_add_left _ _)
    { s with now := clock } free []
  obtain ⟨s', closed⟩ := leads_victims (t := t) (c := c) found found.length s₁
  exact ⟨s', found.length, advanced.trans (swept.trans closed)⟩

end Progress

end Netx.FlowTable
