import Netx.Udp.Sending

/-!
# What `Stats` reports

`Stats` loads the counters one after the other while calls and readers add to them. Unless
they wrap around, its sums lie between those at its call and those at its return.
-/

set_option autoImplicit false

namespace Netx.Udp.Sending

open Transition

def Field.size (o : Options) : Field → Nat
  | .recvPackets | .recvBytes | .truncated | .recvErrors => o.readers
  | .sendPackets | .sendBytes | .sendErrors | .kernelDrops => o.socks

def loaded (count : Field → Nat → Nat) (field : Field) (front : List (Field × Nat)) : Nat :=
  (front.map fun load => if load.1 = field then count field load.2 else 0).sum

private theorem loaded_append (count : Field → Nat → Nat) (field : Field)
    (front back : List (Field × Nat)) :
    loaded count field (front ++ back) = loaded count field front + loaded count field back := by
  rw [loaded, List.map_append, List.sum_append]
  rfl

private theorem loaded_mono {count count' : Field → Nat → Nat}
    (grows : ∀ f i, count f i ≤ count' f i) (field : Field) (front : List (Field × Nat)) :
    loaded count field front ≤ loaded count' field front := by
  refine List.sum_le_sum fun load _ => ?_
  split
  · exact grows _ _
  · exact Nat.le_refl 0

private theorem loaded_loads (o : Options) (count : Field → Nat → Nat) (field : Field) :
    loaded count field (loads o) = ((List.range (field.size o)).map (count field)).sum := by
  have each (a b c d : Field) (l : List Nat) :
      loaded count field (l.flatMap fun i => [(a, i), (b, i), (c, i), (d, i)]) =
        (l.map fun i => (if a = field then count field i else 0) +
          ((if b = field then count field i else 0) + ((if c = field then count field i else 0) +
            (if d = field then count field i else 0)))).sum := by
    induction l with
    | nil => rfl
    | cons i l ih =>
        rw [List.flatMap_cons, loaded_append, ih, List.map_cons, List.sum_cons]
        simp [loaded]
  rw [loads, loaded_append, each, each]
  cases field <;> simp [Field.size]

/-- The loads of `Stats` that are left, and its sums. -/
def Pc.stats : Pc → Option (List (Field × Nat) × (Field → UInt64))
  | .load left sums => some (left, sums)
  | .snapshot sums => some ([], sums)
  | _ => none

def Grows (r r' : Reader) : Prop :=
  r.recvPackets ≤ r'.recvPackets ∧ r.recvBytes ≤ r'.recvBytes ∧ r.truncated ≤ r'.truncated ∧
    r.recvErrors ≤ r'.recvErrors

section Runs

variable {Call Caller : Type} [DecidableEq Call] [DecidableEq Caller] {o : Options}
  {w₀ w next : World Call Caller} {c : Caller}

private theorem reader_grows {conn conn' : Udp.World Call} {action : Udp.Action Call}
    (stepped : conn.step o action = some conn') (j : Nat) :
    Grows (conn.shared.reader j) (conn'.shared.reader j) := by
  have same (r : Reader) : Grows r r := ⟨le_rfl, le_rfl, le_rfl, le_rfl⟩
  have one {i : Nat} {r : Reader} (grows : Grows (conn.shared.reader i) r) :
      Grows (conn.shared.reader j) (Function.update conn.shared.reader i r j) := by
    rw [Function.update_apply]
    split_ifs with here
    · subst here
      exact grows
    · exact same _
  rcases Udp.World.step_cases stepped with ⟨call, act, shared, pc, rfl, moved, rfl⟩ |
    ⟨i, act, _, reader, rfl, moved, rfl⟩
  · generalize conn.pc call = point at moved
    cases moved with
    | spawn k => exact one (same _)
    | _ => exact same _
  · refine one ?_
    cases moved with
    | fails leaves failure => cases failure <;> simp [Grows, Reader.readFailed, Reader.goto]
    | _ => simp [Grows, Reader.goto]

theorem Moves.count_le (moved : Moves o w next) (field : Field) (i : Nat) :
    w.count field i ≤ next.count field i := by
  have added (other : Field) (sock n : Nat) :
      w.count field i ≤ (w.add other sock n).count field i := by
    have counter : w.counter field i ≤ (w.add other sock n).counter field i := by
      rw [World.add_counter]
      exact Nat.le_add_right _ _
    cases field <;> first | exact le_rfl | exact counter
  cases moved with
  | conn action conn stepped =>
      obtain ⟨packets, bytes, truncated, errors⟩ := reader_grows stepped i
      cases field <;> first | exact le_rfl | assumption
  | drops sock n => exact added _ sock n
  | packet c sock n | bytes c sock n | error c sock => exact added _ sock _
  | _ => exact le_rfl

theorem Moves.stats (moved : Moves o w next) {left : List (Field × Nat)} {sums : Field → UInt64}
    (here : (w.pc c).stats = some (left, sums)) :
    (next.pc c).stats = some (left, sums) ∨
      ∃ field i rest, left = (field, i) :: rest ∧ (next.pc c).stats =
        some (rest, Function.update sums field (sums field + w.load field i)) := by
  have stays {u : World Call Caller} {d : Caller} {pc : Pc} (same : u.pc = w.pc) (apart : c ≠ d) :
      ((u.setPc d pc).pc c).stats = some (left, sums) := by
    simp only [World.setPc, same, Function.update_of_ne apart, here]
  have apart {d : Caller} (other : (w.pc d).stats = none) : c ≠ d := by
    rintro rfl
    cases here.symm.trans other
  cases moved with
  | conn | drops => exact .inl here
  | load d field i rest sums' point =>
      by_cases same : c = d
      · subst same
        rw [point] at here
        cases here
        refine .inr ⟨field, i, rest, rfl, ?_⟩
        simp only [World.setPc, Function.update_self, Pc.stats]
      · exact .inl (stays rfl same)
  | loaded d sums' point =>
      by_cases same : c = d
      · subst same
        rw [point] at here
        simp only [World.setPc, Function.update_self]
        exact .inl here
      · exact .inl (stays rfl same)
  | call d op point | sends d sock b dest point | fails d sock b dest err point
  | packet d sock n point | bytes d sock n point | error d sock err point =>
      exact .inl (stays rfl (apart (by rw [point]; rfl)))

structure World.Counting (o : Options) (w₀ : World Call Caller) (c : Caller)
    (w : World Call Caller) : Prop where
  grows : ∀ field i, w₀.count field i ≤ w.count field i
  sums : ∃ front left sums, loads o = front ++ left ∧ (w.pc c).stats = some (left, sums) ∧
    ∀ field, ∃ n, sums field = .ofNat n ∧ loaded w₀.count field front ≤ n ∧
      n ≤ loaded w.count field front

theorem World.Counting.step (counting : World.Counting o w₀ c w) (moved : Moves o w next) :
    World.Counting o w₀ c next := by
  have grows := moved.count_le
  obtain ⟨front, left, sums, split, here, between⟩ := counting.sums
  refine ⟨fun field i => (counting.grows field i).trans (grows field i), ?_⟩
  rcases moved.stats here with same | ⟨field, i, rest, rfl, there⟩
  · refine ⟨front, left, sums, split, same, fun f => ?_⟩
    obtain ⟨n, sum, lower, upper⟩ := between f
    exact ⟨n, sum, lower, upper.trans (loaded_mono grows f front)⟩
  · refine ⟨front ++ [(field, i)], rest, _, by rw [split, List.append_assoc]; rfl, there,
      fun f => ?_⟩
    obtain ⟨n, sum, lower, upper⟩ := between f
    have upper := upper.trans (loaded_mono grows f front)
    have last (count : Field → Nat → Nat) : loaded count f (front ++ [(field, i)]) =
        loaded count f front + if field = f then count f i else 0 := by
      rw [loaded_append]
      simp [loaded]
    simp only [last]
    by_cases same : field = f
    · subst same
      refine ⟨n + w.count field i, ?_, ?_, ?_⟩
      · rw [Function.update_self, sum, World.load, UInt64.ofNat_add]
      · rw [if_pos rfl]
        exact Nat.add_le_add lower (counting.grows field i)
      · rw [if_pos rfl]
        exact Nat.add_le_add upper (grows field i)
    · rw [Function.update_of_ne (Ne.symm same)]
      simp only [if_neg same]
      exact ⟨n, sum, lower, upper⟩

def World.total (o : Options) (w : World Call Caller) (field : Field) : Nat :=
  ((List.range (field.size o)).map (w.count field)).sum

theorem stats_between {actions : List (Action Call Caller)}
    (called : w₀.pc c = .load (loads o) fun _ => 0)
    (executed : (system Call Caller o).exec w₀ actions = some w) {sums : Field → UInt64}
    (returned : w.pc c = .snapshot sums) (field : Field) (fits : w.total o field < 2 ^ 64) :
    w₀.total o field ≤ (sums field).toNat ∧ (sums field).toNat ≤ w.total o field := by
  have start : World.Counting o w₀ c w₀ := by
    refine ⟨fun _ _ => le_rfl, [], loads o, _, rfl, ?_, fun _ => ⟨0, rfl, le_rfl, le_rfl⟩⟩
    rw [called]
    rfl
  obtain ⟨front, left, sums', split, here, between⟩ := (System.exec_keeps (World.Counting o w₀ c)
    (fun _ _ _ held stepped => held.step (World.step_moves stepped)) start executed).sums
  rw [returned] at here
  cases here
  rw [List.append_nil] at split
  subst split
  obtain ⟨n, sum, lower, upper⟩ := between field
  rw [loaded_loads] at lower upper
  rw [sum, UInt64.toNat_ofNat_of_lt' (upper.trans_lt fits)]
  exact ⟨lower, upper⟩

end Runs

def statsCalled : List (Action Unit Nat) :=
  [.call 0 (.writeTo [1] ⟨.zero, 80⟩), .next 0, .next 0, .next 0, .call 1 .stats]

/-- Another of two bytes is sent after the load of the packets and before that of the bytes. -/
def statsOvertaken : List (Action Unit Nat) :=
  [.replicate 5 (.next 1), [.call 2 (.writeTo [2, 3] ⟨.zero, 80⟩), .next 2, .next 2, .next 2],
    .replicate 4 (.next 1)].flatten

theorem stats_between_overtaken :
    ∃ w₀ w sums, (system Unit Nat ⟨1, 1, 1⟩).exec (.start ⟨1, 1, 1⟩) statsCalled = some w₀ ∧
      (system Unit Nat ⟨1, 1, 1⟩).exec w₀ statsOvertaken = some w ∧ w.pc 1 = .snapshot sums ∧
      (sums .sendPackets, sums .sendBytes) = (1, 3) ∧ w.total ⟨1, 1, 1⟩ .sendBytes < 2 ^ 64 ∧
      w₀.total ⟨1, 1, 1⟩ .sendBytes ≤ (sums .sendBytes).toNat ∧
      (sums .sendBytes).toNat ≤ w.total ⟨1, 1, 1⟩ .sendBytes := by
  have result : ∀ w₀ w : World Unit Nat, ∀ sums, w₀.pc 1 = .load (loads ⟨1, 1, 1⟩) (fun _ => 0) →
      (system Unit Nat ⟨1, 1, 1⟩).exec w₀ statsOvertaken = some w → w.pc 1 = .snapshot sums →
      w.total ⟨1, 1, 1⟩ .sendBytes < 2 ^ 64 →
      w₀.total ⟨1, 1, 1⟩ .sendBytes ≤ (sums .sendBytes).toNat ∧
        (sums .sendBytes).toNat ≤ w.total ⟨1, 1, 1⟩ .sendBytes :=
    fun w₀ w sums called executed returned => stats_between called executed returned _
  have small : (3 : Nat) < 2 ^ 64 := by decide
  exact ⟨_, _, _, rfl, rfl, rfl, rfl, small, result _ _ _ rfl rfl rfl small⟩

end Netx.Udp.Sending
