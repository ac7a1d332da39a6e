import Netx.Sys.DropCount
import Mathlib.Logic.Relation

/-! What `DropCount` looks for: the first drop count on a walk over well-formed records,
with every read inside the control data. -/

set_option autoImplicit false

namespace Netx.Sys

open Bytes

section Records

variable (host : Order) (oob : List UInt8) (p : Nat)

/-- The length field of a header at `p`, a signed number. -/
def lengthAt : Int :=
  (host.decode ((oob.drop p).take 8) : Int).bmod (2 ^ 64)

def levelAt : Nat :=
  host.decode ((oob.drop (p + 8)).take 4)

def typeAt : Nat :=
  host.decode ((oob.drop (p + 12)).take 4)

/-- The four bytes after a header at `p`. -/
def countAt : UInt32 :=
  UInt32.ofNat (host.decode ((oob.drop (p + hdr)).take 4))

structure RecordAt : Prop where
  header : p + hdr ≤ oob.length
  least : (hdr : Int) ≤ lengthAt host oob p
  inside : p + lengthAt host oob p ≤ oob.length

structure CountRecordAt : Prop extends RecordAt host oob p where
  level : levelAt host oob p = solSocket
  type : typeAt host oob p = soRxqOvfl
  payload : (hdr : Int) + 4 ≤ lengthAt host oob p

/-- The walk goes on from the record at `p` to the one at `q`. -/
structure Follows (q : Nat) : Prop extends RecordAt host oob p where
  other : ¬ CountRecordAt host oob p
  aligned : (q : Int) = p + cmsgAlign (lengthAt host oob p)
  within : q ≤ oob.length

end Records

private theorem le_cmsgAlign (n : Int) : n ≤ cmsgAlign n := by
  rw [cmsgAlign]
  omega

variable {host : Order} {oob : List UInt8}

section Walk

variable {fuel p : Nat}

private theorem recordAt_of_drop (header : hdr ≤ (oob.drop p).length)
    (least : (hdr : Int) ≤ lengthAt host oob p)
    (inside : lengthAt host oob p ≤ (oob.drop p).length) : RecordAt host oob p := by
  have size : hdr = 16 := rfl
  rw [List.length_drop] at header inside
  exact ⟨by omega, least, by omega⟩

private theorem walk_malformed (broken : ¬ RecordAt host oob p) :
    walk host fuel (oob.drop p) = none := by
  cases fuel with
  | zero => rfl
  | succ fuel =>
      rw [walk]
      split
      · rfl
      · rename_i header
        rw [if_pos]
        by_contra sized
        obtain ⟨least, inside⟩ := not_or.mp sized
        exact broken (recordAt_of_drop (Nat.le_of_not_lt header) (Int.not_lt.mp least)
          (Int.not_lt.mp inside))

private theorem walk_record (record : RecordAt host oob p) :
    walk host (fuel + 1) (oob.drop p) =
      if levelAt host oob p = solSocket ∧ typeAt host oob p = soRxqOvfl ∧
          (hdr : Int) + 4 ≤ lengthAt host oob p then
        some (countAt host oob p)
      else if p + cmsgAlign (lengthAt host oob p) > oob.length then none
      else walk host fuel (oob.drop (p + (cmsgAlign (lengthAt host oob p)).toNat)) := by
  have header := record.header
  have remaining : ((oob.drop p).length : Int) = oob.length - p := by
    rw [List.length_drop]
    omega
  have sized : ¬ (lengthAt host oob p < hdr ∨ lengthAt host oob p > (oob.drop p).length) := by
    have least := record.least
    have inside := record.inside
    omega
  have ends : cmsgAlign (lengthAt host oob p) > (oob.drop p).length ↔
      p + cmsgAlign (lengthAt host oob p) > oob.length := by
    omega
  rw [walk, if_neg (by rw [List.length_drop]; omega)]
  simp only [List.drop_drop]
  change (if lengthAt host oob p < hdr ∨ lengthAt host oob p > (oob.drop p).length then none
    else if levelAt host oob p = solSocket ∧ typeAt host oob p = soRxqOvfl ∧
        (hdr : Int) + 4 ≤ lengthAt host oob p then some (countAt host oob p)
    else if cmsgAlign (lengthAt host oob p) > (oob.drop p).length then none
    else walk host fuel (oob.drop (p + (cmsgAlign (lengthAt host oob p)).toNat))) = _
  rw [if_neg sized]
  simp only [ends]

theorem walk_count (record : CountRecordAt host oob p) :
    walk host (fuel + 1) (oob.drop p) = some (countAt host oob p) := by
  rw [walk_record record.toRecordAt, if_pos ⟨record.level, record.type, record.payload⟩]

theorem walk_other (record : RecordAt host oob p) (other : ¬ CountRecordAt host oob p) :
    walk host (fuel + 1) (oob.drop p) =
      if p + cmsgAlign (lengthAt host oob p) > oob.length then none
      else walk host fuel (oob.drop (p + (cmsgAlign (lengthAt host oob p)).toNat)) := by
  rw [walk_record record, if_neg]
  rintro ⟨level, type, payload⟩
  exact other ⟨record, level, type, payload⟩

theorem Follows.forward {q : Nat} (follows : Follows host oob p q) : p + hdr ≤ q := by
  have least := follows.least
  have aligned := follows.aligned
  have rounded := le_cmsgAlign (lengthAt host oob p)
  omega

theorem Follows.walk_eq {q : Nat} (follows : Follows host oob p q) :
    walk host (fuel + 1) (oob.drop p) = walk host fuel (oob.drop q) := by
  have aligned := follows.aligned
  have within := follows.within
  have target : p + (cmsgAlign (lengthAt host oob p)).toNat = q := by
    have forward := follows.forward
    omega
  rw [walk_other follows.toRecordAt follows.other, if_neg (by omega), target]

private theorem walk_stops (record : RecordAt host oob p) (other : ¬ CountRecordAt host oob p)
    (last : ∀ q, ¬ Follows host oob p q) : walk host (fuel + 1) (oob.drop p) = none := by
  rw [walk_other record other, if_pos]
  by_contra within
  have least := record.least
  have rounded := le_cmsgAlign (lengthAt host oob p)
  exact last (p + (cmsgAlign (lengthAt host oob p)).toNat)
    ⟨record, other, by omega, by omega⟩

end Walk

/-- The walk that starts at `p` comes to a drop count of value `v`. -/
def FindsFrom (host : Order) (oob : List UInt8) (p : Nat) (v : UInt32) : Prop :=
  ∃ q, Relation.ReflTransGen (Follows host oob) p q ∧ CountRecordAt host oob q ∧
    countAt host oob q = v

variable {p : Nat} {v : UInt32}

theorem FindsFrom.record (found : FindsFrom host oob p v) : RecordAt host oob p := by
  obtain ⟨q, path, count, _⟩ := found
  rcases path.cases_head with rfl | ⟨next, follows, _⟩
  · exact count.toRecordAt
  · exact follows.toRecordAt

private theorem findsFrom_count (count : CountRecordAt host oob p) :
    FindsFrom host oob p v ↔ countAt host oob p = v := by
  constructor
  · rintro ⟨q, path, _, value⟩
    rcases path.cases_head with rfl | ⟨next, follows, _⟩
    · exact value
    · exact (follows.other count).elim
  · intro value
    exact ⟨p, .refl, count, value⟩

theorem Follows.unique {q other : Nat} (follows : Follows host oob p q)
    (also : Follows host oob p other) : other = q := by
  have left := follows.aligned
  have right := also.aligned
  omega

theorem Follows.findsFrom_iff {q : Nat} (follows : Follows host oob p q) :
    FindsFrom host oob p v ↔ FindsFrom host oob q v := by
  constructor
  · rintro ⟨last, path, count, value⟩
    rcases path.cases_head with rfl | ⟨next, also, rest⟩
    · exact (follows.other count).elim
    · obtain rfl := follows.unique also
      exact ⟨last, rest, count, value⟩
  · rintro ⟨last, path, count, value⟩
    exact ⟨last, path.head follows, count, value⟩

private theorem not_findsFrom_last (other : ¬ CountRecordAt host oob p)
    (last : ∀ q, ¬ Follows host oob p q) : ¬ FindsFrom host oob p v := by
  rintro ⟨q, path, count, _⟩
  rcases path.cases_head with rfl | ⟨next, follows, _⟩
  · exact other count
  · exact last next follows

private theorem walk_eq_some_iff (v : UInt32) (fuel p : Nat) (enough : oob.length ≤ p + fuel) :
    walk host fuel (oob.drop p) = some v ↔ FindsFrom host oob p v := by
  induction fuel generalizing p with
  | zero =>
      constructor
      · intro found
        cases found
      · intro found
        have header := found.record.header
        rw [hdr] at header
        omega
  | succ fuel ih =>
      by_cases record : RecordAt host oob p
      · by_cases count : CountRecordAt host oob p
        · rw [walk_count count, findsFrom_count count, Option.some.injEq]
        · by_cases goesOn : ∃ q, Follows host oob p q
          · obtain ⟨q, follows⟩ := goesOn
            have forward := follows.forward
            rw [hdr] at forward
            rw [follows.walk_eq, follows.findsFrom_iff]
            exact ih q (by omega)
          · rw [walk_stops record count (not_exists.mp goesOn)]
            simp [not_findsFrom_last count (not_exists.mp goesOn)]
      · rw [walk_malformed record]
        simp only [reduceCtorEq, false_iff]
        exact fun found => record found.record

theorem dropCount_eq_some_iff (v : UInt32) :
    dropCount host oob = some v ↔ FindsFrom host oob 0 v := by
  rw [dropCount, ← walk_eq_some_iff v oob.length 0 (by omega), List.drop_zero]

/-! The same loop over memory that can be read wrongly. -/

inductive Fault where
  | outOfRange
  | unfinished
  deriving DecidableEq, Repr

/-- The number in `width` bytes at `start` of a slice. -/
def load (host : Order) (oob : List UInt8) (start width : Nat) : Except Fault Nat :=
  if start + width ≤ oob.length then .ok (host.decode ((oob.drop start).take width))
  else .error .outOfRange

/-- The slice `oob[low:]`. -/
def sliceFrom (oob : List UInt8) (low : Int) : Except Fault (List UInt8) :=
  if 0 ≤ low ∧ low ≤ oob.length then .ok (oob.drop low.toNat) else .error .outOfRange

def walkMemory (host : Order) : Nat → List UInt8 → Except Fault (Option UInt32)
  | 0, _ => .error .unfinished
  | fuel + 1, oob =>
      if oob.length < hdr then .ok none
      else
        (load host oob 0 8).bind fun len =>
        let l := (len : Int).bmod (2 ^ 64)
        if l < hdr ∨ l > oob.length then .ok none
        else
          (load host oob 8 4).bind fun level =>
          (load host oob 12 4).bind fun type =>
          if level = solSocket ∧ type = soRxqOvfl ∧ l ≥ hdr + 4 then
            (load host oob hdr 4).bind fun count => .ok (some (UInt32.ofNat count))
          else
            let next := cmsgAlign l
            if next > oob.length then .ok none
            else (sliceFrom oob next).bind fun rest => walkMemory host fuel rest

private theorem load_ok {start width : Nat} (inside : start + width ≤ oob.length) :
    load host oob start width = .ok (host.decode ((oob.drop start).take width)) := by
  rw [load, if_pos inside]

private theorem bind_ok {α β : Type} (value : α) (next : α → Except Fault β) :
    Except.bind (.ok value) next = next value :=
  rfl

private theorem walkMemory_ok (fuel : Nat) (enough : oob.length ≤ fuel) :
    walkMemory host (fuel + 1) oob = .ok (walk host fuel oob) := by
  have size : hdr = 16 := rfl
  induction fuel generalizing oob with
  | zero => rw [walkMemory, if_pos (by omega), walk]
  | succ fuel ih =>
      rw [walkMemory, walk]
      by_cases short : oob.length < hdr
      · rw [if_pos short, if_pos short]
      · rw [if_neg short, if_neg short, load_ok (by omega), load_ok (by omega),
          load_ok (by omega), bind_ok, List.drop_zero]
        extract_lets l next level type
        rw [bind_ok, bind_ok]
        clear_value l
        by_cases malformed : l < hdr ∨ l > oob.length
        · rw [if_pos malformed, if_pos malformed]
        · rw [if_neg malformed, if_neg malformed]
          by_cases found : level = solSocket ∧ type = soRxqOvfl ∧ l ≥ hdr + 4
          · have payload := found.2.2
            rw [if_pos found, if_pos found, load_ok (by omega), bind_ok]
          · rw [if_neg found, if_neg found]
            by_cases past : next > oob.length
            · rw [if_pos past, if_pos past]
            · have forward : l ≤ next := le_cmsgAlign l
              rw [if_neg past, if_neg past, sliceFrom, if_pos (by omega), bind_ok]
              exact ih (by rw [List.length_drop]; omega)

theorem walkMemory_dropCount :
    walkMemory host (oob.length + 1) oob = .ok (dropCount host oob) :=
  walkMemory_ok oob.length (Nat.le_refl _)

end Netx.Sys
