import Mathlib.Data.Vector.Basic

/-! Arrays of bytes by index, with slices that are read and written as lists. -/

set_option autoImplicit false

namespace Netx.Bytes

/-- What an array holds at each index; the owner knows its length. -/
abbrev Memory := Nat → UInt8

namespace Memory

/-- The slice of `len` bytes from `start`. -/
def read (m : Memory) (start len : Nat) : List UInt8 :=
  (List.range len).map fun i => m (start + i)

/-- An array inside the array. -/
def block (m : Memory) (start len : Nat) : List.Vector UInt8 len :=
  ⟨m.read start len, by rw [read, List.length_map, List.length_range]⟩

def write (m : Memory) (start : Nat) (bytes : List UInt8) : Memory := fun i =>
  if start ≤ i then bytes.getD (i - start) (m i) else m i

variable {m : Memory} {start len : Nat} {bytes : List UInt8}

theorem read_getElem? (i : Nat) :
    (m.read start len)[i]? = if i < len then some (m (start + i)) else none := by
  rw [read, List.getElem?_map]
  split
  · rename_i inside
    rw [List.getElem?_range inside]
    rfl
  · rename_i outside
    rw [List.getElem?_eq_none (by rw [List.length_range]; omega)]
    rfl

theorem write_outside {i : Nat} (outside : i < start ∨ start + bytes.length ≤ i) :
    m.write start bytes i = m i := by
  rw [write]
  split
  · rw [List.getD_eq_getElem?_getD, List.getElem?_eq_none (by omega)]
    rfl
  · rfl

/-- A slice inside what was just written. -/
theorem read_write_inside {offset : Nat} (inside : offset + len ≤ bytes.length) :
    (m.write start bytes).read (start + offset) len = (bytes.drop offset).take len := by
  apply List.ext_getElem?
  intro i
  rw [read_getElem?, List.getElem?_take, List.getElem?_drop]
  split
  · have bound : offset + i < bytes.length := by omega
    have index : start + offset + i - start = offset + i := by omega
    rw [write, if_pos (by omega), index, List.getD_eq_getElem?_getD,
      List.getElem?_eq_getElem bound, Option.getD_some]
  · rfl

theorem read_write_self :
    (m.write start bytes).read start bytes.length = bytes := by
  have inside := @read_write_inside m start bytes.length bytes 0 (Nat.le_of_eq (Nat.zero_add _))
  rwa [Nat.add_zero, List.drop_zero, List.take_length] at inside

/-- A slice that what was written does not overlap. -/
theorem read_write_apart {place : Nat}
    (apart : place + len ≤ start ∨ start + bytes.length ≤ place) :
    (m.write start bytes).read place len = m.read place len := by
  apply List.ext_getElem?
  intro i
  rw [read_getElem?, read_getElem?]
  split
  · rw [write_outside (by omega)]
  · rfl

end Memory

end Netx.Bytes
