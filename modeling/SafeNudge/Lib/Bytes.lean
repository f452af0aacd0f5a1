import Mathlib.Algebra.Order.Ring.Int
import Mathlib.Tactic.Common

/-!
# Bytes at offsets

Fixed-width integers in little-endian order (`toLE`, `ofLE`), and reads at an offset of a buffer
that fail beyond its end (`bytesAt?`). What was written behind a prefix of known length is read
back at that offset, whatever follows (`bytesAt?_append`, `uintLE?_append`); in a buffer of
consecutive fields the offset is the length of the fields before (`bytesAt?_flatten`).
-/

namespace Lib

/-- The `w` little-endian bytes of `n`. -/
def toLE : Nat → Nat → List UInt8
  | 0, _ => []
  | w + 1, n => .ofNat n :: toLE w (n / 256)

/-- The number with these little-endian bytes. -/
def ofLE : List UInt8 → Nat
  | [] => 0
  | b :: bs => b.toNat + 256 * ofLE bs

@[simp] theorem length_toLE {w n : Nat} : (toLE w n).length = w := by
  induction w generalizing n with
  | zero => rfl
  | succ w ih => rw [toLE, List.length_cons, ih]

/-- A byte is its own encoding. -/
theorem toLE_one {b : UInt8} : toLE 1 b.toNat = [b] := by
  rw [toLE, toLE, UInt8.ofNat_toNat]

theorem ofLE_toLE {w n : Nat} (h : n < 256 ^ w) : ofLE (toLE w n) = n := by
  induction w generalizing n with
  | zero =>
    rw [Nat.pow_zero] at h
    simp only [toLE, ofLE]
    omega
  | succ w ih =>
    rw [Nat.pow_succ] at h
    rw [toLE, ofLE, UInt8.toNat_ofNat', ih (Nat.div_lt_of_lt_mul (by omega))]
    omega

/-- `n` bytes at an offset, where there are that many. -/
def bytesAt? (data : List UInt8) (offset n : Nat) : Option (List UInt8) :=
  if offset + n ≤ data.length then some ((data.drop offset).take n) else none

/-- The unsigned integer of width `w` at an offset. -/
def uintLE? (data : List UInt8) (offset w : Nat) : Option Nat := (bytesAt? data offset w).map ofLE

section
variable {data pre bs rest : List UInt8} {offset w n : Nat}

theorem bytesAt?_eq_some : bytesAt? data offset n = some bs ↔
    offset + n ≤ data.length ∧ (data.drop offset).take n = bs := by
  unfold bytesAt?
  split
  · simp only [Option.some_inj, true_and, *]
  · simp only [reduceCtorEq, false_and, *]

/-- All the bytes asked for, or none. -/
theorem length_of_bytesAt? (h : bytesAt? data offset n = some bs) : bs.length = n := by
  obtain ⟨hle, rfl⟩ := bytesAt?_eq_some.1 h
  rw [List.length_take, List.length_drop]
  omega

theorem uintLE?_eq_some : uintLE? data offset w = some n ↔
    offset + w ≤ data.length ∧ ofLE ((data.drop offset).take w) = n := by
  unfold uintLE? bytesAt?
  split
  · simp only [Option.map_some, Option.some_inj, true_and, *]
  · simp only [Option.map_none, reduceCtorEq, false_and, *]

theorem drop_append_of_eq (h : pre.length = offset) : (pre ++ rest).drop offset = rest := by
  rw [← h, List.drop_left]

theorem bytesAt?_append (h : pre.length = offset) :
    bytesAt? (pre ++ (bs ++ rest)) offset bs.length = some bs := by
  have hle : offset + bs.length ≤ (pre ++ (bs ++ rest)).length := by
    simp only [List.length_append]
    omega
  rw [bytesAt?, if_pos hle, drop_append_of_eq h, List.take_left]

/-! ## Buffers of consecutive fields -/

variable {fields : List (List UInt8)} {i : Nat}

theorem flatten_split (hi : fields[i]? = some bs) :
    fields.flatten = (fields.take i).flatten ++ (bs ++ (fields.drop (i + 1)).flatten) := by
  obtain ⟨hlt, he⟩ := List.getElem?_eq_some_iff.1 hi
  rw [← he, ← List.flatten_cons, ← List.flatten_append, List.getElem_cons_drop,
    List.take_append_drop]

theorem bytesAt?_flatten (hi : fields[i]? = some bs) (h : (fields.take i).flatten.length = offset) :
    bytesAt? (fields.flatten ++ rest) offset bs.length = some bs := by
  rw [flatten_split hi, List.append_assoc, List.append_assoc]
  exact bytesAt?_append h

theorem uintLE?_flatten_bytes (hi : fields[i]? = some (toLE w n))
    (h : (fields.take i).flatten.length = offset) :
    uintLE? (fields.flatten ++ rest) offset w = some (ofLE (toLE w n)) := by
  have hbytes := @bytesAt?_flatten _ rest _ _ _ hi h
  rw [length_toLE] at hbytes
  rw [uintLE?, hbytes, Option.map_some]

theorem uintLE?_flatten (hi : fields[i]? = some (toLE w n))
    (h : (fields.take i).flatten.length = offset) (hn : n < 256 ^ w) :
    uintLE? (fields.flatten ++ rest) offset w = some n := by
  rw [uintLE?_flatten_bytes hi h, ofLE_toLE hn]

end

end Lib
