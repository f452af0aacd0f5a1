import Mathlib.Algebra.Order.Ring.Int
import Mathlib.Tactic.Common

/-!
# Checked machine arithmetic

The checked operations of fixed-width integers: the exact result when it is representable,
`none` otherwise. Each comes with one lemma (`_eq_some`) that turns a success into the exact
equation in `Nat` or `Int`, and one (`_of`) that gives the success from the bound.
-/

namespace Lib

/-! ## Unsigned -/

def checkedAdd8 (a b : UInt8) : Option UInt8 :=
  if a.toNat + b.toNat < 2 ^ 8 then some (a + b) else none

def checkedSub8 (a b : UInt8) : Option UInt8 :=
  if b.toNat ≤ a.toNat then some (a - b) else none

def checkedAdd32 (a b : UInt32) : Option UInt32 :=
  if a.toNat + b.toNat < 2 ^ 32 then some (a + b) else none

def checkedAdd64 (a b : UInt64) : Option UInt64 :=
  if a.toNat + b.toNat < 2 ^ 64 then some (a + b) else none

/-- `usize` multiplication and addition; `usize` is 64 bits wide on the target. -/
def checkedMulUsize (a b : Nat) : Option Nat := if a * b < 2 ^ 64 then some (a * b) else none

def checkedAddUsize (a b : Nat) : Option Nat := if a + b < 2 ^ 64 then some (a + b) else none

def checkedSubUsize (a b : Nat) : Option Nat := if b ≤ a then some (a - b) else none

theorem checkedAdd8_eq_some {a b c : UInt8} (h : checkedAdd8 a b = some c) :
    c.toNat = a.toNat + b.toNat := by
  unfold checkedAdd8 at h
  split at h
  · cases h
    rw [UInt8.toNat_add, Nat.mod_eq_of_lt ‹_›]
  · cases h

theorem checkedSub8_eq_some {a b c : UInt8} (h : checkedSub8 a b = some c) :
    c.toNat + b.toNat = a.toNat := by
  unfold checkedSub8 at h
  split at h
  · cases h
    rw [UInt8.toNat_sub_of_le _ _ (UInt8.le_iff_toNat_le.2 ‹_›)]
    omega
  · cases h

theorem checkedAdd32_eq_some {a b c : UInt32} (h : checkedAdd32 a b = some c) :
    c.toNat = a.toNat + b.toNat := by
  unfold checkedAdd32 at h
  split at h
  · cases h
    rw [UInt32.toNat_add, Nat.mod_eq_of_lt ‹_›]
  · cases h

theorem checkedAdd64_eq_some {a b c : UInt64} (h : checkedAdd64 a b = some c) :
    c.toNat = a.toNat + b.toNat := by
  unfold checkedAdd64 at h
  split at h
  · cases h
    rw [UInt64.toNat_add, Nat.mod_eq_of_lt ‹_›]
  · cases h

theorem checkedAdd64_of {a b : UInt64} (h : a.toNat + b.toNat < 2 ^ 64) :
    checkedAdd64 a b = some (a + b) := if_pos h

theorem checkedAdd8_of {a b : UInt8} (h : a.toNat + b.toNat < 2 ^ 8) :
    checkedAdd8 a b = some (a + b) := if_pos h

theorem checkedSub8_of {a b : UInt8} (h : b.toNat ≤ a.toNat) :
    checkedSub8 a b = some (a - b) := if_pos h

theorem checkedAdd32_of {a b : UInt32} (h : a.toNat + b.toNat < 2 ^ 32) :
    checkedAdd32 a b = some (a + b) := if_pos h

theorem checkedMulUsize_of {a b : Nat} (h : a * b < 2 ^ 64) :
    checkedMulUsize a b = some (a * b) := if_pos h

theorem checkedAddUsize_of {a b : Nat} (h : a + b < 2 ^ 64) :
    checkedAddUsize a b = some (a + b) := if_pos h

/-! ## Signed 64-bit -/

/-- The `Int64` of an integer in range. -/
def toI64 (n : Int) : Option Int64 :=
  if -2 ^ 63 ≤ n ∧ n < 2 ^ 63 then some (Int64.ofInt n) else none

def checkedAddI64 (a b : Int64) : Option Int64 := toI64 (a.toInt + b.toInt)

def checkedSubI64 (a b : Int64) : Option Int64 := toI64 (a.toInt - b.toInt)

def checkedMulI64 (a b : Int64) : Option Int64 := toI64 (a.toInt * b.toInt)

/-- Division truncates toward zero; a zero divisor fails. -/
def checkedDivI64 (a b : Int64) : Option Int64 :=
  if b.toInt = 0 then none else toI64 (a.toInt.tdiv b.toInt)

/-- `u8::try_from` of an `i64`. -/
def toU8 (a : Int64) : Option UInt8 :=
  if 0 ≤ a.toInt ∧ a.toInt < 2 ^ 8 then some (UInt8.ofNat a.toInt.toNat) else none

theorem toI64_eq_some {n : Int} {c : Int64} (h : toI64 n = some c) : c.toInt = n := by
  unfold toI64 at h
  split at h
  · rename_i hn
    cases h
    exact Int64.toInt_ofInt_of_le hn.1 hn.2
  · cases h

theorem toI64_of {n : Int} (h1 : -2 ^ 63 ≤ n) (h2 : n < 2 ^ 63) :
    ∃ c, toI64 n = some c ∧ c.toInt = n :=
  ⟨_, if_pos ⟨h1, h2⟩, Int64.toInt_ofInt_of_le h1 h2⟩

theorem toI64_eq_some_iff {n : Int} {c : Int64} : toI64 n = some c ↔ c.toInt = n := by
  refine ⟨toI64_eq_some, fun h => ?_⟩
  have hlo := Int64.le_toInt c
  have hhi := Int64.toInt_lt c
  obtain ⟨d, hd, he⟩ := toI64_of (h ▸ hlo) (h ▸ hhi)
  rw [hd, Int64.toInt_inj.1 (he.trans h.symm)]

/-- By a positive divisor only the quotient counts. -/
theorem checkedDivI64_eq_some {a b c : Int64} (hb : 0 < b.toInt) :
    checkedDivI64 a b = some c ↔ c.toInt = a.toInt.tdiv b.toInt := by
  rw [checkedDivI64, if_neg (by omega), toI64_eq_some_iff]

theorem toU8_eq_some {a : Int64} {b : UInt8} : toU8 a = some b ↔ a.toInt = b.toNat := by
  have hb := b.toNat_lt
  unfold toU8
  split
  · rename_i ha
    rw [Option.some.injEq, ← UInt8.toNat_inj, UInt8.toNat_ofNat']
    omega
  · rename_i ha
    simp only [reduceCtorEq, false_iff]
    omega

/-- Truncation sends a negative dividend to a quotient that is not positive. -/
theorem tdiv_nonpos {a b : Int} (ha : a ≤ 0) (hb : 0 < b) : a.tdiv b ≤ 0 := by
  have h := Int.tdiv_nonneg (a := -a) (by omega) (Int.le_of_lt hb)
  rw [Int.neg_tdiv] at h
  omega

end Lib
