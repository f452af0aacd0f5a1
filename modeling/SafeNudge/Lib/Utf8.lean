import Mathlib.Algebra.Order.Ring.Int
import Mathlib.Tactic.Common

/-!
# UTF-8 text

`encode` gives the bytes of a string. `decode` reads any bytes as text the way browsers and Node
do: it takes what forms a character, and a replacement character stands for each longest part that
cannot be continued to one. `decode_encode`: it reads every string back.
-/

namespace Lib.Utf8

/-- The bytes of a string. -/
def encode (s : String) : List UInt8 := s.toList.flatMap String.utf8EncodeChar

/-- The character that stands for bytes that are none. -/
def replacement : Char := Char.ofNat 0xFFFD

/-- The decoder between two bytes: the code point so far, the bytes it still needs, and the range
of the next one. -/
structure State where
  codePoint : Nat
  needed : Nat
  lower : Nat
  upper : Nat

def start : State := ⟨0, 0, 0x80, 0xBF⟩

/-- A byte at the beginning of a character. -/
def first (b : Nat) : List Char × State :=
  if b ≤ 0x7F then ([Char.ofNat b], start)
  else if 0xC2 ≤ b ∧ b ≤ 0xDF then ([], ⟨b % 32, 1, 0x80, 0xBF⟩)
  else if 0xE0 ≤ b ∧ b ≤ 0xEF then
    ([], ⟨b % 16, 2, if b = 0xE0 then 0xA0 else 0x80, if b = 0xED then 0x9F else 0xBF⟩)
  else if 0xF0 ≤ b ∧ b ≤ 0xF4 then
    ([], ⟨b % 8, 3, if b = 0xF0 then 0x90 else 0x80, if b = 0xF4 then 0x8F else 0xBF⟩)
  else ([replacement], start)

/-- The next byte. One that does not continue the character begins another. -/
def next (s : State) (b : Nat) : List Char × State :=
  if s.needed = 0 then first b
  else if s.lower ≤ b ∧ b ≤ s.upper then
    if s.needed = 1 then ([Char.ofNat (s.codePoint * 64 + b % 64)], start)
    else ([], ⟨s.codePoint * 64 + b % 64, s.needed - 1, 0x80, 0xBF⟩)
  else (replacement :: (first b).1, (first b).2)

def run : State → List UInt8 → List Char
  | s, [] => if s.needed = 0 then [] else [replacement]
  | s, b :: bs => (next s b.toNat).1 ++ run (next s b.toNat).2 bs

/-- The text of any bytes. -/
def decode (bs : List UInt8) : String := String.ofList (run start bs)

/-! ## The round trip -/

section
variable {s : State} {b n : Nat} {bs : List UInt8} {c : Char}

theorem run_ofNat (hn : n < 256) :
    run s (.ofNat n :: bs) = (next s n).1 ++ run (next s n).2 bs := by
  rw [run, UInt8.toNat_ofNat', Nat.mod_eq_of_lt hn]

theorem next_start : next start b = first b := if_pos rfl

/-- A continuation byte that is not the last one. -/
theorem next_more (h : 1 < s.needed) (hl : s.lower ≤ b) (hu : b ≤ s.upper) :
    next s b = ([], ⟨s.codePoint * 64 + b % 64, s.needed - 1, 0x80, 0xBF⟩) := by
  rw [next, if_neg (by omega), if_pos ⟨hl, hu⟩, if_neg (by omega)]

/-- The last continuation byte. -/
theorem next_last (h : s.needed = 1) (hl : s.lower ≤ b) (hu : b ≤ s.upper) :
    next s b = ([Char.ofNat (s.codePoint * 64 + b % 64)], start) := by
  rw [next, if_neg (by omega), if_pos ⟨hl, hu⟩, if_pos h]

theorem first_two (hl : 0xC2 ≤ b) (hu : b ≤ 0xDF) :
    first b = ([], ⟨b % 32, 1, 0x80, 0xBF⟩) := by
  rw [first, if_neg (by omega), if_pos ⟨hl, hu⟩]

theorem first_three (hl : 0xE0 ≤ b) (hu : b ≤ 0xEF) :
    first b =
      ([], ⟨b % 16, 2, if b = 0xE0 then 0xA0 else 0x80, if b = 0xED then 0x9F else 0xBF⟩) := by
  rw [first, if_neg (by omega), if_neg (by omega), if_pos ⟨hl, hu⟩]

theorem first_four (hl : 0xF0 ≤ b) (hu : b ≤ 0xF4) :
    first b =
      ([], ⟨b % 8, 3, if b = 0xF0 then 0x90 else 0x80, if b = 0xF4 then 0x8F else 0xBF⟩) := by
  rw [first, if_neg (by omega), if_neg (by omega), if_neg (by omega), if_pos ⟨hl, hu⟩]

/-- The bytes of one character are read as that character. -/
theorem run_encodeChar : run start (String.utf8EncodeChar c ++ bs) = c :: run start bs := by
  have hv : c.val.toNat = c.toNat := rfl
  have hvalid := c.valid
  simp only [UInt32.isValidChar, Nat.isValidChar, hv] at hvalid
  have hc := c.ofNat_toNat
  unfold String.utf8EncodeChar
  simp only [hv]
  generalize c.toNat = v at *
  split
  · rw [List.singleton_append, run_ofNat (by omega), next_start, first, if_pos ‹_›, hc]
    rfl
  split
  · simp only [List.cons_append, List.nil_append]
    rw [run_ofNat (by omega), next_start, first_two (by omega) (by omega), List.nil_append,
      run_ofNat (by omega), next_last rfl (by dsimp only; omega) (by dsimp only; omega)]
    dsimp only
    rw [show (v / 64 % 32 + 192) % 32 * 64 + (v % 64 + 128) % 64 = v by omega, hc]
    rfl
  split
  · simp only [List.cons_append, List.nil_append]
    rw [run_ofNat (by omega), next_start, first_three (by omega) (by omega), List.nil_append,
      run_ofNat (by omega),
      next_more (by dsimp only; omega) (by dsimp only; split <;> omega) (by dsimp only; split <;> omega),
      List.nil_append, run_ofNat (by omega),
      next_last rfl (by dsimp only; omega) (by dsimp only; omega)]
    dsimp only
    rw [show ((v / 4096 % 16 + 224) % 16 * 64 + (v / 64 % 64 + 128) % 64) * 64 +
      (v % 64 + 128) % 64 = v by omega, hc]
    rfl
  · simp only [List.cons_append, List.nil_append]
    rw [run_ofNat (by omega), next_start, first_four (by omega) (by omega), List.nil_append,
      run_ofNat (by omega),
      next_more (by dsimp only; omega) (by dsimp only; split <;> omega) (by dsimp only; split <;> omega),
      List.nil_append, run_ofNat (by omega),
      next_more (by dsimp only; omega) (by dsimp only; omega) (by dsimp only; omega),
      List.nil_append, run_ofNat (by omega),
      next_last rfl (by dsimp only; omega) (by dsimp only; omega)]
    dsimp only
    rw [show (((v / 262144 % 8 + 240) % 8 * 64 + (v / 4096 % 64 + 128) % 64) * 64 +
      (v / 64 % 64 + 128) % 64) * 64 + (v % 64 + 128) % 64 = v by omega, hc]
    rfl

end

theorem run_encode {l : List Char} : run start (l.flatMap String.utf8EncodeChar) = l := by
  induction l with
  | nil => rfl
  | cons c l ih => rw [List.flatMap_cons, run_encodeChar, ih]

/-- Every string is read back. -/
theorem decode_encode {s : String} : decode (encode s) = s := by
  rw [decode, encode, run_encode, String.ofList_toList]

theorem encode_inj {s s' : String} (h : encode s = encode s') : s = s' := by
  rw [← @decode_encode s, h, decode_encode]

theorem length_encode_eq {s : String} : (encode s).length = s.utf8ByteSize := by
  have h : s.toByteArray = s.toList.utf8Encode := by
    rw [← String.toByteArray_ofList, String.ofList_toList]
  rw [← String.size_toByteArray, h, List.utf8Encode, List.size_toByteArray]
  rfl

/-! ## ASCII -/

def IsAscii (s : String) : Prop := ∀ c ∈ s.toList, c.toNat < 128

instance : DecidablePred IsAscii := fun s =>
  decidable_of_iff (s.toList.all (·.toNat < 128) = true) (by simp [IsAscii])

/-- Text of ASCII characters has a byte for each. -/
theorem length_encode {s : String} (h : IsAscii s) : (encode s).length = s.length := by
  have hone : ∀ l : List Char, (∀ c ∈ l, c.toNat < 128) →
      (l.flatMap String.utf8EncodeChar).length = l.length := by
    intro l hl
    induction l with
    | nil => rfl
    | cons c l ih =>
      have hc : c.utf8Size = 1 :=
        Char.utf8Size_eq_one_iff.2 (UInt32.le_iff_toNat_le.2 (Nat.le_of_lt_succ (hl c
          List.mem_cons_self)))
      rw [List.flatMap_cons, List.length_append, String.length_utf8EncodeChar, hc,
        ih fun x hx => hl x (List.mem_cons_of_mem _ hx), List.length_cons, Nat.add_comm]
  rw [encode, hone _ h, String.length_toList]

end Lib.Utf8
