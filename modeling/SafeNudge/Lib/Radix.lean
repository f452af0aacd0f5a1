import Mathlib.Data.List.TakeWhile
import Mathlib.Data.Nat.Digits.Lemmas
import Mathlib.Tactic.Common

/-!
# Digit strings in two bases

A digit string, most significant digit first, is its leading zeros and the number the rest denotes.
`convert a b` keeps both and changes the base, so that it can be undone (`convert_convert`): the
leading zeros of a string are not lost although they do not count in the number. `Base58` spells
bytes so.
-/

namespace Lib

/-- The zeros a digit string begins with. -/
def leadingZeros (l : List Nat) : Nat := (l.takeWhile (· = 0)).length

/-- The number a digit string denotes. -/
def ofDigitString (b : Nat) (l : List Nat) : Nat := Nat.ofDigits b l.reverse

/-- The digit string with these leading zeros that denotes `n`. -/
def digitString (b zeros n : Nat) : List Nat := .replicate zeros 0 ++ (Nat.digits b n).reverse

def convert (a b : Nat) (l : List Nat) : List Nat :=
  digitString b (leadingZeros l) (ofDigitString a l)

section
variable {a b zeros n : Nat} {l : List Nat}

theorem takeWhile_zero : l.takeWhile (· = 0) = .replicate (leadingZeros l) 0 := by
  refine List.eq_replicate_of_mem fun d hd => ?_
  simpa using List.mem_takeWhile_imp hd

/-- A digit string is its leading zeros and a string that begins with another digit. -/
theorem eq_leadingZeros_append : l = .replicate (leadingZeros l) 0 ++ l.dropWhile (· = 0) := by
  rw [← takeWhile_zero, List.takeWhile_append_dropWhile]

theorem ofDigitString_replicate_append :
    ofDigitString b (.replicate zeros 0 ++ l) = ofDigitString b l := by
  rw [ofDigitString, List.reverse_append, List.reverse_replicate,
    Nat.ofDigits_append_replicate_zero, ofDigitString]

theorem leadingZeros_digitString : leadingZeros (digitString b zeros n) = zeros := by
  have hd : ((Nat.digits b n).reverse).takeWhile (· = 0) = [] := by
    by_cases hn : n = 0
    · subst hn
      simp
    · have hne : Nat.digits b n ≠ [] := Nat.digits_ne_nil_iff_ne_zero.2 hn
      rw [List.takeWhile_eq_nil_iff]
      intro h0
      rw [List.get_eq_getElem, List.getElem_reverse]
      simpa [List.getLast_eq_getElem] using Nat.getLast_digit_ne_zero b hn
  rw [leadingZeros, digitString, List.takeWhile_append_of_pos (by simp), hd, List.append_nil,
    List.length_replicate]

theorem ofDigitString_digitString : ofDigitString b (digitString b zeros n) = n := by
  rw [digitString, ofDigitString_replicate_append, ofDigitString, List.reverse_reverse,
    Nat.ofDigits_digits]

/-- A digit string is determined by its leading zeros and its number. -/
theorem digitString_ofDigitString (hb : 1 < b) (hl : ∀ d ∈ l, d < b) :
    digitString b (leadingZeros l) (ofDigitString b l) = l := by
  have hrest : Nat.digits b (ofDigitString b (l.dropWhile (· = 0))) =
      (l.dropWhile (· = 0)).reverse := by
    refine Nat.digits_ofDigits b hb _ (fun d hd => ?_) fun hne => ?_
    · exact hl d ((List.dropWhile_sublist _).subset (List.mem_reverse.1 hd))
    · rw [List.getLast_reverse]
      have hhead := List.head_dropWhile_not (fun d : Nat => decide (d = 0)) (l := l)
        (by simpa using hne)
      exact of_decide_eq_false hhead
  conv_rhs => rw [eq_leadingZeros_append (l := l)]
  rw [digitString]
  congr 1
  conv_lhs => rw [eq_leadingZeros_append (l := l), ofDigitString_replicate_append, hrest]
  rw [List.reverse_reverse]

theorem mem_digitString (hb : 1 < b) {d : Nat} (hd : d ∈ digitString b zeros n) : d < b := by
  rcases List.mem_append.1 hd with hd | hd
  · rw [(List.mem_replicate.1 hd).2]
    omega
  · exact Nat.digits_lt_base hb (List.mem_reverse.1 hd)

/-- Changing the base can be undone. -/
theorem convert_convert (ha : 1 < a) (hl : ∀ d ∈ l, d < a) :
    convert b a (convert a b l) = l := by
  rw [convert, convert, leadingZeros_digitString, ofDigitString_digitString,
    digitString_ofDigitString ha hl]

theorem mem_convert (hb : 1 < b) {d : Nat} (hd : d ∈ convert a b l) : d < b := mem_digitString hb hd

end

/-! ## Base 58 -/

namespace Base58

def alphabet : List Char := "123456789ABCDEFGHJKLMNPQRSTUVWXYZabcdefghijkmnopqrstuvwxyz".toList

def digit (d : Nat) : Char := alphabet.getD d '1'

def value? (c : Char) : Option Nat := (List.range 58).find? fun d => digit d = c

def encode (bytes : List UInt8) : String :=
  String.ofList ((convert 256 58 (bytes.map UInt8.toNat)).map digit)

def decode? (s : String) : Option (List UInt8) := do
  let digits ← s.toList.mapM value?
  return (convert 58 256 digits).map UInt8.ofNat

/-- The alphabet, character by character. -/
theorem alphabet_eq : alphabet = ['1', '2', '3', '4', '5', '6', '7', '8', '9', 'A', 'B', 'C', 'D',
    'E', 'F', 'G', 'H', 'J', 'K', 'L', 'M', 'N', 'P', 'Q', 'R', 'S', 'T', 'U', 'V', 'W', 'X', 'Y',
    'Z', 'a', 'b', 'c', 'd', 'e', 'f', 'g', 'h', 'i', 'j', 'k', 'm', 'n', 'o', 'p', 'q', 'r', 's',
    't', 'u', 'v', 'w', 'x', 'y', 'z'] := rfl

theorem value?_digit : ∀ d < 58, value? (digit d) = some d := by
  unfold value? digit
  rw [alphabet_eq]
  decide

theorem digit_mem {d : Nat} (hd : d < 58) : digit d ∈ alphabet := by
  have hlt : d < alphabet.length := by rwa [alphabet_eq]
  rw [digit, List.getD_eq_getElem?_getD, List.getElem?_eq_getElem hlt, Option.getD_some]
  exact List.getElem_mem hlt

theorem alphabet_isAlphanum : ∀ c ∈ alphabet, c.isAlphanum := by
  rw [alphabet_eq]
  exact List.all_eq_true.1 (by decide)

theorem mapM_value? {l : List Nat} (h : ∀ d ∈ l, d < 58) : (l.map digit).mapM value? = some l := by
  induction l with
  | nil => rfl
  | cons d l ih =>
    have hl := ih fun x hx => h x (List.mem_cons_of_mem _ hx)
    rw [List.map_cons, List.mapM_cons, value?_digit d (h d List.mem_cons_self), hl]
    rfl

theorem decode?_encode (bytes : List UInt8) : decode? (encode bytes) = some bytes := by
  have hbytes : ∀ d ∈ bytes.map UInt8.toNat, d < 256 := by
    intro d hd
    obtain ⟨x, -, rfl⟩ := List.mem_map.1 hd
    exact x.toNat_lt
  rw [decode?, encode, String.toList_ofList,
    mapM_value? fun d hd => mem_convert (by decide) hd, Option.bind_eq_bind, Option.bind_some,
    convert_convert (by decide) hbytes, List.map_map,
    show UInt8.ofNat ∘ UInt8.toNat = id from funext fun _ => UInt8.ofNat_toNat, List.map_id]
  rfl

theorem encode_inj {bytes bytes' : List UInt8} (h : encode bytes = encode bytes') :
    bytes = bytes' := by
  have h' := congrArg decode? h
  rw [decode?_encode, decode?_encode] at h'
  exact Option.some.inj h'

theorem isAlphanum_of_mem_encode {bytes : List UInt8} {c : Char} (h : c ∈ (encode bytes).toList) :
    c.isAlphanum := by
  rw [encode, String.toList_ofList] at h
  obtain ⟨d, hd, rfl⟩ := List.mem_map.1 h
  exact alphabet_isAlphanum _ (digit_mem (mem_convert (by decide) hd))

end Base58

end Lib
