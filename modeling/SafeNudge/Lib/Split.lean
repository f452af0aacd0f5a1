import Mathlib.Algebra.Order.Ring.Int
import Mathlib.Data.List.Infix
import Mathlib.Data.List.Basic
import Mathlib.Tactic.Common

/-!
# Cutting a text at a word

`split sep l` are the parts of `l` between the occurrences of `sep`, from the left and without
overlap; put together with `sep` they are `l` again, and no part contains `sep`. A word without the
first and the last character of a marker that occurs in a text with the marker in it occurs before
the marker, inside it, or behind it (`occurs_marker`), so that a marker put in for the separator
does not bring words back (`occurs_intercalate`).
-/

namespace Lib

variable {α : Type}

/-! ## Occurrences around a marker -/

section
variable {a b x y p inner : List α} {c o e : α}

/-- A word is on one side of a character it does not contain. -/
theorem occurs_cons (hc : c ∉ p) (h : a ++ c :: b = x ++ (p ++ y)) :
    (∃ y', a = x ++ (p ++ y') ∧ y = y' ++ c :: b) ∨ ∃ x', b = x' ++ (p ++ y) := by
  rcases List.append_eq_append_iff.1 h with ⟨d, rfl, hd⟩ | ⟨d, rfl, hd⟩
  · cases d with
    | nil =>
      cases p with
      | nil => exact .inl ⟨[], by simp, by simpa using hd.symm⟩
      | cons c' p =>
        obtain ⟨rfl, -⟩ := List.cons.inj hd
        exact absurd List.mem_cons_self hc
    | cons c' d =>
      obtain ⟨rfl, rfl⟩ := List.cons.inj hd
      exact .inr ⟨d, rfl⟩
  · rcases List.append_eq_append_iff.1 hd with ⟨d', rfl, hd'⟩ | ⟨d', rfl, hd'⟩
    · exact .inl ⟨d', rfl, hd'⟩
    · cases d' with
      | nil => exact .inl ⟨[], by simp, by simpa using hd'.symm⟩
      | cons c' d' =>
        obtain ⟨rfl, -⟩ := List.cons.inj hd'
        simp at hc

/-- A word is before a marker, inside it or behind it, if it contains neither end of the marker. -/
theorem occurs_marker (ho : o ∉ p) (he : e ∉ p)
    (h : a ++ (o :: inner ++ [e] ++ b) = x ++ (p ++ y)) :
    (∃ y', a = x ++ (p ++ y') ∧ y = y' ++ (o :: inner ++ [e] ++ b)) ∨ p <:+: inner ∨
      ∃ x', b = x' ++ (p ++ y) := by
  rw [List.append_assoc, List.cons_append, List.singleton_append] at h ⊢
  rcases occurs_cons ho h with hbefore | ⟨x', h'⟩
  · exact .inl hbefore
  · rcases occurs_cons he h' with ⟨y', rfl, -⟩ | hbehind
    · exact .inr (.inl ⟨x', y', List.append_assoc ..⟩)
    · exact .inr (.inr hbehind)

end

/-! ## Splitting -/

variable [DecidableEq α]

/-- The loop of `split`: how much of a separator is still to skip, and the part it is in. -/
def splitLoop (sep : List α) : Nat → List α → List α → List (List α)
  | _, part, [] => [part]
  | n + 1, part, _ :: l => splitLoop sep n part l
  | 0, part, c :: l =>
    if sep <+: c :: l then part :: splitLoop sep (sep.length - 1) [] l
    else splitLoop sep 0 (part ++ [c]) l

/-- `l.split(sep)`, for a separator that is not empty. -/
def split (sep l : List α) : List (List α) := splitLoop sep 0 [] l

variable {sep part l : List α} {n : Nat}

theorem splitLoop_zero {c : α} : splitLoop sep 0 part (c :: l) =
    if sep <+: c :: l then part :: splitLoop sep (sep.length - 1) [] l
    else splitLoop sep 0 (part ++ [c]) l := by
  rw [splitLoop]

theorem splitLoop_ne_nil : splitLoop sep n part l ≠ [] := by
  induction l generalizing n part with
  | nil =>
    rw [splitLoop]
    exact List.cons_ne_nil _ _
  | cons c l ih =>
    cases n with
    | succ n =>
      rw [splitLoop]
      exact ih
    | zero =>
      rw [splitLoop_zero]
      split
      · exact List.cons_ne_nil _ _
      · exact ih

theorem intercalate_splitLoop (hsep : sep ≠ []) (hn : n ≤ l.length) :
    sep.intercalate (splitLoop sep n part l) = part ++ l.drop n := by
  induction l generalizing n part with
  | nil =>
    rw [splitLoop, List.intercalate_singleton, List.drop_nil, List.append_nil]
  | cons c l ih =>
    cases n with
    | succ n =>
      rw [splitLoop, ih (Nat.le_of_succ_le_succ hn), List.drop_succ_cons]
    | zero =>
      rw [splitLoop_zero]
      split
      · obtain ⟨rest, hrest⟩ := ‹sep <+: c :: l›
        obtain ⟨c', sep', rfl⟩ := List.exists_cons_of_ne_nil hsep
        obtain ⟨rfl, rfl⟩ := List.cons.inj hrest
        rw [List.intercalate_cons_of_ne_nil splitLoop_ne_nil, ih (by simp)]
        simp
      · rw [ih (Nat.zero_le _)]
        simp

/-- The parts, with the separator between them, are the text. -/
theorem intercalate_split (hsep : sep ≠ []) : sep.intercalate (split sep l) = l :=
  intercalate_splitLoop hsep (Nat.zero_le _)

/-- No part contains the separator: it does not begin in what the loop has read of a part. -/
theorem not_infix_of_mem_splitLoop (hsep : sep ≠ [])
    (hpart : ∀ i < part.length, ¬sep <+: (part ++ l.drop n).drop i) {part' : List α}
    (h : part' ∈ splitLoop sep n part l) : ¬sep <:+: part' := by
  have hend : ∀ {part rest : List α}, (∀ i < part.length, ¬sep <+: (part ++ rest).drop i) →
      ¬sep <:+: part := by
    intro part rest hpart ⟨x, y, hxy⟩
    have hlt : x.length < part.length := by
      have := List.length_pos_iff.2 hsep
      rw [← hxy, List.length_append, List.length_append]
      omega
    refine hpart x.length hlt ⟨y ++ rest, ?_⟩
    rw [← hxy]
    simp
  induction l generalizing n part with
  | nil =>
    rw [splitLoop, List.mem_singleton] at h
    subst h
    exact hend hpart
  | cons c l ih =>
    cases n with
    | succ n =>
      rw [splitLoop] at h
      exact ih hpart h
    | zero =>
      rw [splitLoop_zero] at h
      split at h
      · rcases List.mem_cons.1 h with rfl | h
        · exact hend hpart
        · exact ih (fun _ hi => absurd hi (Nat.not_lt_zero _)) h
      · refine ih (fun i hi hprefix => ?_) h
        rw [List.length_append, List.length_singleton] at hi
        rw [List.drop_zero, List.append_assoc, List.singleton_append] at hprefix
        by_cases hi' : i < part.length
        · exact hpart i hi' hprefix
        · have hi'' : i = part.length := by omega
          subst hi''
          rw [List.drop_left] at hprefix
          exact ‹¬sep <+: c :: l› hprefix

theorem not_infix_of_mem_split (hsep : sep ≠ []) (h : part ∈ split sep l) : ¬sep <:+: part :=
  not_infix_of_mem_splitLoop hsep (fun _ hi => absurd hi (Nat.not_lt_zero _)) h

/-! ## Parts around markers -/

omit [DecidableEq α] in
/-- A word that occurs in parts with a marker between them occurs in a part; and with a separator
between the parts it is followed by what followed it, or by the separator. -/
theorem occurs_intercalate {parts : List (List α)} {p x y inner : List α} {o e : α} (hp : p ≠ [])
    (ho : o ∉ p) (he : e ∉ p) (hinner : ¬p <:+: inner) (sep : List α)
    (h : (o :: inner ++ [e]).intercalate parts = x ++ (p ++ y)) :
    (∃ part ∈ parts, p <:+: part) ∧
      ∃ x' y', sep.intercalate parts = x' ++ (p ++ y') ∧ (y'.head? = y.head? ∨ sep <+: y') := by
  induction parts generalizing x with
  | nil =>
    rw [List.intercalate_nil] at h
    simp [hp] at h
  | cons part parts ih =>
    by_cases hnil : parts = []
    · subst hnil
      rw [List.intercalate_singleton] at h ⊢
      exact ⟨⟨part, List.mem_cons_self, x, y, by rw [h, List.append_assoc]⟩, x, y, h, .inl rfl⟩
    · rw [List.intercalate_cons_of_ne_nil hnil] at h ⊢
      rw [List.append_assoc] at h
      rcases occurs_marker ho he h with ⟨y', rfl, rfl⟩ | hin | ⟨x', hx'⟩
      · refine ⟨⟨_, List.mem_cons_self, x, y', List.append_assoc ..⟩, x,
          y' ++ (sep ++ sep.intercalate parts), by simp, ?_⟩
        cases y' with
        | nil => exact .inr (List.prefix_append _ _)
        | cons c y' => exact .inl rfl
      · exact absurd hin hinner
      · obtain ⟨⟨part', hmem, hpart⟩, x'', y'', heq, hfollow⟩ := ih hx'
        refine ⟨⟨part', .tail _ hmem, hpart⟩, part ++ sep ++ x'', y'', ?_, hfollow⟩
        rw [heq]
        simp

end Lib
