import Mathlib.Algebra.Order.Ring.Int
import Mathlib.Data.List.Basic
import Mathlib.Tactic.Common

/-!
# Text with tags and entities

A strict reader of marked-up text: `<tag>` and `</tag>` must nest, `&name;` must be a known entity,
and `<`, `>` and `&` stand for nothing else. What it gives is what is displayed: the characters,
each with the tags it is in. `Reads d stack s out` says that `s` displays `out` wherever it stands
inside `stack`; the rules below compose such texts, so that a text built from parts is read part by
part.
-/

namespace Lib

/-- The tags and the entities a reader knows. -/
structure Dialect where
  tags : List (List Char)
  entities : List (List Char × Char)

/-- A displayed character, with the tags around it, innermost first. -/
abbrev Shown := List (List Char) × Char

/-- Where a reader is: in the text, or in the name of a tag or of an entity. -/
inductive Mode where
  | text
  | tag (name : List Char)
  | entity (name : List Char)

namespace Dialect

/-- Reads on, inside the tags of `stack`. -/
def readFrom (d : Dialect) : List (List Char) → Mode → List Char → Option (List Shown)
  | stack, .text, [] => if stack = [] then some [] else none
  | _, _, [] => none
  | stack, .text, c :: cs =>
    if c = '<' then d.readFrom stack (.tag []) cs
    else if c = '&' then d.readFrom stack (.entity []) cs
    else if c = '>' then none
    else (d.readFrom stack .text cs).map ((stack, c) :: ·)
  | stack, .tag name, c :: cs =>
    if c = '>' then
      if name ∈ d.tags then d.readFrom (name :: stack) .text cs
      else if stack.head?.map ('/' :: ·) = some name then d.readFrom stack.tail .text cs
      else none
    else d.readFrom stack (.tag (name ++ [c])) cs
  | stack, .entity name, c :: cs =>
    if c = ';' then
      match d.entities.lookup name with
      | some e => (d.readFrom stack .text cs).map ((stack, e) :: ·)
      | none => none
    else d.readFrom stack (.entity (name ++ [c])) cs

/-- What a text displays, if it is well formed. -/
def read (d : Dialect) (s : List Char) : Option (List Shown) := d.readFrom [] .text s

/-- Inside `stack`, the text `s` displays `out`, whatever follows it. -/
def Reads (d : Dialect) (stack : List (List Char)) (s : List Char) (out : List Shown) : Prop :=
  ∀ rest, d.readFrom stack .text (s ++ rest) = (d.readFrom stack .text rest).map (out ++ ·)

/-- A character that is no part of a mark. -/
def IsPlain (c : Char) : Prop := c ≠ '<' ∧ c ≠ '>' ∧ c ≠ '&'

instance (c : Char) : Decidable (IsPlain c) := inferInstanceAs (Decidable (_ ∧ _))

section
variable {d : Dialect} {stack : List (List Char)} {s s' name acc cs : List Char}
  {out out' : List Shown} {c : Char}

/-- The name of a tag, up to its end. -/
theorem readFrom_tag (h : '>' ∉ name) : d.readFrom stack (.tag acc) (name ++ '>' :: cs) =
    d.readFrom stack (.tag (acc ++ name)) ('>' :: cs) := by
  induction name generalizing acc with
  | nil => simp
  | cons c name ih =>
    obtain ⟨hc, hname⟩ := not_or.1 (mt List.mem_cons.2 h)
    rw [List.cons_append, readFrom, if_neg (Ne.symm hc), ih hname, List.append_assoc,
      List.singleton_append]

/-- The name of an entity, up to its end. -/
theorem readFrom_entity (h : ';' ∉ name) : d.readFrom stack (.entity acc) (name ++ ';' :: cs) =
    d.readFrom stack (.entity (acc ++ name)) (';' :: cs) := by
  induction name generalizing acc with
  | nil => simp
  | cons c name ih =>
    obtain ⟨hc, hname⟩ := not_or.1 (mt List.mem_cons.2 h)
    rw [List.cons_append, readFrom, if_neg (Ne.symm hc), ih hname, List.append_assoc,
      List.singleton_append]

theorem readFrom_open (ht : name ∈ d.tags) (h : '>' ∉ name) :
    d.readFrom stack .text ('<' :: (name ++ '>' :: cs)) = d.readFrom (name :: stack) .text cs := by
  rw [readFrom, if_pos rfl, readFrom_tag h, List.nil_append, readFrom, if_pos rfl, if_pos ht]

theorem readFrom_close (ht : '/' :: name ∉ d.tags) (h : '>' ∉ name) :
    d.readFrom (name :: stack) .text ('<' :: '/' :: (name ++ '>' :: cs)) =
      d.readFrom stack .text cs := by
  have h' : '>' ∉ '/' :: name := mt List.mem_cons.1 (not_or.2 ⟨by decide, h⟩)
  rw [← List.cons_append, readFrom, if_pos rfl, readFrom_tag h', List.nil_append, readFrom,
    if_pos rfl, if_neg ht, if_pos (by rfl)]
  rfl

namespace Reads

theorem nil : d.Reads stack [] [] := by
  intro rest
  simp

theorem append (h : d.Reads stack s out) (h' : d.Reads stack s' out') :
    d.Reads stack (s ++ s') (out ++ out') := by
  intro rest
  rw [List.append_assoc, h, h', Option.map_map]
  simp [Function.comp_def]

theorem char (h : IsPlain c) : d.Reads stack [c] [(stack, c)] := by
  intro rest
  rw [List.singleton_append, readFrom, if_neg h.1, if_neg h.2.2, if_neg h.2.1]
  rfl

theorem entity (hc : d.entities.lookup name = some c) (h : ';' ∉ name) :
    d.Reads stack ('&' :: (name ++ [';'])) [(stack, c)] := by
  intro rest
  rw [List.cons_append, List.append_assoc, List.singleton_append, readFrom, if_neg (by decide),
    if_pos rfl, readFrom_entity h, List.nil_append, readFrom, if_pos rfl, hc]
  rfl

/-- Characters, each spelled as it can be. -/
theorem flatMap {f : Char → List Char} (h : ∀ c ∈ s, d.Reads stack (f c) [(stack, c)]) :
    d.Reads stack (s.flatMap f) (s.map (stack, ·)) := by
  induction s with
  | nil => exact .nil
  | cons c s ih =>
    have hs := ih fun x hx => h x (List.mem_cons_of_mem _ hx)
    exact (h c List.mem_cons_self).append hs

theorem element (ht : name ∈ d.tags) (hc : '/' :: name ∉ d.tags) (h : '>' ∉ name)
    (hs : d.Reads (name :: stack) s out) :
    d.Reads stack ('<' :: (name ++ '>' :: (s ++ '<' :: '/' :: (name ++ ['>'])))) out := by
  intro rest
  simp only [List.cons_append, List.append_assoc, List.nil_append]
  rw [readFrom_open ht h, hs, readFrom_close hc h]

/-- Parts, one after the other. -/
theorem flatten {α : Type} {l : List α} {f : α → List Char} {g : α → List Shown}
    (h : ∀ x ∈ l, d.Reads stack (f x) (g x)) : d.Reads stack (l.flatMap f) (l.flatMap g) := by
  induction l with
  | nil => exact .nil
  | cons x l ih =>
    have hl := ih fun y hy => h y (List.mem_cons_of_mem _ hy)
    exact (h x List.mem_cons_self).append hl

/-- A whole text. -/
theorem read (h : d.Reads [] s out) : d.read s = some out := by
  have h₀ := h []
  rw [List.append_nil] at h₀
  rw [Dialect.read, h₀, readFrom, if_pos rfl, Option.map_some, List.append_nil]

end Reads

end

end Dialect

end Lib
