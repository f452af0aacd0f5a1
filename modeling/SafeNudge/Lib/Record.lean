import Mathlib.Algebra.Order.Ring.Int
import Mathlib.Data.List.Basic
import Mathlib.Data.List.Induction
import Mathlib.Data.List.Nodup
import Mathlib.Data.List.TakeWhile
import Mathlib.Tactic.Common

/-!
# Plain JavaScript objects as maps

A `Record` holds the own properties of an object in the order of `Object.entries`: array indices
first and ascending, then the other names as they were added. Assignment keeps the place of a
property that exists. `in` also finds the properties every object inherits.
-/

namespace Lib

variable {α : Type}

/-- The array index a property name is. -/
def arrayIndex? (k : String) : Option Nat :=
  let n := k.toList.foldl (fun n c => n * 10 + (c.toNat - 48)) 0
  if k.toList = Nat.toDigits 10 n ∧ n < 2 ^ 32 - 1 then some n else none

/-- Adds a property that does not exist yet. -/
def insertEntry (l : List (String × α)) (k : String) (v : α) : List (String × α) :=
  match arrayIndex? k with
  | none => l ++ [(k, v)]
  | some i =>
    let before : String × α → Bool := fun e => (arrayIndex? e.1).any (· < i)
    l.takeWhile before ++ (k, v) :: l.dropWhile before

theorem insertEntry_perm {l : List (String × α)} {k : String} {v : α} :
    (insertEntry l k v).Perm ((k, v) :: l) := by
  unfold insertEntry
  split
  · exact List.perm_append_singleton _ _
  · refine List.perm_middle.trans (.cons _ ?_)
    rw [List.takeWhile_append_dropWhile]

theorem arrayIndex?_inj {k k' : String} {i : Nat} (h : arrayIndex? k = some i)
    (h' : arrayIndex? k' = some i) : k = k' := by
  have hdigits : ∀ {k : String}, arrayIndex? k = some i → k.toList = Nat.toDigits 10 i := by
    intro k h
    obtain ⟨hdec, heq⟩ := Option.ite_none_right_eq_some.1 h
    exact Option.some.inj heq ▸ hdec.1
  exact String.toList_inj.1 ((hdigits h).trans (hdigits h').symm)

/-- A property of the name `k'` that is added after one of the name `k` comes after it. -/
def Precedes (k k' : String) : Prop := ∀ j ∈ arrayIndex? k', ∃ i ∈ arrayIndex? k, i < j

theorem insertEntry_of_precedes {l : List (String × α)} {k : String} {v : α}
    (h : ∀ e ∈ l, Precedes e.1 k) : insertEntry l k v = l ++ [(k, v)] := by
  unfold insertEntry
  split
  · rfl
  · rename_i i hi
    have hbefore : ∀ e ∈ l, ((arrayIndex? e.1).any (· < i)) = true := by
      intro e he
      obtain ⟨j, hj, hlt⟩ := h e he i hi
      rw [hj]
      exact decide_eq_true hlt
    dsimp only
    rw [List.takeWhile_eq_self_iff.2 hbefore, List.dropWhile_eq_nil_iff.2 hbefore]

/-- The names stay in the order of `Object.keys`. -/
theorem insertEntry_ordered {l : List (String × α)} {k : String} {v : α}
    (hl : l.Pairwise fun e e' => Precedes e.1 e'.1) (hk : ∀ e ∈ l, e.1 ≠ k) :
    (insertEntry l k v).Pairwise fun e e' => Precedes e.1 e'.1 := by
  cases hi : arrayIndex? k with
  | none =>
    have hlast : ∀ e ∈ l, Precedes e.1 k := by
      intro e _ j hj
      rw [hi] at hj
      cases hj
    rw [insertEntry_of_precedes hlast, List.pairwise_append]
    exact ⟨hl, List.pairwise_singleton .., fun e he e' he' => List.mem_singleton.1 he' ▸ hlast e he⟩
  | some i =>
    unfold insertEntry
    rw [hi]
    dsimp only
    induction l with
    | nil => exact List.pairwise_singleton ..
    | cons e l ih =>
      rw [List.pairwise_cons] at hl
      obtain ⟨hek, hk⟩ := List.forall_mem_cons.1 hk
      rw [List.takeWhile_cons, List.dropWhile_cons]
      by_cases he : (arrayIndex? e.1).any (· < i) = true
      · rw [if_pos he, if_pos he, List.cons_append, List.pairwise_cons]
        refine ⟨fun e' he' => ?_, ih hl.2 hk⟩
        rw [List.perm_middle.mem_iff, List.takeWhile_append_dropWhile, List.mem_cons] at he'
        rcases he' with rfl | he'
        · intro j hj
          rw [hi] at hj
          cases hj
          obtain ⟨i₀, hi₀, hlt⟩ := (Option.any_eq_true ..).1 he
          exact ⟨i₀, hi₀, of_decide_eq_true hlt⟩
        · exact hl.1 e' he'
      · rw [if_neg he, if_neg he, List.nil_append, List.pairwise_cons]
        have hge : ∀ j ∈ arrayIndex? e.1, i < j := by
          intro j hj
          have hne : j ≠ i := fun h => hek (arrayIndex?_inj hj (h ▸ hi))
          rw [hj] at he
          have : ¬j < i := by simpa using he
          omega
        refine ⟨fun e' he' j hj => ⟨i, hi, ?_⟩, List.pairwise_cons.2 hl⟩
        rcases List.mem_cons.1 he' with rfl | he'
        · exact hge j hj
        · obtain ⟨i₀, hi₀, hlt⟩ := hl.1 e' he' j hj
          exact Nat.lt_trans (hge i₀ hi₀) hlt

/-- A list that names no key twice is a map. -/
theorem mem_iff_lookup {l : List (String × α)} (hl : (l.map Prod.fst).Nodup) {k : String} {v : α} :
    (k, v) ∈ l ↔ l.lookup k = some v := by
  induction l with
  | nil => simp
  | cons e l ih =>
    obtain ⟨k₀, v₀⟩ := e
    rw [List.map_cons, List.nodup_cons] at hl
    rw [List.lookup_cons, List.mem_cons, Prod.mk.injEq]
    by_cases hk : k = k₀
    · subst hk
      have hnot : (k, v) ∉ l := fun hm => hl.1 (List.mem_map.2 ⟨_, hm, rfl⟩)
      simp [hnot, eq_comm]
    · have hbeq : (k == k₀) = false := beq_eq_false_iff_ne.2 hk
      simp [hk, ih hl.2, hbeq]

theorem lookup_filter {l : List (String × α)} (hl : (l.map Prod.fst).Nodup) {k : String}
    (p : α → Bool) : (l.filter fun e => p e.2).lookup k = (l.lookup k).filter p := by
  have hf : ((l.filter fun e => p e.2).map Prod.fst).Nodup := hl.sublist (List.filter_sublist.map _)
  apply Option.ext
  intro v
  rw [← mem_iff_lookup hf, List.mem_filter, mem_iff_lookup hl, Option.filter_eq_some_iff]

@[ext]
structure Record (α : Type) where
  entries : List (String × α)
  nodup : (entries.map Prod.fst).Nodup

namespace Record

variable {r : Record α} {k k' : String} {v : α}

def empty : Record α := ⟨[], .nil⟩

/-- `Object.keys(r)`. -/
def keys (r : Record α) : List String := r.entries.map Prod.fst

/-- `r[k]`, for an own property. -/
def get? (r : Record α) (k : String) : Option α := r.entries.lookup k

/-- `r[k] = v`. -/
def set (r : Record α) (k : String) (v : α) : Record α where
  entries :=
    if k ∈ r.keys then r.entries.map fun e => if e.1 = k then (k, v) else e
    else insertEntry r.entries k v
  nodup := by
    split
    · have hkeys : (r.entries.map fun e => if e.1 = k then (k, v) else e).map Prod.fst = r.keys := by
        rw [List.map_map]
        refine List.map_congr_left fun e _ => ?_
        dsimp only [Function.comp_apply]
        split
        · exact Eq.symm ‹_›
        · rfl
      rw [hkeys]
      exact r.nodup
    · exact ((insertEntry_perm.map Prod.fst).nodup_iff).2 (.cons ‹_› r.nodup)

/-- The names every object inherits. -/
def inherited : List String :=
  ["constructor", "__defineGetter__", "__defineSetter__", "hasOwnProperty", "__lookupGetter__",
    "__lookupSetter__", "isPrototypeOf", "propertyIsEnumerable", "toString", "valueOf", "__proto__",
    "toLocaleString"]

/-- `k in r`. -/
def has (r : Record α) (k : String) : Bool := (r.get? k).isSome || inherited.contains k

@[simp] theorem get?_empty : (empty : Record α).get? k = none := rfl

theorem mem_entries : (k, v) ∈ r.entries ↔ r.get? k = some v := mem_iff_lookup r.nodup

theorem mem_keys : k ∈ r.keys ↔ (r.get? k).isSome := by
  unfold keys
  rw [List.mem_map, Option.isSome_iff_exists]
  constructor
  · intro ⟨e, he, hk⟩
    exact ⟨e.2, mem_entries.1 (hk ▸ he)⟩
  · intro ⟨v, hv⟩
    exact ⟨(k, v), mem_entries.2 hv, rfl⟩

@[simp] theorem get?_set : (r.set k v).get? k' = if k' = k then some v else r.get? k' := by
  apply Option.ext
  intro v'
  rw [← mem_entries]
  unfold set
  by_cases hold : k ∈ r.keys
  · simp only [if_pos hold, List.mem_map]
    constructor
    · intro ⟨e, he, heq⟩
      by_cases hk : e.1 = k
      · rw [if_pos hk] at heq
        obtain ⟨rfl, rfl⟩ := Prod.mk.inj heq
        exact if_pos rfl
      · rw [if_neg hk] at heq
        subst heq
        rw [if_neg hk]
        exact mem_entries.1 he
    · intro h
      by_cases hk : k' = k
      · rw [if_pos hk] at h
        obtain ⟨e, he, hek⟩ := List.mem_map.1 hold
        exact ⟨e, he, by rw [if_pos hek, hk, Option.some.inj h]⟩
      · rw [if_neg hk] at h
        exact ⟨(k', v'), mem_entries.2 h, if_neg hk⟩
  · simp only [if_neg hold, insertEntry_perm.mem_iff, List.mem_cons, Prod.mk.injEq]
    by_cases hk : k' = k
    · subst hk
      have hnone : r.get? k' = none := Option.not_isSome_iff_eq_none.1 (mt mem_keys.2 hold)
      simp [mem_entries, hnone, eq_comm]
    · simp [hk, mem_entries]

/-- Assigns one property after the other. -/
def setAll (r : Record α) (l : List (String × α)) : Record α := l.foldl (fun r e => r.set e.1 e.2) r

theorem setAll_append {l l' : List (String × α)} : r.setAll (l ++ l') = (r.setAll l).setAll l' :=
  List.foldl_append

/-- The last assignment to a property stays. -/
theorem get?_setAll_reverse {l : List (String × α)} :
    (r.setAll l).get? k = (l.reverse.lookup k).or (r.get? k) := by
  induction l using List.reverseRecOn with
  | nil => rfl
  | append_singleton l e ih =>
    rw [setAll_append, List.reverse_append, List.reverse_singleton, List.singleton_append]
    show ((r.setAll l).set e.1 e.2).get? k = _
    rw [get?_set, ih, List.lookup_cons]
    by_cases hk : k = e.1
    · simp [hk]
    · have hbeq : (k == e.1) = false := beq_eq_false_iff_ne.2 hk
      simp [hk, hbeq]

theorem get?_setAll {l : List (String × α)} (hl : (l.map Prod.fst).Nodup) :
    (r.setAll l).get? k = (l.lookup k).or (r.get? k) := by
  have hrev : (l.reverse.map Prod.fst).Nodup := by
    rw [List.map_reverse, List.nodup_reverse]
    exact hl
  have hlookup : l.reverse.lookup k = l.lookup k := by
    apply Option.ext
    intro v
    rw [← mem_iff_lookup hrev, ← mem_iff_lookup hl, List.mem_reverse]
  rw [get?_setAll_reverse, hlookup]

/-! ## Order -/

/-- The entries stand in the order of `Object.entries`. -/
def IsOrdered (r : Record α) : Prop := r.entries.Pairwise fun e e' => Precedes e.1 e'.1

theorem isOrdered_empty : (empty : Record α).IsOrdered := .nil

/-- Assignments keep it. -/
theorem IsOrdered.set (hr : r.IsOrdered) (k : String) (v : α) : (r.set k v).IsOrdered := by
  unfold IsOrdered Record.set at *
  by_cases hk : k ∈ r.keys
  · simp only [if_pos hk]
    rw [List.pairwise_map]
    refine hr.imp fun {e e'} h => ?_
    by_cases he : e.1 = k <;> by_cases he' : e'.1 = k <;> simp_all
  · simp only [if_neg hk]
    exact insertEntry_ordered hr fun e he hek => hk (List.mem_map.2 ⟨e, he, hek⟩)

theorem IsOrdered.setAll {l : List (String × α)} (hr : r.IsOrdered) : (r.setAll l).IsOrdered := by
  unfold Record.setAll
  induction l generalizing r with
  | nil => exact hr
  | cons e l ih => exact ih (hr.set e.1 e.2)

/-- Assigning the entries of an object one after the other makes the object. -/
theorem setAll_entries {l : List (String × α)} (ho : l.Pairwise fun e e' => Precedes e.1 e'.1)
    (hl : (l.map Prod.fst).Nodup) : (empty.setAll l).entries = l := by
  induction l using List.reverseRecOn with
  | nil => rfl
  | append_singleton l e ih =>
    rw [List.pairwise_append] at ho
    rw [List.map_append, List.nodup_append] at hl
    obtain ⟨hold, -, hprecedes⟩ := ho
    obtain ⟨hnodup, -, hnew⟩ := hl
    have hstep : empty.setAll (l ++ [e]) = (empty.setAll l).set e.1 e.2 := by
      unfold setAll
      rw [List.foldl_append]
      rfl
    have hentries := ih hold hnodup
    have hnot : e.1 ∉ (empty.setAll l).keys := by
      unfold keys
      rw [hentries]
      exact fun hmem => hnew e.1 hmem e.1 (by simp) rfl
    rw [hstep]
    unfold set
    dsimp only
    rw [if_neg hnot, hentries]
    exact insertEntry_of_precedes fun e' he' => hprecedes e' he' e (by simp)

/-- The properties with a value that `f` reads. -/
def filterMap {β : Type} (f : α → Option β) (r : Record α) : Record β where
  entries := r.entries.filterMap fun e => (f e.2).map (e.1, ·)
  nodup := by
    have hsub : ∀ l : List (String × α),
        ((l.filterMap fun e => (f e.2).map (e.1, ·)).map Prod.fst).Sublist (l.map Prod.fst) := by
      intro l
      induction l with
      | nil => exact .slnil
      | cons e l ih =>
        rw [List.filterMap_cons]
        cases f e.2 with
        | none => exact ih.cons _
        | some v => exact ih.cons_cons _
    exact r.nodup.sublist (hsub r.entries)

theorem entries_setAll_map {β : Type} {g : α → β} (hr : r.IsOrdered) :
    (empty.setAll (r.entries.map fun e => (e.1, g e.2))).entries =
      r.entries.map fun e => (e.1, g e.2) := by
  apply setAll_entries
  · rw [List.pairwise_map]
    exact hr
  · rw [List.map_map]
    exact r.nodup

/-- What is written value by value is read back. -/
theorem filterMap_setAll_map {β : Type} {f : β → Option α} {g : α → β} (hr : r.IsOrdered)
    (hfg : ∀ e ∈ r.entries, f (g e.2) = some e.2) :
    (empty.setAll (r.entries.map fun e => (e.1, g e.2))).filterMap f = r := by
  apply Record.ext
  calc (filterMap f (empty.setAll (r.entries.map fun e => (e.1, g e.2)))).entries
      = (r.entries.map fun e => (e.1, g e.2)).filterMap fun e => (f e.2).map (e.1, ·) :=
        congrArg (List.filterMap _) (entries_setAll_map hr)
    _ = r.entries.filterMap some := by
        rw [List.filterMap_map]
        refine List.filterMap_congr fun e he => ?_
        dsimp only [Function.comp_apply]
        rw [hfg e he]
        rfl
    _ = r.entries := List.filterMap_some

theorem has_eq (hk : k ∉ inherited) : r.has k = (r.get? k).isSome := by
  unfold has
  rw [List.contains_eq_mem, decide_eq_false hk, Bool.or_false]

end Record

end Lib
