import Mathlib.Algebra.Order.Ring.Int
import Mathlib.Tactic.Common

/-!
# UTC times and their ISO texts

A `Date` is a time in milliseconds around 1970 in the range ECMAScript gives it. `civil` is the
day of the Gregorian calendar, counted in years that begin in March, so that a leap day comes last.
`iso_day_eq_iff` says what the first ten characters of an ISO text tell: the day in the years 0 to
9999, and only its month in the years written with a sign and six digits.
-/

namespace Lib

/-! ## Digits -/

/-- The last `w` decimal digits of `n`. -/
def digits : Nat → Nat → List Char
  | 0, _ => []
  | w + 1, n => digits w (n / 10) ++ [Nat.digitChar (n % 10)]

section
variable {w n m : Nat}

@[simp] theorem length_digits : (digits w n).length = w := by
  induction w generalizing n with
  | zero => rfl
  | succ w ih => rw [digits, List.length_append, ih, List.length_singleton]

theorem digitChar_inj (hn : n < 10) (hm : m < 10) (h : n.digitChar = m.digitChar) : n = m := by
  have hall : ∀ i < 10, ∀ j < 10, i.digitChar = j.digitChar → i = j := by decide
  exact hall n hn m hm h

theorem ascii_digits : ∀ c ∈ digits w n, c.toNat < 128 := by
  have hall : ∀ i < 10, (Nat.digitChar i).toNat < 128 := by decide
  induction w generalizing n with
  | zero => exact List.forall_mem_nil _
  | succ w ih =>
    rw [digits, List.forall_mem_append]
    exact ⟨ih, List.forall_mem_singleton.2 (hall _ (Nat.mod_lt _ (by decide)))⟩

theorem digits_inj (hn : n < 10 ^ w) (hm : m < 10 ^ w) (h : digits w n = digits w m) : n = m := by
  induction w generalizing n m with
  | zero => omega
  | succ w ih =>
    rw [Nat.pow_succ] at hn hm
    rw [digits, digits] at h
    obtain ⟨hdiv, hmod⟩ := List.append_inj' h rfl
    have hd := ih (by omega) (by omega) hdiv
    have hr := digitChar_inj (by omega) (by omega) (List.singleton_inj.1 hmod)
    omega

/-- A sign is no digit. -/
theorem digitChar_ne_sign : n.digitChar ≠ '+' ∧ n.digitChar ≠ '-' := by
  by_cases hn : n < 16
  · have hall : ∀ i < 16, i.digitChar ≠ '+' ∧ i.digitChar ≠ '-' := by decide
    exact hall n hn
  · unfold Nat.digitChar
    simp only [show n ≠ 0 by omega, show n ≠ 1 by omega, show n ≠ 2 by omega, show n ≠ 3 by omega,
      show n ≠ 4 by omega, show n ≠ 5 by omega, show n ≠ 6 by omega, show n ≠ 7 by omega,
      show n ≠ 8 by omega, show n ≠ 9 by omega, show n ≠ 10 by omega, show n ≠ 11 by omega,
      show n ≠ 12 by omega, show n ≠ 13 by omega, show n ≠ 14 by omega, show n ≠ 15 by omega,
      if_false]
    decide

end

/-! ## The calendar -/

structure Civil where
  year : Int
  month : Nat
  day : Nat
  deriving DecidableEq

/-! A cycle of 400 years begins on 1 March of a year divisible by 400. It has four centuries of
36524 days, the last a day longer; a century has 25 times four years of 1461 days, the last time a
day shorter or not; of four years the last is a day longer. -/

/-- The day of the cycle. -/
def dayOfCycle (days : Int) : Int := (days + 719468) % 146097

def century (doc : Int) : Int := min 3 (doc / 36524)

/-- The four years a day of a century is in. -/
def leapCycle (doc : Int) : Int := (doc - 36524 * century doc) / 1461

/-- The day of these four years. -/
def dayOfLeapCycle (doc : Int) : Int := doc - 36524 * century doc - 1461 * leapCycle doc

def yearOfLeapCycle (doc : Int) : Int := min 3 (dayOfLeapCycle doc / 365)

/-- The day of the year, from 1 March on. -/
def dayOfYear (doc : Int) : Int := dayOfLeapCycle doc - 365 * yearOfLeapCycle doc

def yearOfCycle (doc : Int) : Int := 100 * century doc + 4 * leapCycle doc + yearOfLeapCycle doc

/-- The months from March on have 31, 30, 31, 30 and 31 days, twice, and the rest is January and
February. -/
def monthOfYear (doy : Int) : Int := (5 * doy + 2) / 153

/-- The day of the Gregorian calendar, of days since 1970-01-01. -/
def civil (days : Int) : Civil :=
  let doy := dayOfYear (dayOfCycle days)
  let march := monthOfYear doy
  let year := yearOfCycle (dayOfCycle days) + (days + 719468) / 146097 * 400
  { year := if march < 10 then year else year + 1
    month := (if march < 10 then march + 3 else march - 9).toNat
    day := (doy - (153 * march + 2) / 5 + 1).toNat }

example : civil 0 = ⟨1970, 1, 1⟩ ∧ civil (-1) = ⟨1969, 12, 31⟩ ∧ civil 11016 = ⟨2000, 2, 29⟩ ∧
    civil 100000000 = ⟨275760, 9, 13⟩ ∧ civil (-100000000) = ⟨-271821, 4, 20⟩ := by decide

section
variable {days days' doc doc' doy : Int}

theorem dayOfCycle_range : 0 ≤ dayOfCycle days ∧ dayOfCycle days < 146097 := by
  unfold dayOfCycle
  omega

theorem leapCycle_range (h : 0 ≤ doc ∧ doc < 146097) :
    (0 ≤ leapCycle doc ∧ leapCycle doc < 25) ∧
      0 ≤ dayOfLeapCycle doc ∧ dayOfLeapCycle doc < 1461 := by
  unfold dayOfLeapCycle leapCycle century
  omega

theorem dayOfYear_range (h : 0 ≤ doc ∧ doc < 146097) : 0 ≤ dayOfYear doc ∧ dayOfYear doc < 366 := by
  have := leapCycle_range h
  unfold dayOfYear yearOfLeapCycle
  omega

theorem yearOfCycle_range (h : 0 ≤ doc ∧ doc < 146097) :
    0 ≤ yearOfCycle doc ∧ yearOfCycle doc < 400 := by
  have := leapCycle_range h
  unfold yearOfCycle yearOfLeapCycle century
  omega

/-- A year and a day of it make the day of the cycle. -/
theorem dayOfCycle_inj (h : 0 ≤ doc ∧ doc < 146097) (h' : 0 ≤ doc' ∧ doc' < 146097)
    (hy : yearOfCycle doc = yearOfCycle doc') (hd : dayOfYear doc = dayOfYear doc') : doc = doc' := by
  have h₁ := leapCycle_range h
  have h₂ := leapCycle_range h'
  have hc : century doc = century doc' ∧ leapCycle doc = leapCycle doc' ∧
      yearOfLeapCycle doc = yearOfLeapCycle doc' := by
    unfold yearOfCycle yearOfLeapCycle at hy
    unfold yearOfLeapCycle
    omega
  unfold dayOfYear dayOfLeapCycle at hd
  omega

theorem monthOfYear_range (h : 0 ≤ doy ∧ doy < 366) :
    (0 ≤ monthOfYear doy ∧ monthOfYear doy < 12) ∧
      0 ≤ doy - (153 * monthOfYear doy + 2) / 5 ∧ doy - (153 * monthOfYear doy + 2) / 5 < 31 := by
  unfold monthOfYear
  omega

theorem civil_range : (civil days).month < 100 ∧ (civil days).day < 100 := by
  have h := monthOfYear_range (dayOfYear_range (@dayOfCycle_range days))
  unfold civil
  dsimp only
  omega

/-- The date names the day. -/
theorem civil_inj (h : civil days = civil days') : days = days' := by
  have hc := @dayOfCycle_range days
  have hc' := @dayOfCycle_range days'
  have hm := monthOfYear_range (dayOfYear_range hc)
  have hm' := monthOfYear_range (dayOfYear_range hc')
  have hy := yearOfCycle_range hc
  have hy' := yearOfCycle_range hc'
  simp only [civil, Civil.mk.injEq] at h
  obtain ⟨hyear, hmonth, hday⟩ := h
  have hmarch : monthOfYear (dayOfYear (dayOfCycle days)) =
      monthOfYear (dayOfYear (dayOfCycle days')) := by
    omega
  have hdoy : dayOfYear (dayOfCycle days) = dayOfYear (dayOfCycle days') := by
    rw [hmarch] at hday hm
    omega
  have hyoc : yearOfCycle (dayOfCycle days) = yearOfCycle (dayOfCycle days') ∧
      (days + 719468) / 146097 = (days' + 719468) / 146097 := by
    rw [hmarch] at hyear
    omega
  have hdoc := dayOfCycle_inj hc hc' hyoc.1 hdoy
  unfold dayOfCycle at hdoc
  omega

theorem civil_year_range (h : -100000000 ≤ days ∧ days ≤ 100000000) :
    (civil days).year.natAbs < 1000000 := by
  have hy := yearOfCycle_range (@dayOfCycle_range days)
  unfold civil
  dsimp only
  omega

end

/-! ## ISO texts -/

/-- A time, in milliseconds since 1970-01-01T00:00:00Z. -/
structure Date where
  ms : Int
  range : -8640000000000000 ≤ ms ∧ ms ≤ 8640000000000000
  deriving DecidableEq

namespace Date

/-- The time a number of seconds after 1970, where a `Date` holds it. -/
def ofSecs? (secs : Int) : Option Date :=
  if h : -8640000000000000 ≤ secs * 1000 ∧ secs * 1000 ≤ 8640000000000000 then some ⟨secs * 1000, h⟩
  else none

/-- The UTC day, in days since 1970-01-01. -/
def utcDay (d : Date) : Int := d.ms / 86400000

/-- The years written with a sign and six digits. -/
def IsExpandedYear (y : Int) : Prop := ¬(0 ≤ y ∧ y ≤ 9999)

instance : DecidablePred IsExpandedYear := fun y => inferInstanceAs (Decidable ¬(0 ≤ y ∧ y ≤ 9999))

def isoYear (y : Int) : List Char :=
  if IsExpandedYear y then (if y < 0 then '-' else '+') :: digits 6 y.natAbs else digits 4 y.toNat

/-- `YYYY-MM-DD`. -/
def isoDay (c : Civil) : List Char := isoYear c.year ++ '-' :: digits 2 c.month ++ '-' :: digits 2 c.day

/-- `HH:mm:ss.sssZ`, of the milliseconds of a day. -/
def isoTime (ms : Nat) : List Char :=
  digits 2 (ms / 3600000) ++ ':' :: digits 2 (ms / 60000 % 60) ++ ':' :: digits 2 (ms / 1000 % 60) ++
    '.' :: digits 3 (ms % 1000) ++ ['Z']

def toISOString (d : Date) : String :=
  String.ofList (isoDay (civil d.utcDay) ++ 'T' :: isoTime (d.ms % 86400000).toNat)

example : toISOString ⟨3419200000, by decide⟩ = "1970-02-09T13:46:40.000Z" ∧
    toISOString ⟨-1, by decide⟩ = "1969-12-31T23:59:59.999Z" ∧
    toISOString ⟨253402300800000, by decide⟩ = "+010000-01-01T00:00:00.000Z" := by decide

variable {d d' : Date} {y y' : Int} {c c' : Civil}

theorem utcDay_range (d : Date) : -100000000 ≤ d.utcDay ∧ d.utcDay ≤ 100000000 := by
  have := d.range
  unfold utcDay
  omega

theorem length_isoYear : (isoYear y).length = if IsExpandedYear y then 7 else 4 := by
  unfold isoYear
  split
  · rw [List.length_cons, length_digits]
  · exact length_digits

theorem isoYear_inj (hy : y.natAbs < 1000000) (hy' : y'.natAbs < 1000000)
    (h : isoYear y = isoYear y') : y = y' := by
  have hiff : IsExpandedYear y ↔ IsExpandedYear y' := by
    have hlen := congrArg List.length h
    rw [length_isoYear, length_isoYear] at hlen
    by_cases he : IsExpandedYear y <;> by_cases he' : IsExpandedYear y' <;> simp_all
  unfold isoYear at h
  by_cases he : IsExpandedYear y
  · rw [if_pos he, if_pos (hiff.1 he)] at h
    obtain ⟨hsign, hdigits⟩ := List.cons.inj h
    have habs := digits_inj hy hy' hdigits
    have hneg : y < 0 ↔ y' < 0 := by
      split at hsign <;> split at hsign <;> first | omega | exact absurd hsign (by decide)
    omega
  · have he' := mt hiff.2 he
    rw [if_neg he, if_neg he'] at h
    unfold IsExpandedYear at he he'
    have := digits_inj (by omega) (by omega) h
    omega

/-- A year with a sign is told by its first character. -/
theorem isoYear_eq_cons (y : Int) : ∃ c l, isoYear y = c :: l ∧
    (IsExpandedYear y ↔ c = '+' ∨ c = '-') := by
  unfold isoYear
  split
  · refine ⟨_, _, rfl, iff_of_true ‹_› ?_⟩
    split
    · exact .inr rfl
    · exact .inl rfl
  · exact ⟨(y.toNat / 10 / 10 / 10 % 10).digitChar, _, rfl,
      iff_of_false ‹_› (not_or.2 digitChar_ne_sign)⟩

/-- The first ten characters of an ISO text. -/
def isoPrefix (c : Civil) : List Char :=
  if IsExpandedYear c.year then isoYear c.year ++ '-' :: digits 2 c.month else isoDay c

theorem iso_take (d : Date) : d.toISOString.toList.take 10 = isoPrefix (civil d.utcDay) := by
  have hlen := @length_isoYear (civil d.utcDay).year
  rw [toISOString, String.toList_ofList]
  unfold isoPrefix isoDay
  split
  · rw [if_pos ‹_›] at hlen
    rw [List.append_assoc, List.take_append_of_le_length (by simp [hlen]),
      List.take_of_length_le (by simp [hlen])]
  · rw [if_neg ‹_›] at hlen
    rw [List.take_append_of_le_length (by simp [hlen]), List.take_of_length_le (by simp [hlen])]

theorem length_iso_take (d : Date) : (d.toISOString.toList.take 10).length = 10 := by
  have hlen := @length_isoYear (civil d.utcDay).year
  rw [iso_take]
  unfold isoPrefix isoDay
  split
  · rw [if_pos ‹_›] at hlen
    simp [hlen]
  · rw [if_neg ‹_›] at hlen
    simp [hlen]

/-- They are digits and signs. -/
theorem ascii_iso_take (d : Date) : ∀ c ∈ d.toISOString.toList.take 10, c.toNat < 128 := by
  have hsign : ('-' : Char).toNat < 128 ∧ ('+' : Char).toNat < 128 := by decide
  have hyear : ∀ c ∈ isoYear (civil d.utcDay).year, c.toNat < 128 := by
    unfold isoYear
    split
    · refine List.forall_mem_cons.2 ⟨?_, ascii_digits⟩
      split
      · exact hsign.1
      · exact hsign.2
    · exact ascii_digits
  have hpart : ∀ n, ∀ c ∈ '-' :: digits 2 n, c.toNat < 128 := fun n =>
    List.forall_mem_cons.2 ⟨hsign.1, ascii_digits⟩
  rw [iso_take]
  unfold isoPrefix isoDay
  split
  · exact List.forall_mem_append.2 ⟨hyear, hpart _⟩
  · exact List.forall_mem_append.2 ⟨List.forall_mem_append.2 ⟨hyear, hpart _⟩, hpart _⟩

/-- It tells the day, but in a year that takes seven of them only the month. -/
theorem isoPrefix_eq_iff (hy : c.year.natAbs < 1000000) (hy' : c'.year.natAbs < 1000000)
    (hr : c.month < 100 ∧ c.day < 100) (hr' : c'.month < 100 ∧ c'.day < 100) :
    isoPrefix c = isoPrefix c' ↔
      c = c' ∨ (IsExpandedYear c.year ∧ c.year = c'.year ∧ c.month = c'.month) := by
  have hhead : isoPrefix c = isoPrefix c' → (IsExpandedYear c.year ↔ IsExpandedYear c'.year) := by
    obtain ⟨a, l, ha, hsign⟩ := isoYear_eq_cons c.year
    obtain ⟨a', l', ha', hsign'⟩ := isoYear_eq_cons c'.year
    intro h
    have haa : a = a' := by
      unfold isoPrefix isoDay at h
      rw [ha, ha'] at h
      split at h <;> split at h <;> exact (List.cons.inj h).1
    rw [hsign, hsign', haa]
  constructor
  · intro h
    have hiff := hhead h
    have hlen : (isoYear c.year).length = (isoYear c'.year).length := by
      rw [length_isoYear, length_isoYear]
      simp only [hiff]
    unfold isoPrefix isoDay at h
    by_cases he : IsExpandedYear c.year
    · rw [if_pos he, if_pos (hiff.1 he)] at h
      obtain ⟨hyear, hmonth⟩ := List.append_inj h hlen
      have hm := digits_inj hr.1 hr'.1 (List.cons.inj hmonth).2
      exact .inr ⟨he, isoYear_inj hy hy' hyear, hm⟩
    · rw [if_neg he, if_neg (mt hiff.2 he), List.append_assoc, List.append_assoc] at h
      obtain ⟨hyear, hrest⟩ := List.append_inj h hlen
      obtain ⟨hmonth, hday⟩ := List.append_inj hrest (by simp)
      have hm := digits_inj hr.1 hr'.1 (List.cons.inj hmonth).2
      have hd := digits_inj hr.2 hr'.2 (List.cons.inj hday).2
      left
      cases c
      cases c'
      exact Civil.mk.injEq .. ▸ ⟨isoYear_inj hy hy' hyear, hm, hd⟩
  · rintro (rfl | ⟨he, hyear, hmonth⟩)
    · rfl
    · unfold isoPrefix
      rw [if_pos he, ← hyear, if_pos he, hmonth]

/-- Two texts agree in their first ten characters on one day, and where the year has a sign on the
days of one month. -/
theorem iso_take_eq_iff : d.toISOString.toList.take 10 = d'.toISOString.toList.take 10 ↔
    d.utcDay = d'.utcDay ∨ (IsExpandedYear (civil d.utcDay).year ∧
      (civil d.utcDay).year = (civil d'.utcDay).year ∧
      (civil d.utcDay).month = (civil d'.utcDay).month) := by
  rw [iso_take, iso_take, isoPrefix_eq_iff (civil_year_range d.utcDay_range)
    (civil_year_range d'.utcDay_range) civil_range civil_range]
  exact or_congr_left ⟨civil_inj, fun h => h ▸ rfl⟩

end Date

end Lib
