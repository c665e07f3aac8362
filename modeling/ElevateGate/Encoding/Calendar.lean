import Mathlib.Algebra.GroupWithZero.Nat
import Mathlib.Tactic.Common

/-!
# The proleptic Gregorian calendar

Days and seconds are counted from the first of January of year 1. A date is computed from a day
count by 400-, 100-, 4- and 1-year cycles and then by walking the months of the year, and the
day count is recovered from the date, so distinct instants have distinct fields.
-/

namespace Calendar

/-- The fields of a civil date and time of day, to the second. -/
structure Civil where
  year : Nat
  month : Nat
  day : Nat
  hour : Nat
  minute : Nat
  second : Nat
  deriving DecidableEq, Repr

/-- The Gregorian leap-year rule. -/
def isLeap (year : Nat) : Bool :=
  year % 4 == 0 && (year % 100 != 0 || year % 400 == 0)

/-- The lengths of the months of a year. -/
def monthLengths (year : Nat) : List Nat :=
  [31, if isLeap year then 29 else 28, 31, 30, 31, 30, 31, 31, 30, 31, 30, 31]

/-- The number of days before the first of January of a year. -/
def daysBeforeYear (year : Nat) : Nat :=
  let y := year - 1
  365 * y + y / 4 - y / 100 + y / 400

/-- The year that contains a day. -/
def yearOfDay (day : Nat) : Nat :=
  let n400 := day / 146097
  let r400 := day % 146097
  let n100 := min (r400 / 36524) 3
  let r100 := r400 - n100 * 36524
  let n4 := r100 / 1461
  let r4 := r100 % 1461
  400 * n400 + 100 * n100 + 4 * n4 + min (r4 / 365) 3 + 1

/-- Walk a list of lengths: how many are passed, and the offset within the next. -/
def locate : List Nat → Nat → Nat × Nat
  | [], offset => (0, offset)
  | length :: rest, offset =>
    if offset < length then (0, offset)
    else
      let found := locate rest (offset - length)
      (found.1 + 1, found.2)

/-- The date and time of day of an instant. -/
def civil (seconds : Nat) : Civil :=
  let day := seconds / 86400
  let time := seconds % 86400
  let year := yearOfDay day
  let found := locate (monthLengths year) (day - daysBeforeYear year)
  { year := year
    month := found.1 + 1
    day := found.2 + 1
    hour := time / 3600
    minute := time / 60 % 60
    second := time % 60 }

/-- The instant that a date and time of day denote. -/
def Civil.seconds (c : Civil) : Nat :=
  86400 * (daysBeforeYear c.year + ((monthLengths c.year).take (c.month - 1)).sum + (c.day - 1))
    + (3600 * c.hour + 60 * c.minute + c.second)

/-- The offset is the lengths that were passed and what is left. -/
theorem locate_sum (lengths : List Nat) (offset : Nat) :
    (lengths.take (locate lengths offset).1).sum + (locate lengths offset).2 = offset := by
  induction lengths generalizing offset with
  | nil => simp [locate]
  | cons length rest ih =>
    simp only [locate]
    split
    · simp
    · have := ih (offset - length)
      simp only [List.take_succ_cons, List.sum_cons]
      omega

/-- Where the offset is within the total, the walk ends inside the list and inside a length. -/
theorem locate_bound {lengths : List Nat} {offset bound : Nat} (hsum : offset < lengths.sum)
    (hbound : ∀ length ∈ lengths, length ≤ bound) :
    (locate lengths offset).1 < lengths.length ∧ (locate lengths offset).2 < bound := by
  induction lengths generalizing offset with
  | nil => simp at hsum
  | cons length rest ih =>
    simp only [locate]
    split
    · next hlt =>
      exact ⟨by simp, Nat.lt_of_lt_of_le hlt (hbound length List.mem_cons_self)⟩
    · have hrest : offset - length < rest.sum := by
        simp only [List.sum_cons] at hsum
        omega
      have hfound := ih hrest fun l hl => hbound l (List.mem_cons_of_mem _ hl)
      exact ⟨by simpa using hfound.1, hfound.2⟩

/-- The days before a year, by the cycles that lie before it. -/
private theorem daysBeforeYear_cycles {a b c d : Nat} (hb : b < 4) (hc : c < 25) (hd : d < 4) :
    daysBeforeYear (400 * a + 100 * b + 4 * c + d + 1)
      = 146097 * a + 36524 * b + 1461 * c + 365 * d := by
  have h4 : (400 * a + 100 * b + 4 * c + d) / 4 = 100 * a + 25 * b + c := by omega
  have h100 : (400 * a + 100 * b + 4 * c + d) / 100 = 4 * a + b := by omega
  have h400 : (400 * a + 100 * b + 4 * c + d) / 400 = a := by omega
  simp only [daysBeforeYear, Nat.add_sub_cancel, h4, h100, h400]
  omega

/-- The leap-year rule, by the position of the year in its cycles. -/
private theorem isLeap_cycles {a b c d : Nat} (hb : b < 4) (hc : c < 25) (hd : d < 4) :
    isLeap (400 * a + 100 * b + 4 * c + d + 1) = true ↔ d = 3 ∧ (c ≠ 24 ∨ b = 3) := by
  have h4 : (400 * a + 100 * b + 4 * c + d + 1) % 4 = (d + 1) % 4 := by omega
  have h100 : (400 * a + 100 * b + 4 * c + d + 1) % 100 = (4 * c + d + 1) % 100 := by omega
  have h400 : (400 * a + 100 * b + 4 * c + d + 1) % 400 = (100 * b + 4 * c + d + 1) % 400 := by
    omega
  simp only [isLeap, h4, h100, h400, Bool.and_eq_true, Bool.or_eq_true, beq_iff_eq,
    bne_iff_ne]
  omega

/-- The length of a year. -/
private theorem sum_monthLengths (year : Nat) :
    (monthLengths year).sum = if isLeap year then 366 else 365 := by
  cases h : isLeap year <;> simp [monthLengths, h]

/-- The cycles that lie before the year of a day, and the days left over. -/
private theorem yearOfDay_cycles (day : Nat) : ∃ a b c d r, b < 4 ∧ c < 25 ∧ d < 4 ∧
    day = 146097 * a + 36524 * b + 1461 * c + 365 * d + r ∧
    yearOfDay day = 400 * a + 100 * b + 4 * c + d + 1 ∧
    (r < 365 ∨ (r < 366 ∧ d = 3 ∧ (c ≠ 24 ∨ b = 3))) := by
  let r400 := day % 146097
  let b := min (r400 / 36524) 3
  let r100 := r400 - b * 36524
  let c := r100 / 1461
  let r4 := r100 % 1461
  let d := min (r4 / 365) 3
  have h400 : day = 146097 * (day / 146097) + r400 ∧ r400 < 146097 := by omega
  have h100 : r400 = 36524 * b + r100 ∧ b < 4 ∧ (r100 < 36524 ∨ b = 3 ∧ r100 < 36525) := by omega
  have h4 : r100 = 1461 * c + r4 ∧ r4 < 1461 := by omega
  have h1 : r4 = 365 * d + (r4 - 365 * d) ∧ d < 4 ∧
      (r4 - 365 * d < 365 ∨ d = 3 ∧ r4 - 365 * d < 366) := by omega
  refine ⟨day / 146097, b, c, d, r4 - 365 * d, h100.2.1, by omega, h1.2.1, by omega, rfl, ?_⟩
  omega

/-- Every day lies in the year computed for it. -/
theorem yearOfDay_spec (day : Nat) :
    daysBeforeYear (yearOfDay day) ≤ day ∧
      day - daysBeforeYear (yearOfDay day) < (monthLengths (yearOfDay day)).sum := by
  obtain ⟨a, b, c, d, r, hb, hc, hd, hday, hyear, hr⟩ := yearOfDay_cycles day
  rw [sum_monthLengths, hyear, daysBeforeYear_cycles hb hc hd]
  have hleap := isLeap_cycles (a := a) hb hc hd
  split
  · omega
  · next hnot =>
    have hshort : ¬(d = 3 ∧ (c ≠ 24 ∨ b = 3)) := fun h => hnot (hleap.mpr h)
    omega

/-- An instant is recovered from its date and time of day. -/
theorem seconds_civil (seconds : Nat) : (civil seconds).seconds = seconds := by
  have hyear := yearOfDay_spec (seconds / 86400)
  have hfound := locate_sum (monthLengths (yearOfDay (seconds / 86400)))
    (seconds / 86400 - daysBeforeYear (yearOfDay (seconds / 86400)))
  simp only [civil, Civil.seconds, Nat.add_sub_cancel]
  omega

/-- Distinct instants have distinct fields. -/
theorem civil_injective : Function.Injective civil :=
  Function.LeftInverse.injective seconds_civil

/-- No month is longer than 31 days. -/
private theorem monthLengths_le {year length : Nat} (h : length ∈ monthLengths year) :
    length ≤ 31 := by
  cases hleap : isLeap year <;>
  · simp only [monthLengths, hleap, if_true, Bool.false_eq_true, if_false] at h
    revert length
    decide

/-- Every field below the year fits in two digits. -/
theorem civil_bounds (seconds : Nat) :
    (civil seconds).month < 100 ∧ (civil seconds).day < 100 ∧ (civil seconds).hour < 100 ∧
      (civil seconds).minute < 100 ∧ (civil seconds).second < 100 := by
  obtain ⟨-, hday⟩ := yearOfDay_spec (seconds / 86400)
  obtain ⟨hmonth, hoffset⟩ := locate_bound hday fun _ hlength => monthLengths_le hlength
  have hcount : (monthLengths (yearOfDay (seconds / 86400))).length = 12 := rfl
  rw [hcount] at hmonth
  simp only [civil]
  refine ⟨?_, ?_, ?_, ?_, ?_⟩ <;> omega

/-- Instants before the year 10000 have a year of at most four digits. -/
theorem civil_year_lt {seconds : Nat} (h : seconds < 315537897600) :
    (civil seconds).year < 10000 := by
  have hday := (yearOfDay_spec (seconds / 86400)).1
  simp only [civil]
  by_contra hyear
  simp only [daysBeforeYear] at hday
  omega

end Calendar
