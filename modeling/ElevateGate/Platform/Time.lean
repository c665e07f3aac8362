import ElevateGate.Encoding.Calendar
import ElevateGate.Encoding.Decimal

/-!
# Instants as Python and .NET hold them

Python's aware UTC `datetime` counts microseconds and .NET's `DateTimeOffset` counts ticks of 100
nanoseconds and remembers an offset; both run from year 1 to year 9999. An instant crosses from
one to the other as a JSON text.
-/

namespace ElevateGate.Time

open Calendar

/-- The number of microseconds from year 1 to the end of year 9999. -/
def maxMicros : Nat := 315537897600000000

/-- The number of ticks from year 1 to the end of year 9999. -/
def maxTicks : Nat := 3155378976000000000

/-- An aware Python `datetime` in UTC, in microseconds since the start of year 1. -/
structure Datetime where
  micros : Nat
  lt_max : micros < maxMicros
  deriving DecidableEq

instance : LE Datetime := ⟨fun a b => a.micros ≤ b.micros⟩

instance : LT Datetime := ⟨fun a b => a.micros < b.micros⟩

instance (a b : Datetime) : Decidable (a ≤ b) := inferInstanceAs (Decidable (a.micros ≤ b.micros))

instance (a b : Datetime) : Decidable (a < b) := inferInstanceAs (Decidable (a.micros < b.micros))

/-- `dt + timedelta(seconds=...)`, or `none` where Python raises `OverflowError`. -/
def Datetime.addSeconds (dt : Datetime) (seconds : Int) : Option Datetime :=
  let micros := (dt.micros : Int) + 1000000 * seconds
  if h : 0 ≤ micros ∧ micros < maxMicros then
    some ⟨micros.toNat, by have := h.1; have := h.2; omega⟩
  else none

/-- The date and time of day of a `datetime`. -/
def Datetime.civil (dt : Datetime) : Civil :=
  Calendar.civil (dt.micros / 1000000)

/-- The `microsecond` attribute of a `datetime`. -/
def Datetime.microsecond (dt : Datetime) : Nat :=
  dt.micros % 1000000

/-- A .NET `DateTimeOffset`: an instant in UTC ticks and the offset that its clock time has. -/
structure DateTimeOffset where
  utcTicks : Nat
  offsetMinutes : Int
  utcTicks_lt : utcTicks < maxTicks
  clock_nonneg : 0 ≤ (utcTicks : Int) + 600000000 * offsetMinutes
  clock_lt : (utcTicks : Int) + 600000000 * offsetMinutes < maxTicks
  offset_le : offsetMinutes.natAbs ≤ 840
  deriving DecidableEq

/-- An instant with offset zero. -/
def DateTimeOffset.utc (ticks : Nat) (h : ticks < maxTicks) : DateTimeOffset where
  utcTicks := ticks
  offsetMinutes := 0
  utcTicks_lt := h
  clock_nonneg := by omega
  clock_lt := by omega
  offset_le := by decide

/-- `DateTimeOffset.MinValue`. -/
def DateTimeOffset.minValue : DateTimeOffset := .utc 0 (by decide)

/-- `DateTimeOffset.ToUniversalTime`. -/
def DateTimeOffset.toUniversalTime (t : DateTimeOffset) : DateTimeOffset :=
  .utc t.utcTicks t.utcTicks_lt

/-- The clock time of an instant at its own offset. -/
def DateTimeOffset.clockTicks (t : DateTimeOffset) : Nat :=
  ((t.utcTicks : Int) + 600000000 * t.offsetMinutes).toNat

/-- .NET compares `DateTimeOffset`s by instant. -/
instance : LE DateTimeOffset := ⟨fun a b => a.utcTicks ≤ b.utcTicks⟩

instance : LT DateTimeOffset := ⟨fun a b => a.utcTicks < b.utcTicks⟩

instance (a b : DateTimeOffset) : Decidable (a ≤ b) :=
  inferInstanceAs (Decidable (a.utcTicks ≤ b.utcTicks))

instance (a b : DateTimeOffset) : Decidable (a < b) :=
  inferInstanceAs (Decidable (a.utcTicks < b.utcTicks))

/-- A date and time of day in ISO 8601, after the digits of the year. -/
def clockText (c : Civil) : List Char :=
  '-' :: (Decimal.pad 2 c.month ++ '-' :: (Decimal.pad 2 c.day ++ 'T' :: (Decimal.pad 2 c.hour ++
    ':' :: (Decimal.pad 2 c.minute ++ ':' :: Decimal.pad 2 c.second))))

/-- The offset as `+hh:mm` or `-hh:mm`. -/
def offsetText (minutes : Int) : List Char :=
  (if minutes < 0 then '-' else '+') ::
    (Decimal.pad 2 (minutes.natAbs / 60) ++ ':' :: Decimal.pad 2 (minutes.natAbs % 60))

/-- `DateTimeOffset.ToString("O")`: seven fraction digits and the offset. -/
def DateTimeOffset.toStringO (t : DateTimeOffset) : String :=
  let c := Calendar.civil (t.clockTicks / 10000000)
  String.ofList (Decimal.pad 4 c.year ++ (clockText c ++ ('.' ::
    (Decimal.pad 7 (t.clockTicks % 10000000) ++ offsetText t.offsetMinutes))))

@[simp] theorem clockTicks_utc {ticks : Nat} (h : ticks < maxTicks) :
    (DateTimeOffset.utc ticks h).clockTicks = ticks := by
  simp [DateTimeOffset.utc, DateTimeOffset.clockTicks]

/-- The text of a date and time of day has a fixed length. -/
@[simp] theorem length_clockText (c : Civil) : (clockText c).length = 15 := by
  simp [clockText]

/-- The text determines the date and time of day. -/
theorem clockText_injective {a b : Nat} (hyear : (civil a).year = (civil b).year)
    (h : clockText (civil a) = clockText (civil b)) : civil a = civil b := by
  obtain ⟨hmonth, hday, hhour, hminute, hsecond⟩ := civil_bounds a
  obtain ⟨hmonth', hday', hhour', hminute', hsecond'⟩ := civil_bounds b
  obtain ⟨h1, h⟩ := List.append_inj (List.cons.inj h).2 (by simp)
  obtain ⟨h2, h⟩ := List.append_inj (List.cons.inj h).2 (by simp)
  obtain ⟨h3, h⟩ := List.append_inj (List.cons.inj h).2 (by simp)
  obtain ⟨h4, h⟩ := List.append_inj (List.cons.inj h).2 (by simp)
  have h5 := (List.cons.inj h).2
  have e1 := @Decimal.pad_injective 2 _ _ hmonth hmonth' h1
  have e2 := @Decimal.pad_injective 2 _ _ hday hday' h2
  have e3 := @Decimal.pad_injective 2 _ _ hhour hhour' h3
  have e4 := @Decimal.pad_injective 2 _ _ hminute hminute' h4
  have e5 := @Decimal.pad_injective 2 _ _ hsecond hsecond' h5
  generalize civil a = c at *
  generalize civil b = d at *
  cases c
  cases d
  simp_all

/-- In universal time the round-trip format determines the instant. -/
theorem toStringO_injective {s t : DateTimeOffset}
    (h : s.toUniversalTime.toStringO = t.toUniversalTime.toStringO) : s.utcTicks = t.utcTicks := by
  have hs := s.utcTicks_lt
  have ht := t.utcTicks_lt
  simp only [DateTimeOffset.toStringO, DateTimeOffset.toUniversalTime, clockTicks_utc,
    String.ofList_inj] at h
  simp only [maxTicks] at hs ht
  obtain ⟨hyear, h⟩ := List.append_inj h (by simp)
  obtain ⟨hclock, h⟩ := List.append_inj h (by simp)
  obtain ⟨hfraction, -⟩ := List.append_inj (List.cons.inj h).2 (by simp)
  have eyear := Decimal.pad_injective (civil_year_lt (by omega)) (civil_year_lt (by omega)) hyear
  have eseconds := civil_injective (clockText_injective eyear hclock)
  have efraction := @Decimal.pad_injective 7 _ _ (Nat.mod_lt _ (by decide))
    (Nat.mod_lt _ (by decide)) hfraction
  omega

end ElevateGate.Time
