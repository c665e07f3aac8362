import ElevateGate.Platform.Time

/-!
# Instants in JSON

The backend writes an aware `datetime` as an ISO 8601 text and the agent reads it into a
`DateTimeOffset`. All that the two programs rely on is that the instant survives. `JsonDates.iso`
is a writer and reader that do this, with fraction digits only where the microsecond is not zero.
In the other direction an instant arrives without what is less than a microsecond;
`RequestDates.iso` is a writer and reader that do this.
-/

namespace ElevateGate.Time

open Calendar

/-- How instants cross from the backend to the agent: `write` is pydantic's serializer and `read`
is `System.Text.Json`'s parser. -/
structure JsonDates where
  write : Datetime → String
  read : String → Option DateTimeOffset
  read_write : ∀ dt, ∃ t, read (write dt) = some t ∧ t.utcTicks = 10 * dt.micros

/-- An aware UTC `datetime` in ISO 8601, with six fraction digits unless they are all zero. -/
def writeIso (dt : Datetime) : String :=
  String.ofList (Decimal.pad 4 dt.civil.year ++ (clockText dt.civil ++
    if dt.microsecond = 0 then ['Z'] else '.' :: (Decimal.pad 6 dt.microsecond ++ ['Z'])))

/-- The ticks denoted by what follows the seconds of a text in universal time. -/
def readFraction : List Char → Option Nat
  | ['Z'] => some 0
  | '.' :: digits =>
    if digits.getLast? = some 'Z' ∧ digits.length ≤ 8 then
      (Decimal.read digits.dropLast).map (· * 10 ^ (8 - digits.length))
    else none
  | _ => none

/-- The instant at a tick count, if .NET can hold it. -/
def ofTicks (ticks : Nat) : Option DateTimeOffset :=
  if h : ticks < maxTicks then some (.utc ticks h) else none

/-- Read an ISO 8601 text in universal time. -/
def readIso (s : String) : Option DateTimeOffset := do
  let text := s.toList
  let year ← Decimal.read (text.take 4)
  let month ← Decimal.read ((text.drop 5).take 2)
  let day ← Decimal.read ((text.drop 8).take 2)
  let hour ← Decimal.read ((text.drop 11).take 2)
  let minute ← Decimal.read ((text.drop 14).take 2)
  let second ← Decimal.read ((text.drop 17).take 2)
  let fraction ← readFraction (text.drop 19)
  ofTicks (10000000 * Civil.seconds ⟨year, month, day, hour, minute, second⟩ + fraction)

/-- The ticks of the fraction are read back. -/
private theorem readFraction_microsecond (dt : Datetime) :
    readFraction (if dt.microsecond = 0 then ['Z']
      else '.' :: (Decimal.pad 6 dt.microsecond ++ ['Z'])) = some (10 * dt.microsecond) := by
  split
  · next hzero => rw [hzero]; rfl
  · have hlt : dt.microsecond < 10 ^ 6 := Nat.mod_lt _ (by decide)
    have hlast : (Decimal.pad 6 dt.microsecond ++ ['Z']).getLast? = some 'Z' := by simp
    have hlength : (Decimal.pad 6 dt.microsecond ++ ['Z']).length = 7 := by simp
    rw [readFraction, if_pos ⟨hlast, by omega⟩, List.dropLast_concat,
      Decimal.read_pad (by decide) hlt, hlength, Option.map_some, Nat.mul_comm]
    simp

/-- The fields of a text are found at their positions. -/
private theorem fields_at (c : Civil) (rest : List Char) :
    let text := Decimal.pad 4 c.year ++ (clockText c ++ rest)
    text.take 4 = Decimal.pad 4 c.year ∧
      (text.drop 5).take 2 = Decimal.pad 2 c.month ∧
      (text.drop 8).take 2 = Decimal.pad 2 c.day ∧
      (text.drop 11).take 2 = Decimal.pad 2 c.hour ∧
      (text.drop 14).take 2 = Decimal.pad 2 c.minute ∧
      (text.drop 17).take 2 = Decimal.pad 2 c.second ∧ text.drop 19 = rest :=
  ⟨rfl, rfl, rfl, rfl, rfl, rfl, rfl⟩

/-- The reader inverts the writer. -/
theorem readIso_writeIso (dt : Datetime) :
    ∃ t, readIso (writeIso dt) = some t ∧ t.utcTicks = 10 * dt.micros := by
  have hlt := dt.lt_max
  simp only [maxMicros] at hlt
  have hmax : 10 * dt.micros < maxTicks := by
    simp only [maxTicks]
    omega
  refine ⟨.utc (10 * dt.micros) hmax, ?_, rfl⟩
  obtain ⟨hmonth, hday, hhour, hminute, hsecond⟩ := civil_bounds (dt.micros / 1000000)
  have hyear := @civil_year_lt (dt.micros / 1000000) (by omega)
  have hfraction := readFraction_microsecond dt
  have hticks : 10000000 * (civil (dt.micros / 1000000)).seconds + 10 * dt.microsecond
      = 10 * dt.micros := by
    rw [seconds_civil, Datetime.microsecond]
    omega
  rw [readIso, writeIso, String.toList_ofList]
  generalize (if dt.microsecond = 0 then ['Z']
    else '.' :: (Decimal.pad 6 dt.microsecond ++ ['Z'])) = rest at hfraction ⊢
  rw [Datetime.civil]
  generalize civil (dt.micros / 1000000) = c at *
  obtain ⟨e1, e2, e3, e4, e5, e6, e7⟩ := fields_at c rest
  have htwo : ∀ {n}, n < 100 → Decimal.read (Decimal.pad 2 n) = some n :=
    fun h => Decimal.read_pad (by decide) h
  have hfour : Decimal.read (Decimal.pad 4 c.year) = some c.year :=
    Decimal.read_pad (by decide) hyear
  simp only [e1, e2, e3, e4, e5, e6, e7, hfour, htwo hmonth, htwo hday, htwo hhour, htwo hminute,
    htwo hsecond, hfraction, Option.bind_eq_bind, Option.bind_some, hticks]
  exact dif_pos hmax

/-- ISO 8601 texts carry instants without loss. -/
def JsonDates.iso : JsonDates where
  write := writeIso
  read := readIso
  read_write := readIso_writeIso

/-- How instants cross from the agent to the backend: `write` is `System.Text.Json`'s serializer and
`read` is pydantic's parser, which drops what is less than a microsecond. -/
structure RequestDates where
  write : DateTimeOffset → String
  read : String → Option Datetime
  read_write : ∀ t, ∃ dt, read (write t) = some dt ∧ dt.micros = t.utcTicks / 10

/-- A `DateTimeOffset` in ISO 8601 at its own offset, with seven fraction digits unless they are all
zero. -/
def writeOffset (t : DateTimeOffset) : String :=
  let c := civil (t.clockTicks / 10000000)
  String.ofList (Decimal.pad 4 c.year ++ (clockText c ++ ((if t.clockTicks % 10000000 = 0 then []
    else '.' :: Decimal.pad 7 (t.clockTicks % 10000000)) ++ offsetText t.offsetMinutes)))

/-- The ticks denoted by what stands between the seconds and the offset. -/
def readTicks : List Char → Option Nat
  | [] => some 0
  | '.' :: digits =>
    if digits.length ≤ 7 then (Decimal.read digits).map (· * 10 ^ (7 - digits.length)) else none
  | _ => none

/-- The minutes denoted by an offset. -/
def readMinutes (cs : List Char) : Option Int := do
  let hours ← Decimal.read ((cs.drop 1).take 2)
  let minutes ← Decimal.read ((cs.drop 4).take 2)
  match cs.head? with
  | some '+' => return ((60 * hours + minutes : Nat) : Int)
  | some '-' => return -((60 * hours + minutes : Nat) : Int)
  | _ => none

/-- The instant at a microsecond count, if Python can hold it. -/
def ofMicros (micros : Int) : Option Datetime :=
  if h : micros.toNat < maxMicros then some ⟨micros.toNat, h⟩ else none

/-- Read an ISO 8601 text with an offset. -/
def readOffset (s : String) : Option Datetime := do
  let text := s.toList
  let rest := text.drop 19
  let year ← Decimal.read (text.take 4)
  let month ← Decimal.read ((text.drop 5).take 2)
  let day ← Decimal.read ((text.drop 8).take 2)
  let hour ← Decimal.read ((text.drop 11).take 2)
  let minute ← Decimal.read ((text.drop 14).take 2)
  let second ← Decimal.read ((text.drop 17).take 2)
  let fraction ← readTicks (rest.take (rest.length - 6))
  let offset ← readMinutes (rest.drop (rest.length - 6))
  let ticks := 10000000 * Civil.seconds ⟨year, month, day, hour, minute, second⟩ + fraction
  ofMicros (((ticks : Int) - 600000000 * offset) / 10)

/-- The fraction is read back. -/
private theorem readTicks_fraction {ticks : Nat} (h : ticks < 10 ^ 7) :
    readTicks (if ticks = 0 then [] else '.' :: Decimal.pad 7 ticks) = some ticks := by
  split
  · next hzero => rw [hzero]; rfl
  · have hlength : (Decimal.pad 7 ticks).length = 7 := by simp
    rw [readTicks, if_pos (by omega), Decimal.read_pad (by decide) h, hlength, Option.map_some]
    simp

/-- The offset is read back. -/
private theorem readMinutes_offsetText {minutes : Int} (h : minutes.natAbs ≤ 840) :
    readMinutes (offsetText minutes) = some minutes := by
  have hhours : Decimal.read (Decimal.pad 2 (minutes.natAbs / 60)) = some (minutes.natAbs / 60) :=
    Decimal.read_pad (by decide) (by omega)
  have hminutes : Decimal.read (Decimal.pad 2 (minutes.natAbs % 60)) = some (minutes.natAbs % 60) :=
    Decimal.read_pad (by decide) (by omega)
  have hfields : ((offsetText minutes).drop 1).take 2 = Decimal.pad 2 (minutes.natAbs / 60) ∧
      ((offsetText minutes).drop 4).take 2 = Decimal.pad 2 (minutes.natAbs % 60) := ⟨rfl, rfl⟩
  have hnat : 60 * (minutes.natAbs / 60) + minutes.natAbs % 60 = minutes.natAbs :=
    Nat.div_add_mod _ _
  rw [readMinutes, hfields.1, hfields.2, hhours, hminutes]
  simp only [Option.bind_eq_bind, Option.bind_some, hnat, offsetText, List.head?_cons]
  by_cases hneg : minutes < 0
  · simp only [if_pos hneg]
    exact congrArg some (by omega)
  · simp only [if_neg hneg]
    exact congrArg some (by omega)

/-- The reader inverts the writer up to a microsecond. -/
theorem readOffset_writeOffset (t : DateTimeOffset) :
    ∃ dt, readOffset (writeOffset t) = some dt ∧ dt.micros = t.utcTicks / 10 := by
  have hlt := t.utcTicks_lt
  have hclock : (t.clockTicks : Int) = t.utcTicks + 600000000 * t.offsetMinutes :=
    Int.toNat_of_nonneg t.clock_nonneg
  have hclockLt := t.clock_lt
  simp only [maxTicks] at hlt hclockLt
  have hmicros : (((t.clockTicks : Int) - 600000000 * t.offsetMinutes) / 10).toNat
      = t.utcTicks / 10 := by
    omega
  have hmax : t.utcTicks / 10 < maxMicros := by
    simp only [maxMicros]
    omega
  refine ⟨⟨t.utcTicks / 10, hmax⟩, ?_, rfl⟩
  obtain ⟨hmonth, hday, hhour, hminute, hsecond⟩ := civil_bounds (t.clockTicks / 10000000)
  have hyear := @civil_year_lt (t.clockTicks / 10000000) (by omega)
  have hfraction : readTicks (if t.clockTicks % 10000000 = 0 then []
      else '.' :: Decimal.pad 7 (t.clockTicks % 10000000)) = some (t.clockTicks % 10000000) :=
    readTicks_fraction (by omega)
  have hoffset := readMinutes_offsetText t.offset_le
  have hticks : 10000000 * (civil (t.clockTicks / 10000000)).seconds + t.clockTicks % 10000000
      = t.clockTicks := by
    rw [seconds_civil]
    omega
  have hlength : (offsetText t.offsetMinutes).length = 6 := by simp [offsetText]
  rw [readOffset, writeOffset, String.toList_ofList]
  generalize (if t.clockTicks % 10000000 = 0 then []
    else '.' :: Decimal.pad 7 (t.clockTicks % 10000000)) = fraction at hfraction ⊢
  generalize civil (t.clockTicks / 10000000) = c at *
  obtain ⟨e1, e2, e3, e4, e5, e6, e7⟩ := fields_at c (fraction ++ offsetText t.offsetMinutes)
  have htake : (fraction ++ offsetText t.offsetMinutes).take
      ((fraction ++ offsetText t.offsetMinutes).length - 6) = fraction := by
    rw [List.length_append, hlength, Nat.add_sub_cancel, List.take_left]
  have hdrop : (fraction ++ offsetText t.offsetMinutes).drop
      ((fraction ++ offsetText t.offsetMinutes).length - 6) = offsetText t.offsetMinutes := by
    rw [List.length_append, hlength, Nat.add_sub_cancel, List.drop_left]
  have htwo : ∀ {n}, n < 100 → Decimal.read (Decimal.pad 2 n) = some n :=
    fun h => Decimal.read_pad (by decide) h
  have hfour : Decimal.read (Decimal.pad 4 c.year) = some c.year :=
    Decimal.read_pad (by decide) hyear
  simp only [e1, e2, e3, e4, e5, e6, e7, htake, hdrop, hfour, htwo hmonth, htwo hday, htwo hhour,
    htwo hminute, htwo hsecond, hfraction, hoffset, Option.bind_eq_bind, Option.bind_some, hticks,
    ofMicros, hmicros]
  exact dif_pos hmax

/-- ISO 8601 texts carry the instants of requests. -/
def RequestDates.iso : RequestDates where
  write := writeOffset
  read := readOffset
  read_write := readOffset_writeOffset

end ElevateGate.Time
