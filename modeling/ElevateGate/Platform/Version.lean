import ElevateGate.Encoding.Decimal
import ElevateGate.Ordering.Padding

/-!
# .NET's `System.Version`

A version has two to four components, and one that is missing counts as -1. Versions are compared
component by component. Against a version with all four components it does not matter whether missing
ones count as -1 or as 0.
-/

namespace ElevateGate

/-- A component of a version: an `int` that is not negative. -/
abbrev Component := Fin (2 ^ 31)

/-- `System.Version`: the components from `Major` on. -/
structure Version where
  parts : List Component
  two_le : 2 ≤ parts.length
  le_four : parts.length ≤ 4
  deriving DecidableEq

namespace Version

/-- The component at a position. A missing one is -1. -/
def component (v : Version) (k : Nat) : Int :=
  match v.parts[k]? with
  | some c => c.val
  | none => -1

/-- `Version.Major`. -/
def major (v : Version) : Int := v.component 0

/-- `Version.Minor`. -/
def minor (v : Version) : Int := v.component 1

/-- `Version.Build`. -/
def build (v : Version) : Int := v.component 2

/-- `Version.Revision`. -/
def revision (v : Version) : Int := v.component 3

/-- `Version.CompareTo`. -/
def compareTo (v w : Version) : Int :=
  if v.major ≠ w.major then (if w.major < v.major then 1 else -1)
  else if v.minor ≠ w.minor then (if w.minor < v.minor then 1 else -1)
  else if v.build ≠ w.build then (if w.build < v.build then 1 else -1)
  else if v.revision ≠ w.revision then (if w.revision < v.revision then 1 else -1)
  else 0

/-- The operator `>`. -/
def greaterThan (v w : Version) : Bool := decide (w.compareTo v < 0)

/-- `new Version` of two, three or four components. -/
def ofParts (parts : List Component) : Option Version :=
  if h : 2 ≤ parts.length ∧ parts.length ≤ 4 then some ⟨parts, h.1, h.2⟩ else none

/-- `new Version(0, 0, 0, 0)`. -/
def zero : Version := ⟨[0, 0, 0, 0], by decide, by decide⟩

/-- The white space that `NumberStyles.Integer` allows around a number. -/
def isWhite (c : Char) : Bool := c == ' ' || (decide (9 ≤ c.toNat) && decide (c.toNat ≤ 13))

/-- Whether a number has a minus sign, and what follows its sign. -/
def sign : List Char → Bool × List Char
  | '-' :: rest => (true, rest)
  | '+' :: rest => (false, rest)
  | text => (false, text)

/-- `int.TryParse` with `NumberStyles.Integer` and the invariant culture. White space may stand around
the number, and NUL characters at the end. -/
def tryParseInt32 (text : List Char) : Option Int :=
  let (negative, rest) := sign (text.dropWhile isWhite)
  let trailing := (rest.dropWhile Char.isDigit).dropWhile isWhite
  if trailing.all fun c => c.toNat == 0 then
    (Decimal.read (rest.takeWhile Char.isDigit)).bind fun n =>
      let value : Int := if negative then -n else n
      if -2 ^ 31 ≤ value ∧ value < 2 ^ 31 then some value else none
  else none

/-- `Version.TryParseComponent`: a negative number is none. -/
def tryParseComponent (text : List Char) : Option Component :=
  (tryParseInt32 text).bind fun value =>
    if h : 0 ≤ value ∧ value.toNat < 2 ^ 31 then some ⟨value.toNat, h.2⟩ else none

/-- `Version.TryParse`. -/
def tryParse (input : String) : Option Version :=
  ((input.toList.splitOn '.').mapM tryParseComponent).bind ofParts

example : (tryParse "1.0").map Version.revision = some (-1) := by decide +kernel

example : (tryParse " 1.+2 .3.2147483647").map Version.revision = some 2147483647 := by
  decide +kernel

example : tryParse "1" = none ∧ tryParse "1.-1" = none ∧ tryParse "1.2147483648" = none ∧
    tryParse "1.2.3.4.5" = none := by
  decide +kernel

/-- The four components in the order in which they are compared. -/
def components (v : Version) : List Int := [v.major, v.minor, v.build, v.revision]

/-- Whether no component is missing. -/
def Full (v : Version) : Prop := v.parts.length = 4

/-- The version with zeros for the components that are missing. -/
def padded (v : Version) : Version where
  parts := v.parts.rightpad 4 0
  two_le := by simp; omega
  le_four := by have := v.le_four; simp; omega

section Order

variable {v w : Version}

/-- A version is greater exactly where its components are lexicographically greater. -/
theorem greaterThan_iff : w.greaterThan v = true ↔ v.components < w.components := by
  simp only [greaterThan, compareTo, components, List.cons_lt_cons_iff]
  grind

/-- The components, with -1 for those that are missing. -/
theorem components_eq (v : Version) :
    v.components = (v.parts.map fun c => (c.val : Int)).rightpad 4 (-1) := by
  obtain ⟨parts, htwo, hfour⟩ := v
  match parts, htwo, hfour with
  | [_, _], _, _ => rfl
  | [_, _, _], _, _ => rfl
  | [_, _, _, _], _, _ => rfl

/-- Padding fills in zeros. -/
theorem components_padded (v : Version) :
    v.padded.components = (v.parts.map fun c => (c.val : Int)).rightpad 4 0 := by
  obtain ⟨parts, htwo, hfour⟩ := v
  match parts, htwo, hfour with
  | [_, _], _, _ => rfl
  | [_, _, _], _, _ => rfl
  | [_, _, _, _], _, _ => rfl

/-- Nothing is missing from a padded version. -/
theorem full_padded (v : Version) : v.padded.Full := by
  have hle := v.le_four
  simp only [Full, padded, List.length_rightpad]
  omega

/-- No component of a full version is negative. -/
theorem Full.nonneg (h : v.Full) : ∀ x ∈ v.components, 0 ≤ x := by
  rw [components_eq, List.rightpad, List.length_map, h]
  simp

/-- For a version that is greater than a full one, zeros may stand for the components that it lacks. -/
theorem Full.lt_padded_iff (h : v.Full) : v.components < w.components ↔
    v.components < w.padded.components := by
  have hlength : (w.parts.map fun c => (c.val : Int)).length ≤ v.components.length := by
    rw [List.length_map]
    exact w.le_four
  rw [components_eq w, components_padded w]
  exact Padding.lt_rightpad_iff hlength (fun x hx => by have := h.nonneg x hx; omega) h.nonneg

end Order

end Version

end ElevateGate
