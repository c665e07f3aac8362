import Mathlib.Data.List.OfFn
import Mathlib.Data.List.GetD
import Mathlib.Tactic.Common

/-!
# UUIDs and their texts

A UUID is thirty-two hexadecimal digits. .NET writes it with or without hyphens, Python and
pydantic write it with hyphens, and both readers accept either spelling.
-/

namespace ElevateGate

/-- A UUID, by its thirty-two hexadecimal digits. -/
structure Uuid where
  digits : List (Fin 16)
  length_digits : digits.length = 32
  deriving DecidableEq

namespace Uuid

/-- The UUID that repeats one digit. -/
def repeated (digit : Nat) : Uuid := ⟨List.replicate 32 (Fin.ofNat 16 digit), List.length_replicate⟩

/-- A digit in lower case. -/
def hexChar (d : Fin 16) : Char :=
  Nat.digitChar d.val

/-- The value of a hexadecimal digit in either letter case. -/
def hexValue (c : Char) : Option (Fin 16) :=
  (List.finRange 16).find? fun d => hexChar d == c || (hexChar d).toUpper == c

/-- `Guid.ToString("N")`: the digits alone. -/
def textN (u : Uuid) : String :=
  String.ofList (u.digits.map hexChar)

/-- The digits in groups of 8, 4, 4, 4 and 12. -/
def hyphenate (cs : List Char) : List Char :=
  cs.take 8 ++ '-' :: ((cs.drop 8).take 4 ++ '-' :: ((cs.drop 12).take 4 ++ '-' ::
    ((cs.drop 16).take 4 ++ '-' :: cs.drop 20)))

/-- `Guid.ToString()` and Python's `str(uuid)`: the digits in hyphenated groups. -/
def textD (u : Uuid) : String :=
  String.ofList (hyphenate (u.digits.map hexChar))

/-- The UUID with the given digits, if there are thirty-two. -/
def ofDigits (digits : List (Fin 16)) : Option Uuid :=
  if h : digits.length = 32 then some ⟨digits, h⟩ else none

/-- Thirty-two hexadecimal digits in a row. -/
def parseSimple (cs : List Char) : Option Uuid :=
  (cs.mapM hexValue).bind ofDigits

/-- Thirty-two hexadecimal digits in hyphenated groups. -/
def parseHyphenated (cs : List Char) : Option Uuid :=
  if cs.length = 36 ∧ cs.getD 8 ' ' = '-' ∧ cs.getD 13 ' ' = '-' ∧ cs.getD 18 ' ' = '-' ∧
      cs.getD 23 ' ' = '-' then
    parseSimple (cs.filter (· ≠ '-'))
  else none

/-- How pydantic reads a UUID: simple, hyphenated, in braces, or as a URN. -/
def parse (s : String) : Option Uuid :=
  let cs := s.toList
  if cs.length = 32 then parseSimple cs
  else if cs.length = 36 then parseHyphenated cs
  else if cs.length = 38 ∧ cs.head? = some '{' ∧ cs.getLast? = some '}' then
    parseHyphenated (cs.drop 1).dropLast
  else if cs.take 9 = "urn:uuid:".toList then parseHyphenated (cs.drop 9)
  else none

/-- Delete the occurrences of a text, from the left. -/
def removeAll (pattern : List Char) : Nat → List Char → List Char
  | fuel + 1, c :: cs =>
    if pattern.isPrefixOf (c :: cs) then removeAll pattern fuel ((c :: cs).drop pattern.length)
    else c :: removeAll pattern fuel cs
  | _, cs => cs

/-- Delete what a check picks out at both ends. -/
def trim (p : Char → Bool) (cs : List Char) : List Char :=
  ((cs.dropWhile p).reverse.dropWhile p).reverse

/-- The ASCII characters that `int` skips. -/
def isBlank (c : Char) : Bool := c == ' ' || decide ('\t' ≤ c ∧ c ≤ '\r')

/-- One or more digits, between which single underscores may stand. -/
def parseDigits : List Char → Option (List (Fin 16))
  | [] => none
  | [c] => (hexValue c).map ([·])
  | c :: d :: rest =>
    (hexValue c).bind fun digit =>
      (if d = '_' then parseDigits rest else parseDigits (d :: rest)).map (digit :: ·)

/-- Python's `int(text, 16)` of a text without hyphens, so that no minus sign is left. Of the characters
outside ASCII it takes those for blanks and for digits of other scripts too, which are left out. -/
def parseInt (cs : List Char) : Option (List (Fin 16)) :=
  let cs := trim isBlank cs
  let cs := if cs.head? = some '+' then cs.tail else cs
  let cs := if cs.take 2 = ['0', 'x'] ∨ cs.take 2 = ['0', 'X'] then
      if (cs.drop 2).head? = some '_' then cs.drop 3 else cs.drop 2
    else cs
  parseDigits cs

/-- Python's `uuid.UUID(text)`: URN prefixes, braces and hyphens are ignored, and what is left is any
integer of thirty-two characters. -/
def ofPython (s : String) : Option Uuid :=
  let cs := s.toList
  let cs := removeAll "urn:".toList cs.length cs
  let cs := removeAll "uuid:".toList cs.length cs
  let cs := (trim (fun c => c == '{' || c == '}') cs).filter (· ≠ '-')
  if cs.length = 32 then
    (parseInt cs).bind fun digits => ofDigits (List.replicate (32 - digits.length) 0 ++ digits)
  else none

/-- A digit reads back as itself. -/
@[simp] theorem hexValue_hexChar : ∀ d, hexValue (hexChar d) = some d := by
  decide

/-- No digit is a hyphen. -/
theorem hexChar_ne_hyphen : ∀ d, hexChar d ≠ '-' := by
  decide

/-- Digits read back as themselves. -/
theorem mapM_hexValue (digits : List (Fin 16)) :
    (digits.map hexChar).mapM hexValue = some digits := by
  induction digits with
  | nil => rfl
  | cons d rest ih => simp [List.mapM_cons, ih]

/-- A row of digits is read as the UUID it spells. -/
theorem parseSimple_map (u : Uuid) : parseSimple (u.digits.map hexChar) = some u := by
  rw [parseSimple, mapM_hexValue, Option.bind_some, ofDigits, dif_pos u.length_digits]

/-- The text without hyphens has 32 characters. -/
@[simp] theorem length_textN (u : Uuid) : u.textN.toList.length = 32 := by
  simp [textN, u.length_digits]

/-- The text with hyphens has 36 characters. -/
@[simp] theorem length_textD (u : Uuid) : u.textD.toList.length = 36 := by
  simp [textD, hyphenate, u.length_digits]

/-- No UUID has the same text with and without hyphens. -/
theorem textD_ne_textN (u v : Uuid) : u.textD ≠ v.textN := by
  intro h
  have hlength := congrArg (fun s : String => s.toList.length) h
  simp at hlength

/-- The text without hyphens is read back. -/
theorem parse_textN (u : Uuid) : parse u.textN = some u := by
  rw [parse, if_pos (length_textN u), textN, String.toList_ofList, parseSimple_map]

/-- Distinct UUIDs have distinct texts without hyphens. -/
theorem textN_injective {u v : Uuid} (h : u.textN = v.textN) : u = v := by
  have hparse := parse_textN u
  rw [h, parse_textN v] at hparse
  exact (Option.some.inj hparse).symm

/-- Removing the hyphens undoes hyphenation. -/
theorem filter_hyphenate {cs : List Char} (h : ∀ c ∈ cs, c ≠ '-') :
    (hyphenate cs).filter (· ≠ '-') = cs := by
  have hkeep : ∀ part : List Char, (∀ c ∈ part, c ∈ cs) → part.filter (· ≠ '-') = part :=
    fun part hpart => List.filter_eq_self.mpr fun c hc => by simpa using h c (hpart c hc)
  have htake : ∀ n m, ∀ c ∈ (cs.drop n).take m, c ∈ cs := fun n m c hc =>
    List.mem_of_mem_drop (List.mem_of_mem_take hc)
  simp only [hyphenate, List.filter_append, List.filter_cons_of_neg, ne_eq, not_true_eq_false,
    decide_false, Bool.false_eq_true, not_false_eq_true]
  have e1 := hkeep _ (htake 0 8)
  have e2 := hkeep _ (htake 8 4)
  have e3 := hkeep _ (htake 12 4)
  have e4 := hkeep _ (htake 16 4)
  have e5 := hkeep (cs.drop 20) fun c hc => List.mem_of_mem_drop hc
  simp only [List.drop_zero, ne_eq] at e1 e2 e3 e4 e5
  have hjoin : ∀ n m, (cs.drop n).take m ++ cs.drop (n + m) = cs.drop n := fun n m => by
    rw [← List.drop_drop, List.take_append_drop]
  rw [e1, e2, e3, e4, e5, hjoin 16 4, hjoin 12 4, hjoin 8 4]
  exact hjoin 0 8

/-- Hyphens stand where the reader expects them. -/
private theorem hyphenate_getD {cs : List Char} (h : cs.length = 32) :
    (hyphenate cs).getD 8 ' ' = '-' ∧ (hyphenate cs).getD 13 ' ' = '-' ∧
      (hyphenate cs).getD 18 ' ' = '-' ∧ (hyphenate cs).getD 23 ' ' = '-' := by
  simp [hyphenate, h]

/-- The text with hyphens is read back. -/
theorem parse_textD (u : Uuid) : parse u.textD = some u := by
  have hlength := length_textD u
  have hdigits : (u.digits.map hexChar).length = 32 := by simp [u.length_digits]
  have hne : ∀ c ∈ u.digits.map hexChar, c ≠ '-' := fun c hc => by
    obtain ⟨d, -, rfl⟩ := List.mem_map.mp hc
    exact hexChar_ne_hyphen d
  have hcs : u.textD.toList = hyphenate (u.digits.map hexChar) := by
    rw [textD, String.toList_ofList]
  rw [parse, if_neg (by omega), if_pos hlength, parseHyphenated, if_pos, hcs,
    filter_hyphenate hne, parseSimple_map]
  rw [hcs] at hlength ⊢
  exact ⟨hlength, hyphenate_getD hdigits⟩

example : ofPython " +0x_0000000000000000000000001_a" = some ⟨List.replicate 30 0 ++ [1, 10], rfl⟩ := by
  decide +kernel

/-- Distinct UUIDs have distinct texts. -/
theorem textD_injective {u v : Uuid} (h : u.textD = v.textD) : u = v := by
  have hparse := parse_textD u
  rw [h, parse_textD v] at hparse
  exact (Option.some.inj hparse).symm

end Uuid

end ElevateGate
