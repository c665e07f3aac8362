import Mathlib.Tactic.Common

/-!
# JSON objects of two texts

An object with two members, both of them texts, as it is written without white space, and its strict
reader. No object breaks off and is an object still.
-/

namespace JsonObject

/-- Whether a character is written behind a backslash. -/
def special (c : Char) : Bool := c == '"' || c == '\\'

/-- The characters of a text between its quotation marks. -/
def escape : List Char → List Char
  | [] => []
  | c :: rest => if special c then '\\' :: c :: escape rest else c :: escape rest

/-- Read a text up to its closing quotation mark. -/
def unescape : List Char → Option (List Char × List Char)
  | [] => none
  | [c] => if c = '"' then some ([], []) else none
  | c :: d :: rest =>
    if c = '"' then some ([], d :: rest)
    else if c = '\\' then
      if special d then (unescape rest).map fun (text, rest) => (d :: text, rest) else none
    else (unescape (d :: rest)).map fun (text, rest) => (c :: text, rest)

/-- A text in quotation marks. -/
def quote (text : List Char) : List Char := '"' :: (escape text ++ ['"'])

/-- A character that is not special is read as it is. -/
private theorem unescape_cons {c : Char} {chars : List Char} (hspecial : ¬ special c = true) :
    unescape (c :: chars) = (unescape chars).map fun (text, rest) => (c :: text, rest) := by
  simp only [special, Bool.or_eq_true, beq_iff_eq, not_or] at hspecial
  cases chars with
  | nil => exact if_neg hspecial.1
  | cons d rest => rw [unescape, if_neg hspecial.1, if_neg hspecial.2]

/-- A closing quotation mark ends the text. -/
private theorem unescape_quote (rest : List Char) : unescape ('"' :: rest) = some ([], rest) := by
  cases rest <;> rw [unescape, if_pos rfl]

/-- What is read is what was written, whatever follows. -/
theorem unescape_escape (text rest : List Char) :
    unescape (escape text ++ '"' :: rest) = some (text, rest) := by
  induction text with
  | nil => exact unescape_quote rest
  | cons c text ih =>
    by_cases hspecial : special c = true
    · rw [escape, if_pos hspecial, List.cons_append, List.cons_append, unescape,
        if_neg (by decide), if_pos rfl, if_pos hspecial, ih]
      rfl
    · rw [escape, if_neg hspecial, List.cons_append, unescape_cons hspecial, ih]
      rfl

/-- Only what was written is read. -/
theorem of_unescape {chars text rest : List Char} (h : unescape chars = some (text, rest)) :
    chars = escape text ++ '"' :: rest := by
  induction chars using unescape.induct generalizing text with
  | case1 => contradiction
  | case2 =>
    rw [unescape, if_pos rfl] at h
    obtain ⟨rfl, rfl⟩ := Prod.mk.inj (Option.some.inj h)
    rfl
  | case3 c hc =>
    rw [unescape, if_neg hc] at h
    contradiction
  | case4 d rest' =>
    rw [unescape, if_pos rfl] at h
    obtain ⟨rfl, rfl⟩ := Prod.mk.inj (Option.some.inj h)
    rfl
  | case5 d rest' hspecial _ ih =>
    rw [unescape, if_neg (by decide), if_pos rfl, if_pos hspecial] at h
    obtain ⟨⟨text', rest''⟩, hread, heq⟩ := Option.map_eq_some_iff.mp h
    obtain ⟨rfl, rfl⟩ := Prod.mk.inj heq
    rw [ih hread, escape, if_pos hspecial]
    rfl
  | case6 d rest' hspecial =>
    rw [unescape, if_neg (by decide), if_pos rfl, if_neg hspecial] at h
    contradiction
  | case7 c d rest' hc hslash ih =>
    rw [unescape, if_neg hc, if_neg hslash] at h
    obtain ⟨⟨text', rest''⟩, hread, heq⟩ := Option.map_eq_some_iff.mp h
    obtain ⟨rfl, rfl⟩ := Prod.mk.inj heq
    have hspecial : ¬ special c = true := by simp [special, hc, hslash]
    rw [ih hread, escape, if_neg hspecial]
    rfl

/-- An object with two members. -/
def write (first second : List Char) (values : List Char × List Char) : List Char :=
  '{' :: (quote first ++ ':' :: (quote values.1 ++ ',' :: (quote second ++ ':' ::
    (quote values.2 ++ ['}']))))

/-- Drop a text from the start of another. -/
def strip (text chars : List Char) : Option (List Char) :=
  if text <+: chars then some (chars.drop text.length) else none

/-- Read the values of the two members. -/
def read (first second chars : List Char) : Option (List Char × List Char) := do
  let rest ← strip ('{' :: (quote first ++ [':', '"'])) chars
  let (value, rest) ← unescape rest
  let rest ← strip (',' :: (quote second ++ [':', '"'])) rest
  let (value', rest) ← unescape rest
  if rest = ['}'] then some (value, value') else none

theorem strip_eq_some {text chars rest : List Char} :
    strip text chars = some rest ↔ chars = text ++ rest := by
  unfold strip
  split
  · next hstart =>
    obtain ⟨tail, rfl⟩ := hstart
    simp [eq_comm]
  · next hstart =>
    refine ⟨fun h => by contradiction, ?_⟩
    rintro rfl
    exact absurd (List.prefix_append text rest) hstart

variable {first second chars : List Char} {values : List Char × List Char}

/-- The parts of an object in the order in which they are read. -/
theorem write_eq (first second : List Char) (values : List Char × List Char) :
    write first second values = ('{' :: (quote first ++ [':', '"'])) ++ (escape values.1 ++ '"' ::
      ((',' :: (quote second ++ [':', '"'])) ++ (escape values.2 ++ '"' :: ['}']))) := by
  simp [write, quote]

/-- An object is read back. -/
theorem read_write (first second : List Char) (values : List Char × List Char) :
    read first second (write first second values) = some values := by
  simp only [write_eq, read, strip_eq_some.mpr rfl, Option.bind_eq_bind, Option.bind_some,
    unescape_escape, if_true]

/-- Only objects are read. -/
theorem of_read (h : read first second chars = some values) :
    chars = write first second values := by
  obtain ⟨rest, hstrip, h⟩ := Option.bind_eq_some_iff.mp h
  obtain ⟨⟨value, rest'⟩, hvalue, h⟩ := Option.bind_eq_some_iff.mp h
  obtain ⟨rest'', hstrip', h⟩ := Option.bind_eq_some_iff.mp h
  obtain ⟨⟨value', last⟩, hvalue', h⟩ := Option.bind_eq_some_iff.mp h
  simp only at h
  split at h
  · next hlast =>
    obtain rfl := Option.some.inj h
    rw [write_eq, strip_eq_some.mp hstrip, of_unescape hvalue, strip_eq_some.mp hstrip',
      of_unescape hvalue', hlast]
  · contradiction

/-- No object is the start of another. -/
theorem write_append {values' : List Char × List Char} {tail : List Char}
    (h : write first second values' ++ tail = write first second values) : tail = [] := by
  rw [write_eq, write_eq, List.append_assoc] at h
  have hvalue := congrArg unescape (List.append_cancel_left h)
  rw [List.append_assoc, List.cons_append, unescape_escape, unescape_escape] at hvalue
  have hrest := (Prod.mk.inj (Option.some.inj hvalue)).2
  rw [List.append_assoc] at hrest
  have hvalue' := congrArg unescape (List.append_cancel_left hrest)
  rw [List.append_assoc, List.cons_append, unescape_escape, unescape_escape] at hvalue'
  have hlast := (Prod.mk.inj (Option.some.inj hvalue')).2
  simpa using hlast

/-- An object that breaks off is not read. -/
theorem read_take {n : Nat} (hn : n < (write first second values).length) :
    read first second ((write first second values).take n) = none := by
  refine Option.eq_none_iff_forall_ne_some.mpr fun values' h => ?_
  have htake := of_read h
  have hsplit := List.take_append_drop n (write first second values)
  rw [htake] at hsplit
  have hdrop := write_append hsplit
  have hlength := List.length_drop (i := n) (l := write first second values)
  rw [hdrop, List.length_nil] at hlength
  omega

end JsonObject
