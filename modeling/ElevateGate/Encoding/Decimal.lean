import Mathlib.Tactic.Common
import Mathlib.Algebra.Order.Ring.Nat

/-!
# Decimal numbers of fixed width

Zero-padded decimal fields, as timestamps print them, together with the reader that gets the
number back. The unpadded `Nat.toDigits` agrees with a padded field exactly from the first number
that fills the width.
-/

namespace Decimal

/-- The last `width` decimal digits of a number, most significant first. -/
def pad : Nat → Nat → List Char
  | 0, _ => []
  | width + 1, n => pad width (n / 10) ++ [(n % 10).digitChar]

/-- Read a nonempty text of decimal digits. -/
def read (text : List Char) : Option Nat :=
  if text ≠ [] ∧ text.all Char.isDigit then some (Nat.ofDigitChars 10 text 0) else none

/-- A padded field has exactly its width. -/
@[simp] theorem length_pad (width n : Nat) : (pad width n).length = width := by
  induction width generalizing n with
  | zero => rfl
  | succ width ih => simp [pad, ih]

/-- A padded field consists of digits. -/
theorem isDigit_of_mem_pad {width n : Nat} {c : Char} (h : c ∈ pad width n) :
    c.isDigit = true := by
  induction width generalizing n with
  | zero => simp [pad] at h
  | succ width ih =>
    rcases List.mem_append.mp h with h | h
    · exact ih h
    · rw [List.mem_singleton.mp h]
      simpa using Nat.mod_lt n (by decide : 0 < 10)

/-- A padded field reads back as the number, reduced to the digits that fit. -/
theorem ofDigitChars_pad (width n : Nat) :
    Nat.ofDigitChars 10 (pad width n) 0 = n % 10 ^ width := by
  induction width generalizing n with
  | zero => simp [pad, Nat.mod_one]
  | succ width ih =>
    rw [pad, Nat.ofDigitChars_append, ih,
      Nat.ofDigitChars_cons_digitChar_of_lt_ten (Nat.mod_lt n (by decide)), Nat.ofDigitChars_nil,
      Nat.pow_succ', Nat.mod_mul]
    omega

/-- Reading inverts padding for a number that fits the width. -/
theorem read_pad {width n : Nat} (hwidth : width ≠ 0) (hn : n < 10 ^ width) :
    read (pad width n) = some n := by
  have hne : pad width n ≠ [] := by
    intro h
    exact hwidth (by simpa [h] using (length_pad width n).symm)
  have hall : (pad width n).all Char.isDigit = true :=
    List.all_eq_true.mpr fun c hc => isDigit_of_mem_pad hc
  rw [read, if_pos ⟨hne, hall⟩, ofDigitChars_pad, Nat.mod_eq_of_lt hn]

/-- Two numbers that fit the width and print alike are equal. -/
theorem pad_injective {width m n : Nat} (hm : m < 10 ^ width) (hn : n < 10 ^ width)
    (h : pad width m = pad width n) : m = n := by
  have hvalue := congrArg (fun text => Nat.ofDigitChars 10 text 0) h
  simpa only [ofDigitChars_pad, Nat.mod_eq_of_lt hm, Nat.mod_eq_of_lt hn] using hvalue

/-- Multiplying by ten appends a zero. -/
theorem pad_ten_mul (width n : Nat) : pad (width + 1) (10 * n) = pad width n ++ ['0'] := by
  rw [pad, Nat.mul_div_cancel_left n (by decide), Nat.mul_mod_right]
  rfl

/-- A number that fills the width prints without padding. -/
theorem pad_eq_toDigits {width n : Nat} (hlow : 10 ^ width ≤ n) (hhigh : n < 10 ^ (width + 1)) :
    pad (width + 1) n = Nat.toDigits 10 n := by
  induction width generalizing n with
  | zero =>
    rw [Nat.toDigits_of_lt_base (by simpa using hhigh), pad, pad, Nat.mod_eq_of_lt (by omega)]
    rfl
  | succ width ih =>
    have hlow' : 10 ^ width ≤ n / 10 := by rw [Nat.pow_succ] at hlow; omega
    have hhigh' : n / 10 < 10 ^ (width + 1) := by rw [Nat.pow_succ] at hhigh; omega
    have hbase : 10 ≤ n := by
      have hone : 1 ≤ 10 ^ width := Nat.one_le_pow width 10 (by decide)
      rw [Nat.pow_succ] at hlow
      omega
    rw [Nat.toDigits_of_base_le (by decide) hbase, pad, ih hlow' hhigh']

/-- A number too small to fill the width prints shorter than the padded field. -/
theorem length_toDigits_lt {width n : Nat} (hn : n < 10 ^ width) (hwidth : 0 < width) :
    (Nat.toDigits 10 n).length ≤ width :=
  (Nat.length_toDigits_le_iff (by decide) hwidth).mpr hn

end Decimal
