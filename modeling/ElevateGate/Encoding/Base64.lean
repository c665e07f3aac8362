import Mathlib.Data.List.Nodup

/-!
# Base64

The standard and the URL-safe alphabet, padded encoding of byte strings, and the strict decoder.
-/

namespace Base64

/-- Sixty-four distinct symbols, none of them the padding sign. -/
structure Alphabet where
  symbols : List Char
  length_symbols : symbols.length = 64
  nodup : symbols.Nodup
  not_mem_pad : '=' ∉ symbols

/-- The alphabet with `+` and `/`. -/
def Alphabet.standard : Alphabet where
  symbols := "ABCDEFGHIJKLMNOPQRSTUVWXYZabcdefghijklmnopqrstuvwxyz0123456789+/".toList
  length_symbols := by decide
  nodup := by decide +kernel
  not_mem_pad := by decide

/-- The alphabet with `-` and `_`. -/
def Alphabet.urlSafe : Alphabet where
  symbols := "ABCDEFGHIJKLMNOPQRSTUVWXYZabcdefghijklmnopqrstuvwxyz0123456789-_".toList
  length_symbols := by decide
  nodup := by decide +kernel
  not_mem_pad := by decide

variable (alphabet : Alphabet)

/-- The symbol of a six-bit number. -/
def symbol (n : Nat) : Char :=
  alphabet.symbols.get
    ⟨n % 64, by rw [alphabet.length_symbols]; exact Nat.mod_lt n (by decide)⟩

/-- The six-bit number of a symbol. -/
def value (c : Char) : Option Nat :=
  if c ∈ alphabet.symbols then some (alphabet.symbols.idxOf c) else none

/-- Encode three bytes at a time, padding the last group. -/
def encode : List UInt8 → List Char
  | a :: b :: c :: rest =>
    symbol alphabet (a.toNat / 4) :: symbol alphabet (a.toNat * 16 + b.toNat / 16) ::
      symbol alphabet (b.toNat * 4 + c.toNat / 64) :: symbol alphabet c.toNat :: encode rest
  | [a, b] =>
    [symbol alphabet (a.toNat / 4), symbol alphabet (a.toNat * 16 + b.toNat / 16),
      symbol alphabet (b.toNat * 4), '=']
  | [a] => [symbol alphabet (a.toNat / 4), symbol alphabet (a.toNat * 16), '=', '=']
  | [] => []

/-- The bytes of a group that ends in one padding sign, or two if its third symbol is one. -/
def decodeLast (w x y : Char) : Option (List UInt8) := do
  let p ← value alphabet w
  let q ← value alphabet x
  if y = '=' then
    return [UInt8.ofNat (p * 4 + q / 16)]
  let r ← value alphabet y
  return [UInt8.ofNat (p * 4 + q / 16), UInt8.ofNat (q * 16 + r / 4)]

/-- Decode four symbols at a time. Padding may only end the text. -/
def decode : List Char → Option (List UInt8)
  | w :: x :: y :: z :: rest =>
    if z = '=' then
      if rest = [] then decodeLast alphabet w x y else none
    else do
      let p ← value alphabet w
      let q ← value alphabet x
      let r ← value alphabet y
      let s ← value alphabet z
      let bytes ← decode rest
      return UInt8.ofNat (p * 4 + q / 16) :: UInt8.ofNat (q * 16 + r / 4) ::
        UInt8.ofNat (r * 64 + s) :: bytes
  | [] => some []
  | _ => none

/-- A symbol is a member of its alphabet. -/
theorem symbol_mem (n : Nat) : symbol alphabet n ∈ alphabet.symbols :=
  List.get_mem _ _

/-- No symbol is the padding sign. -/
theorem symbol_ne_pad (n : Nat) : symbol alphabet n ≠ '=' :=
  fun h => alphabet.not_mem_pad (h ▸ symbol_mem alphabet n)

/-- A symbol has the number it was chosen for. -/
@[simp] theorem value_symbol (n : Nat) : value alphabet (symbol alphabet n) = some (n % 64) := by
  rw [value, if_pos (symbol_mem alphabet n), symbol, List.get_eq_getElem,
    alphabet.nodup.idxOf_getElem]

/-- A byte is determined by its value. -/
private theorem ofNat_eq {n : Nat} {b : UInt8} (h : n % 256 = b.toNat) :
    UInt8.ofNat n = b :=
  UInt8.toNat_inj.mp (by rw [UInt8.toNat_ofNat']; exact h)

/-- Decoding inverts encoding. -/
theorem decode_encode (bytes : List UInt8) :
    decode alphabet (encode alphabet bytes) = some bytes := by
  induction bytes using encode.induct with
  | case1 a b c rest ih =>
    have ha := a.toNat_lt
    have hb := b.toNat_lt
    have hc := c.toNat_lt
    simp only [encode, decode, if_neg (symbol_ne_pad alphabet _), value_symbol, ih,
      Option.bind_eq_bind, Option.bind_some, Option.pure_def]
    rw [ofNat_eq (b := a) (by omega), ofNat_eq (b := b) (by omega),
      ofNat_eq (b := c) (by omega)]
  | case2 a b =>
    have ha := a.toNat_lt
    have hb := b.toNat_lt
    simp only [encode, decode, decodeLast, if_true, if_neg (symbol_ne_pad alphabet _),
      value_symbol, Option.bind_eq_bind, Option.bind_some, Option.pure_def]
    rw [ofNat_eq (b := a) (by omega), ofNat_eq (b := b) (by omega)]
  | case3 a =>
    have ha := a.toNat_lt
    simp only [encode, decode, decodeLast, if_true, value_symbol, Option.bind_eq_bind,
      Option.bind_some, Option.pure_def]
    rw [ofNat_eq (b := a) (by omega)]
  | case4 => rfl

/-- Four symbols are written for every group of three bytes, the last group being padded. -/
theorem length_encode (bytes : List UInt8) :
    (encode alphabet bytes).length = 4 * ((bytes.length + 2) / 3) := by
  induction bytes using encode.induct with
  | case1 a b c rest ih =>
    simp only [encode, List.length_cons, ih]
    omega
  | case2 a b => simp [encode]
  | case3 a => simp [encode]
  | case4 => rfl

end Base64
