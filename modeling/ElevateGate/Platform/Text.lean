import Mathlib.Tactic.Common

/-!
# Text as Python and .NET handle it

Strings are sequences of Unicode scalar values. Both programs encode them as UTF-8, fold letter
case in their own way, and write digests as hexadecimal text. Only the parts of the case mappings
that either side documents are assumed; `Casing.ascii` shows that they are consistent.
-/

namespace ElevateGate.Text

/-- The UTF-8 encoding of a text. -/
def utf8 (s : String) : List UInt8 :=
  s.toList.flatMap String.utf8EncodeChar

/-- Distinct texts have distinct encodings. -/
theorem utf8_injective {s t : String} (h : utf8 s = utf8 t) : s = t := by
  apply String.toByteArray_inj.mp
  rw [← String.utf8Encode_toList, ← String.utf8Encode_toList]
  exact congrArg List.toByteArray h

/-- A scalar value takes at most four bytes. -/
theorem length_utf8_le (s : String) : (utf8 s).length ≤ 4 * s.toList.length := by
  unfold utf8
  induction s.toList with
  | nil => simp
  | cons c rest ih =>
    have hc := Char.utf8Size_le_four c
    simp only [List.flatMap_cons, List.length_append, String.length_utf8EncodeChar,
      List.length_cons]
    omega

/-- Whether a character is in the ASCII range. -/
def isAscii (c : Char) : Bool :=
  c.toNat < 128

/-- The hexadecimal digits in either letter case. -/
def hexDigits : List Char :=
  "0123456789abcdefABCDEF".toList

/-- The letter-case mappings of the two runtimes: Python's `str.lower`, .NET's
`ToLowerInvariant`, and the upper-casing that `StringComparison.OrdinalIgnoreCase` compares
with. On ASCII all of them are the plain ones, and no other character upper-cases to a
hexadecimal digit. -/
structure Casing where
  lower : String → String
  toLowerInvariant : Char → Char
  toUpperOrdinal : Char → Char
  lower_ascii : ∀ s, s.toList.all isAscii = true → lower s = String.ofList (s.toList.map Char.toLower)
  toLowerInvariant_ascii : ∀ c, isAscii c = true → toLowerInvariant c = c.toLower
  toUpperOrdinal_ascii : ∀ c, isAscii c = true → toUpperOrdinal c = c.toUpper
  isAscii_of_toUpperOrdinal : ∀ c, toUpperOrdinal c ∈ hexDigits → isAscii c = true

/-- Every hexadecimal digit is an ASCII character. -/
theorem isAscii_of_mem_hexDigits : ∀ c ∈ hexDigits, isAscii c = true := by
  have hall : hexDigits.all isAscii = true := by decide
  exact List.all_eq_true.mp hall

/-- The case mappings that touch ASCII letters only. -/
def Casing.ascii : Casing where
  lower s := String.ofList (s.toList.map Char.toLower)
  toLowerInvariant := Char.toLower
  toUpperOrdinal := Char.toUpper
  lower_ascii _ _ := rfl
  toLowerInvariant_ascii _ _ := rfl
  toUpperOrdinal_ascii _ _ := rfl
  isAscii_of_toUpperOrdinal c h := by
    unfold Char.toUpper at h
    split at h
    · next hlower =>
      have hle : c.toNat ≤ 122 := UInt32.le_iff_toNat_le.mp hlower.2
      simp only [isAscii, decide_eq_true_eq]
      omega
    · exact isAscii_of_mem_hexDigits c h

variable (casing : Casing)

/-- .NET's `string.ToLowerInvariant`. -/
def toLowerInvariant (s : String) : String :=
  String.ofList (s.toList.map casing.toLowerInvariant)

/-- .NET's `string.Equals` with `StringComparison.OrdinalIgnoreCase`. -/
def equalsOrdinalIgnoreCase (s t : String) : Bool :=
  s.toList.map casing.toUpperOrdinal == t.toList.map casing.toUpperOrdinal

/-- Whether a text consists of hexadecimal digits. -/
def isHex (s : String) : Bool :=
  s.toList.all fun c => decide (c ∈ hexDigits)

/-- Among hexadecimal digits, the two foldings of letter case identify the same characters. -/
private theorem toUpper_eq_iff_toLower_eq :
    ∀ c ∈ hexDigits, ∀ d ∈ hexDigits, c.toUpper = d.toUpper ↔ c.toLower = d.toLower := by
  have hall : (hexDigits.all fun c => hexDigits.all fun d =>
      decide (c.toUpper = d.toUpper ↔ c.toLower = d.toLower)) = true := by decide
  intro c hc d hd
  exact of_decide_eq_true (List.all_eq_true.mp (List.all_eq_true.mp hall c hc) d hd)

/-- An ASCII character that upper-cases to a hexadecimal digit is one. -/
private theorem mem_hexDigits_of_toUpper {c : Char} (hc : isAscii c = true)
    (h : c.toUpper ∈ hexDigits) : c ∈ hexDigits := by
  have hall : ∀ n < 128, (Char.ofNat n).toUpper ∈ hexDigits → Char.ofNat n ∈ hexDigits := by
    decide +kernel
  have hn : c.toNat < 128 := by simpa [isAscii] using hc
  simpa using hall c.toNat hn (by simpa using h)

/-- Upper-casing keeps hexadecimal digits hexadecimal. -/
private theorem toUpper_mem_hexDigits : ∀ c ∈ hexDigits, c.toUpper ∈ hexDigits := by
  have hall : (hexDigits.all fun c => decide (c.toUpper ∈ hexDigits)) = true := by decide
  exact fun c hc => of_decide_eq_true (List.all_eq_true.mp hall c hc)

variable {casing}

/-- A text that equals a hexadecimal text ignoring case is hexadecimal. -/
theorem isHex_of_equals {s t : String} (ht : isHex t = true)
    (h : equalsOrdinalIgnoreCase casing s t = true) : isHex s = true := by
  have hmap : s.toList.map casing.toUpperOrdinal = t.toList.map casing.toUpperOrdinal := by
    simpa [equalsOrdinalIgnoreCase] using h
  refine List.all_eq_true.mpr fun c hc => ?_
  have hmem : casing.toUpperOrdinal c ∈ t.toList.map casing.toUpperOrdinal :=
    hmap ▸ List.mem_map_of_mem hc
  obtain ⟨d, hd, heq⟩ := List.mem_map.mp hmem
  have hhex : d ∈ hexDigits := by simpa using List.all_eq_true.mp ht d hd
  have hupper : casing.toUpperOrdinal c ∈ hexDigits := by
    rw [← heq, casing.toUpperOrdinal_ascii d (isAscii_of_mem_hexDigits d hhex)]
    exact toUpper_mem_hexDigits d hhex
  have hascii := casing.isAscii_of_toUpperOrdinal c hupper
  rw [casing.toUpperOrdinal_ascii c hascii] at hupper
  simpa using mem_hexDigits_of_toUpper hascii hupper

/-- A hexadecimal text is an ASCII text. -/
theorem isAscii_of_isHex {s : String} (h : isHex s = true) : s.toList.all isAscii = true := by
  refine List.all_eq_true.mpr fun c hc => ?_
  exact isAscii_of_mem_hexDigits c (by simpa using List.all_eq_true.mp h c hc)

/-- On hexadecimal text Python and .NET fold to lower case alike. -/
theorem toLowerInvariant_eq_lower {s : String} (h : isHex s = true) :
    toLowerInvariant casing s = casing.lower s := by
  have hascii := isAscii_of_isHex h
  rw [casing.lower_ascii s hascii, toLowerInvariant]
  congr 1
  exact List.map_congr_left fun c hc =>
    casing.toLowerInvariant_ascii c (List.all_eq_true.mp hascii c hc)

/-- For hexadecimal texts, equality ignoring case is equality of the lower-cased texts. -/
theorem equals_iff_toLowerInvariant_eq {s t : String} (hs : isHex s = true) (ht : isHex t = true) :
    equalsOrdinalIgnoreCase casing s t = true ↔
      toLowerInvariant casing s = toLowerInvariant casing t := by
  have hupper : ∀ u : String, isHex u = true →
      u.toList.map casing.toUpperOrdinal = u.toList.map Char.toUpper := fun u hu =>
    List.map_congr_left fun c hc =>
      casing.toUpperOrdinal_ascii c (List.all_eq_true.mp (isAscii_of_isHex hu) c hc)
  have hlower : ∀ u : String, isHex u = true →
      u.toList.map casing.toLowerInvariant = u.toList.map Char.toLower := fun u hu =>
    List.map_congr_left fun c hc =>
      casing.toLowerInvariant_ascii c (List.all_eq_true.mp (isAscii_of_isHex hu) c hc)
  simp only [equalsOrdinalIgnoreCase, toLowerInvariant, hupper s hs, hupper t ht, hlower s hs,
    hlower t ht, beq_iff_eq, String.ofList_inj]
  have hs' : ∀ c ∈ s.toList, c ∈ hexDigits := by simpa [isHex] using hs
  have ht' : ∀ c ∈ t.toList, c ∈ hexDigits := by simpa [isHex] using ht
  generalize s.toList = l at hs'
  generalize t.toList = m at ht'
  induction l generalizing m with
  | nil => cases m <;> simp
  | cons c l ih =>
    cases m with
    | nil => simp
    | cons d m =>
      simp only [List.map_cons, List.cons.injEq]
      exact and_congr
        (toUpper_eq_iff_toLower_eq c (hs' c List.mem_cons_self) d (ht' d List.mem_cons_self))
        (ih (fun x hx => hs' x (List.mem_cons_of_mem _ hx)) m
          (fun x hx => ht' x (List.mem_cons_of_mem _ hx)))

/-- A SHA-256 digest as text: sixty-four hexadecimal digits in any letter case. -/
structure Sha256Hex where
  text : String
  isHex_text : isHex text = true
  length_text : text.toList.length = 64
  deriving DecidableEq

/-- Lower-casing keeps hexadecimal digits hexadecimal. -/
private theorem toLower_mem_hexDigits : ∀ c ∈ hexDigits, c.toLower ∈ hexDigits := by
  have hall : (hexDigits.all fun c => decide (c.toLower ∈ hexDigits)) = true := by decide
  exact fun c hc => of_decide_eq_true (List.all_eq_true.mp hall c hc)

/-- The lower-cased text of a hexadecimal text. -/
theorem toList_lower {s : String} (h : isHex s = true) :
    (casing.lower s).toList = s.toList.map Char.toLower := by
  rw [casing.lower_ascii s (isAscii_of_isHex h), String.toList_ofList]

/-- The lower-cased text of a hexadecimal text is hexadecimal. -/
theorem isHex_lower {s : String} (h : isHex s = true) : isHex (casing.lower s) = true := by
  rw [isHex, toList_lower h, List.all_map]
  refine List.all_eq_true.mpr fun c hc => ?_
  have hmem : c ∈ hexDigits := by simpa using List.all_eq_true.mp h c hc
  simpa using toLower_mem_hexDigits c hmem

/-- Any two case mappings agree on hexadecimal text. -/
theorem lower_congr {casing' : Casing} {s : String} (h : isHex s = true) :
    casing.lower s = casing'.lower s := by
  rw [← String.toList_inj, toList_lower h, toList_lower h]

/-- Python's `value.lower()` on a digest. -/
def Sha256Hex.lower (casing : Casing) (digest : Sha256Hex) : Sha256Hex where
  text := casing.lower digest.text
  isHex_text := isHex_lower digest.isHex_text
  length_text := by
    rw [toList_lower digest.isHex_text, List.length_map, digest.length_text]

/-- `Convert.ToHexString`: two upper-case digits for each byte. -/
def toHexString (bytes : List UInt8) : String :=
  String.ofList (bytes.flatMap fun b =>
    [(b.toNat / 16).digitChar.toUpper, (b.toNat % 16).digitChar.toUpper])

/-- A byte is written in hexadecimal digits. -/
private theorem digitChar_toUpper_mem : ∀ n < 16, n.digitChar.toUpper ∈ hexDigits := by
  decide

/-- A byte string is written in hexadecimal digits. -/
theorem isHex_toHexString (bytes : List UInt8) : isHex (toHexString bytes) = true := by
  refine List.all_eq_true.mpr fun c hc => ?_
  rw [toHexString, String.toList_ofList] at hc
  obtain ⟨b, -, hmem⟩ := List.mem_flatMap.mp hc
  have hb := b.toNat_lt
  simp only [List.mem_cons, List.not_mem_nil, or_false] at hmem
  rcases hmem with rfl | rfl
  · simpa using digitChar_toUpper_mem (b.toNat / 16) (by omega)
  · simpa using digitChar_toUpper_mem (b.toNat % 16) (by omega)

end ElevateGate.Text
