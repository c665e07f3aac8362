import Mathlib.Tactic.Common

/-!
# Length-prefixed fields

A field is its length in two big-endian bytes followed by its content. Because the length comes
first, no content can move the boundary between a field and what follows it.
-/

namespace LengthPrefix

/-- The largest content that a two-byte length can announce. -/
def maxFieldBytes : Nat := 0xFFFF

/-- A number below 65536 in two bytes, most significant first. -/
def bigEndian16 (n : Nat) : List UInt8 :=
  [UInt8.ofNat (n / 256), UInt8.ofNat (n % 256)]

/-- A field, or `none` where the content is too long for its length to be written. -/
def field (content : List UInt8) : Option (List UInt8) :=
  if content.length > maxFieldBytes then none
  else some (bigEndian16 content.length ++ content)

/-- The fields of a record one after the other. -/
def record : List (List UInt8) → Option (List UInt8)
  | [] => some []
  | content :: rest => do
    let bytes ← field content
    let tail ← record rest
    return bytes ++ tail

/-- Two bytes determine the number they encode. -/
theorem bigEndian16_injective {m n : Nat} (hm : m ≤ maxFieldBytes) (hn : n ≤ maxFieldBytes)
    (h : bigEndian16 m = bigEndian16 n) : m = n := by
  simp only [bigEndian16, List.cons.injEq, and_true, ← UInt8.toNat_inj, UInt8.toNat_ofNat'] at h
  simp only [maxFieldBytes] at hm hn
  omega

/-- A field exists exactly when its content is short enough. -/
theorem field_eq_some {content bytes : List UInt8} :
    field content = some bytes ↔
      content.length ≤ maxFieldBytes ∧ bytes = bigEndian16 content.length ++ content := by
  unfold field
  split
  · next hlong => exact ⟨fun h => by contradiction, fun h => absurd h.1 (by omega)⟩
  · next hshort =>
    rw [Option.some.injEq, eq_comm]
    exact ⟨fun h => ⟨by omega, h⟩, fun h => h.2⟩

/-- The end of a field is determined by its beginning: equal texts that start with a field start
with the same field. -/
theorem field_append_injective {content content' bytes bytes' rest rest' : List UInt8}
    (hfield : field content = some bytes) (hfield' : field content' = some bytes')
    (h : bytes ++ rest = bytes' ++ rest') : content = content' ∧ rest = rest' := by
  obtain ⟨hle, rfl⟩ := field_eq_some.mp hfield
  obtain ⟨hle', rfl⟩ := field_eq_some.mp hfield'
  rw [List.append_assoc, List.append_assoc] at h
  obtain ⟨hlength, hcontent⟩ := List.append_inj h rfl
  exact List.append_inj hcontent (bigEndian16_injective hle hle' hlength)

/-- A record of no fields is empty. -/
theorem record_nil {bytes : List UInt8} : record [] = some bytes ↔ bytes = [] := by
  rw [record, Option.some.injEq, eq_comm]

/-- A record of several fields, taken apart. -/
theorem record_cons {content : List UInt8} {rest : List (List UInt8)} {bytes : List UInt8} :
    record (content :: rest) = some bytes ↔
      ∃ first tail, field content = some first ∧ record rest = some tail ∧ bytes = first ++ tail := by
  simp only [record, Option.bind_eq_bind, Option.bind_eq_some_iff, Option.pure_def,
    Option.some.injEq]
  constructor
  · rintro ⟨first, hfirst, tail, htail, rfl⟩
    exact ⟨first, tail, hfirst, htail, rfl⟩
  · rintro ⟨first, tail, hfirst, htail, rfl⟩
    exact ⟨first, hfirst, tail, htail, rfl⟩

/-- Records of equally many fields that are written alike have the same fields. -/
theorem record_injective {contents contents' : List (List UInt8)} {bytes : List UInt8}
    (hlength : contents.length = contents'.length) (h : record contents = some bytes)
    (h' : record contents' = some bytes) : contents = contents' := by
  induction contents generalizing contents' bytes with
  | nil =>
    cases contents' with
    | nil => rfl
    | cons _ _ => simp at hlength
  | cons content rest ih =>
    cases contents' with
    | nil => simp at hlength
    | cons content' rest' =>
      obtain ⟨first, tail, hfirst, htail, rfl⟩ := record_cons.mp h
      obtain ⟨first', tail', hfirst', htail', happend⟩ := record_cons.mp h'
      obtain ⟨rfl, rfl⟩ := field_append_injective hfirst hfirst' happend
      rw [ih (by simpa using hlength) htail htail']

/-- A record that can be written has short fields. -/
theorem length_le_of_record {contents : List (List UInt8)} {bytes : List UInt8}
    (h : record contents = some bytes) : ∀ content ∈ contents, content.length ≤ maxFieldBytes := by
  induction contents generalizing bytes with
  | nil => simp
  | cons content rest ih =>
    obtain ⟨first, tail, hfirst, htail, -⟩ := record_cons.mp h
    exact List.forall_mem_cons.mpr ⟨(field_eq_some.mp hfirst).1, ih htail⟩

/-- Short fields can always be written. -/
theorem exists_record {contents : List (List UInt8)}
    (h : ∀ content ∈ contents, content.length ≤ maxFieldBytes) :
    ∃ bytes, record contents = some bytes := by
  induction contents with
  | nil => exact ⟨[], rfl⟩
  | cons content rest ih =>
    obtain ⟨tail, htail⟩ := ih fun c hc => h c (List.mem_cons_of_mem _ hc)
    have hfirst := field_eq_some.mpr ⟨h content List.mem_cons_self, rfl⟩
    exact ⟨_, record_cons.mpr ⟨_, tail, hfirst, htail, rfl⟩⟩

end LengthPrefix
