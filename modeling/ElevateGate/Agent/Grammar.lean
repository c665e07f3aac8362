import ElevateGate.Agent.Execution
import ElevateGate.Encoding.Segments

/-!
# The grammar of accepted paths

Which paths the validator accepts, said without reference to how it decides, and what it makes of
them. The canonical path of an accepted path is accepted again and is its own canonical path.
-/

namespace ElevateGate.Agent

open Interaction

/-- The separators are the backslash and the slash. -/
def separator (c : Char) : Bool := WindowsPathRules.isSeparator c

/-- A segment that may be part of a canonical path. -/
structure Permitted (segment : List Char) : Prop where
  traversal : segment ≠ ['.', '.']
  reserved : ∀ c ∈ segment, c ∉ ['<', '>', '"', '|', '?', '*', ':', Char.ofNat 0]
  dot : segment.getLast? ≠ some '.'
  space : segment.getLast? ≠ some ' '

/-- A path starts with a drive, and the segments of the rest other than `.` are permitted. -/
structure IsPath (raw : String) (letter : Char) (segments : List (List Char)) : Prop where
  drive : WindowsPathRules.isAsciiLetter letter = true
  rooted : ∃ sep rest, raw.toList = letter :: ':' :: sep :: rest ∧ separator sep = true ∧
    segments = (Segments.split separator rest).filter (· ≠ ['.'])
  permitted : ∀ segment ∈ segments, Permitted segment

/-- The upper-cased root of a drive. -/
def driveRoot (letter : Char) : String := String.ofList [letter.toUpper, ':', '\\']

/-- The canonical path of a drive and segments. -/
def canonicalPath (letter : Char) (segments : List (List Char)) : String :=
  driveRoot letter ++ String.ofList (List.intercalate ['\\'] segments)

/-- The text of a canonical path. -/
theorem canonicalPath_eq (letter : Char) (segments : List (List Char)) :
    canonicalPath letter segments =
      String.ofList (letter.toUpper :: ':' :: '\\' :: List.intercalate ['\\'] segments) := by
  rw [canonicalPath, driveRoot, ← String.ofList_append]
  rfl

/-- A path that starts with two separators. -/
def StartsUnc (raw : String) : Prop :=
  ∃ c d rest, raw.toList = c :: d :: rest ∧ separator c = true ∧ separator d = true

/-- A path with a segment `..`. -/
def HasTraversal (raw : String) : Prop :=
  ['.', '.'] ∈ Segments.split separator raw.toList

section Checks

open WindowsPathRules

variable {raw : String} {letter : Char} {segments : List (List Char)}

/-- The literal check sees the two separators. -/
theorem isUncOrDeviceLiteral_iff : isUncOrDeviceLiteral raw = true ↔ StartsUnc raw := by
  unfold isUncOrDeviceLiteral StartsUnc
  split
  · next c d rest heq => simp [heq, separator]
  · next hshort =>
    simp only [Bool.false_eq_true, false_iff]
    rintro ⟨c, d, rest, heq, -⟩
    exact hshort c d rest heq

/-- The traversal check sees the segment. -/
theorem containsTraversalSegment_iff : containsTraversalSegment raw = true ↔ HasTraversal raw :=
  decide_eq_true_iff

/-- A separator and a full stop are not white space. -/
private theorem not_isWhiteSpace {c : Char} (hmem : c ∈ raw.toList) (h : c.toNat ∉ whiteSpace) :
    isWhiteSpace raw = false := by
  rw [isWhiteSpace, List.all_eq_false]
  exact ⟨c, hmem, by simpa using h⟩

/-- A separator is a backslash or a slash. -/
theorem separator_iff {c : Char} : separator c = true ↔ c = '\\' ∨ c = '/' := by
  simp [separator, isSeparator]

/-- The drive check sees the drive. -/
theorem isDriveRooted_iff : isDriveRooted raw = true ↔ ∃ letter sep rest,
    raw.toList = letter :: ':' :: sep :: rest ∧ isAsciiLetter letter = true ∧
      separator sep = true := by
  unfold isDriveRooted
  split
  · next c d e rest heq =>
    simp only [Bool.and_eq_true, beq_iff_eq]
    constructor
    · rintro ⟨⟨hc, rfl⟩, he⟩
      exact ⟨c, e, rest, heq, hc, he⟩
    · rintro ⟨letter, sep, rest', heq', hletter, hsep⟩
      simp only [heq, List.cons.injEq] at heq'
      obtain ⟨rfl, rfl, rfl, rfl⟩ := heq'
      exact ⟨⟨hletter, rfl⟩, hsep⟩
  · next hshort =>
    simp only [Bool.false_eq_true, false_iff]
    rintro ⟨letter, sep, rest, heq, -⟩
    exact hshort letter ':' sep rest heq

/-- A drive letter is no separator. -/
private theorem separator_of_isAsciiLetter {c : Char} (h : isAsciiLetter c = true) :
    separator c = false := by
  by_contra hsep
  rcases separator_iff.mp (by simpa using hsep) with rfl | rfl <;> contradiction

/-- The drive of a rooted path is one of its segments. -/
theorem split_rooted {sep : Char} {rest : List Char} (hletter : isAsciiLetter letter = true)
    (hsep : separator sep = true) :
    Segments.split separator (letter :: ':' :: sep :: rest) =
      [letter, ':'] :: Segments.split separator rest := by
  have hclean : Segments.Clean separator [letter, ':'] := by
    refine ⟨by simp, fun c hc => ?_⟩
    rcases List.mem_pair.mp hc with rfl | rfl
    · exact separator_of_isAsciiLetter hletter
    · rfl
  have happend := Segments.split_append_cons hsep [letter, ':'] rest
  rwa [Segments.split_clean hclean] at happend

/-- A segment that is no traversal is permitted if it is not rejected. -/
theorem permitted_iff {segment : List Char} (h : segment ≠ ['.', '.']) :
    Permitted segment ↔ isRejected segment = false := by
  simp only [isRejected, Bool.or_eq_false_iff, beq_eq_false_iff_ne, List.any_eq_false,
    decide_eq_true_eq]
  exact ⟨fun hp => ⟨⟨hp.reserved, hp.dot⟩, hp.space⟩, fun ⟨⟨hr, hd⟩, hs⟩ => ⟨h, hr, hd, hs⟩⟩

/-- The kept segments are those other than `.`, and none of them is rejected. -/
theorem cleanSegments_eq_some {all : List (List Char)} :
    cleanSegments all = some segments ↔
      segments = all.filter (· ≠ ['.']) ∧ ∀ segment ∈ segments, isRejected segment = false := by
  induction all generalizing segments with
  | nil =>
    simp only [cleanSegments, Option.some.injEq, List.filter_nil, eq_comm (a := segments)]
    constructor
    · rintro rfl
      exact ⟨rfl, by simp⟩
    · exact fun h => h.1
  | cons segment rest ih =>
    by_cases hdot : segment = ['.']
    · rw [cleanSegments, if_pos hdot, ih, List.filter_cons_of_neg (by simp [hdot])]
    · rw [cleanSegments, if_neg hdot, List.filter_cons_of_pos (by simp [hdot])]
      cases hrejected : isRejected segment with
      | true =>
        simp only [if_true, reduceCtorEq, false_iff, not_and]
        rintro rfl h
        simp [h segment List.mem_cons_self] at hrejected
      | false =>
        rw [if_neg (by simp), Option.map_eq_some_iff]
        constructor
        · rintro ⟨kept, hkept, rfl⟩
          obtain ⟨rfl, hall⟩ := ih.mp hkept
          exact ⟨rfl, by simpa [hrejected] using hall⟩
        · rintro ⟨rfl, hall⟩
          exact ⟨_, ih.mpr ⟨rfl, fun other hother => hall other (List.mem_cons_of_mem _ hother)⟩,
            rfl⟩

/-- Canonicalization accepts the paths of the grammar. -/
theorem tryCanonicalize_eq_some {c : String} : tryCanonicalize raw = some c ↔
    ∃ letter segments, IsPath raw letter segments ∧ c = canonicalPath letter segments := by
  constructor
  · intro h
    simp only [tryCanonicalize] at h
    split at h
    · contradiction
    split at h
    · contradiction
    next hrooted =>
    split at h
    · contradiction
    next htraversal =>
    obtain ⟨letter, sep, rest, heq, hletter, hsep⟩ := isDriveRooted_iff.mp (by simpa using hrooted)
    obtain ⟨segments, hsegments, rfl⟩ := Option.map_eq_some_iff.mp h
    rw [heq] at hsegments ⊢
    obtain ⟨hkept, hall⟩ := cleanSegments_eq_some.mp hsegments
    refine ⟨letter, segments, ⟨hletter, ⟨sep, rest, heq, hsep, hkept⟩, fun segment hmem => ?_⟩, ?_⟩
    · refine (permitted_iff ?_).mpr (hall segment hmem)
      rintro rfl
      refine htraversal (containsTraversalSegment_iff.mpr ?_)
      rw [HasTraversal, heq, split_rooted hletter hsep]
      rw [hkept] at hmem
      exact List.mem_cons_of_mem _ (List.mem_filter.mp hmem).1
    · rw [canonicalPath_eq]
      rfl
  · rintro ⟨letter, segments, hpath, rfl⟩
    obtain ⟨sep, rest, heq, hsep, hkept⟩ := hpath.rooted
    have hspace : isWhiteSpace raw = false :=
      not_isWhiteSpace (c := ':') (by simp [heq]) (by decide)
    have hrooted : isDriveRooted raw = true :=
      isDriveRooted_iff.mpr ⟨letter, sep, rest, heq, hpath.drive, hsep⟩
    have htraversal : containsTraversalSegment raw = false := by
      rw [← Bool.not_eq_true, containsTraversalSegment_iff, HasTraversal, heq,
        split_rooted hpath.drive hsep]
      intro hmem
      have hrest : ['.', '.'] ∈ segments := by
        rw [hkept]
        exact List.mem_filter.mpr ⟨(List.mem_cons.mp hmem).resolve_left (by simp), by simp⟩
      exact (hpath.permitted _ hrest).traversal rfl
    have hclean : cleanSegments (split rest) = some segments :=
      cleanSegments_eq_some.mpr ⟨hkept, fun segment hmem =>
        (permitted_iff (hpath.permitted segment hmem).traversal).mp (hpath.permitted segment hmem)⟩
    rw [canonicalPath_eq]
    simp only [tryCanonicalize, hspace, hrooted, htraversal, heq, List.drop_succ_cons, List.drop_zero,
      hclean, Option.map_some, List.headD_cons, Bool.not_true, Bool.false_eq_true, if_false]

end Checks

/-- What the validator makes of a path of the grammar on a classified drive. -/
def outcomeOn (c : String) : DriveClassification → PathValidationOutcome
  | .fixed => .valid c
  | .network => .invalid .uncOrNetworkPath
  | .removable => .invalid .removableDrive
  | .unknown => .invalid .unsupportedDrive

section Validator

open WindowsPathRules

variable {raw : String} {letter : Char} {segments : List (List Char)}

/-- A path that starts with two separators is rejected at once. -/
theorem validate_of_unc (h : StartsUnc raw) :
    PathValidator.validate raw = pure (.invalid .uncOrNetworkPath) := by
  have hspace : isWhiteSpace raw = false := by
    obtain ⟨c, d, rest, heq, hc, -⟩ := h
    rcases separator_iff.mp hc with rfl | rfl <;>
      exact not_isWhiteSpace (by rw [heq]; exact List.mem_cons_self) (by decide)
  rw [PathValidator.validate, if_neg (by simp [hspace]), if_pos (isUncOrDeviceLiteral_iff.mpr h)]

/-- So is another path with a segment `..`. -/
theorem validate_of_traversal (h : HasTraversal raw) (hunc : ¬ StartsUnc raw) :
    PathValidator.validate raw = pure (.invalid .traversal) := by
  have hspace : isWhiteSpace raw = false := by
    by_contra hblank
    have hall : ∀ c ∈ raw.toList, c.toNat ∈ whiteSpace := by
      simpa [isWhiteSpace] using hblank
    exact absurd (hall '.' (Segments.mem_of_mem_split h (by simp))) (by decide)
  rw [PathValidator.validate, if_neg (by simp [hspace]),
    if_neg (by rwa [isUncOrDeviceLiteral_iff]), if_pos (containsTraversalSegment_iff.mpr h)]

/-- A path of the grammar passes the checks, and its drive is classified. -/
theorem validate_of_isPath (h : IsPath raw letter segments) :
    PathValidator.validate raw = (do
      let classification ← op (.classify (driveRoot letter))
      return outcomeOn (canonicalPath letter segments) classification) := by
  have hcanonical : tryCanonicalize raw = some (canonicalPath letter segments) :=
    tryCanonicalize_eq_some.mpr ⟨letter, segments, h, rfl⟩
  obtain ⟨sep, rest, heq, -, -⟩ := h.rooted
  have hroot : getDriveRoot (canonicalPath letter segments) = driveRoot letter := by
    rw [canonicalPath_eq, getDriveRoot, String.toList_ofList]
    rfl
  have hunc : isUncOrDeviceLiteral raw = false := by
    rw [isUncOrDeviceLiteral, heq]
    exact Bool.and_eq_false_iff.mpr (Or.inr rfl)
  have hspace : isWhiteSpace raw = false ∧ containsTraversalSegment raw = false := by
    have hsome := hcanonical
    simp only [tryCanonicalize] at hsome
    split at hsome
    · contradiction
    split at hsome
    · contradiction
    split at hsome
    · contradiction
    next hspace _ htraversal => exact ⟨by simpa using hspace, by simpa using htraversal⟩
  rw [PathValidator.validate, if_neg (by simp [hspace.1]), if_neg (by simp [hunc]),
    if_neg (by simp [hspace.2]), hcanonical]
  simp only [hroot]
  refine congrArg (Program.perform _) (funext fun classification => ?_)
  cases classification <;> rfl

/-- Every other path is rejected. -/
theorem validate_of_not_isPath (h : ∀ letter segments, ¬ IsPath raw letter segments) :
    ∃ reason, PathValidator.validate raw = pure (.invalid reason) := by
  have hnone : tryCanonicalize raw = none := by
    rw [Option.eq_none_iff_forall_ne_some]
    intro c hc
    obtain ⟨letter, segments, hpath, -⟩ := tryCanonicalize_eq_some.mp hc
    exact h letter segments hpath
  unfold PathValidator.validate
  split
  · exact ⟨_, rfl⟩
  split
  · exact ⟨_, rfl⟩
  split
  · exact ⟨_, rfl⟩
  · rw [hnone]
    exact ⟨_, rfl⟩

end Validator

section Canonical

variable {raw raw' : String} {letter letter' : Char} {segments segments' : List (List Char)}

/-- An upper-cased letter is a letter. -/
private theorem isAsciiLetter_toUpper (h : WindowsPathRules.isAsciiLetter letter = true) :
    WindowsPathRules.isAsciiLetter letter.toUpper = true ∧ letter.toUpper.toUpper = letter.toUpper := by
  have hall : ∀ n < 128, WindowsPathRules.isAsciiLetter (Char.ofNat n) = true →
      WindowsPathRules.isAsciiLetter (Char.ofNat n).toUpper = true ∧
        (Char.ofNat n).toUpper.toUpper = (Char.ofNat n).toUpper := by
    decide
  have hlt : letter.toNat < 128 := by
    simp only [WindowsPathRules.isAsciiLetter, Bool.or_eq_true, Bool.and_eq_true,
      decide_eq_true_eq] at h
    rcases h with ⟨-, hle⟩ | ⟨-, hle⟩
    · exact Nat.lt_of_le_of_lt (UInt32.le_iff_toNat_le.mp hle) (by decide)
    · exact Nat.lt_of_le_of_lt (UInt32.le_iff_toNat_le.mp hle) (by decide)
  simpa using hall letter.toNat hlt (by simpa using h)

/-- The segments of a path are clean. -/
theorem IsPath.clean (h : IsPath raw letter segments) :
    ∀ segment ∈ segments, Segments.Clean separator segment ∧ segment ≠ ['.'] := by
  obtain ⟨sep, rest, -, -, rfl⟩ := h.rooted
  intro segment hmem
  obtain ⟨hsplit, hdot⟩ := List.mem_filter.mp hmem
  exact ⟨Segments.clean_of_mem_split hsplit, of_decide_eq_true hdot⟩

/-- Upper-casing the letter again changes nothing. -/
theorem canonicalPath_toUpper (h : IsPath raw letter segments) :
    canonicalPath letter.toUpper segments = canonicalPath letter segments := by
  rw [canonicalPath_eq, canonicalPath_eq, (isAsciiLetter_toUpper h.drive).2]

/-- The root is that of the upper-case letter. -/
theorem driveRoot_toUpper (h : IsPath raw letter segments) :
    driveRoot letter.toUpper = driveRoot letter := by
  rw [driveRoot, driveRoot, (isAsciiLetter_toUpper h.drive).2]

/-- The canonical path of a path is a path with the same segments. -/
theorem IsPath.canonical (h : IsPath raw letter segments) :
    IsPath (canonicalPath letter segments) letter.toUpper segments where
  drive := (isAsciiLetter_toUpper h.drive).1
  rooted := by
    refine ⟨'\\', List.intercalate ['\\'] segments, ?_, rfl, ?_⟩
    · rw [canonicalPath_eq, String.toList_ofList]
    · rw [Segments.split_intercalate rfl fun segment hmem => (h.clean segment hmem).1]
      exact (List.filter_eq_self.mpr fun segment hmem =>
        decide_eq_true (h.clean segment hmem).2).symm
  permitted := h.permitted

/-- A path has one drive and one list of segments. -/
theorem IsPath.unique (h : IsPath raw letter segments) (h' : IsPath raw letter' segments') :
    letter = letter' ∧ segments = segments' := by
  obtain ⟨sep, rest, heq, -, rfl⟩ := h.rooted
  obtain ⟨sep', rest', heq', -, rfl⟩ := h'.rooted
  rw [heq] at heq'
  obtain ⟨rfl, hrest⟩ := List.cons.inj heq'
  obtain ⟨-, hrest⟩ := List.cons.inj hrest
  obtain ⟨rfl, rfl⟩ := List.cons.inj hrest
  exact ⟨rfl, rfl⟩

/-- Two paths have the same canonical path exactly if their drives agree ignoring case and their
segments are equal. -/
theorem canonicalPath_inj (h : IsPath raw letter segments) (h' : IsPath raw' letter' segments') :
    canonicalPath letter segments = canonicalPath letter' segments' ↔
      letter.toUpper = letter'.toUpper ∧ segments = segments' := by
  constructor
  · intro heq
    have hpath := h.canonical
    rw [heq] at hpath
    exact hpath.unique h'.canonical
  · rintro ⟨hletter, rfl⟩
    rw [canonicalPath_eq, canonicalPath_eq, hletter]

end Canonical

section Answers

variable (oracle : (o : Op) → Res o) {raw c : String}

/-- What the validator answers to a path of the grammar. -/
theorem eval_validate {letter : Char} {segments : List (List Char)}
    (h : IsPath raw letter segments) : (PathValidator.validate raw).eval oracle =
      .ok (outcomeOn (canonicalPath letter segments) (oracle (.classify (driveRoot letter)))) := by
  rw [validate_of_isPath h]
  rfl

/-- A path is accepted on a fixed drive alone. -/
theorem outcomeOn_eq_valid {c' : String} {classification : DriveClassification} :
    outcomeOn c' classification = .valid c ↔ classification = .fixed ∧ c = c' := by
  cases classification <;> simp [outcomeOn, eq_comm]

/-- The accepted paths. -/
theorem eval_validate_eq_valid : (PathValidator.validate raw).eval oracle = .ok (.valid c) ↔
    ∃ letter segments, IsPath raw letter segments ∧
      oracle (.classify (driveRoot letter)) = .fixed ∧ c = canonicalPath letter segments := by
  constructor
  · intro h
    by_cases hpath : ∃ letter segments, IsPath raw letter segments
    · obtain ⟨letter, segments, hpath⟩ := hpath
      rw [eval_validate oracle hpath] at h
      exact ⟨letter, segments, hpath, outcomeOn_eq_valid.mp (Except.ok.inj h)⟩
    · push Not at hpath
      obtain ⟨reason, hreason⟩ := validate_of_not_isPath hpath
      rw [hreason] at h
      exact absurd (Except.ok.inj h) (by simp)
  · rintro ⟨letter, segments, hpath, hfixed, rfl⟩
    rw [eval_validate oracle hpath, hfixed]
    rfl

/-- The validator accepts exactly its grammar, on drives that are fixed, and says why it rejects a
traversal or a network path. -/
theorem validate_grammar (oracle : (o : Op) → Res o) (raw : String) :
    (∀ c, (PathValidator.validate raw).eval oracle = .ok (.valid c) ↔
      ∃ letter segments, IsPath raw letter segments ∧
        oracle (.classify (driveRoot letter)) = .fixed ∧ c = canonicalPath letter segments) ∧
    ((¬ ∃ letter segments, IsPath raw letter segments ∧
        oracle (.classify (driveRoot letter)) = .fixed) →
      ∃ reason, (PathValidator.validate raw).eval oracle = .ok (.invalid reason)) ∧
    (HasTraversal raw → ¬ StartsUnc raw →
      (PathValidator.validate raw).eval oracle = .ok (.invalid .traversal)) ∧
    (StartsUnc raw →
      (PathValidator.validate raw).eval oracle = .ok (.invalid .uncOrNetworkPath)) := by
  refine ⟨fun c => eval_validate_eq_valid oracle, fun hother => ?_, fun htraversal hunc => ?_,
    fun hunc => ?_⟩
  · by_cases hpath : ∃ letter segments, IsPath raw letter segments
    · obtain ⟨letter, segments, hpath⟩ := hpath
      rw [eval_validate oracle hpath]
      cases hdrive : (oracle (.classify (driveRoot letter)) : DriveClassification) with
      | fixed => exact absurd ⟨letter, segments, hpath, hdrive⟩ hother
      | network => exact ⟨.uncOrNetworkPath, rfl⟩
      | removable => exact ⟨.removableDrive, rfl⟩
      | unknown => exact ⟨.unsupportedDrive, rfl⟩
    · push Not at hpath
      obtain ⟨reason, hreason⟩ := validate_of_not_isPath hpath
      exact ⟨reason, by rw [hreason]; rfl⟩
  · rw [validate_of_traversal htraversal hunc]
    rfl
  · rw [validate_of_unc hunc]
    rfl

end Answers

end ElevateGate.Agent
