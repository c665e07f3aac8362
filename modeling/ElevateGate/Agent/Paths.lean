import ElevateGate.Platform.Text

/-!
# Windows paths

The path rules of the agent, which are plain string operations, and the parts of `System.IO.Path`
that it uses.
-/

namespace ElevateGate.Agent

open Text

/-- The characters that .NET counts as white space. -/
def whiteSpace : List Nat :=
  [0x09, 0x0A, 0x0B, 0x0C, 0x0D, 0x20, 0x85, 0xA0, 0x1680, 0x2000, 0x2001, 0x2002, 0x2003, 0x2004,
    0x2005, 0x2006, 0x2007, 0x2008, 0x2009, 0x200A, 0x2028, 0x2029, 0x202F, 0x205F, 0x3000]

/-- `string.IsNullOrWhiteSpace` of a string that is not null. -/
def isWhiteSpace (s : String) : Bool :=
  s.toList.all fun c => decide (c.toNat ∈ whiteSpace)

namespace WindowsPathRules

/-- The characters that no segment may contain. -/
def invalidSegmentChars : List Char :=
  ['<', '>', '"', '|', '?', '*', ':', Char.ofNat 0]

/-- `IsSeparator`. -/
def isSeparator (c : Char) : Bool :=
  c == '\\' || c == '/'

/-- `IsUncOrDeviceLiteral`. -/
def isUncOrDeviceLiteral (path : String) : Bool :=
  match path.toList with
  | c :: d :: _ => isSeparator c && isSeparator d
  | _ => false

/-- `IsAsciiLetter`. -/
def isAsciiLetter (c : Char) : Bool :=
  ('A' ≤ c && c ≤ 'Z') || ('a' ≤ c && c ≤ 'z')

/-- `IsDriveRooted`. -/
def isDriveRooted (path : String) : Bool :=
  match path.toList with
  | c :: d :: e :: _ => isAsciiLetter c && d == ':' && isSeparator e
  | _ => false

/-- `Split(Separators, RemoveEmptyEntries)`. -/
def split (cs : List Char) : List (List Char) :=
  (cs.splitOnP isSeparator).filter (· ≠ [])

/-- `ContainsTraversalSegment`. -/
def containsTraversalSegment (path : String) : Bool :=
  decide (['.', '.'] ∈ split path.toList)

/-- Whether a segment has a reserved character, or ends so that Windows would strip it. -/
def isRejected (segment : List Char) : Bool :=
  segment.any (fun c => decide (c ∈ invalidSegmentChars)) || segment.getLast? == some '.' ||
    segment.getLast? == some ' '

/-- The segments that are kept, or `none` if one is rejected. -/
def cleanSegments : List (List Char) → Option (List (List Char))
  | [] => some []
  | segment :: rest =>
    if segment = ['.'] then cleanSegments rest
    else if isRejected segment then none
    else (cleanSegments rest).map (segment :: ·)

/-- `TryCanonicalize`. -/
def tryCanonicalize (rawPath : String) : Option String :=
  if isWhiteSpace rawPath then none
  else if !isDriveRooted rawPath then none
  else if containsTraversalSegment rawPath then none
  else
    let cs := rawPath.toList
    let driveLetter := (cs.headD ' ').toUpper
    (cleanSegments (split (cs.drop 3))).map fun segments =>
      String.ofList (driveLetter :: ':' :: '\\' :: List.intercalate ['\\'] segments)

/-- `GetDriveRoot`. -/
def getDriveRoot (canonicalPath : String) : String :=
  String.ofList (canonicalPath.toList.take 3)

end WindowsPathRules

/-- The characters after the last separator. -/
def lastSegment (path : String) : List Char :=
  (path.toList.reverse.takeWhile fun c => !WindowsPathRules.isSeparator c).reverse

/-- `FileInfo.Name`. -/
def fileName (path : String) : String :=
  String.ofList (lastSegment path)

/-- `Path.GetExtension`: from the last full stop of the last segment, unless that ends the path. -/
def getExtension (path : String) : String :=
  let tail := (lastSegment path).reverse.takeWhile (· ≠ '.')
  if tail = [] ∨ '.' ∉ lastSegment path then "" else String.ofList ('.' :: tail.reverse)

variable (casing : Casing)

/-- `AllowedExtensions.Contains`, in a set that compares ignoring case. -/
def isAllowedExtension (extension : String) : Bool :=
  [".exe", ".msi"].any fun allowed => equalsOrdinalIgnoreCase casing extension allowed

end ElevateGate.Agent
