import ElevateGate.Encoding.LengthPrefix
import ElevateGate.Platform.Errors
import ElevateGate.Platform.Text
import ElevateGate.Platform.Time
import Mathlib.Data.List.Basic

/-!
# The signed payload of an approval

The backend signs and the agent verifies one byte string: a version byte and five length-prefixed
UTF-8 fields. `PayloadFields` is what the byte string says; `build` (agent) and
`buildCanonicalPayload` (backend) are the two programs that write it. Both are shown to be the
one injective encoding of the fields they are given.
-/

namespace ElevateGate

open LengthPrefix Text Time

/-- The schema version, the first byte of every payload. -/
def schemaVersion : UInt8 := 1

/-- The five texts that a payload binds together, in the order in which they are written. -/
structure PayloadFields where
  deviceId : String
  requestId : String
  sha256 : String
  expiresAt : String
  nonce : String
  deriving DecidableEq

/-- The texts in order. -/
def PayloadFields.texts (f : PayloadFields) : List String :=
  [f.deviceId, f.requestId, f.sha256, f.expiresAt, f.nonce]

/-- The byte string of a payload, or `none` where a field is too long. -/
def PayloadFields.encode (f : PayloadFields) : Option (List UInt8) :=
  (record (f.texts.map utf8)).map (schemaVersion :: ·)

/-- A payload determines every field: no text can shift a boundary. -/
theorem PayloadFields.encode_injective {f g : PayloadFields} {bytes : List UInt8}
    (hf : f.encode = some bytes) (hg : g.encode = some bytes) : f = g := by
  obtain ⟨body, hbody, rfl⟩ := Option.map_eq_some_iff.mp hf
  obtain ⟨body', hbody', heq⟩ := Option.map_eq_some_iff.mp hg
  obtain rfl := (List.cons.inj heq).2
  have hmap := record_injective (by simp [texts]) hbody hbody'
  have htexts : f.texts = g.texts :=
    (List.map_injective_iff.mpr fun _ _ h => utf8_injective h) hmap
  cases f
  cases g
  simpa [texts] using htexts

namespace CanonicalApprovalPayload

/-- `WriteField`: append a length-prefixed field to the buffer. -/
def writeField (buffer : List UInt8) (value : String) : Except ClrException (List UInt8) :=
  match field (utf8 value) with
  | none => .error (.argumentOutOfRange "value" "Field too long to encode in canonical payload.")
  | some bytes => .ok (buffer ++ bytes)

/-- `ArgumentNullException.ThrowIfNull`. -/
def throwIfNull {α : Type} (paramName : String) : Option α → Except ClrException α
  | none => .error (.argumentNull paramName)
  | some value => .ok value

/-- The bytes that the agent verifies a token's signature over. -/
def build (casing : Casing) (deviceId requestId sha256Hex : Option String)
    (expiresAtUtc : DateTimeOffset) (nonce : Option String) :
    Except ClrException (List UInt8) := do
  let deviceId ← throwIfNull "deviceId" deviceId
  let requestId ← throwIfNull "requestId" requestId
  let sha256Hex ← throwIfNull "sha256Hex" sha256Hex
  let nonce ← throwIfNull "nonce" nonce
  let buffer := [schemaVersion]
  let buffer ← writeField buffer deviceId
  let buffer ← writeField buffer requestId
  let buffer ← writeField buffer (toLowerInvariant casing sha256Hex)
  let buffer ← writeField buffer expiresAtUtc.toUniversalTime.toStringO
  writeField buffer nonce

end CanonicalApprovalPayload

namespace Signing

/-- The .NET round-trip format of a UTC instant, as Python writes it. `strftime` prints the year
with as few digits as it needs. -/
def formatDotnetRoundTrip (dt : Datetime) : String :=
  String.ofList (Nat.toDigits 10 dt.civil.year ++ (clockText dt.civil ++
    ('.' :: (Decimal.pad 6 dt.microsecond ++ "0+00:00".toList))))

/-- `_write_field`: append a length-prefixed field to the buffer. -/
def writeField (buffer : List UInt8) (value : String) : Except PyError (List UInt8) :=
  match field (utf8 value) with
  | none => .error (.valueError "Field too long to encode in canonical approval payload.")
  | some bytes => .ok (buffer ++ bytes)

/-- The bytes that the backend signs for an approval. -/
def buildCanonicalPayload (casing : Casing) (deviceUuid requestUuid sha256 : String)
    (expiresAt : Datetime) (nonce : String) : Except PyError (List UInt8) := do
  let buffer := [schemaVersion]
  let buffer ← writeField buffer deviceUuid
  let buffer ← writeField buffer requestUuid
  let buffer ← writeField buffer (casing.lower sha256)
  let buffer ← writeField buffer (formatDotnetRoundTrip expiresAt)
  writeField buffer nonce

end Signing

/-- The fields that the agent writes for the texts of a token. -/
def agentFields (casing : Casing) (deviceId requestId sha256Hex : String)
    (expiresAtUtc : DateTimeOffset) (nonce : String) : PayloadFields where
  deviceId := deviceId
  requestId := requestId
  sha256 := toLowerInvariant casing sha256Hex
  expiresAt := expiresAtUtc.toUniversalTime.toStringO
  nonce := nonce

/-- The fields that the backend writes for an approval. -/
def backendFields (casing : Casing) (deviceUuid requestUuid sha256 : String)
    (expiresAt : Datetime) (nonce : String) : PayloadFields where
  deviceId := deviceUuid
  requestId := requestUuid
  sha256 := casing.lower sha256
  expiresAt := Signing.formatDotnetRoundTrip expiresAt
  nonce := nonce

variable {casing : Casing}

/-- One field written by the agent. -/
private theorem clr_writeField {buffer bytes : List UInt8} {value : String} :
    CanonicalApprovalPayload.writeField buffer value = .ok bytes ↔
      ∃ written, field (utf8 value) = some written ∧ bytes = buffer ++ written := by
  unfold CanonicalApprovalPayload.writeField
  split
  · next h => simp [h]
  · next written h => simp [h, eq_comm]

/-- One field written by the backend. -/
private theorem py_writeField {buffer bytes : List UInt8} {value : String} :
    Signing.writeField buffer value = .ok bytes ↔
      ∃ written, field (utf8 value) = some written ∧ bytes = buffer ++ written := by
  unfold Signing.writeField
  split
  · next h => simp [h]
  · next written h => simp [h, eq_comm]

/-- A null check passes exactly where there is a value, which it returns. -/
private theorem throwIfNull_ok {α : Type} {paramName : String} {value : Option α} {a : α} :
    CanonicalApprovalPayload.throwIfNull paramName value = .ok a ↔ value = some a := by
  cases value <;> simp [CanonicalApprovalPayload.throwIfNull]

/-- A computation that may fail succeeds through a value that its continuation succeeds on. -/
private theorem except_bind_ok {ε α β : Type} {x : Except ε α} {f : α → Except ε β} {b : β} :
    (x >>= f) = .ok b ↔ ∃ a, x = .ok a ∧ f a = .ok b := by
  cases x with
  | error e => simp [bind, Except.bind]
  | ok a => simp [bind, Except.bind]

/-- Five fields in a row are the encoding of the five texts. -/
private theorem encode_eq_some {f : PayloadFields} {bytes : List UInt8} :
    f.encode = some bytes ↔
      ∃ w1 w2 w3 w4 w5, field (utf8 f.deviceId) = some w1 ∧ field (utf8 f.requestId) = some w2 ∧
        field (utf8 f.sha256) = some w3 ∧ field (utf8 f.expiresAt) = some w4 ∧
        field (utf8 f.nonce) = some w5 ∧
        bytes = [schemaVersion] ++ w1 ++ w2 ++ w3 ++ w4 ++ w5 := by
  simp only [PayloadFields.encode, PayloadFields.texts, List.map_cons, List.map_nil,
    Option.map_eq_some_iff, record_cons, record_nil]
  constructor
  · rintro ⟨_, ⟨w1, _, h1, ⟨w2, _, h2, ⟨w3, _, h3, ⟨w4, _, h4, ⟨w5, _, h5, rfl, rfl⟩, rfl⟩, rfl⟩,
      rfl⟩, rfl⟩, rfl⟩
    exact ⟨w1, w2, w3, w4, w5, h1, h2, h3, h4, h5, by simp⟩
  · rintro ⟨w1, w2, w3, w4, w5, h1, h2, h3, h4, h5, rfl⟩
    exact ⟨w1 ++ (w2 ++ (w3 ++ (w4 ++ (w5 ++ [])))), ⟨w1, _, h1, ⟨w2, _, h2, ⟨w3, _, h3,
      ⟨w4, _, h4, ⟨w5, _, h5, rfl, rfl⟩, rfl⟩, rfl⟩, rfl⟩, rfl⟩, by simp⟩

/-- The agent's builder is the encoding of the token's fields, and fails where one is null. -/
theorem build_eq_ok {deviceId requestId sha256Hex nonce : Option String}
    {expiresAtUtc : DateTimeOffset} {bytes : List UInt8} :
    CanonicalApprovalPayload.build casing deviceId requestId sha256Hex expiresAtUtc nonce
        = .ok bytes ↔
      ∃ d r s n, deviceId = some d ∧ requestId = some r ∧ sha256Hex = some s ∧ nonce = some n ∧
        (agentFields casing d r s expiresAtUtc n).encode = some bytes := by
  simp only [CanonicalApprovalPayload.build, except_bind_ok, throwIfNull_ok, clr_writeField,
    encode_eq_some, agentFields]
  constructor
  · rintro ⟨d, hd, r, hr, s, hs, n, hn, _, ⟨w1, h1, rfl⟩, _, ⟨w2, h2, rfl⟩, _, ⟨w3, h3, rfl⟩, _,
      ⟨w4, h4, rfl⟩, w5, h5, rfl⟩
    exact ⟨d, r, s, n, hd, hr, hs, hn, w1, w2, w3, w4, w5, h1, h2, h3, h4, h5, rfl⟩
  · rintro ⟨d, r, s, n, hd, hr, hs, hn, w1, w2, w3, w4, w5, h1, h2, h3, h4, h5, rfl⟩
    exact ⟨d, hd, r, hr, s, hs, n, hn, _, ⟨w1, h1, rfl⟩, _, ⟨w2, h2, rfl⟩, _, ⟨w3, h3, rfl⟩, _,
      ⟨w4, h4, rfl⟩, w5, h5, rfl⟩

/-- The backend's builder is the encoding of the approval's fields. -/
theorem buildCanonicalPayload_eq_ok {deviceUuid requestUuid sha256 nonce : String}
    {expiresAt : Datetime} {bytes : List UInt8} :
    Signing.buildCanonicalPayload casing deviceUuid requestUuid sha256 expiresAt nonce
        = .ok bytes ↔
      (backendFields casing deviceUuid requestUuid sha256 expiresAt nonce).encode = some bytes := by
  simp only [Signing.buildCanonicalPayload, except_bind_ok, py_writeField, encode_eq_some,
    backendFields]
  constructor
  · rintro ⟨_, ⟨w1, h1, rfl⟩, _, ⟨w2, h2, rfl⟩, _, ⟨w3, h3, rfl⟩, _, ⟨w4, h4, rfl⟩, w5, h5, rfl⟩
    exact ⟨w1, w2, w3, w4, w5, h1, h2, h3, h4, h5, rfl⟩
  · rintro ⟨w1, w2, w3, w4, w5, h1, h2, h3, h4, h5, rfl⟩
    exact ⟨_, ⟨w1, h1, rfl⟩, _, ⟨w2, h2, rfl⟩, _, ⟨w3, h3, rfl⟩, _, ⟨w4, h4, rfl⟩, w5, h5, rfl⟩

/-- Python's text of an instant is short. -/
private theorem length_format_le (dt : Datetime) :
    (Signing.formatDotnetRoundTrip dt).toList.length ≤ 40 := by
  have hlt := dt.lt_max
  simp only [maxMicros] at hlt
  have hyear : dt.civil.year < 10 ^ 4 := Calendar.civil_year_lt (by omega)
  have hdigits := Decimal.length_toDigits_lt hyear (by decide)
  simp [Signing.formatDotnetRoundTrip]
  omega

/-- The payload of an approval can always be built, unless an identifier is huge. -/
theorem exists_payload {deviceUuid requestUuid nonce : String} (digest : Sha256Hex)
    (expiresAt : Datetime) (hdevice : deviceUuid.toList.length ≤ 1000)
    (hrequest : requestUuid.toList.length ≤ 1000) (hnonce : nonce.toList.length ≤ 1000) :
    ∃ payload, Signing.buildCanonicalPayload casing deviceUuid requestUuid digest.text expiresAt
      nonce = .ok payload := by
  have hdigest : (casing.lower digest.text).toList.length = 64 := by
    rw [toList_lower digest.isHex_text, List.length_map, digest.length_text]
  have hfields : ∀ text ∈ (backendFields casing deviceUuid requestUuid digest.text
      expiresAt nonce).texts, text.toList.length ≤ 1000 := by
    have htime := length_format_le expiresAt
    intro text htext
    simp only [PayloadFields.texts, backendFields, List.mem_cons, List.not_mem_nil, or_false] at htext
    rcases htext with rfl | rfl | rfl | rfl | rfl
    · exact hdevice
    · exact hrequest
    · omega
    · omega
    · exact hnonce
  have hshort : ∀ content ∈ (backendFields casing deviceUuid requestUuid digest.text
      expiresAt nonce).texts.map utf8, content.length ≤ maxFieldBytes := by
    intro content hcontent
    obtain ⟨text, htext, rfl⟩ := List.mem_map.mp hcontent
    have hlength := length_utf8_le text
    have hbound := hfields text htext
    rw [maxFieldBytes]
    omega
  obtain ⟨body, hbody⟩ := exists_record hshort
  exact ⟨schemaVersion :: body, buildCanonicalPayload_eq_ok.mpr (by
    rw [PayloadFields.encode, hbody]
    rfl)⟩

/-- From year 1000 on, Python's text of an instant is the agent's. -/
theorem formatDotnetRoundTrip_eq {dt : Datetime} (hyear : 1000 ≤ dt.civil.year)
    {t : DateTimeOffset} (ht : t.utcTicks = 10 * dt.micros) :
    Signing.formatDotnetRoundTrip dt = t.toUniversalTime.toStringO := by
  have hlt := dt.lt_max
  simp only [maxMicros] at hlt
  have hseconds : 10 * dt.micros / 10000000 = dt.micros / 1000000 := by omega
  have hfraction : 10 * dt.micros % 10000000 = 10 * dt.microsecond := by
    simp only [Datetime.microsecond]
    omega
  have hhigh : dt.civil.year < 10 ^ (3 + 1) := Calendar.civil_year_lt (by omega)
  simp only [Signing.formatDotnetRoundTrip, DateTimeOffset.toUniversalTime,
    DateTimeOffset.toStringO, clockTicks_utc, ht, hseconds, hfraction, String.ofList_inj]
  rw [← Decimal.pad_eq_toDigits (by simpa using hyear) hhigh, Decimal.pad_ten_mul 6]
  simp only [Datetime.civil, List.append_assoc, DateTimeOffset.utc]
  rfl

/-- Where the two texts agree, the instants do. A year below 1000 prints too short to agree. -/
theorem utcTicks_of_format_eq {dt : Datetime} {t : DateTimeOffset}
    (h : Signing.formatDotnetRoundTrip dt = t.toUniversalTime.toStringO) :
    t.utcTicks = 10 * dt.micros := by
  have hlt := dt.lt_max
  simp only [maxMicros] at hlt
  have hyear : 1000 ≤ dt.civil.year := by
    by_contra hlow
    have hdigits := @Decimal.length_toDigits_lt 3 dt.civil.year
      (by simpa using hlow) (by decide)
    have hlength := congrArg (fun s : String => s.toList.length) h
    simp [Signing.formatDotnetRoundTrip, DateTimeOffset.toStringO, offsetText] at hlength
    omega
  have hmax : 10 * dt.micros < maxTicks := by
    simp only [maxTicks]
    omega
  rw [formatDotnetRoundTrip_eq hyear (t := .utc (10 * dt.micros) hmax) rfl] at h
  exact (toStringO_injective h).symm

/-- Python's text of an instant determines it. -/
theorem formatDotnetRoundTrip_injective {dt dt' : Datetime}
    (h : Signing.formatDotnetRoundTrip dt = Signing.formatDotnetRoundTrip dt') :
    dt.micros = dt'.micros := by
  simp only [Signing.formatDotnetRoundTrip, String.ofList_inj] at h
  -- everything after the year has a fixed length
  obtain ⟨hyear, h⟩ := List.append_inj' h (by simp)
  obtain ⟨hclock, h⟩ := List.append_inj h (by simp)
  obtain ⟨hfraction, -⟩ := List.append_inj (List.cons.inj h).2 (by simp)
  have eyear : dt.civil.year = dt'.civil.year := by
    have hvalue := congrArg (fun text => Nat.ofDigitChars 10 text 0) hyear
    simpa only [Nat.ofDigitChars_ten_toDigits] using hvalue
  have eseconds := Calendar.civil_injective (clockText_injective eyear hclock)
  have efraction := @Decimal.pad_injective 6 _ _ (Nat.mod_lt _ (by decide))
    (Nat.mod_lt _ (by decide)) hfraction
  omega

/-- Fields have no encoding exactly where one of them is too long. -/
theorem PayloadFields.encode_eq_none {f : PayloadFields} :
    f.encode = none ↔ ∃ text ∈ f.texts, maxFieldBytes < (utf8 text).length := by
  rw [PayloadFields.encode, Option.map_eq_none_iff]
  constructor
  · intro hnone
    by_contra hshort
    push Not at hshort
    obtain ⟨bytes, hbytes⟩ := @exists_record (f.texts.map utf8) (by simpa using hshort)
    rw [hnone] at hbytes
    contradiction
  · rintro ⟨text, htext, hlong⟩
    refine Option.eq_none_iff_forall_ne_some.mpr fun bytes hbytes => ?_
    have hle := length_le_of_record hbytes (utf8 text) (List.mem_map_of_mem htext)
    omega

/-- A computation that returns exactly what an encoding is fails exactly where there is none. -/
private theorem error_iff {ε : Type} {result : Except ε (List UInt8)} {encoding : Option (List UInt8)}
    (h : ∀ bytes, result = .ok bytes ↔ encoding = some bytes) :
    (∃ error, result = .error error) ↔ encoding = none := by
  cases result with
  | ok bytes =>
    rw [(h bytes).mp rfl]
    simp
  | error error => simpa [Option.eq_none_iff_forall_ne_some] using h

/-- The canonical payload of either program is injective, and can be built exactly where no field
exceeds what its length prefix can announce. -/
theorem payload_injective (casing : Casing) :
    (∀ deviceId requestId sha256Hex nonce deviceId' requestId' sha256Hex' nonce' : String,
      ∀ (t t' : DateTimeOffset) bytes,
      CanonicalApprovalPayload.build casing (some deviceId) (some requestId) (some sha256Hex) t
        (some nonce) = .ok bytes →
      CanonicalApprovalPayload.build casing (some deviceId') (some requestId') (some sha256Hex') t'
        (some nonce') = .ok bytes →
      deviceId = deviceId' ∧ requestId = requestId' ∧
        toLowerInvariant casing sha256Hex = toLowerInvariant casing sha256Hex' ∧
        t.utcTicks = t'.utcTicks ∧ nonce = nonce') ∧
    (∀ deviceUuid requestUuid sha256 nonce deviceUuid' requestUuid' sha256' nonce' : String,
      ∀ (dt dt' : Datetime) bytes,
      Signing.buildCanonicalPayload casing deviceUuid requestUuid sha256 dt nonce = .ok bytes →
      Signing.buildCanonicalPayload casing deviceUuid' requestUuid' sha256' dt' nonce' = .ok bytes →
      deviceUuid = deviceUuid' ∧ requestUuid = requestUuid' ∧
        casing.lower sha256 = casing.lower sha256' ∧ dt.micros = dt'.micros ∧ nonce = nonce') ∧
    (∀ (deviceId requestId sha256Hex nonce : String) (t : DateTimeOffset),
      (∃ error, CanonicalApprovalPayload.build casing (some deviceId) (some requestId)
        (some sha256Hex) t (some nonce) = .error error) ↔
      ∃ text ∈ (agentFields casing deviceId requestId sha256Hex t nonce).texts,
        65535 < (utf8 text).length) ∧
    ∀ (deviceUuid requestUuid sha256 nonce : String) (dt : Datetime),
      (∃ error, Signing.buildCanonicalPayload casing deviceUuid requestUuid sha256 dt nonce =
        .error error) ↔
      ∃ text ∈ (backendFields casing deviceUuid requestUuid sha256 dt nonce).texts,
        65535 < (utf8 text).length := by
  have hagent : ∀ (deviceId requestId sha256Hex nonce : String) (t : DateTimeOffset) bytes,
      CanonicalApprovalPayload.build casing (some deviceId) (some requestId) (some sha256Hex) t
        (some nonce) = .ok bytes ↔
      (agentFields casing deviceId requestId sha256Hex t nonce).encode = some bytes := by
    intro deviceId requestId sha256Hex nonce t bytes
    rw [build_eq_ok]
    constructor
    · rintro ⟨d, r, s, n, hd, hr, hs, hn, hencode⟩
      cases hd
      cases hr
      cases hs
      cases hn
      exact hencode
    · exact fun hencode => ⟨deviceId, requestId, sha256Hex, nonce, rfl, rfl, rfl, rfl, hencode⟩
  refine ⟨?_, ?_, ?_, ?_⟩
  · intro deviceId requestId sha256Hex nonce deviceId' requestId' sha256Hex' nonce' t t' bytes h h'
    have hfields := PayloadFields.encode_injective ((hagent _ _ _ _ _ _).mp h)
      ((hagent _ _ _ _ _ _).mp h')
    obtain ⟨hdevice, hrequest, hsha256, hexpires, hnonce⟩ := PayloadFields.mk.inj hfields
    exact ⟨hdevice, hrequest, hsha256, toStringO_injective hexpires, hnonce⟩
  · intro deviceUuid requestUuid sha256 nonce deviceUuid' requestUuid' sha256' nonce' dt dt' bytes h h'
    have hfields := PayloadFields.encode_injective (buildCanonicalPayload_eq_ok.mp h)
      (buildCanonicalPayload_eq_ok.mp h')
    obtain ⟨hdevice, hrequest, hsha256, hexpires, hnonce⟩ := PayloadFields.mk.inj hfields
    exact ⟨hdevice, hrequest, hsha256, formatDotnetRoundTrip_injective hexpires, hnonce⟩
  · intro deviceId requestId sha256Hex nonce t
    exact (error_iff (hagent deviceId requestId sha256Hex nonce t)).trans PayloadFields.encode_eq_none
  · intro deviceUuid requestUuid sha256 nonce dt
    exact (error_iff fun bytes => buildCanonicalPayload_eq_ok).trans PayloadFields.encode_eq_none

/-- Shifting a boundary between two fields changes the payload of either program. -/
theorem payload_injective_sample :
    (∃ bytes, Signing.buildCanonicalPayload .ascii "ab" "c" "" ⟨0, by decide⟩ "n" = .ok bytes) ∧
    ∀ bytes, Signing.buildCanonicalPayload .ascii "ab" "c" "" ⟨0, by decide⟩ "n" = .ok bytes →
      Signing.buildCanonicalPayload .ascii "a" "bc" "" ⟨0, by decide⟩ "n" ≠ .ok bytes := by
  refine ⟨⟨_, rfl⟩, fun bytes h h' => ?_⟩
  have hdevice := ((payload_injective .ascii).2.1 _ _ _ _ _ _ _ _ _ _ bytes h h').1
  exact absurd hdevice (by decide)

end ElevateGate
