import ElevateGate.Agent.Provenance
import ElevateGate.Approval.Coherence
import ElevateGate.Backend.Allowlist
import ElevateGate.Platform.Json

/-!
# What the backend accepts of what the agent sends

A submission leaves the agent as a JSON object, which the backend validates before its endpoint runs and
stores in columns of limited width. The agent checks that there is a reason and what kind of path it is
asked about; the backend bounds every text, and how often a device may submit. Within its rate limit a
request is accepted exactly where it keeps within the backend's bounds.
-/

namespace ElevateGate

open Interaction Time Text

/-- The metadata of a file as a JSON object. -/
structure FileMetadataJson where
  fileName : String
  fullPath : String
  sizeBytes : Nat
  fileVersion : Option String
  sha256Hex : String

/-- The signature of a file as a JSON object. -/
structure SignatureInfoJson where
  trustStatus : String
  publisherCommonName : Option String
  certificateThumbprint : Option String

/-- A submission as a JSON object. -/
structure ApprovalRequestJson where
  requestId : String
  deviceId : String
  file : FileMetadataJson
  signature : SignatureInfoJson
  reason : String
  requestedAtUtc : String

namespace Agent

/-- The name of a trust status, in camel case. -/
def SignatureTrustStatus.camelCase : SignatureTrustStatus → String
  | .unsigned => "unsigned"
  | .trusted => "trusted"
  | .untrusted => "untrusted"
  | .hashMismatch => "hashMismatch"
  | .revoked => "revoked"
  | .unknown => "unknown"

/-- How the agent writes a submission. -/
def ApprovalRequest.toJson (dates : RequestDates) (request : ApprovalRequest) : ApprovalRequestJson where
  requestId := request.requestId
  deviceId := request.deviceId
  file :=
    { fileName := request.file.fileName
      fullPath := request.file.fullPath
      sizeBytes := request.file.sizeBytes
      fileVersion := request.file.fileVersion
      sha256Hex := request.file.sha256Hex }
  signature :=
    { trustStatus := request.signature.trustStatus.camelCase
      publisherCommonName := request.signature.publisherCommonName
      certificateThumbprint := request.signature.certificateThumbprint }
  reason := request.reason
  requestedAtUtc := dates.write request.requestedAtUtc

end Agent

namespace Backend

open Handler

/-- `to_internal_signature_status` of the value of an `AgentSignatureTrustStatus`. -/
def toInternalSignatureStatus : String → Option SignatureStatus
  | "unsigned" => some .unsigned
  | "trusted" => some .trusted
  | "untrusted" => some .untrusted
  | "hashMismatch" => some .hashMismatch
  | "revoked" => some .revoked
  | "unknown" => some .unknown
  | _ => none

/-- A text whose length is within bounds. -/
def constrained (minLength maxLength : Nat) (s : String) : Option String :=
  if minLength ≤ s.length ∧ s.length ≤ maxLength then some s else none

/-- A text that may be missing, of a bounded length. -/
def nullable (maxLength : Nat) : Option String → Option (Option String)
  | none => some none
  | some s => some <$> constrained 0 maxLength s

/-- A text that matches `_SHA256_PATTERN`. -/
def matchSha256 (s : String) : Option Sha256Hex :=
  if h : isHex s = true ∧ s.toList.length = 64 then some ⟨s, h.1, h.2⟩ else none

/-- The validation of a submission. -/
def AgentApprovalRequest.ofJson (dates : RequestDates) (json : ApprovalRequestJson) :
    Option AgentApprovalRequest := do
  let requestId ← Uuid.parse json.requestId
  let deviceId ← Uuid.parse json.deviceId
  let fileName ← constrained 1 500 json.file.fileName
  let fullPath ← constrained 1 32768 json.file.fullPath
  let fileVersion ← nullable 100 json.file.fileVersion
  let sha256Hex ← matchSha256 json.file.sha256Hex
  let trustStatus ← toInternalSignatureStatus json.signature.trustStatus
  let publisherCommonName ← nullable 500 json.signature.publisherCommonName
  let certificateThumbprint ← nullable 255 json.signature.certificateThumbprint
  let reason ← constrained 5 4000 json.reason
  let requestedAtUtc ← dates.read json.requestedAtUtc
  return { requestId := requestId
           deviceId := deviceId
           fileName := fileName
           fullPath := fullPath
           sizeBytes := json.file.sizeBytes
           fileVersion := fileVersion
           sha256Hex := sha256Hex
           trustStatus := trustStatus
           publisherCommonName := publisherCommonName
           certificateThumbprint := certificateThumbprint
           reason := reason
           requestedAtUtc := requestedAtUtc }

variable (deployment : Deployment)

/-- `POST /requests` of a body that is not valid: the device is authenticated first. -/
def submitInvalid (credentials : Option String) : Handler Answer := do
  let _ ← getCurrentDeviceBearer deployment credentials
  raise .requestValidationError

/-- `POST /requests`, with the validation of its body, which comes before the rate limiter. -/
def submitJson (dates : RequestDates) (credentials : Option String) (json : ApprovalRequestJson)
    (admitted : Bool) : Handler Answer :=
  match AgentApprovalRequest.ofJson dates json with
  | none => (submitInvalid deployment credentials).finally_ close
  | some body => serve deployment (.agentSubmitRequest credentials body admitted)

end Backend

/-- A request keeps within the bounds of the backend's validation. -/
structure Bounded (request : Agent.ApprovalRequest) : Prop where
  reason : 5 ≤ request.reason.length ∧ request.reason.length ≤ 4000
  fileName : request.file.fileName.length ≤ 500
  fullPath : request.file.fullPath.length ≤ 32768
  fileVersion : ∀ version, request.file.fileVersion = some version → version.length ≤ 100
  publisherCommonName : ∀ name, request.signature.publisherCommonName = some name → name.length ≤ 500
  certificateThumbprint : ∀ thumbprint, request.signature.certificateThumbprint = some thumbprint →
    thumbprint.length ≤ 255

/-- The texts of a request that are stored as they are sent. -/
def texts (request : Agent.ApprovalRequest) : List String :=
  [request.file.fileName, request.file.fullPath, request.reason] ++ request.file.fileVersion.toList ++
    request.signature.publisherCommonName.toList

/-- A request keeps within what the backend can store, too. -/
structure Fits (request : Agent.ApprovalRequest) : Prop extends Bounded request where
  sizeBytes : request.file.sizeBytes < 2 ^ 63
  plain : ∀ text ∈ texts request, Char.ofNat 0 ∉ text.toList

/-- What the agent sees to before it sends a request. -/
structure Prepared (request : Agent.ApprovalRequest) : Prop where
  requestId : ∃ guid : Uuid, request.requestId = guid.textN
  fileName : 1 ≤ request.file.fileName.length
  fullPath : 1 ≤ request.file.fullPath.length
  sha256Hex : isHex request.file.sha256Hex = true ∧ request.file.sha256Hex.toList.length = 64

/-- A body says what a request says. -/
structure Conveys (request : Agent.ApprovalRequest) (body : Backend.AgentApprovalRequest) : Prop where
  requestId : body.requestId.textN = request.requestId
  deviceId : Uuid.parse request.deviceId = some body.deviceId
  fileName : body.fileName = request.file.fileName
  fullPath : body.fullPath = request.file.fullPath
  sizeBytes : body.sizeBytes = request.file.sizeBytes
  fileVersion : body.fileVersion = request.file.fileVersion
  publisherCommonName : body.publisherCommonName = request.signature.publisherCommonName
  reason : body.reason = request.reason

section Validation

open Backend

variable {dates : RequestDates} {request : Agent.ApprovalRequest} {body : AgentApprovalRequest}

private theorem constrained_eq_some {minLength maxLength : Nat} {s t : String} :
    constrained minLength maxLength s = some t ↔
      (minLength ≤ s.length ∧ s.length ≤ maxLength) ∧ s = t := by
  rw [constrained, Option.ite_none_right_eq_some, Option.some.injEq]

private theorem nullable_eq_some {maxLength : Nat} {value value' : Option String} :
    nullable maxLength value = some value' ↔
      (∀ s, value = some s → s.length ≤ maxLength) ∧ value = value' := by
  cases value with
  | none => simp [nullable]
  | some s => simp [nullable, constrained_eq_some]

private theorem matchSha256_eq_some {s : String} {digest : Sha256Hex} :
    matchSha256 s = some digest ↔ digest.text = s := by
  unfold matchSha256
  constructor
  · intro h
    split at h
    · rw [← Option.some.inj h]
    · contradiction
  · rintro rfl
    exact dif_pos ⟨digest.isHex_text, digest.length_text⟩

/-- The backend knows every trust status under the name that the agent writes. -/
theorem exists_toInternalSignatureStatus (status : Agent.SignatureTrustStatus) :
    ∃ status', toInternalSignatureStatus status.camelCase = some status' := by
  cases status with
  | unsigned => exact ⟨.unsigned, rfl⟩
  | trusted => exact ⟨.trusted, rfl⟩
  | untrusted => exact ⟨.untrusted, rfl⟩
  | hashMismatch => exact ⟨.hashMismatch, rfl⟩
  | revoked => exact ⟨.revoked, rfl⟩
  | unknown => exact ⟨.unknown, rfl⟩

/-- A body that is valid keeps within the bounds and says what the request says. -/
theorem bounded_of_ofJson (hprepared : Prepared request)
    (h : AgentApprovalRequest.ofJson dates (request.toJson dates) = some body) :
    Bounded request ∧ Conveys request body := by
  simp only [AgentApprovalRequest.ofJson, Option.bind_eq_bind, Option.bind_eq_some_iff,
    constrained_eq_some, nullable_eq_some, matchSha256_eq_some, Option.pure_def,
    Option.some.injEq] at h
  obtain ⟨requestId, hrequestId, deviceId, hdeviceId, _, ⟨⟨-, hfileName⟩, rfl⟩, _,
    ⟨⟨-, hfullPath⟩, rfl⟩, _, ⟨hfileVersion, rfl⟩, _, -, _, -, _, ⟨hpublisher, rfl⟩, _,
    ⟨hthumbprint, rfl⟩, _, ⟨hreason, rfl⟩, _, -, rfl⟩ := h
  obtain ⟨guid, hguid⟩ := hprepared.requestId
  have hparse : Uuid.parse request.requestId = some requestId := hrequestId
  rw [hguid, Uuid.parse_textN] at hparse
  obtain rfl := Option.some.inj hparse
  exact ⟨⟨hreason, hfileName, hfullPath, hfileVersion, hpublisher, hthumbprint⟩,
    ⟨hguid.symm, hdeviceId, rfl, rfl, rfl, rfl, rfl, rfl⟩⟩

/-- A request that keeps within the bounds is valid. -/
theorem exists_ofJson {deviceId : Uuid} (hprepared : Prepared request)
    (hdeviceId : Uuid.parse request.deviceId = some deviceId) (hbounded : Bounded request) :
    ∃ body, AgentApprovalRequest.ofJson dates (request.toJson dates) = some body := by
  obtain ⟨guid, hguid⟩ := hprepared.requestId
  have hrequestId : Uuid.parse request.requestId = some guid := by rw [hguid, Uuid.parse_textN]
  obtain ⟨status, hstatus⟩ := exists_toInternalSignatureStatus request.signature.trustStatus
  obtain ⟨requestedAtUtc, hrequestedAtUtc, -⟩ := dates.read_write request.requestedAtUtc
  have hfileName : constrained 1 500 request.file.fileName = some request.file.fileName :=
    constrained_eq_some.mpr ⟨⟨hprepared.fileName, hbounded.fileName⟩, rfl⟩
  have hfullPath : constrained 1 32768 request.file.fullPath = some request.file.fullPath :=
    constrained_eq_some.mpr ⟨⟨hprepared.fullPath, hbounded.fullPath⟩, rfl⟩
  have hreason : constrained 5 4000 request.reason = some request.reason :=
    constrained_eq_some.mpr ⟨hbounded.reason, rfl⟩
  have hfileVersion := nullable_eq_some.mpr ⟨hbounded.fileVersion, rfl⟩
  have hpublisher := nullable_eq_some.mpr ⟨hbounded.publisherCommonName, rfl⟩
  have hthumbprint := nullable_eq_some.mpr ⟨hbounded.certificateThumbprint, rfl⟩
  have hsha256Hex : matchSha256 request.file.sha256Hex =
      some ⟨request.file.sha256Hex, hprepared.sha256Hex.1, hprepared.sha256Hex.2⟩ :=
    matchSha256_eq_some.mpr rfl
  simp only [AgentApprovalRequest.ofJson, Agent.ApprovalRequest.toJson, hrequestId, hdeviceId,
    hfileName, hfullPath, hfileVersion, hsha256Hex, hstatus, hpublisher, hthumbprint, hreason,
    hrequestedAtUtc, Option.bind_eq_bind, Option.bind_some, Option.pure_def, Option.some.injEq,
    exists_eq']

private theorem fitsColumn_iff {width : Option Nat} {s : String} :
    fitsColumn width s = true ↔ (∀ n, width = some n → s.length ≤ n) ∧ Char.ofNat 0 ∉ s.toList := by
  cases width <;> simp [fitsColumn]

/-- The text of a digest fits its column. -/
private theorem fitsColumn_sha256 (digest : Sha256Hex) : fitsColumn (some 64) digest.text = true := by
  have hzero : Char.ofNat 0 ∉ hexDigits := by decide
  refine fitsColumn_iff.mpr ⟨fun n hn => ?_, fun hmem => hzero ?_⟩
  · rw [← Option.some.inj hn, ← String.length_toList, digest.length_text]
  · exact of_decide_eq_true (List.all_eq_true.mp digest.isHex_text _ hmem)

/-- The row of a body that is valid fits the columns exactly where the request can be stored. -/
theorem fitsColumns_iff (hbounded : Bounded request) (hconveys : Conveys request body) :
    body.fitsColumns = true ↔ Fits request := by
  simp only [AgentApprovalRequest.fitsColumns, fitsBigInteger, Bool.and_eq_true, decide_eq_true_eq,
    hconveys.fileName, hconveys.fullPath, hconveys.sizeBytes, hconveys.fileVersion,
    hconveys.publisherCommonName, hconveys.reason, fitsColumn_sha256, and_true, Option.all_eq_true,
    fitsColumn_iff]
  constructor
  · rintro ⟨⟨⟨⟨⟨hfileName, hfullPath⟩, hpublisher⟩, hsize⟩, hversion⟩, hreason⟩
    refine ⟨hbounded, hsize, fun text htext => ?_⟩
    simp only [texts, List.mem_append, List.mem_cons, List.not_mem_nil, or_false,
      Option.mem_toList] at htext
    obtain ((rfl | rfl | rfl) | hsome) | hsome := htext
    · exact hfileName.2
    · exact hfullPath.2
    · exact hreason.2
    · exact (hversion _ hsome).2
    · exact (hpublisher _ hsome).2
  · intro h
    have hplain : ∀ text, text ∈ texts request → Char.ofNat 0 ∉ text.toList := h.plain
    simp only [texts, List.mem_append, List.mem_cons, List.not_mem_nil, or_false,
      Option.mem_toList] at hplain
    refine ⟨⟨⟨⟨⟨⟨?_, hplain _ (by simp)⟩, ⟨by simp, hplain _ (by simp)⟩⟩, fun name hname => ?_⟩,
      h.sizeBytes⟩, fun version hversion => ?_⟩, ⟨by simp, hplain _ (by simp)⟩⟩
    · exact fun n hn => Option.some.inj hn ▸ hbounded.fileName
    · exact ⟨fun n hn => Option.some.inj hn ▸ hbounded.publisherCommonName name hname,
        hplain _ (Or.inr hname)⟩
    · exact ⟨fun n hn => Option.some.inj hn ▸ hbounded.fileVersion version hversion,
        hplain _ (Or.inl (Or.inr hversion))⟩

/-- A request that the agent has prepared is valid and fits the columns exactly where it keeps within the
bounds. -/
theorem accepts_iff_fits {deviceId : Uuid} (hprepared : Prepared request)
    (hdeviceId : Uuid.parse request.deviceId = some deviceId) :
    (∃ body, AgentApprovalRequest.ofJson dates (request.toJson dates) = some body ∧
      body.fitsColumns = true) ↔ Fits request := by
  constructor
  · rintro ⟨body, hbody, hcolumns⟩
    obtain ⟨hbounded, hconveys⟩ := bounded_of_ofJson hprepared hbody
    exact (fitsColumns_iff hbounded hconveys).mp hcolumns
  · intro hfits
    obtain ⟨body, hbody⟩ : ∃ body,
        AgentApprovalRequest.ofJson dates (request.toJson dates) = some body :=
      exists_ofJson hprepared hdeviceId hfits.toBounded
    obtain ⟨hbounded, hconveys⟩ := bounded_of_ofJson hprepared hbody
    exact ⟨body, hbody, (fitsColumns_iff hbounded hconveys).mpr hfits⟩

end Validation

namespace Agent

open Interaction

section Preparation

variable {host : Host} {accepts : Tid → Call → Bool}

/-- A digest is written in sixty-four digits. -/
private theorem length_hashText {casing : Casing} (content : List UInt8) :
    (hashText casing content).toList.length = 64 := by
  have hbytes : ∀ bytes : List UInt8, (toHexString bytes).toList.length = 2 * bytes.length := by
    intro bytes
    rw [toHexString, String.toList_ofList, List.length_flatMap]
    simp [Nat.mul_comm]
  rw [hashText, toLowerInvariant, String.toList_ofList, List.length_map, hbytes, Sha256.length_digest]

/-- A path with an allowed extension has a last segment. -/
private theorem lastSegment_ne_nil {casing : Casing} {path : String}
    (h : isAllowedExtension casing (getExtension path) = true) : lastSegment path ≠ [] := by
  intro hnil
  have hempty : getExtension path = "" := by simp [getExtension, hnil]
  rw [hempty] at h
  simp [isAllowedExtension, equalsOrdinalIgnoreCase] at h

/-- A request that is about to be sent was drawn an identifier, has a file with a name, and carries a
digest. -/
theorem prepared_of_run {s : State} {labels : List (Label Tid Choice Event Call)}
    {c : Config Op Res ClrException Answer Tid Call (Recorded Op Res Tid Event State)}
    {i : Tid} {call : Call} {bearerToken : String} {request : ApprovalRequest}
    {next : Res (.sendRequest bearerToken request) → Service Answer}
    (hrun : ((system host accepts).recorded .free).run labels (System.init ⟨s, []⟩) = some c)
    (hthread : c.thread i = some (call, .perform (.sendRequest bearerToken request) next)) :
    Prepared request := by
  have hstart : Current ⟨s, []⟩ := fun _ _ _ hread => by contradiction
  obtain ⟨hreported, -⟩ := recorded_run follows_reported preserved_current (obedient_init _) hstart hrun
  obtain ⟨htraced, -, hthroughout⟩ := recorded_run follows_traced preserved_current.throughout
    (obedient_init _) ⟨hstart, throughout_nil s⟩ hrun
  obtain ⟨r, path, -, -, -, -, hfile, -⟩ :
      Reported host.casing (mine i c.shared.log) (.sendRequest bearerToken request) := by
    cases hreported i call _ hthread with
    | perform allowed rest => exact allowed
  have hsubmitting : Traced host call (mine i c.shared.log) (.sendRequest bearerToken request) := by
    cases htraced i call _ hthread with
    | perform allowed rest => exact allowed
  obtain ⟨s', t, answer, rest, hmine, hpath⟩ :
      Submitting host (mine i c.shared.log) (.sendRequest bearerToken request) := by
    cases call with
    | pollingWorker ticks => exact absurd rfl (hsubmitting.sends bearerToken request)
    | _ => exact hsubmitting
  -- the request was tracked right before, under what the protocol says about that
  rw [← List.nil_append (_ :: rest)] at hmine
  obtain ⟨newer, older, hlog, hrest, -⟩ := exists_of_mine hmine
  obtain ⟨-, call', htracked⟩ := hthroughout i _ older ⟨newer, hlog.symm⟩
  obtain ⟨guid, -, hguid, hsubmittable⟩ : Submitting host rest (.setItem request.requestId t) := by
    rw [hrest] at htracked
    cases call' with
    | pollingWorker ticks => exact absurd rfl (htracked.sets _ _)
    | _ => exact htracked
  have hlast := lastSegment_ne_nil hsubmittable.2
  rw [hpath, hfile] at hlast
  refine ⟨⟨guid, hguid⟩, ?_, ?_, ?_⟩
  · rw [hfile]
    change 1 ≤ (fileName path).length
    rw [fileName, ← String.length_toList, String.toList_ofList]
    exact List.length_pos_iff.mpr hlast
  · rw [hfile]
    change 1 ≤ path.length
    rw [← String.length_toList]
    refine List.length_pos_iff.mpr fun hnil => hlast ?_
    change lastSegment path = []
    simp [lastSegment, hnil]
  · rw [hfile]
    exact ⟨isHex_hashText r.content, length_hashText r.content⟩

end Preparation

end Agent

namespace Backend

open Handler

section Answers

variable {deployment : Deployment} {k : Sid} {start s : State} {credentials : Option String}
  {device : Device} {body : AgentApprovalRequest} {request : Agent.ApprovalRequest}

/-- Why an endpoint may fail to answer a request that it accepts: the instant at which the request or its
approval expires is beyond the year 9999, or the nonce that was drawn is taken. -/
inductive Mishap (deployment : Deployment) (s : State) (finish : Datetime) : PyError → Prop
  | overflow {time : Datetime} {seconds : Int} (hfrom : s.clock ≤ time) (hto : time ≤ finish)
      (hseconds : seconds = deployment.settings.elevationRequestTtlSeconds ∨
        seconds = deployment.settings.approvalTtlSeconds)
      (h : time.addSeconds seconds = none) : Mishap deployment s finish .overflowError
  | nonceTaken {id : Nat} {a : Approval} {random : List UInt8} (ha : s.approval id = some a)
      (hlength : random.length = 24) (h : a.nonce = urlsafeText random) :
      Mishap deployment s finish .integrityError

/-- One bearer token authenticates one device. -/
theorem Authenticates.unique {device' : Device} (hdistinct : s.DistinctDevices)
    (h : Authenticates deployment s credentials device)
    (h' : Authenticates deployment s credentials device') : device = device' := by
  obtain ⟨token, htoken, -, huuid, hdevice, -⟩ := h
  obtain ⟨token', htoken', -, huuid', hdevice', -⟩ := h'
  obtain rfl := Option.some.inj (htoken.symm.trans htoken')
  exact hdistinct _ _ _ _ hdevice hdevice' (Option.some.inj (huuid.symm.trans huuid'))

/-- A program that fails leaves nothing when its session is closed. -/
private theorem does_refuse {program : Handler Answer}
    (h : Does deployment k (fun result s => (∃ list, Alone k start list s) ∧
      ∃ error, result = .error error) program s) :
    Does deployment k (fun result s => s.db.committed = start.db.committed ∧
      ∃ error, result = .error error) (program.finally_ close) s := by
  refine h.finally_ ?_
  rintro result s' ⟨⟨list, halone⟩, error, rfl⟩
  exact does_close halone fun s'' _ hcommitted _ => ⟨hcommitted, error, rfl⟩

/-- A body that is not valid is refused. -/
theorem does_submitInvalid (h : Alone k start [] s) (hdistinct : start.DistinctDevices) :
    Does deployment k (fun result s => s.db.committed = start.db.committed ∧
      ∃ error, result = .error error) ((submitInvalid deployment credentials).finally_ close) s := by
  refine does_refuse ?_
  rw [submitInvalid]
  refine does_getCurrentDeviceBearer h hdistinct (fun _ _ _ h1 _ _ => ⟨⟨_, h1⟩, _, rfl⟩) ?_
  exact fun _ _ h1 _ => .throw fun s2 hticks => ⟨⟨_, h1.ticks hticks⟩, _, rfl⟩

/-- A submission of a device for a new request that fits is answered if it is admitted, or there is a
mishap. -/
private theorem answered_of_outcome {result : Except PyError Answer} {s' : State}
    (hfits : body.fitsColumns = true) (hdistinct : start.DistinctDevices)
    (hdevice : Authenticates deployment start credentials device)
    (hbody : body.deviceId = device.deviceUuid)
    (hfresh : ∀ id r, start.request id = some r → r.requestUuid ≠ body.requestId)
    (h : Outcome deployment start credentials body true result s') :
    (∃ r, result = .ok (.requestId r.requestUuid.textD) ∧ Filed start s' device body r) ∨
      ∃ error, result = .error error ∧ Mishap deployment start s'.clock error := by
  cases h with
  | @filed device' r _ hdevice' _ _ _ hfiled =>
    obtain rfl := hdevice.unique hdistinct hdevice'
    exact Or.inl ⟨r, rfl, hfiled⟩
  | rejected hrejected _ =>
    cases hrejected with
    | unauthenticated _ hnone => exact absurd hdevice (hnone device)
    | limited _ hadmitted => contradiction
    | otherDevice hdevice' hother =>
      obtain rfl := hdevice.unique hdistinct hdevice'
      exact absurd hbody hother
    | overflow hfrom hto hseconds hnone =>
      exact Or.inr ⟨_, rfl, .overflow hfrom hto hseconds hnone⟩
    | unfit hunfit => exact absurd (hunfit.symm.trans hfits) Bool.false_ne_true
    | duplicate hr hduplicate => exact absurd hduplicate (hfresh _ _ hr)
    | nonceTaken ha hlength hnonce => exact Or.inr ⟨_, rfl, .nonceTaken ha hlength hnonce⟩

/-- A submission that is not admitted, or does not fit, is refused. -/
private theorem refused_of_outcome {admitted : Bool} {result : Except PyError Answer} {s' : State}
    (hrefused : admitted = false ∨ ¬ body.fitsColumns = true)
    (h : Outcome deployment start credentials body admitted result s') :
    s'.db.committed = start.db.committed ∧ ∃ error, result = .error error := by
  cases h with
  | filed _ _ hadmitted hfits _ =>
    exact hrefused.elim (fun hlimited => absurd (hlimited.symm.trans hadmitted) Bool.false_ne_true)
      fun hunfit => absurd hfits hunfit
  | rejected _ hcommitted => exact ⟨hcommitted, _, rfl⟩

/-- A request that the agent has prepared is filed within its rate limit exactly where it keeps within
the bounds, mishaps apart; else nothing is stored. -/
theorem does_submitJson {dates : RequestDates} {admitted : Bool} (htidy : s.Tidy deployment)
    (hdevice : Authenticates deployment s credentials device) (hprepared : Prepared request)
    (hdeviceId : Uuid.parse request.deviceId = some device.deviceUuid)
    (hfresh : ∀ id r, s.request id = some r → r.requestUuid.textN ≠ request.requestId) :
    Does deployment k (fun result s' =>
      (admitted = true → Fits request → (∃ body r, Conveys request body ∧
          result = .ok (.requestId r.requestUuid.textD) ∧ Filed s s' device body r) ∨
        ∃ error, result = .error error ∧ Mishap deployment s s'.clock error) ∧
      (admitted = false ∨ ¬ Fits request → s'.db.committed = s.db.committed ∧
        ∃ error, result = .error error))
      (submitJson deployment dates credentials (request.toJson dates) admitted) (s.rollback k) := by
  have halone := htidy.idle.alone k
  rw [submitJson]
  cases hbody : AgentApprovalRequest.ofJson dates (request.toJson dates) with
  | none =>
    have hnot : ¬ Fits request := fun hfits => by
      have haccepted : ∃ body, AgentApprovalRequest.ofJson dates (request.toJson dates) = some body ∧
          body.fitsColumns = true :=
        (accepts_iff_fits hprepared hdeviceId).mpr hfits
      obtain ⟨body, hsome, -⟩ := haccepted
      rw [hbody] at hsome
      contradiction
    refine (does_submitInvalid halone htidy.distinct).mono fun result s' h => ?_
    exact ⟨fun _ hfits => absurd hfits hnot, fun _ => h⟩
  | some body =>
    obtain ⟨hbounded, hconveys⟩ := bounded_of_ofJson hprepared hbody
    have hcolumns := fitsColumns_iff hbounded hconveys
    have hdevice' : body.deviceId = device.deviceUuid :=
      Option.some.inj (hconveys.deviceId.symm.trans hdeviceId)
    have hfresh' : ∀ id r, s.request id = some r → r.requestUuid ≠ body.requestId := by
      intro id r hr heq
      exact hfresh id r hr (heq ▸ hconveys.requestId)
    refine (does_submission halone htidy.distinct htidy.inv.linked).mono fun result s' h => ?_
    refine ⟨fun hadmitted hfits => ?_, fun hrefused =>
      refused_of_outcome (hrefused.imp_right fun hnot hfits => hnot (hcolumns.mp hfits)) h.2⟩
    subst hadmitted
    have hanswered :=
      answered_of_outcome (hcolumns.mpr hfits) htidy.distinct hdevice hdevice' hfresh' h.2
    refine hanswered.imp_left ?_
    rintro ⟨r, hresult, hfiled⟩
    exact ⟨body, r, hconveys, hresult, hfiled⟩

end Answers

end Backend

namespace Agent

open Interaction

/-- A request that the agent sends for an active device under a new identifier, within its rate limit, is
filed exactly where it keeps within the bounds of the backend, mishaps apart; else, and where the limiter
refuses the call, it is refused and nothing is stored. -/
theorem submission_accepted_iff {host : Host} {accepts : Tid → Call → Bool} {s : State}
    {labels : List (Label Tid Choice Event Call)}
    {c : Config Op Res ClrException Answer Tid Call (Recorded Op Res Tid Event State)}
    {i : Tid} {call : Call} {bearerToken : String} {request : ApprovalRequest}
    {next : Res (.sendRequest bearerToken request) → Service Answer}
    {deployment : Backend.Deployment} {backend : Backend.State} {device : Backend.Device}
    (dates : RequestDates)
    (hrun : ((system host accepts).recorded .free).run labels (System.init ⟨s, []⟩) = some c)
    (hthread : c.thread i = some (call, .perform (.sendRequest bearerToken request) next))
    (htidy : backend.Tidy deployment)
    (hdevice : Backend.Authenticates deployment backend (some bearerToken) device)
    (hdeviceId : Uuid.parse request.deviceId = some device.deviceUuid)
    (hfresh : ∀ id r, backend.request id = some r → r.requestUuid.textN ≠ request.requestId) :
    ((∃ body, Backend.AgentApprovalRequest.ofJson dates (request.toJson dates) = some body ∧
      body.fitsColumns = true) ↔ Fits request) ∧
    ∀ k admitted, Backend.Does deployment k (fun result after =>
      (admitted = true → Fits request → (∃ body r, Conveys request body ∧
          result = .ok (.requestId r.requestUuid.textD) ∧
            Backend.Filed backend after device body r) ∨
        ∃ error, result = .error error ∧ Backend.Mishap deployment backend after.clock error) ∧
      (admitted = false ∨ ¬ Fits request → after.db.committed = backend.db.committed ∧
        ∃ error, result = .error error))
      (Backend.submitJson deployment dates (some bearerToken) (request.toJson dates) admitted)
      (backend.rollback k) := by
  have hprepared := prepared_of_run hrun hthread
  exact ⟨accepts_iff_fits hprepared hdeviceId, fun k admitted =>
    Backend.does_submitJson htidy hdevice hprepared hdeviceId hfresh⟩

namespace Sample

/-- The device may submit. -/
theorem authenticates : Backend.Authenticates Backend.Sample.deployment Backend.Sample.database
    (some state.credential.bearerToken) Backend.Sample.device := by
  refine ⟨_, rfl, ?_⟩
  decide +kernel

/-- A request that keeps within the bounds. -/
theorem fits_unsignedRequest : Fits unsignedRequest := by
  refine ⟨⟨by decide, by decide, by decide, fun _ hnone => ?_, fun _ hnone => ?_,
    fun _ hnone => ?_⟩, by decide, by decide⟩
  all_goals contradiction

/-- A host on which the version of every file is one character longer than the backend takes. -/
def verboseHost : Host :=
  { signingHost with fileVersion := fun _ => some (String.ofList (List.replicate 101 '1')) }

/-- The request that is sent for such a file. -/
def verboseRequest : ApprovalRequest :=
  { unsignedRequest with
    file := { unsignedRequest.file with
      fileVersion := some (String.ofList (List.replicate 101 '1')) } }

end Sample

/-- A submission of an enrolled device that is admitted is such a submission, and is filed unless there is
a mishap. -/
theorem submission_accepted_iff_sample : Backend.Does Backend.Sample.deployment 0
    (fun result after => (∃ body r, Conveys Sample.unsignedRequest body ∧
        result = .ok (.requestId r.requestUuid.textD) ∧
          Backend.Filed Backend.Sample.database after Backend.Sample.device body r) ∨
      ∃ error, result = .error error ∧
        Backend.Mishap Backend.Sample.deployment Backend.Sample.database after.clock error)
    (Backend.submitJson Backend.Sample.deployment .iso (some Sample.state.credential.bearerToken)
      (Sample.unsignedRequest.toJson .iso) true) (Backend.Sample.database.rollback 0) := by
  obtain ⟨c, call, next, hrun, hthread, -⟩ :=
    Sample.run_sending (show Sample.sending (Sample.hashed ++ Sample.asked 3) =
      some (.sendRequest _ Sample.unsignedRequest, some [], []) by decide +kernel)
  have htidy : Backend.Sample.database.Tidy Backend.Sample.deployment :=
    Backend.Sample.directory_reachable.tidy
  have hfresh : ∀ id r, Backend.Sample.database.request id = some r →
      r.requestUuid.textN ≠ Sample.unsignedRequest.requestId := by
    intro id r hr
    have hnone : Backend.Sample.database.request id = none := rfl
    rw [hnone] at hr
    contradiction
  have hdoes := (submission_accepted_iff .iso hrun hthread htidy Sample.authenticates
    (by decide +kernel) hfresh).2 0 true
  exact hdoes.mono fun result after h => h.1 rfl Sample.fits_unsignedRequest

/-- The agent sends a request that the backend does not accept. -/
theorem unfit_request_sent :
    ∃ c call, ∃ next : Res (.sendRequest Sample.state.credential.bearerToken
        Sample.verboseRequest) → Service Answer,
      ((system Sample.verboseHost anyCall).recorded .free).run (Sample.hashed ++ Sample.asked 3)
        (System.init ⟨Sample.state, []⟩) = some c ∧
      c.thread 2 = some (call,
        .perform (.sendRequest Sample.state.credential.bearerToken Sample.verboseRequest) next) ∧
      Backend.AgentApprovalRequest.ofJson .iso (Sample.verboseRequest.toJson .iso) = none := by
  have hrun : (((system Sample.verboseHost anyCall).recorded .free).run
      (Sample.hashed ++ Sample.asked 3) (System.init ⟨Sample.state, []⟩)).bind
        (fun c => (c.thread 2).bind fun entry => entry.2.pending) =
      some (.sendRequest Sample.state.credential.bearerToken Sample.verboseRequest) := by
    decide +kernel
  obtain ⟨c, hc, hpending⟩ := Option.bind_eq_some_iff.mp hrun
  obtain ⟨⟨call, program⟩, hthread, hprogram⟩ := Option.bind_eq_some_iff.mp hpending
  obtain ⟨next, rfl⟩ := Program.pending_eq_some.mp hprogram
  exact ⟨c, call, next, hc, hthread, by decide +kernel⟩

end Agent

end ElevateGate
