import ElevateGate.Backend.Repositories

/-!
# Endpoints

The endpoints that write elevation requests and approvals, each with the authentication that
runs before it in the same session. An endpoint either answers or raises; in both cases its
session is closed, which rolls back what was not committed.
-/

namespace ElevateGate.Backend

open Interaction Time Text Handler

section Authentication

/-- HTTP Basic credentials. -/
structure BasicCredentials where
  username : String
  password : String

/-- The text before the first full stop and the text after it. -/
def partitionDot (s : String) : String × String :=
  let cs := s.toList
  (String.ofList (cs.takeWhile (· ≠ '.')), String.ofList ((cs.dropWhile (· ≠ '.')).drop 1))

variable (deployment : Deployment)

/-- The device that Basic credentials authenticate. -/
def getCurrentDevice (credentials : Option BasicCredentials) : Handler Device := do
  let some credentials := credentials
    | httpError 401 "Missing device credentials."
  let some deviceUuid := Uuid.ofPython credentials.username
    | httpError 401 "Invalid device credentials."
  let some device ← DeviceRepository.getByUuid deviceUuid
    | httpError 401 "Invalid device credentials."
  if !deployment.verifySecret credentials.password device.deviceSecretHash then
    httpError 401 "Invalid device credentials."
  else if device.enrollmentStatus ≠ .active then
    httpError 403 "Device is not active."
  else return device

/-- The device that the agent's bearer token authenticates. -/
def getCurrentDeviceBearer (credentials : Option String) : Handler Device := do
  let some credentials := credentials
    | httpError 401 "Missing device bearer token."
  let (deviceUuidStr, secret) := partitionDot credentials
  if secret = "" then httpError 401 "Malformed device bearer token."
  else
    let some deviceUuid := Uuid.ofPython deviceUuidStr
      | httpError 401 "Malformed device bearer token."
    let some device ← DeviceRepository.getByUuid deviceUuid
      | httpError 401 "Invalid device bearer token."
    if !deployment.verifySecret secret device.deviceSecretHash then
      httpError 401 "Invalid device bearer token."
    else if device.enrollmentStatus ≠ .active then
      httpError 403 "Device is not active."
    else return device

/-- The administrator that an access token authenticates. -/
def getCurrentAdmin (credentials : Option String) : Handler AdminUser := do
  let some token := credentials
    | httpError 401 "Missing bearer token."
  let time ← now
  let some subject := deployment.decodeAccessToken time token
    | httpError 401 "Invalid or expired token."
  let some adminId := subject
    | httpError 401 "Invalid token subject."
  let some admin ← AdminUserRepository.getById adminId
    | httpError 401 "Account is not active."
  if !admin.isActive then httpError 401 "Account is not active."
  else return admin

/-- `require_role`. -/
def requireRole (roles : List AdminRole) (credentials : Option String) : Handler AdminUser := do
  let admin ← getCurrentAdmin deployment credentials
  if admin.role ∈ roles then return admin
  else httpError 403 "Insufficient role."

end Authentication

section Within

variable {S : Op → Prop} {deployment : Deployment}

/-- An update of the rows that satisfy a condition. -/
theorem within_updateWhere {t : Table} {id : Nat} {condition : t.Record → Bool}
    {values : t.Record → t.Record} {hid : ∀ r, t.id (values r) = t.id r}
    (h : ∀ assign : Row ⟨t, id⟩ → Option (Row ⟨t, id⟩), (∀ row row', assign row = some row' →
      condition row.record = true ∧ row'.record = values row.record) → S (.update ⟨t, id⟩ assign)) :
    (updateWhere t id condition values hid).Within S := by
  refine (Program.Within.op (h _ fun row row' hrow => ?_)).bind fun _ => .pure
  split at hrow
  · next hcondition =>
    obtain rfl := Option.some.inj hrow
    exact ⟨hcondition, rfl⟩
  · contradiction

/-- The rate limiter performs no operation. -/
theorem within_limit {admitted : Bool} : (limit admitted).Within S :=
  .ite (fun _ => .pure) fun _ => .throw

/-- Basic authentication reads one device. -/
theorem within_getCurrentDevice {credentials : Option BasicCredentials} (hquery : S .query) :
    (getCurrentDevice deployment credentials).Within S := by
  cases credentials with
  | none => exact .throw
  | some credentials =>
    simp only [getCurrentDevice]
    split
    · refine (within_one hquery).bind fun device => ?_
      cases device with
      | none => exact .throw
      | some device => exact .ite (fun _ => .throw) fun _ => .ite (fun _ => .throw) fun _ => .pure
    · exact .throw

/-- So does the authentication of the agent. -/
theorem within_getCurrentDeviceBearer {credentials : Option String} (hquery : S .query) :
    (getCurrentDeviceBearer deployment credentials).Within S := by
  cases credentials with
  | none => exact .throw
  | some credentials =>
    simp only [getCurrentDeviceBearer]
    refine .ite (fun _ => .throw) fun _ => ?_
    split
    · refine (within_one hquery).bind fun device => ?_
      cases device with
      | none => exact .throw
      | some device => exact .ite (fun _ => .throw) fun _ => .ite (fun _ => .throw) fun _ => .pure
    · exact .throw

/-- The authentication of an administrator asks for the time and reads one row. -/
theorem within_requireRole {roles : List AdminRole} {credentials : Option String}
    (hquery : S .query) (hnow : S .now) : (requireRole deployment roles credentials).Within S := by
  refine Program.Within.bind ?_ fun admin => .ite (fun _ => .pure) fun _ => .throw
  cases credentials with
  | none => exact .throw
  | some token =>
    refine (Program.Within.op hnow).bind fun time => ?_
    split
    · split
      · refine (within_one hquery).bind fun admin => ?_
        cases admin with
        | none => exact .throw
        | some admin => exact .ite (fun _ => .throw) fun _ => .pure
      · exact .throw
    · exact .throw

end Within

/-- A request as the dashboard reads it, with the columns of its device. -/
structure ElevationRequestRead where
  request : ElevationRequest
  deviceUuid : Uuid
  deviceHostname : String

/-- Reload a request together with its device and answer with it. -/
def refreshElevationRequest (elevationRequestId : Nat) : Handler ElevationRequestRead := do
  let snapshot ← query
  let requests := (snapshot.rows .elevationRequests).filter fun r =>
    decide (ElevationRequest.id r = elevationRequestId)
  let some request ← scalarOneOrNone requests
    | raise .attributeError
  let devices := (snapshot.rows .devices).filter fun r => decide (Device.id r = request.deviceId)
  let some device ← scalarOneOrNone devices
    | raise .attributeError
  return ⟨request, device.deviceUuid, device.hostname⟩

/-- The body of a dashboard-facing submission, after validation. -/
structure ElevationRequestCreate where
  username : String
  filename : String
  canonicalPath : String
  sha256 : Sha256Hex
  publisher : Option String
  signatureStatus : SignatureStatus
  fileSize : Nat
  fileVersion : Option String
  reason : String

/-- The body of the agent's submission, after validation. -/
structure AgentApprovalRequest where
  requestId : Uuid
  deviceId : Uuid
  fileName : String
  fullPath : String
  sizeBytes : Nat
  fileVersion : Option String
  sha256Hex : Sha256Hex
  trustStatus : SignatureStatus
  publisherCommonName : Option String
  certificateThumbprint : Option String
  reason : String
  requestedAtUtc : Datetime

/-- The token in a decision that the agent polls. -/
structure AgentApprovalToken where
  deviceId : Uuid
  requestId : Uuid
  sha256Hex : String
  expiresAtUtc : Datetime
  nonce : String
  signature : String
  deriving DecidableEq

/-- A decision that the agent polls. -/
structure AgentApprovalDecision where
  requestId : Uuid
  status : ElevationRequestStatus
  token : Option AgentApprovalToken
  deriving DecidableEq

/-- An approval as the dashboard-facing poll returns it. -/
structure ApprovalRead where
  id : Nat
  elevationRequestId : Nat
  action : ApprovalAction
  deviceUuid : Uuid
  sha256 : String
  nonce : String
  issuedAt : Datetime
  expiresAt : Datetime
  signature : String
  consumedAt : Option Datetime
  deriving DecidableEq

/-- A decision of the dashboard-facing poll. -/
structure DecisionRead where
  requestUuid : Uuid
  status : ElevationRequestStatus
  approval : Option ApprovalRead
  deriving DecidableEq

/-- `base64.b64encode(...).decode("ascii")`. -/
def b64encode (bytes : List UInt8) : String :=
  String.ofList (Base64.encode .standard bytes)

/-- The token of an approved request. -/
def AgentApprovalToken.ofRows (r : ElevationRequest) (a : Approval) : AgentApprovalToken where
  deviceId := a.deviceUuid
  requestId := r.requestUuid
  sha256Hex := a.sha256.text
  expiresAtUtc := a.expiresAt
  nonce := a.nonce
  signature := b64encode a.signature

/-- The decision on a request. -/
def AgentApprovalDecision.ofRows (row : ElevationRequest × Option Approval) :
    AgentApprovalDecision where
  requestId := row.1.requestUuid
  status := row.1.status
  token := row.2.map (AgentApprovalToken.ofRows row.1)

/-- An approval as the dashboard-facing poll returns it. -/
def ApprovalRead.ofRow (a : Approval) : ApprovalRead where
  id := a.id
  elevationRequestId := a.elevationRequestId
  action := a.action
  deviceUuid := a.deviceUuid
  sha256 := a.sha256.text
  nonce := a.nonce
  issuedAt := a.issuedAt
  expiresAt := a.expiresAt
  signature := b64encode a.signature
  consumedAt := a.consumedAt

/-- The start of the epoch, 1970-01-01, the default of `since`. -/
def epoch : Datetime := ⟨62135596800000000, by decide⟩

variable (deployment : Deployment)

/-- `POST /elevation-requests`. -/
def submitElevationRequest (credentials : Option BasicCredentials)
    (body : ElevationRequestCreate) (admitted : Bool) : Handler ElevationRequestRead := do
  let device ← getCurrentDevice deployment credentials
  limit admitted
  let time ← now
  let expiresAt ← addSeconds time deployment.settings.elevationRequestTtlSeconds
  let elevationRequest ← ElevationRequestRepository.create
    { requestUuid := none
      deviceId := device.id
      username := some body.username
      filename := body.filename
      canonicalPath := body.canonicalPath
      sha256 := body.sha256.lower deployment.casing
      publisher := body.publisher
      signatureStatus := body.signatureStatus
      fileSize := body.fileSize
      fileVersion := body.fileVersion
      reason := body.reason
      expiresAt := expiresAt }
  writeAuditLog .device device.deviceUuid.textD "elevation_request.submitted" "elevation_request"
    (toString elevationRequest.id)
    (some [("filename", .text elevationRequest.filename),
      ("sha256", .text elevationRequest.sha256.text)])
  commit
  refreshElevationRequest elevationRequest.id

/-- Approve a just-submitted request at once if its signature is trusted and an allowlist entry
covers it. -/
def tryAutoApprove (elevationRequest : ElevationRequest) (device : Device) : Handler Unit := do
  if elevationRequest.signatureStatus ≠ .trusted then return
  else
    let some publisher := elevationRequest.publisher
      | return
    let some entry ←
        AppAllowlistRepository.findMatch device.groupId publisher elevationRequest.filename
      | return
    let time ← now
    let some updated ← ElevationRequestRepository.transitionStatus elevationRequest.id .pending
        .approved none time
      | return
    let approval ← issueApproval deployment updated device
    writeAuditLog .system s!"app_allowlist_entry:{entry.id}" "elevation_request.auto_approved"
      "elevation_request" (toString updated.id)
      (some [("nonce", .text approval.nonce), ("matched_allowlist_entry_id", .number entry.id),
        ("publisher", .text publisher), ("filename", .text elevationRequest.filename)])

/-- `POST /requests`. -/
def agentSubmitRequest (credentials : Option String) (body : AgentApprovalRequest)
    (admitted : Bool) : Handler String := do
  let device ← getCurrentDeviceBearer deployment credentials
  limit admitted
  if body.deviceId ≠ device.deviceUuid then
    httpError 400 "Request body deviceId does not match the authenticated device."
  else
    let time ← now
    let expiresAt ← addSeconds time deployment.settings.elevationRequestTtlSeconds
    let elevationRequest ← ElevationRequestRepository.create
      { requestUuid := some body.requestId
        deviceId := device.id
        username := none
        filename := body.fileName
        canonicalPath := body.fullPath
        sha256 := body.sha256Hex
        publisher := body.publisherCommonName
        signatureStatus := body.trustStatus
        fileSize := body.sizeBytes
        fileVersion := body.fileVersion
        reason := body.reason
        expiresAt := expiresAt }
    writeAuditLog .device device.deviceUuid.textD "elevation_request.submitted"
      "elevation_request" (toString elevationRequest.id)
      (some [("filename", .text elevationRequest.filename),
        ("sha256", .text elevationRequest.sha256.text)])
    tryAutoApprove deployment elevationRequest device
    commit
    return elevationRequest.requestUuid.textD

/-- Expire a pending request whose review window has passed, and refuse the decision. -/
def rejectIfExpired (elevationRequest : ElevationRequest) : Handler Unit := do
  let time ← now
  if elevationRequest.expiresAt ≤ time then
    let _ ← ElevationRequestRepository.transitionStatus elevationRequest.id .pending .expired none
      time
    commit
    httpError 409 "Elevation request has expired."
  else return ()

/-- The pending, unexpired request that a reviewer is about to decide. -/
def pendingRequest (elevationRequestId : Nat) : Handler ElevationRequest := do
  let some elevationRequest ← ElevationRequestRepository.getById elevationRequestId
    | httpError 404 "Elevation request not found."
  if elevationRequest.status ≠ .pending then
    httpError 409 "Elevation request is no longer pending."
  else
    rejectIfExpired elevationRequest
    return elevationRequest

/-- `POST /elevation-requests/{id}/approve`. -/
def approveElevationRequest (elevationRequestId : Nat) (credentials : Option String) :
    Handler ElevationRequestRead := do
  let admin ← requireRole deployment [.admin, .reviewer] credentials
  let elevationRequest ← pendingRequest elevationRequestId
  let time ← now
  let some updated ← ElevationRequestRepository.transitionStatus elevationRequest.id .pending
      .approved (some admin.id) time
    | httpError 409 "Elevation request was already decided by another reviewer."
  let some device ← DeviceRepository.getById updated.deviceId
    | raise .attributeError
  let approval ← issueApproval deployment updated device
  writeAuditLog .admin (toString admin.id) "elevation_request.approved" "elevation_request"
    (toString updated.id) (some [("nonce", .text approval.nonce)])
  commit
  refreshElevationRequest updated.id

/-- `POST /elevation-requests/{id}/deny`. -/
def denyElevationRequest (elevationRequestId : Nat) (reason : Option String)
    (credentials : Option String) : Handler ElevationRequestRead := do
  let admin ← requireRole deployment [.admin, .reviewer] credentials
  let elevationRequest ← pendingRequest elevationRequestId
  let time ← now
  let some updated ← ElevationRequestRepository.transitionStatus elevationRequest.id .pending
      .denied (some admin.id) time
    | httpError 409 "Elevation request was already decided by another reviewer."
  writeAuditLog .admin (toString admin.id) "elevation_request.denied" "elevation_request"
    (toString updated.id) (some [("reason", reason.elim .null .text)])
  commit
  refreshElevationRequest updated.id

/-- The decisions of a device, after its stale requests have been expired. -/
def pollDecisions (device : Device) (since : Option Datetime) :
    Handler (List (ElevationRequest × Option Approval)) := do
  let time ← now
  ElevationRequestRepository.expireStalePendingRequestsForDevice device.id time
  commit
  ApprovalRepository.listDecisionsForDeviceSince device.id (since.getD epoch)

/-- `GET /agent/decisions`. -/
def getDecisions (since : Option Datetime) (credentials : Option BasicCredentials)
    (admitted : Bool) : Handler (List DecisionRead) := do
  let device ← getCurrentDevice deployment credentials
  limit admitted
  let rows ← pollDecisions device since
  return rows.map fun row => ⟨row.1.requestUuid, row.1.status, row.2.map ApprovalRead.ofRow⟩

/-- `GET /devices/{device_id}/decisions`. -/
def agentPollDecisions (deviceId : String) (since : Option Datetime)
    (credentials : Option String) (admitted : Bool) : Handler (List AgentApprovalDecision) := do
  let device ← getCurrentDeviceBearer deployment credentials
  limit admitted
  if deviceId ≠ device.deviceUuid.textD then
    httpError 403 "Cannot poll decisions for a different device."
  else
    let rows ← pollDecisions device since
    return rows.map AgentApprovalDecision.ofRows

/-- `POST /approvals/{id}/consumed`. -/
def markApprovalConsumed (approvalId : Nat) (credentials : Option BasicCredentials)
    (admitted : Bool) : Handler Approval := do
  let device ← getCurrentDevice deployment credentials
  limit admitted
  let some approval ← ApprovalRepository.getById approvalId
    | httpError 404 "Approval not found."
  if approval.deviceUuid ≠ device.deviceUuid then httpError 404 "Approval not found."
  else
    let time ← now
    let some updated ← ApprovalRepository.markConsumed approvalId time
      | httpError 409 "Approval was already consumed."
    writeAuditLog .device device.deviceUuid.textD "approval.consumed" "approval"
      (toString approval.id) none
    commit
    let rows ← select .approvals fun r => decide (Approval.id r = updated.id)
    let some refreshed ← scalarOneOrNone rows
      | raise .attributeError
    return refreshed

end ElevateGate.Backend
