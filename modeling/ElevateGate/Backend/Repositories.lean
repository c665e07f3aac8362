import ElevateGate.Approval.Payload
import ElevateGate.Backend.Session
import Mathlib.Data.List.Sort

/-!
# Repositories

The functions through which the endpoints read and write the tables, and `issue_approval`, the
one place that builds and signs an approval.
-/

namespace ElevateGate.Backend

open Interaction Time Text Handler

/-- The time limits of the configuration. -/
structure Settings where
  approvalTtlSeconds : Int
  elevationRequestTtlSeconds : Int

/-- What the backend is deployed with: its settings, the signing key, and the parts of its
libraries that decide whether credentials are valid. -/
structure Deployment where
  casing : Casing
  settings : Settings
  sign : List UInt8 → List UInt8
  /-- Argon2id verification of a secret against a stored hash. -/
  verifySecret : String → String → Bool
  /-- The subject of an access token at a time: `none` where the token is not valid, and
  `some none` where its subject is no number. -/
  decodeAccessToken : Datetime → String → Option (Option Nat)

/-- `UPDATE ... WHERE id = ... AND condition ... RETURNING`. -/
def updateWhere (t : Table) (id : Nat) (condition : t.Record → Bool)
    (values : t.Record → t.Record) (hid : ∀ r, t.id (values r) = t.id r) :
    Handler (Option t.Record) := do
  let row ← update ⟨t, id⟩ fun row =>
    if condition row.record then some (row.modify values hid) else none
  return row.map Row.record

namespace DeviceRepository

/-- The device with a given UUID. -/
def getByUuid (deviceUuid : Uuid) : Handler (Option Device) := do
  let rows ← select .devices fun r => decide (Device.deviceUuid r = deviceUuid)
  scalarOneOrNone rows

/-- The device with a given primary key. -/
def getById (deviceId : Nat) : Handler (Option Device) := do
  let rows ← select .devices fun r => decide (Device.id r = deviceId)
  scalarOneOrNone rows

end DeviceRepository

namespace AdminUserRepository

/-- The administrator with a given primary key. -/
def getById (adminId : Nat) : Handler (Option AdminUser) := do
  let rows ← select .adminUsers fun r => decide (AdminUser.id r = adminId)
  scalarOneOrNone rows

end AdminUserRepository

namespace ElevationRequestRepository

/-- The columns that a caller of `create` chooses. -/
structure Values where
  requestUuid : Option Uuid
  deviceId : Nat
  username : Option String
  filename : String
  canonicalPath : String
  sha256 : Sha256Hex
  publisher : Option String
  signatureStatus : SignatureStatus
  fileSize : Nat
  fileVersion : Option String
  reason : String
  expiresAt : Datetime

/-- The row that `create` inserts. -/
def newRow (values : Values) (requestUuid : Uuid) (id : Nat) (now : Datetime) :
    Row ⟨.elevationRequests, id⟩ where
  record :=
    { id := id
      requestUuid := requestUuid
      deviceId := values.deviceId
      username := values.username
      filename := values.filename
      canonicalPath := values.canonicalPath
      sha256 := values.sha256
      publisher := values.publisher
      signatureStatus := values.signatureStatus
      fileSize := values.fileSize
      fileVersion := values.fileVersion
      reason := values.reason
      status := .pending
      requestedAt := now
      reviewedAt := none
      reviewedBy := none
      expiresAt := values.expiresAt : ElevationRequest }
  id_eq := rfl

/-- Whether the values fit the columns of `elevation_requests`. -/
def Values.fitsColumns (values : Values) : Bool :=
  values.username.all (fitsColumn (some 255)) && fitsColumn (some 500) values.filename &&
    fitsColumn none values.canonicalPath && fitsColumn (some 64) values.sha256.text &&
    values.publisher.all (fitsColumn (some 500)) && fitsBigInteger values.fileSize &&
    values.fileVersion.all (fitsColumn (some 100)) && fitsColumn none values.reason

/-- Insert a pending request, under the caller's UUID if it names one. -/
def create (values : Values) : Handler ElevationRequest := do
  let requestUuid ← match values.requestUuid with
    | some requestUuid => pure requestUuid
    | none => uuid4
  if values.fitsColumns then insert .elevationRequests (newRow values requestUuid)
  else raise .dbapiError

/-- The request with a given primary key. -/
def getById (elevationRequestId : Nat) : Handler (Option ElevationRequest) := do
  let rows ← select .elevationRequests fun r =>
    decide (ElevationRequest.id r = elevationRequestId)
  scalarOneOrNone rows

/-- The columns that a decision writes. -/
def decided (newStatus : ElevationRequestStatus) (reviewedBy : Option Nat) (reviewedAt : Datetime)
    (r : ElevationRequest) : ElevationRequest :=
  { r with status := newStatus, reviewedBy := reviewedBy, reviewedAt := some reviewedAt }

/-- Move the request to a new status if it still has the expected one. -/
def transitionStatus (elevationRequestId : Nat) (expectedCurrentStatus : ElevationRequestStatus)
    (newStatus : ElevationRequestStatus) (reviewedBy : Option Nat) (reviewedAt : Datetime) :
    Handler (Option ElevationRequest) :=
  updateWhere .elevationRequests elevationRequestId
    (fun r => decide (ElevationRequest.status r = expectedCurrentStatus))
    (decided newStatus reviewedBy reviewedAt) fun _ => rfl

/-- Whether a request of the device is pending past its review window. -/
def isStale (deviceId : Nat) (now : Datetime) (r : ElevationRequest) : Bool :=
  decide (r.deviceId = deviceId ∧ r.status = .pending ∧ r.expiresAt ≤ now)

/-- Expire the device's stale requests. One statement finds the rows and then locks and updates
them one after the other, each only if it is still stale. -/
def expireStalePendingRequestsForDevice (deviceId : Nat) (now : Datetime) : Handler Unit := do
  let stale ← select .elevationRequests (isStale deviceId now)
  Program.forEach (fun r => do
    let _ ← updateWhere .elevationRequests (ElevationRequest.id r) (isStale deviceId now)
      (fun r => { r with status := .expired, reviewedAt := some now : ElevationRequest })
      fun _ => rfl) stale

end ElevationRequestRepository

namespace ApprovalRepository

/-- The row that `create` inserts. -/
def newRow (elevationRequestId : Nat) (deviceUuid : Uuid) (sha256 : Sha256Hex) (nonce : String)
    (issuedAt expiresAt : Datetime) (signature : List UInt8) (id : Nat) :
    Row ⟨.approvals, id⟩ where
  record :=
    { id := id
      elevationRequestId := elevationRequestId
      action := .execute
      deviceUuid := deviceUuid
      sha256 := sha256
      nonce := nonce
      issuedAt := issuedAt
      expiresAt := expiresAt
      signature := signature
      consumedAt := none : Approval }
  id_eq := rfl

/-- Insert an approval. -/
def create (elevationRequestId : Nat) (deviceUuid : Uuid) (sha256 : Sha256Hex) (nonce : String)
    (issuedAt expiresAt : Datetime) (signature : List UInt8) : Handler Approval :=
  insert .approvals fun id _ =>
    newRow elevationRequestId deviceUuid sha256 nonce issuedAt expiresAt signature id

/-- The approval with a given primary key. -/
def getById (approvalId : Nat) : Handler (Option Approval) := do
  let rows ← select .approvals fun r => decide (Approval.id r = approvalId)
  scalarOneOrNone rows

/-- Set `consumed_at` if it is null. -/
def markConsumed (approvalId : Nat) (consumedAt : Datetime) : Handler (Option Approval) :=
  updateWhere .approvals approvalId (fun r => (Approval.consumedAt r).isNone)
    (fun r => { r with consumedAt := some consumedAt : Approval }) fun _ => rfl

/-- Whether a request of the device was decided at or after a time. -/
def isDecidedSince (deviceId : Nat) (since : Datetime) (r : ElevationRequest) : Bool :=
  decide (r.deviceId = deviceId) && decide (r.status ≠ .pending) &&
    r.reviewedAt.any fun reviewedAt => decide (since ≤ reviewedAt)

/-- The time of the review, in microseconds. -/
def reviewedMicros (r : ElevationRequest) : Nat :=
  r.reviewedAt.elim 0 Datetime.micros

/-- A request joined with its approvals, or with none. -/
def outerJoin (approvals : List Approval) (r : ElevationRequest) :
    List (ElevationRequest × Option Approval) :=
  match approvals.filter fun a => decide (a.elevationRequestId = r.id) with
  | [] => [(r, none)]
  | matching => matching.map fun a => (r, some a)

/-- The device's decisions since a time, each with its approval if it has one, by the time of the
review. -/
def listDecisionsForDeviceSince (deviceId : Nat) (since : Datetime) :
    Handler (List (ElevationRequest × Option Approval)) := do
  let snapshot ← query
  let decided := (snapshot.rows .elevationRequests).filter (isDecidedSince deviceId since)
  let ordered := decided.insertionSort fun r r' => reviewedMicros r ≤ reviewedMicros r'
  return ordered.flatMap (outerJoin (snapshot.rows .approvals))

end ApprovalRepository

namespace AppAllowlistRepository

/-- Whether an entry covers a publisher and a file name for a device of the given group. -/
def isMatch (deviceGroupId : Option Nat) (publisher filename : String)
    (entry : AppAllowlistEntry) : Bool :=
  decide (entry.publisher = publisher) && decide (entry.filename = filename) &&
    match deviceGroupId with
    | none => entry.groupId.isNone
    | some groupId => entry.groupId.isNone || decide (entry.groupId = some groupId)

/-- Some entry that covers a publisher and a file name, if there is one. -/
def findMatch (deviceGroupId : Option Nat) (publisher filename : String) :
    Handler (Option AppAllowlistEntry) := do
  let rows ← select .appAllowlistEntries (isMatch deviceGroupId publisher filename)
  scalarOneOrNone (rows.take 1)

end AppAllowlistRepository

/-- Stage an audit row in the session's transaction. -/
def writeAuditLog (actorType : ActorType) (actorId action targetType targetId : String)
    (metadata : Option (List (String × MetadataValue))) : Handler Unit := do
  let _ ← insert .auditLogs fun id now =>
    ⟨{ id := id
       actorType := actorType
       actorId := actorId
       action := action
       targetType := targetType
       targetId := targetId
       metadata := metadata
       timestamp := now : AuditLog }, rfl⟩

/-- Sign an approval for a request that has just been transitioned, and insert it. -/
def issueApproval (deployment : Deployment) (elevationRequest : ElevationRequest)
    (device : Device) : Handler Approval := do
  let issuedAt ← now
  let expiresAt ← addSeconds issuedAt deployment.settings.approvalTtlSeconds
  let nonce ← tokenUrlsafe 24
  let payload ← Program.liftExcept (Signing.buildCanonicalPayload deployment.casing
    device.deviceUuid.textD elevationRequest.requestUuid.textD elevationRequest.sha256.text
    expiresAt nonce)
  let signature ← signPayload ⟨elevationRequest, device, expiresAt, nonce⟩ payload
  ApprovalRepository.create elevationRequest.id device.deviceUuid elevationRequest.sha256 nonce
    issuedAt expiresAt signature

section Within

variable {S : Op → Prop} {α : Type}

/-- A `SELECT` performs one operation. -/
theorem within_select {t : Table} {condition : t.Record → Bool} (hquery : S .query) :
    (select t condition).Within S :=
  (Program.Within.op hquery).bind fun _ => .pure

/-- Expecting at most one row performs none. -/
theorem within_scalarOneOrNone {rows : List α} : (scalarOneOrNone rows).Within S := by
  cases rows with
  | nil => exact .pure
  | cons r rest =>
    cases rest with
    | nil => exact .pure
    | cons _ _ => exact .throw

/-- A `SELECT` of at most one row. -/
theorem within_one {t : Table} {condition : t.Record → Bool} (hquery : S .query) :
    (select t condition >>= fun rows => scalarOneOrNone rows).Within S :=
  (within_select hquery).bind fun _ => within_scalarOneOrNone

/-- An `INSERT`. -/
theorem within_insert {t : Table} {make : (id : Nat) → Datetime → Row ⟨t, id⟩}
    (hinsert : S (.insert t make)) : (insert t make).Within S :=
  (Program.Within.op hinsert).bind fun _ => .liftExcept

/-- An audit row. -/
theorem within_writeAuditLog {actorType : ActorType} {actorId action targetType targetId : String}
    {metadata : Option (List (String × MetadataValue))} (hinsert : ∀ make, S (.insert .auditLogs make)) :
    (writeAuditLog actorType actorId action targetType targetId metadata).Within S :=
  (within_insert (hinsert _)).bind fun _ => .pure

end Within

end ElevateGate.Backend
