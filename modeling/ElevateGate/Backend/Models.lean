import ElevateGate.Platform.Text
import ElevateGate.Platform.Time
import ElevateGate.Platform.Uuid

/-!
# The backend's tables

Rows of the tables that the backend's endpoints read and write. A row is stored under the key
made of its table and its primary key, and carries the proof that the two agree.
-/

namespace ElevateGate.Backend

open Text Time

/-- The roles of an administrator. -/
inductive AdminRole
  | admin
  | reviewer
  deriving DecidableEq, Repr

/-- Whether a device may still authenticate. -/
inductive EnrollmentStatus
  | active
  | revoked
  deriving DecidableEq, Repr

/-- The agent's verdict on a file's Authenticode signature. -/
inductive SignatureStatus
  | unsigned
  | trusted
  | untrusted
  | hashMismatch
  | revoked
  | unknown
  deriving DecidableEq, Repr

/-- The states of an elevation request. -/
inductive ElevationRequestStatus
  | pending
  | approved
  | denied
  | expired
  deriving DecidableEq, Repr

/-- What an approval authorizes. -/
inductive ApprovalAction
  | execute
  deriving DecidableEq, Repr

/-- Who performed an audited action. -/
inductive ActorType
  | admin
  | device
  | system
  deriving DecidableEq, Repr

/-- A row of `devices`. -/
structure Device where
  id : Nat
  deviceUuid : Uuid
  hostname : String
  operatingSystem : String
  agentVersion : Option String
  lastSeen : Option Datetime
  enrollmentStatus : EnrollmentStatus
  deviceSecretHash : String
  createdAt : Datetime
  groupId : Option Nat
  diskTotalBytes : Option Nat := none
  diskFreeBytes : Option Nat := none
  ramTotalBytes : Option Nat := none
  ramUsedBytes : Option Nat := none
  lastTelemetryAt : Option Datetime := none
  updateRequestedAt : Option Datetime
  updateRequestedFromVersion : Option String
  deriving DecidableEq

/-- A row of `elevation_requests`. -/
structure ElevationRequest where
  id : Nat
  requestUuid : Uuid
  deviceId : Nat
  username : Option String
  filename : String
  canonicalPath : String
  sha256 : Sha256Hex
  publisher : Option String
  signatureStatus : SignatureStatus
  fileSize : Nat
  fileVersion : Option String
  reason : String
  status : ElevationRequestStatus
  requestedAt : Datetime
  reviewedAt : Option Datetime
  reviewedBy : Option Nat
  expiresAt : Datetime
  deriving DecidableEq

/-- A row of `approvals`. -/
structure Approval where
  id : Nat
  elevationRequestId : Nat
  action : ApprovalAction
  deviceUuid : Uuid
  sha256 : Sha256Hex
  nonce : String
  issuedAt : Datetime
  expiresAt : Datetime
  signature : List UInt8
  consumedAt : Option Datetime
  deriving DecidableEq

/-- A value in an audit row's metadata. -/
inductive MetadataValue
  | null
  | text (value : String)
  | number (value : Nat)
  deriving DecidableEq

/-- A row of `audit_logs`. -/
structure AuditLog where
  id : Nat
  actorType : ActorType
  actorId : String
  action : String
  targetType : String
  targetId : String
  metadata : Option (List (String × MetadataValue))
  timestamp : Datetime
  deriving DecidableEq

/-- A row of `app_allowlist_entries`. -/
structure AppAllowlistEntry where
  id : Nat
  groupId : Option Nat
  publisher : String
  filename : String
  description : Option String
  createdBy : Option Nat
  createdAt : Datetime
  deriving DecidableEq

/-- A row of `admin_users`. -/
structure AdminUser where
  id : Nat
  email : String
  name : String
  passwordHash : String
  role : AdminRole
  isActive : Bool
  createdAt : Datetime
  deriving DecidableEq

/-- Whether PostgreSQL stores a text in a column of some width: it stores no null character. -/
def fitsColumn (width : Option Nat) (s : String) : Bool :=
  width.all (fun n => decide (s.length ≤ n)) && !s.toList.contains (Char.ofNat 0)

/-- Whether a number that is not negative fits a `BIGINT` column. -/
def fitsBigInteger (n : Nat) : Bool := decide (n < 2 ^ 63)

/-- The tables. -/
inductive Table
  | devices
  | elevationRequests
  | approvals
  | auditLogs
  | appAllowlistEntries
  | adminUsers
  deriving DecidableEq, Repr

/-- Every table. -/
def Table.all : List Table :=
  [.devices, .elevationRequests, .approvals, .auditLogs, .appAllowlistEntries, .adminUsers]

/-- The type of a table's rows. -/
def Table.Record : Table → Type
  | .devices => Device
  | .elevationRequests => ElevationRequest
  | .approvals => Approval
  | .auditLogs => AuditLog
  | .appAllowlistEntries => AppAllowlistEntry
  | .adminUsers => AdminUser

/-- The primary key of a row. -/
def Table.id : (t : Table) → t.Record → Nat
  | .devices, r => Device.id r
  | .elevationRequests, r => ElevationRequest.id r
  | .approvals, r => Approval.id r
  | .auditLogs, r => AuditLog.id r
  | .appAllowlistEntries, r => AppAllowlistEntry.id r
  | .adminUsers, r => AdminUser.id r

/-- Whether two rows of a table violate one of its unique indexes. -/
def Table.clash : (t : Table) → t.Record → t.Record → Bool
  | .devices, r, r' => decide (Device.deviceUuid r = Device.deviceUuid r')
  | .elevationRequests, r, r' =>
    decide (ElevationRequest.requestUuid r = ElevationRequest.requestUuid r')
  | .approvals, r, r' =>
    decide (Approval.elevationRequestId r = Approval.elevationRequestId r') ||
      decide (Approval.nonce r = Approval.nonce r')
  | .auditLogs, _, _ => false
  | .appAllowlistEntries, _, _ => false
  | .adminUsers, r, r' => decide (AdminUser.email r = AdminUser.email r')

/-- Violating a unique index is mutual. -/
theorem Table.clash_comm (t : Table) (r r' : t.Record) : t.clash r r' = t.clash r' r := by
  cases t <;> simp [Table.clash, eq_comm]

/-- Where a row is stored. -/
structure Key where
  table : Table
  id : Nat
  deriving DecidableEq

/-- A row together with the proof that it is stored under its primary key. -/
structure Row (k : Key) where
  record : k.table.Record
  id_eq : k.table.id record = k.id

/-- Replace the columns of a row other than its primary key. -/
def Row.modify {k : Key} (row : Row k) (values : k.table.Record → k.table.Record)
    (hid : ∀ r, k.table.id (values r) = k.table.id r) : Row k where
  record := values row.record
  id_eq := (hid row.record).trans row.id_eq

end ElevateGate.Backend
