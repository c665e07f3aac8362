import ElevateGate.Platform.Text
import ElevateGate.Platform.Time
import ElevateGate.Platform.Uuid

/-!
# The agent's data

The records that the agent's service keeps, sends and receives. A field that the deserializer of
a JSON text may leave null is an `Option`.
-/

namespace ElevateGate.Agent

open Time

/-- Where a request stands, as far as the agent knows. -/
inductive RequestStatus
  | pending
  | approved
  | denied
  | expired
  | failed
  deriving DecidableEq, Repr

/-- `RequestStatus.ToString`. -/
def RequestStatus.name : RequestStatus → String
  | .pending => "Pending"
  | .approved => "Approved"
  | .denied => "Denied"
  | .expired => "Expired"
  | .failed => "Failed"

/-- What an approval token says, as the agent received it. -/
structure ApprovalToken where
  deviceId : Option String
  requestId : Option String
  sha256Hex : Option String
  expiresAtUtc : DateTimeOffset
  nonce : Option String
  signature : Option (List UInt8)
  deriving DecidableEq

/-- One entry of a poll's response. -/
structure ApprovalDecision where
  requestId : Option String
  status : RequestStatus
  token : Option ApprovalToken
  deriving DecidableEq

/-- The verdict on a file's Authenticode signature. -/
inductive SignatureTrustStatus
  | unsigned
  | trusted
  | untrusted
  | hashMismatch
  | revoked
  | unknown
  deriving DecidableEq, Repr

/-- Signature facts about a file. -/
structure SignatureInfo where
  trustStatus : SignatureTrustStatus
  publisherCommonName : Option String
  certificateThumbprint : Option String
  deriving DecidableEq

/-- Facts about a file. -/
structure FileMetadata where
  fileName : String
  fullPath : String
  sizeBytes : Nat
  fileVersion : Option String
  sha256Hex : String
  deriving DecidableEq

/-- What the agent sends to ask for a decision. -/
structure ApprovalRequest where
  requestId : String
  deviceId : String
  file : FileMetadata
  signature : SignatureInfo
  reason : String
  requestedAtUtc : DateTimeOffset
  deriving DecidableEq

/-- A request that this service instance has submitted. -/
structure TrackedRequest where
  canonicalPath : String
  reason : String
  submittedAtUtc : DateTimeOffset
  status : RequestStatus
  deriving DecidableEq

/-- The device's identity at the backend. -/
structure DeviceCredential where
  deviceId : String
  bearerToken : String
  deriving DecidableEq

/-- The kinds of local audit events. -/
inductive AuditEventType
  | deviceEnrolled
  | requestSubmitted
  | decisionReceived
  | validationRejected
  | executionStarted
  | executionCompleted
  | executionFailed
  deriving DecidableEq, Repr

/-- A local audit event. -/
structure AuditEvent where
  timestampUtc : DateTimeOffset
  eventType : AuditEventType
  requestId : Option String
  deviceId : Option String
  nonce : Option String
  message : String
  deriving DecidableEq

/-- What the service answers to the tray. -/
structure PipeResponseMessage where
  success : Bool
  requestId : Option String
  status : Option String
  errorMessage : Option String
  deriving DecidableEq

/-- The kinds of drives. -/
inductive DriveClassification
  | fixed
  | removable
  | network
  | unknown
  deriving DecidableEq, Repr

/-- Why a path is rejected. -/
inductive PathRejectionReason
  | malformed
  | traversal
  | uncOrNetworkPath
  | removableDrive
  | unsupportedDrive
  deriving DecidableEq, Repr

/-- `PathRejectionReason.ToString`. -/
def PathRejectionReason.name : PathRejectionReason → String
  | .malformed => "Malformed"
  | .traversal => "Traversal"
  | .uncOrNetworkPath => "UncOrNetworkPath"
  | .removableDrive => "RemovableDrive"
  | .unsupportedDrive => "UnsupportedDrive"

/-- The outcome of validating a path. -/
inductive PathValidationOutcome
  | valid (canonicalPath : String)
  | invalid (reason : PathRejectionReason)
  deriving DecidableEq

/-- Why a token is rejected. -/
inductive ApprovalRejectionReason
  | invalidSignature
  | deviceMismatch
  | requestIdMismatch
  | expired
  | nonceReused
  | hashMismatch
  deriving DecidableEq, Repr

/-- `ApprovalRejectionReason.ToString`. -/
def ApprovalRejectionReason.name : ApprovalRejectionReason → String
  | .invalidSignature => "InvalidSignature"
  | .deviceMismatch => "DeviceMismatch"
  | .requestIdMismatch => "RequestIdMismatch"
  | .expired => "Expired"
  | .nonceReused => "NonceReused"
  | .hashMismatch => "HashMismatch"

/-- The outcome of validating a token. -/
inductive ApprovalValidationOutcome
  | valid
  | invalid (reason : ApprovalRejectionReason)
  deriving DecidableEq

/-- The outcome of an execution. -/
inductive ExecutionOutcome
  | ok
  | failed (reason : String)
  deriving DecidableEq

/-- What `Process.Start` is given. -/
structure ProcessStartInfo where
  fileName : String
  argumentList : List String
  useShellExecute : Bool
  deriving DecidableEq

end ElevateGate.Agent
