import ElevateGate.Agent.Models
import ElevateGate.Encoding.Sha256
import ElevateGate.Interaction.Recording
import ElevateGate.Platform.Errors
import Mathlib.Logic.Function.Basic

/-!
# The agent's machine

The operations that the service performs, and what each does to the files, to the nonce ledger and
to the memory of the service. An operation that may throw answers with the exception. What the
file system, the network and the operating system are free to choose is an argument of the step.
-/

namespace ElevateGate.Agent

open Interaction Time

/-- A thread of the service. -/
abbrev Tid := Nat

/-- What an execution was called with. It accompanies the start of the process so that statements
can speak about it; nothing reads it. -/
structure Authority where
  token : ApprovalToken
  expectedRequestId : String
  canonicalPath : String
  deviceId : String
  deriving DecidableEq

/-- A point that a thread has passed. Statements speak about it; nothing reads it. -/
inductive Note
  /-- The token with this nonce was found valid. -/
  | valid (nonce : Option String)
  /-- The watermark of the polling worker was set. -/
  | sinceUtc (t : DateTimeOffset)
  deriving DecidableEq

/-- The operations of the service. -/
inductive Op
  /-- `DateTimeOffset.UtcNow`. -/
  | utcNow
  /-- `IDriveClassifier.Classify`. -/
  | classify (driveRoot : String)
  /-- `File.Exists`. -/
  | fileExists (path : String)
  /-- Open a file for reading, shared with other readers only. -/
  | openRead (path : String)
  /-- Read an open file to its end. -/
  | readAll (path : String)
  /-- Close a file. -/
  | close (path : String)
  /-- `INSERT OR IGNORE INTO ConsumedNonces`, answered with the number of rows inserted. -/
  | insertNonce (nonce : String)
  /-- `Process.Start`, answered with whether there is a process. -/
  | startProcess (startInfo : ProcessStartInfo) (authority : Authority)
  /-- `Process.WaitForExitAsync`. -/
  | waitForExit
  /-- Look a request up in the dictionary of the state store. -/
  | getValueOrDefault (requestId : String)
  /-- Set an entry of the dictionary. -/
  | setItem (requestId : String) (request : TrackedRequest)
  /-- Replace the status of an entry of the dictionary, and throw if there is none. -/
  | addOrUpdate (requestId : String) (status : RequestStatus)
  /-- `IAuditLog.RecordAsync`. -/
  | record (auditEvent : AuditEvent)
  /-- `IDeviceCredentialStore.GetOrCreateAsync`. -/
  | getCredential
  /-- Send the request of a poll. -/
  | sendPoll (bearerToken deviceId : String) (sinceUtc : DateTimeOffset)
  /-- Wait for the response of the poll. -/
  | receiveDecisions
  /-- Send an approval request. -/
  | sendRequest (bearerToken : String) (request : ApprovalRequest)
  /-- Wait for the response to an approval request. -/
  | receiveSubmitted (requestId : String)
  /-- `Guid.NewGuid`. -/
  | newGuid
  /-- `FileVersionInfo.GetVersionInfo(...).FileVersion`. -/
  | fileVersion (path : String)
  /-- `WinVerifyTrust`. -/
  | winVerifyTrust (path : String)
  /-- The simple name and the thumbprint of a file's signer certificate. -/
  | signerCertificate (path : String)
  /-- `FileInfo.Length`. -/
  | fileLength (path : String)
  /-- `PeriodicTimer.WaitForNextTickAsync`. -/
  | waitForNextTick
  | note (n : Note)
  deriving DecidableEq

/-- An answer, or the exception that is thrown instead. -/
abbrev Throws (α : Type) := Except ClrException α

/-- The answer to an operation. -/
@[reducible] def Res : Op → Type
  | .utcNow => DateTimeOffset
  | .classify _ => DriveClassification
  | .fileExists _ => Bool
  | .openRead _ => Throws Unit
  | .readAll _ => Throws (List UInt8)
  | .close _ => Unit
  | .insertNonce _ => Throws Nat
  | .startProcess _ _ => Throws Bool
  | .waitForExit => Throws Unit
  | .getValueOrDefault _ => Option TrackedRequest
  | .setItem _ _ => Unit
  | .addOrUpdate _ _ => Throws Unit
  | .record _ => Throws Unit
  | .getCredential => Throws DeviceCredential
  | .sendPoll _ _ _ => Unit
  | .receiveDecisions => Throws (List ApprovalDecision)
  | .sendRequest _ _ => Unit
  | .receiveSubmitted _ => Throws Unit
  | .newGuid => Uuid
  | .fileVersion _ => Throws (Option String)
  | .winVerifyTrust _ => Throws Int
  | .signerCertificate _ => Throws (String × String)
  | .fileLength _ => Throws Nat
  | .waitForNextTick => Throws Bool
  | .note _ => Unit

/-- What is not determined by the program. -/
inductive Choice
  | unit
  /-- The operation throws. -/
  | fail (error : ClrException)
  /-- The operation takes effect and throws all the same. -/
  | failAfter (error : ClrException)
  /-- The operation answers in the negative. -/
  | no
  | drive (classification : DriveClassification)
  | decisions (list : List ApprovalDecision)
  | guid (random : Uuid)

/-- A file's content, or `none` where there is no file. -/
abbrev Content := Option (List UInt8)

/-- The machine: the clock, the files at each path, the open files, the ledger of consumed nonces,
the service's memory and its audit trail. -/
structure State where
  clock : DateTimeOffset
  files : String → Content
  handles : List (Tid × String)
  ledger : List String
  requests : String → Option TrackedRequest
  drawn : List Uuid
  credential : DeviceCredential
  audit : List AuditEvent

/-- What the service runs with: its pinned key, and the parts of its libraries that decide what a
signature and a file's content are worth. -/
structure Host where
  casing : Text.Casing
  serverPublicKey : List UInt8
  /-- The Ed25519 verification of a message and a signature under a key. -/
  verifySignature : List UInt8 → List UInt8 → List UInt8 → Bool
  /-- The file version resource of a file with the given content. -/
  fileVersion : List UInt8 → Option String
  /-- The result of `WinVerifyTrust` for a file with the given content. -/
  winVerifyTrust : List UInt8 → Int
  /-- The signer of a file with the given content. -/
  signer : List UInt8 → Option (String × String)

/-- The program of a part of the service. -/
abbrev Service (α : Type) := Program Op Res ClrException α

variable (host : Host)

/-- Read a fact about the content of a file. -/
def State.inspect {α : Type} (s : State) (path : String) (fact : List UInt8 → Option α) :
    Throws α :=
  match (s.files path).bind fact with
  | some value => .ok value
  | none => .error (.io "Could not find file.")

/-- Insert a nonce into the ledger unless it is there. -/
def State.insertNonce (s : State) (nonce : String) : State :=
  if nonce ∈ s.ledger then s else { s with ledger := nonce :: s.ledger }

/-- Set an entry of the dictionary of tracked requests. -/
def State.setRequest (s : State) (requestId : String) (request : TrackedRequest) : State :=
  { s with requests := Function.update s.requests requestId (some request) }

/-- Perform an operation, or `none` where the choice does not fit it. -/
def perform (i : Tid) : (op : Op) → Choice → State → Option (Res op × State)
  | .utcNow, .unit, s => some (s.clock, s)
  | .classify _, .drive classification, s => some (classification, s)
  | .fileExists path, .unit, s => some ((s.files path).isSome, s)
  | .openRead path, .unit, s =>
    if (s.files path).isSome then some (.ok (), { s with handles := (i, path) :: s.handles })
    else some (.error (.io "Could not find file."), s)
  | .openRead _, .fail error, s => some (.error error, s)
  | .readAll path, .unit, s => some (s.inspect path some, s)
  | .readAll _, .fail error, s => some (.error error, s)
  | .close path, .unit, s => some ((), { s with handles := s.handles.erase (i, path) })
  | .insertNonce nonce, .unit, s =>
    some (.ok (if nonce ∈ s.ledger then 0 else 1), s.insertNonce nonce)
  | .insertNonce _, .fail error, s => some (.error error, s)
  | .insertNonce nonce, .failAfter error, s => some (.error error, s.insertNonce nonce)
  | .startProcess _ _, .unit, s => some (.ok true, s)
  | .startProcess _ _, .no, s => some (.ok false, s)
  | .startProcess _ _, .fail error, s => some (.error error, s)
  | .waitForExit, .unit, s => some (.ok (), s)
  | .waitForExit, .fail error, s => some (.error error, s)
  | .getValueOrDefault requestId, .unit, s => some (s.requests requestId, s)
  | .setItem requestId request, .unit, s =>
    some ((), s.setRequest requestId request)
  | .addOrUpdate requestId status, .unit, s =>
    match s.requests requestId with
    | none => some (.error (.invalidOperation s!"Cannot update unknown request '{requestId}'."), s)
    | some existing => some (.ok (), s.setRequest requestId { existing with status := status })
  | .record auditEvent, .unit, s => some (.ok (), { s with audit := auditEvent :: s.audit })
  | .record _, .fail error, s => some (.error error, s)
  | .record auditEvent, .failAfter error, s =>
    some (.error error, { s with audit := auditEvent :: s.audit })
  | .getCredential, .unit, s => some (.ok s.credential, s)
  | .getCredential, .fail error, s => some (.error error, s)
  | .sendPoll _ _ _, .unit, s => some ((), s)
  | .receiveDecisions, .decisions list, s => some (.ok list, s)
  | .receiveDecisions, .fail error, s => some (.error error, s)
  | .sendRequest _ _, .unit, s => some ((), s)
  | .receiveSubmitted _, .unit, s => some (.ok (), s)
  | .receiveSubmitted _, .fail error, s => some (.error error, s)
  | .newGuid, .guid random, s =>
    -- a new GUID differs from every GUID drawn before
    if random ∈ s.drawn then none else some (random, { s with drawn := random :: s.drawn })
  | .fileVersion path, .unit, s =>
    some (s.inspect path fun content => some (host.fileVersion content), s)
  | .fileVersion _, .fail error, s => some (.error error, s)
  | .winVerifyTrust path, .unit, s =>
    some (s.inspect path fun content => some (host.winVerifyTrust content), s)
  | .winVerifyTrust _, .fail error, s => some (.error error, s)
  | .signerCertificate path, .unit, s => some (s.inspect path host.signer, s)
  | .signerCertificate _, .fail error, s => some (.error error, s)
  | .fileLength path, .unit, s => some (s.inspect path fun content => some content.length, s)
  | .fileLength _, .fail error, s => some (.error error, s)
  | .waitForNextTick, .unit, s => some (.ok true, s)
  | .waitForNextTick, .no, s => some (.ok false, s)
  | .waitForNextTick, .fail error, s => some (.error error, s)
  | .note _, .unit, s => some ((), s)
  | _, _, _ => none

/-- What happens beside the service. -/
inductive Event
  /-- The clock is set or moves on. -/
  | setClock (t : DateTimeOffset)
  /-- A user writes, replaces, creates or deletes a file. -/
  | write (path : String) (content : Content)

/-- What an event does. A file that the service has open can be neither written nor replaced. -/
def env : Event → State → Option State
  | .setClock t, s => some { s with clock := t }
  | .write path content, s =>
    if s.handles.any fun handle => handle.2 == path then none
    else some { s with files := Function.update s.files path content }

/-- A thread that is stopped has its files closed. -/
def State.stop (s : State) (i : Tid) : State :=
  { s with handles := s.handles.filter fun handle => handle.1 ≠ i }

/-- The service is restarted: its memory is lost, its ledger is not. -/
def State.restart (s : State) : State :=
  { s with handles := [], requests := fun _ => none }

end ElevateGate.Agent
