import ElevateGate.Agent.Models
import ElevateGate.Encoding.Base64
import ElevateGate.Interaction.Sequential
import ElevateGate.Platform.Text

/-!
# The device's credential

`DeviceCredentialStore` enrolls the device on first use and keeps the credential in a file, its token
protected by DPAPI. Any number of callers share one store: a semaphore admits one at a time, and what
it finds is cached for the others. An operation may fail, a call may be cancelled and the process may
be killed at any point.
-/

namespace ElevateGate.Agent.Enrollment

open Interaction Text Time

/-- A caller. -/
abbrev Tid := Nat

/-- The exceptions of the store. -/
inductive EnrollmentError
  /-- An I/O operation or a call of the backend failed, or the call was cancelled. -/
  | failed
  | jsonException
  /-- `InvalidOperationException`, "Device credential file is corrupt." -/
  | corrupt
  | formatException
  | cryptographicException
  deriving DecidableEq

/-- What a device tells about itself. -/
structure EnrollmentRequest where
  deviceId : String
  machineName : String
  operatingSystemVersion : String
  deriving DecidableEq

/-- What the file stores. -/
structure StoredCredential where
  deviceId : String
  protectedBearerTokenBase64 : String
  deriving DecidableEq

/-- The libraries that the store relies on, and the names of the machine and its operating system.
`read` is `JsonSerializer.Deserialize`: `none` where it throws, which it does on a text that breaks off
before its end, and `some none` for the text `null`. -/
structure Libraries where
  machineName : String
  operatingSystemVersion : String
  write : StoredCredential → List Char
  read : List Char → Option (Option StoredCredential)
  /-- `ProtectedData.Protect`, with the random bytes that it draws. -/
  protect : List UInt8 → List UInt8 → List UInt8
  unprotect : List UInt8 → Option (List UInt8)
  /-- `Encoding.UTF8.GetString`. -/
  getString : List UInt8 → String
  read_write : ∀ stored, read (write stored) = some (some stored)
  read_take : ∀ stored n, n < (write stored).length → read ((write stored).take n) = none
  unprotect_protect : ∀ random plaintext, unprotect (protect random plaintext) = some plaintext
  getString_utf8 : ∀ s, getString (utf8 s) = s

/-- The file, whether somebody has it open for writing, the fields of the store, and the credentials
that the backend has issued. -/
structure Store where
  file : Option (List Char)
  writer : Option Tid
  cached : Option DeviceCredential
  holder : Option Tid
  issued : List DeviceCredential

/-- The operations of the store. -/
inductive Op
  | readCached
  | writeCached (credential : DeviceCredential)
  /-- `_lock.WaitAsync`. -/
  | wait
  /-- `_lock.Release`. -/
  | release
  | fileExists
  | readAllText
  | createDirectory
  | newGuid
  /-- `IApprovalApiClient.EnrollAsync`, answered with the bearer token. -/
  | enroll (request : EnrollmentRequest)
  | protect (plaintext : List UInt8)
  /-- `File.WriteAllText` opens the file and truncates it. -/
  | create
  /-- `File.WriteAllText` writes the text and closes the file. -/
  | write (text : List Char)
  | utcNow
  /-- `IAuditLog.RecordAsync`. -/
  | record (event : AuditEvent)

/-- The answer of an operation that may throw. -/
abbrev Throws (α : Type) := Except EnrollmentError α

/-- The answer to an operation. -/
def Res : Op → Type
  | .readCached => Option DeviceCredential
  | .writeCached _ => Unit
  | .wait => Throws Unit
  | .release => Unit
  | .fileExists => Bool
  | .readAllText => Throws (List Char)
  | .createDirectory => Throws Unit
  | .newGuid => Uuid
  | .enroll _ => Throws String
  | .protect _ => Throws (List UInt8)
  | .create => Throws Unit
  | .write _ => Throws Unit
  | .utcNow => DateTimeOffset
  | .record _ => Throws Unit

/-- What is not determined by the program. -/
inductive Choice
  | proceed
  /-- The operation throws. -/
  | fail
  | guid (random : Uuid)
  /-- The backend enrolls the device. -/
  | enrolled (bearerToken : String)
  /-- The backend enrolls the device, but its answer is lost. -/
  | lost (bearerToken : String)
  | random (bytes : List UInt8)
  /-- A write throws after some characters. -/
  | partly (n : Nat)
  | time (t : DateTimeOffset)

/-- Whether nothing fails. -/
def Choice.clean : Choice → Bool
  | .fail => false
  | .lost _ => false
  | .partly _ => false
  | _ => true

variable (libraries : Libraries)

/-- Perform an operation of a caller, or `none` where it has to wait or the choice does not fit. -/
def perform (i : Tid) : (op : Op) → Choice → Store → Option (Res op × Store)
  | .readCached, .proceed, s => some (s.cached, s)
  | .writeCached credential, .proceed, s => some ((), { s with cached := some credential })
  | .wait, .proceed, s =>
    if s.holder = none then some (.ok (), { s with holder := some i }) else none
  | .wait, .fail, s => some (.error .failed, s)
  | .release, .proceed, s => some ((), { s with holder := none })
  | .fileExists, .proceed, s => some (s.file.isSome, s)
  | .readAllText, .proceed, s =>
    match s.file with
    | some text => some (.ok text, s)
    | none => some (.error .failed, s)
  | .readAllText, .fail, s => some (.error .failed, s)
  | .createDirectory, .proceed, s => some (.ok (), s)
  | .createDirectory, .fail, s => some (.error .failed, s)
  | .newGuid, .guid random, s => some (random, s)
  | .enroll request, .enrolled bearerToken, s =>
    some (.ok bearerToken, { s with issued := ⟨request.deviceId, bearerToken⟩ :: s.issued })
  | .enroll request, .lost bearerToken, s =>
    some (.error .failed, { s with issued := ⟨request.deviceId, bearerToken⟩ :: s.issued })
  | .enroll _, .fail, s => some (.error .failed, s)
  | .protect plaintext, .random bytes, s => some (.ok (libraries.protect bytes plaintext), s)
  | .protect _, .fail, s => some (.error .failed, s)
  | .create, .proceed, s => some (.ok (), { s with file := some [], writer := some i })
  | .create, .fail, s => some (.error .failed, s)
  | .write text, .proceed, s => some (.ok (), { s with file := some text, writer := none })
  | .write text, .partly n, s =>
    if n < text.length then some (.error .failed, { s with file := some (text.take n), writer := none })
    else none
  | .utcNow, .time t, s => some (t, s)
  | .record _, .proceed, s => some (.ok (), s)
  | .record _, .fail, s => some (.error .failed, s)
  | _, _, _ => none

/-- The program of the store or of a part of it. -/
abbrev Caller (α : Type) := Program Op Res EnrollmentError α

/-- Perform an operation. -/
def op (o : Op) : Caller (Res o) := Program.op o

/-- Return or throw what an operation has answered. -/
def attempt {α : Type} (result : Caller (Throws α)) : Caller α := do
  let result ← result
  Program.liftExcept result

/-- `File.Exists`. -/
def fileExists : Caller Bool := op .fileExists

/-- A value, or an exception where there is none. -/
def orThrow {α : Type} (error : EnrollmentError) : Option α → Throws α
  | some value => .ok value
  | none => .error error

/-- What `LoadFromDisk` makes of the text of the file. -/
def deserialize (json : List Char) : Throws DeviceCredential := do
  let parsed ← orThrow .jsonException (libraries.read json)
  let stored ← orThrow .corrupt parsed
  let protectedToken ← orThrow .formatException
    (Base64.decode .standard stored.protectedBearerTokenBase64.toList)
  let tokenBytes ← orThrow .cryptographicException (libraries.unprotect protectedToken)
  return ⟨stored.deviceId, libraries.getString tokenBytes⟩

/-- `LoadFromDisk`. -/
def loadFromDisk : Caller DeviceCredential := do
  let json ← attempt (op .readAllText)
  Program.liftExcept (deserialize libraries json)

/-- What is stored of a credential. -/
def store (credential : DeviceCredential) (protectedToken : List UInt8) : StoredCredential :=
  ⟨credential.deviceId, String.ofList (Base64.encode .standard protectedToken)⟩

/-- `SaveToDisk`. -/
def saveToDisk (credential : DeviceCredential) : Caller Unit := do
  let protectedToken ← attempt (op (.protect (utf8 credential.bearerToken)))
  attempt (op .create)
  attempt (op (.write (libraries.write (store credential protectedToken))))

/-- `EnrollAsync`. -/
def enrollAsync : Caller DeviceCredential := do
  attempt (op .createDirectory)
  let guid ← op .newGuid
  let deviceId := Uuid.textD guid
  let bearerToken ← attempt
    (op (.enroll ⟨deviceId, libraries.machineName, libraries.operatingSystemVersion⟩))
  let credential : DeviceCredential := ⟨deviceId, bearerToken⟩
  saveToDisk libraries credential
  let now ← op .utcNow
  attempt (op (.record ⟨now, .deviceEnrolled, none, some deviceId, none, "Device enrolled."⟩))
  return credential

/-- What `GetOrCreateAsync` does while it holds the lock. -/
def getOrCreateLocked : Caller DeviceCredential := do
  let cached ← op .readCached
  match cached with
  | some credential => return credential
  | none =>
    let exists_ ← fileExists
    if exists_ then
      let credential ← loadFromDisk libraries
      op (.writeCached credential)
      return credential
    else
      let credential ← enrollAsync libraries
      op (.writeCached credential)
      return credential

/-- `GetOrCreateAsync`. -/
def getOrCreateAsync : Caller DeviceCredential := do
  let cached ← op .readCached
  match cached with
  | some credential => return credential
  | none =>
    attempt (op .wait)
    (getOrCreateLocked libraries).finally_ (op .release)

/-- What a caller that stops leaves behind: its lock is released and its file closed. -/
def Store.stop (i : Tid) (s : Store) : Store :=
  { s with
    holder := if s.holder = some i then none else s.holder
    writer := if s.writer = some i then none else s.writer }

/-- What is left when the process starts again. -/
def Store.restart (s : Store) : Store := { s with cached := none, holder := none, writer := none }

/-- The store as a system. Every caller runs the one program. -/
def system : System Op Res EnrollmentError DeviceCredential Tid Choice Empty Unit Store where
  program _ _ := some (getOrCreateAsync libraries)
  perform := perform libraries
  env := nofun
  stop := Store.stop
  reset s := some s.restart

/-- The machine before its first enrollment. -/
def Store.initial : Store := ⟨none, none, none, none, []⟩

/-- A configuration of the store. -/
abbrev Configuration := Config Op Res EnrollmentError DeviceCredential Tid Unit Store

/-- The steps of a run. -/
abbrev Step := Label Tid Choice Empty Unit

end ElevateGate.Agent.Enrollment
