import ElevateGate.Agent.Machine
import ElevateGate.Agent.Paths
import ElevateGate.Approval.Payload

/-!
# Validation and execution

The path validator, the token validator and the execution engine, which is the only part of the
agent that starts a process.
-/

namespace ElevateGate.Agent

open Interaction Time Text

/-- Perform an operation. -/
def op (o : Op) : Service (Res o) := Program.op o

/-- Return the value of an answer, or throw its exception. -/
def orThrow {α : Type} (program : Service (Throws α)) : Service α := do
  let answer ← program
  Program.liftExcept answer

/-- Classify the drive of a canonical path. -/
def Drives.classify (driveRoot : String) : Service DriveClassification := op (.classify driveRoot)

namespace PathValidator

/-- `Validate`. -/
def validate (rawPath : String) : Service PathValidationOutcome :=
  if isWhiteSpace rawPath then return .invalid .malformed
  else if WindowsPathRules.isUncOrDeviceLiteral rawPath then return .invalid .uncOrNetworkPath
  else if WindowsPathRules.containsTraversalSegment rawPath then return .invalid .traversal
  else
    match WindowsPathRules.tryCanonicalize rawPath with
    | none => return .invalid .malformed
    | some canonicalPath => do
      let classification ← Drives.classify (WindowsPathRules.getDriveRoot canonicalPath)
      match classification with
      | .fixed => return .valid canonicalPath
      | .network => return .invalid .uncOrNetworkPath
      | .removable => return .invalid .removableDrive
      | .unknown => return .invalid .unsupportedDrive

end PathValidator

/-- The lower-case hexadecimal text of a SHA-256 digest. -/
def hashText (casing : Casing) (content : List UInt8) : String :=
  toLowerInvariant casing (toHexString (Sha256.digest content))

/-- `Sha256FileHasher.ComputeHexAsync`. The file is closed whether or not reading it throws. -/
def computeHexAsync (casing : Casing) (filePath : String) : Service String := do
  orThrow (op (.openRead filePath))
  Program.finally_ (do
    let content ← orThrow (op (.readAll filePath))
    return hashText casing content) (op (.close filePath))

namespace SqliteNonceStore

/-- `TryConsumeAsync`: whether the nonce was not in the ledger. -/
def tryConsumeAsync (nonce : Option String) : Service Bool :=
  match nonce with
  | none => throw (.argumentNull "nonce")
  | some nonce =>
    if nonce = "" then throw (.argument "nonce")
    else do
      let rowsAffected ← orThrow (op (.insertNonce nonce))
      return rowsAffected == 1

end SqliteNonceStore

/-- `Ed25519Verifier.Verify`. -/
def Host.verify (host : Host) (message : List UInt8) (signature : Option (List UInt8)) : Bool :=
  let signature := signature.getD []
  host.serverPublicKey.length == 32 && signature.length == 64 &&
    host.verifySignature host.serverPublicKey message signature

variable (host : Host)

/-- `ApprovalTokenValidator.ValidateAsync`. -/
def validateAsync (token : ApprovalToken)
    (expectedDeviceId expectedRequestId currentFileSha256Hex : String) :
    Service ApprovalValidationOutcome := do
  let payload ← Program.liftExcept (CanonicalApprovalPayload.build host.casing token.deviceId
    token.requestId token.sha256Hex token.expiresAtUtc token.nonce)
  if !host.verify payload token.signature then return .invalid .invalidSignature
  else if token.deviceId ≠ some expectedDeviceId then return .invalid .deviceMismatch
  else if token.requestId ≠ some expectedRequestId then return .invalid .requestIdMismatch
  else
    let now ← op .utcNow
    if token.expiresAtUtc ≤ now then return .invalid .expired
    else
      let nonceWasFresh ← SqliteNonceStore.tryConsumeAsync token.nonce
      if !nonceWasFresh then return .invalid .nonceReused
      else if !token.sha256Hex.any (equalsOrdinalIgnoreCase host.casing · currentFileSha256Hex) then
        return .invalid .hashMismatch
      else
        op (.note (.valid token.nonce))
        return .valid

namespace ExecutionEngine

/-- `BuildMsiExecStartInfo`. -/
def buildMsiExecStartInfo (canonicalMsiPath : String) : ProcessStartInfo where
  fileName := "msiexec.exe"
  argumentList := ["/i", canonicalMsiPath, "/quiet"]
  useShellExecute := false

/-- What is started for a path with the given extension. -/
def startInfo (canonicalPath extension : String) : ProcessStartInfo :=
  if equalsOrdinalIgnoreCase host.casing extension ".msi" then buildMsiExecStartInfo canonicalPath
  else { fileName := canonicalPath, argumentList := [], useShellExecute := false }

/-- `LaunchAsync`. -/
def launchAsync (canonicalPath extension : String) (authority : Authority) :
    Service ExecutionOutcome :=
  tryCatch (do
    let started ← orThrow (op (.startProcess (startInfo host canonicalPath extension) authority))
    if !started then return .failed "Failed to start process."
    else
      orThrow (op .waitForExit)
      return .ok) fun ex => return .failed ex.message

/-- `ExecuteAsync`. -/
def executeAsync (token : ApprovalToken) (expectedRequestId rawPath deviceId : String) :
    Service ExecutionOutcome := do
  let pathOutcome ← PathValidator.validate rawPath
  match pathOutcome with
  | .invalid reason => return .failed s!"Path rejected: {reason.name}"
  | .valid canonicalPath =>
    let extension := getExtension canonicalPath
    if !isAllowedExtension host.casing extension then return .failed "Unsupported file type."
    else
      let found ← op (.fileExists canonicalPath)
      if !found then return .failed "File not found."
      else
        let currentHash ← computeHexAsync host.casing canonicalPath
        let validation ← validateAsync host token deviceId expectedRequestId currentHash
        match validation with
        | .invalid reason => return .failed s!"Token rejected: {reason.name}"
        | .valid =>
          launchAsync host canonicalPath extension
            { token := token
              expectedRequestId := expectedRequestId
              canonicalPath := canonicalPath
              deviceId := deviceId }

end ExecutionEngine

end ElevateGate.Agent
