import ElevateGate.Agent.Execution

/-!
# The service

The state store, the coordinator that submits requests, the worker that polls for decisions, and
the service as a system of threads.
-/

namespace ElevateGate.Agent

open Interaction Time Text

namespace RequestStateStore

/-- `Add`. -/
def add (requestId : String) (request : TrackedRequest) : Service Unit :=
  op (.setItem requestId request)

/-- `Get`. -/
def get (requestId : Option String) : Service (Option TrackedRequest) :=
  match requestId with
  | none => throw (.argumentNull "key")
  | some requestId => op (.getValueOrDefault requestId)

/-- `UpdateStatus`. -/
def updateStatus (requestId : String) (status : RequestStatus) : Service Unit :=
  orThrow (op (.addOrUpdate requestId status))

end RequestStateStore

/-- `IAuditLog.RecordAsync` of an event that happens now. -/
def recordAsync (eventType : AuditEventType) (requestId deviceId nonce : Option String)
    (message : String) : Service Unit := do
  let timestampUtc ← op .utcNow
  orThrow (op (.record
    { timestampUtc := timestampUtc
      eventType := eventType
      requestId := requestId
      deviceId := deviceId
      nonce := nonce
      message := message }))

namespace WindowsAuthenticodeInspector

/-- The trust status that a result of `WinVerifyTrust` stands for. -/
def trustStatus (result : Int) : SignatureTrustStatus :=
  if result = 0 then .trusted
  else if result = 0x800B0100 - 2 ^ 32 then .unsigned
  else if result = 0x800B010C - 2 ^ 32 then .revoked
  else if result = 0x80096010 - 2 ^ 32 then .hashMismatch
  else if result = 0x800B0111 - 2 ^ 32 then .untrusted
  else if result = 0x800B0004 - 2 ^ 32 then .untrusted
  else .unknown

/-- `VerifyTrust`. -/
def verifyTrust (filePath : String) : Service SignatureTrustStatus :=
  tryCatch (do
    let result ← orThrow (op (.winVerifyTrust filePath))
    return trustStatus result) fun _ => return .unknown

/-- The publisher and the thumbprint of the signer certificate, if it can be read. -/
def readSigner (canonicalFilePath : String) : Service (Option (String × String)) :=
  tryCatch (some <$> orThrow (op (.signerCertificate canonicalFilePath))) fun _ => return none

/-- `Inspect`. -/
def inspect (canonicalFilePath : String) : Service SignatureInfo := do
  let trustStatus ← verifyTrust canonicalFilePath
  if trustStatus = .unsigned then
    return { trustStatus := .unsigned, publisherCommonName := none, certificateThumbprint := none }
  else
    let signer ← readSigner canonicalFilePath
    return { trustStatus := trustStatus
             publisherCommonName := signer.map Prod.fst
             certificateThumbprint := signer.map Prod.snd }

end WindowsAuthenticodeInspector

namespace RequestCoordinator

/-- `Failed`. -/
def failed (requestId : Option String) (errorMessage : String) : PipeResponseMessage where
  success := false
  requestId := requestId
  status := some RequestStatus.failed.name
  errorMessage := some errorMessage

/-- `TryGetFileVersion`. -/
def tryGetFileVersion (canonicalPath : String) : Service (Option String) :=
  tryCatch (orThrow (op (.fileVersion canonicalPath))) fun _ => return none

/-- `SubmitRequestAsync`: send the request and wait for the response. -/
def submitRequestAsync (bearerToken : String) (request : ApprovalRequest) : Service Unit := do
  op (.sendRequest bearerToken request)
  orThrow (op (.receiveSubmitted request.requestId))

variable (host : Host)

/-- The facts about a file that a request reports, in the order in which they are read. -/
def readFile (canonicalPath : String) : Service (FileMetadata × SignatureInfo) := do
  let sha256Hex ← computeHexAsync host.casing canonicalPath
  let fileVersion ← tryGetFileVersion canonicalPath
  let signature ← WindowsAuthenticodeInspector.inspect canonicalPath
  let length ← orThrow (op (.fileLength canonicalPath))
  return ({ fileName := fileName canonicalPath
            fullPath := canonicalPath
            sizeBytes := length
            fileVersion := fileVersion
            sha256Hex := sha256Hex }, signature)

/-- Submit a request for a file that exists. -/
def submitFile (canonicalPath reason : String) : Service PipeResponseMessage := do
  let credential ← orThrow (op .getCredential)
  let (metadata, signature) ← readFile host canonicalPath
  let guid ← op .newGuid
  let requestId := guid.textN
  let requestedAtUtc ← op .utcNow
  let request : ApprovalRequest :=
    { requestId := requestId
      deviceId := credential.deviceId
      file := metadata
      signature := signature
      reason := reason
      requestedAtUtc := requestedAtUtc }
  RequestStateStore.add requestId
    { canonicalPath := canonicalPath
      reason := reason
      submittedAtUtc := requestedAtUtc
      status := .pending }
  let submitted ← tryCatch (do
      submitRequestAsync credential.bearerToken request
      return true) fun _ => do
    RequestStateStore.updateStatus requestId .failed
    return false
  if !submitted then return failed (some requestId) "Could not reach the approval backend."
  else
    recordAsync .requestSubmitted (some requestId) (some credential.deviceId) none
      s!"Submitted {metadata.fileName}."
    return { success := true
             requestId := some requestId
             status := some RequestStatus.pending.name
             errorMessage := none }

/-- `SubmitAsync`. -/
def submitAsync (rawFilePath reason : Option String) : Service PipeResponseMessage := do
  if rawFilePath.all isWhiteSpace then return failed none "A file path is required."
  else if reason.all isWhiteSpace then return failed none "A reason is required."
  else
    let pathOutcome ← PathValidator.validate (rawFilePath.getD "")
    match pathOutcome with
    | .invalid rejection =>
      recordAsync .validationRejected none none none
        s!"Path rejected at submission: {rejection.name}"
      return failed none s!"Path rejected: {rejection.name}"
    | .valid canonicalPath =>
      if !isAllowedExtension host.casing (getExtension canonicalPath) then
        return failed none "Only .exe and .msi files may be requested."
      else
        let found ← op (.fileExists canonicalPath)
        if !found then return failed none "File not found."
        else submitFile host canonicalPath (reason.getD "")

/-- `GetStatus`. -/
def getStatus (requestId : Option String) : Service PipeResponseMessage :=
  if requestId.all isWhiteSpace then return failed none "A request id is required."
  else do
    let tracked ← RequestStateStore.get requestId
    match tracked with
    | none => return failed requestId "Unknown request id."
    | some tracked =>
      return { success := true
               requestId := requestId
               status := some tracked.status.name
               errorMessage := none }

end RequestCoordinator

namespace ApprovalPollingWorker

variable (host : Host)

/-- `PollDecisionsAsync`: send the poll and wait for the response. -/
def pollDecisionsAsync (bearerToken deviceId : String) (sinceUtc : DateTimeOffset) :
    Service (List ApprovalDecision) := do
  op (.sendPoll bearerToken deviceId sinceUtc)
  orThrow (op .receiveDecisions)

/-- `HandleApprovedAsync`. -/
def handleApprovedAsync (credential : DeviceCredential) (requestId : String)
    (token : Option ApprovalToken) (tracked : TrackedRequest) : Service Unit :=
  match token with
  | none => RequestStateStore.updateStatus requestId .failed
  | some token => do
    let outcome ← ExecutionEngine.executeAsync host token requestId tracked.canonicalPath
      credential.deviceId
    match outcome with
    | .ok =>
      RequestStateStore.updateStatus requestId .approved
      recordAsync .executionCompleted (some requestId) (some credential.deviceId) token.nonce
        "Execution completed."
    | .failed reason =>
      RequestStateStore.updateStatus requestId .failed
      recordAsync .executionFailed (some requestId) (some credential.deviceId) token.nonce
        s!"Execution failed: {reason}"

/-- `HandleDecisionAsync`. -/
def handleDecisionAsync (credential : DeviceCredential) (decision : ApprovalDecision) :
    Service Unit := do
  let some tracked ← RequestStateStore.get decision.requestId
    | return ()
  recordAsync .decisionReceived decision.requestId (some credential.deviceId)
    (decision.token.bind ApprovalToken.nonce) decision.status.name
  let requestId := decision.requestId.getD ""
  match decision.status with
  | .denied => RequestStateStore.updateStatus requestId .denied
  | .expired => RequestStateStore.updateStatus requestId .expired
  | .approved => handleApprovedAsync host credential requestId decision.token tracked
  | .pending => return ()
  | .failed => return ()

/-- `PollOnceAsync`. -/
def pollOnceAsync (credential : DeviceCredential) (sinceUtc : DateTimeOffset) : Service Unit := do
  let decisions ← pollDecisionsAsync credential.bearerToken credential.deviceId sinceUtc
  Program.forEach (handleDecisionAsync host credential) decisions

/-- Set the watermark to the present time. -/
def setSinceUtc : Service DateTimeOffset := do
  let now ← op .utcNow
  op (.note (.sinceUtc now))
  return now

/-- One cycle: the next watermark, which moves only if nothing was thrown. -/
def cycle (credential : DeviceCredential) (sinceUtc : DateTimeOffset) : Service DateTimeOffset :=
  tryCatch (do
    pollOnceAsync host credential sinceUtc
    setSinceUtc) fun _ => return sinceUtc

/-- The cycles of the worker until the timer ends or has ticked `ticks` times. -/
def cycles (credential : DeviceCredential) : Nat → DateTimeOffset → Service Unit
  | 0, sinceUtc => do
    let _ ← cycle host credential sinceUtc
  | ticks + 1, sinceUtc => do
    let sinceUtc ← cycle host credential sinceUtc
    let again ← orThrow (op .waitForNextTick)
    if again then cycles credential ticks sinceUtc else return ()

/-- `ExecuteAsync`, for the first `ticks` ticks of the timer. -/
def executeAsync (ticks : Nat) : Service Unit := do
  let credential ← orThrow (op .getCredential)
  let sinceUtc ← setSinceUtc
  cycles host credential ticks sinceUtc

end ApprovalPollingWorker

/-- A call that a thread serves. -/
inductive Call
  | pollingWorker (ticks : Nat)
  | submit (rawFilePath reason : Option String)
  | getStatus (requestId : Option String)
  | execute (token : ApprovalToken) (expectedRequestId rawPath deviceId : String)
  | validate (token : ApprovalToken)
      (expectedDeviceId expectedRequestId currentFileSha256Hex : String)

/-- The answer to a call. -/
inductive Answer
  | unit
  | response (message : PipeResponseMessage)
  | execution (outcome : ExecutionOutcome)
  | validation (outcome : ApprovalValidationOutcome)

variable (host : Host)

/-- The program that a call runs. -/
def serve : Call → Service Answer
  | .pollingWorker ticks => (fun _ => .unit) <$> ApprovalPollingWorker.executeAsync host ticks
  | .submit rawFilePath reason =>
    .response <$> RequestCoordinator.submitAsync host rawFilePath reason
  | .getStatus requestId => .response <$> RequestCoordinator.getStatus requestId
  | .execute token expectedRequestId rawPath deviceId =>
    .execution <$> ExecutionEngine.executeAsync host token expectedRequestId rawPath deviceId
  | .validate token expectedDeviceId expectedRequestId currentFileSha256Hex =>
    .validation <$> validateAsync host token expectedDeviceId expectedRequestId
      currentFileSha256Hex

/-- The agent, in which each thread serves the calls that it accepts. -/
def system (accepts : Tid → Call → Bool) :
    System Op Res ClrException Answer Tid Choice Event Call State where
  program i call := if accepts i call then some (serve host call) else none
  perform := perform host
  env := env
  stop i s := s.stop i
  reset s := some s.restart

/-- The one polling worker runs on thread 0, and the pipe server on the others. -/
def serviceCalls : Tid → Call → Bool
  | 0, .pollingWorker _ => true
  | 0, _ => false
  | _ + 1, .submit _ _ => true
  | _ + 1, .getStatus _ => true
  | _ + 1, _ => false

/-- Every call on every thread. -/
def anyCall : Tid → Call → Bool := fun _ _ => true

end ElevateGate.Agent
