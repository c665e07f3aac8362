import ElevateGate.Agent.Service

/-!
# Which operations a function performs

For every function of the service, the operations that it may come to perform. What a protocol says
about other operations is then no concern of the function.
-/

namespace ElevateGate.Agent

open Interaction Time Text

/-- A deed of a thread. -/
abbrev Deed := Interaction.Deed Op Res State

/-- The operations on the file at a path while it is hashed. -/
def Op.Hashes (path : String) (o : Op) : Prop :=
  o = .openRead path ∨ o = .readAll path ∨ o = .close path

/-- The operations of token validation. -/
def Op.Validates (token : ApprovalToken) : Op → Prop
  | .utcNow => True
  | .insertNonce nonce => token.nonce = some nonce
  | .note (.valid nonce) => nonce = token.nonce
  | _ => False

/-- The operations of an execution. -/
def Op.Executes (token : ApprovalToken) (expectedRequestId deviceId : String) : Op → Prop
  | .classify _ => True
  | .fileExists _ => True
  | .openRead _ => True
  | .readAll _ => True
  | .close _ => True
  | .startProcess _ authority =>
    authority.token = token ∧ authority.expectedRequestId = expectedRequestId ∧
      authority.deviceId = deviceId
  | .waitForExit => True
  | o => o.Validates token

/-- The operations that record an event. -/
def Op.Records : Op → Prop
  | .utcNow => True
  | .record _ => True
  | _ => False

/-- The operations that read the facts about a file. -/
def Op.Reads : Op → Prop
  | .openRead _ => True
  | .readAll _ => True
  | .close _ => True
  | .fileVersion _ => True
  | .winVerifyTrust _ => True
  | .signerCertificate _ => True
  | .fileLength _ => True
  | _ => False

/-- The operations of a submission. -/
def Op.Submits : Op → Prop
  | .classify _ => True
  | .fileExists _ => True
  | .getCredential => True
  | .newGuid => True
  | .utcNow => True
  | .setItem requestId _ => ∃ guid : Uuid, requestId = guid.textN
  | .sendRequest _ request => ∃ guid : Uuid, request.requestId = guid.textN
  | .receiveSubmitted _ => True
  | .addOrUpdate _ _ => True
  | .record _ => True
  | o => o.Reads

/-- The operations of the polling worker outside of executions. -/
def Op.Polls : Op → Prop
  | .getCredential => True
  | .utcNow => True
  | .note (.sinceUtc _) => True
  | .sendPoll _ _ _ => True
  | .receiveDecisions => True
  | .getValueOrDefault _ => True
  | .record _ => True
  | .addOrUpdate _ _ => True
  | .waitForNextTick => True
  | _ => False

/-- The operations of the polling worker outside of its polls. -/
def Op.Ticks : Op → Prop
  | .getCredential => True
  | .utcNow => True
  | .note (.sinceUtc _) => True
  | .waitForNextTick => True
  | _ => False

theorem Op.Ticks.polls {o : Op} (h : o.Ticks) : o.Polls := by
  cases o with
  | note note => cases note <;> first | exact True.intro | exact h.elim
  | _ => first | exact True.intro | exact h.elim

theorem Op.Records.submits {o : Op} (h : o.Records) : o.Submits := by
  cases o <;> first | exact True.intro | exact h.elim

theorem Op.Reads.submits {o : Op} (h : o.Reads) : o.Submits := by
  cases o <;> first | exact True.intro | exact h.elim

theorem Op.Records.polls {o : Op} (h : o.Records) : o.Polls := by
  cases o <;> first | exact True.intro | exact h.elim

section Parts

open Program (Within)

variable {host : Host} {casing : Casing} {S : Op → Prop}

theorem within_op {o : Op} (h : S o) : (op o).Within S := Within.op h

theorem within_orThrow {α : Type} {program : Service (Throws α)} (h : program.Within S) :
    (orThrow program).Within S :=
  h.bind fun _ => .liftExcept

theorem within_validate {rawPath : String} (h : ∀ driveRoot, S (.classify driveRoot)) :
    (PathValidator.validate rawPath).Within S := by
  refine .ite (fun _ => .pure) fun _ => .ite (fun _ => .pure) fun _ => ?_
  refine .ite (fun _ => .pure) fun _ => ?_
  cases WindowsPathRules.tryCanonicalize rawPath with
  | none => exact .pure
  | some canonicalPath =>
    refine (within_op (h _)).bind fun classification => ?_
    cases classification <;> exact .pure

theorem within_computeHexAsync {path : String} :
    (computeHexAsync casing path).Within (Op.Hashes path) := by
  refine (within_orThrow (within_op (Or.inl rfl))).bind fun _ => ?_
  refine Within.finally_ ?_ (within_op (Or.inr (Or.inr rfl)))
  exact (within_orThrow (within_op (Or.inr (Or.inl rfl)))).bind fun _ => .pure

theorem within_tryConsumeAsync {nonce : Option String}
    (h : ∀ n, nonce = some n → S (.insertNonce n)) :
    (SqliteNonceStore.tryConsumeAsync nonce).Within S := by
  cases nonce with
  | none => exact .throw
  | some n =>
    refine .ite (fun _ => .throw) fun _ => ?_
    exact (within_orThrow (within_op (h n rfl))).bind fun _ => .pure

theorem within_validateAsync {token : ApprovalToken} {deviceId requestId hash : String} :
    (validateAsync host token deviceId requestId hash).Within (Op.Validates token) := by
  refine Within.bind .liftExcept fun payload => .ite (fun _ => .pure) fun _ => ?_
  refine .ite (fun _ => .pure) fun _ => .ite (fun _ => .pure) fun _ => ?_
  refine (within_op trivial).bind fun now => .ite (fun _ => .pure) fun _ => ?_
  refine (within_tryConsumeAsync fun _ h => h).bind fun fresh => ?_
  refine .ite (fun _ => .pure) fun _ => ?_
  have hnote : Op.Validates token (.note (.valid token.nonce)) := rfl
  exact .ite (fun _ => .pure) fun _ => (within_op hnote).bind fun _ => .pure

theorem within_launchAsync {path extension : String} (authority : Authority) :
    (ExecutionEngine.launchAsync host path extension authority).Within
      (Op.Executes authority.token authority.expectedRequestId authority.deviceId) := by
  refine Within.tryCatch ?_ fun _ => .pure
  refine (within_orThrow (within_op ⟨rfl, rfl, rfl⟩)).bind fun started => ?_
  refine .ite (fun _ => .pure) fun _ => ?_
  exact (within_orThrow (within_op trivial)).bind fun _ => .pure

theorem within_executeAsync {token : ApprovalToken} {requestId path deviceId : String} :
    (ExecutionEngine.executeAsync host token requestId path deviceId).Within
      (Op.Executes token requestId deviceId) := by
  have hvalidates : ∀ o, Op.Validates token o → Op.Executes token requestId deviceId o := by
    intro o ho
    cases o <;> first | exact True.intro | exact ho.elim | exact ho
  refine (within_validate fun _ => trivial).bind fun outcome => ?_
  cases outcome with
  | invalid reason => exact .pure
  | valid canonicalPath =>
    dsimp only
    refine .ite (fun _ => .pure) fun _ => (within_op trivial).bind fun found => ?_
    refine .ite (fun _ => .pure) fun _ => ?_
    refine (within_computeHexAsync.mono ?_).bind fun hash => ?_
    · rintro o (rfl | rfl | rfl) <;> trivial
    · refine (within_validateAsync.mono hvalidates).bind fun validation => ?_
      cases validation with
      | invalid reason => exact .pure
      | valid => exact within_launchAsync ⟨token, requestId, canonicalPath, deviceId⟩

theorem within_recordAsync {eventType : AuditEventType} {requestId deviceId nonce : Option String}
    {message : String} :
    (recordAsync eventType requestId deviceId nonce message).Within Op.Records :=
  (within_op trivial).bind fun _ => within_orThrow (within_op trivial)

theorem within_inspect {path : String} :
    (WindowsAuthenticodeInspector.inspect path).Within Op.Reads := by
  refine (Within.tryCatch ?_ fun _ => .pure).bind fun trustStatus => ?_
  · exact (within_orThrow (within_op trivial)).bind fun _ => .pure
  · refine .ite (fun _ => .pure) fun _ => Within.bind ?_ fun _ => .pure
    exact Within.tryCatch (within_orThrow (within_op trivial)).map fun _ => .pure

theorem within_readFile {path : String} :
    (RequestCoordinator.readFile host path).Within Op.Reads := by
  refine (within_computeHexAsync.mono ?_).bind fun _ => ?_
  · rintro o (rfl | rfl | rfl) <;> trivial
  · refine (Within.tryCatch (within_orThrow (within_op trivial)) fun _ => .pure).bind
      fun _ => within_inspect.bind fun _ => ?_
    exact (within_orThrow (within_op trivial)).bind fun _ => .pure

theorem within_submitFile {path reason : String} :
    (RequestCoordinator.submitFile host path reason).Within Op.Submits := by
  refine (within_orThrow (within_op trivial)).bind fun credential => ?_
  refine (within_readFile.mono fun _ => Op.Reads.submits).bind fun _ => ?_
  refine (within_op trivial).bind fun guid => (within_op trivial).bind fun now => ?_
  refine (within_op ⟨guid, rfl⟩).bind fun _ => ?_
  refine (Within.tryCatch ?_ fun _ => ?_).bind fun submitted =>
    .ite (fun _ => .pure) fun _ => ?_
  · refine Within.bind ?_ fun _ => .pure
    exact (within_op ⟨guid, rfl⟩).bind fun _ => within_orThrow (within_op trivial)
  · exact (within_orThrow (within_op trivial)).bind fun _ => .pure
  · exact (within_recordAsync.mono fun _ => Op.Records.submits).bind fun _ => .pure

theorem within_submitAsync {rawFilePath reason : Option String} :
    (RequestCoordinator.submitAsync host rawFilePath reason).Within Op.Submits := by
  refine .ite (fun _ => .pure) fun _ => .ite (fun _ => .pure) fun _ => ?_
  refine (within_validate fun _ => trivial).bind fun outcome => ?_
  cases outcome with
  | invalid rejection => exact (within_recordAsync.mono fun _ => Op.Records.submits).bind fun _ => .pure
  | valid canonicalPath =>
    dsimp only
    refine .ite (fun _ => .pure) fun _ => (within_op trivial).bind fun found => ?_
    exact .ite (fun _ => .pure) fun _ => within_submitFile

theorem within_getStatus {requestId : Option String} (h : ∀ id, S (.getValueOrDefault id)) :
    (RequestCoordinator.getStatus requestId).Within S := by
  refine .ite (fun _ => .pure) fun _ => Within.bind ?_ fun tracked => ?_
  · cases requestId
    · exact .throw
    · exact within_op (h _)
  · cases tracked <;> exact .pure

theorem within_updateStatus {requestId : String} {status : RequestStatus}
    (h : S (.addOrUpdate requestId status)) : (RequestStateStore.updateStatus requestId status).Within S :=
  within_orThrow (within_op h)

/-- What is done for an approved request stays within the operations that execute it, update its status
and record an event. -/
theorem within_handleApprovedAsync {credential : DeviceCredential} {requestId : String}
    {token : Option ApprovalToken} {tracked : TrackedRequest}
    (hupdates : ∀ status, S (.addOrUpdate requestId status)) (hrecords : ∀ o, Op.Records o → S o)
    (hexecutes : ∀ token o, Op.Executes token requestId credential.deviceId o → S o) :
    (ApprovalPollingWorker.handleApprovedAsync host credential requestId token tracked).Within S := by
  cases token with
  | none => exact within_updateStatus (hupdates _)
  | some token =>
    refine (within_executeAsync.mono (hexecutes token)).bind fun outcome => ?_
    cases outcome <;>
      exact (within_updateStatus (hupdates _)).bind fun _ => within_recordAsync.mono hrecords

end Parts

section Worker

variable {host : Host} {P : List Deed → Op → Prop} {credential : DeviceCredential}

private theorem abides_updateStatus (hpolls : ∀ done o, Op.Polls o → P done o) (requestId : String)
    (status : RequestStatus) : Abides P (RequestStateStore.updateStatus requestId status) :=
  .of_within (within_orThrow (within_op rfl)) fun done o ho => by
    rw [← ho]
    exact hpolls done _ trivial

private theorem abides_recordAsync (hpolls : ∀ done o, Op.Polls o → P done o)
    {eventType : AuditEventType} {requestId deviceId nonce : Option String} {message : String} :
    Abides P (recordAsync eventType requestId deviceId nonce message) :=
  .of_within within_recordAsync fun done o ho => hpolls done o ho.polls

private theorem abides_handleApprovedAsync (hpolls : ∀ done o, Op.Polls o → P done o)
    (hexecute : ∀ token requestId path deviceId,
      Abides P (ExecutionEngine.executeAsync host token requestId path deviceId))
    (requestId : String) (token : Option ApprovalToken) (tracked : TrackedRequest) :
    Abides P (ApprovalPollingWorker.handleApprovedAsync host credential requestId token tracked) := by
  cases token with
  | none => exact abides_updateStatus hpolls _ _
  | some token =>
    refine (hexecute _ _ _ _).bind fun outcome => ?_
    cases outcome with
    | ok => exact (abides_updateStatus hpolls _ _).bind fun _ => abides_recordAsync hpolls
    | failed reason => exact (abides_updateStatus hpolls _ _).bind fun _ => abides_recordAsync hpolls

private theorem abides_handleDecisionAsync (hpolls : ∀ done o, Op.Polls o → P done o)
    (hexecute : ∀ token requestId path deviceId,
      Abides P (ExecutionEngine.executeAsync host token requestId path deviceId))
    (decision : ApprovalDecision) :
    Abides P (ApprovalPollingWorker.handleDecisionAsync host credential decision) := by
  have hget : Abides P (RequestStateStore.get decision.requestId) := by
    cases decision.requestId with
    | none => exact fun _ => .throw trivial
    | some requestId => exact fun done => .perform (hpolls done _ trivial) fun _ _ => .pure trivial
  refine hget.bind fun tracked => ?_
  cases tracked with
  | none => exact fun _ => .pure trivial
  | some tracked =>
    refine (abides_recordAsync hpolls).bind fun _ => ?_
    cases decision.status with
    | denied => exact abides_updateStatus hpolls _ _
    | expired => exact abides_updateStatus hpolls _ _
    | approved => exact abides_handleApprovedAsync hpolls hexecute _ _ _
    | pending => exact fun _ => .pure trivial
    | failed => exact fun _ => .pure trivial

private theorem abides_pollOnceAsync (hpolls : ∀ done o, Op.Polls o → P done o)
    (hdecision : ∀ decision,
      Abides P (ApprovalPollingWorker.handleDecisionAsync host credential decision))
    (sinceUtc : DateTimeOffset) :
    Abides P (ApprovalPollingWorker.pollOnceAsync host credential sinceUtc) := by
  refine Abides.bind ?_ fun decisions => Abides.forEach hdecision
  refine fun _ => .perform (hpolls _ _ trivial) fun _ _ =>
    .perform (hpolls _ _ trivial) fun _ received => ?_
  cases received with
  | error error => exact .throw trivial
  | ok decisions => exact .pure trivial

private theorem abides_setSinceUtc (hticks : ∀ done o, Op.Ticks o → P done o) :
    Abides P ApprovalPollingWorker.setSinceUtc := fun _ =>
  .perform (hticks _ _ trivial) fun _ _ =>
    .perform (hticks _ _ trivial) fun _ _ => .pure trivial

private theorem abides_cycle (hticks : ∀ done o, Op.Ticks o → P done o)
    (hpoll : ∀ sinceUtc, Abides P (ApprovalPollingWorker.pollOnceAsync host credential sinceUtc))
    (sinceUtc : DateTimeOffset) :
    Abides P (ApprovalPollingWorker.cycle host credential sinceUtc) :=
  Abides.tryCatch ((hpoll sinceUtc).bind fun _ => abides_setSinceUtc hticks) fun _ _ => .pure trivial

private theorem abides_cycles (hticks : ∀ done o, Op.Ticks o → P done o)
    (hpoll : ∀ sinceUtc, Abides P (ApprovalPollingWorker.pollOnceAsync host credential sinceUtc))
    (n : Nat) (sinceUtc : DateTimeOffset) :
    Abides P (ApprovalPollingWorker.cycles host credential n sinceUtc) := by
  induction n generalizing sinceUtc with
  | zero => exact (abides_cycle hticks hpoll sinceUtc).bind fun _ _ => .pure trivial
  | succ n ih =>
    refine (abides_cycle hticks hpoll sinceUtc).bind fun sinceUtc done => ?_
    refine .perform (hticks done _ trivial) fun _ ticked => ?_
    cases ticked with
    | error error => exact .throw trivial
    | ok again => exact .ite (fun _ => ih sinceUtc _) fun _ => .pure trivial

/-- The worker abides by a protocol that its polls abide by and that allows it everything else. -/
theorem abides_worker_of_polls {ticks : Nat} (hticks : ∀ done o, Op.Ticks o → P done o)
    (hpoll : ∀ credential sinceUtc,
      Abides P (ApprovalPollingWorker.pollOnceAsync host credential sinceUtc)) :
    Abides P (ApprovalPollingWorker.executeAsync host ticks) := by
  refine fun done => .perform (hticks done _ trivial) fun _ received => ?_
  cases received with
  | error error => exact .throw trivial
  | ok credential =>
    exact (abides_setSinceUtc hticks _).bind
      (fun sinceUtc after _ => abides_cycles hticks (hpoll credential) ticks sinceUtc after)
      fun _ _ _ => trivial

/-- The worker abides by a protocol that the handling of a decision abides by and that allows it
everything else. -/
theorem abides_worker {ticks : Nat} (hpolls : ∀ done o, Op.Polls o → P done o)
    (hdecision : ∀ credential decision,
      Abides P (ApprovalPollingWorker.handleDecisionAsync host credential decision)) :
    Abides P (ApprovalPollingWorker.executeAsync host ticks) :=
  abides_worker_of_polls (fun done o ho => hpolls done o ho.polls) fun credential =>
    abides_pollOnceAsync hpolls (hdecision credential)

/-- So it does by a protocol that its executions abide by. -/
theorem abides_pollingWorker {ticks : Nat} (hpolls : ∀ done o, Op.Polls o → P done o)
    (hexecute : ∀ token requestId path deviceId,
      Abides P (ExecutionEngine.executeAsync host token requestId path deviceId)) :
    Abides P (ApprovalPollingWorker.executeAsync host ticks) :=
  abides_worker hpolls fun _ => abides_handleDecisionAsync hpolls hexecute

end Worker

/-- Every call follows a protocol that submissions abide by and that allows everything else. -/
theorem follows_of_submits {host : Host} {accepts : Tid → Call → Bool} {P : List Deed → Op → Prop}
    (hsubmit : ∀ rawFilePath reason,
      Abides P (RequestCoordinator.submitAsync host rawFilePath reason))
    (hpolls : ∀ done o, Op.Polls o → P done o)
    (hexecutes : ∀ token requestId deviceId done o, Op.Executes token requestId deviceId o →
      P done o) :
    (system host accepts).Follows fun _ => P := by
  intro i call program hprogram
  simp only [system] at hprogram
  split at hprogram
  · obtain rfl := Option.some.inj hprogram
    cases call with
    | pollingWorker ticks =>
      refine Abides.map (abides_pollingWorker hpolls ?_) []
      exact fun token requestId _ deviceId =>
        .of_within within_executeAsync (hexecutes token requestId deviceId)
    | submit rawFilePath reason => exact (hsubmit rawFilePath reason).map []
    | getStatus requestId =>
      have hwithin : (RequestCoordinator.getStatus requestId).Within Op.Polls :=
        within_getStatus fun id => trivial
      exact (Abides.of_within hwithin hpolls).map []
    | execute token requestId rawPath deviceId =>
      exact (Abides.of_within within_executeAsync (hexecutes token requestId deviceId)).map []
    | validate token deviceId requestId hash =>
      refine (Abides.of_within within_validateAsync fun done o ho => ?_).map []
      refine hexecutes token requestId deviceId done o ?_
      cases o <;> first | exact True.intro | exact ho.elim | exact ho
  · contradiction

/-- Every call keeps to the operations of submissions, of the worker and of executions. -/
theorem follows_of_ops {host : Host} {accepts : Tid → Call → Bool} {S : Op → Prop}
    (hsubmits : ∀ o, o.Submits → S o) (hpolls : ∀ o, o.Polls → S o)
    (hexecutes : ∀ token requestId deviceId o, o.Executes token requestId deviceId → S o) :
    (system host accepts).Follows fun _ _ o => S o :=
  follows_of_submits (fun _ _ => .of_within within_submitAsync fun _ o ho => hsubmits o ho)
    (fun _ o ho => hpolls o ho) fun token requestId deviceId _ o ho =>
      hexecutes token requestId deviceId o ho

end ElevateGate.Agent
