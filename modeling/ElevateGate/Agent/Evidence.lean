import ElevateGate.Agent.Operations

/-!
# What a thread has done before it starts a process

A process is started only by a thread whose last deeds are a complete validation: it has read the
file, found every claim of the token in order, and inserted the token's nonce into the ledger. This
is a property of the programs alone, proved by following them from operation to operation.
-/

namespace ElevateGate.Agent

open Interaction Time Text

/-- The checks that a token has passed. -/
structure Checked (host : Host) (token : ApprovalToken) (deviceId requestId hash nonce : String)
    (now : DateTimeOffset) : Prop where
  signature : ∃ payload, CanonicalApprovalPayload.build host.casing token.deviceId token.requestId
      token.sha256Hex token.expiresAtUtc token.nonce = .ok payload ∧
    host.verify payload token.signature = true
  deviceId : token.deviceId = some deviceId
  requestId : token.requestId = some requestId
  unexpired : now < token.expiresAtUtc
  nonce : token.nonce = some nonce
  sha256Hex : ∃ sha256Hex, token.sha256Hex = some sha256Hex ∧
    equalsOrdinalIgnoreCase host.casing sha256Hex hash = true

/-- The deeds of hashing a file, the latest first. -/
def hashing (path : String) (content : List UInt8) (s s' s'' : State) : List Deed :=
  [⟨s'', .close path, ()⟩, ⟨s', .readAll path, .ok content⟩, ⟨s, .openRead path, .ok ()⟩]

/-- The deeds of validating a token with success, the latest first. -/
def validation (nonce : String) (now : DateTimeOffset) (s s' s'' : State) : List Deed :=
  [⟨s'', .note (.valid (some nonce)), ()⟩, ⟨s', .insertNonce nonce, .ok 1⟩, ⟨s, .utcNow, now⟩]

/-- What lies behind the start of a process: the content that was hashed, the time at which the
token was compared with the clock, the nonce that was inserted, and the states in which the deeds
of the validation found the machine. -/
structure Evidence where
  content : List UInt8
  now : DateTimeOffset
  nonce : String
  atOpen : State
  atRead : State
  atClose : State
  atClock : State
  atInsert : State
  atValid : State
  before : List Deed

/-- The thread's deeds, the latest first. -/
def Evidence.deeds (e : Evidence) (path : String) : List Deed :=
  validation e.nonce e.now e.atClock e.atInsert e.atValid ++
    (hashing path e.content e.atOpen e.atRead e.atClose ++ e.before)

/-- Evidence supports an execution when the deeds are the last of the thread and every check was
passed. -/
structure Evidence.Supports (e : Evidence) (host : Host) (authority : Authority)
    (done : List Deed) : Prop where
  deeds : done = e.deeds authority.canonicalPath
  checked : Checked host authority.token authority.deviceId authority.expectedRequestId
    (hashText host.casing e.content) e.nonce e.now

/-- Whether an execution is one that a call asked for. Only the polling worker and a direct call of
the engine start processes. -/
def Authority.OfCall (authority : Authority) : Call → Prop
  | .pollingWorker _ => True
  | .execute token expectedRequestId rawPath deviceId =>
    authority.token = token ∧ authority.expectedRequestId = expectedRequestId ∧
      authority.deviceId = deviceId ∧
      WindowsPathRules.tryCanonicalize rawPath = some authority.canonicalPath
  | _ => False

/-- The protocol of the executions: a token is noted as valid only after its nonce was inserted, and
a process is started only on evidence. -/
def Justified (host : Host) (call : Call) (done : List Deed) : Op → Prop
  | .note (.valid nonce) => ∃ s n before, nonce = some n ∧ done = ⟨s, .insertNonce n, .ok 1⟩ :: before
  | .startProcess startInfo authority =>
    authority.OfCall call ∧ (∃ e : Evidence, e.Supports host authority done) ∧
      startInfo = ExecutionEngine.startInfo host authority.canonicalPath
        (getExtension authority.canonicalPath)
  | _ => True

section Rules

variable {host : Host} {casing : Casing} {P : List Deed → Op → Prop} {done : List Deed}

/-- Validating a path returns it in canonical form, or rejects it. -/
theorem obeys_validate {rawPath : String} (hallowed : ∀ driveRoot, P done (.classify driveRoot)) :
    Obeys P (fun result _ => ∀ path, result = .ok (.valid path) →
        WindowsPathRules.tryCanonicalize rawPath = some path)
      done (PathValidator.validate rawPath) := by
  refine .ite (fun _ => .pure (by simp)) fun _ => .ite (fun _ => .pure (by simp)) fun _ => ?_
  refine .ite (fun _ => .pure (by simp)) fun _ => ?_
  cases WindowsPathRules.tryCanonicalize rawPath with
  | none => exact .pure (by simp)
  | some canonicalPath =>
    refine .perform (hallowed _) fun s classification => ?_
    cases classification <;> exact .pure (by simp)

/-- Hashing a file throws, or returns the hash of the content that was read. -/
theorem obeys_computeHexAsync {path : String} (hallowed : ∀ done o, Op.Hashes path o → P done o) :
    Obeys P (fun result after => ∀ hash, result = .ok hash → ∃ content s s' s'',
        after = hashing path content s s' s'' ++ done ∧ hash = hashText casing content)
      done (computeHexAsync casing path) := by
  refine .perform (hallowed _ _ (Or.inl rfl)) fun s opened => ?_
  cases opened with
  | error error => exact .throw (by simp)
  | ok _ =>
    refine .perform (hallowed _ _ (Or.inr (Or.inl rfl))) fun s' bytes => ?_
    cases bytes with
    | error error =>
      exact .perform (hallowed _ _ (Or.inr (Or.inr rfl))) fun s'' _ => .throw (by simp)
    | ok content =>
      refine .perform (hallowed _ _ (Or.inr (Or.inr rfl))) fun s'' _ => .pure ?_
      intro hash heq
      exact ⟨content, s, s', s'', rfl, (Except.ok.inj heq).symm⟩

/-- Consuming a nonce succeeds only where it was inserted. -/
theorem obeys_tryConsumeAsync {nonce : Option String}
    (hallowed : ∀ n, nonce = some n → P done (.insertNonce n)) :
    Obeys P (fun result after => result = .ok true → ∃ n s,
        nonce = some n ∧ after = ⟨s, .insertNonce n, .ok 1⟩ :: done)
      done (SqliteNonceStore.tryConsumeAsync nonce) := by
  cases nonce with
  | none => exact .throw (by simp)
  | some n =>
    refine .ite (fun _ => .throw (by simp)) fun _ => ?_
    refine .perform (hallowed n rfl) fun s rowsAffected => ?_
    cases rowsAffected with
    | error error => exact .throw (by simp)
    | ok rows =>
      refine .pure fun heq => ?_
      obtain rfl : rows = 1 := by simpa using heq
      exact ⟨n, s, rfl, rfl⟩

/-- A token is found valid only when every check was passed. -/
theorem obeys_validateAsync {token : ApprovalToken} {deviceId requestId hash : String}
    (hallowed : ∀ done o, Op.Validates token o → (∀ n, o ≠ .note n) → P done o)
    (hnote : ∀ s n before, token.nonce = some n →
      P (⟨s, .insertNonce n, .ok 1⟩ :: before) (.note (.valid (some n)))) :
    Obeys P (fun result after => result = .ok .valid → ∃ nonce now s s' s'',
        after = validation nonce now s s' s'' ++ done ∧
          Checked host token deviceId requestId hash nonce now)
      done (validateAsync host token deviceId requestId hash) := by
  unfold validateAsync
  cases hpayload : CanonicalApprovalPayload.build host.casing token.deviceId token.requestId
    token.sha256Hex token.expiresAtUtc token.nonce with
  | error error => exact .throw (by simp)
  | ok payload =>
    refine .ite (fun _ => .pure (by simp)) fun hverify => ?_
    refine .ite (fun _ => .pure (by simp)) fun hdevice => ?_
    refine .ite (fun _ => .pure (by simp)) fun hrequest => ?_
    refine .op_bind (hallowed _ _ trivial (by simp)) fun s now => ?_
    refine .ite (fun _ => .pure (by simp)) fun hexpired => ?_
    refine (obeys_tryConsumeAsync fun n hn => hallowed _ _ hn (by simp)).bind ?_ (by simp)
    intro fresh after hconsumed
    refine .ite (fun _ => .pure (by simp)) fun hfresh => ?_
    refine .ite (fun _ => .pure (by simp)) fun hhash => ?_
    obtain ⟨n, s', hnonce, rfl⟩ := hconsumed (by simpa using hfresh)
    rw [hnonce]
    refine .op_bind (hnote _ _ _ hnonce) fun s'' _ => .pure fun _ => ?_
    refine ⟨n, now, s, s', s'', rfl, ⟨payload, hpayload, by simpa using hverify⟩,
      by simpa using hdevice, by simpa using hrequest, Nat.lt_of_not_le hexpired, hnonce, ?_⟩
    simpa [Option.any_eq_true] using hhash

/-- Launching starts one process and waits for it. -/
theorem obeys_launchAsync {path extension : String} {authority : Authority}
    (hstart : P done (.startProcess (ExecutionEngine.startInfo host path extension) authority))
    (hwait : ∀ done, P done .waitForExit) :
    Obeys P (fun _ _ => True) done
      (ExecutionEngine.launchAsync host path extension authority) := by
  refine Obeys.tryCatch (Q := fun _ _ => True) ?_ (fun _ _ _ => trivial) fun _ _ _ => .pure trivial
  refine .perform hstart fun s started => ?_
  cases started with
  | error error => exact .throw trivial
  | ok started =>
    refine .ite (fun _ => .pure trivial) fun _ => ?_
    refine .perform (hwait _) fun s' waited => ?_
    cases waited with
    | error error => exact .throw trivial
    | ok _ => exact .pure trivial

/-- An execution starts a process only on evidence. -/
theorem obeys_executeAsync {token : ApprovalToken} {requestId rawPath deviceId : String}
    (hallowed : ∀ done o, Op.Executes token requestId deviceId o → (∀ n, o ≠ .note n) →
      (∀ info authority, o ≠ .startProcess info authority) → P done o)
    (hnote : ∀ s n before, token.nonce = some n →
      P (⟨s, .insertNonce n, .ok 1⟩ :: before) (.note (.valid (some n))))
    (hstart : ∀ path e done, WindowsPathRules.tryCanonicalize rawPath = some path →
      Evidence.Supports e host ⟨token, requestId, path, deviceId⟩ done →
      P done (.startProcess (ExecutionEngine.startInfo host path (getExtension path))
        ⟨token, requestId, path, deviceId⟩)) :
    Obeys P (fun _ _ => True) done
      (ExecutionEngine.executeAsync host token requestId rawPath deviceId) := by
  refine (obeys_validate fun _ => hallowed _ _ trivial (by simp) (by simp)).bind ?_ fun _ _ _ => trivial
  intro outcome after hcanonical
  cases outcome with
  | invalid reason => exact .pure trivial
  | valid path =>
    dsimp only
    refine .ite (fun _ => .pure trivial) fun _ => ?_
    refine .op_bind (hallowed _ _ trivial (by simp) (by simp)) fun s found => ?_
    refine .ite (fun _ => .pure trivial) fun _ => ?_
    refine (obeys_computeHexAsync ?_).bind ?_ fun _ _ _ => trivial
    · rintro done o (rfl | rfl | rfl) <;> exact hallowed _ _ trivial (by simp) (by simp)
    · intro hash after hhash
      obtain ⟨content, s1, s2, s3, rfl, rfl⟩ := hhash hash rfl
      refine (obeys_validateAsync ?_ hnote).bind ?_ fun _ _ _ => trivial
      · intro done o ho hn
        cases o <;> first | exact ho.elim | skip
        · exact hallowed _ _ trivial (by simp) (by simp)
        · exact hallowed _ _ ho (by simp) (by simp)
        · exact absurd rfl (hn _)
      · intro outcome after hvalid
        cases outcome with
        | invalid reason => exact .pure trivial
        | valid =>
          obtain ⟨nonce, now, s4, s5, s6, rfl, hchecked⟩ := hvalid rfl
          -- everything that `Process.Start` needs is among the last six deeds
          have hlaunch := hstart path ⟨content, now, nonce, s1, s2, s3, s4, s5, s6,
            ⟨s, .fileExists path, found⟩ :: after⟩ _
            (hcanonical path rfl) ⟨rfl, hchecked⟩
          exact obeys_launchAsync hlaunch fun done => hallowed _ _ trivial (by simp) (by simp)

end Rules

/-- What the protocol says nothing about is always allowed. -/
private theorem justified_of_executes {host : Host} {call : Call} {token : ApprovalToken}
    {requestId deviceId : String} (done : List Deed) (o : Op)
    (ho : o.Executes token requestId deviceId) (hnote : ∀ n, o ≠ .note n)
    (hstart : ∀ info authority, o ≠ .startProcess info authority) : Justified host call done o := by
  cases o <;> first | exact True.intro | exact ho.elim | skip
  · exact absurd rfl (hstart _ _)
  · exact absurd rfl (hnote _)

/-- A call that may execute the token obeys the protocol when it does. -/
private theorem abides_executeAsync {host : Host} {call : Call} {token : ApprovalToken}
    {requestId rawPath deviceId : String}
    (hcall : ∀ path, WindowsPathRules.tryCanonicalize rawPath = some path →
      Authority.OfCall ⟨token, requestId, path, deviceId⟩ call) :
    Abides (Justified host call)
      (ExecutionEngine.executeAsync host token requestId rawPath deviceId) := fun _ =>
  obeys_executeAsync justified_of_executes (fun s n before _ => ⟨s, n, before, rfl, rfl⟩)
    fun path e _ hpath hsupports => ⟨hcall path hpath, ⟨e, hsupports⟩, rfl⟩

/-- Every call obeys the protocol of executions. -/
theorem follows_justified (host : Host) (accepts : Tid → Call → Bool) :
    (system host accepts).Follows (Justified host) := by
  intro i call program hprogram
  simp only [system] at hprogram
  split at hprogram
  · obtain rfl := Option.some.inj hprogram
    cases call with
    | pollingWorker ticks =>
      refine Abides.map (abides_pollingWorker (fun done o ho => ?_) ?_) []
      · cases o <;> first | exact True.intro | exact ho.elim | skip
        next n => cases n <;> first | exact True.intro | exact ho.elim
      · exact fun _ _ _ _ => abides_executeAsync fun _ _ => trivial
    | submit rawFilePath reason =>
      refine (Abides.of_within within_submitAsync fun done o ho => ?_).map []
      cases o <;> first | exact True.intro | exact ho.elim
    | getStatus requestId =>
      have hwithin : (RequestCoordinator.getStatus requestId).Within
          fun o => ∃ id, o = .getValueOrDefault id := within_getStatus fun id => ⟨id, rfl⟩
      refine (Abides.of_within hwithin ?_).map []
      rintro done o ⟨id, rfl⟩
      trivial
    | execute token expectedRequestId rawPath deviceId =>
      refine Abides.map (abides_executeAsync fun path hpath => ?_) []
      exact ⟨rfl, rfl, rfl, hpath⟩
    | validate token expectedDeviceId expectedRequestId currentFileSha256Hex =>
      refine Abides.map (fun done => ?_) []
      refine (obeys_validateAsync ?_ fun s n before _ => ⟨s, n, before, rfl, rfl⟩).mono
        fun _ _ _ => trivial
      intro done o ho hn
      cases o <;> first | exact True.intro | exact ho.elim | exact absurd rfl (hn _)
  · contradiction

end ElevateGate.Agent
