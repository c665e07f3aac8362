import ElevateGate.Backend.Approvals

/-!
# Consistency of requests and approvals

What every reachable committed state looks like to someone who reads the two tables, and what can
no longer change once it has been committed.
-/

namespace ElevateGate.Backend

open Interaction Time Text

/-- What the committed requests and approvals say about each other. -/
structure State.Consistent (deployment : Deployment) (s : State) : Prop where
  approved : ∀ id r, s.request id = some r →
    (r.status = .approved ↔ ∃! aid, ∃ a, s.approval aid = some a ∧ a.elevationRequestId = id)
  unapproved : ∀ id r, s.request id = some r → r.status ≠ .approved →
    ∀ aid a, s.approval aid = some a → a.elevationRequestId ≠ id
  binds : ∀ aid a, s.approval aid = some a → ∃ r d payload,
    s.request a.elevationRequestId = some r ∧ s.device r.deviceId = some d ∧
      a.deviceUuid = d.deviceUuid ∧ a.sha256 = r.sha256 ∧
      Signing.buildCanonicalPayload deployment.casing a.deviceUuid.textD r.requestUuid.textD
        a.sha256.text a.expiresAt a.nonce = .ok payload ∧
      a.signature = deployment.sign payload
  reviewed : ∀ id r, s.request id = some r → (r.reviewedAt ≠ none ↔ r.status ≠ .pending)

/-- What a later committed state has to agree with. -/
structure State.Settled (s s' : State) : Prop where
  decided : ∀ id r, s.request id = some r → r.status ≠ .pending →
    ∃ r', s'.request id = some r' ∧ r'.status = r.status ∧ r'.reviewedBy = r.reviewedBy ∧
      r'.reviewedAt = r.reviewedAt
  consumed : ∀ aid a, s.approval aid = some a → a.consumedAt ≠ none →
    ∃ a', s'.approval aid = some a' ∧ a'.consumedAt = a.consumedAt

section Runs

variable {deployment : Deployment} {s s' : State}

/-- The invariant makes the committed rows consistent. -/
theorem Inv.consistent (hinv : Inv deployment s) : s.Consistent deployment where
  approved id r hr := by
    constructor
    · intro hstatus
      obtain ⟨aid, a, ha, hid⟩ := hinv.linked.approved id r hr hstatus
      refine ⟨aid, ⟨a, ha, hid⟩, ?_⟩
      rintro aid' ⟨a', ha', hid'⟩
      exact hinv.linked.unique aid' aid a' a ha' ha (hid'.trans hid.symm)
    · rintro ⟨aid, ⟨a, ha, rfl⟩, -⟩
      obtain ⟨r', hr', hstatus, -⟩ := hinv.linked.binds aid a ha
      rw [hr] at hr'
      rwa [Option.some.inj hr']
  unapproved id r hr hstatus aid a ha hid := by
    obtain ⟨r', hr', happroved, -⟩ := hinv.linked.binds aid a ha
    rw [hid, hr] at hr'
    rw [← Option.some.inj hr'] at happroved
    exact hstatus happroved
  binds aid a ha := by
    obtain ⟨r, hr, -, ⟨d, hd, huuid⟩, hsha256, payload, hpayload, hsignature⟩ :=
      hinv.linked.binds aid a ha
    exact ⟨r, d, payload, hr, hd, huuid.symm, hsha256, hpayload, hsignature⟩
  reviewed id r hr := by
    exact Option.isSome_iff_ne_none.symm.trans (hinv.linked.reviewed id r hr)

/-- Evolution leaves settled what was settled. -/
theorem Evolves.settled (h : Evolves s s') : s.Settled s' where
  decided id r hr hstatus := by
    obtain ⟨r', hr', hdecides⟩ := h.request id r hr
    exact ⟨r', hr', hdecides.final hstatus⟩
  consumed aid a ha hconsumed := by
    obtain ⟨a', ha', hconsumes⟩ := h.approval aid a ha
    exact ⟨a', ha', hconsumes.once (Option.isSome_iff_ne_none.mpr hconsumed)⟩

/-- In every state that any interleaving of sessions reaches, the committed requests and approvals
are consistent, and what is settled there stays settled in every state reached from it. -/
theorem approvals_consistent {labels labels' : List (Label Sid Choice Event Call)}
    {c c' : Config Op Res PyError Answer Sid Call State} (hinit : s.Initial)
    (hrun : (system deployment).run labels (System.init s) = some c)
    (hrun' : (system deployment).run labels' c = some c') :
    c.shared.Consistent deployment ∧ c.shared.Settled c'.shared := by
  obtain ⟨hinv, -, hevolves⟩ := reachable_inv hinit hrun hrun'
  exact ⟨hinv.consistent, hevolves.settled⟩

end Runs

/-! ## A run

One device submits a request and an administrator approves it. -/

namespace Sample

/-- Noon of some day in 2025. -/
def noon : Datetime := ⟨63900000000000000, by decide⟩

/-- The UUID of the device. -/
def deviceUuid : Uuid := .repeated 10

/-- The UUID of the request. -/
def requestUuid : Uuid := .repeated 11

/-- The enrolled device. -/
def device : Device where
  id := 0
  deviceUuid := deviceUuid
  hostname := "workstation"
  operatingSystem := "Windows 11"
  agentVersion := none
  lastSeen := none
  enrollmentStatus := .active
  deviceSecretHash := "secret"
  createdAt := noon
  groupId := none
  updateRequestedAt := none
  updateRequestedFromVersion := none

/-- The administrator. -/
def admin : AdminUser where
  id := 0
  email := "admin@example.org"
  name := "Administrator"
  passwordHash := ""
  role := .admin
  isActive := true
  createdAt := noon

/-- The database before the first request. -/
def database : State where
  db :=
    { committed := fun
        | ⟨.devices, 0⟩ => some ⟨device, rfl⟩
        | ⟨.adminUsers, 0⟩ => some ⟨admin, rfl⟩
        | _ => none
      dirty := fun _ => none }
  nextId t := if t = .devices ∨ t = .adminUsers then 1 else 0
  txStart _ := none
  clock := noon
  signed := []

/-- A deployment in which a signature is the start of the message and an access token names its
subject. -/
def deployment : Deployment where
  casing := .ascii
  settings := ⟨300, 3600⟩
  sign payload := payload.take 64
  verifySecret secret hash := secret == hash
  decodeAccessToken _ token := if token = "token" then some (some 0) else none

/-- The digest of the empty file. -/
def emptyDigest : Sha256Hex where
  text := "E3B0C44298FC1C149AFBF4C8996FB92427AE41E4649B934CA495991B7852B855"
  isHex_text := by decide
  length_text := by decide

/-- What the agent submits. -/
def body : AgentApprovalRequest where
  requestId := requestUuid
  deviceId := deviceUuid
  fileName := "setup.exe"
  fullPath := "C:\\Downloads\\setup.exe"
  sizeBytes := 0
  fileVersion := none
  sha256Hex := emptyDigest
  trustStatus := .unsigned
  publisherCommonName := none
  certificateThumbprint := none
  reason := "installation"
  requestedAtUtc := noon

/-- A query over tables of the given sizes. -/
def order (requests approvals audits : Nat) : Choice :=
  .order fun
    | .devices => [0]
    | .elevationRequests => List.range requests
    | .approvals => List.range approvals
    | .auditLogs => List.range audits
    | .appAllowlistEntries => []
    | .adminUsers => [0]

/-- The steps of the submission. -/
def submission : List (Label Sid Choice Event Call) :=
  [.spawn 0 (.agentSubmitRequest (some (deviceUuid.textD ++ ".secret")) body true),
    .perform 0 (order 0 0 0), .perform 0 .unit, .perform 0 .unit, .perform 0 .unit,
    .perform 0 .unit, .perform 0 .unit]

/-- The steps of the approval. -/
def approval : List (Label Sid Choice Event Call) :=
  [.spawn 1 (.approveElevationRequest 0 (some "token")), .perform 1 .unit,
    .perform 1 (order 1 0 1), .perform 1 (order 1 0 1), .perform 1 .unit, .perform 1 .unit,
    .perform 1 .unit, .perform 1 (order 1 0 1), .perform 1 .unit,
    .perform 1 (.bytes (List.replicate 24 7)), .perform 1 .unit, .perform 1 .unit,
    .perform 1 .unit, .perform 1 .unit, .perform 1 (order 1 1 2), .perform 1 .unit]

/-- The device and the administrator are all there is. -/
theorem database_initial : database.Initial where
  dirty _ := rfl
  bounded k hk := by
    obtain ⟨t, id⟩ := k
    cases t <;> cases id <;> first | rfl | simp [database] at hk
  requests _ := rfl
  approvals _ := rfl
  signed := rfl

/-- Both calls run to their end, and the request is approved. -/
theorem run_approved :
    ∃ c c', (system deployment).run submission (System.init database) = some c ∧
      (system deployment).run approval c = some c' ∧
      (c'.shared.request 0).map ElevationRequest.status = some .approved := by
  have hrun : (((system deployment).run submission (System.init database)).bind
      ((system deployment).run approval)).map
        (fun c => (c.shared.request 0).map ElevationRequest.status) = some (some .approved) := by
    decide +kernel
  obtain ⟨c', hc', hstatus⟩ := Option.map_eq_some_iff.mp hrun
  obtain ⟨c, hc, happroval⟩ := Option.bind_eq_some_iff.mp hc'
  exact ⟨c, c', hc, happroval, hstatus⟩

end Sample

/-- The submission and the approval are such runs. -/
theorem approvals_consistent_sample :
    ∃ c c' : Config Op Res PyError Answer Sid Call State,
      (c'.shared.request 0).map ElevationRequest.status = some .approved ∧
      c.shared.Consistent Sample.deployment ∧ c.shared.Settled c'.shared := by
  obtain ⟨c, c', hsubmission, happroval, hstatus⟩ := Sample.run_approved
  exact ⟨c, c', hstatus, approvals_consistent Sample.database_initial hsubmission happroval⟩

end ElevateGate.Backend
