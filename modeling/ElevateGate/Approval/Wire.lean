import ElevateGate.Agent.Models
import ElevateGate.Backend.Consistency
import ElevateGate.Platform.Json

/-!
# Decisions on the wire

A decision leaves the backend as a JSON object and reaches the agent as an `ApprovalDecision`. The
trip changes the representation of every field and none of what the payload says, so the agent
verifies the very bytes that the backend signed.
-/

namespace ElevateGate

open Interaction Time Text

/-- A token as a JSON object: the text of each property. -/
structure TokenJson where
  deviceId : String
  requestId : String
  sha256Hex : String
  expiresAtUtc : String
  nonce : String
  signature : String
  deriving DecidableEq

/-- A decision as a JSON object. -/
structure DecisionJson where
  requestId : String
  status : String
  token : Option TokenJson
  deriving DecidableEq

namespace Backend

/-- The value of a status. -/
def ElevationRequestStatus.value : ElevationRequestStatus → String
  | .pending => "pending"
  | .approved => "approved"
  | .denied => "denied"
  | .expired => "expired"

/-- How pydantic writes a token. A UUID is written with hyphens in lower case. -/
def AgentApprovalToken.toJson (dates : JsonDates) (token : AgentApprovalToken) : TokenJson where
  deviceId := token.deviceId.textD
  requestId := token.requestId.textD
  sha256Hex := token.sha256Hex
  expiresAtUtc := dates.write token.expiresAtUtc
  nonce := token.nonce
  signature := token.signature

/-- How pydantic writes a decision. -/
def AgentApprovalDecision.toJson (dates : JsonDates) (decision : AgentApprovalDecision) :
    DecisionJson where
  requestId := decision.requestId.textD
  status := decision.status.value
  token := decision.token.map (·.toJson dates)

end Backend

namespace Agent

/-- How the agent reads the name of a status, which is written in camel case. -/
def RequestStatus.ofJson : String → Option RequestStatus
  | "pending" => some .pending
  | "approved" => some .approved
  | "denied" => some .denied
  | "expired" => some .expired
  | "failed" => some .failed
  | _ => none

/-- The agent's status for a status of the backend. -/
def RequestStatus.ofBackend : Backend.ElevationRequestStatus → RequestStatus
  | .pending => .pending
  | .approved => .approved
  | .denied => .denied
  | .expired => .expired

/-- How the agent reads a token, unless its date or its base64 text is malformed. -/
def ApprovalToken.ofJson (dates : JsonDates) (json : TokenJson) : Option ApprovalToken := do
  let expiresAtUtc ← dates.read json.expiresAtUtc
  let signature ← Base64.decode .standard json.signature.toList
  return { deviceId := json.deviceId
           requestId := json.requestId
           sha256Hex := json.sha256Hex
           expiresAtUtc := expiresAtUtc
           nonce := json.nonce
           signature := signature }

/-- How the agent reads a decision. -/
def ApprovalDecision.ofJson (dates : JsonDates) (json : DecisionJson) :
    Option ApprovalDecision := do
  let status ← RequestStatus.ofJson json.status
  let token ← json.token.elim (some none) fun token => some <$> ApprovalToken.ofJson dates token
  return { requestId := json.requestId
           status := status
           token := token }

end Agent

section Trip

open Backend Agent

variable {dates : JsonDates} {casing casing' : Casing}

/-- The name of a status is read back. -/
theorem ofJson_value (status : ElevationRequestStatus) :
    RequestStatus.ofJson status.value = some (.ofBackend status) := by
  cases status <;> rfl

/-- The token of an approval arrives with every field as the backend wrote it. -/
theorem ofJson_ofRows (dates : JsonDates) (r : ElevationRequest) (a : Approval) :
    ∃ token, ApprovalToken.ofJson dates ((AgentApprovalToken.ofRows r a).toJson dates) = some token ∧
      token.deviceId = some a.deviceUuid.textD ∧ token.requestId = some r.requestUuid.textD ∧
      token.sha256Hex = some a.sha256.text ∧ token.expiresAtUtc.utcTicks = 10 * a.expiresAt.micros ∧
      token.nonce = some a.nonce ∧ token.signature = some a.signature := by
  obtain ⟨t, hread, hticks⟩ := dates.read_write a.expiresAt
  have hdecode : Base64.decode .standard (b64encode a.signature).toList = some a.signature := by
    rw [b64encode, String.toList_ofList, Base64.decode_encode]
  refine ⟨⟨a.deviceUuid.textD, r.requestUuid.textD, a.sha256.text, t, a.nonce, a.signature⟩, ?_,
    rfl, rfl, rfl, hticks, rfl, rfl⟩
  simp [ApprovalToken.ofJson, AgentApprovalToken.toJson, AgentApprovalToken.ofRows, hread, hdecode]

/-- A decision arrives, with the request's identifier in lower case and hyphens. -/
theorem ofJson_decision (dates : JsonDates) (row : ElevationRequest × Option Approval) :
    ∃ decision, ApprovalDecision.ofJson dates ((AgentApprovalDecision.ofRows row).toJson dates)
        = some decision ∧
      decision.requestId = some row.1.requestUuid.textD ∧
      decision.status = .ofBackend row.1.status := by
  obtain ⟨r, approval⟩ := row
  cases approval with
  | none =>
    refine ⟨⟨r.requestUuid.textD, .ofBackend r.status, none⟩, ?_, rfl, rfl⟩
    simp [ApprovalDecision.ofJson, AgentApprovalDecision.toJson, AgentApprovalDecision.ofRows,
      ofJson_value]
  | some a =>
    obtain ⟨token, htoken, -⟩ := ofJson_ofRows dates r a
    refine ⟨⟨r.requestUuid.textD, .ofBackend r.status, token⟩, ?_, rfl, rfl⟩
    simp [ApprovalDecision.ofJson, AgentApprovalDecision.toJson, AgentApprovalDecision.ofRows,
      ofJson_value, htoken]

/-- From year 1000 on, both programs build one payload from fields that say the same. -/
theorem build_of_buildCanonicalPayload {deviceUuid requestUuid nonce : String} {sha256 : Sha256Hex}
    {expiresAt : Datetime} {expiresAtUtc : DateTimeOffset} {payload : List UInt8}
    (hyear : 1000 ≤ expiresAt.civil.year) (hticks : expiresAtUtc.utcTicks = 10 * expiresAt.micros)
    (h : Signing.buildCanonicalPayload casing deviceUuid requestUuid sha256.text expiresAt nonce
      = .ok payload) :
    CanonicalApprovalPayload.build casing' deviceUuid requestUuid sha256.text expiresAtUtc nonce
      = .ok payload := by
  refine build_eq_ok.mpr ⟨_, _, _, _, rfl, rfl, rfl, rfl, ?_⟩
  have hlower : casing'.lower sha256.text = casing.lower sha256.text :=
    lower_congr sha256.isHex_text
  rw [← buildCanonicalPayload_eq_ok.mp h]
  simp only [agentFields, backendFields, ← formatDotnetRoundTrip_eq hyear hticks,
    toLowerInvariant_eq_lower sha256.isHex_text, hlower]

/-- The agent verifies the very bytes that the backend signed, for every approval of every reachable
state. -/
theorem verified_bytes_are_signed {deployment : Deployment} {s : Backend.State}
    {labels : List (Label Sid Backend.Choice Backend.Event Backend.Call)}
    {c : Config Backend.Op Backend.Res PyError Backend.Answer Sid Backend.Call Backend.State}
    {aid : Nat} {a : Approval} {r : ElevationRequest} (hinit : s.Initial)
    (hrun : (Backend.system deployment).run labels (System.init s) = some c)
    (ha : c.shared.approval aid = some a) (hr : c.shared.request a.elevationRequestId = some r)
    (hyear : 1000 ≤ a.expiresAt.civil.year) (dates : JsonDates) (casing : Casing) :
    ∃ payload token,
      Signing.buildCanonicalPayload deployment.casing a.deviceUuid.textD r.requestUuid.textD
        a.sha256.text a.expiresAt a.nonce = .ok payload ∧
      a.signature = deployment.sign payload ∧
      ApprovalToken.ofJson dates ((AgentApprovalToken.ofRows r a).toJson dates) = some token ∧
      CanonicalApprovalPayload.build casing token.deviceId token.requestId token.sha256Hex
        token.expiresAtUtc token.nonce = .ok payload ∧
      token.signature = some a.signature := by
  have hinv := (reachable_inv hinit hrun (show (system deployment).run [] _ = _ from rfl)).1
  obtain ⟨r', hr', -, hbinds⟩ := hinv.linked.binds aid a ha
  obtain rfl : r = r' := Option.some.inj (hr.symm.trans hr')
  obtain ⟨payload, hpayload, hsignature⟩ := hbinds.signature
  obtain ⟨token, htoken, hdevice, hrequest, hsha256, hticks, hnonce, hsig⟩ :=
    ofJson_ofRows dates r a
  refine ⟨payload, token, hpayload, hsignature, htoken, ?_, hsig⟩
  rw [hdevice, hrequest, hsha256, hnonce]
  exact build_of_buildCanonicalPayload hyear hticks hpayload

/-- The approval of a run is such an approval. -/
theorem verified_bytes_are_signed_sample :
    ∃ a r payload token, a.expiresAt.civil.year = 2025 ∧
      a.signature = Backend.Sample.deployment.sign payload ∧
      ApprovalToken.ofJson .iso ((AgentApprovalToken.ofRows r a).toJson .iso) = some token ∧
      CanonicalApprovalPayload.build .ascii token.deviceId token.requestId token.sha256Hex
        token.expiresAtUtc token.nonce = .ok payload := by
  have hrun : ((Backend.system Backend.Sample.deployment).run
      (Backend.Sample.submission ++ Backend.Sample.approval)
      (System.init Backend.Sample.database)).bind (fun c => (c.shared.approval 0).bind fun a =>
        (c.shared.request a.elevationRequestId).map fun _ => a.expiresAt.civil.year) =
      some 2025 := by
    decide +kernel
  obtain ⟨c, hc, hrows⟩ := Option.bind_eq_some_iff.mp hrun
  obtain ⟨a, ha, hrows⟩ := Option.bind_eq_some_iff.mp hrows
  obtain ⟨r, hr, hyear⟩ := Option.map_eq_some_iff.mp hrows
  obtain ⟨payload, token, -, hsignature, htoken, hbuild, -⟩ :=
    verified_bytes_are_signed Backend.Sample.database_initial hc ha hr (by omega) .iso .ascii
  exact ⟨a, r, payload, token, hyear, hsignature, htoken, hbuild⟩

end Trip

end ElevateGate
