import ElevateGate.Backend.Endpoints
import ElevateGate.Interaction.System

/-!
# The backend as a system

Any number of sessions, each serving one call, over one database. Sessions may be killed and the
server may crash at any point; other transactions change devices, administrators and allowlist
entries; time passes.
-/

namespace ElevateGate.Backend

open Interaction Time

/-- A call of an endpoint, with the rate limiter's decision where the endpoint is limited. -/
inductive Call
  | submitElevationRequest (credentials : Option BasicCredentials) (body : ElevationRequestCreate)
    (admitted : Bool)
  | agentSubmitRequest (credentials : Option String) (body : AgentApprovalRequest) (admitted : Bool)
  | approveElevationRequest (elevationRequestId : Nat) (credentials : Option String)
  | denyElevationRequest (elevationRequestId : Nat) (reason credentials : Option String)
  | getDecisions (since : Option Datetime) (credentials : Option BasicCredentials) (admitted : Bool)
  | agentPollDecisions (deviceId : String) (since : Option Datetime) (credentials : Option String)
    (admitted : Bool)
  | markApprovalConsumed (approvalId : Nat) (credentials : Option BasicCredentials)
    (admitted : Bool)

/-- The answer of an endpoint. -/
inductive Answer
  | elevationRequest (read : ElevationRequestRead)
  | requestId (text : String)
  | decisions (list : List DecisionRead)
  | agentDecisions (list : List AgentApprovalDecision)
  | approval (row : Approval)

/-- The endpoint that a call runs. -/
def endpoint (deployment : Deployment) : Call → Handler Answer
  | .submitElevationRequest credentials body admitted =>
    .elevationRequest <$> submitElevationRequest deployment credentials body admitted
  | .agentSubmitRequest credentials body admitted =>
    .requestId <$> agentSubmitRequest deployment credentials body admitted
  | .approveElevationRequest elevationRequestId credentials =>
    .elevationRequest <$> approveElevationRequest deployment elevationRequestId credentials
  | .denyElevationRequest elevationRequestId reason credentials =>
    .elevationRequest <$> denyElevationRequest deployment elevationRequestId reason credentials
  | .getDecisions since credentials admitted =>
    .decisions <$> getDecisions deployment since credentials admitted
  | .agentPollDecisions deviceId since credentials admitted =>
    .agentDecisions <$> agentPollDecisions deployment deviceId since credentials admitted
  | .markApprovalConsumed approvalId credentials admitted =>
    .approval <$> markApprovalConsumed deployment approvalId credentials admitted

/-- Serve a call in a session of its own, which is closed whether the endpoint answers or raises. -/
def serve (deployment : Deployment) (call : Call) : Handler Answer :=
  (endpoint deployment call).finally_ Handler.close

/-- What happens beside the sessions. -/
inductive Event
  /-- Time passes. -/
  | advance (clock : Datetime)
  /-- Another transaction commits a change of a device, an administrator or an allowlist entry. -/
  | maintain (k : Key) (version : Option (Row k))
  /-- Another transaction commits several such changes at once, as the deletion of a group does. -/
  | transact (rows : List (Σ k : Key, Option (Row k)))

/-- Whether a change may be committed by a transaction that none of the modelled endpoints runs. No
endpoint deletes a device or gives it another UUID. -/
def maintainable (s : State) : (k : Key) → Option (Row k) → Bool
  | ⟨.devices, id⟩, version =>
    (s.db.dirty ⟨.devices, id⟩).isNone &&
      (s.db.committed ⟨.devices, id⟩).all fun old =>
        version.any fun new => decide (Device.deviceUuid new.record = Device.deviceUuid old.record)
  | ⟨.appAllowlistEntries, id⟩, _ => (s.db.dirty ⟨.appAllowlistEntries, id⟩).isNone
  | ⟨.adminUsers, id⟩, _ => (s.db.dirty ⟨.adminUsers, id⟩).isNone
  | ⟨.elevationRequests, _⟩, _ => false
  | ⟨.approvals, _⟩, _ => false
  | ⟨.auditLogs, _⟩, _ => false

/-- Commit a change of one row. -/
def State.maintain (s : State) (k : Key) (version : Option (Row k)) : State :=
  { s with db := { s.db with committed := Function.update s.db.committed k version }
           nextId := Function.update s.nextId k.table (max (s.nextId k.table) (k.id + 1)) }

/-- Commit several changes. -/
def State.transact (s : State) : List (Σ k : Key, Option (Row k)) → Option State
  | [] => some s
  | ⟨k, version⟩ :: rest =>
    if maintainable s k version then (s.maintain k version).transact rest else none

/-- What happens to the shared state at an event. -/
def env : Event → State → Option State
  | .advance clock, s => if s.clock ≤ clock then some { s with clock := clock } else none
  | .maintain k version, s => if maintainable s k version then some (s.maintain k version) else none
  | .transact rows, s => s.transact rows

/-- The database server loses every open transaction. -/
def State.crash (s : State) : State :=
  { s with db := s.db.crash, txStart := fun _ => none }

/-- The backend. -/
def system (deployment : Deployment) :
    System Op Res PyError Answer Sid Choice Event Call State where
  program _ call := some (serve deployment call)
  perform i := perform deployment.sign i
  env := env
  stop i s := s.rollback i
  reset s := some s.crash

/-- A database in which no elevation request was ever made. -/
structure State.Initial (s : State) : Prop where
  dirty : ∀ k, s.db.dirty k = none
  bounded : ∀ k, s.nextId k.table ≤ k.id → s.db.committed k = none
  requests : ∀ id, s.db.committed ⟨.elevationRequests, id⟩ = none
  approvals : ∀ id, s.db.committed ⟨.approvals, id⟩ = none
  signed : s.signed = []

end ElevateGate.Backend
