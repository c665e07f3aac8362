import ElevateGate.Backend.Machine

/-!
# Heartbeats

The heartbeats of the devices and the administrator's request that a device update itself. The request
notes the version that the device last reported; a heartbeat of the agent that reports another one says
that the update has landed, and takes the request back.
-/

namespace ElevateGate.Backend.Heartbeats

open Interaction Time Text Handler

/-- What a heartbeat may report. -/
structure Report where
  agentVersion : Option String
  diskTotalBytes : Option Nat := none
  diskFreeBytes : Option Nat := none
  ramTotalBytes : Option Nat := none
  ramUsedBytes : Option Nat := none
  deriving DecidableEq

/-- Whether what is reported fits the columns of `devices`. -/
def Report.fitsColumns (report : Report) : Bool :=
  report.agentVersion.all (fitsColumn (some 50)) && report.diskTotalBytes.all fitsBigInteger &&
    report.diskFreeBytes.all fitsBigInteger && report.ramTotalBytes.all fitsBigInteger &&
    report.ramUsedBytes.all fitsBigInteger

/-- The body of the agent's heartbeat, after validation. -/
structure AgentHeartbeatRequest extends Report
  deriving DecidableEq

/-- What the agent is answered. -/
structure AgentHeartbeatResponse where
  updateRequested : Bool
  deriving DecidableEq

/-- The body of the dashboard-facing heartbeat, after validation. -/
structure DeviceHeartbeatRequest where
  agentVersion : Option String

/-- What that device is answered. -/
structure DeviceHeartbeatResponse where
  deviceUuid : Uuid
  lastSeen : Option Datetime
  enrollmentStatus : EnrollmentStatus

/-- What the backend is deployed with. `reloads` says whether the rows that an `UPDATE ... RETURNING`
returns replace the columns of an object that the session has loaded before, or only those that the
statement sets. -/
structure Site extends Deployment where
  reloads : Bool

section Endpoints

variable (site : Site)

/-- The columns that a heartbeat sets: those of the telemetry all or none. -/
def beat (seenAt : Datetime) (report : Report) (telemetryAt : Option Datetime) (d : Device) : Device :=
  { d with
    lastSeen := some seenAt
    agentVersion := report.agentVersion.or d.agentVersion
    lastTelemetryAt := telemetryAt.or d.lastTelemetryAt
    diskTotalBytes := if telemetryAt.isSome then report.diskTotalBytes else d.diskTotalBytes
    diskFreeBytes := if telemetryAt.isSome then report.diskFreeBytes else d.diskFreeBytes
    ramTotalBytes := if telemetryAt.isSome then report.ramTotalBytes else d.ramTotalBytes
    ramUsedBytes := if telemetryAt.isSome then report.ramUsedBytes else d.ramUsedBytes }

/-- `device_repository.record_heartbeat`, for a device that the session has loaded. -/
def recordHeartbeat (device : Device) (seenAt : Datetime) (report : Report)
    (telemetryAt : Option Datetime) : Handler Device := do
  if !report.fitsColumns then raise .dbapiError
  else
    let some updated ← updateWhere .devices device.id (fun _ => true)
        (beat seenAt report telemetryAt) fun _ => rfl
      | raise .noResultFound
    return if site.reloads then updated else beat seenAt report telemetryAt device

/-- `device_repository.request_update`. -/
def requestUpdate (deviceId : Nat) (requestedAt : Datetime) : Handler (Option Device) := do
  let some device ← DeviceRepository.getById deviceId
    | return none
  updateWhere .devices deviceId (fun _ => true)
    (fun d => { d with updateRequestedAt := some requestedAt
                       updateRequestedFromVersion := device.agentVersion : Device }) fun _ => rfl

/-- `device_repository.clear_update_requested`. -/
def clearUpdateRequested (deviceId : Nat) : Handler Unit := do
  let _ ← updateWhere .devices deviceId (fun _ => true)
    (fun d => { d with updateRequestedAt := none, updateRequestedFromVersion := none : Device })
    fun _ => rfl

/-- Whether a heartbeat says that the requested update has landed: it reports another version than the
request has noted. -/
def landed (device : Device) (agentVersion : Option String) : Bool :=
  device.updateRequestedAt.isSome && agentVersion.isSome &&
    decide (agentVersion ≠ device.updateRequestedFromVersion)

/-- `POST /heartbeat`. -/
def agentHeartbeat (credentials : Option String) (body : AgentHeartbeatRequest) (admitted : Bool) :
    Handler AgentHeartbeatResponse := do
  let device ← getCurrentDeviceBearer site.toDeployment credentials
  limit admitted
  let now ← Handler.now
  let updated ← recordHeartbeat site device now body.toReport (some now)
  if landed updated body.agentVersion then
    clearUpdateRequested device.id
    commit
    return { updateRequested := false }
  else
    commit
    return { updateRequested := updated.updateRequestedAt.isSome }

/-- `POST /devices/heartbeat`. -/
def heartbeat (credentials : Option BasicCredentials) (body : DeviceHeartbeatRequest)
    (admitted : Bool) : Handler DeviceHeartbeatResponse := do
  let device ← getCurrentDevice site.toDeployment credentials
  limit admitted
  let now ← Handler.now
  let updated ← recordHeartbeat site device now { agentVersion := body.agentVersion } none
  commit
  return { deviceUuid := updated.deviceUuid
           lastSeen := updated.lastSeen
           enrollmentStatus := updated.enrollmentStatus }

/-- `POST /devices/{device_id}/request-update`, answered with the device as it is read back. -/
def requestDeviceUpdate (deviceId : Nat) (credentials : Option String) : Handler Device := do
  let admin ← requireRole site.toDeployment [.admin, .reviewer] credentials
  let now ← Handler.now
  let some updated ← requestUpdate deviceId now
    | httpError 404 "Device not found."
  writeAuditLog .admin (toString admin.id) "device.update_requested" "device" (toString deviceId)
    (some [])
  commit
  let some device ← DeviceRepository.getById updated.id
    | raise .attributeError
  return device

/-- A call of one of the endpoints, with the rate limiter's decision where the endpoint is limited. -/
inductive Call
  | agentHeartbeat (credentials : Option String) (body : AgentHeartbeatRequest) (admitted : Bool)
  | heartbeat (credentials : Option BasicCredentials) (body : DeviceHeartbeatRequest) (admitted : Bool)
  | requestDeviceUpdate (deviceId : Nat) (credentials : Option String)

/-- The answer of one of the endpoints. -/
inductive Answer
  | agentHeartbeat (response : AgentHeartbeatResponse)
  | heartbeat (response : DeviceHeartbeatResponse)
  | device (row : Device)

/-- The endpoint that a call runs. -/
def endpoint : Call → Handler Answer
  | .agentHeartbeat credentials body admitted =>
    .agentHeartbeat <$> agentHeartbeat site credentials body admitted
  | .heartbeat credentials body admitted => .heartbeat <$> heartbeat site credentials body admitted
  | .requestDeviceUpdate deviceId credentials =>
    .device <$> requestDeviceUpdate site deviceId credentials

/-- Serve a call in a session of its own, which is closed whether the endpoint answers or raises. -/
def serve (call : Call) : Handler Answer := (endpoint site call).finally_ Handler.close

/-- Whether some committed device has the UUID. -/
def registered (s : State) (u : Uuid) : Bool :=
  (List.range (s.nextId .devices)).any fun id =>
    (s.db.committed ⟨.devices, id⟩).any fun row => decide (Device.deviceUuid row.record = u)

/-- Whether a change may be committed by a transaction of another endpoint. No other endpoint deletes a
device, changes what identifies or authenticates it, or touches the request for an update; a new device
has a new UUID. -/
def foreign (s : State) : (k : Key) → Option (Row k) → Bool
  | ⟨.devices, id⟩, version =>
    (s.db.dirty ⟨.devices, id⟩).isNone &&
      match s.db.committed ⟨.devices, id⟩ with
      | some old => version.any fun new =>
        decide (Device.deviceUuid new.record = Device.deviceUuid old.record) &&
          decide (Device.deviceSecretHash new.record = Device.deviceSecretHash old.record) &&
          decide (Device.updateRequestedAt new.record = Device.updateRequestedAt old.record) &&
          decide (Device.updateRequestedFromVersion new.record =
            Device.updateRequestedFromVersion old.record)
      | none => version.all fun new => !registered s (Device.deviceUuid new.record)
  | k, _ => (s.db.dirty k).isNone

/-- Commit the changes of such a transaction. -/
def transact (s : State) : List (Σ k : Key, Option (Row k)) → Option State
  | [] => some s
  | ⟨k, version⟩ :: rest =>
    if foreign s k version then transact (s.maintain k version) rest else none

/-- What happens beside these calls. -/
inductive Event
  /-- Time passes. -/
  | advance (clock : Datetime)
  /-- A transaction of another endpoint commits its changes. -/
  | transact (rows : List (Σ k : Key, Option (Row k)))

/-- What happens to the shared state at an event. -/
def env : Event → State → Option State
  | .advance clock, s => if s.clock ≤ clock then some { s with clock := clock } else none
  | .transact rows, s => transact s rows

/-- The calls that are accepted, over one database. -/
def system (accepts : Call → Bool) : System Op Res PyError Answer Sid Choice Event Call State where
  program _ call := if accepts call then some (serve site call) else none
  perform i := perform site.sign i
  env := env
  stop i s := s.rollback i
  reset s := some s.crash

end Endpoints

end ElevateGate.Backend.Heartbeats
