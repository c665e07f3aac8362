import ElevateGate.Backend.Directory

/-!
# Enrollment

The two endpoints with which a device enrols, as transactions that run beside each other and beside
whatever the other endpoints commit. Both look the device up and then insert it; only the unique index
keeps two of them from enrolling one device twice.
-/

namespace ElevateGate.Backend.Enrollment

open Interaction Time Text Handler

/-- The body of the agent's enrollment, after validation. -/
structure AgentEnrollRequest where
  deviceId : Uuid
  machineName : String
  operatingSystemVersion : String

/-- What the agent is answered. -/
structure AgentEnrollResponse where
  bearerToken : String
  enrolledAtUtc : Datetime

/-- What a device is answered that enrols with Basic credentials in mind. The secret is shown once;
only its hash is kept. -/
structure DeviceEnrollResponse where
  id : Nat
  deviceUuid : Uuid
  deviceSecret : String
  enrollmentStatus : EnrollmentStatus
  createdAt : Datetime

/-- What the backend is deployed with, as far as enrollment needs it. -/
structure Site extends Deployment where
  enrollmentKey : String
  /-- The Argon2id hash of a secret under a salt. -/
  hash : String → String → String

section Endpoints

variable (site : Site)

/-- `require_enrollment_key`. -/
def requireEnrollmentKey (xEnrollmentKey : String) : Handler Unit :=
  if xEnrollmentKey ≠ site.enrollmentKey then httpError 401 "Invalid enrollment key."
  else return ()

/-- `generate_device_secret`. -/
def generateDeviceSecret : Handler String := tokenUrlsafe 32

/-- `hash_secret`: the hash under a fresh salt. -/
def hashSecret (plaintext : String) : Handler String := do
  let salt ← tokenUrlsafe 16
  return site.hash salt plaintext

/-- `device_repository.create`. -/
def create (body : DeviceEnrollRequest) (deviceSecretHash : String) : Handler Device :=
  if !body.fitsColumns then raise .dbapiError
  else insert .devices (DeviceRepository.newRow body deviceSecretHash)

/-- Commit the new device with its audit row and read it back. -/
def register (device : Device) : Handler Device := do
  writeAuditLog .device device.deviceUuid.textD "device.enroll" "device" (toString device.id)
    (some [("hostname", .text device.hostname), ("operating_system", .text device.operatingSystem)])
  commit
  let some device ← DeviceRepository.getById device.id
    | raise .attributeError
  return device

/-- What both endpoints do, each with its own answer. -/
def enroll {α : Type} (xEnrollmentKey : String) (body : DeviceEnrollRequest) (admitted : Bool)
    (respond : Device → String → α) : Handler α := do
  requireEnrollmentKey site xEnrollmentKey
  limit admitted
  let existing ← DeviceRepository.getByUuid body.deviceUuid
  if existing.isSome then httpError 409 "Device is already enrolled."
  else
    let secret ← generateDeviceSecret
    let deviceSecretHash ← hashSecret site secret
    let device ← create body deviceSecretHash
    let device ← register device
    return respond device secret

/-- The columns that the agent knows of. It reports no version. -/
def AgentEnrollRequest.device (body : AgentEnrollRequest) : DeviceEnrollRequest where
  deviceUuid := body.deviceId
  hostname := body.machineName
  operatingSystem := body.operatingSystemVersion
  agentVersion := none

/-- `POST /enroll`. -/
def agentEnroll (xEnrollmentKey : String) (body : AgentEnrollRequest) (admitted : Bool) :
    Handler AgentEnrollResponse :=
  enroll site xEnrollmentKey body.device admitted fun device secret =>
    { bearerToken := device.deviceUuid.textD ++ "." ++ secret
      enrolledAtUtc := device.createdAt }

/-- `POST /devices/enroll`. -/
def enrollDevice (xEnrollmentKey : String) (body : DeviceEnrollRequest) (admitted : Bool) :
    Handler DeviceEnrollResponse :=
  enroll site xEnrollmentKey body admitted fun device deviceSecret =>
    { id := device.id
      deviceUuid := device.deviceUuid
      deviceSecret := deviceSecret
      enrollmentStatus := device.enrollmentStatus
      createdAt := device.createdAt }

/-- A call of one of the endpoints, with the rate limiter's decision. -/
inductive Call
  | agentEnroll (xEnrollmentKey : String) (body : AgentEnrollRequest) (admitted : Bool)
  | enrollDevice (xEnrollmentKey : String) (body : DeviceEnrollRequest) (admitted : Bool)

/-- The answer of one of the endpoints. -/
inductive Answer
  | agentEnroll (response : AgentEnrollResponse)
  | enrollDevice (response : DeviceEnrollResponse)

/-- The endpoint that a call runs. -/
def endpoint : Call → Handler Answer
  | .agentEnroll xEnrollmentKey body admitted =>
    .agentEnroll <$> agentEnroll site xEnrollmentKey body admitted
  | .enrollDevice xEnrollmentKey body admitted =>
    .enrollDevice <$> enrollDevice site xEnrollmentKey body admitted

/-- Serve a call in a session of its own, which is closed whether the endpoint answers or raises. -/
def serve (call : Call) : Handler Answer := (endpoint site call).finally_ Handler.close

/-- What happens beside the enrollments. -/
inductive Event
  /-- Time passes. -/
  | advance (clock : Datetime)
  /-- A transaction of another endpoint commits its changes. -/
  | transact (rows : List (Σ k : Key, Option (Row k)))

/-- Whether a change may be committed by a transaction that enrols nobody. No other endpoint adds or
deletes a device, or changes what identifies or authenticates it. -/
def foreign (s : State) : (k : Key) → Option (Row k) → Bool
  | ⟨.devices, id⟩, version =>
    (s.db.dirty ⟨.devices, id⟩).isNone &&
      (s.db.committed ⟨.devices, id⟩).any fun old => version.any fun new =>
        decide (Device.deviceUuid new.record = Device.deviceUuid old.record) &&
          decide (Device.deviceSecretHash new.record = Device.deviceSecretHash old.record)
  | k, _ => (s.db.dirty k).isNone

/-- Commit the changes of such a transaction. -/
def transact (s : State) : List (Σ k : Key, Option (Row k)) → Option State
  | [] => some s
  | ⟨k, version⟩ :: rest =>
    if foreign s k version then transact (s.maintain k version) rest else none

/-- What happens to the shared state at an event. -/
def env : Event → State → Option State
  | .advance clock, s => if s.clock ≤ clock then some { s with clock := clock } else none
  | .transact rows, s => transact s rows

/-- The enrollments over one database. -/
def system : System Op Res PyError Answer Sid Choice Event Call State where
  program _ call := some (serve site call)
  perform i := perform site.sign i
  env := env
  stop i s := s.rollback i
  reset s := some s.crash

end Endpoints

end ElevateGate.Backend.Enrollment
