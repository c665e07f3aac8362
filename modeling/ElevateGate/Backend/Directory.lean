import ElevateGate.Backend.Submissions

/-!
# Devices, groups and the allowlist

The endpoints with which administrators arrange devices in groups and maintain the allowlist, and
with which devices enrol. Each is a transaction that runs alone: it answers with the directory that
it commits, or raises and leaves the directory as it was.
-/

namespace ElevateGate.Backend

open Interaction Time Text

/-- A row of `device_groups`. -/
structure DeviceGroup where
  id : Nat
  name : String
  description : Option String
  createdAt : Datetime
  deriving DecidableEq

/-- The database with its groups. -/
structure Directory where
  state : State
  group : Nat → Option DeviceGroup
  nextGroupId : Nat

/-- What the database does with the rows that refer to a deleted row. -/
inductive OnDelete
  | cascade
  | setNull
  deriving DecidableEq, Repr

/-- The action of `app_allowlist_entries.group_id`. An entry scoped to a group that no longer exists
should not silently become a global rule. -/
def AppAllowlistEntry.onDelete : OnDelete := .cascade

/-- The action of `devices.group_id`. -/
def Device.onDelete : OnDelete := .setNull

/-- Carry out the action on one row. -/
def OnDelete.apply (action : OnDelete) {k : Key} (refers : k.table.Record → Bool)
    (clear : k.table.Record → k.table.Record) (hid : ∀ r, k.table.id (clear r) = k.table.id r)
    (version : Option (Row k)) : Option (Row k) :=
  version.bind fun row =>
    if refers row.record then
      match action with
      | .cascade => none
      | .setNull => some (row.modify clear hid)
    else some row

/-- The committed rows without references to a group. -/
def State.withoutGroup (s : State) (groupId : Nat) : (k : Key) → Option (Row k)
  | ⟨.devices, id⟩ =>
    Device.onDelete.apply (fun r => decide (Device.groupId r = some groupId))
      (fun r => { r with groupId := none : Device }) (fun _ => rfl) (s.db.committed ⟨.devices, id⟩)
  | ⟨.appAllowlistEntries, id⟩ =>
    AppAllowlistEntry.onDelete.apply (fun r => decide (AppAllowlistEntry.groupId r = some groupId))
      (fun r => { r with groupId := none : AppAllowlistEntry }) (fun _ => rfl)
      (s.db.committed ⟨.appAllowlistEntries, id⟩)
  | k => s.db.committed k

/-- Delete a group. The database acts on the rows that refer to it. -/
def State.deleteGroup (s : State) (groupId : Nat) : State :=
  { s with db := { s.db with committed := s.withoutGroup groupId } }

/-- A transaction that runs alone. -/
abbrev Admin (α : Type) := StateT Directory (Except PyError) α

namespace Admin

/-- Raise a Python exception. -/
def raise {α : Type} (error : PyError) : Admin α := fun _ => .error error

/-- Answer with an HTTP error. -/
def httpError {α : Type} (statusCode : Nat) (detail : String) : Admin α :=
  raise (.httpException statusCode detail)

/-- The rows that a `SELECT ... WHERE` returns. -/
def select (t : Table) (condition : t.Record → Bool) : Admin (List t.Record) := do
  let d ← get
  return ((List.range (d.state.nextId t)).filterMap (d.state.com t)).filter condition

/-- `scalar_one_or_none`. -/
def scalarOneOrNone {α : Type} : List α → Admin (Option α)
  | [] => pure none
  | [row] => pure (some row)
  | _ => raise .multipleResultsFound

/-- Store or delete a row. -/
def store (k : Key) (version : Option (Row k)) : Admin Unit :=
  modify fun d => { d with state := d.state.maintain k version }

/-- Add a row and flush it. -/
def insert (t : Table) (make : (id : Nat) → Datetime → Row ⟨t, id⟩) : Admin t.Record := do
  let d ← get
  let row := make (d.state.nextId t) d.state.clock
  if ((List.range (d.state.nextId t)).filterMap (d.state.com t)).any (t.clash row.record) then
    raise .integrityError
  else
    store ⟨t, d.state.nextId t⟩ (some row)
    return row.record

/-- Check the foreign key of a row that refers to a group. -/
def checkGroup (groupId : Option Nat) : Admin Unit := do
  let d ← get
  match groupId with
  | none => return
  | some id => if (d.group id).isSome then return else raise .integrityError

/-- Stage an audit row. -/
def writeAuditLog (actorType : ActorType) (actorId action targetType targetId : String)
    (metadata : Option (List (String × MetadataValue))) : Admin Unit := do
  let _ ← insert .auditLogs fun id now =>
    ⟨{ id := id
       actorType := actorType
       actorId := actorId
       action := action
       targetType := targetType
       targetId := targetId
       metadata := metadata
       timestamp := now : AuditLog }, Eq.refl id⟩

/-- An optional number in an audit row's metadata. -/
def optionalNumber (value : Option Nat) : MetadataValue := value.elim .null .number

end Admin

open Admin

namespace DeviceGroupRepository

/-- Add a group. -/
def create (name : String) (description : Option String) : Admin DeviceGroup := do
  let d ← get
  if !(fitsColumn (some 255) name && description.all (fitsColumn none)) then raise .dbapiError
  else if (List.range d.nextGroupId).any fun id => (d.group id).any fun g => decide (g.name = name) then
    raise .integrityError
  else
    let group : DeviceGroup := ⟨d.nextGroupId, name, description, d.state.clock⟩
    set { d with group := Function.update d.group d.nextGroupId (some group)
                 nextGroupId := d.nextGroupId + 1 }
    return group

/-- The group with a given primary key. -/
def getById (groupId : Nat) : Admin (Option DeviceGroup) := do
  let d ← get
  return d.group groupId

/-- The group with a given name. -/
def getByName (name : String) : Admin (Option DeviceGroup) := do
  let d ← get
  scalarOneOrNone (((List.range d.nextGroupId).filterMap d.group).filter fun g =>
    decide (g.name = name))

/-- Delete a group. -/
def delete (groupId : Nat) : Admin Unit :=
  modify fun d => { d with state := d.state.deleteGroup groupId
                           group := Function.update d.group groupId none }

end DeviceGroupRepository

/-- A new entry of the allowlist, after validation. -/
structure AppAllowlistEntryCreate where
  groupId : Option Nat
  publisher : String
  filename : String
  description : Option String

/-- Whether the entry fits the columns of `app_allowlist_entries`. -/
def AppAllowlistEntryCreate.fitsColumns (body : AppAllowlistEntryCreate) : Bool :=
  fitsColumn (some 500) body.publisher && fitsColumn (some 500) body.filename &&
    body.description.all (fitsColumn none)

namespace AppAllowlistRepository

/-- Add an entry. -/
def create (body : AppAllowlistEntryCreate) (createdBy : Option Nat) :
    Admin AppAllowlistEntry := do
  if !body.fitsColumns then raise .dbapiError
  else
    checkGroup body.groupId
    insert .appAllowlistEntries fun id now =>
      ⟨{ id := id
         groupId := body.groupId
         publisher := body.publisher
         filename := body.filename
         description := body.description
         createdBy := createdBy
         createdAt := now : AppAllowlistEntry }, rfl⟩

/-- The entry with a given primary key. -/
def getById (entryId : Nat) : Admin (Option AppAllowlistEntry) := do
  let rows ← select .appAllowlistEntries fun r => decide (AppAllowlistEntry.id r = entryId)
  scalarOneOrNone rows

/-- Delete an entry. -/
def delete (entry : AppAllowlistEntry) : Admin Unit :=
  store ⟨.appAllowlistEntries, entry.id⟩ none

end AppAllowlistRepository

/-- What a device tells about itself when it enrols. -/
structure DeviceEnrollRequest where
  deviceUuid : Uuid
  hostname : String
  operatingSystem : String
  agentVersion : Option String

/-- Whether what the device tells fits the columns of `devices`. -/
def DeviceEnrollRequest.fitsColumns (body : DeviceEnrollRequest) : Bool :=
  fitsColumn (some 255) body.hostname && fitsColumn (some 255) body.operatingSystem &&
    body.agentVersion.all (fitsColumn (some 50))

namespace DeviceRepository

/-- The row of an active device that belongs to no group. -/
def newRow (body : DeviceEnrollRequest) (deviceSecretHash : String) (id : Nat) (now : Datetime) :
    Row ⟨.devices, id⟩ where
  record :=
    { id := id
      deviceUuid := body.deviceUuid
      hostname := body.hostname
      operatingSystem := body.operatingSystem
      agentVersion := body.agentVersion
      lastSeen := none
      enrollmentStatus := .active
      deviceSecretHash := deviceSecretHash
      createdAt := now
      groupId := none
      diskTotalBytes := none
      diskFreeBytes := none
      ramTotalBytes := none
      ramUsedBytes := none
      lastTelemetryAt := none
      updateRequestedAt := none
      updateRequestedFromVersion := none : Device }
  id_eq := Eq.refl id

/-- The device with a given UUID. -/
def findByUuid (deviceUuid : Uuid) : Admin (Option Device) := do
  let rows ← select .devices fun r => decide (Device.deviceUuid r = deviceUuid)
  scalarOneOrNone rows

/-- Add a device. -/
def create (body : DeviceEnrollRequest) (deviceSecretHash : String) : Admin Device :=
  if !body.fitsColumns then raise .dbapiError else insert .devices (newRow body deviceSecretHash)

/-- Move a device to a group, or to none. -/
def assignGroup (deviceId : Nat) (groupId : Option Nat) : Admin (Option Device) := do
  let d ← get
  match d.state.db.committed ⟨.devices, deviceId⟩ with
  | none => return none
  | some row =>
    checkGroup groupId
    let row' := row.modify (fun r => { r with groupId := groupId : Device }) fun _ => rfl
    store ⟨.devices, deviceId⟩ (some row')
    return some row'.record

end DeviceRepository

variable (deployment : Deployment)

/-- The administrator that an access token authenticates, if the role suffices. -/
def requireAdmin (roles : List AdminRole) (credentials : Option String) : Admin AdminUser := do
  let some token := credentials
    | Admin.httpError 401 "Missing bearer token."
  let d ← get
  let some subject := deployment.decodeAccessToken d.state.clock token
    | Admin.httpError 401 "Invalid or expired token."
  let some adminId := subject
    | Admin.httpError 401 "Invalid token subject."
  let rows ← Admin.select .adminUsers fun r => decide (AdminUser.id r = adminId)
  let some admin ← Admin.scalarOneOrNone rows
    | Admin.httpError 401 "Account is not active."
  let admin : AdminUser := admin
  if !admin.isActive then Admin.httpError 401 "Account is not active."
  else if admin.role ∈ roles then return admin
  else Admin.httpError 403 "Insufficient role."

/-- `POST /device-groups`. -/
def createDeviceGroup (name : String) (description credentials : Option String) :
    Admin DeviceGroup := do
  let admin ← requireAdmin deployment [.admin] credentials
  let existing ← DeviceGroupRepository.getByName name
  if existing.isSome then Admin.httpError 409 "A group with this name already exists."
  else
    let group ← DeviceGroupRepository.create name description
    Admin.writeAuditLog .admin (toString admin.id) "device_group.created" "device_group"
      (toString group.id) (some [("name", .text group.name)])
    return group

/-- `DELETE /device-groups/{group_id}`. -/
def deleteDeviceGroup (groupId : Nat) (credentials : Option String) : Admin Unit := do
  let admin ← requireAdmin deployment [.admin] credentials
  let some group ← DeviceGroupRepository.getById groupId
    | Admin.httpError 404 "Device group not found."
  DeviceGroupRepository.delete groupId
  Admin.writeAuditLog .admin (toString admin.id) "device_group.deleted" "device_group"
    (toString groupId) (some [("name", .text group.name)])

/-- Refuse a request that names a group which does not exist. -/
def requireGroup (groupId : Option Nat) : Admin Unit := do
  let some id := groupId
    | return
  let some _ ← DeviceGroupRepository.getById id
    | Admin.httpError 404 "Device group not found."
  return

/-- `POST /app-allowlist`. -/
def createAppAllowlistEntry (body : AppAllowlistEntryCreate) (credentials : Option String) :
    Admin AppAllowlistEntry := do
  let admin ← requireAdmin deployment [.admin] credentials
  requireGroup body.groupId
  let entry ← AppAllowlistRepository.create body (some admin.id)
  Admin.writeAuditLog .admin (toString admin.id) "app_allowlist.created" "app_allowlist_entry"
    (toString entry.id) (some [("publisher", .text entry.publisher),
      ("filename", .text entry.filename), ("group_id", optionalNumber entry.groupId)])
  return entry

/-- `DELETE /app-allowlist/{entry_id}`. -/
def deleteAppAllowlistEntry (entryId : Nat) (credentials : Option String) : Admin Unit := do
  let admin ← requireAdmin deployment [.admin] credentials
  let some entry ← AppAllowlistRepository.getById entryId
    | Admin.httpError 404 "App allowlist entry not found."
  AppAllowlistRepository.delete entry
  Admin.writeAuditLog .admin (toString admin.id) "app_allowlist.deleted" "app_allowlist_entry"
    (toString entryId) (some [("publisher", .text entry.publisher),
      ("filename", .text entry.filename)])

/-- `PATCH /devices/{device_id}/group`. -/
def assignDeviceGroup (deviceId : Nat) (groupId : Option Nat) (credentials : Option String) :
    Admin Device := do
  let admin ← requireAdmin deployment [.admin] credentials
  requireGroup groupId
  let some updated ← DeviceRepository.assignGroup deviceId groupId
    | Admin.httpError 404 "Device not found."
  Admin.writeAuditLog .admin (toString admin.id) "device.group_assigned" "device" (toString deviceId)
    (some [("group_id", optionalNumber groupId)])
  return updated

/-- `POST /devices/enroll` and `POST /enroll`, which differ in how they answer and in that an agent
reports no version. The hash is that of a fresh secret. -/
def enrollDevice (enrollmentKey xEnrollmentKey : String) (body : DeviceEnrollRequest)
    (deviceSecretHash : String) : Admin Device := do
  if xEnrollmentKey ≠ enrollmentKey then Admin.httpError 401 "Invalid enrollment key."
  else
    let existing ← DeviceRepository.findByUuid body.deviceUuid
    if existing.isSome then Admin.httpError 409 "Device is already enrolled."
    else
      let device ← DeviceRepository.create body deviceSecretHash
      Admin.writeAuditLog .device device.deviceUuid.textD "device.enroll" "device"
        (toString device.id) (some [("hostname", .text device.hostname),
          ("operating_system", .text device.operatingSystem)])
      return device

/-- A call that changes the directory. -/
inductive AdminCall
  | createDeviceGroup (name : String) (description credentials : Option String)
  | deleteDeviceGroup (groupId : Nat) (credentials : Option String)
  | createAppAllowlistEntry (body : AppAllowlistEntryCreate) (credentials : Option String)
  | deleteAppAllowlistEntry (entryId : Nat) (credentials : Option String)
  | assignDeviceGroup (deviceId : Nat) (groupId : Option Nat) (credentials : Option String)
  | enrollDevice (xEnrollmentKey : String) (body : DeviceEnrollRequest) (deviceSecretHash : String)

/-- The transaction that a call runs. -/
def administer (enrollmentKey : String) : AdminCall → Admin Unit
  | .createDeviceGroup name description credentials => do
    let _ ← createDeviceGroup deployment name description credentials
  | .deleteDeviceGroup groupId credentials => deleteDeviceGroup deployment groupId credentials
  | .createAppAllowlistEntry body credentials => do
    let _ ← createAppAllowlistEntry deployment body credentials
  | .deleteAppAllowlistEntry entryId credentials =>
    deleteAppAllowlistEntry deployment entryId credentials
  | .assignDeviceGroup deviceId groupId credentials => do
    let _ ← assignDeviceGroup deployment deviceId groupId credentials
  | .enrollDevice xEnrollmentKey body deviceSecretHash => do
    let _ ← enrollDevice enrollmentKey xEnrollmentKey body deviceSecretHash

/-- Whether an event is nothing but the passing of time. -/
def Event.IsAdvance : Event → Prop
  | .advance _ => True
  | _ => False

/-- A submission of the agent that no other session interferes with, from its start to its end. -/
structure Submits (i : Sid) (credentials : Option String) (body : AgentApprovalRequest)
    (admitted : Bool) (s : State) (result : Except PyError Answer) (s' : State) : Prop where
  run : ∃ labels c program,
    (∀ label ∈ labels, Solo i Event.IsAdvance label) ∧
      (system deployment).run (.spawn i (.agentSubmitRequest credentials body admitted) :: labels)
        (System.init s) = some c ∧
      c.thread i = some (.agentSubmitRequest credentials body admitted, program) ∧
      program.result = some result ∧ c.shared = s'

/-- What may happen to the directory. -/
inductive Directory.Step (enrollmentKey : String) : Directory → Directory → Prop
  | administer {call : AdminCall} {d d' : Directory}
      (h : administer deployment enrollmentKey call d = .ok ((), d')) : Step enrollmentKey d d'
  | submit {i : Sid} {credentials : Option String} {body : AgentApprovalRequest} {admitted : Bool}
      {d : Directory} {result : Except PyError Answer} {s : State}
      (h : Submits deployment i credentials body admitted d.state result s) :
      Step enrollmentKey d { d with state := s }
  | advance {d : Directory} {clock : Datetime} (h : d.state.clock ≤ clock) :
      Step enrollmentKey d { d with state := { d.state with clock := clock } }

end ElevateGate.Backend
