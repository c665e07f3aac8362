import ElevateGate.Backend.Consistency
import ElevateGate.Backend.Directory

/-!
# The allowlist decides automatic approvals

In every directory that the administrators' calls, enrolments and submissions lead to, a submission
that runs alone is approved at once exactly where the allowlist lists it for the device's group, and
deleting a group never makes more submissions approvable.
-/

namespace ElevateGate.Backend

open Interaction Time Text

/-- What holds of the database between transactions that run alone. -/
structure State.Tidy (deployment : Deployment) (s : State) : Prop where
  inv : Inv deployment s
  clean : ∀ k, s.db.dirty k = none
  distinct : s.DistinctDevices

/-- A property of the directory that a transaction keeps, if it does not raise. -/
def Preserves (P : Directory → Prop) {α : Type} (transaction : Admin α) : Prop :=
  ∀ d value d', P d → transaction d = .ok (value, d') → P d'

section States

variable {deployment : Deployment} {s s' : State}

/-- No transaction is open in a tidy database. -/
theorem State.Tidy.idle (h : s.Tidy deployment) : s.Idle where
  clean := h.clean
  fresh k hk := (h.inv.fresh k hk).1

/-- A database stays tidy when neither a request nor an approval nor the UUID of a device changes. -/
theorem State.Tidy.rearrange (h : s.Tidy deployment) (hdirty : s'.db.dirty = s.db.dirty)
    (hkept : ∀ t id, t = .elevationRequests ∨ t = .approvals → s'.com t id = s.com t id)
    (hdevice : ∀ id device, s.device id = some device →
      ∃ device', s'.device id = some device' ∧ device'.deviceUuid = device.deviceUuid)
    (hfresh : ∀ k, s'.nextId k.table ≤ k.id → s'.db.committed k = none)
    (hsigned : s'.signed = s.signed) (hdistinct : s'.DistinctDevices) : s'.Tidy deployment := by
  have hclean : ∀ k, s'.db.dirty k = none := fun k => by rw [hdirty, h.clean]
  have hunowned : ∀ t id j, s'.own j t id = none := fun t id j => by simp [State.own, hclean]
  have hevolves : Evolves s s' :=
    ⟨hdevice, fun id r hr => ⟨r, (hkept _ id (Or.inl rfl)).trans hr, .refl r⟩,
      fun id a ha => ⟨a, (hkept _ id (Or.inr rfl)).trans ha, .refl a⟩, by rw [hsigned]; exact fun _ => id⟩
  refine ⟨⟨fun k j hown => ?_, fun k hk => ⟨hfresh k hk, hclean k⟩, ?_, ?_, ?_, ?_⟩, hclean, hdistinct⟩
  · rw [hclean] at hown
    contradiction
  · intro t ht id id' r r' hne hr hr'
    have hversion : ∀ id r, s'.Version t id r → s.Version t id r := by
      rintro id r (hcom | ⟨j, hown⟩)
      · exact Or.inl ((hkept t id ht).symm.trans hcom)
      · rw [hunowned] at hown
        contradiction
    exact h.inv.distinct t ht id id' r r' hne (hversion id r hr) (hversion id' r' hr')
  · intro t _ id j r r' _ hown
    rw [hunowned] at hown
    contradiction
  · exact h.inv.linked.of_com hevolves (fun id => hkept _ id (Or.inl rfl))
      fun id => hkept _ id (Or.inr rfl)
  · rw [hsigned]
    exact h.inv.signed

/-- Time does not disturb a tidy database. -/
theorem State.Tidy.advance (h : s.Tidy deployment) (clock : Datetime) :
    ({ s with clock := clock } : State).Tidy deployment :=
  h.rearrange rfl (fun _ _ _ => rfl) (fun _ device hdevice => ⟨device, hdevice, rfl⟩)
    (fun k hk => (h.inv.fresh k hk).1) rfl h.distinct

/-- The rows beyond the identifiers that were given out stay absent. -/
private theorem fresh_maintain {k : Key} {version : Option (Row k)}
    (h : ∀ k, s.nextId k.table ≤ k.id → s.db.committed k = none) (k' : Key)
    (hk' : (s.maintain k version).nextId k'.table ≤ k'.id) :
    (s.maintain k version).db.committed k' = none := by
  have hne : k' ≠ k := by
    rintro rfl
    simp only [State.maintain, Function.update_self] at hk'
    omega
  simp only [State.maintain, Function.update_of_ne hne]
  refine h k' (Nat.le_trans ?_ hk')
  by_cases ht : k'.table = k.table
  · simp [State.maintain, ht]
  · simp [State.maintain, Function.update_of_ne ht]

/-- The row that was stored. -/
private theorem com_maintain_self {t : Table} {id : Nat} {version : Option (Row ⟨t, id⟩)} :
    (s.maintain ⟨t, id⟩ version).com t id = version.map Row.record := by
  simp [State.com, State.maintain]

/-- Storing a row of another table keeps the database tidy. -/
theorem State.Tidy.maintain {k : Key} {version : Option (Row k)} (h : s.Tidy deployment)
    (hrequests : k.table ≠ .elevationRequests) (happrovals : k.table ≠ .approvals)
    (hdevices : k.table ≠ .devices) : (s.maintain k version).Tidy deployment := by
  have hcom : ∀ t id, t ≠ k.table → (s.maintain k version).com t id = s.com t id :=
    fun t id ht => com_maintain fun heq => ht (congrArg Key.table heq)
  refine h.rearrange rfl ?_ (fun id device hdevice => ⟨device, ?_, rfl⟩)
    (fresh_maintain fun k hk => (h.inv.fresh k hk).1) rfl ?_
  · rintro t id (rfl | rfl)
    · exact hcom _ id hrequests.symm
    · exact hcom _ id happrovals.symm
  · exact (hcom _ id hdevices.symm).trans hdevice
  · intro id id' device device' hdevice hdevice'
    rw [State.device, hcom _ _ hdevices.symm] at hdevice hdevice'
    exact h.distinct id id' device device' hdevice hdevice'

/-- So does storing a device, unless it takes the UUID of another one. -/
theorem State.Tidy.maintainDevice {id : Nat} {row : Row ⟨.devices, id⟩} (h : s.Tidy deployment)
    (hsame : ∀ device, s.device id = some device →
      Device.deviceUuid row.record = device.deviceUuid)
    (hother : ∀ id' device, id' ≠ id → s.device id' = some device →
      Device.deviceUuid row.record ≠ device.deviceUuid) :
    (s.maintain ⟨.devices, id⟩ (some row)).Tidy deployment := by
  have hself : (s.maintain ⟨.devices, id⟩ (some row)).device id = some row.record :=
    com_maintain_self
  have hne : ∀ t id', t ≠ .devices ∨ id' ≠ id →
      (s.maintain ⟨.devices, id⟩ (some row)).com t id' = s.com t id' := fun t id' hor =>
    com_maintain fun heq => by
      obtain ⟨rfl, rfl⟩ := Key.mk.inj heq
      exact hor.elim (fun h => h rfl) fun h => h rfl
  refine h.rearrange rfl ?_ (fun id' device hdevice => ?_)
    (fresh_maintain fun k hk => (h.inv.fresh k hk).1) rfl ?_
  · rintro t id' (rfl | rfl) <;> exact hne _ id' (Or.inl (by decide))
  · by_cases hid : id' = id
    · subst hid
      exact ⟨row.record, hself, hsame device hdevice⟩
    · exact ⟨device, (hne _ id' (Or.inr hid)).trans hdevice, rfl⟩
  · intro id1 id2 device1 device2 h1 h2 huuid
    by_cases hid1 : id1 = id <;> by_cases hid2 : id2 = id
    · subst hid1 hid2
      exact Option.some.inj (h1.symm.trans h2)
    · subst hid1
      rw [State.device, hne _ id2 (Or.inr hid2)] at h2
      obtain rfl := Option.some.inj (hself.symm.trans h1)
      exact absurd huuid (hother id2 device2 hid2 h2)
    · subst hid2
      rw [State.device, hne _ id1 (Or.inr hid1)] at h1
      obtain rfl := Option.some.inj (hself.symm.trans h2)
      exact absurd huuid.symm (hother id1 device1 hid1 h1)
    · rw [State.device, hne _ id1 (Or.inr hid1)] at h1
      rw [State.device, hne _ id2 (Or.inr hid2)] at h2
      exact h.distinct id1 id2 device1 device2 h1 h2 huuid

/-- A device after a group has been deleted. -/
def ungroup (groupId : Nat) (d : Device) : Device :=
  if d.groupId = some groupId then { d with groupId := none } else d

@[simp] theorem ungroup_deviceUuid (groupId : Nat) (d : Device) :
    (ungroup groupId d).deviceUuid = d.deviceUuid := by
  unfold ungroup
  split <;> rfl

/-- Devices of a deleted group belong to no group. -/
theorem device_deleteGroup (groupId id : Nat) :
    (s.deleteGroup groupId).device id = (s.device id).map (ungroup groupId) := by
  simp only [State.device, State.com, State.deleteGroup, State.withoutGroup]
  cases s.db.committed ⟨.devices, id⟩ with
  | none => rfl
  | some row =>
    by_cases hgroup : Device.groupId row.record = some groupId
    · have hungroup : ungroup groupId row.record = { row.record with groupId := none } :=
        if_pos hgroup
      simp only [OnDelete.apply, Option.bind_some, hgroup, decide_true, if_true, Device.onDelete]
      exact congrArg some hungroup.symm
    · have hungroup : ungroup groupId row.record = row.record := if_neg hgroup
      simp only [OnDelete.apply, Option.bind_some, hgroup, decide_false, Bool.false_eq_true, if_false]
      exact congrArg some hungroup.symm

/-- Entries of a deleted group are deleted. -/
theorem entry_deleteGroup (groupId id : Nat) {entry : AppAllowlistEntry} :
    (s.deleteGroup groupId).com .appAllowlistEntries id = some entry ↔
      s.com .appAllowlistEntries id = some entry ∧ entry.groupId ≠ some groupId := by
  simp only [State.com, State.deleteGroup, State.withoutGroup]
  cases s.db.committed ⟨.appAllowlistEntries, id⟩ with
  | none => simp [OnDelete.apply]
  | some row =>
    by_cases hgroup : AppAllowlistEntry.groupId row.record = some groupId
    · simp only [OnDelete.apply, Option.bind_some, hgroup, decide_true, if_true,
        AppAllowlistEntry.onDelete]
      refine ⟨fun h => by contradiction, fun h => ?_⟩
      exact absurd ((congrArg AppAllowlistEntry.groupId (Option.some.inj h.1)).symm.trans hgroup) h.2
    · simp only [OnDelete.apply, Option.bind_some, hgroup, decide_false, Bool.false_eq_true, if_false]
      refine ⟨fun h => ⟨h, ?_⟩, And.left⟩
      intro heq
      exact hgroup ((congrArg AppAllowlistEntry.groupId (Option.some.inj h)).trans heq)

/-- Deleting a group keeps the database tidy. -/
theorem State.Tidy.deleteGroup (h : s.Tidy deployment) (groupId : Nat) :
    (s.deleteGroup groupId).Tidy deployment := by
  refine h.rearrange rfl ?_ (fun id device hdevice => ?_) (fun k hk => ?_) rfl ?_
  · rintro t id (rfl | rfl) <;> rfl
  · exact ⟨ungroup groupId device, by rw [device_deleteGroup, hdevice, Option.map_some], by simp⟩
  · obtain ⟨t, id⟩ := k
    have hnone := (h.inv.fresh ⟨t, id⟩ hk).1
    cases t <;> simp [State.deleteGroup, State.withoutGroup, OnDelete.apply, hnone]
  · intro id id' device device' hdevice hdevice' huuid
    rw [device_deleteGroup] at hdevice hdevice'
    obtain ⟨old, hold, rfl⟩ := Option.map_eq_some_iff.mp hdevice
    obtain ⟨old', hold', rfl⟩ := Option.map_eq_some_iff.mp hdevice'
    rw [h.distinct id id' old old' hold hold' (by simpa using huuid)]

/-- The triples of a device, a publisher and a file name that are approved at once. -/
def State.autoApproved (s : State) : Set (Nat × String × String) :=
  { triple | ∃ device, s.device triple.1 = some device ∧
      AutoApprovable s device .trusted (some triple.2.1) triple.2.2 }

/-- Deleting a group never makes more triples approvable: its entries go, and its devices keep only
what the global entries allow. -/
theorem autoApproved_deleteGroup (groupId : Nat) :
    (s.deleteGroup groupId).autoApproved ⊆ s.autoApproved := by
  rintro ⟨id, publisher, filename⟩ ⟨device, hdevice, -, name, hname, entryId, entry, hentry, hrest⟩
  obtain ⟨hpublisher, hfilename, happlies⟩ := hrest
  rw [device_deleteGroup] at hdevice
  obtain ⟨old, hold, rfl⟩ := Option.map_eq_some_iff.mp hdevice
  obtain ⟨hentry', -⟩ := (entry_deleteGroup groupId entryId).mp hentry
  refine ⟨old, hold, rfl, name, hname, entryId, entry, hentry', hpublisher, hfilename, ?_⟩
  rcases happlies with hglobal | ⟨scope, hscope, hdeviceGroup⟩
  · exact Or.inl hglobal
  · refine Or.inr ⟨scope, hscope, ?_⟩
    rw [ungroup] at hdeviceGroup
    split at hdeviceGroup
    · contradiction
    · exact hdeviceGroup

end States

section Rules

variable {P : Directory → Prop} {α β : Type}

private theorem Preserves.pure (value : α) : Preserves P (pure value : Admin α) := by
  intro d value' d' hP hrun
  obtain ⟨-, rfl⟩ := Prod.mk.inj (Except.ok.inj hrun)
  exact hP

private theorem Preserves.raise (error : PyError) : Preserves P (Admin.raise error : Admin α) :=
  fun _ _ _ _ hrun => by contradiction

private theorem Preserves.bind {x : Admin α} {f : α → Admin β} (h : Preserves P x)
    (hf : ∀ value, Preserves P (f value)) : Preserves P (x >>= f) := by
  intro d value d' hP hrun
  change (x d >>= fun p => f p.1 p.2) = .ok (value, d') at hrun
  cases hx : x d with
  | error error =>
    rw [hx] at hrun
    contradiction
  | ok p =>
    rw [hx] at hrun
    exact hf p.1 p.2 value d' (h d p.1 p.2 hP hx) hrun

private theorem Preserves.ite {c : Prop} [Decidable c] {x y : Admin α} (h : Preserves P x)
    (h' : Preserves P y) : Preserves P (if c then x else y) := by
  split
  · exact h
  · exact h'

private theorem Preserves.get : Preserves P (get : Admin Directory) := by
  intro d value d' hP hrun
  obtain ⟨-, rfl⟩ := Prod.mk.inj (Except.ok.inj hrun)
  exact hP

private theorem Preserves.select (t : Table) (condition : t.Record → Bool) :
    Preserves P (Admin.select t condition) := Preserves.get.bind fun _ => .pure _

private theorem Preserves.scalarOneOrNone (rows : List α) :
    Preserves P (Admin.scalarOneOrNone rows) := by
  match rows with
  | [] => exact .pure _
  | [_] => exact .pure _
  | _ :: _ :: _ => exact .raise _

private theorem Preserves.store {k : Key} {version : Option (Row k)}
    (h : ∀ d, P d → P { d with state := d.state.maintain k version }) :
    Preserves P (Admin.store k version) := by
  intro d value d' hP hrun
  obtain ⟨-, rfl⟩ := Prod.mk.inj (Except.ok.inj hrun)
  exact h d hP

/-- An insert stores a row that clashes with no other one. -/
private theorem Preserves.insert {t : Table} {make : (id : Nat) → Datetime → Row ⟨t, id⟩}
    (h : ∀ d row, P d → (∀ id r, id < d.state.nextId t → d.state.com t id = some r →
        t.clash (Row.record row) r = false) →
      P { d with state := d.state.maintain ⟨t, d.state.nextId t⟩ (some row) }) :
    Preserves P (Admin.insert t make) := by
  intro d value d' hP hrun
  have hrun' : (if ((List.range (d.state.nextId t)).filterMap (d.state.com t)).any
      (t.clash (make (d.state.nextId t) d.state.clock).record) then Admin.raise .integrityError
    else do
      Admin.store ⟨t, d.state.nextId t⟩ (some (make (d.state.nextId t) d.state.clock))
      return (make (d.state.nextId t) d.state.clock).record) d = .ok (value, d') := hrun
  split at hrun'
  · contradiction
  · next hfree =>
    obtain ⟨-, rfl⟩ := Prod.mk.inj (Except.ok.inj hrun')
    refine h d _ hP fun id r hid hr => ?_
    by_contra hclash
    refine hfree (List.any_eq_true.mpr ⟨r, List.mem_filterMap.mpr ⟨id, ?_, hr⟩, by simpa using hclash⟩)
    exact List.mem_range.mpr hid

private theorem Preserves.writeAuditLog {actorType : ActorType}
    {actorId action targetType targetId : String}
    {metadata : Option (List (String × MetadataValue))}
    (h : ∀ d id row, P d → P { d with state := d.state.maintain ⟨.auditLogs, id⟩ row }) :
    Preserves P (Admin.writeAuditLog actorType actorId action targetType targetId metadata) :=
  (Preserves.insert fun d row hP _ => h d _ (some row) hP).bind fun _ => .pure _

/-- Checking a foreign key changes nothing. -/
private theorem checkGroup_ok {groupId : Option Nat} {d d' : Directory} {value : Unit}
    (h : Admin.checkGroup groupId d = .ok (value, d')) : d' = d := by
  cases groupId with
  | none => exact (Prod.mk.inj (Except.ok.inj h)).2.symm
  | some id =>
    have h' : (if (d.group id).isSome then (return : Admin Unit) else Admin.raise .integrityError) d =
      .ok (value, d') := h
    split at h'
    · exact (Prod.mk.inj (Except.ok.inj h')).2.symm
    · contradiction

private theorem Preserves.checkGroup (groupId : Option Nat) :
    Preserves P (Admin.checkGroup groupId) := by
  intro d value d' hP hrun
  rw [checkGroup_ok hrun]
  exact hP

private theorem Preserves.requireAdmin {deployment : Deployment} (roles : List AdminRole)
    (credentials : Option String) : Preserves P (requireAdmin deployment roles credentials) := by
  cases credentials with
  | none => exact .raise _
  | some token =>
    refine Preserves.get.bind fun d => ?_
    cases hsubject : deployment.decodeAccessToken d.state.clock token with
    | none => exact .raise _
    | some subject =>
      cases subject with
      | none => exact .raise _
      | some adminId =>
        refine (Preserves.select _ _).bind fun rows =>
          (Preserves.scalarOneOrNone rows).bind fun row => ?_
        cases row with
        | none => exact .raise _
        | some admin => exact .ite (.raise _) (.ite (.pure _) (.raise _))

private theorem Preserves.requireGroup (groupId : Option Nat) :
    Preserves P (requireGroup groupId) := by
  cases groupId with
  | none => exact .pure _
  | some id =>
    refine Preserves.bind (Preserves.get.bind fun _ => .pure _) fun group => ?_
    cases group with
    | none => exact .raise _
    | some group => exact .pure _

/-- Adding a group changes the groups only. -/
private theorem Preserves.createGroup (name : String) (description : Option String)
    (h : ∀ d group nextGroupId, P d → P { d with group := group, nextGroupId := nextGroupId }) :
    Preserves P (DeviceGroupRepository.create name description) := by
  intro d value d' hP hrun
  have hrun' : (if !(fitsColumn (some 255) name && description.all (fitsColumn none)) then
      Admin.raise .dbapiError
    else if (List.range d.nextGroupId).any fun id => (d.group id).any fun g =>
      decide (g.name = name) then Admin.raise .integrityError
    else do
      let group : DeviceGroup := ⟨d.nextGroupId, name, description, d.state.clock⟩
      set { d with group := Function.update d.group d.nextGroupId (some group)
                   nextGroupId := d.nextGroupId + 1 }
      return group) d = .ok (value, d') := hrun
  split at hrun'
  · contradiction
  split at hrun'
  · contradiction
  · obtain ⟨-, rfl⟩ := Prod.mk.inj (Except.ok.inj hrun')
    exact h d _ _ hP

/-- Deleting a group writes an audit row besides. -/
private theorem Preserves.deleteDeviceGroup {deployment : Deployment} (groupId : Nat)
    (credentials : Option String)
    (hdelete : ∀ d group, P d → P { d with state := d.state.deleteGroup groupId, group := group })
    (haudit : ∀ d id row, P d → P { d with state := d.state.maintain ⟨.auditLogs, id⟩ row }) :
    Preserves P (deleteDeviceGroup deployment groupId credentials) := by
  refine (Preserves.requireAdmin _ _).bind fun admin => ?_
  refine Preserves.bind (Preserves.get.bind fun _ => .pure _) fun group => ?_
  cases group with
  | none => exact .raise _
  | some group =>
    refine Preserves.bind ?_ fun _ => .writeAuditLog haudit
    intro d value d' hP hrun
    obtain ⟨-, rfl⟩ := Prod.mk.inj (Except.ok.inj hrun)
    exact hdelete d _ hP

end Rules

section Transactions

variable {deployment : Deployment}

/-- A tidy database. -/
private abbrev TidyIn (deployment : Deployment) (d : Directory) : Prop := d.state.Tidy deployment

private theorem tidy_audit (d : Directory) (id : Nat) (row : Option (Row ⟨.auditLogs, id⟩))
    (h : TidyIn deployment d) :
    TidyIn deployment { d with state := d.state.maintain ⟨.auditLogs, id⟩ row } :=
  h.maintain (by simp) (by simp) (by simp)

/-- An insert checks the unique index, so a device cannot take the UUID of another one. -/
private theorem tidies_enrolment (body : DeviceEnrollRequest) (deviceSecretHash : String) :
    Preserves (TidyIn deployment) (DeviceRepository.create body deviceSecretHash) := by
  refine .ite (.raise _) (Preserves.insert fun d row htidy hfree => ?_)
  have hbound : ∀ id device, d.state.device id = some device → id < d.state.nextId .devices := by
    intro id device hdevice
    by_contra hle
    have hnone := (htidy.inv.fresh ⟨.devices, id⟩ (Nat.le_of_not_lt hle)).1
    rw [State.device, State.com, hnone] at hdevice
    contradiction
  refine htidy.maintainDevice (fun device hdevice => ?_) fun id device _ hdevice huuid => ?_
  · exact absurd (hbound _ device hdevice) (Nat.lt_irrefl _)
  · have hclash := hfree id device (hbound id device hdevice) hdevice
    exact absurd huuid (of_decide_eq_false hclash)

/-- Moving a device to a group does not change its UUID. -/
private theorem tidies_assignGroup (deviceId : Nat) (groupId : Option Nat) :
    Preserves (TidyIn deployment) (DeviceRepository.assignGroup deviceId groupId) := by
  intro d value d' htidy hrun
  simp only [DeviceRepository.assignGroup, bind, StateT.bind, get, getThe, MonadStateOf.get, StateT.get,
    Except.bind, pure, Except.pure] at hrun
  cases hrow : d.state.db.committed ⟨.devices, deviceId⟩ with
  | none =>
    rw [hrow] at hrun
    obtain ⟨-, rfl⟩ := Prod.mk.inj (Except.ok.inj hrun)
    exact htidy
  | some row =>
    rw [hrow] at hrun
    change (Admin.checkGroup groupId d >>= _) = _ at hrun
    cases hcheck : Admin.checkGroup groupId d with
    | error error =>
      rw [hcheck] at hrun
      contradiction
    | ok p =>
      obtain ⟨value', d''⟩ := p
      obtain rfl := checkGroup_ok hcheck
      rw [hcheck] at hrun
      obtain ⟨-, rfl⟩ := Prod.mk.inj (Except.ok.inj hrun)
      have hdevice : d''.state.device deviceId = some row.record := by
        rw [State.device, State.com, hrow]
        rfl
      refine htidy.maintainDevice (fun device hdevice' => ?_) fun id device hne hdevice' huuid => ?_
      · rw [← Option.some.inj (hdevice.symm.trans hdevice')]
        rfl
      · have heq := htidy.distinct deviceId id row.record device hdevice hdevice' huuid
        refine hne ?_
        rw [← id_of_com hdevice', ← id_of_com hdevice]
        exact congrArg _ heq.symm

/-- Every transaction leaves the database tidy. -/
theorem tidies_administer (enrollmentKey : String) (call : AdminCall) :
    Preserves (TidyIn deployment) (administer deployment enrollmentKey call) := by
  cases call with
  | createDeviceGroup name description credentials =>
    refine Preserves.bind ?_ fun _ => .pure _
    refine (Preserves.requireAdmin _ _).bind fun admin => ?_
    refine Preserves.bind (Preserves.get.bind fun _ => .scalarOneOrNone _) fun existing => ?_
    refine .ite (.raise _) ((Preserves.createGroup _ _ fun _ _ _ htidy => htidy).bind fun _ => ?_)
    exact (Preserves.writeAuditLog tidy_audit).bind fun _ => .pure _
  | deleteDeviceGroup groupId credentials =>
    exact .deleteDeviceGroup groupId credentials (fun d _ htidy => htidy.deleteGroup groupId) tidy_audit
  | createAppAllowlistEntry body credentials =>
    refine Preserves.bind ?_ fun _ => .pure _
    refine (Preserves.requireAdmin _ _).bind fun admin => (Preserves.requireGroup _).bind fun _ => ?_
    refine Preserves.bind (.ite (.raise _) ((Preserves.checkGroup _).bind fun _ =>
      .insert fun d row htidy _ => ?_))
      fun _ => (Preserves.writeAuditLog tidy_audit).bind fun _ => .pure _
    exact State.Tidy.maintain htidy (by simp) (by simp) (by simp)
  | deleteAppAllowlistEntry entryId credentials =>
    refine (Preserves.requireAdmin _ _).bind fun admin => ?_
    refine Preserves.bind ((Preserves.select _ _).bind fun _ => .scalarOneOrNone _) fun entry => ?_
    cases entry with
    | none => exact .raise _
    | some entry =>
      refine Preserves.bind (.store fun d htidy => ?_) fun _ => .writeAuditLog tidy_audit
      exact State.Tidy.maintain htidy (by simp) (by simp) (by simp)
  | assignDeviceGroup deviceId groupId credentials =>
    refine Preserves.bind ?_ fun _ => .pure _
    refine (Preserves.requireAdmin _ _).bind fun admin => (Preserves.requireGroup _).bind fun _ => ?_
    refine (tidies_assignGroup _ _).bind fun updated => ?_
    cases updated with
    | none => exact .raise _
    | some updated => exact (Preserves.writeAuditLog tidy_audit).bind fun _ => .pure _
  | enrollDevice xEnrollmentKey body deviceSecretHash =>
    refine Preserves.bind ?_ fun _ => .pure _
    refine .ite (.raise _) ?_
    refine Preserves.bind ((Preserves.select _ _).bind fun _ => .scalarOneOrNone _) fun existing => ?_
    refine .ite (.raise _) ((tidies_enrolment body deviceSecretHash).bind fun _ => ?_)
    exact (Preserves.writeAuditLog tidy_audit).bind fun _ => .pure _

/-- Only devices and entries matter to automatic approval. -/
theorem autoApproved_congr {s s' : State} (hdevice : ∀ id, s'.device id = s.device id)
    (hentry : ∀ id, s'.com .appAllowlistEntries id = s.com .appAllowlistEntries id) :
    s'.autoApproved = s.autoApproved := by
  ext triple
  simp only [State.autoApproved, AutoApprovable, State.Listed, Set.mem_ofPred_eq, hdevice, hentry]

/-- Deleting a group makes no more triples approvable. -/
theorem autoApproved_deleteDeviceGroup {groupId : Nat} {credentials : Option String}
    {d d' : Directory} (h : deleteDeviceGroup deployment groupId credentials d = .ok ((), d')) :
    d'.state.autoApproved ⊆ d.state.autoApproved := by
  have hkeeps : Preserves (fun d' => d'.state.autoApproved ⊆ d.state.autoApproved)
      (deleteDeviceGroup deployment groupId credentials) := by
    refine .deleteDeviceGroup groupId credentials (fun d' _ hsub => ?_) fun d' id row hsub => ?_
    · exact (autoApproved_deleteGroup groupId).trans hsub
    · have hsame : (d'.state.maintain ⟨.auditLogs, id⟩ row).autoApproved = d'.state.autoApproved :=
        autoApproved_congr (fun id' => com_maintain fun heq => by cases heq)
          fun id' => com_maintain fun heq => by cases heq
      exact hsame ▸ hsub
  exact hkeeps d () d' subset_rfl h

end Transactions

section Runs

variable {deployment : Deployment} {enrollmentKey : String}

/-- A directory in which no elevation request was ever made and every device has its own UUID. -/
structure Directory.Initial (d : Directory) : Prop where
  state : d.state.Initial
  distinct : d.state.DistinctDevices

/-- The directories that transactions lead to. -/
def Directory.Reachable (deployment : Deployment) (enrollmentKey : String) (d : Directory) : Prop :=
  ∃ d₀, d₀.Initial ∧ Relation.ReflTransGen (Directory.Step deployment enrollmentKey) d₀ d

/-- Only time passes besides a submission that runs alone. -/
private theorem ticks_of_advance {event : Event} {s s' : State} (hquiet : event.IsAdvance)
    (h : (system deployment).env event s = some s') : Ticks s s' := by
  cases event with
  | advance clock =>
    change (if s.clock ≤ clock then some { s with clock := clock } else none) = some s' at h
    split at h
    · next hle => exact ⟨clock, hle, (Option.some.inj h).symm⟩
    · contradiction
  | maintain | transact => exact hquiet.elim

/-- The configuration in which a submission has just been started. -/
private abbrev started (deployment : Deployment) (i : Sid) (credentials : Option String)
    (body : AgentApprovalRequest) (admitted : Bool) (s : State) :
    Config Op Res PyError Answer Sid Call State where
  shared := s.rollback i
  thread := Function.update (fun _ => none) i
    (some (.agentSubmitRequest credentials body admitted,
      serve deployment (.agentSubmitRequest credentials body admitted)))

private theorem step_started {i : Sid} {credentials : Option String} {body : AgentApprovalRequest}
    {admitted : Bool} {s : State} :
    (system deployment).step (.spawn i (.agentSubmitRequest credentials body admitted))
      (System.init s) = some (started deployment i credentials body admitted s) := rfl

private theorem thread_started {i : Sid} {credentials : Option String} {body : AgentApprovalRequest}
    {admitted : Bool} {s : State} : (started deployment i credentials body admitted s).thread i =
      some (.agentSubmitRequest credentials body admitted,
        serve deployment (.agentSubmitRequest credentials body admitted)) := by
  simp

/-- A submission that runs alone ends as specified and leaves the database tidy. -/
theorem Submits.spec {i : Sid} {credentials : Option String} {body : AgentApprovalRequest}
    {admitted : Bool} {s s' : State} {result : Except PyError Answer}
    (h : Submits deployment i credentials body admitted s result s') (htidy : s.Tidy deployment) :
    s'.Tidy deployment ∧ Outcome deployment s credentials body admitted result s' := by
  obtain ⟨labels, c, program, hsolo, hrun, hthread, hresult, rfl⟩ := h.run
  obtain ⟨hgood, -⟩ := (valid deployment).run (Discipline.good_init htidy.inv) hrun
  rw [System.run, step_started, Option.bind_some] at hrun
  obtain ⟨program', hthread', hensures⟩ := ensures_run (fun _ _ _ => ticks_of_advance) hsolo
    thread_started (does_submission (htidy.idle.alone i) htidy.distinct htidy.inv.linked) hrun
  obtain ⟨-, rfl⟩ := Prod.mk.inj (Option.some.inj (hthread'.symm.trans hthread))
  obtain ⟨hidle, houtcome⟩ := hensures.ended hresult
  refine ⟨⟨hgood.inv, hidle.clean, ?_⟩, houtcome⟩
  intro id id' device device' hdevice hdevice'
  cases houtcome with
  | filed _ _ _ _ hfiled =>
    rw [hfiled.device] at hdevice hdevice'
    exact htidy.distinct id id' device device' hdevice hdevice'
  | rejected _ hcommitted =>
    rw [State.device, com_congr hcommitted] at hdevice hdevice'
    exact htidy.distinct id id' device device' hdevice hdevice'

/-- A submission that runs alone can always run to its end. -/
theorem exists_submits {s : State} (htidy : s.Tidy deployment) (i : Sid)
    (credentials : Option String) (body : AgentApprovalRequest) (admitted : Bool) :
    ∃ result s', Submits deployment i credentials body admitted s result s' := by
  obtain ⟨labels, c, program, hsolo, hrun, hthread, hresult⟩ :
      ∃ labels c program, (∀ label ∈ labels, Solo i Event.IsAdvance label) ∧
        (system deployment).run labels (started deployment i credentials body admitted s) = some c ∧
        c.thread i = some (.agentSubmitRequest credentials body admitted, program) ∧
          program.result ≠ none :=
    ensures_progress thread_started
      (does_submission (htidy.idle.alone i) htidy.distinct htidy.inv.linked)
  obtain ⟨result, hresult⟩ := Option.ne_none_iff_exists'.mp hresult
  refine ⟨result, c.shared, ⟨labels, c, program, hsolo, ?_, hthread, hresult, rfl⟩⟩
  rw [System.run, step_started, Option.bind_some]
  exact hrun

/-- Every reachable directory is tidy. -/
theorem Directory.Reachable.tidy {d : Directory}
    (h : d.Reachable deployment enrollmentKey) : d.state.Tidy deployment := by
  obtain ⟨d₀, hinit, hsteps⟩ := h
  induction hsteps with
  | refl => exact ⟨hinit.state.inv, hinit.state.dirty, hinit.distinct⟩
  | tail _ hstep ih =>
    cases hstep with
    | administer hadminister => exact tidies_administer enrollmentKey _ _ _ _ ih hadminister
    | submit hsubmits => exact (hsubmits.spec ih).1
    | advance => exact ih.advance _

/-- In every reachable directory a submission that runs alone comes to an end; it is approved exactly
where the allowlist lists it for the device's group, and otherwise pending without an approval, or it
is rejected without a trace. Deleting a group makes no more triples approvable. -/
theorem allowlist_decides {d : Directory} (h : d.Reachable deployment enrollmentKey) :
    (∀ i credentials body admitted, ∃ result s',
      Submits deployment i credentials body admitted d.state result s') ∧
    (∀ i credentials body admitted result s',
      Submits deployment i credentials body admitted d.state result s' →
        Outcome deployment d.state credentials body admitted result s') ∧
    ∀ groupId credentials d', deleteDeviceGroup deployment groupId credentials d = .ok ((), d') →
      d'.state.autoApproved ⊆ d.state.autoApproved :=
  ⟨exists_submits h.tidy, fun _ _ _ _ _ _ hsubmits => (hsubmits.spec h.tidy).2,
    fun _ _ _ => autoApproved_deleteDeviceGroup⟩

end Runs

namespace Sample

/-- The directory before the first group. -/
def directory : Directory := ⟨database, fun _ => none, 0⟩

/-- A group with one entry, and the device as its member. -/
def arrangement : List AdminCall :=
  [.createDeviceGroup "Finance" none (some "token"),
    .createAppAllowlistEntry ⟨some 0, "Contoso", "setup.exe", none⟩ (some "token"),
    .assignDeviceGroup 0 (some 0) (some "token")]

/-- Carry out calls one after the other. -/
def arrange (calls : List AdminCall) (d : Directory) : Except PyError Directory :=
  calls.foldlM (fun d call => Prod.snd <$> administer deployment "key" call d) d

/-- Calls lead from reachable directories to reachable directories. -/
theorem reachable_arrange {calls : List AdminCall} {d d' : Directory}
    (h : d.Reachable deployment "key") (harrange : arrange calls d = .ok d') :
    d'.Reachable deployment "key" := by
  induction calls generalizing d with
  | nil =>
    obtain rfl := Except.ok.inj harrange
    exact h
  | cons call rest ih =>
    rw [arrange, List.foldlM_cons] at harrange
    cases hcall : administer deployment "key" call d with
    | error error =>
      rw [hcall] at harrange
      contradiction
    | ok p =>
      rw [hcall] at harrange
      obtain ⟨d₀, hinit, hsteps⟩ := h
      exact ih ⟨d₀, hinit, hsteps.tail (.administer hcall)⟩ harrange

/-- There is one device. -/
theorem directory_reachable : directory.Reachable deployment "key" := by
  refine ⟨directory, ⟨database_initial, ?_⟩, .refl⟩
  intro id id' device device' hdevice hdevice'
  match id, id', hdevice, hdevice' with
  | 0, 0, hdevice, hdevice' => exact fun _ => Option.some.inj (hdevice.symm.trans hdevice')

/-- The calls are carried out. -/
theorem exists_arranged : ∃ d : Directory, d.Reachable deployment "key" ∧
    (d.state.device 0).bind Device.groupId = some 0 ∧
      (d.state.com .appAllowlistEntries 0).bind AppAllowlistEntry.groupId = some 0 := by
  have hrun : (arrange arrangement directory).toOption.map (fun d =>
      ((d.state.device 0).bind Device.groupId,
        (d.state.com .appAllowlistEntries 0).bind AppAllowlistEntry.groupId)) =
      some (some 0, some 0) := by
    decide +kernel
  obtain ⟨d, hd, hgroups⟩ := Option.map_eq_some_iff.mp hrun
  have harrange : arrange arrangement directory = .ok d := by
    cases hresult : arrange arrangement directory with
    | error error =>
      rw [hresult] at hd
      contradiction
    | ok d' =>
      rw [hresult] at hd
      rw [Option.some.inj hd]
  obtain ⟨hdevice, hentry⟩ := Prod.mk.inj hgroups
  exact ⟨d, reachable_arrange directory_reachable harrange, hdevice, hentry⟩

end Sample

/-- A device and an entry of one group are such a directory. -/
theorem allowlist_decides_sample : ∃ d : Directory,
    (d.state.device 0).bind Device.groupId = some 0 ∧
    (d.state.com .appAllowlistEntries 0).bind AppAllowlistEntry.groupId = some 0 ∧
    (∀ i credentials body admitted, ∃ result s',
      Submits Sample.deployment i credentials body admitted d.state result s') ∧
    (∀ i credentials body admitted result s',
      Submits Sample.deployment i credentials body admitted d.state result s' →
        Outcome Sample.deployment d.state credentials body admitted result s') ∧
    ∀ groupId credentials d', deleteDeviceGroup Sample.deployment groupId credentials d = .ok ((), d') →
      d'.state.autoApproved ⊆ d.state.autoApproved := by
  obtain ⟨d, hreachable, hdevice, hentry⟩ := Sample.exists_arranged
  exact ⟨d, hdevice, hentry, allowlist_decides hreachable⟩

end ElevateGate.Backend
