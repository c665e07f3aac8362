import ElevateGate.Backend.Heartbeats
import ElevateGate.Backend.Serial

/-!
# The rows of a device

No heartbeat and no request for an update changes who a device is. What every version of its row
satisfies is kept by an operation that writes no other version, and what a session reads of the devices
tells it so.
-/

namespace ElevateGate.Backend.Heartbeats

open Interaction Time Text Handler

/-- An operation leaves who the devices are. -/
def Tends : Op → Prop
  | .update ⟨.devices, _⟩ assign => ∀ row row', assign row = some row' →
    Device.deviceUuid row'.record = Device.deviceUuid row.record ∧
      Device.deviceSecretHash row'.record = Device.deviceSecretHash row.record
  | .insert .devices _ => False
  | _ => True

/-- What an operation makes of the row of a device: the row that it finds, and the row that it writes. -/
def rewritten (i : Sid) (device : Device) : Op → State → Option (Device × Device)
  | .update ⟨.devices, id⟩ assign, s =>
    if id = device.id then
      (s.db.view i ⟨.devices, id⟩).bind fun row =>
        (assign row).map fun row' => (row.record, row'.record)
    else none
  | _, _ => none

/-- The device is registered once, and every version of its row is in order. -/
structure Standing (Ok : Device → Prop) (device : Device) (s : State) : Prop where
  kept : ∀ k j, s.db.dirty k ≠ some (j, none)
  bound : device.id < s.nextId .devices
  standing : (s.device device.id).isSome
  versions : ∀ d, s.Version .devices device.id d →
    Device.deviceUuid d = device.deviceUuid ∧ Device.deviceSecretHash d = device.deviceSecretHash ∧ Ok d
  others : ∀ id d, s.Version .devices id d → Device.deviceUuid d = device.deviceUuid → id = device.id

section Steps

variable {Ok : Device → Prop} {device : Device} {sign : List UInt8 → List UInt8} {i : Sid}
  {s s' : State} {op : Op} {answer : Res op}

/-- What is said of its versions may be weakened. -/
theorem Standing.mono {Ok' : Device → Prop} (h : Standing Ok device s) (hok : ∀ d, Ok d → Ok' d) :
    Standing Ok' device s where
  kept := h.kept
  bound := h.bound
  standing := h.standing
  versions d hd := (h.versions d hd).imp_right fun h => ⟨h.1, hok d h.2⟩
  others := h.others

/-- A step that adds no version leaves the device in order. -/
theorem Standing.of_versions (h : Standing Ok device s) (hkept : ∀ k j, s'.db.dirty k ≠ some (j, none))
    (hnextId : s.nextId .devices ≤ s'.nextId .devices) (hstanding : (s'.device device.id).isSome)
    (hversion : ∀ id d, s'.Version .devices id d → s.Version .devices id d) :
    Standing Ok device s' where
  kept := hkept
  bound := Nat.lt_of_lt_of_le h.bound hnextId
  standing := hstanding
  versions d hd := h.versions d (hversion _ d hd)
  others id d hd := h.others id d (hversion id d hd)

/-- A step that leaves the rows. -/
theorem Standing.of_db (h : Standing Ok device s) (hdb : s'.db = s.db)
    (hnextId : s.nextId .devices ≤ s'.nextId .devices) : Standing Ok device s' := by
  refine h.of_versions (by rw [hdb]; exact h.kept) hnextId ?_ fun id d hd => ?_
  · have hsame : s'.device device.id = s.device device.id := com_congr (by rw [hdb]) _ _
    rw [hsame]
    exact h.standing
  · simpa only [State.Version, State.com, State.own, hdb] using hd

/-- A step that drops versions. -/
theorem Standing.dropped (h : Standing Ok device s) (hcommitted : s'.db.committed = s.db.committed)
    (hdirty : ∀ k version, s'.db.dirty k = some version → s.db.dirty k = some version)
    (hnextId : s'.nextId = s.nextId) : Standing Ok device s' := by
  refine h.of_versions (fun k j hk => h.kept k j (hdirty k _ hk)) (by rw [hnextId]) ?_ ?_
  · have hsame : s'.device device.id = s.device device.id := com_congr hcommitted _ _
    rw [hsame]
    exact h.standing
  · rintro id d (hcom | ⟨j, hown⟩)
    · exact Or.inl (by rwa [← com_congr hcommitted])
    · obtain ⟨row, hrow, rfl⟩ := State.own_eq_some.mp hown
      exact Or.inr ⟨j, State.own_eq_some.mpr ⟨row, hdirty _ _ hrow, rfl⟩⟩

/-- A commit. -/
theorem Standing.commit (h : Standing Ok device s) : Standing Ok device (s.commit i) := by
  have hcom : ∀ id, (s.commit i).device id = (s.own i .devices id).or (s.device id) :=
    com_commit_of_kept h.kept .devices
  refine h.of_versions (fun k j hk => h.kept k j (Database.dropDirty_eq_some.mp hk).1)
    (Nat.le_refl _) ?_ ?_
  · rw [hcom]
    cases s.own i .devices device.id with
    | none => exact h.standing
    | some d => rfl
  · rintro id d (hd | ⟨j, hown⟩)
    · change (s.commit i).device id = some d at hd
      rw [hcom] at hd
      exact (Option.or_eq_some_iff.mp hd).elim (fun hown => .inr ⟨i, hown⟩) fun hd => .inl hd.2
    · exact .inr ⟨j, own_of_dropDirty rfl hown⟩

/-- A row is written that is no device, or a device that is in order. -/
private theorem Standing.written {t : Table} {id : Nat} {row : Row ⟨t, id⟩} {nextId : Table → Nat}
    (h : Standing Ok device s) (hnextId : ∀ t, s.nextId t ≤ nextId t)
    (hrow : ∀ (ht : .devices = t) (d : Device), ht ▸ d = row.record →
      (id = device.id → Device.deviceUuid d = device.deviceUuid ∧
        Device.deviceSecretHash d = device.deviceSecretHash ∧ Ok d) ∧
      (Device.deviceUuid d = device.deviceUuid → id = device.id)) :
    Standing Ok device (s.written i t id row nextId) where
  kept k j hk := by
    by_cases hkey : k = ⟨t, id⟩
    · subst hkey
      simp [State.written] at hk
    · rw [State.written, Database.write_dirty_ne _ hkey] at hk
      exact h.kept k j hk
  bound := Nat.lt_of_lt_of_le h.bound (hnextId .devices)
  standing := h.standing
  versions d hd := by
    obtain hold | ⟨ht, hid, hrecord⟩ := version_written hd
    · exact h.versions d hold
    · exact (hrow ht d hrecord).1 hid.symm
  others id' d hd huuid := by
    obtain hold | ⟨ht, rfl, hrecord⟩ := version_written hd
    · exact h.others id' d hold huuid
    · exact (hrow ht d hrecord).2 huuid

/-- An operation leaves the device in order if what it writes is. -/
theorem Standing.performed (h : Standing Ok device s) (heffect : Effect sign i s op answer s')
    (htends : Tends op) (hok : ∀ old new, rewritten i device op s = some (old, new) → Ok old → Ok new) :
    Standing Ok device s' := by
  have hle := heffect.nextId_le
  cases heffect with
  | @hit t id assign row row' hview hassign hfree =>
    refine h.written (fun _ => Nat.le_refl _) fun ht d hd => ?_
    subst ht
    obtain rfl : d = row'.record := hd
    obtain ⟨huuid, hhash⟩ := htends row row' hassign
    constructor
    · rintro rfl
      obtain ⟨huuid', hhash', hok'⟩ := h.versions row.record (version_of_view hview)
      refine ⟨huuid.trans huuid', hhash.trans hhash', hok _ _ ?_ hok'⟩
      simp only [rewritten, if_pos, hview, Option.bind_some, hassign, Option.map_some]
    · exact fun hd => h.others id row.record (version_of_view hview) (huuid.symm.trans hd)
  | @violation t make => exact h.of_db rfl (hle _)
  | @inserted t make hviolates =>
    refine h.written hle fun ht d hd => ?_
    subst ht
    exact htends.elim
  | commit => exact h.commit
  | close => exact h.dropped rfl (fun _ _ => Database.dirty_of_dropDirty) rfl
  | query | miss | now | tokenUrlsafe | uuid4 | signPayload => exact h.of_db rfl (Nat.le_refl _)

/-- A device stays the same under a transaction of another endpoint, and so does its request. -/
private theorem device_maintain {k : Key} {version : Option (Row k)} {id : Nat} {d : Device}
    (hforeign : foreign s k version = true) (hd : s.device id = some d) :
    ∃ d', (s.maintain k version).device id = some d' ∧
      Device.deviceUuid d' = d.deviceUuid ∧ Device.deviceSecretHash d' = d.deviceSecretHash ∧
      Device.updateRequestedAt d' = d.updateRequestedAt ∧
      Device.updateRequestedFromVersion d' = d.updateRequestedFromVersion := by
  by_cases hk : (⟨.devices, id⟩ : Key) = k
  · subst hk
    obtain ⟨row, hrow, rfl⟩ := Option.map_eq_some_iff.mp hd
    simp only [Heartbeats.foreign, hrow, Bool.and_eq_true, Option.any_eq_true,
      decide_eq_true_eq] at hforeign
    obtain ⟨-, new, rfl, ⟨⟨huuid, hhash⟩, hat⟩, hfrom⟩ := hforeign
    refine ⟨new.record, ?_, huuid, hhash, hat, hfrom⟩
    simp only [State.device, State.com, State.maintain, Function.update_self]
    rfl
  · exact ⟨d, (com_maintain hk).trans hd, rfl, rfl, rfl, rfl⟩

/-- A version after such a transaction was there before, or it is the row of a device whose request is as
before, or of a new device whose UUID is new. -/
private theorem version_maintain {k : Key} {version : Option (Row k)} {id : Nat} {d : Device}
    (hforeign : foreign s k version = true) (hd : (s.maintain k version).Version .devices id d) :
    s.Version .devices id d ∨ (∃ old, s.device id = some old ∧
      Device.deviceUuid d = old.deviceUuid ∧ Device.deviceSecretHash d = old.deviceSecretHash ∧
      Device.updateRequestedAt d = old.updateRequestedAt ∧
      Device.updateRequestedFromVersion d = old.updateRequestedFromVersion) ∨
    (⟨.devices, id⟩ = k ∧ s.device id = none ∧ registered s (Device.deviceUuid d) = false ∧
      (s.maintain k version).device id = some d) := by
  by_cases hk : (⟨.devices, id⟩ : Key) = k
  · rcases hd with hcom | ⟨j, hown⟩
    · cases hold : s.device id with
      | none =>
        have hnew := hcom
        subst hk
        simp only [State.com, State.maintain, Function.update_self] at hnew
        obtain ⟨new, rfl, rfl⟩ := Option.map_eq_some_iff.mp hnew
        simp only [Heartbeats.foreign, Option.map_eq_none_iff.mp hold, Option.all_some,
          Bool.and_eq_true, Bool.not_eq_true'] at hforeign
        exact .inr (.inr ⟨rfl, rfl, hforeign.2, hcom⟩)
      | some old =>
        obtain ⟨d', hd', hsame⟩ := device_maintain hforeign hold
        obtain rfl := Option.some.inj (hcom.symm.trans hd')
        exact .inr (.inl ⟨old, rfl, hsame⟩)
    · obtain ⟨row, hrow, -⟩ := State.own_eq_some.mp hown
      have hfree : s.db.dirty k = none := by
        obtain ⟨t, id⟩ := k
        cases t <;> simp_all [Heartbeats.foreign]
      subst hk
      change s.db.dirty _ = _ at hrow
      rw [hfree] at hrow
      contradiction
  · rcases hd with hcom | ⟨j, hown⟩
    · exact .inl (.inl ((com_maintain hk).symm.trans hcom))
    · exact .inl (.inr ⟨j, hown⟩)

/-- A registered device is found under its UUID. -/
private theorem Standing.registered (h : Standing Ok device s) : registered s device.deviceUuid = true := by
  obtain ⟨current, hcurrent⟩ := Option.isSome_iff_exists.mp h.standing
  obtain ⟨row, hrow, rfl⟩ := Option.map_eq_some_iff.mp hcurrent
  refine List.any_eq_true.mpr ⟨device.id, List.mem_range.mpr h.bound, ?_⟩
  rw [hrow]
  exact decide_eq_true (h.versions _ (.inl hcurrent)).1

/-- Identifiers only grow. -/
private theorem nextId_maintain {k : Key} {version : Option (Row k)} (t : Table) :
    s.nextId t ≤ (s.maintain k version).nextId t := by
  by_cases ht : t = k.table
  · simp [State.maintain, ← ht]
  · simp [State.maintain, Function.update_of_ne ht]

/-- A transaction of another endpoint leaves the device in order. -/
theorem Standing.foreign {k : Key} {version : Option (Row k)} (h : Standing Ok device s)
    (hforeign : foreign s k version = true) (hok : ∀ old new : Device,
      new.updateRequestedAt = old.updateRequestedAt →
      new.updateRequestedFromVersion = old.updateRequestedFromVersion → Ok old → Ok new) :
    Standing Ok device (s.maintain k version) := by
  obtain ⟨current, hcurrent⟩ := Option.isSome_iff_exists.mp h.standing
  refine ⟨h.kept, Nat.lt_of_lt_of_le h.bound (nextId_maintain _), ?_, fun d hd => ?_,
    fun id d hd huuid => ?_⟩
  · obtain ⟨d', hd', -⟩ := device_maintain hforeign hcurrent
    rw [hd']
    rfl
  · obtain hold | ⟨old, hold, huuid, hhash, hat, hfrom⟩ | ⟨-, hnone, -⟩ := version_maintain hforeign hd
    · exact h.versions d hold
    · obtain ⟨huuid', hhash', hok'⟩ := h.versions old (.inl hold)
      exact ⟨huuid.trans huuid', hhash.trans hhash', hok old d hat hfrom hok'⟩
    · rw [hcurrent] at hnone
      contradiction
  · obtain hold | ⟨old, hold, huuid', -⟩ | ⟨-, -, hnone, -⟩ := version_maintain hforeign hd
    · exact h.others id d hold huuid
    · exact h.others id old (.inl hold) (huuid'.symm.trans huuid)
    · rw [huuid, h.registered] at hnone
      contradiction

end Steps

/-- Every device is registered once. -/
structure Orderly (s : State) : Prop where
  kept : ∀ k j, s.db.dirty k ≠ some (j, none)
  standing : ∀ id d, s.Version .devices id d → Standing (fun _ => True) d s

/-- A database with no open transaction, whose devices are registered once. -/
structure Registry (s : State) : Prop where
  dirty : ∀ k, s.db.dirty k = none
  bounded : ∀ id d, s.device id = some d → id < s.nextId .devices
  distinct : ∀ id id' d d', s.device id = some d → s.device id' = some d' →
    d.deviceUuid = d'.deviceUuid → id = id'

section Registry

variable {device d : Device} {sign : List UInt8 → List UInt8} {i : Sid} {s s' : State} {id : Nat}
  {op : Op} {answer : Res op}

/-- The row of a version has its key. -/
private theorem id_of_version (hd : s.Version .devices id d) : d.id = id := by
  rcases hd with hcom | ⟨j, hown⟩
  · exact id_of_com hcom
  · obtain ⟨row, -, rfl⟩ := State.own_eq_some.mp hown
    exact row.id_eq

/-- What is said of a device is said of every row of it. -/
private theorem Standing.congr (h : Standing (fun _ => True) device s) (hid : d.id = device.id)
    (huuid : d.deviceUuid = device.deviceUuid) (hhash : d.deviceSecretHash = device.deviceSecretHash) :
    Standing (fun _ => True) d s where
  kept := h.kept
  bound := hid ▸ h.bound
  standing := hid ▸ h.standing
  versions d' hd' := by
    obtain ⟨huuid', hhash', -⟩ := h.versions d' (hid ▸ hd')
    exact ⟨huuid'.trans huuid.symm, hhash'.trans hhash.symm, trivial⟩
  others id' d' hd' heq := (h.others id' d' hd' (heq.trans huuid)).trans hid.symm

/-- Such a database is in order. -/
theorem Registry.orderly (h : Registry s) : Orderly s := by
  have hversion : ∀ {id d}, s.Version .devices id d → s.device id = some d := by
    rintro id d (hcom | ⟨j, hown⟩)
    · exact hcom
    · obtain ⟨row, hrow, -⟩ := State.own_eq_some.mp hown
      rw [h.dirty] at hrow
      contradiction
  have hkept : ∀ k j, s.db.dirty k ≠ some (j, none) := fun k j hk => by
    rw [h.dirty] at hk
    contradiction
  refine ⟨hkept, fun id d hd => ?_⟩
  obtain rfl := id_of_version hd
  have hd := hversion hd
  refine ⟨hkept, h.bounded _ d hd, by rw [hd]; rfl, fun d' hd' => ?_, fun id' d' hd' huuid => ?_⟩
  · obtain rfl := Option.some.inj ((hversion hd').symm.trans hd)
    exact ⟨rfl, rfl, trivial⟩
  · exact h.distinct _ _ d' d (hversion hd') hd huuid

/-- A step keeps the registry in order that leaves the devices in order and registers none. -/
private theorem Orderly.of_standing (h : Orderly s) (hkept : ∀ k j, s'.db.dirty k ≠ some (j, none))
    (hstep : ∀ device, Standing (fun _ => True) device s → Standing (fun _ => True) device s')
    (hversion : ∀ id d, s'.Version .devices id d → (∃ d', s.Version .devices id d') ∨
      Standing (fun _ => True) d s') : Orderly s' := by
  refine ⟨hkept, fun id d hd => (hversion id d hd).elim (fun hold => ?_) fun hnew => hnew⟩
  obtain ⟨d', hd'⟩ := hold
  have hstanding := hstep d' (h.standing id d' hd')
  obtain ⟨huuid, hhash, -⟩ := hstanding.versions d (id_of_version hd' ▸ hd)
  exact hstanding.congr ((id_of_version hd).trans (id_of_version hd').symm) huuid hhash

/-- No operation deletes a row. -/
private theorem kept_performed (hkept : ∀ k j, s.db.dirty k ≠ some (j, none))
    (heffect : Effect sign i s op answer s') : ∀ k j, s'.db.dirty k ≠ some (j, none) := by
  have hwritten : ∀ (t : Table) (id : Nat) (row : Row ⟨t, id⟩) (nextId : Table → Nat) (k : Key) (j : Sid),
      (s.written i t id row nextId).db.dirty k ≠ some (j, none) := by
    intro t id row nextId k j hk
    by_cases hkey : k = ⟨t, id⟩
    · subst hkey
      simp [State.written] at hk
    · rw [State.written, Database.write_dirty_ne _ hkey] at hk
      exact hkept k j hk
  cases heffect with
  | hit => exact hwritten _ _ _ _
  | inserted => exact hwritten _ _ _ _
  | commit | close => exact fun k j hk => hkept k j (Database.dropDirty_eq_some.mp hk).1
  | _ => exact hkept

/-- An operation that leaves who the devices are registers none. -/
private theorem version_performed (hkept : ∀ k j, s.db.dirty k ≠ some (j, none))
    (heffect : Effect sign i s op answer s') (htends : Tends op)
    (hd : s'.Version .devices id d) : ∃ d', s.Version .devices id d' := by
  cases heffect with
  | hit hview hassign hfree =>
    obtain hold | ⟨rfl, rfl, -⟩ := version_written hd
    · exact ⟨d, hold⟩
    · exact ⟨_, version_of_view hview⟩
  | inserted hviolates =>
    obtain hold | ⟨rfl, -, -⟩ := version_written hd
    · exact ⟨d, hold⟩
    · exact htends.elim
  | commit =>
    rcases hd with hcom | ⟨j, hown⟩
    · rw [com_commit_of_kept hkept] at hcom
      exact (Option.or_eq_some_iff.mp hcom).elim (fun hown => ⟨d, .inr ⟨i, hown⟩⟩)
        fun hcom => ⟨d, .inl hcom.2⟩
    · exact ⟨d, .inr ⟨j, own_of_dropDirty rfl hown⟩⟩
  | close =>
    rcases hd with hcom | ⟨j, hown⟩
    · exact ⟨d, .inl hcom⟩
    · exact ⟨d, .inr ⟨j, own_of_dropDirty rfl hown⟩⟩
  | _ => exact ⟨d, hd⟩

/-- An operation that leaves who the devices are keeps the registry in order. -/
theorem Orderly.performed (h : Orderly s) (heffect : Effect sign i s op answer s') (htends : Tends op) :
    Orderly s' :=
  h.of_standing (kept_performed h.kept heffect)
    (fun _ hstanding => hstanding.performed heffect htends fun _ _ _ _ => trivial)
    fun _ _ hd => .inl (version_performed h.kept heffect htends hd)

/-- Dropping versions keeps it in order. -/
theorem Orderly.dropped (h : Orderly s) (hcommitted : s'.db.committed = s.db.committed)
    (hdirty : ∀ k version, s'.db.dirty k = some version → s.db.dirty k = some version)
    (hnextId : s'.nextId = s.nextId) : Orderly s' := by
  refine h.of_standing (fun k j hk => h.kept k j (hdirty k _ hk))
    (fun _ hstanding => hstanding.dropped hcommitted hdirty hnextId) ?_
  rintro id d (hcom | ⟨j, hown⟩)
  · exact .inl ⟨d, .inl ((com_congr hcommitted _ _).symm.trans hcom)⟩
  · obtain ⟨row, hrow, rfl⟩ := State.own_eq_some.mp hown
    exact .inl ⟨row.record, .inr ⟨j, State.own_eq_some.mpr ⟨row, hdirty _ _ hrow, rfl⟩⟩⟩

/-- So does a transaction of another endpoint, which may register a device. -/
private theorem Orderly.foreign {k : Key} {version : Option (Row k)} (h : Orderly s)
    (hforeign : foreign s k version = true) : Orderly (s.maintain k version) := by
  refine h.of_standing h.kept (fun _ hstanding => hstanding.foreign hforeign fun _ _ _ _ _ => trivial)
    fun id d hd => ?_
  obtain hold | ⟨old, hold, -⟩ | ⟨hk, hnone, hnew, hcom⟩ := version_maintain hforeign hd
  · exact .inl ⟨d, hold⟩
  · exact .inl ⟨old, .inl hold⟩
  obtain rfl := id_of_version hd
  -- no version of another row has the UUID of the new device
  have hothers : ∀ id' d', s.Version .devices id' d' → d'.deviceUuid ≠ d.deviceUuid := by
    intro id' d' hd' huuid
    have hregistered := (h.standing id' d' hd').registered
    rw [huuid, hnew] at hregistered
    contradiction
  have hfresh : ∀ d', ¬ s.Version .devices d.id d' := by
    intro d' hd'
    have hstanding := (h.standing _ d' hd').standing
    rw [id_of_version hd', hnone] at hstanding
    contradiction
  refine .inr ⟨h.kept, ?_, by rw [hcom]; rfl, fun d' hd' => ?_, fun id' d' hd' huuid => ?_⟩
  · subst hk
    simp only [State.maintain, Function.update_self]
    omega
  · obtain hold | ⟨old, hold, -⟩ | ⟨-, -, -, hcom'⟩ := version_maintain hforeign hd'
    · exact absurd hold (hfresh d')
    · rw [hnone] at hold
      contradiction
    · obtain rfl := Option.some.inj (hcom'.symm.trans hcom)
      exact ⟨rfl, rfl, trivial⟩
  · obtain hold | ⟨old, hold, huuid', -⟩ | ⟨hk', -⟩ := version_maintain hforeign hd'
    · exact absurd huuid (hothers id' d' hold)
    · exact absurd (huuid'.symm.trans huuid) (hothers id' old (.inl hold))
    · exact (Key.mk.inj (hk'.trans hk.symm)).2

end Registry

section Environment

variable {Ok : Device → Prop} {device : Device} {s s' : State}

/-- What every transaction of another endpoint keeps, everything keeps that happens beside the calls. -/
private theorem env_induction {P : State → Prop} {event : Event} (henv : env event s = some s') (h : P s)
    (hclock : ∀ (s : State) (clock : Datetime), P s → P { s with clock := clock })
    (hforeign : ∀ (s : State) (k : Key) (version : Option (Row k)), foreign s k version = true → P s →
      P (s.maintain k version)) : P s' := by
  cases event with
  | advance clock =>
    simp only [Heartbeats.env] at henv
    split at henv
    · obtain rfl := Option.some.inj henv
      exact hclock s clock h
    · contradiction
  | transact rows =>
    change transact s rows = some s' at henv
    induction rows generalizing s with
    | nil => exact Option.some.inj henv ▸ h
    | cons change rest ih =>
      obtain ⟨k, version⟩ := change
      simp only [transact] at henv
      split at henv
      · next hallowed => exact ih (hforeign s k version hallowed h) henv
      · contradiction

/-- What happens beside the calls leaves the device in order. -/
theorem Standing.env {event : Event} (h : Standing Ok device s) (henv : env event s = some s')
    (hok : ∀ old new : Device, new.updateRequestedAt = old.updateRequestedAt →
      new.updateRequestedFromVersion = old.updateRequestedFromVersion → Ok old → Ok new) :
    Standing Ok device s' :=
  env_induction henv h (fun _ _ h => h.of_db rfl (Nat.le_refl _))
    fun _ _ _ hallowed h => h.foreign hallowed hok

/-- It keeps the registry in order. -/
theorem Orderly.env {event : Event} (h : Orderly s) (henv : env event s = some s') : Orderly s' :=
  env_induction henv h
    (fun _ _ h => ⟨h.kept, fun id d hd => (h.standing id d hd).of_db rfl (Nat.le_refl _)⟩)
    fun _ _ _ hallowed h => h.foreign hallowed

end Environment

/-- The committed row of the device carries no request. -/
def Cleared (device : Device) (s : State) : Prop :=
  ∀ d, s.device device.id = some d → Device.updateRequestedAt d = none

/-- While no request is committed, none is under way. -/
def Settled (device : Device) (s : State) : Prop :=
  Cleared device s → Standing (fun d => d.updateRequestedAt = none) device s

section Clearing

variable {Ok : Device → Prop} {device : Device} {sign : List UInt8 → List UInt8} {i j : Sid}
  {s s' : State} {op : Op} {answer : Res op} {id : Nat}

/-- Every session sees the device. -/
theorem Standing.view (h : Standing Ok device s) (i : Sid) :
    ∃ row, s.db.view i ⟨.devices, device.id⟩ = some row := by
  rw [← Option.isSome_iff_exists]
  rcases s.db.view_cases i ⟨.devices, device.id⟩ with hown | ⟨-, hcommitted⟩
  · cases hview : s.db.view i ⟨.devices, device.id⟩ with
    | none =>
      rw [hview] at hown
      exact absurd hown (h.kept _ _)
    | some row => rfl
  · rw [hcommitted]
    exact Option.isSome_map.symm.trans h.standing

/-- Where no version carries a request, the committed one does not. -/
theorem Standing.cleared (h : Standing (fun d => d.updateRequestedAt = none) device s) :
    Cleared device s := fun d hd => (h.versions d (.inl hd)).2.2

/-- Where every version carries a request, none is missing. -/
theorem Standing.settled (h : Standing (fun d => d.updateRequestedAt.isSome) device s) :
    Settled device s := by
  intro hcleared
  obtain ⟨d, hd⟩ := Option.isSome_iff_exists.mp h.standing
  have hasked := (h.versions d (.inl hd)).2.2
  rw [hcleared d hd] at hasked
  contradiction

/-- Where a session commits the device, its version is the only one. -/
theorem Standing.committed {Ok' : Device → Prop} {d : Device} (h : Standing Ok device s)
    (hown : s.own i .devices device.id = some d) (hok : Ok' d) : Standing Ok' device (s.commit i) := by
  have hcommit := h.commit (i := i)
  refine ⟨hcommit.kept, hcommit.bound, hcommit.standing, fun d' hd' => ?_, hcommit.others⟩
  obtain ⟨huuid, hhash, -⟩ := hcommit.versions d' hd'
  refine ⟨huuid, hhash, ?_⟩
  rcases hd' with hd' | ⟨j, hown'⟩
  · rw [com_commit_of_kept h.kept, hown] at hd'
    exact Option.some.inj hd' ▸ hok
  · obtain rfl := own_unique hown (own_of_dropDirty rfl hown')
    rw [show (s.commit i).own i .devices device.id = none from own_dropDirty rfl] at hown'
    contradiction

/-- An operation that asks for nothing leaves it so. -/
theorem Settled.performed (h : Settled device s) (hstanding : Standing Ok device s)
    (heffect : Effect sign i s op answer s') (htends : Tends op)
    (hstays : ∀ old new, rewritten i device op s = some (old, new) → old.updateRequestedAt = none →
      new.updateRequestedAt = none) : Settled device s' := by
  intro hcleared
  by_cases hs : Cleared device s
  · exact (h hs).performed heffect htends hstays
  -- only a commit publishes another row, and it leaves no version beside it
  have hop : op = .commit := by
    by_contra hop
    refine hs fun d hd => hcleared d ?_
    rw [State.device, com_congr (heffect.committed hop)]
    exact hd
  subst hop
  cases heffect with
  | commit =>
    have hcom : (s.commit i).device device.id = (s.own i .devices device.id).or (s.device device.id) :=
      com_commit_of_kept hstanding.kept .devices device.id
    cases hown : s.own i .devices device.id with
    | none =>
      rw [hown, Option.none_or] at hcom
      exact absurd (fun d hd => hcleared d (hcom.trans hd)) hs
    | some d =>
      rw [hown] at hcom
      exact hstanding.committed hown (hcleared d hcom)

/-- Nor does dropping versions ask for anything. -/
theorem Settled.dropped (h : Settled device s) (hcommitted : s'.db.committed = s.db.committed)
    (hdirty : ∀ k version, s'.db.dirty k = some version → s.db.dirty k = some version)
    (hnextId : s'.nextId = s.nextId) : Settled device s' := fun hcleared =>
  (h fun d hd => hcleared d ((com_congr hcommitted _ _).trans hd)).dropped hcommitted hdirty hnextId

/-- Nor does what happens beside the calls. -/
theorem Settled.env {event : Event} (h : Settled device s) (henv : env event s = some s') :
    Settled device s' := by
  refine env_induction henv h (fun s clock h hcleared => ?_) fun s k version hallowed h hcleared => ?_
  · exact (h hcleared).of_db rfl (Nat.le_refl _)
  · refine Standing.foreign (h fun d hd => ?_) hallowed fun old new hat _ hold => hat.trans hold
    obtain ⟨d', hd', -, -, hat, -⟩ := device_maintain hallowed hd
    exact hat.symm.trans (hcleared d' hd')

/-- An operation leaves the devices that other sessions have written. -/
theorem own_performed (heffect : Effect sign i s op answer s') (htends : Tends op) (hji : j ≠ i) :
    s'.own j .devices id = s.own j .devices id := by
  cases heffect with
  | hit hview hassign hfree => exact own_written_other hji hfree
  | @inserted t make hviolates =>
    refine own_written_ne fun hkey => ?_
    obtain ⟨rfl, -⟩ := Key.mk.inj hkey
    exact htends
  | commit => exact own_of_frame (Database.commit_frame hji.symm) _ _
  | close => exact own_of_frame (Database.rollback_frame hji.symm) _ _
  | _ => rfl

/-- So does what happens beside the calls. -/
theorem own_env {event : Event} (henv : env event s = some s') :
    s'.own j .devices id = s.own j .devices id :=
  env_induction (P := fun s' => s'.own j .devices id = s.own j .devices id) henv rfl
    (fun _ _ h => h) fun _ _ _ _ h => h

end Clearing

/-- What a session may know of a row that it has read. -/
structure Known (Ok : Device → Prop) (device d : Device) : Prop where
  same : Device.id d = device.id → Device.deviceUuid d = device.deviceUuid ∧
    Device.deviceSecretHash d = device.deviceSecretHash ∧ Ok d
  only : Device.deviceUuid d = device.deviceUuid → Device.id d = device.id

section Knowledge

variable {Ok : Device → Prop} {device : Device} {sign : List UInt8 → List UInt8} {i : Sid}
  {s s' : State} {choice : Choice} {snapshot : Snapshot}

/-- A version of a row is known. -/
theorem Standing.known (h : Standing Ok device s) {d : Device} (hd : s.Version .devices d.id d) :
    Known Ok device d where
  same hid := h.versions d (hid ▸ hd)
  only := h.others _ d hd

/-- A device that is read is a version of its row. -/
private theorem version_of_read (hperform : perform sign i .query choice s = some (snapshot, s'))
    {d : Device} (hd : d ∈ snapshot.rows .devices) : s.Version .devices d.id d := by
  obtain ⟨hrow, -, -⟩ := perform_query hperform
  obtain hown | ⟨-, hcom⟩ := visible_of_mem_rows hrow hd
  · exact .inr ⟨i, hown⟩
  · exact .inl hcom

/-- What is read of the devices is known. -/
theorem Standing.read (h : Standing Ok device s)
    (hperform : perform sign i .query choice s = some (snapshot, s')) {d : Device}
    (hd : d ∈ snapshot.rows .devices) : Known Ok device d :=
  h.known (version_of_read hperform hd)

/-- A session that has not written the device finds its committed row under its UUID, and no other. -/
theorem Standing.found (h : Standing Ok device s) (hown : s.own i .devices device.id = none)
    (hperform : perform sign i .query choice s = some (snapshot, s')) :
    ∃ d, (snapshot.rows .devices).filter (fun d => decide (Device.deviceUuid d = device.deviceUuid)) =
      [d] ∧ d.id = device.id ∧ s.device device.id = some d := by
  obtain ⟨hrow, hids, -⟩ := perform_query hperform
  obtain ⟨current, hcurrent⟩ := Option.isSome_iff_exists.mp h.standing
  have hid : current.id = device.id := id_of_com hcurrent
  have hcommitted : ∀ d ∈ snapshot.rows .devices, Device.deviceUuid d = device.deviceUuid →
      d = current := by
    intro d hd huuid
    have hsame := (h.read hperform hd).only huuid
    obtain hown' | ⟨-, hcom⟩ := visible_of_mem_rows hrow hd
    · rw [show Table.devices.id d = device.id from hsame, hown] at hown'
      contradiction
    · rw [show Table.devices.id d = device.id from hsame] at hcom
      exact Option.some.inj (hcom.symm.trans hcurrent)
  have hmem : current ∈ snapshot.rows .devices := by
    refine Snapshot.mem_rows.mpr ⟨(hids .devices).mem_iff.mpr (List.mem_range.mpr ?_), ?_⟩
    · rw [show Table.devices.id current = device.id from hid]
      exact h.bound
    · have hview : s.db.view i ⟨.devices, device.id⟩ = s.db.committed ⟨.devices, device.id⟩ := by
        refine Database.view_of_not_dirty fun version hdirty => ?_
        cases version with
        | none => exact h.kept _ _ hdirty
        | some row =>
          rw [State.own_eq_some.mpr ⟨row, hdirty, rfl⟩] at hown
          contradiction
      rw [hrow, show Table.devices.id current = device.id from hid, hview]
      exact hcurrent
  have huuid : Device.deviceUuid current = device.deviceUuid := (h.versions _ (.inl hcurrent)).1
  refine ⟨current, ?_, hid, hcurrent⟩
  rcases filter_eq_of_unique (Snapshot.nodup_rows ((hids .devices).nodup_iff.mpr List.nodup_range))
    fun d hd d' hd' hc hc' => (hcommitted d hd (of_decide_eq_true hc)).trans
      (hcommitted d' hd' (of_decide_eq_true hc')).symm with hfilter | ⟨d, hfilter⟩
  · have hnone := List.filter_eq_nil_iff.mp hfilter current hmem
    simp [huuid] at hnone
  · obtain ⟨hd, hc⟩ := List.mem_filter.mp (hfilter ▸ List.mem_singleton_self d)
    exact hfilter.trans (congrArg (fun d => [d]) (hcommitted d hd (of_decide_eq_true hc)))

end Knowledge

end ElevateGate.Backend.Heartbeats
