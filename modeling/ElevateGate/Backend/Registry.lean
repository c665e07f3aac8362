import ElevateGate.Backend.Enrollment

/-!
# The registry of devices

What holds of the devices in every state that the enrollments reach: a UUID is enrolled at most once,
and who is enrolled stays enrolled under the same secret. The commit that makes a UUID known is the
only one for this UUID, and the log names its session.
-/

namespace ElevateGate.Backend.Enrollment

open Interaction Time Text Handler

/-- A state with the log of the run that led to it. -/
abbrev Record := Recorded Op Res Sid Event State

/-- Some committed device has the UUID. -/
def Enrolled (u : Uuid) (s : State) : Prop := ∃ id d, s.device id = some d ∧ d.deviceUuid = u

/-- What holds of the devices. An uncommitted device is a new one. -/
structure Sound (s : State) : Prop where
  kept : ∀ k j, s.db.dirty k ≠ some (j, none)
  fresh : ∀ k, s.nextId k.table ≤ k.id → s.db.committed k = none ∧ s.db.dirty k = none
  distinct : ∀ id id' d d', s.Version .devices id d → s.Version .devices id' d' →
    Device.deviceUuid d = Device.deviceUuid d' → id = id'
  unshared : ∀ j id d, s.own j .devices id = some d → s.device id = none

/-- Devices stay, and what identifies and authenticates them stays with them. -/
def Lasts (s s' : State) : Prop :=
  ∀ id d, s.device id = some d →
    ∃ d', s'.device id = some d' ∧ d'.deviceUuid = d.deviceUuid ∧
      d'.deviceSecretHash = d.deviceSecretHash

/-- What a session relies on. -/
structure Rely (i : Sid) (r r' : Record) : Prop where
  frame : Database.Frame i r.state.db r'.state.db
  lasts : Lasts r.state r'.state
  mine : mine i r'.log = mine i r.log

/-- A deed commits a device with the UUID. -/
def Enters (u : Uuid) (i : Sid) (deed : Deed) : Prop :=
  deed.op = .commit ∧ ∃ id d, deed.before.own i .devices id = some d ∧ Device.deviceUuid d = u

/-- What holds of the devices and the log of a run. -/
structure Logged (r : Record) : Prop where
  sound : Sound r.state
  past : ∀ i deed, .performed i deed ∈ r.log → Lasts deed.before r.state
  entered : ∀ u i deed, .performed i deed ∈ r.log → Enters u i deed → Enrolled u r.state
  once : ∀ u i j deed deed', .performed i deed ∈ r.log → .performed j deed' ∈ r.log →
    Enters u i deed → Enters u j deed' → i = j

section Lasting

variable {s s' s'' : State} {u : Uuid}

theorem Lasts.refl (s : State) : Lasts s s := fun _ d h => ⟨d, h, rfl, rfl⟩

theorem Lasts.trans (h : Lasts s s') (h' : Lasts s' s'') : Lasts s s'' := by
  intro id d hd
  obtain ⟨d', hd', huuid, hhash⟩ := h id d hd
  obtain ⟨d'', hd'', huuid', hhash'⟩ := h' id d' hd'
  exact ⟨d'', hd'', huuid'.trans huuid, hhash'.trans hhash⟩

/-- A step that leaves the committed rows leaves the devices. -/
theorem Lasts.of_committed (h : s'.db.committed = s.db.committed) : Lasts s s' := fun id d hd =>
  ⟨d, (com_congr h .devices id).trans hd, rfl, rfl⟩

/-- Who is enrolled stays enrolled. -/
theorem Lasts.enrolled (h : Lasts s s') (hu : Enrolled u s) : Enrolled u s' := by
  obtain ⟨id, d, hd, huuid⟩ := hu
  obtain ⟨d', hd', huuid', -⟩ := h id d hd
  exact ⟨id, d', hd', huuid'.trans huuid⟩

/-- A step that leaves the committed rows enrols nobody. -/
theorem enrolled_of_committed (h : s'.db.committed = s.db.committed) (hu : Enrolled u s') :
    Enrolled u s := by
  obtain ⟨id, d, hd, huuid⟩ := hu
  exact ⟨id, d, (com_congr h .devices id).symm.trans hd, huuid⟩

theorem Rely.refl (i : Sid) (r : Record) : Rely i r r := ⟨.refl i _, .refl _, rfl⟩

theorem Rely.trans {i : Sid} {r r' r'' : Record} (h : Rely i r r') (h' : Rely i r' r'') :
    Rely i r r'' :=
  ⟨h.frame.trans h'.frame, h.lasts.trans h'.lasts, h'.mine.trans h.mine⟩

end Lasting

section Soundness

variable {s s' : State} {i : Sid}

/-- A step that leaves the rows leaves the registry sound. -/
theorem Sound.of_db (h : Sound s) (hdb : s'.db = s.db) (hnextId : ∀ t, s.nextId t ≤ s'.nextId t) :
    Sound s' where
  kept k j := by rw [hdb]; exact h.kept k j
  fresh k hk := by rw [hdb]; exact h.fresh k (Nat.le_trans (hnextId _) hk)
  distinct id id' d d' hd hd' := by
    simp only [State.Version, State.com, State.own, hdb] at hd hd'
    exact h.distinct id id' d d' hd hd'
  unshared j id d hd := by
    simp only [State.device, State.com, State.own, hdb] at hd ⊢
    exact h.unshared j id d hd

/-- Dropping versions leaves the registry sound. -/
theorem Sound.dropped (h : Sound s) (hcommitted : s'.db.committed = s.db.committed)
    (hdirty : ∀ k version, s'.db.dirty k = some version → s.db.dirty k = some version)
    (hnextId : s'.nextId = s.nextId) : Sound s' := by
  have hown : ∀ j id d, s'.own j .devices id = some d → s.own j .devices id = some d := by
    intro j id d hd
    obtain ⟨row, hrow, rfl⟩ := State.own_eq_some.mp hd
    exact State.own_eq_some.mpr ⟨row, hdirty _ _ hrow, rfl⟩
  have hversion : ∀ id d, s'.Version .devices id d → s.Version .devices id d := by
    rintro id d (hcom | ⟨j, hd⟩)
    · exact .inl (by rwa [← com_congr hcommitted])
    · exact .inr ⟨j, hown j id d hd⟩
  refine ⟨fun k j hk => h.kept k j (hdirty k _ hk), fun k hk => ?_, fun id id' d d' hd hd' =>
    h.distinct id id' d d' (hversion id d hd) (hversion id' d' hd'), fun j id d hd => ?_⟩
  · rw [hnextId] at hk
    obtain ⟨hcom, hnone⟩ := h.fresh k hk
    refine ⟨by rw [hcommitted, hcom], Option.eq_none_iff_forall_ne_some.mpr fun version hv => ?_⟩
    rw [hdirty k version hv] at hnone
    contradiction
  · exact (com_congr hcommitted _ _).trans (h.unshared j id d (hown j id d hd))

/-- A device that may be inserted has a new UUID. -/
private theorem Sound.not_clash {record : Device} (h : Sound s)
    (hblocked : ¬ s.blocked i .devices record = true)
    (hviolates : ¬ s.violates i .devices record = true) (id : Nat) (d : Device)
    (hd : s.Version .devices id d) : d.deviceUuid ≠ record.deviceUuid := by
  have hfalse := (not_clash_of_unblocked h.kept h.fresh (fun id j r r' hr hr' => ?_) hblocked hviolates
    hd).2
  · exact of_decide_eq_false hfalse
  · have hnone : s.com .devices id = none := h.unshared j id r' hr'
    rw [hnone] at hr
    contradiction

/-- Inserting a row that need not wait and violates no index leaves the registry sound. -/
theorem Sound.inserted {t : Table} {row : Row ⟨t, s.nextId t⟩} (h : Sound s)
    (hblocked : ¬ s.blocked i t row.record = true) (hviolates : ¬ s.violates i t row.record = true) :
    Sound (s.written i t (s.nextId t) row (Function.update s.nextId t (s.nextId t + 1))) := by
  refine ⟨fun k j hk => ?_, fun k hk => ?_, fun id id' d d' hd hd' huuid => ?_, fun j id d hd => ?_⟩
  · by_cases hkey : k = ⟨t, s.nextId t⟩
    · subst hkey
      simp [State.written] at hk
    · rw [State.written, Database.write_dirty_ne _ hkey] at hk
      exact h.kept k j hk
  · have hkey : k ≠ ⟨t, s.nextId t⟩ := by
      rintro rfl
      simp [State.written] at hk
    have hle : s.nextId k.table ≤ k.id := by
      refine Nat.le_trans ?_ hk
      by_cases ht : k.table = t
      · subst ht
        simp [State.written]
      · simp [State.written, Function.update_of_ne ht]
    obtain ⟨hcom, hdirty⟩ := h.fresh k hle
    exact ⟨hcom, (Database.write_dirty_ne _ hkey).trans hdirty⟩
  · by_cases ht : t = .devices
    · subst ht
      have hnew := h.not_clash hblocked hviolates
      rcases version_written hd with hd | ⟨_, rfl, hrecord⟩ <;>
        rcases version_written hd' with hd' | ⟨_, rfl, hrecord'⟩
      · exact h.distinct id id' d d' hd hd' huuid
      · obtain rfl : d' = row.record := hrecord'
        exact absurd huuid (hnew id d hd)
      · obtain rfl : d = row.record := hrecord
        exact absurd huuid.symm (hnew id' d' hd')
      · rfl
    · have hold : ∀ id d, (s.written i t (s.nextId t) row
          (Function.update s.nextId t (s.nextId t + 1))).Version .devices id d →
          s.Version .devices id d := fun id d hd =>
        (version_written hd).elim (fun hd => hd) fun hnew => absurd hnew.1.symm ht
      exact h.distinct id id' d d' (hold id d hd) (hold id' d' hd') huuid
  · by_cases hkey : (⟨.devices, id⟩ : Key) = ⟨t, s.nextId t⟩
    · obtain ⟨rfl, rfl⟩ := Key.mk.inj hkey
      change s.device _ = none
      rw [State.device, State.com, (h.fresh ⟨.devices, _⟩ (Nat.le_refl _)).1]
      rfl
    · rw [own_written_ne hkey] at hd
      exact h.unshared j id d hd

/-- A device after a commit is the session's new one, or was there before. -/
theorem Sound.device_commit (h : Sound s) (id : Nat) :
    (s.commit i).device id = (s.own i .devices id).or (s.device id) :=
  com_commit_of_kept h.kept .devices id

/-- A commit leaves the devices. -/
theorem Sound.lasts_commit (h : Sound s) : Lasts s (s.commit i) := by
  intro id d hd
  refine ⟨d, ?_, rfl, rfl⟩
  rw [h.device_commit]
  cases hown : s.own i .devices id with
  | none => rwa [Option.none_or]
  | some d' =>
    rw [h.unshared i id d' hown] at hd
    contradiction

/-- A session that has written no device and selects by a unique column sees the one committed device
there is, or none. -/
theorem Sound.select (h : Sound s) (hclean : ∀ id, s.own i .devices id = none) {snapshot : Snapshot}
    (hrow : snapshot.row = s.db.view i)
    (hids : (snapshot.ids .devices).Perm (List.range (s.nextId .devices)))
    (condition : Table.devices.Record → Bool)
    (hunique : ∀ d d', condition d = true → condition d' = true →
      Device.deviceUuid d = Device.deviceUuid d' ∨ Device.id d = Device.id d') :
    (snapshot.rows .devices).filter condition = [] ∧
        (∀ id d, s.device id = some d → condition d = false) ∨
      ∃ d, (snapshot.rows .devices).filter condition = [d] ∧ s.device (Device.id d) = some d ∧
        condition d = true := by
  have hvisible : ∀ d ∈ snapshot.rows .devices, s.device (Device.id d) = some d := by
    intro d hd
    rcases visible_of_mem_rows hrow hd with hown | ⟨-, hcom⟩
    · rw [hclean] at hown
      contradiction
    · exact hcom
  have hsame : ∀ d ∈ snapshot.rows .devices, ∀ d' ∈ snapshot.rows .devices,
      condition d = true → condition d' = true → d = d' := by
    intro d hd d' hd' hc hc'
    have hid : Device.id d = Device.id d' := by
      rcases hunique d d' hc hc' with huuid | hid
      · exact h.distinct _ _ d d' (.inl (hvisible d hd)) (.inl (hvisible d' hd')) huuid
      · exact hid
    have hd₀ := hvisible d hd
    rw [hid, hvisible d' hd'] at hd₀
    exact (Option.some.inj hd₀).symm
  rcases filter_eq_of_unique (Snapshot.nodup_rows (hids.nodup_iff.mpr List.nodup_range)) hsame with
    hfilter | ⟨d, hfilter⟩
  · refine .inl ⟨hfilter, fun id d hd => ?_⟩
    have hid : Device.id d = id := id_of_com hd
    subst hid
    have hmem : d ∈ snapshot.rows .devices := by
      refine Snapshot.mem_rows.mpr ⟨hids.mem_iff.mpr (List.mem_range.mpr ?_), ?_⟩
      · by_contra hle
        have hfresh := (h.fresh ⟨.devices, d.id⟩ (Nat.le_of_not_lt hle)).1
        rw [State.device, State.com, hfresh] at hd
        contradiction
      · have hview : s.db.view i ⟨.devices, d.id⟩ = s.db.committed ⟨.devices, d.id⟩ := by
          refine Database.view_of_not_dirty fun version hdirty => ?_
          cases version with
          | none => exact h.kept _ _ hdirty
          | some row =>
            have hown : s.own i .devices d.id = some row.record :=
              State.own_eq_some.mpr ⟨row, hdirty, rfl⟩
            rw [hclean] at hown
            contradiction
        rw [hrow, show Table.devices.id d = d.id from rfl, hview]
        exact hd
    simpa using List.filter_eq_nil_iff.mp hfilter d hmem
  · have hmem : d ∈ (snapshot.rows .devices).filter condition := by
      rw [hfilter]
      exact List.mem_cons_self
    obtain ⟨hd, hcondition⟩ := List.mem_filter.mp hmem
    exact .inr ⟨d, hfilter, hvisible d hd, hcondition⟩

/-- A commit leaves the registry sound. -/
theorem Sound.commit (h : Sound s) : Sound (s.commit i) := by
  have hversion : ∀ id d, (s.commit i).Version .devices id d → s.Version .devices id d := by
    rintro id d (hcom | ⟨j, hown⟩)
    · rw [com_commit_of_kept h.kept] at hcom
      exact (Option.or_eq_some_iff.mp hcom).elim (fun hown => .inr ⟨i, hown⟩) fun hcom => .inl hcom.2
    · exact .inr ⟨j, own_of_dropDirty rfl hown⟩
  refine ⟨fun k j hk => h.kept k j (Database.dropDirty_eq_some.mp hk).1, fun k hk => ?_,
    fun id id' d d' hd hd' => h.distinct id id' d d' (hversion id d hd) (hversion id' d' hd'),
    fun j id d hd => ?_⟩
  · obtain ⟨hcom, hnone⟩ := h.fresh k hk
    have hview : s.db.view i k = s.db.committed k :=
      Database.view_of_not_dirty fun _ hdirty => by rw [hnone] at hdirty; contradiction
    refine ⟨by rw [State.commit, Database.commit_committed, hview, hcom], ?_⟩
    refine Option.eq_none_iff_forall_ne_some.mpr fun entry hdirty => ?_
    obtain ⟨_, _⟩ := entry
    rw [(Database.dropDirty_eq_some.mp hdirty).1] at hnone
    contradiction
  · -- the row of another session is not the committing session's
    obtain ⟨row, hrow, rfl⟩ := State.own_eq_some.mp hd
    obtain ⟨hdirty, hji⟩ := Database.dropDirty_eq_some.mp hrow
    have hown : s.own i .devices id = none := by
      simp [State.own, hdirty, hji]
    rw [h.device_commit, hown, Option.none_or]
    exact h.unshared j id _ (own_of_dropDirty rfl hd)

/-- Another endpoint leaves a device and what identifies and authenticates it. -/
theorem device_foreign {k : Key} {version : Option (Row k)} (h : foreign s k version = true)
    (id : Nat) : (s.maintain k version).device id = s.device id ∨
      ∃ d d', s.device id = some d ∧ (s.maintain k version).device id = some d' ∧
        d'.deviceUuid = d.deviceUuid ∧ d'.deviceSecretHash = d.deviceSecretHash := by
  by_cases hk : (⟨.devices, id⟩ : Key) = k
  · subst hk
    simp only [foreign, Bool.and_eq_true, Option.any_eq_true, decide_eq_true_eq] at h
    obtain ⟨-, old, hold, new, rfl, huuid, hhash⟩ := h
    refine .inr ⟨old.record, new.record, ?_, ?_, huuid, hhash⟩
    · rw [State.device, State.com, hold]
      rfl
    · simp only [State.device, State.com, State.maintain, Function.update_self]
      rfl
  · exact .inl (com_maintain hk)

/-- It writes no row that a session has locked. -/
theorem dirty_of_foreign {k : Key} {version : Option (Row k)} (h : foreign s k version = true) :
    s.db.dirty k = none := by
  obtain ⟨t, id⟩ := k
  cases t <;> simp_all [foreign]

/-- Nor does it delete one. -/
theorem lasts_foreign {k : Key} {version : Option (Row k)} (h : foreign s k version = true) :
    Lasts s (s.maintain k version) := by
  intro id d hd
  rcases device_foreign h id with hsame | ⟨d₀, d', hd₀, hd', huuid, hhash⟩
  · exact ⟨d, hsame.trans hd, rfl, rfl⟩
  · rw [hd] at hd₀
    obtain rfl := Option.some.inj hd₀
    exact ⟨d', hd', huuid, hhash⟩

/-- It enrols nobody. -/
theorem enrolled_of_foreign {k : Key} {version : Option (Row k)} (h : foreign s k version = true)
    {u : Uuid} (hu : Enrolled u (s.maintain k version)) : Enrolled u s := by
  obtain ⟨id, d', hd', rfl⟩ := hu
  rcases device_foreign h id with hsame | ⟨d, d₁, hd, hd₁, huuid, -⟩
  · exact ⟨id, d', hsame.symm.trans hd', rfl⟩
  · rw [hd'] at hd₁
    obtain rfl := Option.some.inj hd₁
    exact ⟨id, d, hd, huuid.symm⟩

/-- It leaves the registry sound. -/
theorem Sound.foreign {k : Key} {version : Option (Row k)} (h : Sound s)
    (hforeign : foreign s k version = true) : Sound (s.maintain k version) := by
  have hversion : ∀ id d', (s.maintain k version).Version .devices id d' →
      ∃ d, s.Version .devices id d ∧ Device.deviceUuid d = Device.deviceUuid d' := by
    rintro id d' (hcom | hown)
    · rcases device_foreign hforeign id with hsame | ⟨d, d₁, hd, hd₁, huuid, -⟩
      · exact ⟨d', .inl (hsame.symm.trans hcom), rfl⟩
      · obtain rfl : d' = d₁ := Option.some.inj (hcom.symm.trans hd₁)
        exact ⟨d, .inl hd, huuid.symm⟩
    · exact ⟨d', .inr hown, rfl⟩
  refine ⟨h.kept, fun k' hk' => ?_, fun id id' d d' hd hd' huuid => ?_, fun j id d hd => ?_⟩
  · obtain ⟨hne, hbound⟩ := fresh_of_maintain hk'
    obtain ⟨hcommitted, hnone⟩ := h.fresh k' hbound
    exact ⟨by simpa [State.maintain, Function.update_of_ne hne] using hcommitted, hnone⟩
  · obtain ⟨d₀, hd₀, heq⟩ := hversion id d hd
    obtain ⟨d₁, hd₁, heq'⟩ := hversion id' d' hd'
    exact h.distinct id id' d₀ d₁ hd₀ hd₁ (heq.trans (huuid.trans heq'.symm))
  · have hnone : s.device id = none := h.unshared j id d hd
    rcases device_foreign hforeign id with hsame | ⟨d₀, _, hd₀, -⟩
    · exact hsame.trans hnone
    · rw [hnone] at hd₀
      contradiction

/-- What another transaction leaves alone. -/
structure Unaffected (s s' : State) : Prop where
  sound : Sound s → Sound s'
  lasts : Lasts s s'
  enrolled : ∀ u, Enrolled u s' → Enrolled u s
  frame : ∀ i, Database.Frame i s.db s'.db

theorem Unaffected.trans {s'' : State} (h : Unaffected s s') (h' : Unaffected s' s'') :
    Unaffected s s'' :=
  ⟨h'.sound ∘ h.sound, h.lasts.trans h'.lasts, fun u hu => h.enrolled u (h'.enrolled u hu),
    fun i => (h.frame i).trans (h'.frame i)⟩

/-- The rows are as they were. -/
theorem Unaffected.of_db (hdb : s'.db = s.db) (hnextId : s'.nextId = s.nextId) : Unaffected s s' where
  sound h := h.of_db hdb fun t => by rw [hnextId]
  lasts := .of_committed (by rw [hdb])
  enrolled _ := enrolled_of_committed (by rw [hdb])
  frame i := hdb ▸ .refl i s.db

/-- Another endpoint commits its changes. -/
theorem unaffected_transact {rows : List (Σ k : Key, Option (Row k))}
    (h : transact s rows = some s') : Unaffected s s' := by
  induction rows generalizing s with
  | nil => exact Option.some.inj h ▸ .of_db rfl rfl
  | cons row rest ih =>
    obtain ⟨k, version⟩ := row
    simp only [transact] at h
    split at h
    · next hforeign =>
      refine Unaffected.trans ⟨fun hsound => hsound.foreign hforeign, lasts_foreign hforeign,
        fun u => enrolled_of_foreign hforeign, fun i => ⟨fun _ _ => Iff.rfl, ?_⟩⟩ (ih h)
      intro k' version' hown
      have hne : k' ≠ k := by
        rintro rfl
        rw [dirty_of_foreign hforeign] at hown
        contradiction
      simp [State.maintain, Function.update_of_ne hne]
    · contradiction

/-- Nothing else that happens enrols anybody. -/
theorem unaffected_env {event : Event} (h : env event s = some s') : Unaffected s s' := by
  cases event with
  | advance clock =>
    simp only [env] at h
    split at h
    · exact Option.some.inj h ▸ .of_db rfl rfl
    · contradiction
  | transact rows => exact unaffected_transact h

end Soundness

section Logs

variable {s s' : State} {i : Sid} {log : List (Moment Op Res Sid Event State)}
  {moment : Moment Op Res Sid Event State}

/-- A step that leaves the devices, and that commits nothing where it is a deed, keeps what the log
says. -/
theorem Logged.quiet (h : Logged ⟨s, log⟩) (hsound : Sound s') (hlasts : Lasts s s')
    (hmoment : ∀ i deed, moment = .performed i deed →
      deed.before = s ∧ ∀ u, ¬ Enters u i deed) :
    Logged ⟨s', moment :: log⟩ where
  sound := hsound
  past i deed hmem := by
    rcases List.mem_cons.mp hmem with heq | hmem
    · rw [(hmoment i deed heq.symm).1]
      exact hlasts
    · exact (h.past i deed hmem).trans hlasts
  entered u i deed hmem henters := by
    rcases List.mem_cons.mp hmem with heq | hmem
    · exact absurd henters ((hmoment i deed heq.symm).2 u)
    · exact hlasts.enrolled (h.entered u i deed hmem henters)
  once u i j deed deed' hmem hmem' henters henters' := by
    rcases List.mem_cons.mp hmem with heq | hmem
    · exact absurd henters ((hmoment i deed heq.symm).2 u)
    · rcases List.mem_cons.mp hmem' with heq | hmem'
      · exact absurd henters' ((hmoment j deed' heq.symm).2 u)
      · exact h.once u i j deed deed' hmem hmem' henters henters'

/-- A commit enrols the devices that its session has added, each of them for the first time. -/
theorem Logged.commit (h : Logged ⟨s, log⟩) :
    Logged ⟨s.commit i, .performed i ⟨s, .commit, ()⟩ :: log⟩ where
  sound := h.sound.commit
  past j deed hmem := by
    rcases List.mem_cons.mp hmem with heq | hmem
    · obtain ⟨rfl, rfl⟩ := Moment.performed.inj heq
      exact h.sound.lasts_commit
    · exact (h.past j deed hmem).trans h.sound.lasts_commit
  entered u j deed hmem henters := by
    rcases List.mem_cons.mp hmem with heq | hmem
    · obtain ⟨rfl, rfl⟩ := Moment.performed.inj heq
      obtain ⟨-, id, d, hown, huuid⟩ := henters
      refine ⟨id, d, ?_, huuid⟩
      rw [h.sound.device_commit, hown]
      rfl
    · exact h.sound.lasts_commit.enrolled (h.entered u j deed hmem henters)
  once u j k deed deed' hmem hmem' henters henters' := by
    have hnew : ∀ k deed', Enters u i ⟨s, .commit, ()⟩ → .performed k deed' ∈ log →
        ¬ Enters u k deed' := by
      intro k deed' henters hmem henters'
      obtain ⟨-, id, d, hown, huuid⟩ := henters
      obtain ⟨id', d', hd', huuid'⟩ := h.entered u k deed' hmem henters'
      obtain rfl := h.sound.distinct id id' d d' (.inr ⟨i, hown⟩) (.inl hd') (huuid.trans huuid'.symm)
      rw [h.sound.unshared i id d hown] at hd'
      contradiction
    rcases List.mem_cons.mp hmem with heq | hmem
    · obtain ⟨rfl, rfl⟩ := Moment.performed.inj heq
      rcases List.mem_cons.mp hmem' with heq | hmem'
      · exact (Moment.performed.inj heq).1.symm
      · exact absurd henters' (hnew k deed' henters hmem')
    · rcases List.mem_cons.mp hmem' with heq | hmem'
      · obtain ⟨rfl, rfl⟩ := Moment.performed.inj heq
        exact absurd henters (hnew j deed henters' ‹.performed j deed ∈ log›)
      · exact h.once u j k deed deed' hmem hmem' henters henters'

end Logs

end ElevateGate.Backend.Enrollment
