import ElevateGate.Backend.Registry

/-!
# Once per device

What an enrollment knows of the registry while it runs, and what it has achieved when it ends. Nothing
that an enrollment does endangers the registry, so only what it has seen and written itself has to be
carried from one of its operations to the next.
-/

namespace ElevateGate.Backend.Enrollment

open Interaction Time Text Handler

/-- The device that a call enrols. -/
def Call.device : Call → DeviceEnrollRequest
  | .agentEnroll _ body _ => body.device
  | .enrollDevice _ body _ => body

/-- The enrollment key that a call presents. -/
def Call.xEnrollmentKey : Call → String
  | .agentEnroll xEnrollmentKey _ _ => xEnrollmentKey
  | .enrollDevice xEnrollmentKey _ _ => xEnrollmentKey

/-- The rate limiter lets the call through. -/
def Call.admitted : Call → Bool
  | .agentEnroll _ _ admitted => admitted
  | .enrollDevice _ _ admitted => admitted

/-- The call enrols a device under the right key. -/
def Call.Enrolls (site : Site) (u : Uuid) (call : Call) : Prop :=
  call.xEnrollmentKey = site.enrollmentKey ∧ call.device.deviceUuid = u

/-- The answer hands out the secret of a device, by itself or in a bearer token. -/
def Answer.Grants (u : Uuid) (secret : String) : Answer → Prop
  | .agentEnroll response => response.bearerToken = u.textD ++ "." ++ secret
  | .enrollDevice response => response.deviceUuid = u ∧ response.deviceSecret = secret

/-- The answer to a device that is enrolled already. -/
def alreadyEnrolled : PyError := .httpException 409 "Device is already enrolled."

/-- The first thing that a session did, it did in a state with some property. -/
def Looked (P : State → Prop) (i : Sid) (r : Record) : Prop :=
  ∃ deed, [deed] <:+ mine i r.log ∧ P deed.before

/-- A session has committed nothing. -/
def Idle (i : Sid) (r : Record) : Prop := ∀ deed ∈ mine i r.log, deed.op ≠ .commit

/-- A session has enrolled a device under a secret. -/
structure Won (site : Site) (u : Uuid) (secret : String) (i : Sid) (r : Record) : Prop where
  looked : Looked (fun s => ¬ Enrolled u s) i r
  entered : ∃ deed ∈ mine i r.log, Enters u i deed
  device : ∃ id d salt, r.state.device id = some d ∧ d.deviceUuid = u ∧
    d.deviceSecretHash = site.hash salt secret
  secret : secret ≠ ""

/-- A session has failed to enrol a device, which it found enrolled or found enrolled too late. -/
structure Lost (u : Uuid) (error : PyError) (i : Sid) (r : Record) : Prop where
  idle : Idle i r
  enrolled : Enrolled u r.state
  answer : error = alreadyEnrolled ∧ Looked (Enrolled u) i r ∨
    error = .integrityError ∧ Looked (fun s => ¬ Enrolled u s) i r

/-- A session has been refused by the rate limiter, or by the database, which does not store the device
that the session has looked up in vain. -/
structure Refused (body : DeviceEnrollRequest) (admitted : Bool) (error : PyError) (i : Sid)
    (r : Record) : Prop where
  idle : Idle i r
  answer : error = .rateLimitExceeded ∧ admitted = false ∨
    error = .dbapiError ∧ body.fitsColumns = false ∧
      Looked (fun s => ¬ Enrolled body.deviceUuid s) i r

/-- An enrollment has failed. -/
def Failed (body : DeviceEnrollRequest) (admitted : Bool) (error : PyError) (i : Sid)
    (r : Record) : Prop :=
  admitted = true ∧ Lost body.deviceUuid error i r ∨ Refused body admitted error i r

/-- What holds when a call has ended. -/
def Post (site : Site) (i : Sid) (call : Call) : Except PyError Answer → Record → Prop
  | .ok answer, r => call.admitted = true ∧ call.device.fitsColumns = true ∧
      ∃ secret, answer.Grants call.device.deviceUuid secret ∧
        Won site call.device.deviceUuid secret i r
  | .error error, r => call.xEnrollmentKey = site.enrollmentKey →
      Failed call.device call.admitted error i r

/-- What the enrollments rely on and guarantee. -/
def discipline (site : Site) : Discipline Sid Call PyError Answer Record where
  inv := Logged
  rely := Rely
  evolves r r' := Lasts r.state r'.state
  post := Post site
  rely_refl := Rely.refl
  rely_trans := Rely.trans
  evolves_refl r := Lasts.refl r.state
  evolves_trans := Lasts.trans

section Steps

variable {sign : List UInt8 → List UInt8} {s s' : State} {i : Sid} {op : Op} {answer : Res op}
  {choice : Choice} {log : List (Moment Op Res Sid Event State)}

/-- The operations of an enrollment, which updates no row. -/
def Adds : Op → Prop
  | .update _ _ => False
  | _ => True

/-- Whatever such an operation does, the log stays true, devices last and nobody is disturbed. -/
theorem guar_performed (h : Logged ⟨s, log⟩) (hadds : Adds op)
    (hperform : perform sign i op choice s = some (answer, s')) :
    Logged ⟨s', .performed i ⟨s, op, answer⟩ :: log⟩ ∧ Lasts s s' ∧
      ∀ j, j ≠ i → Database.Frame j s.db s'.db := by
  have hquiet : op ≠ .commit → Sound s' → s'.db.committed = s.db.committed →
      Logged ⟨s', .performed i ⟨s, op, answer⟩ :: log⟩ ∧ Lasts s s' := by
    intro hop hsound hcommitted
    refine ⟨h.quiet hsound (.of_committed hcommitted) ?_,
      .of_committed hcommitted⟩
    intro j deed heq
    obtain ⟨rfl, rfl⟩ := Moment.performed.inj heq
    exact ⟨rfl, fun u henters => hop henters.1⟩
  have hsilent : op ≠ .commit → s'.db = s.db → (∀ t, s.nextId t ≤ s'.nextId t) →
      Logged ⟨s', .performed i ⟨s, op, answer⟩ :: log⟩ ∧ Lasts s s' ∧
        ∀ j, j ≠ i → Database.Frame j s.db s'.db := by
    intro hop hdb hnextId
    obtain ⟨hlogged, hlasts⟩ := hquiet hop (h.sound.of_db hdb hnextId) (by rw [hdb])
    exact ⟨hlogged, hlasts, fun j _ => hdb ▸ .refl j s.db⟩
  have heffect := perform_effect hperform
  have hgrows := heffect.nextId_le
  cases heffect with
  | miss | hit => exact hadds.elim
  | @inserted t make hviolates =>
    have hblocked : ¬ s.blocked i t (make (s.nextId t) (s.txNow i)).record = true :=
      (perform_insert hperform).1
    have hdirty : s.db.dirty ⟨t, s.nextId t⟩ = none :=
      (h.sound.fresh ⟨t, s.nextId t⟩ (Nat.le_refl _)).2
    have hfree : s.db.free i ⟨t, s.nextId t⟩ = true := by simp [Database.free, hdirty]
    obtain ⟨hlogged, hlasts⟩ := hquiet (by simp) (h.sound.inserted hblocked hviolates) rfl
    exact ⟨hlogged, hlasts, fun j hj => Database.write_frame hj.symm hfree _⟩
  | commit =>
    exact ⟨h.commit, h.sound.lasts_commit, fun j hj => Database.commit_frame hj.symm⟩
  | close =>
    have hdirty : ∀ k entry, (s.db.rollback i).dirty k = some entry → s.db.dirty k = some entry := by
      rintro k ⟨_, _⟩ hk
      exact (Database.dropDirty_eq_some.mp hk).1
    obtain ⟨hlogged, hlasts⟩ := hquiet (by simp) (h.sound.dropped rfl hdirty rfl) rfl
    exact ⟨hlogged, hlasts, fun j hj => Database.rollback_frame hj.symm⟩
  | _ => exact hsilent (by simp) rfl hgrows

end Steps

section Carrying

variable {site : Site} {u : Uuid} {secret : String} {error : PyError} {i : Sid} {r r' : Record}
  {P : State → Prop}

/-- A session has committed nothing meanwhile, and devices have lasted. -/
structure Carries (i : Sid) (r r' : Record) : Prop where
  mine : mine i r'.log = mine i r.log ∨
    ∃ deed, deed.op ≠ .commit ∧ mine i r'.log = deed :: mine i r.log
  lasts : Lasts r.state r'.state

/-- While others run, a session commits nothing. -/
theorem Rely.carries (h : Rely i r r') : Carries i r r' := ⟨.inl h.mine, h.lasts⟩

/-- Nor does it while it performs another operation. -/
theorem carries_performed {s s' : State} {op : Op} {answer : Res op}
    {log : List (Moment Op Res Sid Event State)} (hop : op ≠ .commit) (hlasts : Lasts s s') :
    Carries i ⟨s, log⟩ ⟨s', .performed i ⟨s, op, answer⟩ :: log⟩ :=
  ⟨.inr ⟨⟨s, op, answer⟩, hop, mine_performed_self _⟩, hlasts⟩

/-- What a session has done stays done. -/
theorem Carries.mem (h : Carries i r r') {deed : Deed} (hdeed : deed ∈ Interaction.mine i r.log) :
    deed ∈ Interaction.mine i r'.log := by
  rcases h.mine with hmine | ⟨_, -, hmine⟩
  · rwa [hmine]
  · rw [hmine]
    exact List.mem_cons_of_mem _ hdeed

theorem Looked.carry (h : Looked P i r) (hcarries : Carries i r r') : Looked P i r' := by
  obtain ⟨deed, hsuffix, hP⟩ := h
  refine ⟨deed, ?_, hP⟩
  rcases hcarries.mine with hmine | ⟨_, -, hmine⟩
  · rwa [hmine]
  · rw [hmine]
    exact hsuffix.trans (List.suffix_cons _ _)

theorem Idle.carry (h : Idle i r) (hcarries : Carries i r r') : Idle i r' := by
  intro deed hdeed
  rcases hcarries.mine with hmine | ⟨_, hop, hmine⟩
  · exact h deed (hmine ▸ hdeed)
  · rw [hmine] at hdeed
    rcases List.mem_cons.mp hdeed with rfl | hdeed
    · exact hop
    · exact h deed hdeed

theorem Won.carry (h : Won site u secret i r) (hcarries : Carries i r r') :
    Won site u secret i r' where
  looked := h.looked.carry hcarries
  entered := by
    obtain ⟨deed, hdeed, henters⟩ := h.entered
    exact ⟨deed, hcarries.mem hdeed, henters⟩
  device := by
    obtain ⟨id, d, salt, hd, huuid, hhash⟩ := h.device
    obtain ⟨d', hd', huuid', hhash'⟩ := hcarries.lasts id d hd
    exact ⟨id, d', salt, hd', huuid'.trans huuid, hhash'.trans hhash⟩
  secret := h.secret

theorem Lost.carry (h : Lost u error i r) (hcarries : Carries i r r') : Lost u error i r' where
  idle := h.idle.carry hcarries
  enrolled := hcarries.lasts.enrolled h.enrolled
  answer := h.answer.imp (fun h => ⟨h.1, h.2.carry hcarries⟩) fun h => ⟨h.1, h.2.carry hcarries⟩

theorem Refused.carry {body : DeviceEnrollRequest} {admitted : Bool}
    (h : Refused body admitted error i r) (hcarries : Carries i r r') :
    Refused body admitted error i r' where
  idle := h.idle.carry hcarries
  answer := h.answer.imp id fun h => ⟨h.1, h.2.1, h.2.2.carry hcarries⟩

theorem Failed.carry {body : DeviceEnrollRequest} {admitted : Bool}
    (h : Failed body admitted error i r) (hcarries : Carries i r r') :
    Failed body admitted error i r' :=
  h.imp (fun h => ⟨h.1, h.2.carry hcarries⟩) fun h => h.carry hcarries

theorem Post.carry {call : Call} {result : Except PyError Answer} (h : Post site i call result r)
    (hcarries : Carries i r r') : Post site i call result r' := by
  cases result with
  | ok answer =>
    obtain ⟨hadmitted, hfits, secret, hgrants, hwon⟩ := h
    exact ⟨hadmitted, hfits, secret, hgrants, hwon.carry hcarries⟩
  | error error => exact fun hkey => (h hkey).carry hcarries

end Carrying

section Rules

variable {site : Site} {i : Sid} {r : Record} {β : Type}
  {Q : Except PyError β → Record → Prop}

/-- Every operation that remains keeps what the other sessions rely on, and the program ends as the
postcondition says. -/
abbrev Achieves (site : Site) (i : Sid) (Q : Except PyError β → Record → Prop)
    (program : Handler β) (r : Record) : Prop :=
  (discipline site).Safe ((system site).recorded .free) i Q program r

/-- One operation. It endangers nothing, so only what follows it has to be verified. -/
theorem achieves_op {o : Op} {f : Res o → Handler β} (hadds : Adds o)
    (h : ∀ s log choice answer s', Logged ⟨s, log⟩ → Rely i r ⟨s, log⟩ →
      perform site.sign i o choice s = some (answer, s') → Lasts s s' →
      Achieves site i Q (f answer) ⟨s', .performed i ⟨s, o, answer⟩ :: log⟩) :
    Achieves site i Q (op o >>= f) r := by
  rintro ⟨s, log⟩ hrely hlogged choice answer ⟨s', log'⟩ hperform
  obtain ⟨-, hs, rfl⟩ := System.recorded_perform hperform
  obtain ⟨hlogged', hlasts, hframe⟩ := guar_performed hlogged hadds hs
  exact ⟨⟨hlogged', hlasts, fun j hj => ⟨hframe j hj, hlasts, mine_performed_ne hj.symm _⟩⟩,
    h s log choice answer s' hlogged hrely hs hlasts⟩

/-- The rows of the devices table that a session has not committed. -/
def Clean (i : Sid) (r : Record) : Prop := ∀ id, r.state.own i .devices id = none

/-- A session that has written no device and selects by a unique column sees the one committed device
there is, or none. -/
theorem achieves_selectDevice (condition : Table.devices.Record → Bool)
    {f : Option Device → Handler β}
    (hunique : ∀ d d', condition d = true → condition d' = true →
      Device.deviceUuid d = Device.deviceUuid d' ∨ Device.id d = Device.id d')
    (hclean : Clean i r)
    (hnone : ∀ s log snapshot, Rely i r ⟨s, log⟩ →
      (∀ id d, s.device id = some d → condition d = false) →
      Achieves site i Q (f none) ⟨s.begin_ i, .performed i ⟨s, .query, snapshot⟩ :: log⟩)
    (hsome : ∀ s log snapshot d, Rely i r ⟨s, log⟩ → s.device d.id = some d → condition d = true →
      Achieves site i Q (f (some d)) ⟨s.begin_ i, .performed i ⟨s, .query, snapshot⟩ :: log⟩) :
    Achieves site i Q
      ((do let rows ← select .devices condition; scalarOneOrNone rows) >>= f) r := by
  refine achieves_op (o := .query) trivial
    fun s log choice (snapshot : Snapshot) s' hlogged hrely hperform _ => ?_
  obtain ⟨hrow, hids, rfl⟩ := perform_query hperform
  have hown : ∀ id, s.own i .devices id = none := fun id =>
    (own_of_frame hrely.frame .devices id).trans (hclean id)
  change Achieves site i Q (scalarOneOrNone ((snapshot.rows .devices).filter condition) >>= f) _
  rcases hlogged.sound.select hown hrow (hids .devices) condition hunique with
    ⟨hfilter, hno⟩ | ⟨d, hfilter, hd, hcondition⟩
  · rw [hfilter]
    exact hnone s log snapshot hrely hno
  · rw [hfilter]
    exact hsome s log snapshot d hrely hd hcondition

end Rules

/-- A session has looked a device up in vain, and has written nothing yet. -/
structure Ready (u : Uuid) (i : Sid) (r : Record) : Prop where
  looked : Looked (fun s => ¬ Enrolled u s) i r
  idle : Idle i r
  clean : Clean i r

/-- Then it has added the device. -/
structure Holds (d : Device) (i : Sid) (r : Record) : Prop where
  looked : Looked (fun s => ¬ Enrolled d.deviceUuid s) i r
  idle : Idle i r
  own : r.state.own i .devices d.id = some d

/-- Then it has committed it. -/
structure Registered (d : Device) (i : Sid) (r : Record) : Prop where
  looked : Looked (fun s => ¬ Enrolled d.deviceUuid s) i r
  entered : ∃ deed ∈ mine i r.log, Enters d.deviceUuid i deed
  clean : Clean i r
  device : ∃ d', r.state.device d.id = some d' ∧ d'.deviceUuid = d.deviceUuid ∧
    d'.deviceSecretHash = d.deviceSecretHash

section Stages

variable {site : Site} {i : Sid} {r r' : Record} {u : Uuid} {d : Device} {β : Type}
  {Q : Except PyError β → Record → Prop}

/-- Nobody gives a session a device that it has not written. -/
theorem Clean.stable (h : Clean i r) (hrely : Rely i r r') : Clean i r' := fun id =>
  (own_of_frame hrely.frame .devices id).trans (h id)

theorem Ready.stable (h : Ready u i r) (hrely : Rely i r r') : Ready u i r' :=
  ⟨h.looked.carry hrely.carries, h.idle.carry hrely.carries, h.clean.stable hrely⟩

theorem Holds.stable (h : Holds d i r) (hrely : Rely i r r') : Holds d i r' :=
  ⟨h.looked.carry hrely.carries, h.idle.carry hrely.carries,
    (own_of_frame hrely.frame .devices d.id).trans h.own⟩

theorem Registered.carry (h : Registered d i r) (hcarries : Carries i r r') (hclean : Clean i r') :
    Registered d i r' where
  looked := h.looked.carry hcarries
  entered := by
    obtain ⟨deed, hdeed, henters⟩ := h.entered
    exact ⟨deed, hcarries.mem hdeed, henters⟩
  clean := hclean
  device := by
    obtain ⟨d', hd', huuid, hhash⟩ := h.device
    obtain ⟨d'', hd'', huuid', hhash'⟩ := hcarries.lasts d.id d' hd'
    exact ⟨d'', hd'', huuid'.trans huuid, hhash'.trans hhash⟩

/-- Looking the device up. -/
theorem achieves_getByUuid {f : Option Device → Handler β} (hmine : mine i r.log = [])
    (hclean : Clean i r) (hnone : ∀ r', Ready u i r' → Achieves site i Q (f none) r')
    (hsome : ∀ r' d, Lost u alreadyEnrolled i r' → Achieves site i Q (f (some d)) r') :
    Achieves site i Q (DeviceRepository.getByUuid u >>= f) r := by
  have hidle : ∀ {s s' log} {snapshot : Snapshot}, Rely i r ⟨s, log⟩ →
      Idle i ⟨s', .performed i ⟨s, .query, snapshot⟩ :: log⟩ := by
    intro s s' log snapshot hrely
    have hrest : Idle i ⟨s, log⟩ := by
      intro deed hdeed
      rw [show mine i log = [] from hrely.mine.trans hmine] at hdeed
      contradiction
    intro deed hdeed
    rw [mine_performed_self] at hdeed
    rcases List.mem_cons.mp hdeed with rfl | hdeed
    · simp
    · exact hrest deed hdeed
  have hlooked : ∀ {s s' log} {snapshot : Snapshot} {P : State → Prop}, Rely i r ⟨s, log⟩ → P s →
      Looked P i ⟨s', .performed i ⟨s, .query, snapshot⟩ :: log⟩ := by
    intro s s' log snapshot P hrely hP
    refine ⟨⟨s, .query, snapshot⟩, ?_, hP⟩
    rw [mine_performed_self, show mine i log = [] from hrely.mine.trans hmine]
  refine achieves_selectDevice _
    (fun d d' hd hd' => .inl ((of_decide_eq_true hd).trans (of_decide_eq_true hd').symm)) hclean
    (fun s log snapshot hrely hno => ?_) fun s log snapshot d hrely hd huuid => ?_
  · have hclean : Clean i ⟨s, log⟩ := hclean.stable hrely
    refine hnone _ ⟨hlooked hrely ?_, hidle hrely, hclean⟩
    rintro ⟨id, d, hd, rfl⟩
    simpa using hno id d hd
  · have hu : Enrolled u s := ⟨d.id, d, hd, of_decide_eq_true huuid⟩
    exact hsome _ d ⟨hidle hrely, hu, .inl ⟨rfl, hlooked hrely hu⟩⟩

/-- Drawing random text. -/
theorem achieves_tokenUrlsafe {nbytes : Nat} {f : String → Handler β} (hpos : 0 < nbytes)
    (h : Ready u i r)
    (hnext : ∀ token r', token ≠ "" → Ready u i r' → Achieves site i Q (f token) r') :
    Achieves site i Q (tokenUrlsafe nbytes >>= f) r := by
  refine achieves_op (o := .tokenUrlsafe nbytes) trivial
    fun s log choice token s' _ hrely hperform hlasts => ?_
  have h := h.stable hrely
  have hcarries : Carries i ⟨s, log⟩ ⟨s', .performed i ⟨s, .tokenUrlsafe nbytes, token⟩ :: log⟩ :=
    carries_performed (by simp) hlasts
  cases choice with
  | bytes random =>
    simp only [perform] at hperform
    split at hperform
    · next hlength =>
      obtain ⟨rfl, rfl⟩ := Prod.mk.inj (Option.some.inj hperform)
      refine hnext _ _ (urlsafeText_ne_empty ?_)
        ⟨h.looked.carry hcarries, h.idle.carry hcarries, h.clean⟩
      rintro rfl
      simp at hlength
      omega
    · contradiction
  | _ => contradiction

/-- Adding a row for the device. -/
theorem achieves_insertDevice {body : DeviceEnrollRequest} {deviceSecretHash : String}
    {f : Device → Handler β} (h : Ready body.deviceUuid i r)
    (herror : ∀ r', Lost body.deviceUuid .integrityError i r' → Q (.error .integrityError) r')
    (hok : ∀ r' d, d.deviceUuid = body.deviceUuid → d.deviceSecretHash = deviceSecretHash →
      Holds d i r' → Achieves site i Q (f d) r') :
    Achieves site i Q (insert .devices (DeviceRepository.newRow body deviceSecretHash) >>= f) r := by
  refine achieves_op (o := .insert .devices (DeviceRepository.newRow body deviceSecretHash)) trivial
    fun s log choice result s' hlogged hrely hperform hlasts => ?_
  have h := h.stable hrely
  have hcarries : Carries i ⟨s, log⟩ ⟨s', .performed i
      ⟨s, .insert .devices (DeviceRepository.newRow body deviceSecretHash), result⟩ :: log⟩ :=
    carries_performed (by simp) hlasts
  obtain ⟨-, ⟨hviolates, rfl, rfl⟩ | ⟨-, rfl, rfl⟩⟩ := perform_insert hperform
  · -- the row that stands in the way is committed, since the session has none of its own
    have hu : Enrolled body.deviceUuid s := by
      obtain ⟨id, row, hrow, hclash⟩ := exists_of_violates hviolates
      rcases view_eq_some hrow with hown | ⟨-, hcom⟩
      · rw [show s.own i .devices id = none from h.clean id] at hown
        contradiction
      · exact ⟨id, row.record, hcom, (of_decide_eq_true hclash).symm⟩
    have hlost : Lost body.deviceUuid .integrityError i ⟨_, _⟩ :=
      ⟨h.idle.carry hcarries, hcarries.lasts.enrolled hu, .inr ⟨rfl, h.looked.carry hcarries⟩⟩
    exact fun r' hrely _ => herror r' (hlost.carry hrely.carries)
  · exact hok _ _ rfl rfl ⟨h.looked.carry hcarries, h.idle.carry hcarries, own_written_self⟩

/-- Adding the device. -/
theorem achieves_create {body : DeviceEnrollRequest} {deviceSecretHash : String}
    {f : Device → Handler β} (h : Ready body.deviceUuid i r)
    (hunfit : ∀ r', body.fitsColumns = false → Ready body.deviceUuid i r' → Q (.error .dbapiError) r')
    (herror : ∀ r', Lost body.deviceUuid .integrityError i r' → Q (.error .integrityError) r')
    (hok : ∀ r' d, body.fitsColumns = true → d.deviceUuid = body.deviceUuid →
      d.deviceSecretHash = deviceSecretHash → Holds d i r' → Achieves site i Q (f d) r') :
    Achieves site i Q (create body deviceSecretHash >>= f) r := by
  rw [create]
  cases hfits : body.fitsColumns with
  | false => exact fun r' hrely _ => hunfit r' hfits (h.stable hrely)
  | true => exact achieves_insertDevice h herror fun r' d => hok r' d hfits

/-- Committing it with its audit row and reading it back. -/
theorem achieves_register {f : Device → Handler β} (h : Holds d i r)
    (hok : ∀ r' d', d'.deviceUuid = d.deviceUuid → Registered d i r' →
      Achieves site i Q (f d') r') :
    Achieves site i Q (register d >>= f) r := by
  simp only [register, writeAuditLog, bind_assoc]
  refine achieves_op (o := .insert .auditLogs _) trivial
    fun s log choice result s' _ hrely hperform hlasts => ?_
  have h := h.stable hrely
  have hcarries : Carries i ⟨s, log⟩ ⟨s', .performed i ⟨s, .insert .auditLogs _, result⟩ :: log⟩ :=
    carries_performed (by simp) hlasts
  obtain ⟨-, ⟨hviolates, rfl, rfl⟩ | ⟨-, rfl, rfl⟩⟩ := perform_insert hperform
  · simp [State.violates, Table.clash] at hviolates
  · have h : Holds d i ⟨_, _⟩ := ⟨h.looked.carry hcarries, h.idle.carry hcarries,
      (own_written_ne (by simp)).trans h.own⟩
    refine achieves_op (o := .commit) trivial
      fun s log choice result s' hlogged hrely hperform hlasts => ?_
    have h := h.stable hrely
    obtain rfl : s' = s.commit i := by
      cases choice <;> exact (Prod.mk.inj (Option.some.inj hperform)).2.symm
    have hregistered : Registered d i ⟨s.commit i, .performed i ⟨s, .commit, result⟩ :: log⟩ := by
      refine ⟨?_, ⟨⟨s, .commit, result⟩, ?_, rfl, d.id, d, h.own, rfl⟩,
        fun id => own_dropDirty rfl, d, ?_, rfl, rfl⟩
      · obtain ⟨deed, hsuffix, hmissed⟩ := h.looked
        refine ⟨deed, ?_, hmissed⟩
        rw [mine_performed_self]
        exact hsuffix.trans (List.suffix_cons _ _)
      · rw [mine_performed_self]
        exact List.mem_cons_self
      · rw [hlogged.sound.device_commit, show s.own i .devices d.id = some d from h.own]
        rfl
    refine achieves_selectDevice (fun r => decide (Device.id r = d.id))
      (fun d' d'' hd hd' => .inr ((of_decide_eq_true hd).trans (of_decide_eq_true hd').symm))
      hregistered.clean (fun s log snapshot hrely hno => ?_)
      fun s log snapshot d' hrely hd' hid => ?_
    · obtain ⟨d', hd', -⟩ := (hregistered.carry hrely.carries (hregistered.clean.stable hrely)).device
      have hid : Device.id d' = d.id := id_of_com hd'
      simpa [hid] using hno d.id d' hd'
    · have hclean : Clean i ⟨s, log⟩ := hregistered.clean.stable hrely
      have hregistered := hregistered.carry hrely.carries hclean
      obtain ⟨d'', hd'', huuid, -⟩ := hregistered.device
      obtain rfl : d' = d'' := by
        rw [of_decide_eq_true hid] at hd'
        exact Option.some.inj (hd'.symm.trans hd'')
      exact hok _ d' huuid (hregistered.carry (carries_performed (by simp) (.of_committed rfl)) hclean)

/-- An enrollment ends as it should. -/
theorem achieves_enroll {α : Type} {xEnrollmentKey : String} {body : DeviceEnrollRequest}
    {admitted : Bool} {respond : Device → String → α} (hmine : mine i r.log = [])
    (hclean : Clean i r) :
    Achieves site i
      (fun result r => match result with
        | .ok value => admitted = true ∧ body.fitsColumns = true ∧ ∃ d secret,
            value = respond d secret ∧ d.deviceUuid = body.deviceUuid ∧
              Won site body.deviceUuid secret i r
        | .error error => xEnrollmentKey = site.enrollmentKey → Failed body admitted error i r)
      (enroll site xEnrollmentKey body admitted respond) r := by
  rw [enroll, requireEnrollmentKey]
  by_cases hkey : xEnrollmentKey ≠ site.enrollmentKey
  · rw [if_pos hkey]
    exact fun _ _ _ h => absurd h hkey
  rw [if_neg hkey, pure_bind, limit_bind]
  cases admitted with
  | false =>
    have hidle : Idle i r := fun deed hdeed => by simp [hmine] at hdeed
    exact fun r' hrely _ _ => .inr ⟨hidle.carry hrely.carries, .inl ⟨rfl, rfl⟩⟩
  | true =>
    refine achieves_getByUuid hmine hclean (fun r hready => ?_) fun r d hlost => ?_
    · refine achieves_tokenUrlsafe (by decide) hready fun secret r hsecret hready => ?_
      rw [hashSecret, bind_assoc]
      refine achieves_tokenUrlsafe (by decide) hready fun salt r _ hready => ?_
      refine achieves_create hready (fun r' hfits hready _ => ?_) (fun r' hlost _ => .inl ⟨rfl, hlost⟩)
        fun r d hfits huuid hhash hholds => ?_
      · exact .inr ⟨hready.idle, .inr ⟨rfl, hfits, hready.looked⟩⟩
      refine achieves_register hholds fun r d' huuid' hregistered r' hrely _ => ?_
      obtain ⟨d'', hd'', huuid'', hhash''⟩ := hregistered.device
      rw [← huuid]
      have hwon : Won site d.deviceUuid secret i r := ⟨hregistered.looked, hregistered.entered,
        ⟨d.id, d'', salt, hd'', huuid'', hhash''.trans hhash⟩, hsecret⟩
      exact ⟨rfl, hfits, d', secret, rfl, huuid', hwon.carry hrely.carries⟩
    · exact fun r' hrely _ _ => .inl ⟨rfl, hlost.carry hrely.carries⟩

/-- A call ends as it should. -/
theorem achieves_endpoint {call : Call} (hmine : mine i r.log = []) (hclean : Clean i r) :
    Achieves site i (Post site i call) (endpoint site call) r := by
  cases call with
  | agentEnroll xEnrollmentKey body admitted =>
    rw [endpoint, map_eq_pure_bind]
    refine (achieves_enroll hmine hclean).bind (fun value r _ hended r' hrely _ => ?_)
      fun _ _ _ h => h
    obtain ⟨hadmitted, hfits, d, secret, rfl, huuid, hwon⟩ := hended
    exact ⟨hadmitted, hfits, secret, by rw [Answer.Grants, huuid]; rfl, hwon.carry hrely.carries⟩
  | enrollDevice xEnrollmentKey body admitted =>
    rw [endpoint, map_eq_pure_bind]
    refine (achieves_enroll hmine hclean).bind (fun value r _ hended r' hrely _ => ?_)
      fun _ _ _ h => h
    obtain ⟨hadmitted, hfits, d, secret, rfl, huuid, hwon⟩ := hended
    exact ⟨hadmitted, hfits, secret, ⟨huuid, rfl⟩, hwon.carry hrely.carries⟩

/-- Closing the session changes nothing that has been achieved. -/
theorem achieves_serve {call : Call} (hmine : mine i r.log = []) (hclean : Clean i r) :
    Achieves site i (Post site i call) (serve site call) r := by
  refine (achieves_endpoint hmine hclean).finally_ (fun result r _ hpost => ?_)
    fun result r r' hpost hrely _ => hpost.carry hrely.carries
  have hclose : Achieves site i (fun final r => match final with
      | .ok () => Post site i call result r
      | .error error => Post site i call (.error error) r) (op .close >>= pure) r := by
    refine achieves_op trivial fun s log choice answer s' _ hrely _ hlasts r' hrely' _ => ?_
    exact ((hpost.carry hrely.carries).carry (carries_performed (by simp) hlasts)).carry
      hrely'.carries
  exact hclose

end Stages

section Validity

variable {site : Site} {s s' : State} {i : Sid} {r : Record}
  {log : List (Moment Op Res Sid Event State)} {moment : Moment Op Res Sid Event State}

/-- A step that is no deed keeps what the log says. -/
private theorem Logged.happened (h : Logged ⟨s, log⟩) (hsound : Sound s')
    (hcommitted : s'.db.committed = s.db.committed) (hmoment : ∀ i deed, moment ≠ .performed i deed) :
    Logged ⟨s', moment :: log⟩ :=
  h.quiet hsound (.of_committed hcommitted) fun i deed heq => absurd heq (hmoment i deed)

/-- The enrollments keep the discipline. -/
theorem discipline_valid (site : Site) :
    (discipline site).Valid ((system site).recorded .free) where
  entry i call program r hprogram hlogged := by
    obtain rfl := Option.some.inj hprogram
    exact achieves_serve mine_stopped_self fun id => own_dropDirty rfl
  stop i r hlogged := by
    obtain ⟨s, log⟩ := r
    have hlasts : Lasts s (s.rollback i) := .of_committed rfl
    refine ⟨Logged.happened hlogged (hlogged.sound.dropped rfl ?_ rfl) rfl (by simp), hlasts,
      fun j hj => ⟨Database.rollback_frame hj.symm, hlasts, mine_stopped_ne hj.symm⟩⟩
    exact fun _ _ => Database.dirty_of_dropDirty
  env event r r' henv hlogged := by
    obtain ⟨s, log⟩ := r
    obtain ⟨s', hs', rfl⟩ := Option.map_eq_some_iff.mp henv
    have h := unaffected_env hs'
    exact ⟨hlogged.quiet (h.sound hlogged.sound) h.lasts fun i deed heq => by contradiction,
      h.lasts, fun i => ⟨h.frame i, h.lasts, mine_happened event⟩⟩
  reset r r' hreset hlogged := by
    obtain ⟨s, log⟩ := r
    obtain rfl := Option.some.inj hreset
    have hlasts : Lasts s s.crash := .of_committed rfl
    refine ⟨Logged.happened hlogged (hlogged.sound.dropped rfl ?_ rfl) rfl (by simp), hlasts⟩
    exact fun _ _ hk => by simp [State.crash, Database.crash] at hk

end Validity

end ElevateGate.Backend.Enrollment
