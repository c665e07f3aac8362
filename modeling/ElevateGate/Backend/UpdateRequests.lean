import ElevateGate.Backend.Consistency
import ElevateGate.Backend.DeviceRows
import ElevateGate.Interaction.Recording

/-!
# Requests for updates

A request for an update stands until the device reports another version than the request has noted,
provided that it has noted the version that the device runs, and that no session which was under way when
the request was committed takes it back. A log that begins with the commit of the request tells the
sessions that were opened afterwards from those that were under way.
-/

namespace ElevateGate.Backend.Heartbeats

open Interaction Time Text Handler

/-- A state with the log since the run is watched. -/
abbrev Record := Recorded Op Res Sid Event State

/-- Whether a session has been opened, or closed by force, since the log began. -/
def opened (i : Sid) (r : Record) : Bool :=
  r.log.any fun
    | .stopped j => decide (j = i)
    | _ => false

/-- Whether a new row carries a request that the old one does not. -/
def requests (old new : Device) : Bool :=
  new.updateRequestedAt.isSome &&
    !(decide (new.updateRequestedAt = old.updateRequestedAt) &&
      decide (new.updateRequestedFromVersion = old.updateRequestedFromVersion))

/-- A row without a new request carries none, or the one that it has carried. -/
private theorem requests_eq_false {old new : Device} : requests old new = false ↔
    new.updateRequestedAt = none ∨ new.updateRequestedAt = old.updateRequestedAt ∧
      new.updateRequestedFromVersion = old.updateRequestedFromVersion := by
  rw [requests, Bool.and_eq_false_iff, Option.isSome_eq_false_iff, Option.isNone_iff_eq_none,
    Bool.not_eq_false', Bool.and_eq_true, decide_eq_true_eq, decide_eq_true_eq]

/-- The runs in which requests note a version, and no session that was under way when the log began takes
a request back. -/
def kept (device : Device) (v : String) : Guard Op Res Sid Choice Event State where
  perform i op _ r := (rewritten i device op r.state).all fun rows =>
    (opened i r || rows.2.updateRequestedAt.isSome) &&
      (!requests rows.1 rows.2 || decide (rows.2.updateRequestedFromVersion = some v))
  env _ _ := true

/-- The runs in which the device is not asked to update itself. -/
def unasked (device : Device) : Guard Op Res Sid Choice Event State where
  perform i op _ r := (rewritten i device op r.state).all fun rows => !requests rows.1 rows.2
  env _ _ := true

/-- The row carries a request that has noted the version. -/
def Asked (v : String) (d : Device) : Prop :=
  d.updateRequestedAt.isSome = true ∧ d.updateRequestedFromVersion = some v

/-- Whether a bearer token is one of the device. -/
def bearer (site : Site) (device : Device) (credentials : Option String) : Bool :=
  credentials.any fun text =>
    decide ((partitionDot text).2 ≠ "") &&
      decide (Uuid.ofPython (partitionDot text).1 = some device.deviceUuid) &&
      site.verifySecret (partitionDot text).2 device.deviceSecretHash

/-- Whether Basic credentials are those of the device. -/
def basic (site : Site) (device : Device) (credentials : Option BasicCredentials) : Bool :=
  credentials.any fun pair =>
    decide (Uuid.ofPython pair.username = some device.deviceUuid) &&
      site.verifySecret pair.password device.deviceSecretHash

/-- What the device reports as its version, if it is the device that calls. -/
def reported (site : Site) (device : Device) : Call → Option (Option String)
  | .agentHeartbeat credentials body _ =>
    if bearer site device credentials then some body.agentVersion else none
  | .heartbeat credentials body _ =>
    if basic site device credentials then some body.agentVersion else none
  | .requestDeviceUpdate _ _ => none

/-- Whether a call is none in which the device reports another version. -/
def runs (site : Site) (device : Device) (v : String) (call : Call) : Bool :=
  match reported site device call with
  | some (some version) => decide (version = v)
  | _ => true

/-- The answer to a heartbeat of a device that is not active. -/
def notActive : PyError := .httpException 403 "Device is not active."

/-- A heartbeat of the device that is admitted and can be stored ends: the device is not active, or it is
told whether to update itself, and it is told so unless no request is committed any more, which is the
case once it reports another version. -/
def Told (site : Site) (device : Device) (v : String) (call : Call) (result : Except PyError Answer)
    (s : State) : Prop :=
  ∀ credentials body, call = .agentHeartbeat credentials body true →
    bearer site device credentials = true → body.fitsColumns = true →
    result = .error notActive ∨ ∃ response, result = .ok (.agentHeartbeat response) ∧
      (response.updateRequested = false → Cleared device s) ∧
      ∀ w, body.agentVersion = some w → w ≠ v → response.updateRequested = false

/-- What a session relies on. -/
structure Rely (device : Device) (i : Sid) (r r' : Record) : Prop where
  opened : opened i r' = opened i r
  own : r'.state.own i .devices device.id = r.state.own i .devices device.id
  cleared : Cleared device r.state → Cleared device r'.state

/-- What the sessions do about the requests of the device. -/
def tending (site : Site) (device : Device) (v : String) (Ok : Device → Prop) :
    Discipline Sid Call PyError Answer Record where
  inv r := Standing Ok device r.state ∧ Settled device r.state
  rely := Rely device
  evolves _ _ := True
  post i call result r := opened i r = true → Told site device v call result r.state
  rely_refl _ _ := ⟨rfl, rfl, fun h => h⟩
  rely_trans h h' := ⟨h'.opened.trans h.opened, h'.own.trans h.own,
    fun hs => h'.cleared (h.cleared hs)⟩
  evolves_refl _ := True.intro
  evolves_trans _ _ := True.intro

/-- What the runs under a guard, of the calls that are accepted, keep true of the device's row. -/
structure Tended (site : Site) (device : Device) (v : String) (Ok : Device → Prop)
    (guard : Guard Op Res Sid Choice Event State) (accepts : Call → Bool) : Prop where
  asked : ∀ d, Ok d → Asked v d ∨ d.updateRequestedAt = none
  same : ∀ old new : Device, new.updateRequestedAt = old.updateRequestedAt →
    new.updateRequestedFromVersion = old.updateRequestedFromVersion → Ok old → Ok new
  rewrites : ∀ {i o choice r old new}, guard.perform i o choice r = true →
    rewritten i device o r.state = some (old, new) →
    (opened i r = true → (old.updateRequestedAt.isSome → new.updateRequestedAt.isSome) ∨ Ok new) →
    Ok old → Ok new
  stays : ∀ {i o choice r old new}, guard.perform i o choice r = true →
    rewritten i device o r.state = some (old, new) → Ok old → old.updateRequestedAt = none →
    new.updateRequestedAt = none
  clears : ∀ call version d, accepts call = true → reported site device call = some version → Ok d →
    landed d version = true → ∀ d' : Device, d'.updateRequestedAt = none → Ok d'

section Footprints

variable {site : Site} {device : Device} {deviceId : Nat}

/-- An operation leaves who the devices are, and takes no request of the device back. -/
def Demands (device : Device) (o : Op) : Prop :=
  Tends o ∧ ∀ i s old new, rewritten i device o s = some (old, new) →
    old.updateRequestedAt.isSome → new.updateRequestedAt.isSome

/-- What an operation makes of the row of the device. -/
private theorem rewritten_eq_some {i : Sid} {o : Op} {s : State} {old new : Device}
    (h : rewritten i device o s = some (old, new)) :
    ∃ (assign : Row ⟨.devices, device.id⟩ → Option (Row ⟨.devices, device.id⟩)) (row row' : _),
      o = .update ⟨.devices, device.id⟩ assign ∧ s.db.view i ⟨.devices, device.id⟩ = some row ∧
        assign row = some row' ∧ old = row.record ∧ new = row'.record := by
  unfold rewritten at h
  split at h
  · next id assign =>
    split at h
    · next hid =>
      subst hid
      obtain ⟨row, hrow, h⟩ := Option.bind_eq_some_iff.mp h
      obtain ⟨row', hrow', heq⟩ := Option.map_eq_some_iff.mp h
      obtain ⟨rfl, rfl⟩ := Prod.mk.inj heq
      exact ⟨assign, row, row', rfl, hrow, hrow', rfl, rfl⟩
    · contradiction
  · contradiction

/-- An update of a device that leaves who it is. -/
private theorem tends_updateWhere {condition : Device → Bool} {values : Device → Device}
    {hid : ∀ r, Device.id (values r) = Device.id r}
    (hvalues : ∀ r, (values r).deviceUuid = r.deviceUuid ∧
      (values r).deviceSecretHash = r.deviceSecretHash) :
    (updateWhere .devices deviceId condition values hid).Within Tends := by
  refine within_updateWhere fun assign hassign row row' hrow => ?_
  obtain ⟨-, hrecord⟩ := hassign row row' hrow
  rw [hrecord]
  exact hvalues row.record

/-- One that takes no request back. -/
private theorem demands_updateWhere {condition : Device → Bool} {values : Device → Device}
    {hid : ∀ r, Device.id (values r) = Device.id r}
    (hvalues : ∀ r, (values r).deviceUuid = r.deviceUuid ∧
      (values r).deviceSecretHash = r.deviceSecretHash)
    (hasks : ∀ r, r.updateRequestedAt.isSome → (values r).updateRequestedAt.isSome) :
    (updateWhere .devices deviceId condition values hid).Within (Demands device) := by
  refine within_updateWhere fun assign hassign => ⟨fun row row' hrow => ?_, fun i s old new h => ?_⟩
  · obtain ⟨-, hrecord⟩ := hassign row row' hrow
    rw [hrecord]
    exact hvalues row.record
  · obtain ⟨assign', row, row', ho, -, hrow, rfl, rfl⟩ := rewritten_eq_some h
    obtain ⟨hkey, hsame⟩ := Op.update.inj ho
    obtain rfl : deviceId = device.id := (Key.mk.inj hkey).2
    obtain rfl := eq_of_heq hsame
    obtain ⟨-, hrecord⟩ := hassign row row' hrow
    rw [hrecord]
    exact hasks row.record

private theorem demands_quiet {o : Op} (ho : Tends o) (hupdate : ∀ k assign, o ≠ .update k assign) :
    Demands device o := by
  refine ⟨ho, fun i s old new h => ?_⟩
  obtain ⟨assign, row, row', rfl, -⟩ := rewritten_eq_some h
  exact absurd rfl (hupdate _ _)

private theorem demands_recordHeartbeat (device : Device) {d : Device} {seenAt : Datetime}
    {report : Report} {telemetryAt : Option Datetime} :
    (recordHeartbeat site d seenAt report telemetryAt).Within (Demands device) := by
  refine .ite (fun _ => .throw) fun _ => ?_
  refine Program.Within.bind (demands_updateWhere ?_ ?_) fun updated => ?_
  · exact fun r => ⟨rfl, rfl⟩
  · exact fun r h => h
  cases updated with
  | none => exact .throw
  | some updated => exact .pure

private theorem demands_heartbeat (device : Device) {credentials : Option BasicCredentials}
    {body : DeviceHeartbeatRequest} {admitted : Bool} :
    (heartbeat site credentials body admitted).Within (Demands device) := by
  have hquiet : ∀ {o : Op}, Tends o → (∀ k assign, o ≠ .update k assign) → Demands device o :=
    demands_quiet
  refine (within_getCurrentDevice (hquiet trivial (by simp))).bind fun d => within_limit.bind fun _ => ?_
  refine (Program.Within.op (o := Op.now) (hquiet trivial (by simp))).bind fun now => ?_
  exact (demands_recordHeartbeat device).bind fun updated =>
    (Program.Within.op (o := Op.commit) (hquiet trivial (by simp))).bind fun _ => .pure

private theorem demands_requestDeviceUpdate (device : Device) {credentials : Option String} :
    (requestDeviceUpdate site deviceId credentials).Within (Demands device) := by
  have hquiet : ∀ {o : Op}, Tends o → (∀ k assign, o ≠ .update k assign) → Demands device o :=
    demands_quiet
  refine (within_requireRole (hquiet trivial (by simp)) (hquiet trivial (by simp))).bind fun admin => ?_
  refine (Program.Within.op (o := Op.now) (hquiet trivial (by simp))).bind fun now => ?_
  refine Program.Within.bind ?_ fun updated => ?_
  · refine Program.Within.bind (within_one (hquiet trivial (by simp))) fun d => ?_
    cases d with
    | none => exact .pure
    | some d =>
      refine demands_updateWhere ?_ ?_
      · exact fun r => ⟨rfl, rfl⟩
      · exact fun r _ => rfl
  cases updated with
  | none => exact .throw
  | some updated =>
    refine (within_writeAuditLog fun _ => hquiet trivial (by simp)).bind fun _ => ?_
    refine (Program.Within.op (o := Op.commit) (hquiet trivial (by simp))).bind fun _ => ?_
    refine Program.Within.bind (within_one (hquiet trivial (by simp))) fun d => ?_
    cases d with
    | none => exact .throw
    | some d => exact .pure

private theorem tends_agentHeartbeat {credentials : Option String} {body : AgentHeartbeatRequest}
    {admitted : Bool} : (agentHeartbeat site credentials body admitted).Within Tends := by
  refine (within_getCurrentDeviceBearer trivial).bind fun d => within_limit.bind fun _ => ?_
  refine (Program.Within.op (o := Op.now) trivial).bind fun now => ?_
  refine ((demands_recordHeartbeat d).mono fun _ h => h.1).bind fun updated =>
    .ite (fun _ => ?_) fun _ => ?_
  · refine Program.Within.bind (Program.Within.bind (tends_updateWhere ?_) fun _ => .pure) fun _ => ?_
    · exact fun r => ⟨rfl, rfl⟩
    exact (Program.Within.op (o := Op.commit) trivial).bind fun _ => .pure
  · exact (Program.Within.op (o := Op.commit) trivial).bind fun _ => .pure

/-- No call changes who the devices are. -/
theorem tends_serve (device : Device) (call : Call) : (serve site call).Within Tends := by
  refine Program.Within.finally_ ?_ (.op trivial)
  cases call with
  | agentHeartbeat credentials body admitted => exact tends_agentHeartbeat.map
  | heartbeat credentials body admitted =>
    exact ((demands_heartbeat device).mono fun _ h => h.1).map
  | requestDeviceUpdate deviceId credentials =>
    exact ((demands_requestDeviceUpdate device).mono fun _ h => h.1).map

end Footprints

section Tending

variable {site : Site} {device : Device} {v : String} {Ok : Device → Prop}
  {guard : Guard Op Res Sid Choice Event State} {accepts : Call → Bool} {i : Sid} {r r' : Record}
  {o : Op} {choice : Choice} {answer : Res o} {β : Type}

/-- A step that takes no request back, if it is one of a session opened since, keeps what is known of the
device, and the others can rely on it. -/
private theorem tending_step (h : Tended site device v Ok guard accepts)
    (hinv : (tending site device v Ok).inv r) (ho : Tends o)
    (hdemand : opened i r = true → ∀ old new, rewritten i device o r.state = some (old, new) →
      (old.updateRequestedAt.isSome → new.updateRequestedAt.isSome) ∨ Ok new)
    (hperform : ((system site accepts).recorded guard).perform i o choice r = some (answer, r')) :
    (tending site device v Ok).Guarantee i r r' := by
  obtain ⟨hstanding, hsettled⟩ := hinv
  obtain ⟨hguard, hstep, hlog⟩ := System.recorded_perform hperform
  have heffect := perform_effect hstep
  have hok : ∀ old new, rewritten i device o r.state = some (old, new) → Ok old → Ok new :=
    fun old new hrewritten => h.rewrites hguard hrewritten fun hopened =>
      hdemand hopened old new hrewritten
  have hversion : ∀ old new, rewritten i device o r.state = some (old, new) → Ok old := by
    intro old new hrewritten
    obtain ⟨assign, row, row', rfl, hview, -, rfl, rfl⟩ := rewritten_eq_some hrewritten
    exact (hstanding.versions _ (version_of_view hview)).2.2
  have hstays : ∀ old new, rewritten i device o r.state = some (old, new) →
      old.updateRequestedAt = none → new.updateRequestedAt = none := fun old new hrewritten =>
    h.stays hguard hrewritten (hversion old new hrewritten)
  refine ⟨⟨hstanding.performed heffect ho hok, hsettled.performed hstanding heffect ho hstays⟩,
    True.intro, fun j hj => ⟨?_, own_performed heffect ho hj, fun hcleared => ?_⟩⟩
  · rw [opened, hlog]
    rfl
  · exact ((hsettled hcleared).performed heffect ho hstays).cleared

/-- A session that was under way keeps it. -/
private theorem safe_underway (h : Tended site device v Ok guard accepts) {program : Handler β}
    (hprogram : program.Within Tends) (hunder : opened i r = false) :
    (tending site device v Ok).Safe ((system site accepts).recorded guard) i
      (fun _ r' => opened i r' = false) program r := by
  induction hprogram generalizing r with
  | pure => exact fun t ht _ => ht.opened.trans hunder
  | throw => exact fun t ht _ => ht.opened.trans hunder
  | @perform o next allowed _ ih =>
    intro t ht hinv choice answer u hu
    have hunder' : opened i t = false := ht.opened.trans hunder
    refine ⟨tending_step h hinv allowed (fun hopened => ?_) hu, ih answer ?_⟩
    · rw [hunder'] at hopened
      contradiction
    · obtain ⟨-, -, hlog⟩ := System.recorded_perform hu
      rw [opened, hlog]
      exact hunder'

/-- A program that takes no request back. -/
private theorem safe_within (h : Tended site device v Ok guard accepts) {program : Handler β}
    (hprogram : program.Within (Demands device)) :
    (tending site device v Ok).Safe ((system site accepts).recorded guard) i (fun _ _ => True)
      program r := by
  induction hprogram generalizing r with
  | pure => exact fun _ _ _ => trivial
  | throw => exact fun _ _ _ => trivial
  | @perform o next allowed _ ih =>
    intro t ht hinv choice answer u hu
    exact ⟨tending_step h hinv allowed.1 (fun _ old new hrewritten =>
      .inl (allowed.2 i t.state old new hrewritten)) hu, ih answer⟩

/-- What is true when a part of a heartbeat ends, where `mine` says that the device sends it. -/
def Ending (mine : Prop) (P : β → Record → Prop) : Except PyError β → Record → Prop
  | .ok value, r => P value r
  | .error error, _ => mine → error = notActive

variable {mine : Prop} {P : β → Record → Prop}

/-- An operation, and what goes on from its answer. -/
private theorem safe_op (h : Tended site device v Ok guard accepts) {f : Res o → Handler β}
    {Q : Except PyError β → Record → Prop} (ho : Tends o)
    (hdemand : ∀ t old new, rewritten i device o t = some (old, new) →
      (old.updateRequestedAt.isSome → new.updateRequestedAt.isSome) ∨ Ok new)
    (hf : ∀ (t u : Record) choice answer, Rely device i r t → Standing Ok device t.state →
      Settled device t.state → perform site.sign i o choice t.state = some (answer, u.state) →
      Standing Ok device u.state →
      (tending site device v Ok).Safe ((system site accepts).recorded guard) i Q (f answer) u) :
    (tending site device v Ok).Safe ((system site accepts).recorded guard) i Q (op o >>= f) r := by
  intro t ht hinv choice answer u hu
  have hguar := tending_step h hinv ho (fun _ => hdemand t.state) hu
  obtain ⟨-, hstep, -⟩ := System.recorded_perform hu
  exact ⟨hguar, hf t u choice answer ht hinv.1 hinv.2 hstep hguar.inv.1⟩

/-- One part after another. -/
private theorem safe_bind {γ : Type} {P' : γ → Record → Prop} {program : Handler β}
    {f : β → Handler γ}
    (h : (tending site device v Ok).Safe ((system site accepts).recorded guard) i (Ending mine P)
      program r)
    (hf : ∀ value r', P value r' →
      (tending site device v Ok).Safe ((system site accepts).recorded guard) i (Ending mine P')
        (f value) r') :
    (tending site device v Ok).Safe ((system site accepts).recorded guard) i (Ending mine P')
      (program >>= f) r :=
  h.bind (fun value r' _ hP => hf value r' hP) fun _ _ _ herror => herror

private theorem safe_pure {value : β} (h : ∀ r', Rely device i r r' → P value r') :
    (tending site device v Ok).Safe ((system site accepts).recorded guard) i (Ending mine P)
      (.pure value) r := fun r' hrely _ => h r' hrely

private theorem safe_throw {error : PyError} (h : mine → error = notActive) :
    (tending site device v Ok).Safe ((system site accepts).recorded guard) i (Ending mine P)
      (.throw error) r := fun _ _ _ => h

/-- A heartbeat that is not refused by the rate limiter. -/
private theorem safe_limit {admitted : Bool} {f : Unit → Handler β} (hadmitted : mine → admitted = true)
    (h : (tending site device v Ok).Safe ((system site accepts).recorded guard) i (Ending mine P)
      (f ()) r) :
    (tending site device v Ok).Safe ((system site accepts).recorded guard) i (Ending mine P)
      (limit admitted >>= f) r := by
  rw [limit_bind]
  split
  · exact h
  · next hlimited => exact safe_throw fun hm => absurd (hadmitted hm) hlimited

/-- A session has read a device and has not written the one that is watched. -/
structure Read (Ok : Device → Prop) (device d : Device) (i : Sid) (r : Record) : Prop where
  known : Known Ok device d
  own : r.state.own i .devices device.id = none
  cleared : d.id = device.id → d.updateRequestedAt = none → Cleared device r.state

/-- What it has read stays so. -/
private theorem Read.stable {d : Device} (h : Read Ok device d i r) (hrely : Rely device i r r') :
    Read Ok device d i r' :=
  ⟨h.known, hrely.own.trans h.own, fun hid hat => hrely.cleared (h.cleared hid hat)⟩

/-- The device that is read under a UUID. -/
private theorem safe_getByUuid (h : Tended site device v Ok guard accepts) {u : Uuid}
    (hown : r.state.own i .devices device.id = none) (hmine : mine → u = device.deviceUuid) :
    (tending site device v Ok).Safe ((system site accepts).recorded guard) i
      (Ending mine fun found r' => (u = device.deviceUuid → found.isSome) ∧
        ∀ d, found = some d → d.deviceUuid = u ∧ Read Ok device d i r')
      (DeviceRepository.getByUuid u) r := by
  refine safe_op h (o := .query) trivial (fun _ _ _ heq => by contradiction)
    fun t w choice snapshot hrely hstanding _ hperform _ => ?_
  change Discipline.Safe _ _ _ _ (scalarOneOrNone ((Snapshot.rows snapshot .devices).filter
    fun d => decide (Device.deviceUuid d = u))) _
  have hown' : t.state.own i .devices device.id = none := hrely.own.trans hown
  have hfound := hstanding.found hown' hperform
  have hread : ∀ d ∈ (Snapshot.rows snapshot .devices).filter fun d => decide (Device.deviceUuid d = u),
      Device.deviceUuid d = u ∧ Known Ok device d := by
    intro d hd
    obtain ⟨hmem, huuid⟩ := List.mem_filter.mp hd
    exact ⟨of_decide_eq_true huuid, hstanding.read hperform hmem⟩
  have hone : u = device.deviceUuid → ∃ d,
      (Snapshot.rows snapshot .devices).filter (fun d => decide (Device.deviceUuid d = u)) = [d] ∧
        t.state.device device.id = some d := by
    rintro rfl
    obtain ⟨d, hd, -, hcom⟩ := hfound
    exact ⟨d, hd, hcom⟩
  obtain ⟨-, -, hw⟩ := perform_query hperform
  generalize (Snapshot.rows snapshot .devices).filter (fun d => decide (Device.deviceUuid d = u)) = rows
    at hread hone ⊢
  cases rows with
  | nil =>
    refine safe_pure fun r' _ => ⟨fun hu => ?_, fun d heq => by contradiction⟩
    obtain ⟨d, heq, -⟩ := hone hu
    contradiction
  | cons d rest =>
    cases rest with
    | nil =>
      refine safe_pure fun r' hrely' => ⟨fun _ => rfl, fun d' heq => ?_⟩
      obtain rfl := Option.some.inj heq
      obtain ⟨huuid, hknown⟩ := hread d List.mem_cons_self
      refine ⟨huuid, Read.stable ⟨hknown, ?_, fun hid hat d' hd' => ?_⟩ hrely'⟩
      · rw [hw]
        exact hown'
      · obtain ⟨d'', heq, hcom⟩ := hone (huuid.symm.trans (hknown.same hid).1)
        obtain rfl := (List.cons.inj heq).1
        rw [hw] at hd'
        obtain rfl := Option.some.inj (hcom.symm.trans hd')
        exact hat
    | cons d' rest =>
      refine safe_throw fun hm => ?_
      obtain ⟨d'', heq, -⟩ := hone (hmine hm)
      exact absurd (List.cons.inj heq).2 (List.cons_ne_nil _ _)

/-- The device that a bearer token authenticates. -/
private theorem safe_getCurrentDeviceBearer (h : Tended site device v Ok guard accepts)
    {credentials : Option String} (hown : r.state.own i .devices device.id = none)
    (hmine : mine → bearer site device credentials = true) :
    (tending site device v Ok).Safe ((system site accepts).recorded guard) i
      (Ending mine fun d r' => Read Ok device d i r' ∧
        (d.id = device.id ↔ bearer site device credentials = true))
      (getCurrentDeviceBearer site.toDeployment credentials) r := by
  cases credentials with
  | none => exact safe_throw fun hm => absurd (hmine hm) Bool.false_ne_true
  | some text =>
    simp only [getCurrentDeviceBearer]
    split
    · next hsecret =>
      refine safe_throw fun hm => ?_
      simpa [bearer, hsecret] using hmine hm
    next hsecret =>
    split
    · next u hu =>
      have hbearer : bearer site device (some text) = true ↔
          u = device.deviceUuid ∧
            site.verifySecret (partitionDot text).2 device.deviceSecretHash = true := by
        simp [bearer, hsecret, hu]
      refine safe_bind (safe_getByUuid h hown fun hm => (hbearer.mp (hmine hm)).1)
        fun found r' hfound => ?_
      obtain ⟨hsome, hread⟩ := hfound
      cases found with
      | none =>
        exact safe_throw fun hm => absurd (hsome (hbearer.mp (hmine hm)).1) Bool.false_ne_true
      | some d =>
        obtain ⟨huuid, hread⟩ := hread d rfl
        have hiff : d.id = device.id ∧
            site.verifySecret (partitionDot text).2 d.deviceSecretHash = true ↔
              bearer site device (some text) = true := by
          rw [hbearer]
          constructor
          · rintro ⟨hid, hverify⟩
            obtain ⟨huuid', hhash, -⟩ := hread.known.same hid
            exact ⟨huuid.symm.trans huuid', hhash ▸ hverify⟩
          · rintro ⟨hu', hverify⟩
            have hid := hread.known.only (huuid.trans hu')
            exact ⟨hid, (hread.known.same hid).2.1.symm ▸ hverify⟩
        dsimp only
        split
        · next hverify =>
          refine safe_throw fun hm => ?_
          simp [(hiff.mpr (hmine hm)).2] at hverify
        split
        · exact safe_throw fun _ => rfl
        · next hverify _ =>
          refine safe_pure fun r'' hrely => ⟨hread.stable hrely, ?_⟩
          rw [← hiff]
          simpa using fun _ => hverify
    · next hu =>
      refine safe_throw fun hm => ?_
      have hbearer := hmine hm
      simp only [bearer, Option.any_some, Bool.and_eq_true, decide_eq_true_eq] at hbearer
      exact (hu _ hbearer.1.2).elim

/-- What a session makes of the device that it updates whatever its row is. -/
private theorem own_update {s s' : State} {id : Nat} {values : Device → Device}
    {hvalues : ∀ r, Device.id (values r) = Device.id r} {answer : Option (Row ⟨.devices, id⟩)}
    (hstanding : Standing Ok device s) (hid : id = device.id)
    (hperform : perform site.sign i (.update ⟨.devices, id⟩ fun row =>
      if true = true then some (row.modify values hvalues) else none) choice s = some (answer, s')) :
    ∃ row : Row ⟨.devices, id⟩, (s.own i .devices device.id = some row.record ∨
        s.own i .devices device.id = none ∧ s.device device.id = some row.record) ∧
      answer = some (row.modify values hvalues) ∧
      s'.own i .devices device.id = some (values row.record) := by
  subst hid
  cases perform_effect hperform with
  | miss hmiss =>
    obtain ⟨row, hrow⟩ := hstanding.view i
    have hnone := hmiss row hrow
    contradiction
  | hit hview hassign hfree =>
    obtain rfl := Option.some.inj hassign
    exact ⟨_, view_eq_some hview, rfl, own_written_self⟩

/-- What an update returns is known. -/
private theorem known_update {s s' : State} {id : Nat}
    {assign : Row ⟨.devices, id⟩ → Option (Row ⟨.devices, id⟩)} {row : Row ⟨.devices, id⟩}
    (hstanding : Standing Ok device s')
    (hperform : perform site.sign i (.update ⟨.devices, id⟩ assign) choice s = some (some row, s')) :
    Known Ok device row.record := by
  have hid : Device.id row.record = id := row.id_eq
  cases perform_effect hperform with
  | hit hview hassign hfree =>
    refine hstanding.known (.inr ⟨i, ?_⟩)
    rw [hid]
    exact own_written_self

/-- A heartbeat has been recorded: if it is the device's, it is written, and carries no request if the
row that is returned carries none. -/
structure Beaten (Ok : Device → Prop) (device updated : Device) (i : Sid) (r : Record) : Prop where
  known : Known Ok device updated
  own : updated.id = device.id → ∃ d, r.state.own i .devices device.id = some d ∧
    (updated.updateRequestedAt = none → Device.updateRequestedAt d = none)

/-- It stays written. -/
private theorem Beaten.stable {updated : Device} (h : Beaten Ok device updated i r)
    (hrely : Rely device i r r') : Beaten Ok device updated i r' where
  known := h.known
  own hid := by
    obtain ⟨d, hd, hat⟩ := h.own hid
    exact ⟨d, hrely.own.trans hd, hat⟩

/-- What a session makes of the row of a device that it has read. -/
private theorem read_update {t : Record} {s' : State} {d : Device} {values : Device → Device}
    {hvalues : ∀ r, Device.id (values r) = Device.id r} {answer : Option (Row ⟨.devices, d.id⟩)}
    (hread : Read Ok device d i t) (hstanding : Standing Ok device t.state) (hid : d.id = device.id)
    (hperform : perform site.sign i (.update ⟨.devices, d.id⟩ fun row =>
      if true = true then some (row.modify values hvalues) else none) choice t.state =
        some (answer, s')) :
    ∃ row : Row ⟨.devices, d.id⟩, answer = some (row.modify values hvalues) ∧
      s'.own i .devices device.id = some (values row.record) ∧
      (d.updateRequestedAt = none → Device.updateRequestedAt row.record = none) := by
  obtain ⟨row, hrow, heq, hown⟩ := own_update hstanding hid hperform
  refine ⟨row, heq, hown, fun hat => ?_⟩
  obtain hrow | ⟨-, hcom⟩ := hrow
  · rw [hread.own] at hrow
    contradiction
  · exact hread.cleared hid hat _ hcom

/-- The record of a heartbeat. -/
private theorem safe_recordHeartbeat (h : Tended site device v Ok guard accepts) {d : Device}
    {seenAt : Datetime} {report : Report} {telemetryAt : Option Datetime} (hread : Read Ok device d i r)
    (hmine : mine → d.id = device.id) (hfits : mine → report.fitsColumns = true) :
    (tending site device v Ok).Safe ((system site accepts).recorded guard) i
      (Ending mine fun updated r' => Device.id updated = d.id ∧ Beaten Ok device updated i r')
      (recordHeartbeat site d seenAt report telemetryAt) r := by
  rw [recordHeartbeat]
  split
  · next hunfit => exact safe_throw fun hm => by simp [hfits hm] at hunfit
  have hdemands : Demands device (.update ⟨.devices, d.id⟩ fun row =>
      if true = true then some (row.modify (beat seenAt report telemetryAt) fun _ => rfl)
      else none) := by
    have hwithin : (updateWhere .devices d.id (fun _ => true) (beat seenAt report telemetryAt)
        fun _ => rfl).Within (Demands device) :=
      demands_updateWhere (fun _ => ⟨rfl, rfl⟩) fun _ h => h
    cases hwithin with
    | perform ho _ => exact ho
  refine safe_op h hdemands.1 (fun t old new hrewritten => .inl (hdemands.2 i t old new hrewritten))
    fun t u choice answer hrely hstanding _ hperform hstanding' => ?_
  have hread := hread.stable hrely
  cases answer with
  | none =>
    refine safe_throw fun hm => ?_
    obtain ⟨row, heq, -⟩ := read_update hread hstanding (hmine hm) hperform
    contradiction
  | some row =>
    have hid : Device.id row.record = d.id := row.id_eq
    have hreturned : Known Ok device (Row.record row) := known_update hstanding' hperform
    have hstale : Known Ok device (beat seenAt report telemetryAt d) := by
      refine ⟨fun h' => ?_, hread.known.only⟩
      obtain ⟨huuid, hhash, hok⟩ := hread.known.same h'
      exact ⟨huuid, hhash, h.same d _ rfl rfl hok⟩
    refine safe_pure fun r' hrely' => ?_
    cases site.reloads with
    | true =>
      refine ⟨hid, Beaten.stable ⟨hreturned, fun h => ?_⟩ hrely'⟩
      obtain ⟨old, heq, hown, -⟩ := read_update hread hstanding (hid.symm.trans h) hperform
      obtain rfl := Option.some.inj heq
      exact ⟨_, hown, fun hat => hat⟩
    | false =>
      refine ⟨rfl, Beaten.stable ⟨hstale, fun h => ?_⟩ hrely'⟩
      obtain ⟨old, -, hown, hat⟩ := read_update hread hstanding h hperform
      exact ⟨_, hown, hat⟩

/-- What an update that no condition restricts makes of the row of the device. -/
private theorem rewritten_update {s : State} {id : Nat} {values : Device → Device}
    {hvalues : ∀ r, Device.id (values r) = Device.id r} {old new : Device}
    (h : rewritten i device (.update ⟨.devices, id⟩ fun row =>
      if true = true then some (row.modify values hvalues) else none) s = some (old, new)) :
    id = device.id ∧ new = values old := by
  simp only [rewritten] at h
  split at h
  · next hid =>
    obtain ⟨row, -, h⟩ := Option.bind_eq_some_iff.mp h
    obtain ⟨row', hrow', heq⟩ := Option.map_eq_some_iff.mp h
    obtain ⟨rfl, rfl⟩ := Prod.mk.inj heq
    obtain rfl := Option.some.inj hrow'
    exact ⟨hid, rfl⟩
  · contradiction

/-- Reading the clock changes nothing. -/
private theorem state_now {s s' : State} {time : Datetime}
    (h : perform site.sign i .now choice s = some (time, s')) : s' = s := by
  cases perform_effect h
  rfl

/-- What is committed where the session has written the device without a request. -/
private theorem cleared_commit {s s' : State} {d : Device} {answer : Unit}
    (hstanding : Standing Ok device s) (hown : s.own i .devices device.id = some d)
    (hat : d.updateRequestedAt = none)
    (h : perform site.sign i .commit choice s = some (answer, s')) : Cleared device s' := by
  cases perform_effect h
  intro d' hd'
  rw [State.device, com_commit_of_kept hstanding.kept, hown] at hd'
  exact Option.some.inj hd' ▸ hat

/-- The heartbeat of the agent. -/
private theorem safe_agentHeartbeat (h : Tended site device v Ok guard accepts)
    {credentials : Option String} {body : AgentHeartbeatRequest} {admitted : Bool}
    (haccepts : accepts (.agentHeartbeat credentials body admitted) = true)
    (hown : r.state.own i .devices device.id = none) :
    (tending site device v Ok).Safe ((system site accepts).recorded guard) i
      (Ending (bearer site device credentials = true ∧ admitted = true ∧ body.fitsColumns = true)
        fun response r' => bearer site device credentials = true →
          (response.updateRequested = false → Cleared device r'.state) ∧
            ∀ w, body.agentVersion = some w → w ≠ v → response.updateRequested = false)
      (agentHeartbeat site credentials body admitted) r := by
  refine safe_bind (safe_getCurrentDeviceBearer h hown And.left) fun d r₁ hd => ?_
  obtain ⟨hread, hiff⟩ := hd
  refine safe_limit (fun hm => hm.2.1) ?_
  refine safe_op h (o := .now) trivial (fun _ _ _ heq => by contradiction)
    fun t r₂ choice now hrely _ _ hperform _ => ?_
  have hread : Read Ok device d i r₂ := by
    have hread := hread.stable hrely
    exact ⟨hread.known, by rw [state_now hperform]; exact hread.own, fun hid hat => by
      rw [state_now hperform]
      exact hread.cleared hid hat⟩
  refine safe_bind (safe_recordHeartbeat h hread (fun hm => hiff.mpr hm.1) fun hm => hm.2.2)
    fun updated r₃ hupdated => ?_
  obtain ⟨hid, hbeaten⟩ := hupdated
  split
  · next hland =>
    -- the update has landed, and the request is taken back
    have hdemand : ∀ t old new, rewritten i device (.update ⟨.devices, d.id⟩ fun row =>
        if true = true then some (row.modify (fun d =>
          { d with updateRequestedAt := none, updateRequestedFromVersion := none : Device })
          fun _ => rfl) else none) t = some (old, new) →
        (old.updateRequestedAt.isSome → new.updateRequestedAt.isSome) ∨ Ok new := by
      intro t old new hrewritten
      obtain ⟨hdevice, rfl⟩ := rewritten_update hrewritten
      have hok : Ok updated := (hbeaten.known.same (hid.trans hdevice)).2.2
      exact .inr (h.clears _ body.agentVersion updated haccepts (if_pos (hiff.mp hdevice)) hok hland
        _ rfl)
    refine safe_op h ?_ hdemand fun t r₄ choice answer hrely hstanding _ hperform _ => ?_
    · exact fun row row' hrow => Option.some.inj hrow ▸ ⟨rfl, rfl⟩
    refine safe_op h (o := .commit) trivial (fun _ _ _ heq => by contradiction)
      fun t' r₅ choice _ hrely' hstanding' _ hperform' _ => ?_
    refine safe_pure fun r' hrely'' hbearer => ⟨fun _ => hrely''.cleared ?_, fun _ _ _ => rfl⟩
    obtain ⟨row, -, -, hwritten⟩ := own_update hstanding (hiff.mpr hbearer) hperform
    exact cleared_commit hstanding' (hrely'.own.trans hwritten) rfl hperform'
  · next hland =>
    refine safe_op h (o := .commit) trivial (fun _ _ _ heq => by contradiction)
      fun t r₄ choice _ hrely hstanding _ hperform _ => ?_
    refine safe_pure fun r' hrely' hbearer => ?_
    have hdevice := hid.trans (hiff.mpr hbearer)
    refine ⟨fun hfalse => hrely'.cleared ?_, fun w hw hne => ?_⟩
    · obtain ⟨written, hwritten, hat⟩ := hbeaten.own hdevice
      exact cleared_commit hstanding (hrely.own.trans hwritten)
        (hat (Option.not_isSome_iff_eq_none.mp (Bool.not_eq_true _ ▸ hfalse))) hperform
    · obtain ⟨hat, hfrom⟩ | hat := h.asked updated (hbeaten.known.same hdevice).2.2
      · -- a request that has noted `v` would have landed
        simp [landed, hat, hw, hfrom, hne] at hland
      · simp [hat]

/-- What the device was told stays true while no other request is committed. -/
private theorem Told.stable {call : Call} {result : Except PyError Answer} {s s' : State}
    (h : Told site device v call result s) (hcleared : Cleared device s → Cleared device s') :
    Told site device v call result s' := fun credentials body hcall hbearer hfits =>
  (h credentials body hcall hbearer hfits).imp_right fun ⟨response, hresponse, hfalse, hother⟩ =>
    ⟨response, hresponse, fun h => hcleared (hfalse h), hother⟩

/-- An endpoint tells the device what it should. -/
private theorem safe_endpoint (h : Tended site device v Ok guard accepts) {call : Call}
    (haccepts : accepts call = true) (hown : r.state.own i .devices device.id = none) :
    (tending site device v Ok).Safe ((system site accepts).recorded guard) i
      (fun result r' => Told site device v call result r'.state) (endpoint site call) r := by
  cases call with
  | agentHeartbeat credentials body admitted =>
    rw [endpoint, map_eq_pure_bind]
    refine (safe_agentHeartbeat h haccepts hown).bind (fun response r' _ hends r'' hrely _ => ?_)
      fun error r' _ hends => ?_
    · refine Told.stable (s := r'.state) (fun credentials body heq hbearer _ => ?_) hrely.cleared
      obtain ⟨rfl, rfl, -⟩ := Call.agentHeartbeat.inj heq
      exact .inr ⟨response, rfl, hends hbearer⟩
    · intro credentials body heq hbearer hfits
      obtain ⟨rfl, rfl, rfl⟩ := Call.agentHeartbeat.inj heq
      exact .inl (congrArg Except.error (hends ⟨hbearer, rfl, hfits⟩))
  | heartbeat credentials body admitted =>
    rw [endpoint, map_eq_pure_bind]
    exact (safe_within h ((demands_heartbeat device).bind fun _ => .pure)).mono
      fun _ _ _ _ _ _ heq => by contradiction
  | requestDeviceUpdate deviceId credentials =>
    rw [endpoint, map_eq_pure_bind]
    exact (safe_within h ((demands_requestDeviceUpdate device).bind fun _ => .pure)).mono
      fun _ _ _ _ _ _ heq => by contradiction

/-- Closing the session leaves what the device was told. -/
private theorem safe_serve (h : Tended site device v Ok guard accepts) {call : Call}
    (haccepts : accepts call = true) (hown : r.state.own i .devices device.id = none) :
    (tending site device v Ok).Safe ((system site accepts).recorded guard) i
      (fun result r' => Told site device v call result r'.state) (serve site call) r := by
  refine (safe_endpoint h haccepts hown).finally_ (fun result r' _ htold => ?_)
    fun result r' r'' htold hrely _ => htold.stable hrely.cleared
  have hclose : (tending site device v Ok).Safe ((system site accepts).recorded guard) i
      (fun final r'' => match final with
        | .ok () => Told site device v call result r''.state
        | .error error => Told site device v call (.error error) r''.state)
      (op .close >>= pure) r' := by
    refine safe_op h trivial (fun _ _ _ heq => by contradiction)
      fun t u choice answer hrely _ _ hperform _ r'' hrely' _ => ?_
    have hcommitted := (perform_effect hperform).committed (by simp)
    refine htold.stable fun hcleared => hrely'.cleared fun d hd => ?_
    exact hrely.cleared hcleared d ((com_congr hcommitted _ _).symm.trans hd)
  exact hclose

/-- The calls keep what is known of the device. -/
theorem tending_valid (h : Tended site device v Ok guard accepts) :
    (tending site device v Ok).Valid ((system site accepts).recorded guard) where
  entry i call program r hprogram hinv := by
    change (if accepts call then some (serve site call) else none) = some program at hprogram
    split at hprogram
    · next haccepts =>
      obtain rfl := Option.some.inj hprogram
      exact (safe_serve h haccepts (own_dropDirty rfl)).mono fun _ _ _ htold _ => htold
    · contradiction
  stop i r hinv := by
    refine ⟨⟨hinv.1.dropped rfl (fun _ _ => Database.dirty_of_dropDirty) rfl,
      hinv.2.dropped rfl (fun _ _ => Database.dirty_of_dropDirty) rfl⟩, True.intro,
      fun j hj => ⟨?_, own_of_frame (Database.rollback_frame hj.symm) _ _, fun h => h⟩⟩
    change (decide (i = j) || opened j r) = opened j r
    simp [hj.symm]
  env event r r' henv hinv := by
    change (if guard.env event r then (env event r.state).map _ else none) = some r' at henv
    split at henv
    · obtain ⟨s', hs', rfl⟩ := Option.map_eq_some_iff.mp henv
      refine ⟨⟨hinv.1.env hs' h.same, hinv.2.env hs'⟩, True.intro, fun i => ⟨rfl, own_env hs',
        fun hcleared => ?_⟩⟩
      exact ((hinv.2 hcleared).env hs' fun old new hat _ hold => hat.trans hold).cleared
    · contradiction
  reset r r' hreset hinv := by
    obtain rfl := Option.some.inj hreset
    have hdirty : ∀ k version, r.state.crash.db.dirty k = some version →
        r.state.db.dirty k = some version := fun _ _ hk => by simp [State.crash, Database.crash] at hk
    exact ⟨⟨hinv.1.dropped rfl hdirty rfl, hinv.2.dropped rfl hdirty rfl⟩, True.intro⟩

end Tending

section Guards

variable {site : Site} {device : Device} {v : String}

/-- Requests that have noted the version are kept while the device runs it. -/
private theorem tended_kept :
    Tended site device v (Asked v) (kept device v) (runs site device v) where
  asked _ hd := .inl hd
  same old new hat hfrom hold := ⟨hat ▸ hold.1, hfrom.trans hold.2⟩
  rewrites := by
    intro i o choice r old new hguard hrewritten hdemand hold
    simp only [kept, hrewritten, Option.all_some, Bool.and_eq_true, Bool.or_eq_true, Bool.not_eq_true',
      decide_eq_true_eq] at hguard
    obtain ⟨hasked, hnoted⟩ := hguard
    by_cases hok : Asked v new
    · exact hok
    have hat : new.updateRequestedAt.isSome := hasked.elim
      (fun hopened => (hdemand hopened).elim (fun hat => hat hold.1) fun h => absurd h hok) fun h => h
    refine ⟨hat, hnoted.elim (fun hsame => ?_) fun h => h⟩
    obtain hnone | ⟨-, hfrom⟩ := requests_eq_false.mp hsame
    · rw [hnone] at hat
      contradiction
    · exact hfrom.trans hold.2
  stays := by
    intro i o choice r old new _ _ hold hat
    rw [Asked, hat] at hold
    exact absurd hold.1 Bool.false_ne_true
  clears := by
    intro call version d haccepts hreported hd hland
    simp only [runs, hreported] at haccepts
    cases version with
    | none => simp [landed] at hland
    | some w =>
      obtain rfl := of_decide_eq_true haccepts
      simp [landed, hd.2] at hland

/-- Without a further request, what carries one carries it as before. -/
private theorem tended_unasked : Tended site device v (fun d => Asked v d ∨ d.updateRequestedAt = none)
    (unasked device) (fun _ => true) where
  asked _ hd := hd
  same old new hat hfrom hold := hold.imp (fun h => ⟨hat ▸ h.1, hfrom.trans h.2⟩) hat.trans
  rewrites := by
    intro i o choice r old new hguard hrewritten _ hold
    simp only [unasked, hrewritten, Option.all_some, Bool.not_eq_true'] at hguard
    obtain hnone | ⟨hat, hfrom⟩ := requests_eq_false.mp hguard
    · exact .inr hnone
    · exact hold.imp (fun h => ⟨hat ▸ h.1, hfrom.trans h.2⟩) hat.trans
  stays := by
    intro i o choice r old new hguard hrewritten _ hold
    simp only [unasked, hrewritten, Option.all_some, Bool.not_eq_true'] at hguard
    obtain hnone | ⟨hat, -⟩ := requests_eq_false.mp hguard
    · exact hnone
    · exact hat.trans hold
  clears _ _ _ _ _ _ _ d hd := .inr hd

end Guards

section Registration

/-- The calls keep the registry in order. -/
def registering : Discipline Sid Call PyError Answer State where
  inv := Orderly
  rely _ _ _ := True
  evolves _ _ := True
  post _ _ _ _ := True
  rely_refl _ _ := True.intro
  rely_trans _ _ := True.intro
  evolves_refl _ := True.intro
  evolves_trans _ _ := True.intro

variable {site : Site} {accepts : Call → Bool}

private theorem registering_safe {i : Sid} {program : Handler Answer} (h : program.Within Tends)
    {s : State} : registering.Safe (system site accepts) i (fun _ _ => True) program s := by
  induction h generalizing s with
  | pure => exact fun _ _ _ => trivial
  | throw => exact fun _ _ _ => trivial
  | perform ho _ ih =>
    exact fun t _ hinv choice answer u hu =>
      ⟨⟨Orderly.performed hinv (perform_effect hu) ho, True.intro, fun _ _ => True.intro⟩, ih answer⟩

private theorem registering_valid (device : Device) : registering.Valid (system site accepts) where
  entry i call program s hprogram _ := by
    simp only [system] at hprogram
    split at hprogram
    · obtain rfl := Option.some.inj hprogram
      exact registering_safe (tends_serve device call)
    · contradiction
  stop i s hinv := ⟨Orderly.dropped hinv rfl
    (fun _ _ => Database.dirty_of_dropDirty) rfl, True.intro, fun _ _ => True.intro⟩
  env event s s' henv hinv := ⟨Orderly.env hinv henv, True.intro, fun _ => True.intro⟩
  reset s s' hreset hinv := by
    obtain rfl := Option.some.inj hreset
    exact ⟨Orderly.dropped hinv rfl (fun _ _ hk => by simp [State.crash, Database.crash] at hk) rfl,
      True.intro⟩

/-- The threads of a run leave who the devices are. -/
private theorem tends_run (device : Device) {guard : Guard Op Res Sid Choice Event State}
    {labels : List (Label Sid Choice Event Call)}
    {c c' : Config Op Res PyError Answer Sid Call Record}
    (hc : ∀ i call program, c.thread i = some (call, program) → program.Within Tends)
    (hrun : ((system site accepts).recorded guard).run labels c = some c') :
    ∀ i call program, c'.thread i = some (call, program) → program.Within Tends := by
  refine System.within_run _ (fun i call program hprogram => ?_) hc hrun
  change (if accepts call then some (serve site call) else none) = some program at hprogram
  split at hprogram
  · exact Option.some.inj hprogram ▸ tends_serve device call
  · contradiction

end Registration

/-- A configuration of the backend. -/
abbrev Configuration := Config Op Res PyError Answer Sid Call State

/-- A configuration with the log since the run is watched. -/
abbrev Watched := Config Op Res PyError Answer Sid Call Record

/-- A session commits a row of a device. -/
def Commits (site : Site) (device : Device) (c c' : Configuration) : Prop :=
  ∃ i choice call next, c.thread i = some (call, .perform .commit next) ∧
    c.shared.own i .devices device.id = some device ∧
    (system site fun _ => true).step (.perform i choice) c = some c'

section Requests

variable {site : Site} {device : Device} {v : String}

/-- A watched run tells the devices what it should. -/
private theorem told_of_run {Ok : Device → Prop} {guard : Guard Op Res Sid Choice Event State}
    {accepts : Call → Bool} (h : Tended site device v Ok guard accepts) {c : Configuration}
    (hstanding : Standing Ok device c.shared) (hsettled : Settled device c.shared)
    (hthreads : ∀ i call program, c.thread i = some (call, program) → program.Within Tends)
    {labels : List (Label Sid Choice Event Call)} {d : Watched}
    (hrun : ((system site accepts).recorded guard).run labels c.watch = some d) :
    Standing Ok device d.shared.state ∧ Settled device d.shared.state ∧
      ∀ i call result, opened i d.shared = true → d.thread i = some (call, .liftExcept result) →
        Told site device v call result d.shared.state := by
  have hgood : (tending site device v Ok).Good ((system site accepts).recorded guard) c.watch := by
    refine ⟨⟨hstanding, hsettled⟩, fun i call program hthread => ?_⟩
    refine (safe_underway h (hthreads i call program hthread) rfl).mono fun _ r _ hunder hopened => ?_
    rw [hunder] at hopened
    contradiction
  obtain ⟨hgood', -⟩ := (tending_valid h).run hgood hrun
  refine ⟨hgood'.inv.1, hgood'.inv.2, fun i call result hopened hthread => ?_⟩
  cases result with
  | ok answer => exact hgood'.ended.1 answer hthread hopened
  | error error => exact hgood'.ended.2 error hthread hopened

/-- While the device runs the version that a request has noted, and no session that was under way when
the request was committed takes it back, every heartbeat that starts afterwards, that the rate limiter
admits and that can be stored is told to update; and without a further request, one that reports another
version is told not to, and leaves none. -/
theorem update_request_kept {s : State} (hs : Registry s)
    {before during : List (Label Sid Choice Event Call)} {c c' : Configuration} {d : Watched}
    (hbefore : (system site fun _ => true).run before (System.init s) = some c)
    (hcommit : Commits site device c c') (hasked : Asked v device)
    (hduring : ((system site (runs site device v)).recorded (kept device v)).run during c'.watch =
      some d) :
    (∀ i credentials body result, opened i d.shared = true →
      bearer site device credentials = true → body.fitsColumns = true →
      d.thread i = some (.agentHeartbeat credentials body true, .liftExcept result) →
      result = .error notActive ∨ result = .ok (.agentHeartbeat ⟨true⟩)) ∧
    ∀ {after : List (Label Sid Choice Event Call)} {e : Watched},
      ((system site fun _ => true).recorded (unasked device)).run after d.forget.watch = some e →
      ∀ i credentials body w result, opened i e.shared = true →
        bearer site device credentials = true → body.fitsColumns = true →
        body.agentVersion = some w → w ≠ v →
        e.thread i = some (.agentHeartbeat credentials body true, .liftExcept result) →
        result = .error notActive ∨ result = .ok (.agentHeartbeat ⟨false⟩) ∧
          ∃ row, e.shared.state.device device.id = some row ∧ row.updateRequestedAt = none := by
  obtain ⟨j, choice, call, next, hpending, hown, hstep⟩ := hcommit
  have hthreads : ∀ i call program, c'.thread i = some (call, program) → program.Within Tends := by
    have hrun : (system site fun _ => true).run (before ++ [.perform j choice]) (System.init s) =
        some c' :=
      System.run_snoc _ hbefore hstep
    refine System.within_run _ (fun i call program hprogram => ?_)
      (fun _ _ _ hthread => by contradiction) hrun
    exact Option.some.inj hprogram ▸ tends_serve device call
  have hstanding : Standing (Asked v) device c'.shared := by
    obtain ⟨hgood, -⟩ := (registering_valid device).run
      (Discipline.good_init hs.orderly) hbefore
    obtain ⟨call', o, next', answer, s', hthread, hperform, rfl⟩ := System.step_perform _ hstep
    obtain ⟨rfl, heq⟩ := Prod.mk.inj (Option.some.inj (hpending.symm.trans hthread))
    obtain ⟨rfl, -⟩ := Program.perform.inj heq
    change perform site.sign j .commit choice c.shared = some (answer, s') at hperform
    have hcommitted : s' = c.shared.commit j := by
      cases perform_effect hperform
      rfl
    rw [hcommitted]
    exact (hgood.inv.standing device.id device (.inr ⟨j, hown⟩)).committed hown hasked
  obtain ⟨hstanding', hsettled', htold⟩ := told_of_run tended_kept hstanding
    (hstanding.mono fun _ h => h.1).settled hthreads hduring
  refine ⟨fun i credentials body result hopened hbearer hfits hthread => ?_,
    fun hafter i credentials body w result hopened hbearer hfits hw hne hthread => ?_⟩
  · obtain herror | ⟨⟨updateRequested⟩, hresponse, hcleared, -⟩ :=
      htold i _ result hopened hthread credentials body rfl hbearer hfits
    · exact .inl herror
    -- a request is committed, so the device is told so
    obtain ⟨row, hrow⟩ := Option.isSome_iff_exists.mp hstanding'.standing
    have hrequest := (hstanding'.versions row (.inl hrow)).2.2.1
    cases updateRequested with
    | true => exact .inr hresponse
    | false =>
      rw [hcleared rfl row hrow] at hrequest
      contradiction
  · obtain ⟨hstanding'', -, htold'⟩ := told_of_run tended_unasked (c := d.forget)
      (hstanding'.mono fun _ h => .inl h) hsettled' (tends_run device hthreads hduring) hafter
    obtain herror | ⟨⟨updateRequested⟩, hresponse, hcleared, hfalse⟩ :=
      htold' i _ result hopened hthread credentials body rfl hbearer hfits
    · exact .inl herror
    obtain rfl : updateRequested = false := hfalse w hw hne
    obtain ⟨row, hrow⟩ := Option.isSome_iff_exists.mp hstanding''.standing
    exact .inr ⟨hresponse, row, hrow, hcleared rfl row hrow⟩

end Requests

/-! ## Two requests

An administrator asks a device to update itself, once after a heartbeat has told the backend which version
it runs, and once before. -/

namespace Sample

/-- The deployment. -/
def site : Site where
  toDeployment := Backend.Sample.deployment
  reloads := true

/-- The device that last reported a version. -/
def lastReported (agentVersion : Option String) : Device :=
  { Backend.Sample.device with agentVersion := agentVersion }

/-- The database with this device. -/
def database (agentVersion : Option String) : State where
  db :=
    { committed := Function.update Backend.Sample.database.db.committed ⟨.devices, 0⟩
        (some ⟨lastReported agentVersion, rfl⟩)
      dirty := fun _ => none }
  nextId t := if t = .devices ∨ t = .adminUsers then 1 else 0
  txStart _ := none
  clock := Backend.Sample.noon
  signed := []

/-- The device with the request. -/
def asked (agentVersion : Option String) : Device :=
  { lastReported agentVersion with updateRequestedAt := some Backend.Sample.noon
                                   updateRequestedFromVersion := agentVersion }

/-- The bearer token of the device. -/
def token : Option String := some (Backend.Sample.deviceUuid.textD ++ ".secret")

/-- The steps of the request before its commit. -/
def request : List (Label Sid Choice Event Call) :=
  [.spawn 0 (.requestDeviceUpdate 0 (some "token")), .perform 0 .unit,
    .perform 0 (Backend.Sample.order 0 0 0), .perform 0 .unit,
    .perform 0 (Backend.Sample.order 0 0 0), .perform 0 .unit, .perform 0 .unit]

/-- The body of a heartbeat. -/
def beatBody (version : String) : AgentHeartbeatRequest where
  agentVersion := some version
  diskTotalBytes := some 512000000000
  ramTotalBytes := some 16000000000

/-- The steps of a heartbeat that performs some number of operations after its query. -/
def beats (i : Sid) (version : String) (count : Nat) : List (Label Sid Choice Event Call) :=
  .spawn i (.agentHeartbeat token (beatBody version) true) ::
    .perform i (Backend.Sample.order 0 0 1) :: List.replicate count (.perform i .unit)

/-- The session of a configuration that is about to commit the device, with what it commits. -/
def pending (i : Sid) (c : Configuration) : Option Device :=
  match c.thread i with
  | some (_, .perform .commit _) => c.shared.own i .devices 0
  | _ => none

/-- A heartbeat with its answer. -/
structure Exchange where
  credentials : Option String := token
  body : AgentHeartbeatRequest
  admitted : Bool := true
  updateRequested : Bool
  deriving DecidableEq

/-- The heartbeat that a session has answered, with its answer. -/
def answered (i : Sid) (d : Watched) : Option Exchange :=
  match d.thread i with
  | some (.agentHeartbeat credentials body admitted, .pure (.agentHeartbeat response)) =>
    some ⟨credentials, body, admitted, response.updateRequested⟩
  | _ => none

private theorem commits_of_pending {i : Sid} {c c' : Configuration} {device : Device} {choice : Choice}
    (hid : device.id = 0) (h : pending i c = some device)
    (hstep : (system site fun _ => true).step (.perform i choice) c = some c') :
    Commits site device c c' := by
  rw [pending] at h
  cases hthread : c.thread i with
  | none => simp [hthread] at h
  | some entry =>
    obtain ⟨call, program⟩ := entry
    cases program with
    | perform o next =>
      cases o with
      | commit =>
        rw [hthread] at h
        exact ⟨i, choice, call, next, hthread, hid ▸ h, hstep⟩
      | _ => simp [hthread] at h
    | _ => simp [hthread] at h

private theorem thread_of_answered {i : Sid} {d : Watched} {e : Exchange}
    (h : answered i d = some e) :
    d.thread i = some (.agentHeartbeat e.credentials e.body e.admitted,
      .liftExcept (.ok (.agentHeartbeat ⟨e.updateRequested⟩))) := by
  unfold answered at h
  split at h
  · next credentials body admitted response hthread =>
    obtain rfl := Option.some.inj h
    exact hthread
  · exact absurd h (Option.some_ne_none _).symm

/-- The device is registered once. -/
private theorem database_registry (agentVersion : Option String) : Registry (database agentVersion) := by
  have hdevice : ∀ id d, (database agentVersion).device id = some d → id = 0 := by
    intro id d hd
    cases id with
    | zero => rfl
    | succ id => exact absurd hd (Option.some_ne_none _).symm
  refine ⟨fun _ => rfl, fun id d hd => ?_, fun id id' d d' hd hd' _ => ?_⟩
  · rw [hdevice id d hd]
    exact Nat.one_pos
  · exact (hdevice id d hd).trans (hdevice id' d' hd').symm

/-- What a run shows. -/
structure Outcome where
  committed : Option Device
  during : Bool × Option Exchange
  after : Bool × Option Exchange
  deriving DecidableEq

/-- What the request commits, and what the heartbeats are answered that follow. -/
def outcome (accepts : Call → Bool) (guard : Guard Op Res Sid Choice Event State)
    (agentVersion : Option String) (during after : List (Label Sid Choice Event Call)) :
    Option Outcome := do
  let c ← (system site accepts).run request (System.init (database agentVersion))
  let c' ← (system site fun _ => true).step (.perform 0 .unit) c
  let d ← ((system site (runs site (asked agentVersion) "1.0.2")).recorded guard).run during c'.watch
  let e ← ((system site fun _ => true).recorded (unasked (asked agentVersion))).run after d.forget.watch
  return ⟨pending 0 c, (opened 1 d.shared, answered 1 d), (opened 2 e.shared, answered 2 e)⟩

/-- The run, taken apart. -/
private theorem exists_of_outcome {accepts : Call → Bool} {guard : Guard Op Res Sid Choice Event State}
    {agentVersion : Option String} {during after : List (Label Sid Choice Event Call)} {o : Outcome}
    (h : outcome accepts guard agentVersion during after = some o) :
    ∃ c c' d e, (system site accepts).run request (System.init (database agentVersion)) = some c ∧
      (system site fun _ => true).step (.perform 0 .unit) c = some c' ∧
      ((system site (runs site (asked agentVersion) "1.0.2")).recorded guard).run during c'.watch =
        some d ∧
      ((system site fun _ => true).recorded (unasked (asked agentVersion))).run after d.forget.watch =
        some e ∧
      ⟨pending 0 c, (opened 1 d.shared, answered 1 d), (opened 2 e.shared, answered 2 e)⟩ = o := by
  obtain ⟨c, hc, h⟩ := Option.bind_eq_some_iff.mp h
  obtain ⟨c', hc', h⟩ := Option.bind_eq_some_iff.mp h
  obtain ⟨d, hd, h⟩ := Option.bind_eq_some_iff.mp h
  obtain ⟨e, he, h⟩ := Option.bind_eq_some_iff.mp h
  exact ⟨c, c', d, e, hc, hc', hd, he, Option.some.inj h⟩

end Sample

/-- The device that runs the version it has last reported is told to update, and when it reports the next
version it is told not to. -/
theorem update_request_kept_sample : ∃ d e : Watched,
    Sample.answered 1 d = some { body := Sample.beatBody "1.0.2", updateRequested := true } ∧
      Sample.answered 2 e = some { body := Sample.beatBody "1.0.3", updateRequested := false } ∧
      ∃ row, e.shared.state.device 0 = some row ∧ row.updateRequestedAt = none := by
  have houtcome : Sample.outcome (fun _ => true) (kept (Sample.asked (some "1.0.2")) "1.0.2")
      (some "1.0.2") (Sample.beats 1 "1.0.2" 4) (Sample.beats 2 "1.0.3" 5) =
        some ⟨some (Sample.asked (some "1.0.2")),
          (true, some { body := Sample.beatBody "1.0.2", updateRequested := true }),
          (true, some { body := Sample.beatBody "1.0.3", updateRequested := false })⟩ := by
    decide +kernel
  obtain ⟨c, c', d, e, hc, hc', hd, he, heq⟩ := Sample.exists_of_outcome houtcome
  obtain ⟨hpending, hduring, hafter⟩ := Sample.Outcome.mk.inj heq
  obtain ⟨-, hanswered⟩ := Prod.mk.inj hduring
  obtain ⟨hopened', hanswered'⟩ := Prod.mk.inj hafter
  obtain ⟨-, hcleared⟩ := update_request_kept (Sample.database_registry _) hc
    (Sample.commits_of_pending rfl hpending hc') ⟨rfl, rfl⟩ hd
  have htold := hcleared he 2 _ _ "1.0.3" _ hopened' (by decide +kernel) (by decide) rfl (by decide)
    (Sample.thread_of_answered hanswered')
  obtain herror | ⟨-, row, hrow, hat⟩ := htold
  · contradiction
  · exact ⟨d, e, hanswered, hanswered', row, hrow, hat⟩

/-- A device that is asked before it has reported its version is not told to update, and the request is
gone, when it reports for the first time the version that it has run all along. -/
theorem update_request_lost : ¬ ∀ (site : Site) (device : Device) (v : String) (s : State),
    Registry s → ∀ (before during : List (Label Sid Choice Event Call)) (c c' : Configuration)
    (d : Watched), (system site (runs site device v)).run before (System.init s) = some c →
    Commits site device c c' → device.updateRequestedAt.isSome = true →
    ((system site (runs site device v)).recorded .free).run during c'.watch = some d →
    ∀ i credentials body result, opened i d.shared = true →
      bearer site device credentials = true → body.fitsColumns = true →
      d.thread i = some (.agentHeartbeat credentials body true, .liftExcept result) →
      result = .error notActive ∨ result = .ok (.agentHeartbeat ⟨true⟩) := by
  intro hclaim
  have houtcome : Sample.outcome (runs Sample.site (Sample.asked none) "1.0.2") .free none
      (Sample.beats 1 "1.0.2" 5) [] =
        some ⟨some (Sample.asked none),
          (true, some { body := Sample.beatBody "1.0.2", updateRequested := false }),
          (false, none)⟩ := by
    decide +kernel
  obtain ⟨c, c', d, e, hc, hc', hd, -, heq⟩ := Sample.exists_of_outcome houtcome
  obtain ⟨hpending, hduring, -⟩ := Sample.Outcome.mk.inj heq
  obtain ⟨hopened, hanswered⟩ := Prod.mk.inj hduring
  have htold := hclaim Sample.site (Sample.asked none) "1.0.2" _ (Sample.database_registry none) _ _ c c'
    d hc (Sample.commits_of_pending rfl hpending hc') rfl hd 1 _ _ _ hopened (by decide +kernel)
    (by decide) (Sample.thread_of_answered hanswered)
  obtain herror | hok := htold
  · contradiction
  · cases hok

end ElevateGate.Backend.Heartbeats
