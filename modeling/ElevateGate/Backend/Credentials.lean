import ElevateGate.Backend.Consistency
import ElevateGate.Backend.OncePerDevice

/-!
# The winner and its credential

In every run of calls for one device exactly one is answered with a credential, which authenticates the
device from then on. What the others are answered depends on what they saw: who looks the device up
after it has been enrolled is told so; who looked it up before, and loses, meets the unique index.
-/

namespace ElevateGate.Backend.Enrollment

open Interaction Time Text Handler Relation

section Owners

variable {site : Site} {u : Uuid}
  {c c' : Config Op Res PyError Answer Sid Call Record}

/-- The operations of a call: it adds no device but its own, and only under the right key. -/
def Permits (site : Site) (call : Call) : Op → Prop
  | .update _ _ => False
  | .insert .devices make => call.xEnrollmentKey = site.enrollmentKey ∧
      ∀ id now, Device.deviceUuid (make id now).record = call.device.deviceUuid
  | _ => True

/-- Such an operation updates no row. -/
theorem Permits.adds {call : Call} {op : Op} (h : Permits site call op) : Adds op := by
  cases op with
  | update => exact h
  | _ => trivial

/-- A call performs no other operations. -/
private theorem within_enroll (call : Call) {α : Type} {respond : Device → String → α} :
    (enroll site call.xEnrollmentKey call.device call.admitted respond).Within
      (Permits site call) := by
  rw [enroll, requireEnrollmentKey]
  by_cases hkey : call.xEnrollmentKey ≠ site.enrollmentKey
  · rw [if_pos hkey]
    exact .throw
  · rw [if_neg hkey]
    refine within_limit.bind fun _ => (within_one trivial).bind fun existing =>
      .ite (fun _ => .throw) fun _ => ?_
    refine (Program.Within.op (o := Op.tokenUrlsafe 32) trivial).bind fun secret => ?_
    refine ((Program.Within.op (o := Op.tokenUrlsafe 16) trivial).bind fun _ => .pure).bind
      fun deviceSecretHash => ?_
    have hcreate : (create call.device deviceSecretHash).Within (Permits site call) :=
      .ite (fun _ => .throw) fun _ => within_insert ⟨not_not.mp hkey, fun _ _ => rfl⟩
    refine hcreate.bind fun d => Program.Within.bind ?_ fun _ => .pure
    refine (within_writeAuditLog fun _ => trivial).bind fun _ => ?_
    refine (Program.Within.op (o := Op.commit) trivial).bind fun _ => (within_one trivial).bind fun d => ?_
    cases d with
    | none => exact .throw
    | some d => exact .pure

/-- A call performs no other operations. -/
theorem within_serve (call : Call) : (serve site call).Within (Permits site call) := by
  refine Program.Within.finally_ ?_ (.op trivial)
  cases call with
  | agentEnroll xEnrollmentKey body admitted =>
    exact (within_enroll (.agentEnroll xEnrollmentKey body admitted)).map
  | enrollDevice xEnrollmentKey body admitted =>
    exact (within_enroll (.enrollDevice xEnrollmentKey body admitted)).map

/-- Who has added a device that is not committed is about to enrol it. -/
structure Owned (site : Site) (c : Config Op Res PyError Answer Sid Call Record) : Prop where
  within : ∀ i call program, c.thread i = some (call, program) → program.Within (Permits site call)
  own : ∀ i id d, c.shared.state.own i .devices id = some d →
    ∃ call program, c.thread i = some (call, program) ∧ call.Enrolls site (Device.deviceUuid d)

/-- The devices that a session has added stay its own or are dropped. -/
private theorem Owned.stopped {i : Sid} {r : Record} {entry : Option (Call × Handler Answer)}
    (h : Owned site c) (hdirty : r.state.db.dirty = c.shared.state.db.dropDirty i)
    (hentry : ∀ call program, entry = some (call, program) → program.Within (Permits site call)) :
    Owned site { shared := r, thread := Function.update c.thread i entry } where
  within j call program hthread := by
    by_cases hj : j = i
    · subst hj
      exact hentry call program (by simpa using hthread)
    · exact h.within j call program (by simpa [hj] using hthread)
  own j id d hown := by
    have hj : j ≠ i := by
      rintro rfl
      rw [own_dropDirty hdirty] at hown
      contradiction
    obtain ⟨call, program, hthread, henrolls⟩ := h.own j id d (own_of_dropDirty hdirty hown)
    exact ⟨call, program, (Function.update_of_ne hj _ _).trans hthread, henrolls⟩

/-- The device that an operation adds is the one that its call enrols. -/
private theorem Owned.performed {i : Sid} {choice : Choice} {call : Call} {op : Op}
    {next : Res op → Handler Answer} {answer : Res op} {r : Record} (h : Owned site c)
    (hlogged : Logged c.shared) (hthread : c.thread i = some (call, .perform op next))
    (hperform : perform site.sign i op choice c.shared.state = some (answer, r.state)) :
    Owned site
      { shared := r, thread := Function.update c.thread i (some (call, next answer)) } := by
  obtain ⟨hpermits, hrest⟩ : Permits site call op ∧
      ∀ answer, (next answer).Within (Permits site call) := by
    cases h.within i call _ hthread with
    | perform allowed rest => exact ⟨allowed, rest⟩
  obtain ⟨-, -, hframe⟩ := guar_performed (s := c.shared.state) hlogged hpermits.adds hperform
  refine ⟨fun j call' program hthread' => ?_, fun j id d hown => ?_⟩
  · by_cases hj : j = i
    · subst hj
      simp only [Function.update_self, Option.some.injEq, Prod.mk.injEq] at hthread'
      obtain ⟨rfl, rfl⟩ := hthread'
      exact hrest answer
    · exact h.within j call' program (by simpa [hj] using hthread')
  · by_cases hj : j = i
    · subst hj
      refine ⟨call, next answer, Function.update_self _ _ _, ?_⟩
      have hold : c.shared.state.own j .devices id = some d → call.Enrolls site d.deviceUuid := by
        intro hd
        obtain ⟨call', _, hthread', henrolls⟩ := h.own j id d hd
        obtain ⟨rfl, -⟩ := Prod.mk.inj (Option.some.inj (hthread.symm.trans hthread'))
        exact henrolls
      obtain ⟨s', log'⟩ := r
      cases perform_effect hperform with
      | @inserted t make hviolates =>
        by_cases hkey : (⟨.devices, id⟩ : Key) = ⟨t, c.shared.state.nextId t⟩
        · obtain ⟨rfl, rfl⟩ := Key.mk.inj hkey
          obtain ⟨hright, huuid⟩ : call.xEnrollmentKey = site.enrollmentKey ∧ _ := hpermits
          have hd : some _ = some d := own_written_self.symm.trans hown
          obtain rfl := Option.some.inj hd
          exact ⟨hright, (huuid _ _).symm⟩
        · exact hold ((own_written_ne hkey).symm.trans hown)
      | miss | hit => exact hpermits.elim
      | commit | close =>
        rw [own_dropDirty rfl] at hown
        contradiction
      | _ => exact hold hown
    · rw [own_of_frame (hframe j hj)] at hown
      obtain ⟨call', program, hthread', henrolls⟩ := h.own j id d hown
      exact ⟨call', program, (Function.update_of_ne hj _ _).trans hthread', henrolls⟩

/-- A step of a call, the end of a session and whatever else happens keep to that. -/
theorem owned_step {label : Label Sid Choice Event Call} (hlogged : Logged c.shared)
    (h : Owned site c) (hstep : ((system site).recorded .free).step label c = some c') :
    Owned site c' := by
  cases label with
  | perform i choice =>
    obtain ⟨call, op, next, answer, r, hthread, hperform, rfl⟩ := System.step_perform _ hstep
    exact h.performed hlogged hthread (System.recorded_perform hperform).2.1
  | spawn i call =>
    obtain ⟨program, hprogram, rfl⟩ := System.step_spawn _ hstep
    obtain rfl := Option.some.inj hprogram
    refine h.stopped rfl fun call' program' heq => ?_
    obtain ⟨rfl, rfl⟩ := Prod.mk.inj (Option.some.inj heq)
    exact within_serve call
  | kill i =>
    obtain rfl := Option.some.inj hstep
    exact h.stopped rfl fun _ _ heq => by contradiction
  | reset =>
    obtain rfl := Option.some.inj hstep
    exact ⟨fun _ _ _ hthread => by contradiction, fun _ _ _ hown => by
      obtain ⟨row, hrow, -⟩ := State.own_eq_some.mp hown
      contradiction⟩
  | env event =>
    obtain ⟨r, hr, rfl⟩ := Option.map_eq_some_iff.mp hstep
    obtain ⟨s', hs', rfl⟩ := Option.map_eq_some_iff.mp hr
    refine ⟨h.within, fun i id d hown => h.own i id d ?_⟩
    rw [← hown]
    exact (own_of_frame ((unaffected_env hs').frame i) .devices id).symm

/-- Every run keeps the discipline and keeps to that. -/
theorem good_run {labels : List (Label Sid Choice Event Call)}
    (hgood : (discipline site).Good ((system site).recorded .free) c) (h : Owned site c)
    (hrun : ((system site).recorded .free).run labels c = some c') :
    (discipline site).Good ((system site).recorded .free) c' ∧ Owned site c' ∧
      Lasts c.shared.state c'.shared.state := by
  induction labels generalizing c with
  | nil =>
    obtain rfl := Option.some.inj hrun
    exact ⟨hgood, h, .refl _⟩
  | cons label rest ih =>
    obtain ⟨mid, hstep, hrest⟩ := Option.bind_eq_some_iff.mp hrun
    obtain ⟨hmid, hlasts⟩ := (discipline_valid site).step hgood hstep
    obtain ⟨hgood', howned, hlasts'⟩ := ih hmid (owned_step hgood.inv h hstep) hrest
    exact ⟨hgood', howned, Lasts.trans hlasts hlasts'⟩

end Owners

section Lookups

variable {site : Site} {u : Uuid} {c c' : Config Op Res PyError Answer Sid Call Record} {i : Sid}
  {P : State → Prop}

/-- Whoever has done something has done it first in one state. -/
theorem looked_unique {r : Record} (h : Looked P i r) : ¬ Looked (fun s => ¬ P s) i r := by
  rintro ⟨deed', hsuffix', hnot⟩
  obtain ⟨deed, hsuffix, hP⟩ := h
  have heq := (List.suffix_of_suffix_length_le hsuffix hsuffix' (by simp)).eq_of_length (by simp)
  obtain rfl := (List.cons.inj heq).1
  exact hnot hP

end Lookups

section Authentication

variable {site : Site} {s : State} {i : Sid} {d : Device} {secret : String}

end Authentication

/-- The secret authenticates a device, and this device only, while it is active: in a bearer token for
one endpoint, as a password for the others. -/
def Authenticates (site : Site) (u : Uuid) (secret : String) (s : State) : Prop :=
  ∀ id d i, s.device id = some d → d.deviceUuid = u → d.enrollmentStatus = .active →
    (∀ id, s.own i .devices id = none) →
    (getCurrentDeviceBearer site.toDeployment (some (u.textD ++ "." ++ secret))).Ensures
        (perform site.sign i) (fun _ _ => False) (fun result _ => result = .ok d) s ∧
      (getCurrentDevice site.toDeployment (some ⟨u.textD, secret⟩)).Ensures
        (perform site.sign i) (fun _ _ => False) (fun result _ => result = .ok d) s

section Results

variable {site : Site} {u : Uuid} {s : State} {labels : List (Label Sid Choice Event Call)}
  {c : Config Op Res PyError Answer Sid Call Record}

/-- A database at rest, in which no UUID is enrolled twice. -/
structure Initial (s : State) : Prop where
  dirty : ∀ k, s.db.dirty k = none
  bounded : ∀ k, s.nextId k.table ≤ k.id → s.db.committed k = none
  unique : ∀ id id' d d', s.device id = some d → s.device id' = some d' →
    d.deviceUuid = d'.deviceUuid → id = id'

/-- No step of a session in a run changes a committed row. -/
def Unchanging (site : Site) (s : State) (labels : List (Label Sid Choice Event Call)) (i : Sid) :
    Prop :=
  ∀ first choice rest a b, labels = first ++ .perform i choice :: rest →
    ((system site).recorded .free).run first (System.init ⟨s, []⟩) = some a →
    ((system site).recorded .free).step (.perform i choice) a = some b →
    b.shared.state.db.committed = a.shared.state.db.committed

/-- A call that enrols the device has been answered with the secret. -/
def Granted (site : Site) (u : Uuid) (secret : String) (i : Sid)
    (c : Config Op Res PyError Answer Sid Call Record) : Prop :=
  ∃ call answer, c.thread i = some (call, .pure answer) ∧ call.Enrolls site u ∧
    answer.Grants u secret

/-- In every later state the device is enrolled and the secret authenticates it. -/
def Lasting (site : Site) (u : Uuid) (secret : String)
    (c : Config Op Res PyError Answer Sid Call Record) : Prop :=
  ∀ labels c', ((system site).recorded .free).run labels c = some c' →
    Enrolled u c'.shared.state ∧ Authenticates site u secret c'.shared.state

/-- Of the calls that enrol a device, exactly one is answered with a lasting credential, and every other
one is told that the device is enrolled already and changes nothing. -/
def OncePerDevice (site : Site) (u : Uuid) (s : State) (labels : List (Label Sid Choice Event Call))
    (c : Config Op Res PyError Answer Sid Call Record) : Prop :=
  ∃ w secret, Granted site u secret w c ∧ Lasting site u secret c ∧
    ∀ i call program, i ≠ w → c.thread i = some (call, program) → call.Enrolls site u →
      program = .throw alreadyEnrolled ∧ Unchanging site s labels i

/-- The registry of a database at rest is sound. -/
theorem Initial.logged (h : Initial s) : Logged ⟨s, []⟩ where
  sound :=
    { kept := fun k j hk => by simp [h.dirty] at hk
      fresh := fun k hk => ⟨h.bounded k hk, h.dirty k⟩
      distinct := fun id id' d d' hd hd' huuid => by
        have hown : ∀ j id, s.own j .devices id = none := fun j id => by
          simp [State.own, h.dirty]
        refine h.unique id id' d d' ?_ ?_ huuid
        · obtain hd | ⟨j, hj⟩ := hd
          · exact hd
          · rw [hown] at hj
            contradiction
        · obtain hd' | ⟨j, hj⟩ := hd'
          · exact hd'
          · rw [hown] at hj
            contradiction
      unshared := fun j id d hd => by simp [State.own, h.dirty] at hd }
  past i deed hmem := absurd hmem (by simp)
  entered u i deed hmem := absurd hmem (by simp)
  once u i j deed deed' hmem := absurd hmem (by simp)

/-- What holds at the end of a run. -/
theorem Initial.run (h : Initial s)
    (hrun : ((system site).recorded .free).run labels (System.init ⟨s, []⟩) = some c) :
    (discipline site).Good ((system site).recorded .free) c ∧ Owned site c := by
  have howned : Owned site (System.init ⟨s, []⟩) := by
    refine ⟨fun i call program hthread => by simp [System.init] at hthread, fun i id d hown => ?_⟩
    simp [System.init, State.own, h.dirty] at hown
  obtain ⟨hgood, howned', -⟩ := good_run (Discipline.good_init h.logged) howned hrun
  exact ⟨hgood, howned'⟩

/-- How a call that enrols the device ends. -/
theorem ended_cases (hinit : Initial s)
    (hrun : ((system site).recorded .free).run labels (System.init ⟨s, []⟩) = some c) {i : Sid}
    {call : Call} {program : Handler Answer} (hthread : c.thread i = some (call, program))
    (henrolls : call.Enrolls site u) (hended : program.pending = none) :
    (∃ answer secret, program = .pure answer ∧ answer.Grants u secret ∧
        Won site u secret i c.shared ∧ call.admitted = true ∧ call.device.fitsColumns = true) ∨
      ∃ error, program = .throw error ∧ (call.admitted = true ∧ Lost u error i c.shared ∨
        Refused call.device call.admitted error i c.shared) := by
  obtain ⟨hkey, rfl⟩ := henrolls
  have hgood := (hinit.run hrun).1
  cases program with
  | pure answer =>
    obtain ⟨hadmitted, hfits, secret, hgrants, hwon⟩ := hgood.ended.1 answer hthread
    exact .inl ⟨answer, secret, rfl, hgrants, hwon, hadmitted, hfits⟩
  | throw error => exact .inr ⟨error, rfl, hgood.ended.2 error hthread hkey⟩
  | perform op next => contradiction

/-- Who is told that the device is enrolled already has seen that it is. -/
theorem not_looked_of_told (hinit : Initial s)
    (hrun : ((system site).recorded .free).run labels (System.init ⟨s, []⟩) = some c) {i : Sid}
    {call : Call} (hthread : c.thread i = some (call, .throw alreadyEnrolled))
    (henrolls : call.Enrolls site u) :
    call.admitted = true ∧ ¬ Looked (fun s => ¬ Enrolled u s) i c.shared := by
  rcases ended_cases hinit hrun hthread henrolls rfl with
    ⟨_, _, heq, -⟩ | ⟨error, heq, ⟨hadmitted, hlost⟩ | hrefused⟩
  · contradiction
  · obtain rfl := Program.throw.inj heq
    rcases hlost.answer with ⟨-, hlooked⟩ | ⟨herror, -⟩
    · exact ⟨hadmitted, looked_unique hlooked⟩
    · contradiction
  · obtain rfl := Program.throw.inj heq
    rcases hrefused.answer with ⟨herror, -⟩ | ⟨herror, -⟩ <;> contradiction

/-- The rate limiter lets the winner through, and what it tells can be stored. -/
theorem Granted.stored {w : Sid} {secret : String} (h : Granted site u secret w c) (hinit : Initial s)
    (hrun : ((system site).recorded .free).run labels (System.init ⟨s, []⟩) = some c)
    {call : Call} {program : Handler Answer} (hthread : c.thread w = some (call, program)) :
    call.admitted = true ∧ call.device.fitsColumns = true := by
  obtain ⟨call', answer, hthread', henrolls, -⟩ := h
  obtain ⟨rfl, rfl⟩ := Prod.mk.inj (Option.some.inj (hthread'.symm.trans hthread))
  rcases ended_cases hinit hrun hthread henrolls rfl with
    ⟨_, _, -, -, -, hadmitted, hfits⟩ | ⟨_, heq, -⟩
  · exact ⟨hadmitted, hfits⟩
  · contradiction

/-- Where enrollment is once per device, the rate limiter lets every call through. -/
theorem OncePerDevice.admitted (h : OncePerDevice site u s labels c) (hinit : Initial s)
    (hrun : ((system site).recorded .free).run labels (System.init ⟨s, []⟩) = some c) {i : Sid}
    {call : Call} {program : Handler Answer} (hthread : c.thread i = some (call, program))
    (henrolls : call.Enrolls site u) : call.admitted = true := by
  obtain ⟨w, secret, hgranted, -, hothers⟩ := h
  by_cases hi : i = w
  · subst hi
    exact (hgranted.stored hinit hrun hthread).1
  · obtain ⟨rfl, -⟩ := hothers i call program hi hthread henrolls
    exact (not_looked_of_told hinit hrun hthread henrolls).1

end Results

namespace Sample

/-- A database without devices. -/
def database : State where
  db := ⟨fun _ => none, fun _ => none⟩
  nextId _ := 0
  txStart _ := none
  clock := Backend.Sample.noon
  signed := []

/-- A site whose hashes tell what they are hashes of. -/
def site : Site where
  toDeployment := Backend.Sample.deployment
  enrollmentKey := "enrol"
  hash _ secret := secret

/-- A lookup in a database with the given number of devices and of audit rows. -/
def lookup (i : Sid) (rows : Nat) : Label Sid Choice Event Call :=
  .perform i (.order fun t => if t = .devices ∨ t = .auditLogs then List.range rows else [])

/-- What follows a lookup in vain, up to the attempt to add the device. -/
def attempt (i : Sid) : List (Label Sid Choice Event Call) :=
  [.perform i (.bytes (List.replicate 32 7)), .perform i (.bytes (List.replicate 16 9)),
    .perform i .unit]

/-- What follows a successful attempt. -/
def success (i : Sid) : List (Label Sid Choice Event Call) :=
  [.perform i .unit, .perform i .unit, lookup i 1, .perform i .unit]

/-- The call of a thread that has ended: its key, its device, whether the rate limiter let it through, and
the error if it has raised one. -/
structure Ending where
  key : String := "enrol"
  deviceUuid : Uuid := Backend.Sample.deviceUuid
  admitted : Bool := true
  error : Option PyError
deriving DecidableEq

/-- How a thread has ended. -/
def ending (thread : Option (Call × Handler Answer)) : Option Ending :=
  thread.bind fun t => t.2.result.map fun result =>
    { key := t.1.xEnrollmentKey
      deviceUuid := t.1.device.deviceUuid
      admitted := t.1.admitted
      error := match result with | .ok _ => none | .error error => some error }

/-- The database is at rest, and the device is not enrolled. -/
theorem database_initial : Initial database where
  dirty _ := rfl
  bounded _ _ := rfl
  unique _ _ _ _ hd := by simp [database, State.device, State.com] at hd

/-- A thread with an ending has ended. -/
theorem exists_of_ending {thread : Option (Call × Handler Answer)} {e : Option PyError}
    (h : ending thread = some { error := e }) :
    ∃ call program, thread = some (call, program) ∧ call.Enrolls site Backend.Sample.deviceUuid ∧
      (call.admitted = true ∧ program.pending = none) ∧
      ∀ error, e = some error → program = .throw error := by
  obtain ⟨⟨call, program⟩, rfl, hresult⟩ := Option.bind_eq_some_iff.mp h
  obtain ⟨result, hprogram, heq⟩ := Option.map_eq_some_iff.mp hresult
  obtain ⟨hkey, huuid, hadmitted, rfl⟩ := Ending.mk.inj heq
  refine ⟨call, program, rfl, ⟨hkey, huuid⟩, ?_⟩
  cases program with
  | pure answer =>
    obtain rfl := Option.some.inj hprogram
    exact ⟨⟨hadmitted, rfl⟩, fun _ herror => by contradiction⟩
  | throw error =>
    obtain rfl := Option.some.inj hprogram
    exact ⟨⟨hadmitted, rfl⟩, fun _ herror => by rw [Option.some.inj herror]⟩
  | perform op next => contradiction

/-- No step of a run stops a session, and its calls are those of the sessions 0 and 1. -/
def plain : Label Sid Choice Event Call → Bool
  | .perform _ _ => true
  | .spawn i _ => i == 0 || i == 1
  | .env _ => true
  | _ => false

/-- Where the two threads of a run have endings, every call was let through and has ended. -/
theorem ended {labels : List (Label Sid Choice Event Call)}
    {c : Config Op Res PyError Answer Sid Call Record} {e e' : Option PyError}
    (hrun : ((system site).recorded .free).run labels (System.init ⟨database, []⟩) = some c)
    (hplain : ∀ label ∈ labels, plain label = true)
    (h : ending (c.thread 0) = some { error := e })
    (h' : ending (c.thread 1) = some { error := e' })
    (i : Sid) (call : Call) (program : Handler Answer)
    (hthread : c.thread i = some (call, program)) :
    call.admitted = true ∧ program.pending = none := by
  obtain ⟨call₀, program₀, hthread₀, -, hended₀, -⟩ := exists_of_ending h
  obtain ⟨call₁, program₁, hthread₁, -, hended₁, -⟩ := exists_of_ending h'
  by_cases hi : i = 0 ∨ i = 1
  · rcases hi with rfl | rfl
    · obtain ⟨rfl, rfl⟩ := Prod.mk.inj (Option.some.inj (hthread₀.symm.trans hthread))
      exact hended₀
    · obtain ⟨rfl, rfl⟩ := Prod.mk.inj (Option.some.inj (hthread₁.symm.trans hthread))
      exact hended₁
  · have hspawn : ∀ call, .spawn i call ∉ labels := fun call hmem =>
      hi (by simpa [plain] using hplain _ hmem)
    rw [System.free_run _ hspawn rfl hrun] at hthread
    contradiction

/-- The device is in the database. -/
def registered (s : State) : Bool :=
  (List.range (s.nextId .devices)).any fun id =>
    (s.device id).any fun d => decide (d.deviceUuid = Backend.Sample.deviceUuid)

end Sample

end ElevateGate.Backend.Enrollment
