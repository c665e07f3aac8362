import ElevateGate.Backend.Paging
import ElevateGate.Backend.Submissions
import ElevateGate.Backend.Truth
import Mathlib.Data.List.Infix

/-!
# What justifies an automatic approval

A submission reads its device when it authenticates, and the allowlist in a later statement. The two may
find committed rows that never were there together: the device may leave its group in between, and the
entry may be made for the group after that. In every other run the approval is justified by what the
database held at one instant.
-/

namespace ElevateGate.Backend

open Interaction Time Text

/-- A device belongs to a group. -/
def State.InGroup (s : State) (deviceId group : Nat) : Prop :=
  ∃ device, s.device deviceId = some device ∧ device.groupId = some group

/-- A committed entry has exactly this publisher and file name and is scoped to the group. -/
def State.Scoped (s : State) (group : Nat) (publisher filename : String) : Prop :=
  ∃ id entry, s.com .appAllowlistEntries id = some entry ∧
    AppAllowlistEntry.publisher entry = publisher ∧ AppAllowlistEntry.filename entry = filename ∧
      AppAllowlistEntry.groupId entry = some group

/-- The committed entries list the publisher and the file name of a request for its device. -/
def State.Justifies (s : State) (r : ElevationRequest) : Prop :=
  ∃ device publisher, s.device r.deviceId = some device ∧ r.publisher = some publisher ∧
    s.Listed device.groupId publisher r.filename

/-- The first entry for a group is made while a device does not belong to the group. -/
def Strays (deviceId group : Nat) (publisher filename : String) (s s' : State) : Prop :=
  ¬ s.Scoped group publisher filename ∧ s'.Scoped group publisher filename ∧
    ¬ s'.InGroup deviceId group

/-- Once a submission has read its device, a step does not make the first entry for the group that the
device belonged to then while it does not belong to it. -/
def Steadfast (deployment : Deployment) (i : Sid) (body : AgentApprovalRequest)
    (label : Label Sid Choice Event Call)
    (c : Config Op Res PyError Answer Sid Call Record) : Prop :=
  ∀ c' earlier deviceId device group publisher,
    ((system deployment).recorded .free).step label c = some c' →
    reads (mine i c.shared.log) = [earlier] → earlier.device deviceId = some device →
    device.deviceUuid = body.deviceId → device.groupId = some group →
    body.publisherCommonName = some publisher →
    ¬ Strays deviceId group publisher body.fileName c.shared.state c'.shared.state

section Reads

variable {done older : List Deed} {s : State}

/-- What was read before and after. -/
theorem reads_append : reads (done ++ older) = reads done ++ reads older := by
  induction done with
  | nil => rfl
  | cons deed done ih =>
    obtain ⟨before, o, answer⟩ := deed
    cases o with
    | query => exact congrArg (before :: ·) ih
    | _ => exact ih

/-- Between its first read and its second a session has read one state. -/
theorem reads_of_suffix {deed : Deed} (hread : deed.op = .query) (hmem : deed ∈ older)
    (hsuffix : older <:+ done) (hdone : reads done = [s]) : reads older = [s] := by
  obtain ⟨newer, rfl⟩ := hsuffix
  rw [reads_append] at hdone
  have hne : reads older ≠ [] := by
    obtain ⟨first, rest, rfl⟩ := List.append_of_mem hmem
    obtain ⟨before, o, answer⟩ := deed
    obtain rfl : o = .query := hread
    rw [reads_append]
    simp [reads]
  rcases List.append_eq_singleton_iff.mp hdone with ⟨-, hsame⟩ | ⟨-, hnone⟩
  · exact hsame
  · exact absurd hnone hne

end Reads


section Runs

variable {deployment : Deployment} {i : Sid} {body : AgentApprovalRequest} {r : ElevationRequest}
  {entry : AppAllowlistEntry} {labels : List (Label Sid Choice Event Call)}
  {c c' : Config Op Res PyError Answer Sid Call Record}
  {base : List (Moment Op Res Sid Event State)}

/-- An approval that rests on an entry is justified at some instant since the session was started, if the
steps of the run are steadfast. -/
theorem Rests.justified (h : Rests (mine i c'.shared.log) body r entry)
    (hkept : Kept deployment c'.shared) (hstart : c.shared.log = .stopped i :: base)
    (hrun : ((system deployment).recorded .free).run labels c = some c')
    (hsteadfast : ∀ first label rest b, labels = first ++ label :: rest →
      ((system deployment).recorded .free).run first c = some b →
      Steadfast deployment i body label b) :
    ∃ first rest b, labels = first ++ rest ∧
      ((system deployment).recorded .free).run first c = some b ∧ b.shared.state.Justifies r := by
  obtain ⟨hfilename, hbody, earlier, before, snapshot, older, device, publisher, hsuffix, hreads,
    hdevice, huuid, hentry, hpublisher, hmatch⟩ := h
  obtain ⟨hentryPublisher, hentryFilename, happlies⟩ := isMatch_iff.mp hmatch
  obtain ⟨-, -, -, hevolves, -⟩ := (hkept.faithful i).suffix hsuffix
  obtain ⟨new, hnew⟩ := hsuffix
  -- the session reads the entry
  obtain ⟨first, label, last, a, b, newer, rfl, hfirst, hstep, -, hmine, ha, -⟩ :=
    step_of_mine hrun hstart hnew.symm
  obtain ⟨snapshot', hread⟩ : ∃ snapshot', (⟨earlier, .query, snapshot'⟩ : Deed) ∈ older :=
    exists_of_reads (by simp [hreads])
  obtain ⟨device', hdevice', -⟩ := (hevolves _ hread).device _ device hdevice
  change before = a.shared.state at ha
  rcases happlies with hglobal | ⟨group, hscoped, hgroup⟩
  · refine ⟨first, label :: last, a, rfl, hfirst, device', publisher, ha ▸ hdevice', hpublisher, ?_⟩
    exact ⟨entry.id, entry, ha ▸ hentry, hentryPublisher, hentryFilename, Or.inl hglobal⟩
  have hlists : ∀ s : State, s.Scoped group publisher r.filename → s.InGroup r.deviceId group →
      s.Justifies r := by
    rintro s ⟨id, e, he, hp, hf, hg⟩ ⟨d, hd, hdg⟩
    exact ⟨d, publisher, hd, hpublisher, id, e, he, hp, hf, Or.inr ⟨group, hg, hdg⟩⟩
  -- before that it has read the device
  obtain ⟨later, rest, hsplit⟩ := List.append_of_mem hread
  obtain ⟨first', label', last', a', b', newer', rfl, hfirst', hstep', hlast', -, ha', hb', hquery,
    hnewer', huninterrupted⟩ := step_of_mine hfirst hstart (hmine.trans hsplit)
  change earlier = a'.shared.state at ha'
  obtain ⟨choice, hperform⟩ := hquery
  have hcommitted : b'.shared.state.db.committed = earlier.db.committed :=
    (perform_effect hperform).committed (by simp)
  by_cases hbefore : earlier.Scoped group publisher r.filename
  · exact ⟨first', label' :: (last' ++ label :: last), a', by simp, hfirst',
      ha' ▸ hlists earlier hbefore ⟨device, hdevice, hgroup⟩⟩
  · have hnot : ¬ b'.shared.state.Scoped group publisher r.filename := by
      rintro ⟨id, e, he, hrest⟩
      exact hbefore ⟨id, e, (com_congr hcommitted _ _).symm.trans he, hrest⟩
    have hthen : a.shared.state.Scoped group publisher r.filename :=
      ⟨entry.id, entry, ha ▸ hentry, hentryPublisher, hentryFilename, hscoped⟩
    -- the first entry for the group is made in between
    obtain ⟨front, made, back, x, y, rfl, hfront, hmade, hback, hx, hy⟩ :=
      System.exists_step_of_run _ (p := fun z => z.shared.state.Scoped group publisher r.filename)
        hlast' hnot hthen
    have hrunx : ((system deployment).recorded .free).run (first' ++ label' :: front) c = some x :=
      System.run_trans _ hfirst' (System.run_cons _ hstep' hfront)
    have hreadsx : reads (mine i x.shared.log) = [earlier] := by
      obtain ⟨newest, hnewest⟩ := log_suffix_run (System.run_cons _ hmade hback)
      obtain ⟨between, hbetween⟩ := log_suffix_run hfront
      have hjoin : newest ++ between = newer' := by
        refine List.append_cancel_right (hnewer'.symm.trans ?_).symm
        rw [← hnewest, ← hbetween, List.append_assoc]
      obtain ⟨hstopped, hrestarted⟩ := hjoin ▸ huninterrupted
      have hmine' : mine i a.shared.log = mine i newest ++ mine i x.shared.log := by
        rw [← hnewest]
        exact mine_append ⟨fun h => hstopped (List.mem_append_left _ h),
          fun h => hrestarted (List.mem_append_left _ h)⟩
      have hminex : mine i x.shared.log = mine i between ++ mine i b'.shared.log := by
        rw [← hbetween]
        exact mine_append ⟨fun h => hstopped (List.mem_append_right _ h),
          fun h => hrestarted (List.mem_append_right _ h)⟩
      refine reads_of_suffix (show (⟨earlier, .query, snapshot'⟩ : Deed).op = .query from rfl) ?_
        ⟨mine i newest, hmine'.symm⟩ (hmine.symm ▸ hreads)
      rw [hminex, hb']
      simp
    have hin : y.shared.state.InGroup r.deviceId group := by
      by_contra hout
      refine hsteadfast (first' ++ label' :: front) made (back ++ label :: last) x (by simp) hrunx y
        earlier r.deviceId device group publisher hmade hreadsx hdevice huuid hgroup
        (hbody ▸ hpublisher) ?_
      rw [← hfilename]
      exact ⟨hx, hy, hout⟩
    exact ⟨first' ++ label' :: front ++ [made], back ++ label :: last, y, by simp,
      System.run_snoc _ hrunx hmade, hlists _ hy hin⟩

/-- What holds after every run from there. -/
theorem State.Initial.kept {s : State} (h : s.Initial)
    (hrun : ((system deployment).recorded .free).run labels (System.init ⟨s, []⟩) = some c) :
    Inv deployment c.shared.state ∧ Honoring (Committing deployment) (Answers deployment) c ∧
      Kept deployment c.shared := by
  have hkept : Kept deployment ⟨s, []⟩ :=
    { reflects := fun i => reflects_nil (fun t id => by simp [State.own, h.dirty]) rfl
      evolved := by simp
      faithful := fun i => trivial }
  obtain ⟨hgood, -, hhonoring, -, hkept'⟩ :=
    honoring_run (valid deployment) (system_honors deployment) preserved_kept
      (Discipline.good_init h.inv) (honoring_init _) (lawful_init _) hkept hrun
  exact ⟨hgood.inv, hhonoring, hkept'⟩

/-- A submission approves a request only where an instant between its start and its commit justifies
that, in every run whose steps are steadfast. -/
theorem auto_approvals_justified {s : State} {credentials : Option String} {admitted : Bool}
    {before during : List (Label Sid Choice Event Call)} {choice : Choice} {id : Nat}
    {c₀ c₁ c₂ c₃ : Config Op Res PyError Answer Sid Call Record} {program : Handler Answer}
    (hinit : s.Initial)
    (hbefore : ((system deployment).recorded .free).run before (System.init ⟨s, []⟩) = some c₀)
    (hspawn : ((system deployment).recorded .free).step
      (.spawn i (.agentSubmitRequest credentials body admitted)) c₀ = some c₁)
    (hduring : ((system deployment).recorded .free).run during c₁ = some c₂)
    (hthread : c₂.thread i = some (.agentSubmitRequest credentials body admitted, program))
    (hcommit : ((system deployment).recorded .free).step (.perform i choice) c₂ = some c₃)
    (hr : c₃.shared.state.request id = some r) (happroved : r.status = .approved)
    (hnew : c₂.shared.state.request id ≠ some r)
    (hsteadfast : ∀ first label rest b, during = first ++ label :: rest →
      ((system deployment).recorded .free).run first c₁ = some b →
      Steadfast deployment i body label b) :
    ∃ first rest b, during = first ++ rest ∧
      ((system deployment).recorded .free).run first c₁ = some b ∧ b.shared.state.Justifies r := by
  have hall : ((system deployment).recorded .free).run
      (before ++ .spawn i (.agentSubmitRequest credentials body admitted) :: during)
        (System.init ⟨s, []⟩) = some c₂ :=
    System.run_trans _ hbefore (System.run_cons _ hspawn hduring)
  obtain ⟨hinv, hhonoring, hkept⟩ := hinit.kept hall
  obtain ⟨call, op, next, answer, record, hthread', hperform, rfl⟩ := System.step_perform _ hcommit
  obtain ⟨rfl, rfl⟩ := Prod.mk.inj (Option.some.inj (hthread'.symm.trans hthread))
  obtain ⟨-, hs, -⟩ := System.recorded_perform hperform
  have heffect := perform_effect hs
  have hallowed : Committing deployment (.agentSubmitRequest credentials body admitted)
      (mine i c₂.shared.log) op := by
    cases hhonoring i _ _ hthread with
    | perform allowed rest => exact allowed
  have hop : op = .commit := by
    by_contra hne
    refine hnew ?_
    rw [← hr]
    exact (com_congr (heffect.committed hne) _ _).symm
  subst hop
  have hstate : record.state = c₂.shared.state.commit i := by
    generalize record.state = committed at heffect ⊢
    cases heffect
    rfl
  have hcom : (c₂.shared.state.commit i).com .elevationRequests id = some r := hstate ▸ hr
  rw [com_commit hinv, (hkept.reflects i).own] at hcom
  rcases Option.or_eq_some_iff.mp hcom with hlatest | ⟨-, hold⟩
  · obtain ⟨old, hmem⟩ := exists_of_latest hlatest
    rcases hallowed rfl i (hkept.faithful i) with ⟨-, hattributed⟩ | hnothing
    · obtain ⟨-, -, entry, log, hrests, -⟩ := hattributed old r hmem (Or.inl happroved)
      obtain ⟨_, -, rfl⟩ := System.step_spawn _ hspawn
      exact hrests.justified hkept rfl hduring hsteadfast
    · rw [hnothing] at hmem
      contradiction
  · exact absurd hold hnew

end Runs

namespace Sample

/-- An administrator moves the device to a group, or out of its group. -/
def assign (group : Option Nat) : Label Sid Choice Event Call :=
  .env (.maintain ⟨.devices, 0⟩ (some ⟨{ device with groupId := group }, rfl⟩))

/-- The entry for the group. -/
def groupEntry : AppAllowlistEntry := { entry with groupId := some 0 }

/-- An administrator lists the file for the group. -/
def listing : Label Sid Choice Event Call :=
  .env (.maintain ⟨.appAllowlistEntries, 0⟩ (some ⟨groupEntry, rfl⟩))

/-- The submission of the device. -/
def submitted : Call :=
  .agentSubmitRequest (some (deviceUuid.textD ++ ".secret")) signedBody true

/-- What the submission does after it has read its device, up to its commit. -/
def rest : List (Label Sid Choice Event Call) :=
  [.perform 0 .unit, .perform 0 .unit, .perform 0 .unit, .perform 0 (entryOrder 1 0 1),
    .perform 0 .unit, .perform 0 .unit, .perform 0 .unit,
    .perform 0 (.bytes (List.replicate 24 7)), .perform 0 .unit, .perform 0 .unit,
    .perform 0 .unit]

/-- Nobody interferes. -/
def undisturbed : List (Label Sid Choice Event Call) := .perform 0 (entryOrder 0 0 0) :: rest

/-- The device leaves the group before the file is listed for the group. -/
def disturbed : List (Label Sid Choice Event Call) :=
  .perform 0 (order 0 0 0) :: assign none :: listing :: rest

/-- What a look at a state shows: the group of the device, what the first entry lists, and whether there
can be another. -/
structure Glance where
  group : Option (Option Nat)
  listed : Option (String × String × Option Nat)
  single : Bool
  deriving DecidableEq

/-- A look at a state. -/
def glance (s : State) : Glance where
  group := (s.device 0).map Device.groupId
  listed := (s.com .appAllowlistEntries 0).map fun entry =>
    (AppAllowlistEntry.publisher entry, AppAllowlistEntry.filename entry,
      AppAllowlistEntry.groupId entry)
  single := decide (s.nextId .appAllowlistEntries ≤ 1)

/-- Where the submission is started after some steps. -/
def start (before : List (Label Sid Choice Event Call)) :
    Option (Config Op Res PyError Answer Sid Call Record) :=
  (((system deployment).recorded .free).run before (System.init ⟨database, []⟩)).bind
    (((system deployment).recorded .free).step (.spawn 0 submitted))

/-- A look after each of the steps since then. -/
def glances (before during : List (Label Sid Choice Event Call)) : Option (List (Option Glance)) :=
  (start before).map fun c => during.inits.map fun first =>
    (((system deployment).recorded .free).run first c).map (glance ·.shared.state)

/-- The request before and after the last step, with its device. -/
def outcome (before during : List (Label Sid Choice Event Call)) :
    Option (Bool × Option (ElevationRequestStatus × Nat)) := do
  let c₁ ← start before
  let c₂ ← ((system deployment).recorded .free).run during c₁
  let c₃ ← ((system deployment).recorded .free).step (.perform 0 .unit) c₂
  return ((c₂.shared.state.request 0).isNone,
    (c₃.shared.state.request 0).map fun r => (r.status, r.deviceId))

variable {before during first rest : List (Label Sid Choice Event Call)}
  {b c₁ : Config Op Res PyError Answer Sid Call Record} {g : Glance}

/-- What is seen after some of the steps. -/
theorem glance_mem {l : List (Option Glance)} (hstart : start before = some c₁)
    (hglances : glances before during = some l) (hsplit : during = first ++ rest)
    (hrun : ((system deployment).recorded .free).run first c₁ = some b) :
    some (glance b.shared.state) ∈ l := by
  rw [glances, hstart] at hglances
  obtain rfl := Option.some.inj hglances
  refine List.mem_map.mpr ⟨first, (List.mem_inits _ _).mpr ⟨rest, hsplit.symm⟩, ?_⟩
  rw [hrun]
  rfl

/-- There is no other entry. -/
theorem entry_of_glance (hstart : start before = some c₁)
    (hrun : ((system deployment).recorded .free).run first c₁ = some b)
    (hsingle : (glance b.shared.state).single = true) {id : Nat} {entry : AppAllowlistEntry}
    (hentry : b.shared.state.com .appAllowlistEntries id = some entry) :
    (glance b.shared.state).listed =
      some (AppAllowlistEntry.publisher entry, AppAllowlistEntry.filename entry,
        AppAllowlistEntry.groupId entry) := by
  obtain ⟨c₀, hbefore, hspawn⟩ := Option.bind_eq_some_iff.mp hstart
  have hall : ((system deployment).recorded .free).run (before ++ .spawn 0 submitted :: first)
      (System.init ⟨database, []⟩) = some b :=
    System.run_trans _ hbefore (System.run_cons _ hspawn hrun)
  obtain ⟨hinv, -, -⟩ := database_initial.kept hall
  have hid : id = 0 := by
    by_contra hne
    have hnext : b.shared.state.nextId .appAllowlistEntries ≤ id := by
      have hsingle' : b.shared.state.nextId .appAllowlistEntries ≤ 1 := of_decide_eq_true hsingle
      omega
    have hnone := (hinv.fresh ⟨.appAllowlistEntries, id⟩ hnext).1
    rw [State.com, hnone] at hentry
    contradiction
  subst hid
  rw [glance, hentry]
  rfl

/-- A submission that approves its request. -/
theorem exists_course (before during : List (Label Sid Choice Event Call))
    (hcalm : ∀ label ∈ during, label.Calm)
    (h : outcome before during = some (true, some (.approved, 0))) :
    ∃ c₀ c₁ c₂ c₃ program r,
      ((system deployment).recorded .free).run before (System.init ⟨database, []⟩) = some c₀ ∧
      ((system deployment).recorded .free).step (.spawn 0 submitted) c₀ = some c₁ ∧
      ((system deployment).recorded .free).run during c₁ = some c₂ ∧
      c₂.thread 0 = some (submitted, program) ∧
      ((system deployment).recorded .free).step (.perform 0 .unit) c₂ = some c₃ ∧
      c₃.shared.state.request 0 = some r ∧ r.status = .approved ∧ r.deviceId = 0 ∧
      c₂.shared.state.request 0 ≠ some r := by
  obtain ⟨c₁, hstart, h⟩ := Option.bind_eq_some_iff.mp h
  obtain ⟨c₂, hduring, h⟩ := Option.bind_eq_some_iff.mp h
  obtain ⟨c₃, hcommit, h⟩ := Option.bind_eq_some_iff.mp h
  obtain ⟨c₀, hbefore, hspawn⟩ := Option.bind_eq_some_iff.mp hstart
  obtain ⟨hnone, hsome⟩ := Prod.mk.inj (Option.some.inj h)
  obtain ⟨r, hr, hdata⟩ := Option.map_eq_some_iff.mp hsome
  obtain ⟨hstatus, hdevice⟩ := Prod.mk.inj hdata
  obtain ⟨_, _, rfl⟩ := System.step_spawn _ hspawn
  obtain ⟨program, hthread, -⟩ := thread_run hcalm (Function.update_self _ _ _) hduring
  refine ⟨c₀, _, c₂, c₃, program, r, hbefore, hspawn, hduring, hthread, hcommit, hr, hstatus, hdevice,
    fun hold => ?_⟩
  rw [hold] at hnone
  contradiction

end Sample

/-- A submission that nobody interferes with is such a run. -/
theorem auto_approvals_justified_sample : ∃ c₁ r first rest b, Sample.start
      [Sample.assign (some 0), Sample.listing] = some c₁ ∧
    Sample.undisturbed = first ++ rest ∧ r.status = .approved ∧
    ((system Sample.deployment).recorded .free).run first c₁ = some b ∧
    b.shared.state.Justifies r := by
  have hglances : Sample.glances [Sample.assign (some 0), Sample.listing] Sample.undisturbed =
      some (List.replicate 13 (some ⟨some (some 0), some ("Contoso", "setup.exe", some 0), true⟩)) := by
    decide +kernel
  obtain ⟨c₀, c₁, c₂, c₃, program, r, hbefore, hspawn, hduring, hthread, hcommit, hr, hstatus, -, hnew⟩ :=
    Sample.exists_course [Sample.assign (some 0), Sample.listing] Sample.undisturbed
      (by simp [Sample.undisturbed, Sample.rest, Label.Calm]) (by decide +kernel)
  have hstart : Sample.start [Sample.assign (some 0), Sample.listing] = some c₁ := by
    rw [Sample.start, hbefore]
    exact hspawn
  have hsteadfast : ∀ first label rest b, Sample.undisturbed = first ++ label :: rest →
      ((system Sample.deployment).recorded .free).run first c₁ = some b →
      Steadfast Sample.deployment 0 Sample.signedBody label b := by
    -- every step finds the entry and leaves it
    intro first label rest b hsplit hrun c' earlier deviceId device group publisher hstep
      _ _ _ _ _ hstrays
    obtain ⟨hnot, ⟨id, entry, hentry, hpublisher, hfilename, hgroup⟩, -⟩ := hstrays
    have hrun' : ((system Sample.deployment).recorded .free).run (first ++ [label]) c₁ = some c' :=
      System.run_snoc _ hrun hstep
    have hbefore := List.eq_of_mem_replicate (Sample.glance_mem hstart hglances hsplit hrun)
    have hafter := List.eq_of_mem_replicate
      (Sample.glance_mem hstart hglances (by rw [hsplit, List.append_assoc]; rfl) hrun')
    have hsame := Sample.entry_of_glance hstart hrun' (by rw [Option.some.inj hafter]) hentry
    rw [Option.some.inj hafter, ← Option.some.inj hbefore] at hsame
    obtain ⟨entry', hentry', heq⟩ := Option.map_eq_some_iff.mp hsame
    simp only [Prod.mk.injEq] at heq
    obtain ⟨hpublisher', hfilename', hgroup'⟩ := heq
    exact hnot ⟨0, entry', hentry', hpublisher'.trans hpublisher, hfilename'.trans hfilename,
      hgroup'.trans hgroup⟩
  obtain ⟨first, rest, b, hsplit, hrun, hjustifies⟩ :=
    auto_approvals_justified Sample.database_initial hbefore hspawn hduring hthread hcommit hr hstatus
      hnew hsteadfast
  exact ⟨c₁, r, first, rest, b, hstart, hsplit, hstatus, hrun, hjustifies⟩

/-- A submission is approved because of an entry for the group that the device has left before the entry
was made. -/
theorem auto_approval_unjustified : ∃ c₀ c₁ c₂ c₃ program r,
    ((system Sample.deployment).recorded .free).run [Sample.assign (some 0)]
      (System.init ⟨Sample.database, []⟩) = some c₀ ∧
    ((system Sample.deployment).recorded .free).step (.spawn 0 Sample.submitted) c₀ = some c₁ ∧
    ((system Sample.deployment).recorded .free).run Sample.disturbed c₁ = some c₂ ∧
    c₂.thread 0 = some (Sample.submitted, program) ∧
    ((system Sample.deployment).recorded .free).step (.perform 0 .unit) c₂ = some c₃ ∧
    c₃.shared.state.request 0 = some r ∧ r.status = .approved ∧ c₂.shared.state.request 0 ≠ some r ∧
    ∀ first rest b, Sample.disturbed ++ [.perform 0 .unit] = first ++ rest →
      ((system Sample.deployment).recorded .free).run first c₁ = some b →
      ¬ b.shared.state.Justifies r := by
  obtain ⟨c₀, c₁, c₂, c₃, program, r, hbefore, hspawn, hduring, hthread, hcommit, hr, hstatus, hdevice,
    hnew⟩ :=
    Sample.exists_course [Sample.assign (some 0)] Sample.disturbed
      (by simp [Sample.disturbed, Sample.assign, Sample.listing, Sample.rest, Label.Calm])
      (by decide +kernel)
  refine ⟨c₀, c₁, c₂, c₃, program, r, hbefore, hspawn, hduring, hthread, hcommit, hr, hstatus, hnew,
    fun first rest b hsplit hrun => ?_⟩
  have hstart : Sample.start [Sample.assign (some 0)] = some c₁ := by
    rw [Sample.start, hbefore]
    exact hspawn
  have hglances : Sample.glances [Sample.assign (some 0)] (Sample.disturbed ++ [.perform 0 .unit]) =
      some (List.replicate 2 (some ⟨some (some 0), none, true⟩) ++
        some ⟨some none, none, true⟩ ::
          List.replicate 13 (some ⟨some none, some ("Contoso", "setup.exe", some 0), true⟩)) := by
    decide +kernel
  rintro ⟨device, publisher, hfound, -, id, entry, hentry, -, -, happlies⟩
  rw [hdevice] at hfound
  have hmem := Sample.glance_mem hstart hglances hsplit hrun
  have hgroup : (Sample.glance b.shared.state).group = some device.groupId := by
    rw [Sample.glance, hfound]
    rfl
  have hshown : (Sample.glance b.shared.state).single = true →
      (Sample.glance b.shared.state).listed =
        some (AppAllowlistEntry.publisher entry, AppAllowlistEntry.filename entry,
          AppAllowlistEntry.groupId entry) :=
    fun hsingle => Sample.entry_of_glance hstart hrun hsingle hentry
  generalize Sample.glance b.shared.state = g at hmem hgroup hshown
  have hcases : g = ⟨some (some 0), none, true⟩ ∨ g = ⟨some none, none, true⟩ ∨
      g = ⟨some none, some ("Contoso", "setup.exe", some 0), true⟩ := by
    simpa [List.mem_replicate] using hmem
  rcases hcases with rfl | rfl | rfl
  · cases hshown rfl
  · cases hshown rfl
  · -- the entry is for a group, and the device is in none
    have hscoped := hshown rfl
    simp only [Option.some.injEq, Prod.mk.injEq] at hscoped hgroup
    obtain ⟨-, -, hscoped⟩ := hscoped
    rcases happlies with hglobal | ⟨group, -, hin⟩
    · rw [hglobal] at hscoped
      contradiction
    · rw [hin] at hgroup
      contradiction

end ElevateGate.Backend
