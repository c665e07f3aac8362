import ElevateGate.Agent.Provenance
import ElevateGate.Agent.Tracking
import ElevateGate.Agent.Validation
import Mathlib.Data.List.TakeWhile

/-!
# What is recorded of a launch

The worker starts a process, waits for it, and records an event. Starting, waiting and recording are
separate operations, and the stopping of the service may interrupt the last two. In the runs in which it
does not, every launch is recorded once before the worker goes on.
-/

namespace ElevateGate.Agent

open Interaction Time Text

/-- What a thread has launched since it looked a request up: nothing, a process of which nothing has
been recorded yet, or one of which an event has been recorded. -/
inductive Launch
  | nothing
  | started (requestId : String)
  | recorded
  deriving DecidableEq

/-- An event that says how an execution ended. -/
def AuditEvent.reports (auditEvent : AuditEvent) : Bool :=
  decide (auditEvent.eventType = .executionCompleted) ||
    decide (auditEvent.eventType = .executionFailed)

/-- The deed has started a process for a request. -/
def Deed.starts (requestId : String) : Deed → Bool
  | ⟨_, .startProcess _ authority, .ok true⟩ => decide (authority.expectedRequestId = requestId)
  | _ => false

/-- The deed looks a request up, as the handling of a decision does first. -/
def Deed.looksUp : Deed → Bool
  | ⟨_, .getValueOrDefault _, _⟩ => true
  | _ => false

/-- The deed records how an execution ended, or fails to. -/
def Deed.reports : Deed → Bool
  | ⟨_, .record auditEvent, _⟩ => auditEvent.reports
  | _ => false

/-- What a thread with the given deeds has launched. -/
def launch : List Deed → Launch
  | [] => .nothing
  | ⟨_, .startProcess _ authority, .ok true⟩ :: _ => .started authority.expectedRequestId
  | ⟨_, .record auditEvent, _⟩ :: rest =>
    match launch rest with
    | .started requestId => if auditEvent.reports then .recorded else .started requestId
    | other => other
  | ⟨_, .getValueOrDefault _, _⟩ :: _ => .nothing
  | _ :: rest => launch rest

/-- The deed succeeded. -/
def Deed.Succeeds : Deed → Prop
  | ⟨_, .waitForExit, answer⟩ => answer = .ok ()
  | ⟨_, .addOrUpdate _ _, answer⟩ => answer = .ok ()
  | ⟨_, .record _, answer⟩ => answer = .ok ()
  | _ => True

/-- Nothing failed between the start of a process and the event. -/
def Unbroken : List Deed → Prop
  | [] => True
  | deed :: older =>
    (∀ requestId, launch older = .started requestId → Deed.Succeeds deed) ∧ Unbroken older

/-- Unless something failed, a launch has been recorded. -/
def Settled (done : List Deed) : Prop := Unbroken done → ∀ requestId, launch done ≠ .started requestId

/-- The protocol of a thread that records what it launches: it records what it has launched before it
looks another request up. -/
def Accounts (done : List Deed) : Op → Prop
  | .getValueOrDefault _ => Settled done
  | .startProcess _ _ => Unbroken done → launch done = .nothing
  | .record auditEvent => Unbroken done → auditEvent.reports = true → launch done = .nothing ∨
      launch done = .started (auditEvent.requestId.getD "") ∧ auditEvent.requestId.isSome ∧
        auditEvent.eventType = .executionCompleted
  | .addOrUpdate requestId _ => Unbroken done → ∀ launched, launch done = .started launched →
      ∃ tracked, found done = some (requestId, some tracked)
  | _ => True

/-- The operations that neither launch nor look up nor record anything. -/
def Op.Neutral : Op → Prop
  | .startProcess _ _ => False
  | .getValueOrDefault _ => False
  | .addOrUpdate _ _ => False
  | .record _ => False
  | _ => True

section Deeds

variable {new done : List Deed}

/-- What a neutral operation leaves. -/
private theorem launch_neutral (done : List Deed) {deed : Deed} (h : Op.Neutral deed.op) :
    launch (deed :: done) = launch done ∧ found (deed :: done) = found done := by
  obtain ⟨before, o, answer⟩ := deed
  cases o <;> first | exact h.elim | exact ⟨rfl, rfl⟩

/-- What neutral operations leave. -/
private theorem launch_append (done : List Deed) (h : ∀ deed ∈ new, Op.Neutral deed.op) :
    launch (new ++ done) = launch done ∧ found (new ++ done) = found done := by
  induction new with
  | nil => exact ⟨rfl, rfl⟩
  | cons deed new ih =>
    obtain ⟨hlaunch, hfound⟩ := ih fun d hd => h d (List.mem_cons_of_mem _ hd)
    obtain ⟨hlaunch', hfound'⟩ := launch_neutral (new ++ done) (h deed List.mem_cons_self)
    exact ⟨hlaunch'.trans hlaunch, hfound'.trans hfound⟩

/-- Nothing failed earlier either. -/
theorem Unbroken.of_append (h : Unbroken (new ++ done)) : Unbroken done := by
  induction new with
  | nil => exact h
  | cons deed new ih => exact ih h.2

/-- A neutral operation is always allowed. -/
theorem accounts_of_neutral {o : Op} (h : o.Neutral) : Accounts done o := by
  cases o <;> first | exact h.elim | exact True.intro

/-- What only neutral operations have followed. -/
structure Leads (done after : List Deed) : Prop where
  launch : launch after = launch done
  found : found after = found done
  unbroken : Unbroken after → Unbroken done

theorem Leads.trans {older : List Deed} (h : Leads done new) (h' : Leads older done) :
    Leads older new where
  launch := h.launch.trans h'.launch
  found := h.found.trans h'.found
  unbroken hunbroken := h'.unbroken (h.unbroken hunbroken)

/-- A program of neutral operations. -/
theorem obeys_neutral {α : Type} {program : Service α} (h : program.Within Op.Neutral) :
    Obeys Accounts (fun _ after => Leads done after) done program := by
  refine (Obeys.of_within h fun _ _ _ ho => accounts_of_neutral ho).mono ?_
  rintro _ _ ⟨new, rfl, hnew⟩
  obtain ⟨hlaunch, hfound⟩ := launch_append done hnew
  exact ⟨hlaunch, hfound, Unbroken.of_append⟩

end Deeds

section Programs

variable {host : Host} {done : List Deed} {credential : DeviceCredential}

/-- The parts of an execution before it starts a process are neutral. -/
private theorem neutral_of_validates {token : ApprovalToken} {o : Op} (h : o.Validates token) :
    o.Neutral := by
  cases o <;> first | exact True.intro | exact h.elim

/-- A process is started, waited for, and reported as ended. -/
private theorem accounts_launchAsync {path extension : String} {authority : Authority}
    (hnothing : Unbroken done → launch done = .nothing) :
    Obeys Accounts (fun result after => found after = found done ∧ (Unbroken after →
        match result with
        | .ok .ok => launch after = .started authority.expectedRequestId
        | _ => launch after = .nothing)) done
      (ExecutionEngine.launchAsync host path extension authority) := by
  refine Obeys.tryCatch (Q := fun result after => found after = found done ∧ (Unbroken after →
      match result with
      | .ok .ok => launch after = .started authority.expectedRequestId
      | _ => launch after = .nothing)) ?_ (fun _ _ h => h) fun error after h => .pure h
  refine .perform (fun hunbroken => hnothing hunbroken) fun before started => ?_
  cases started with
  | error error => exact .throw ⟨rfl, fun hunbroken => hnothing hunbroken.2⟩
  | ok started =>
    cases started with
    | false => exact .pure ⟨rfl, fun hunbroken => hnothing hunbroken.2⟩
    | true =>
      refine .perform True.intro fun before' waited => ?_
      cases waited with
      | ok => exact .pure ⟨rfl, fun _ => rfl⟩
      | error error =>
        -- the wait did not fail
        refine .throw ⟨rfl, fun hunbroken => ?_⟩
        have hsucceeds := hunbroken.1 authority.expectedRequestId rfl
        exact absurd hsucceeds (by simp [Deed.Succeeds])

/-- An execution reports that it failed only if it has started nothing. -/
private theorem accounts_executeAsync {token : ApprovalToken} {requestId rawPath deviceId : String}
    (hnothing : Unbroken done → launch done = .nothing) :
    Obeys Accounts (fun result after => found after = found done ∧ (Unbroken after →
        match result with
        | .ok .ok => launch after = .started requestId
        | _ => launch after = .nothing)) done
      (ExecutionEngine.executeAsync host token requestId rawPath deviceId) := by
  have hleads : ∀ {after : List Deed}, Leads done after → found after = found done ∧
      (Unbroken after → launch after = .nothing) := fun h =>
    ⟨h.found, fun hunbroken => h.launch.trans (hnothing (h.unbroken hunbroken))⟩
  refine (obeys_neutral (within_validate fun _ => trivial)).bind ?_ fun _ _ => hleads
  intro outcome after hafter
  cases outcome with
  | invalid reason => exact .pure (hleads hafter)
  | valid canonicalPath =>
    dsimp only
    refine .ite (fun _ => .pure (hleads hafter)) fun _ => ?_
    refine .op_bind True.intro fun before present => ?_
    have hthere : Leads done (⟨before, .fileExists canonicalPath, present⟩ :: after) :=
      ⟨hafter.launch, hafter.found, fun hunbroken => hafter.unbroken hunbroken.2⟩
    refine .ite (fun _ => .pure (hleads hthere)) fun _ => ?_
    refine ((obeys_neutral (within_computeHexAsync.mono ?_)).mono fun _ _ h => h.trans hthere).bind ?_
      fun _ _ => hleads
    · rintro o (rfl | rfl | rfl) <;> exact True.intro
    intro hash after' hafter'
    refine ((obeys_neutral (within_validateAsync.mono fun _ => neutral_of_validates)).mono
      fun _ _ h => h.trans hafter').bind ?_ fun _ _ => hleads
    intro validation after'' hafter''
    cases validation with
    | invalid reason => exact .pure (hleads hafter'')
    | valid =>
      refine (accounts_launchAsync (hleads hafter'').2).mono fun result last hlast => ?_
      exact ⟨hlast.1.trans hafter''.found, hlast.2⟩

/-- An event that reports nothing is recorded, or something fails. -/
private theorem accounts_recordAsync {eventType : AuditEventType}
    {requestId deviceId nonce : Option String} {message : String} (hallowed : ∀ timestampUtc, Unbroken done →
      (AuditEvent.mk timestampUtc eventType requestId deviceId nonce message).reports = true →
      launch done = .nothing ∨ launch done = .started (requestId.getD "") ∧ requestId.isSome ∧
        eventType = .executionCompleted) :
    Obeys Accounts (fun _ after => ∃ timestampUtc before before' now answer,
        after = ⟨before', .record ⟨timestampUtc, eventType, requestId, deviceId, nonce, message⟩, answer⟩ ::
          ⟨before, .utcNow, now⟩ :: done) done
      (recordAsync eventType requestId deviceId nonce message) := by
  refine .op_bind True.intro fun before now => .perform ?_ fun before' answer => ?_
  · exact fun hunbroken hreports => hallowed now hunbroken.2 hreports
  · cases answer with
    | error error => exact .throw ⟨now, before, before', now, _, rfl⟩
    | ok => exact .pure ⟨now, before, before', now, _, rfl⟩

/-- An event that reports nothing changes nothing. -/
private theorem accounts_recordQuietly {eventType : AuditEventType}
    {requestId deviceId nonce : Option String} {message : String}
    (hcompleted : eventType ≠ .executionCompleted) (hfailed : eventType ≠ .executionFailed) :
    Obeys Accounts (fun _ after => Leads done after) done
      (recordAsync eventType requestId deviceId nonce message) := by
  refine (accounts_recordAsync fun _ _ hreports => ?_).mono ?_
  · simp [AuditEvent.reports, hcompleted, hfailed] at hreports
  · rintro _ _ ⟨timestampUtc, before, before', now, answer, rfl⟩
    refine ⟨?_, rfl, fun hunbroken => hunbroken.2.2⟩
    simp only [launch, AuditEvent.reports]
    cases launch done <;> simp [hcompleted, hfailed]

/-- The status of the request that was looked up is updated. -/
private theorem accounts_updateStatus {requestId : String} {status : RequestStatus}
    {tracked : TrackedRequest} (hfound : found done = some (requestId, some tracked)) :
    Obeys Accounts (fun result after => Leads done after ∧
        (Unbroken after → ∀ error launched, result = .error error → launch done ≠ .started launched)) done
      (RequestStateStore.updateStatus requestId status) := by
  refine .perform (fun _ _ _ => ⟨tracked, hfound⟩) fun before answer => ?_
  have hleads : Leads done (⟨before, .addOrUpdate requestId status, answer⟩ :: done) :=
    ⟨rfl, rfl, fun hunbroken => hunbroken.2⟩
  cases answer with
  | error error =>
    refine .throw ⟨hleads, fun hunbroken _ launched _ hlaunched => ?_⟩
    have hsucceeds := hunbroken.1 launched hlaunched
    exact absurd hsucceeds (by simp [Deed.Succeeds])
  | ok => exact .pure ⟨hleads, fun _ _ _ heq => by contradiction⟩

/-- An approved decision is executed, and what it has launched is recorded. -/
private theorem accounts_handleApprovedAsync {requestId : String} {token : Option ApprovalToken}
    {tracked : TrackedRequest} (hfound : found done = some (requestId, some tracked))
    (hnothing : Unbroken done → launch done = .nothing) :
    Obeys Accounts (fun _ after => Settled after) done
      (ApprovalPollingWorker.handleApprovedAsync host credential requestId token tracked) := by
  cases token with
  | none =>
    refine (accounts_updateStatus hfound).mono fun _ after hafter hunbroken launched hlaunched => ?_
    rw [hafter.1.launch, hnothing (hafter.1.unbroken hunbroken)] at hlaunched
    contradiction
  | some token =>
    refine (accounts_executeAsync hnothing).bind ?_ ?_
    · rintro outcome after ⟨hfound', houtcome⟩
      have hupdate : ∀ status, Obeys Accounts (fun result last => Leads after last ∧
          (Unbroken last → ∀ error launched, result = .error error → launch after ≠ .started launched))
          after (RequestStateStore.updateStatus requestId status) := fun status =>
        accounts_updateStatus (hfound'.trans hfound)
      have hfailed : ∀ error last, Leads after last ∧ (Unbroken last → ∀ error' launched,
          (Except.error error : Except ClrException Unit) = .error error' →
            launch after ≠ .started launched) → Settled last := by
        intro error last hlast hunbroken launched hlaunched
        exact hlast.2 hunbroken error launched rfl (hlast.1.launch.symm.trans hlaunched)
      cases outcome with
      | ok =>
        refine (hupdate _).bind (fun _ last hlast => ?_) fun error last hlast => hfailed error last hlast
        have hlaunched : Unbroken last → launch last = .started requestId := fun hunbroken =>
          hlast.1.launch.trans (houtcome (hlast.1.unbroken hunbroken))
        refine (accounts_recordAsync ?_).mono ?_
        · exact fun _ hunbroken _ => Or.inr ⟨hlaunched hunbroken, rfl, rfl⟩
        · rintro _ _ ⟨timestampUtc, before, before', now, answer, rfl⟩ hunbroken launched hrecorded
          simp [launch, hlaunched hunbroken.2.2, AuditEvent.reports] at hrecorded
      | failed reason =>
        refine (hupdate _).bind (fun _ last hlast => ?_) fun error last hlast => hfailed error last hlast
        have hnothing' : Unbroken last → launch last = .nothing := fun hunbroken =>
          hlast.1.launch.trans (houtcome (hlast.1.unbroken hunbroken))
        refine (accounts_recordAsync ?_).mono ?_
        · exact fun _ hunbroken _ => Or.inl (hnothing' hunbroken)
        · rintro _ _ ⟨timestampUtc, before, before', now, answer, rfl⟩ hunbroken launched hrecorded
          simp [launch, hnothing' hunbroken.2.2] at hrecorded
    · intro error after hafter hunbroken launched hlaunched
      rw [hafter.2 hunbroken] at hlaunched
      contradiction

/-- A decision is handled: what it launches is recorded. -/
private theorem accounts_handleDecisionAsync {decision : ApprovalDecision} (hsettled : Settled done) :
    Obeys Accounts (fun _ after => Settled after) done
      (ApprovalPollingWorker.handleDecisionAsync host credential decision) := by
  cases hid : decision.requestId with
  | none =>
    simp only [ApprovalPollingWorker.handleDecisionAsync, hid]
    exact .throw hsettled
  | some requestId =>
    simp only [ApprovalPollingWorker.handleDecisionAsync, hid]
    refine .perform hsettled fun before answer => ?_
    cases answer with
    | none => exact .pure fun _ launched hlaunched => by contradiction
    | some tracked =>
      have hsettles : ∀ {after : List Deed},
          Leads (⟨before, .getValueOrDefault requestId, some tracked⟩ :: done) after →
          launch after = .nothing ∧ found after = some (requestId, some tracked) ∧ Settled after := by
        intro after h
        refine ⟨h.launch, h.found, fun _ launched hlaunched => ?_⟩
        rw [h.launch] at hlaunched
        contradiction
      refine (accounts_recordQuietly (by decide) (by decide)).bind ?_ fun _ _ h => (hsettles h).2.2
      intro _ after hafter
      obtain ⟨hnothing, hfound, hsettled'⟩ := hsettles hafter
      have hupdate : ∀ status, Obeys Accounts (fun _ last => Settled last) after
          (RequestStateStore.updateStatus requestId status) := fun status =>
        (accounts_updateStatus hfound).mono fun _ last hlast => (hsettles (hlast.1.trans hafter)).2.2
      cases decision.status with
      | denied => exact hupdate _
      | expired => exact hupdate _
      | approved => exact accounts_handleApprovedAsync hfound fun _ => hnothing
      | pending => exact .pure hsettled'
      | failed => exact .pure hsettled'

/-- The watermark is set. -/
private theorem accounts_setSinceUtc (hsettled : Settled done) :
    Obeys Accounts (fun _ after => Settled after) done ApprovalPollingWorker.setSinceUtc :=
  .perform True.intro fun _ _ => .perform True.intro fun _ _ =>
    .pure fun hunbroken => hsettled hunbroken.2.2

/-- A cycle handles its decisions one after the other. -/
private theorem accounts_cycle {sinceUtc : DateTimeOffset} (hsettled : Settled done) :
    Obeys Accounts (fun _ after => Settled after) done
      (ApprovalPollingWorker.cycle host credential sinceUtc) := by
  refine Obeys.tryCatch (Q := fun _ after => Settled after) ?_ (fun _ _ h => h) fun _ _ h => .pure h
  refine Obeys.bind (Q := fun _ after => Settled after) ?_ (fun _ _ h => accounts_setSinceUtc h)
    fun _ _ h => h
  refine .perform True.intro fun before sent => .perform True.intro fun before' received => ?_
  have hsettled' : Settled (⟨before', .receiveDecisions, received⟩ ::
      ⟨before, .sendPoll credential.bearerToken credential.deviceId sinceUtc, sent⟩ :: done) :=
    fun hunbroken => hsettled hunbroken.2.2
  cases received with
  | error error => exact .throw hsettled'
  | ok decisions =>
    refine Obeys.forEach (I := Settled) hsettled' (fun decision _ done' hdone' => ?_) fun _ h => h
    exact (accounts_handleDecisionAsync hdone').mono fun result _ h => by cases result <;> exact h

/-- So do the cycles of the worker. -/
private theorem accounts_cycles (ticks : Nat) {sinceUtc : DateTimeOffset} (hsettled : Settled done) :
    Obeys Accounts (fun _ after => Settled after) done
      (ApprovalPollingWorker.cycles host credential ticks sinceUtc) := by
  induction ticks generalizing sinceUtc done with
  | zero => exact (accounts_cycle hsettled).bind (fun _ _ h => .pure h) fun _ _ h => h
  | succ ticks ih =>
    refine (accounts_cycle hsettled).bind (fun sinceUtc after h => ?_) fun _ _ h => h
    refine .perform True.intro fun before ticked => ?_
    have hsettled' : Settled (⟨before, .waitForNextTick, ticked⟩ :: after) :=
      fun hunbroken => h hunbroken.2
    cases ticked with
    | error error => exact .throw hsettled'
    | ok again => exact .ite (fun _ => ih hsettled') fun _ => .pure hsettled'

/-- The worker records what it launches before it goes on. -/
theorem accounts_pollingWorker {ticks : Nat} (hsettled : Settled done) :
    Obeys Accounts (fun _ after => Settled after) done
      (ApprovalPollingWorker.executeAsync host ticks) := by
  refine .perform True.intro fun before received => ?_
  have hsettled' : Settled (⟨before, .getCredential, received⟩ :: done) :=
    fun hunbroken => hsettled hunbroken.2
  cases received with
  | error error => exact .throw hsettled'
  | ok credential =>
    exact (accounts_setSinceUtc hsettled').bind (fun _ _ h => accounts_cycles ticks h) fun _ _ h => h

end Programs

/-- A process has been started of which nothing has been recorded. -/
def Launch.isOpen : Launch → Bool
  | .started _ => true
  | _ => false

/-- The runs in which nothing comes between the start of a process and the event: the wait does not
fail, nor does the recording. -/
def uninterrupted : Guard Op Res Tid Choice Event State where
  perform i op choice r :=
    match op, choice with
    | .waitForExit, .fail _ => false
    | .record _, .fail _ => !(launch (mine i r.log)).isOpen
    | .record _, .failAfter _ => !(launch (mine i r.log)).isOpen
    | _, _ => true
  env _ _ := true

/-- Every deed was allowed. -/
def Accounting : List Deed → Prop
  | [] => True
  | deed :: older => Accounts older deed.op ∧ Accounting older

/-- What holds in every state of such a run. -/
structure Accounted (r : Record) : Prop where
  unbroken : ∀ i, Unbroken (mine i r.log)
  accounting : ∀ i, Accounting (mine i r.log)
  known : ∀ i id t, found (mine i r.log) = some (id, some t) → ∃ t', r.state.requests id = some t'

section Runs

variable {host : Host} {accepts : Tid → Call → Bool} {i : Tid} {s s' : State}

/-- What the guard lets happen succeeds where a process has been started and not recorded. -/
private theorem succeeds {op : Op} {choice : Choice} {answer : Res op}
    {log : List (Moment Op Res Tid Event State)} {requestId : String} (h : Accounted ⟨s, log⟩)
    (hallowed : Accounts (mine i log) op) (hguard : uninterrupted.perform i op choice ⟨s, log⟩ = true)
    (hperform : perform host i op choice s = some (answer, s'))
    (hlaunch : launch (mine i log) = .started requestId) :
    Deed.Succeeds ⟨s, op, answer⟩ := by
  cases op with
  | waitForExit =>
    cases choice with
    | unit => exact (Prod.mk.inj (Option.some.inj hperform)).1.symm
    | fail error => contradiction
    | _ => contradiction
  | addOrUpdate id status =>
    obtain ⟨tracked, hfound⟩ := hallowed (h.unbroken i) requestId hlaunch
    obtain ⟨t', ht'⟩ := h.known i id tracked hfound
    obtain ⟨-, -, hanswer, -⟩ | ⟨hnone, -⟩ := perform_addOrUpdate hperform
    · exact hanswer
    · rw [hnone] at ht'
      contradiction
  | record auditEvent =>
    cases choice with
    | unit => exact (Prod.mk.inj (Option.some.inj hperform)).1.symm
    | fail error | failAfter error =>
      simp [uninterrupted, hlaunch, Launch.isOpen] at hguard
    | _ => contradiction
  | _ => exact True.intro

/-- A step that is no deed keeps the accounts of the threads that it does not stop. -/
private theorem Accounted.of_mine {r r' : Record} (h : Accounted r)
    (hmine : ∀ i, mine i r'.log = [] ∨ mine i r'.log = mine i r.log ∧
      r'.state.requests = r.state.requests) : Accounted r' where
  unbroken i := by
    obtain hnone | ⟨hsame, -⟩ := hmine i
    · exact hnone ▸ True.intro
    · exact hsame ▸ h.unbroken i
  accounting i := by
    obtain hnone | ⟨hsame, -⟩ := hmine i
    · exact hnone ▸ True.intro
    · exact hsame ▸ h.accounting i
  known i id t hfound := by
    obtain hnone | ⟨hsame, hrequests⟩ := hmine i
    · rw [hnone] at hfound
      contradiction
    · rw [hsame] at hfound
      exact hrequests ▸ h.known i id t hfound

/-- Every step of such a run keeps the accounts. -/
theorem preserved_accounted :
    Preserved (system host accepts) uninterrupted (fun _ => Accounts) Accounted where
  perform i call op choice answer s s' log h hallowed hguard hperform := by
    have heffect := perform_effect hperform
    have hother : ∀ k, i ≠ k →
        mine k (.performed i ⟨s, op, answer⟩ :: log) = mine k log := fun k hk =>
      mine_performed_ne hk _
    refine ⟨fun k => ?_, fun k => ?_, fun k id t hfound => ?_⟩ <;> by_cases hk : i = k
    · subst hk
      rw [mine_performed_self]
      exact ⟨fun requestId => succeeds h hallowed hguard hperform, h.unbroken i⟩
    · exact (hother k hk).symm ▸ h.unbroken k
    · subst hk
      rw [mine_performed_self]
      exact ⟨hallowed, h.accounting i⟩
    · exact (hother k hk).symm ▸ h.accounting k
    · subst hk
      rw [mine_performed_self] at hfound
      have hold : found (mine i log) = some (id, some t) → ∃ t', s'.requests id = some t' := by
        intro hfound
        obtain ⟨t', ht'⟩ := h.known i id t hfound
        exact heffect.requests_isSome ht'
      cases op with
      | getValueOrDefault requestId =>
        obtain ⟨rfl, hanswer⟩ := Prod.mk.inj (Option.some.inj hfound)
        cases choice with
        | unit =>
          obtain ⟨hlooked, rfl⟩ := Prod.mk.inj (Option.some.inj hperform)
          exact ⟨t, hlooked.trans hanswer⟩
        | _ => contradiction
      | _ => exact hold hfound
    · rw [hother k hk] at hfound
      obtain ⟨t', ht'⟩ := h.known k id t hfound
      exact heffect.requests_isSome ht'
  stop i s log h := by
    refine h.of_mine fun k => ?_
    have hquiet : mine k (.stopped i :: log) = mine k log ∨ mine k (.stopped i :: log) = [] :=
      mine_quiet (by simp)
    obtain hsame | hnone := hquiet
    · exact Or.inr ⟨hsame, rfl⟩
    · exact Or.inl hnone
  reset s s' log h _ := h.of_mine fun _ => Or.inl rfl
  env event s s' log h _ henv := h.of_mine fun _ => Or.inr ⟨rfl, env_requests henv⟩

end Runs

section Calls

variable {host : Host} {accepts : Tid → Call → Bool} {done : List Deed}

/-- The operations that start no process. -/
def Op.Idle (o : Op) : Prop := ∀ startInfo authority, o ≠ .startProcess startInfo authority

/-- A thread that has started nothing has nothing to record. -/
private theorem launch_idle (h : ∀ deed ∈ done, Op.Idle deed.op) : launch done = .nothing := by
  induction done with
  | nil => rfl
  | cons deed done ih =>
    have hrest := ih fun d hd => h d (List.mem_cons_of_mem _ hd)
    obtain ⟨before, o, answer⟩ := deed
    cases o with
    | startProcess startInfo authority => exact absurd rfl (h _ List.mem_cons_self startInfo authority)
    | record auditEvent => simp [launch, hrest]
    | getValueOrDefault requestId => rfl
    | _ => exact hrest

/-- So it may do whatever starts nothing. -/
private theorem accounts_idle {α : Type} {program : Service α} (h : program.Within Op.Idle) :
    Obeys Accounts (fun _ _ => True) [] program := by
  refine (Obeys.of_within h fun new o hnew ho => ?_).mono fun _ _ _ => trivial
  have hnothing : launch (new ++ []) = .nothing := by
    rw [List.append_nil]
    exact launch_idle hnew
  cases o with
  | getValueOrDefault requestId =>
    intro _ launched hlaunched
    rw [hnothing] at hlaunched
    contradiction
  | startProcess startInfo authority => exact absurd rfl (ho startInfo authority)
  | record auditEvent => exact fun _ _ => Or.inl hnothing
  | addOrUpdate requestId status =>
    intro _ launched hlaunched
    rw [hnothing] at hlaunched
    contradiction
  | _ => exact True.intro

/-- An execution that has launched nothing has started no process. -/
private theorem not_starts_of_launch {token : ApprovalToken} {expectedRequestId deviceId : String}
    (h : ∀ deed ∈ done, Op.Executes token expectedRequestId deviceId deed.op)
    (hnothing : launch done = .nothing) (requestId : String) :
    ∀ deed ∈ done, Deed.starts requestId deed = false := by
  induction done with
  | nil => simp
  | cons deed done ih =>
    have hrest := fun hnothing' => ih (fun d hd => h d (List.mem_cons_of_mem _ hd)) hnothing'
    have hdeed := h deed List.mem_cons_self
    obtain ⟨before, o, answer⟩ := deed
    intro d hd
    cases o with
    | startProcess startInfo authority =>
      obtain error | started := answer
      · obtain rfl | hd := List.mem_cons.mp hd
        · rfl
        · exact hrest hnothing d hd
      · cases started with
        | false =>
          obtain rfl | hd := List.mem_cons.mp hd
          · rfl
          · exact hrest hnothing d hd
        | true => contradiction
    | record auditEvent => exact hdeed.elim
    | getValueOrDefault requestId => exact hdeed.elim
    | _ =>
      obtain rfl | hd := List.mem_cons.mp hd
      · rfl
      · exact hrest hnothing d hd

/-- What a call has done when it ends: the worker has recorded what it has launched, and an execution
that reports failure has started nothing. -/
def Closes : Call → Except ClrException Answer → List Deed → Prop
  | .pollingWorker _, _, done => Settled done
  | .execute _ _ _ _, .ok (.execution (.failed _)), done =>
    Unbroken done → ∀ requestId, ∀ deed ∈ done, Deed.starts requestId deed = false
  | _, _, _ => True

/-- Every call keeps to that. -/
theorem honors_accounts : (system host accepts).Honors (fun _ => Accounts) Closes := by
  intro i call program hprogram
  simp only [system] at hprogram
  split at hprogram
  · obtain rfl := Option.some.inj hprogram
    cases call with
    | pollingWorker ticks =>
      refine Obeys.bind (accounts_pollingWorker fun _ _ h => by contradiction) (fun _ _ h => .pure h)
        fun _ _ h => h
    | submit rawFilePath reason =>
      refine (accounts_idle (within_submitAsync.mono fun o ho => ?_).map).mono fun _ _ _ => trivial
      rintro _ _ rfl
      exact ho
    | getStatus requestId =>
      refine (accounts_idle (within_getStatus fun id => ?_).map).mono fun _ _ _ => trivial
      exact fun _ _ heq => by contradiction
    | execute token requestId rawPath deviceId =>
      have hwithin : Obeys (fun _ _ => True) (fun _ after => ∃ new : List Deed, after = new ++ [] ∧
          ∀ deed ∈ new, Op.Executes token requestId deviceId deed.op) []
          (ExecutionEngine.executeAsync host token requestId rawPath deviceId) :=
        Obeys.of_within within_executeAsync fun _ _ _ _ => trivial
      refine ((accounts_executeAsync fun _ => rfl).and hwithin).bind ?_ fun _ _ _ => trivial
      rintro outcome after ⟨⟨-, hlaunch⟩, new, rfl, hnew⟩
      cases outcome with
      | ok => exact .pure trivial
      | failed reason =>
        refine .pure fun hunbroken id => ?_
        rw [List.append_nil] at hlaunch hunbroken ⊢
        exact not_starts_of_launch hnew (hlaunch hunbroken) id
    | validate token deviceId requestId hash =>
      refine (accounts_idle (within_validateAsync.mono fun o ho => ?_).map).mono fun _ _ _ => trivial
      rintro _ _ rfl
      exact ho
  · contradiction

end Calls

section Accounts

variable {done older newer : List Deed}

/-- What has been recorded since a process was started, up to the next lookup. -/
def reportsSince (newer : List Deed) : List Deed :=
  (newer.reverse.takeWhile fun deed => !Deed.looksUp deed).filter Deed.reports

/-- After a lookup nothing counts any more. -/
private theorem reportsSince_of_looksUp {deed : Deed} (h : newer.any Deed.looksUp = true) :
    reportsSince (deed :: newer) = reportsSince newer := by
  have hshort : (newer.reverse.takeWhile fun d => !Deed.looksUp d).length ≠ newer.reverse.length := by
    intro hlength
    have hall := (List.takeWhile_prefix fun d => !Deed.looksUp d).eq_of_length hlength
    obtain ⟨d, hd, hlooks⟩ := List.any_eq_true.mp h
    have hnot := List.takeWhile_eq_self_iff.mp hall d (List.mem_reverse.mpr hd)
    simp [hlooks] at hnot
  rw [reportsSince, List.reverse_cons, List.takeWhile_append, if_neg hshort, reportsSince]

/-- Before that every report counts. -/
private theorem reportsSince_of_not_looksUp {deed : Deed} (h : newer.any Deed.looksUp = false) :
    reportsSince (deed :: newer) = reportsSince newer ++
      [deed].filter fun d => !Deed.looksUp d && Deed.reports d := by
  have hall : ∀ d ∈ newer.reverse, (!Deed.looksUp d) = true := by
    intro d hd
    have hnot := List.any_eq_false.mp h d (List.mem_reverse.mp hd)
    simpa using hnot
  rw [reportsSince, List.reverse_cons, List.takeWhile_append_of_pos hall, List.filter_append,
    reportsSince, List.takeWhile_eq_self_iff.mpr hall]
  cases hlooks : Deed.looksUp deed <;> cases hreports : Deed.reports deed <;> simp [hlooks, hreports]

/-- An event of the end of an execution for a request, which has been recorded. -/
def IsReport (requestId : String) (deed : Deed) : Prop :=
  ∃ before auditEvent, deed = ⟨before, .record auditEvent, .ok ()⟩ ∧
    auditEvent.requestId = some requestId ∧ auditEvent.eventType = .executionCompleted

/-- A started process is recorded once, before the next lookup. -/
private theorem recorded_once {requestId : String} {start : Deed}
    (hstart : Deed.starts requestId start = true) (hunbroken : Unbroken (newer ++ start :: older))
    (haccounting : Accounting (newer ++ start :: older)) :
    (newer.any Deed.looksUp = false ∧ launch (newer ++ start :: older) = .started requestId ∧
        reportsSince newer = []) ∨
      (newer.any Deed.looksUp = false → launch (newer ++ start :: older) = .recorded) ∧
        ∃ report, IsReport requestId report ∧ reportsSince newer = [report] := by
  induction newer with
  | nil =>
    obtain ⟨before, o, answer⟩ := start
    cases o with
    | startProcess startInfo authority =>
      obtain error | started := answer
      · contradiction
      · cases started with
        | false => contradiction
        | true =>
          have hid : authority.expectedRequestId = requestId := of_decide_eq_true hstart
          exact Or.inl ⟨rfl, hid ▸ rfl, rfl⟩
    | _ => contradiction
  | cons deed newer ih =>
    rw [List.cons_append] at hunbroken haccounting ⊢
    obtain ⟨hsucceeds, hunbroken⟩ := hunbroken
    obtain ⟨hallowed, haccounting⟩ := haccounting
    obtain ⟨hlooks, hlaunch, hreports⟩ | ⟨hlaunch, report, hreport, hreports⟩ := ih hunbroken haccounting
    · -- nothing has been recorded before this deed
      have hquiet : Deed.looksUp deed = false → Deed.reports deed = false →
          launch (deed :: (newer ++ start :: older)) = launch (newer ++ start :: older) →
          ((deed :: newer).any Deed.looksUp = false ∧
            launch (deed :: (newer ++ start :: older)) = .started requestId ∧
            reportsSince (deed :: newer) = []) := by
        intro hlooks' hreports' hsame
        refine ⟨by rw [List.any_cons, hlooks, hlooks']; rfl, hsame.trans hlaunch, ?_⟩
        rw [reportsSince_of_not_looksUp hlooks, hreports]
        simp [hreports']
      obtain ⟨before, o, answer⟩ := deed
      cases o with
      | startProcess startInfo authority =>
        have hnothing := hallowed hunbroken
        rw [hlaunch] at hnothing
        contradiction
      | getValueOrDefault id => exact absurd hlaunch (hallowed hunbroken requestId)
      | record auditEvent =>
        obtain rfl : answer = .ok () := hsucceeds requestId hlaunch
        cases hends : auditEvent.reports with
        | false =>
          refine Or.inl (hquiet rfl hends ?_)
          simp [launch, hlaunch, hends]
        | true =>
          obtain hnothing | ⟨hstarted, hsome, hcompleted⟩ := hallowed hunbroken hends
          · rw [hlaunch] at hnothing
            contradiction
          · have hid : auditEvent.requestId = some requestId := by
              obtain ⟨id, hid⟩ := Option.isSome_iff_exists.mp hsome
              rw [hlaunch, hid] at hstarted
              rw [hid, Launch.started.inj hstarted]
              rfl
            refine Or.inr ⟨fun _ => ?_, _, ⟨before, auditEvent, rfl, hid, hcompleted⟩, ?_⟩
            · simp [launch, hlaunch, hends]
            · rw [reportsSince_of_not_looksUp hlooks, hreports]
              simp [Deed.looksUp, Deed.reports, hends]
      | _ => exact Or.inl (hquiet rfl rfl rfl)
    · -- the event has been recorded
      cases hlooks : newer.any Deed.looksUp with
      | true =>
        refine Or.inr ⟨fun hnone => ?_, report, hreport, ?_⟩
        · rw [List.any_cons, hlooks, Bool.or_true] at hnone
          contradiction
        · rw [reportsSince_of_looksUp hlooks, hreports]
      | false =>
        have hrecorded := hlaunch hlooks
        have hquiet : (!Deed.looksUp deed && Deed.reports deed) = false →
            (Deed.looksUp deed = false →
              launch (deed :: (newer ++ start :: older)) = launch (newer ++ start :: older)) →
            (((deed :: newer).any Deed.looksUp = false →
                launch (deed :: (newer ++ start :: older)) = .recorded) ∧
              ∃ report, IsReport requestId report ∧ reportsSince (deed :: newer) = [report]) := by
          intro hnot hsame
          refine ⟨fun hnone => ?_, report, hreport, ?_⟩
          · rw [List.any_cons, hlooks, Bool.or_false] at hnone
            exact (hsame hnone).trans hrecorded
          · rw [reportsSince_of_not_looksUp hlooks, hreports]
            simp [hnot]
        obtain ⟨before, o, answer⟩ := deed
        cases o with
        | startProcess startInfo authority =>
          have hnothing := hallowed hunbroken
          rw [hrecorded] at hnothing
          contradiction
        | getValueOrDefault id => exact Or.inr (hquiet rfl fun h => by contradiction)
        | record auditEvent =>
          cases hends : auditEvent.reports with
          | false =>
            refine Or.inr (hquiet ?_ fun _ => ?_)
            · simp [Deed.reports, hends]
            · simp [launch, hrecorded]
          | true =>
            obtain hnothing | ⟨hstarted, -⟩ := hallowed hunbroken hends
            · rw [hrecorded] at hnothing
              contradiction
            · rw [hrecorded] at hstarted
              contradiction
        | _ => exact Or.inr (hquiet rfl fun _ => rfl)

end Accounts

/-- In every run in which nothing comes between the start of a process and the event, whatever a worker
has started is recorded exactly once before the worker handles another decision or stops, as completed,
and an execution reports failure only if it has started no process. -/
theorem launches_recorded {host : Host} {accepts : Tid → Call → Bool} {s : State}
    {labels : List (Label Tid Choice Event Call)}
    {c : Config Op Res ClrException Answer Tid Call Record}
    (hrun : ((system host accepts).recorded uninterrupted).run labels (System.init ⟨s, []⟩) = some c) :
    (∀ i ticks program newer start older requestId,
      c.thread i = some (.pollingWorker ticks, program) →
      mine i c.shared.log = newer ++ start :: older → Deed.starts requestId start = true →
      newer.any Deed.looksUp = true ∨ program.pending = none →
      ∃ report, IsReport requestId report ∧ reportsSince newer = [report]) ∧
    ∀ i token expectedRequestId rawPath deviceId reason,
      c.thread i = some (.execute token expectedRequestId rawPath deviceId,
        .pure (.execution (.failed reason))) →
      ∀ requestId, ∀ deed ∈ mine i c.shared.log, Deed.starts requestId deed = false := by
  have hnone : Accounted (⟨s, []⟩ : Record) :=
    { unbroken := fun _ => trivial
      accounting := fun _ => trivial
      known := fun _ _ _ hfound => by contradiction }
  obtain ⟨hhonoring, haccounted⟩ := honored_run honors_accounts preserved_accounted (honoring_init _) hnone
    hrun
  refine ⟨fun i ticks program newer start older requestId hthread hmine hstart hover => ?_, ?_⟩
  · have hunbroken := hmine ▸ haccounted.unbroken i
    obtain ⟨hlooks, hlaunch, -⟩ | ⟨-, hreport⟩ :=
      recorded_once hstart hunbroken (hmine ▸ haccounted.accounting i)
    · -- the worker has ended, so it has recorded what it has launched
      obtain hlooks' | hended := hover
      · rw [hlooks] at hlooks'
        contradiction
      · have hsettled : Settled (newer ++ start :: older) := by
          rw [← hmine]
          cases hhonoring i _ _ hthread with
          | pure post => exact post
          | throw post => exact post
          | perform => contradiction
        exact absurd hlaunch (hsettled hunbroken requestId)
    · exact hreport
  · intro i token expectedRequestId rawPath deviceId reason hthread
    cases hhonoring i _ _ hthread with
    | pure post => exact post (haccounted.unbroken i)

namespace Sample

/-- The exception of a cancelled token. -/
def cancelled : ClrException := .operationCanceled "The operation was canceled."

/-- An approved decision for an empty file. -/
def decision : ApprovalDecision where
  requestId := some "request"
  status := .approved
  token := some { genuine.token with sha256Hex := some (hashText .ascii []) }

/-- The file has been submitted. -/
def submitted : State :=
  { fresh with
    files := fun path => if path = "C:\\a.exe" then some [] else none
    requests := fun id => if id = "request" then some ⟨"C:\\a.exe", "installation", .minValue, .pending⟩
      else none }

/-- The worker receives the decision and starts the process. -/
def launching : List (Label Tid Choice Event Call) :=
  [.spawn 0 (.pollingWorker 1), .perform 0 .unit, .perform 0 .unit, .perform 0 .unit, .perform 0 .unit,
    .perform 0 (.decisions [decision]), .perform 0 .unit, .perform 0 .unit, .perform 0 .unit,
    .perform 0 (.drive .fixed)] ++ List.replicate 8 (.perform 0 .unit)

/-- It waits, records the event and sets the watermark. Then the service stops. -/
def recorded : List (Label Tid Choice Event Call) :=
  launching ++ List.replicate 6 (.perform 0 .unit) ++ [.perform 0 (.fail cancelled)]

/-- The service stops while the process runs. -/
def interrupted : List (Label Tid Choice Event Call) :=
  launching ++ [.perform 0 (.fail cancelled), .perform 0 .unit, .perform 0 .unit,
    .perform 0 (.fail cancelled), .perform 0 (.fail cancelled)]

/-- Whether the worker has ended, whether it has started the process, which events the audit trail has
of executions, and whether the request has failed. -/
structure Outcome where
  ended : Bool
  started : Bool
  events : List AuditEventType
  failed : Bool
  deriving DecidableEq

/-- What a run has come to. -/
def outcome (c : Config Op Res ClrException Answer Tid Call Record) : Outcome where
  ended := (c.thread 0).any fun entry => entry.2.pending.isNone
  started := (mine 0 c.shared.log).any (Deed.starts "request")
  events := (c.shared.state.audit.filter AuditEvent.reports).map AuditEvent.eventType
  failed := (c.shared.state.requests "request").any fun tracked => tracked.status = .failed

variable {labels : List (Label Tid Choice Event Call)} {guard : Guard Op Res Tid Choice Event State}
  {c : Config Op Res ClrException Answer Tid Call Record}

/-- The worker, and the start of the process. -/
theorem exists_start (hrun : ((system verifier serviceCalls).recorded guard).run
      (.spawn 0 (.pollingWorker 1) :: labels) (System.init ⟨submitted, []⟩) = some c)
    (hcalm : ∀ label ∈ labels, label.Calm) (hended : (outcome c).ended = true)
    (hstarted : (outcome c).started = true) :
    ∃ program newer start older, c.thread 0 = some (.pollingWorker 1, program) ∧
      program.pending = none ∧ mine 0 c.shared.log = newer ++ start :: older ∧
      Deed.starts "request" start = true := by
  obtain ⟨c', hspawn, hrest⟩ := Option.bind_eq_some_iff.mp hrun
  obtain ⟨_, _, rfl⟩ := System.step_spawn _ hspawn
  obtain ⟨program, hthread, -⟩ := thread_run hcalm (Function.update_self _ _ _) hrest
  obtain ⟨start, hmem, hstart⟩ := List.any_eq_true.mp hstarted
  obtain ⟨newer, older, hmine⟩ := List.append_of_mem hmem
  refine ⟨program, newer, start, older, hthread, ?_, hmine, hstart⟩
  rw [outcome, hthread] at hended
  exact Option.isNone_iff_eq_none.mp hended

end Sample

/-- The worker that the service stops in the end has recorded its launch. -/
theorem launches_recorded_sample : ∃ c newer report,
    ((system Sample.verifier serviceCalls).recorded uninterrupted).run Sample.recorded
      (System.init ⟨Sample.submitted, []⟩) = some c ∧
    newer <+: mine 0 c.shared.log ∧ IsReport "request" report ∧ reportsSince newer = [report] := by
  have hrun : ((((system Sample.verifier serviceCalls).recorded uninterrupted).run Sample.recorded
      (System.init ⟨Sample.submitted, []⟩)).map Sample.outcome) =
      some ⟨true, true, [.executionCompleted], false⟩ := by
    decide +kernel
  obtain ⟨c, hc, houtcome⟩ := Option.map_eq_some_iff.mp hrun
  obtain ⟨program, newer, start, older, hthread, hended, hmine, hstart⟩ :=
    Sample.exists_start hc (by simp [Label.Calm]) (by rw [houtcome]) (by rw [houtcome])
  obtain ⟨report, hreport, hreports⟩ := (launches_recorded hc).1 0 1 program newer start older "request"
    hthread hmine hstart (Or.inr hended)
  exact ⟨c, newer, report, hc, ⟨_, hmine.symm⟩, hreport, hreports⟩

/-- A process is started while the service stops: the worker ends without an event, and the request has
failed. -/
theorem launch_unrecorded : ∃ c program newer start older,
    ((system Sample.verifier serviceCalls).recorded .free).run Sample.interrupted
      (System.init ⟨Sample.submitted, []⟩) = some c ∧
    c.thread 0 = some (.pollingWorker 1, program) ∧ program.pending = none ∧
    mine 0 c.shared.log = newer ++ start :: older ∧ Deed.starts "request" start = true ∧
    (∀ auditEvent ∈ c.shared.state.audit, auditEvent.reports = false) ∧
    ∃ tracked, c.shared.state.requests "request" = some tracked ∧ tracked.status = .failed := by
  have hrun : ((((system Sample.verifier serviceCalls).recorded .free).run Sample.interrupted
      (System.init ⟨Sample.submitted, []⟩)).map Sample.outcome) = some ⟨true, true, [], true⟩ := by
    decide +kernel
  obtain ⟨c, hc, houtcome⟩ := Option.map_eq_some_iff.mp hrun
  obtain ⟨program, newer, start, older, hthread, hended, hmine, hstart⟩ :=
    Sample.exists_start hc (by simp [Label.Calm]) (by rw [houtcome]) (by rw [houtcome])
  have hevents : (Sample.outcome c).events = [] := by rw [houtcome]
  have hfailed : (Sample.outcome c).failed = true := by rw [houtcome]
  refine ⟨c, program, newer, start, older, hc, hthread, hended, hmine, hstart, fun auditEvent hmem => ?_, ?_⟩
  · have hnone := List.filter_eq_nil_iff.mp (List.map_eq_nil_iff.mp hevents) auditEvent hmem
    simpa using hnone
  · obtain ⟨tracked, htracked, hstatus⟩ := (Option.any_eq_true _ _).mp hfailed
    exact ⟨tracked, htracked, of_decide_eq_true hstatus⟩

end ElevateGate.Agent
