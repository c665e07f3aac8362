import ElevateGate.Agent.Accounting

/-!
# What a status says

The tray asks the service for the status of its request and shows the user what it is told. A request is
only said to be approved when a process was started for it and has exited, only denied or expired when a
decision said so, and only failed when it could not be sent or its execution did not succeed.
-/

namespace ElevateGate.Agent

open Interaction Time

/-- A decision came with a response to a poll. -/
def Received (done : List Deed) (decision : ApprovalDecision) : Prop :=
  ∃ before list, (⟨before, .receiveDecisions, .ok list⟩ : Deed) ∈ done ∧ decision ∈ list

/-- After some deeds a process was started for a request with the authority of a token, and exited. -/
def Ran (base done : List Deed) (token : ApprovalToken) (requestId : String) : Prop :=
  ∃ before before' startInfo authority older, base <:+ older ∧
    ((⟨before', .waitForExit, .ok ()⟩ : Deed) ::
      ⟨before, .startProcess startInfo authority, .ok true⟩ :: older) <:+ done ∧
    authority.token = token ∧ authority.expectedRequestId = requestId

/-- Why a request has a status, by what a thread has done. -/
inductive Shows (done : List Deed) (requestId : String) : RequestStatus → Prop
  | pending : Shows done requestId .pending
  | approved {base : List Deed} {decision : ApprovalDecision} {token : ApprovalToken}
      (hreceived : Received base decision) (hid : decision.requestId = some requestId)
      (hstatus : decision.status = .approved) (htoken : decision.token = some token)
      (hran : Ran base done token requestId) : Shows done requestId .approved
  | denied {decision : ApprovalDecision} (hreceived : Received done decision)
      (hid : decision.requestId = some requestId) (hstatus : decision.status = .denied) :
      Shows done requestId .denied
  | expired {decision : ApprovalDecision} (hreceived : Received done decision)
      (hid : decision.requestId = some requestId) (hstatus : decision.status = .expired) :
      Shows done requestId .expired
  | unsent {before : State} {error : ClrException}
      (h : (⟨before, .receiveSubmitted requestId, .error error⟩ : Deed) ∈ done) :
      Shows done requestId .failed
  | unexecuted {decision : ApprovalDecision} (hreceived : Received done decision)
      (hid : decision.requestId = some requestId) (hstatus : decision.status = .approved) :
      Shows done requestId .failed

/-- The protocol of the state store: a request is pending at first, and its status changes for a
reason. -/
def Justifying (done : List Deed) : Op → Prop
  | .setItem _ t => t.status = .pending
  | .addOrUpdate requestId status => Shows done requestId status
  | _ => True

/-- A request for a path was added to the store and reached the backend, and the response names it. -/
def Accepted (rawFilePath reason : String) (message : PipeResponseMessage) (done : List Deed) : Prop :=
  ∃ requestId before before' t, (⟨before, .setItem requestId t, ()⟩ : Deed) ∈ done ∧
    (⟨before', .receiveSubmitted requestId, .ok ()⟩ : Deed) ∈ done ∧
    WindowsPathRules.tryCanonicalize rawFilePath = some t.canonicalPath ∧ t.reason = reason ∧
    message = ⟨true, some requestId, some RequestStatus.pending.name, none⟩

/-- What a thread that serves the tray ends with, unless it fails: a request that was accepted, or a
status that it has looked up. -/
def Answered : Call → Except ClrException Answer → List Deed → Prop
  | .submit rawFilePath reason, .ok (.response message), done => message.success = true →
    Accepted (rawFilePath.getD "") (reason.getD "") message done
  | .getStatus id, .ok (.response message), done => message.success = true →
    ∃ requestId before t, id = some requestId ∧
      (⟨before, .getValueOrDefault requestId, some t⟩ : Deed) ∈ done ∧
        message = ⟨true, some requestId, some t.status.name, none⟩
  | _, _, _ => True

section Reasons

variable {done after : List Deed} {requestId : String} {status : RequestStatus}

theorem Received.mono {decision : ApprovalDecision} (h : Received done decision)
    (hafter : done <:+ after) : Received after decision := by
  obtain ⟨before, list, hdid, hmem⟩ := h
  exact ⟨before, list, hafter.subset hdid, hmem⟩

theorem Ran.mono {base : List Deed} {token : ApprovalToken} (h : Ran base done token requestId)
    (hafter : done <:+ after) : Ran base after token requestId := by
  obtain ⟨before, before', startInfo, authority, older, hbase, hdone, hauthority⟩ := h
  exact ⟨before, before', startInfo, authority, older, hbase, hdone.trans hafter, hauthority⟩

/-- A reason remains one. -/
theorem Shows.mono (h : Shows done requestId status) (hafter : done <:+ after) :
    Shows after requestId status := by
  cases h with
  | pending => exact .pending
  | approved hreceived hid hstatus htoken hran =>
    exact .approved hreceived hid hstatus htoken (hran.mono hafter)
  | denied hreceived hid hstatus => exact .denied (hreceived.mono hafter) hid hstatus
  | expired hreceived hid hstatus => exact .expired (hreceived.mono hafter) hid hstatus
  | unsent h => exact .unsent (hafter.subset h)
  | unexecuted hreceived hid hstatus => exact .unexecuted (hreceived.mono hafter) hid hstatus

end Reasons

section Protocol

variable {host : Host} {done : List Deed} {credential : DeviceCredential}

/-- Operations that do not change the store need no reason. -/
private theorem justifying_of_executes {token : ApprovalToken} {requestId deviceId : String} {o : Op}
    (h : o.Executes token requestId deviceId) : Justifying done o := by
  cases o <;> first | exact True.intro | exact h.elim

private theorem justifying_of_records {o : Op} (h : o.Records) : Justifying done o := by
  cases o <;> first | exact True.intro | exact h.elim

private theorem justifying_of_reads {o : Op} (h : o.Reads) : Justifying done o := by
  cases o <;> first | exact True.intro | exact h.elim

/-- A part of the service that does not change the store adds to what was done. -/
private theorem obeys_within {α : Type} {S : Op → Prop} {program : Service α} (h : program.Within S)
    (hS : ∀ done o, S o → Justifying done o) :
    Obeys Justifying (fun _ after => done <:+ after) done program := by
  refine (Obeys.of_within h fun new o _ ho => hS _ o ho).mono ?_
  rintro _ _ ⟨new, rfl, -⟩
  exact List.suffix_append _ _

/-- A launch succeeds once the process has exited. -/
private theorem runs_launchAsync {path extension : String} {authority : Authority} :
    Obeys Justifying (fun result after => done <:+ after ∧
      (result = .ok .ok → Ran done after authority.token authority.expectedRequestId)) done
      (ExecutionEngine.launchAsync host path extension authority) := by
  have hbody : Obeys Justifying (fun result after => done <:+ after ∧
      (result = .ok .ok → Ran done after authority.token authority.expectedRequestId)) done (do
        let started ← orThrow
          (op (.startProcess (ExecutionEngine.startInfo host path extension) authority))
        if !started then return .failed "Failed to start process."
        else
          orThrow (op .waitForExit)
          return .ok : Service ExecutionOutcome) := by
    refine .perform True.intro fun before started => ?_
    have hstarted : ∀ deed : Deed, done <:+ deed :: done := fun deed => List.suffix_cons _ _
    cases started with
    | error error => exact .throw ⟨hstarted _, by simp⟩
    | ok started =>
      cases started with
      | false => exact .pure ⟨hstarted _, by simp⟩
      | true =>
        refine .perform True.intro fun before' exited => ?_
        have hexited := (hstarted ⟨before, .startProcess (ExecutionEngine.startInfo host path extension)
          authority, .ok true⟩).trans (List.suffix_cons ⟨before', .waitForExit, exited⟩ _)
        cases exited with
        | error error => exact .throw ⟨hexited, by simp⟩
        | ok exited =>
          exact .pure ⟨hexited, fun _ => ⟨before, before', _, authority, done, List.suffix_refl _,
            List.suffix_refl _, rfl, rfl⟩⟩
  exact hbody.tryCatch (fun _ _ h => h) fun error after h => .pure ⟨h.1, by simp⟩

/-- An execution succeeds once a process that it has started has exited. -/
private theorem runs_executeAsync {token : ApprovalToken} {requestId path deviceId : String} :
    Obeys Justifying (fun result after => done <:+ after ∧
      (result = .ok .ok → Ran done after token requestId)) done
      (ExecutionEngine.executeAsync host token requestId path deviceId) := by
  have hexecutes : ∀ done o, o.Executes token requestId deviceId → Justifying done o :=
    fun _ _ => justifying_of_executes
  refine (obeys_within (within_validate fun _ => trivial) hexecutes).bind ?_ fun _ _ h => ⟨h, by simp⟩
  intro outcome after hafter
  cases outcome with
  | invalid reason => exact .pure ⟨hafter, by simp⟩
  | valid canonicalPath =>
    dsimp only
    refine .ite (fun _ => .pure ⟨hafter, by simp⟩) fun _ => .perform trivial fun before found => ?_
    have hfound := hafter.trans (List.suffix_cons ⟨before, .fileExists canonicalPath, found⟩ after)
    refine .ite (fun _ => .pure ⟨hfound, by simp⟩) fun _ => ?_
    refine Obeys.bind (obeys_within (within_computeHexAsync.mono ?_) hexecutes) ?_
      fun _ _ h => ⟨hfound.trans h, by simp⟩
    · rintro o (rfl | rfl | rfl) <;> trivial
    intro hash after1 hafter1
    have hhashed := hfound.trans hafter1
    refine Obeys.bind (obeys_within (within_validateAsync.mono ?_) hexecutes) ?_
      fun _ _ h => ⟨hhashed.trans h, by simp⟩
    · intro o ho
      cases o <;> first | exact True.intro | exact ho.elim | exact ho
    intro validation after2 hafter2
    have hvalidated := hhashed.trans hafter2
    cases validation with
    | invalid reason => exact .pure ⟨hvalidated, by simp⟩
    | valid =>
      refine runs_launchAsync.mono fun result after3 h => ⟨hvalidated.trans h.1, fun hok => ?_⟩
      obtain ⟨before, before', startInfo, authority, older, hbase, hran⟩ := h.2 hok
      exact ⟨before, before', startInfo, authority, older, hvalidated.trans hbase, hran⟩

/-- The status of a request is updated for a reason. -/
private theorem obeys_updateStatus {requestId : String} {status : RequestStatus}
    (h : Shows done requestId status) :
    Obeys Justifying (fun _ after => done <:+ after) done
      (RequestStateStore.updateStatus requestId status) := by
  refine .perform h fun before updated => ?_
  cases updated with
  | error error => exact .throw (List.suffix_cons _ _)
  | ok _ => exact .pure (List.suffix_cons _ _)

/-- An update and the event that records it. -/
private theorem obeys_updateAndRecord {requestId : String} {status : RequestStatus}
    {eventType : AuditEventType} {id deviceId nonce : Option String} {message : String}
    (h : Shows done requestId status) :
    Obeys Justifying (fun _ after => done <:+ after) done (do
      RequestStateStore.updateStatus requestId status
      recordAsync eventType id deviceId nonce message) := by
  refine (obeys_updateStatus h).bind (fun _ after hafter => ?_) fun _ _ h => h
  refine (obeys_within within_recordAsync fun _ _ => justifying_of_records).mono ?_
  exact fun _ _ h => hafter.trans h

/-- The handling of a decision that was received. -/
private theorem obeys_handleDecisionAsync {decision : ApprovalDecision}
    (hreceived : Received done decision) :
    Obeys Justifying (fun _ after => done <:+ after) done
      (ApprovalPollingWorker.handleDecisionAsync host credential decision) := by
  cases hid : decision.requestId with
  | none =>
    simp only [ApprovalPollingWorker.handleDecisionAsync, hid]
    exact .throw (List.suffix_refl _)
  | some requestId =>
    simp only [ApprovalPollingWorker.handleDecisionAsync, hid]
    refine .op_bind trivial fun before answer => ?_
    have hlooked := List.suffix_cons (⟨before, .getValueOrDefault requestId, answer⟩ : Deed) done
    cases answer with
    | none => exact .pure hlooked
    | some tracked =>
      dsimp only
      refine Obeys.bind (obeys_within within_recordAsync fun _ _ => justifying_of_records) ?_
        fun _ _ h => hlooked.trans h
      intro _ after hafter
      have hrecorded := hlooked.trans hafter
      have hreceived' := hreceived.mono hrecorded
      cases hstatus : decision.status with
      | denied =>
        exact (obeys_updateStatus (.denied hreceived' hid hstatus)).mono fun _ _ => hrecorded.trans
      | expired =>
        exact (obeys_updateStatus (.expired hreceived' hid hstatus)).mono fun _ _ => hrecorded.trans
      | pending => exact .pure hrecorded
      | failed => exact .pure hrecorded
      | approved =>
        cases htoken : decision.token with
        | none =>
          exact (obeys_updateStatus (.unexecuted hreceived' hid hstatus)).mono fun _ _ =>
            hrecorded.trans
        | some token =>
          refine Obeys.bind runs_executeAsync ?_ fun _ _ h => hrecorded.trans h.1
          rintro outcome after' ⟨hafter', hran⟩
          have hexecuted := hrecorded.trans hafter'
          cases outcome with
          | ok =>
            exact (obeys_updateAndRecord (.approved hreceived' hid hstatus htoken (hran rfl))).mono
              fun _ _ => hexecuted.trans
          | failed reason =>
            exact (obeys_updateAndRecord (.unexecuted (hreceived.mono hexecuted) hid hstatus)).mono
              fun _ _ => hexecuted.trans

/-- A poll abides by a protocol if the handling of the decisions that it has received does. -/
theorem abides_pollOnceAsync_of_received {P : List Deed → Op → Prop} {sinceUtc : DateTimeOffset}
    (hsend : ∀ done bearerToken deviceId t, P done (.sendPoll bearerToken deviceId t))
    (hreceive : ∀ done, P done .receiveDecisions)
    (hhandle : ∀ done decision, Received done decision → Obeys P (fun _ after => done <:+ after) done
      (ApprovalPollingWorker.handleDecisionAsync host credential decision)) :
    Abides P (ApprovalPollingWorker.pollOnceAsync host credential sinceUtc) := by
  refine fun done => .perform (hsend _ _ _ _) fun before sent =>
    .perform (hreceive _) fun before' received => ?_
  cases received with
  | error error => exact .throw trivial
  | ok list =>
    refine Obeys.forEach (I := fun after => ∀ decision ∈ list, Received after decision)
      (fun decision hdecision => ⟨before', list, List.mem_cons_self, hdecision⟩) ?_ fun _ _ => trivial
    intro decision hdecision after hafter
    refine (hhandle after decision (hafter decision hdecision)).mono fun result after' h => ?_
    cases result with
    | error error => trivial
    | ok _ => exact fun other hother => (hafter other hother).mono h

/-- A submission adds a pending request, which fails if it cannot be sent. -/
private theorem obeys_submitFile {rawFilePath path reason : String}
    (hpath : WindowsPathRules.tryCanonicalize rawFilePath = some path) :
    Obeys Justifying (fun result after => ∀ message, result = .ok message → message.success = true →
      Accepted rawFilePath reason message after) done
      (RequestCoordinator.submitFile host path reason) := by
  refine .perform trivial fun s0 received => ?_
  cases received with
  | error error => exact .throw (by simp)
  | ok credential =>
    refine (obeys_within within_readFile fun _ _ => justifying_of_reads).bind ?_ fun _ _ _ => by simp
    rintro ⟨metadata, signature⟩ after -
    refine .op_bind trivial fun s1 guid => .op_bind trivial fun s2 now => ?_
    refine .op_bind rfl fun s3 _ => ?_
    refine Obeys.bind (Q := fun result after => result = .ok true → ∀ message,
        message = ⟨true, some guid.textN, some RequestStatus.pending.name, none⟩ →
        Accepted rawFilePath reason message after) ?_ ?_ fun _ _ _ => by simp
    · refine Obeys.tryCatch (Q := fun result after => (∀ error, result = .error error →
          Shows after guid.textN .failed) ∧ (result = .ok true → ∀ message,
            message = ⟨true, some guid.textN, some RequestStatus.pending.name, none⟩ →
            Accepted rawFilePath reason message after)) ?_ (fun _ _ h => h.2) ?_
      · refine .perform trivial fun s4 _ => .perform trivial fun s5 submitted => ?_
        cases submitted with
        | error error => exact .throw ⟨fun _ _ => .unsent List.mem_cons_self, by simp⟩
        | ok _ =>
          refine .pure ⟨by simp, fun _ message hmessage => ?_⟩
          exact ⟨guid.textN, s3, s5, ⟨path, reason, now, .pending⟩,
            List.mem_cons_of_mem _ (List.mem_cons_of_mem _ List.mem_cons_self), List.mem_cons_self,
            hpath, rfl, hmessage⟩
      · intro error after hfailed
        exact (obeys_updateStatus (hfailed.1 error rfl)).bind (fun _ _ _ => .pure (by simp))
          fun _ _ _ => by simp
    · intro submitted after haccepted
      cases submitted with
      | false =>
        refine .pure fun message heq hsuccess => ?_
        simp [← Except.ok.inj heq, RequestCoordinator.failed] at hsuccess
      | true =>
        refine Obeys.bind (obeys_within within_recordAsync fun _ _ => justifying_of_records)
          (fun _ after' hafter => .pure ?_) fun _ _ _ => by simp
        intro message heq _
        obtain ⟨id, before, before', t, hset, hreceived, hrest⟩ :=
          haccepted rfl message (Except.ok.inj heq).symm
        exact ⟨id, before, before', t, hafter.subset hset, hafter.subset hreceived, hrest⟩

/-- So does a call that submits. -/
private theorem obeys_submitAsync {rawFilePath reason : Option String} :
    Obeys Justifying (Answered (.submit rawFilePath reason)) []
      (.response <$> RequestCoordinator.submitAsync host rawFilePath reason) := by
  have hbody : Obeys Justifying (fun result after => ∀ message, result = .ok message →
      message.success = true → Accepted (rawFilePath.getD "") (reason.getD "") message after) []
      (RequestCoordinator.submitAsync host rawFilePath reason) := by
    have hfailed : ∀ id text message, (.ok (RequestCoordinator.failed id text) :
        Except ClrException PipeResponseMessage) = .ok message → message.success ≠ true := by
      rintro id text _ heq
      obtain rfl := Except.ok.inj heq
      exact Bool.false_ne_true
    have hrefused : ∀ {id text} {done : List Deed}, Obeys Justifying (fun result after => ∀ message,
        result = .ok message → message.success = true →
        Accepted (rawFilePath.getD "") (reason.getD "") message after) done
        (.pure (RequestCoordinator.failed id text)) :=
      .pure fun message heq hsuccess => absurd hsuccess (hfailed _ _ message heq)
    refine .ite (fun _ => hrefused) fun _ => .ite (fun _ => hrefused) fun _ => ?_
    refine (obeys_validate fun _ => trivial).bind ?_ fun _ _ _ => by simp
    intro outcome after hcanonical
    cases outcome with
    | invalid rejection =>
      exact Obeys.bind (obeys_within within_recordAsync fun _ _ => justifying_of_records)
        (fun _ _ _ => hrefused) fun _ _ _ => by simp
    | valid canonicalPath =>
      dsimp only
      refine .ite (fun _ => hrefused) fun _ => .perform trivial fun s found => ?_
      exact .ite (fun _ => hrefused) fun _ => obeys_submitFile (hcanonical _ rfl)
  rw [map_eq_pure_bind]
  exact hbody.bind (fun message _ h => .pure (h message rfl)) fun _ _ _ => trivial

/-- A status that is answered was looked up. -/
private theorem obeys_getStatus {id : Option String} :
    Obeys Justifying (Answered (.getStatus id)) []
      (.response <$> RequestCoordinator.getStatus id) := by
  unfold RequestCoordinator.getStatus
  split
  · exact .pure fun h => by contradiction
  · cases id with
    | none => exact .throw trivial
    | some requestId =>
      refine .perform trivial fun before tracked => ?_
      cases tracked with
      | none => exact .pure fun h => by contradiction
      | some t => exact .pure fun _ => ⟨requestId, before, t, rfl, List.mem_cons_self, rfl⟩

end Protocol

section Store

variable {host : Host} {accepts : Tid → Call → Bool}

/-- Every call keeps to the protocol, and what is answered was looked up. -/
theorem honors_answered :
    (system host accepts).Honors (fun _ => Justifying) Answered := by
  have htrivial : ∀ {call : Call} {program : Service Answer},
      (∀ rawFilePath reason, call ≠ .submit rawFilePath reason) → (∀ id, call ≠ .getStatus id) →
      Abides Justifying program → Obeys Justifying (Answered call) [] program := by
    intro call program hsubmit hstatus h
    refine (h []).mono fun result done _ => ?_
    cases call with
    | submit rawFilePath reason => exact absurd rfl (hsubmit rawFilePath reason)
    | getStatus id => exact absurd rfl (hstatus id)
    | _ => exact True.intro
  intro i call program hprogram
  simp only [system] at hprogram
  split at hprogram
  · obtain rfl := Option.some.inj hprogram
    cases call with
    | pollingWorker ticks =>
      refine htrivial (by simp) (by simp) (Abides.map (abides_worker_of_polls (fun done o ho => ?_)
        fun credential sinceUtc => abides_pollOnceAsync_of_received (fun _ _ _ _ => trivial)
          (fun _ => trivial) fun _ _ => obeys_handleDecisionAsync))
      cases o <;> first | exact True.intro | exact ho.elim
    | submit rawFilePath reason => exact obeys_submitAsync
    | getStatus id => exact obeys_getStatus
    | execute token requestId rawPath deviceId =>
      exact htrivial (by simp) (by simp)
        (Abides.of_within within_executeAsync fun _ _ => justifying_of_executes).map
    | validate token deviceId requestId hash =>
      refine htrivial (by simp) (by simp) (Abides.of_within within_validateAsync fun done o ho => ?_).map
      cases o <;> first | exact True.intro | exact ho.elim
  · contradiction

/-- There is a reason for a status in what a thread has done. -/
def Grounded (log : List (Moment Op Res Tid Event State)) (requestId : String)
    (status : RequestStatus) : Prop :=
  ∃ i older, older <:+ log ∧ Shows (mine i older) requestId status

/-- There is a reason for every status in the store, and for every status that was looked up. -/
structure AllGrounded (r : Record) : Prop where
  tracked : ∀ id t, r.state.requests id = some t → Grounded r.log id t.status
  looked : ∀ i before id t, .performed i ⟨before, .getValueOrDefault id, some t⟩ ∈ r.log →
    Grounded r.log id t.status

variable {s s' : State} {log : List (Moment Op Res Tid Event State)} {moment : Moment Op Res Tid Event State}

private theorem Grounded.cons {id : String} {status : RequestStatus} (h : Grounded log id status) :
    Grounded (moment :: log) id status := by
  obtain ⟨i, older, holder, hshows⟩ := h
  exact ⟨i, older, holder.trans (List.suffix_cons _ _), hshows⟩

/-- A step after which every status has a reason, and which looks nothing else up. -/
private theorem AllGrounded.step (h : AllGrounded ⟨s, log⟩)
    (htracked : ∀ id t, s'.requests id = some t → Grounded (moment :: log) id t.status)
    (hlooked : ∀ i before id t, moment = .performed i ⟨before, .getValueOrDefault id, some t⟩ →
      s.requests id = some t) : AllGrounded ⟨s', moment :: log⟩ where
  tracked := htracked
  looked i before id t hmem := by
    rcases List.mem_cons.mp hmem with heq | hmem
    · exact (h.tracked id t (hlooked i before id t heq.symm)).cons
    · exact (h.looked i before id t hmem).cons

/-- A step that leaves the store. -/
private theorem AllGrounded.quiet (h : AllGrounded ⟨s, log⟩)
    (hrequests : ∀ id t, s'.requests id = some t → s.requests id = some t)
    (hlooked : ∀ i before id t, moment = .performed i ⟨before, .getValueOrDefault id, some t⟩ →
      s.requests id = some t) : AllGrounded ⟨s', moment :: log⟩ :=
  h.step (fun id t ht => (h.tracked id t (hrequests id t ht)).cons) hlooked

/-- An operation changes the store only by setting an entry, or the status of an entry. -/
theorem Effect.requests_or {o : Op} (h : Effect s o s') {id : String} {t : TrackedRequest}
    (ht : s'.requests id = some t) : s.requests id = some t ∨ o = .setItem id t ∨
      o = .addOrUpdate id t.status ∧ ∃ t', s.requests id = some t' := by
  cases h with
  | setItem requestId request =>
    by_cases hid : id = requestId
    · subst hid
      simp only [State.setRequest, Function.update_self, Option.some.injEq] at ht
      exact Or.inr (Or.inl (by rw [ht]))
    · exact Or.inl (by simpa [State.setRequest, hid] using ht)
  | @addOrUpdate requestId existing status hexisting =>
    by_cases hid : id = requestId
    · subst hid
      simp only [State.setRequest, Function.update_self, Option.some.injEq] at ht
      exact Or.inr (Or.inr ⟨by rw [← ht], existing, hexisting⟩)
    · exact Or.inl (by simpa [State.setRequest, hid] using ht)
  | insertNonce nonce =>
    rw [State.insertNonce] at ht
    split at ht <;> exact Or.inl ht
  | _ => exact Or.inl ht

/-- Every step keeps the reasons. -/
private theorem preserved_allGrounded :
    Preserved (system host accepts) .free (fun _ => Justifying) AllGrounded where
  perform i call o choice answer s s' log h hallowed _ hperform := by
    have hlooked : ∀ j before id t, (Moment.performed i ⟨s, o, answer⟩ : Moment Op Res Tid Event State) =
        .performed j ⟨before, .getValueOrDefault id, some t⟩ → s.requests id = some t := by
      intro j before id t heq
      cases heq
      exact perform_getValueOrDefault hperform
    refine h.step (fun id t ht => ?_) hlooked
    obtain hold | rfl | ⟨rfl, -⟩ := (perform_effect hperform).requests_or ht
    · exact (h.tracked id t hold).cons
    · have hpending : t.status = .pending := hallowed
      rw [hpending]
      exact ⟨i, log, List.suffix_cons _ _, .pending⟩
    · exact ⟨i, log, List.suffix_cons _ _, hallowed⟩
  stop i s log h := h.quiet (fun _ _ ht => ht) (by simp)
  reset s s' log h hreset := by
    obtain rfl := Option.some.inj hreset
    exact h.quiet (fun _ _ ht => by contradiction) (by simp)
  env event s s' log h _ henv :=
    h.quiet (fun id t ht => env_requests henv ▸ ht) (by simp)

variable {labels : List (Label Tid Choice Event Call)}
  {c : Config Op Res ClrException Answer Tid Call Record}

/-- Every run keeps the reasons, if the requests of its first state are pending. -/
theorem allGrounded_run (hstart : ∀ id t, s.requests id = some t → t.status = .pending)
    (hrun : ((system host accepts).recorded .free).run labels (System.init ⟨s, []⟩) = some c) :
    Honoring (fun _ => Justifying) Answered c ∧ AllGrounded c.shared := by
  refine honored_run honors_answered preserved_allGrounded (honoring_init _) ?_ hrun
  refine ⟨fun id t ht => ?_, fun i before id t hmem => by contradiction⟩
  rw [hstart id t ht]
  exact ⟨0, [], List.suffix_refl _, .pending⟩

/-- A response to a submission that has succeeded. -/
theorem accepted_of_thread (hhonoring : Honoring (fun _ => Justifying) Answered c) {i : Tid}
    {rawFilePath reason : Option String} {message : PipeResponseMessage}
    (hthread : c.thread i = some (.submit rawFilePath reason, .pure (.response message)))
    (hsuccess : message.success = true) :
    Accepted (rawFilePath.getD "") (reason.getD "") message (mine i c.shared.log) := by
  cases hhonoring i _ _ hthread with
  | pure haccepted => exact haccepted hsuccess

/-- A status that was answered was looked up by the thread. -/
theorem looked_of_thread (hhonoring : Honoring (fun _ => Justifying) Answered c) {i : Tid}
    {id : Option String} {message : PipeResponseMessage}
    (hthread : c.thread i = some (.getStatus id, .pure (.response message)))
    (hsuccess : message.success = true) : ∃ requestId before t, id = some requestId ∧
      (⟨before, .getValueOrDefault requestId, some t⟩ : Deed) ∈ mine i c.shared.log ∧
      message = ⟨true, some requestId, some t.status.name, none⟩ := by
  cases hhonoring i _ _ hthread with
  | pure hanswered => exact hanswered hsuccess

/-- A response to a query of a status that has succeeded. -/
theorem grounded_of_thread (hhonoring : Honoring (fun _ => Justifying) Answered c)
    (hgrounded : AllGrounded c.shared) {i : Tid} {id : Option String} {message : PipeResponseMessage}
    (hthread : c.thread i = some (.getStatus id, .pure (.response message)))
    (hsuccess : message.success = true) : ∃ requestId status, id = some requestId ∧
      message = ⟨true, some requestId, some status.name, none⟩ ∧
      Grounded c.shared.log requestId status := by
  obtain ⟨requestId, before, t, hid, hmem, hmessage⟩ := looked_of_thread hhonoring hthread hsuccess
  exact ⟨requestId, t.status, hid, hmessage,
    hgrounded.looked i before requestId t (mem_log_of_mem_mine hmem)⟩

/-- In every run there is a reason for every status in the store and for every status that the service
answers with, and every request that it accepts is in the store and has reached the backend. -/
theorem status_justified (hstart : ∀ id t, s.requests id = some t → t.status = .pending)
    (hrun : ((system host accepts).recorded .free).run labels (System.init ⟨s, []⟩) = some c) :
    (∀ id t, c.shared.state.requests id = some t → Grounded c.shared.log id t.status) ∧
    (∀ i id message, c.thread i = some (.getStatus id, .pure (.response message)) →
      message.success = true → ∃ requestId status, id = some requestId ∧
        message = ⟨true, some requestId, some status.name, none⟩ ∧
        Grounded c.shared.log requestId status) ∧
    ∀ i rawFilePath reason message,
      c.thread i = some (.submit rawFilePath reason, .pure (.response message)) →
      message.success = true →
      Accepted (rawFilePath.getD "") (reason.getD "") message (mine i c.shared.log) := by
  obtain ⟨hhonoring, hgrounded⟩ := allGrounded_run hstart hrun
  exact ⟨hgrounded.tracked, fun i id message => grounded_of_thread hhonoring hgrounded,
    fun i rawFilePath reason message => accepted_of_thread hhonoring⟩

end Store

namespace Sample

/-- The worker receives the decision and waits for the process. Then the tray asks for the status. -/
def statusShown : List (Label Tid Choice Event Call) :=
  launching ++ List.replicate 6 (.perform 0 .unit) ++
    [.spawn 1 (.getStatus (some "request")), .perform 1 .unit]

/-- The request that a thread was asked about, and what it has answered. -/
def answered (c : Config Op Res ClrException Answer Tid Call Record) (i : Tid) :
    Option (Option String × PipeResponseMessage) :=
  match c.thread i with
  | some (.getStatus id, .pure (.response message)) => some (id, message)
  | _ => none

theorem thread_of_answered {c : Config Op Res ClrException Answer Tid Call Record} {i : Tid}
    {id : Option String} {message : PipeResponseMessage} (h : answered c i = some (id, message)) :
    c.thread i = some (.getStatus id, .pure (.response message)) := by
  unfold answered at h
  split at h
  · next heq =>
    obtain ⟨rfl, rfl⟩ := Prod.mk.inj (Option.some.inj h)
    exact heq
  · contradiction

end Sample

/-- The tray is told that the request is approved, and there is a reason for it. -/
theorem status_justified_sample : ∃ c,
    ((system Sample.verifier serviceCalls).recorded .free).run Sample.statusShown
      (System.init ⟨Sample.submitted, []⟩) = some c ∧
    c.thread 1 = some (.getStatus (some "request"),
      .pure (.response ⟨true, some "request", some "Approved", none⟩)) ∧
    Grounded c.shared.log "request" .approved := by
  have hrun : ((((system Sample.verifier serviceCalls).recorded .free).run Sample.statusShown
      (System.init ⟨Sample.submitted, []⟩)).map fun c => Sample.answered c 1) =
        some (some (some "request", ⟨true, some "request", some "Approved", none⟩)) := by
    decide +kernel
  obtain ⟨c, hc, hanswered⟩ := Option.map_eq_some_iff.mp hrun
  have hthread := Sample.thread_of_answered hanswered
  have hstart : ∀ id t, Sample.submitted.requests id = some t → t.status = .pending := by
    intro id t ht
    simp only [Sample.submitted] at ht
    split at ht
    · obtain rfl := Option.some.inj ht
      rfl
    · cases ht
  obtain ⟨requestId, status, hid, hmessage, hgrounded⟩ :=
    (status_justified hstart hc).2.1 1 _ _ hthread rfl
  obtain rfl := Option.some.inj hid
  have hstatus : status = .approved := by
    have hname := (PipeResponseMessage.mk.inj hmessage).2.2.1
    cases status <;> simp [RequestStatus.name] at hname ⊢
  exact ⟨c, hc, hthread, hstatus ▸ hgrounded⟩

end ElevateGate.Agent
