import ElevateGate.Agent.Cycles
import ElevateGate.Agent.Outcomes
import ElevateGate.Approval.Delivery
import ElevateGate.Approval.Lookup

/-!
# What comes of the decisions

The agent tracks a request under the text of its identifier without hyphens, and the decisions that it is
given name the request with hyphens. So the agent finds no request for any decision: it starts no process,
and all that the tray is ever told of a request is that it is pending, or that it could not be sent.
-/

namespace ElevateGate

open Interaction Time

namespace Agent

/-- The protocol of the executions: a process is started for a request that a decision was received for
and that was found. -/
def Heeding (done : List Deed) : Op → Prop
  | .startProcess _ authority => ∃ decision before tracked, Received done decision ∧
    decision.requestId = some authority.expectedRequestId ∧
    (⟨before, .getValueOrDefault authority.expectedRequestId, some tracked⟩ : Deed) ∈ done
  | _ => True

/-- The operations that start no process for any other request. -/
def Op.StartsFor (requestId : String) : Op → Prop
  | .startProcess _ authority => authority.expectedRequestId = requestId
  | _ => True

section Executions

variable {host : Host} {done : List Deed} {credential : DeviceCredential} {requestId : String}

private theorem startsFor_of_records {o : Op} (h : o.Records) : o.StartsFor requestId := by
  cases o with
  | startProcess => exact h.elim
  | _ => trivial

private theorem startsFor_of_executes {token : ApprovalToken} {deviceId : String} {o : Op}
    (h : o.Executes token requestId deviceId) : o.StartsFor requestId := by
  cases o with
  | startProcess => exact h.2.1
  | _ => trivial

/-- A process is started for a decision that was received, when its request is found. -/
private theorem heeding_handleDecisionAsync {decision : ApprovalDecision}
    (hreceived : Received done decision) :
    Obeys Heeding (fun _ after => done <:+ after) done
      (ApprovalPollingWorker.handleDecisionAsync host credential decision) := by
  cases hid : decision.requestId with
  | none =>
    simp only [ApprovalPollingWorker.handleDecisionAsync, hid]
    exact .throw (List.suffix_refl _)
  | some requestId =>
    simp only [ApprovalPollingWorker.handleDecisionAsync, hid]
    refine .op_bind trivial fun before tracked => ?_
    have hlooked := List.suffix_cons (⟨before, .getValueOrDefault requestId, tracked⟩ : Deed) done
    cases tracked with
    | none => exact .pure hlooked
    | some tracked =>
      refine (Obeys.of_within (S := Op.StartsFor requestId) ?_ fun new o _ ho => ?_).mono ?_
      · refine (within_recordAsync.mono fun _ => startsFor_of_records).bind fun _ => ?_
        cases decision.status with
        | denied => exact within_updateStatus trivial
        | expired => exact within_updateStatus trivial
        | approved =>
          exact within_handleApprovedAsync (fun _ => trivial) (fun _ => startsFor_of_records)
            fun _ _ => startsFor_of_executes
        | pending => exact .pure
        | failed => exact .pure
      · cases o with
        | startProcess startInfo authority =>
          obtain rfl : authority.expectedRequestId = requestId := ho
          have hsuffix := List.suffix_append new
            (⟨before, .getValueOrDefault authority.expectedRequestId, some tracked⟩ :: done)
          exact ⟨decision, before, tracked, hreceived.mono (hlooked.trans hsuffix), hid,
            hsuffix.subset List.mem_cons_self⟩
        | _ => exact True.intro
      · rintro _ _ ⟨new, rfl, -⟩
        exact hlooked.trans (List.suffix_append _ _)

/-- The service starts processes as it should. -/
theorem follows_heeding : (system host serviceCalls).Follows fun _ => Heeding := by
  intro i call program hprogram
  simp only [system] at hprogram
  split at hprogram
  · next haccepts =>
    obtain rfl := Option.some.inj hprogram
    cases call with
    | pollingWorker ticks =>
      refine (abides_worker_of_polls (fun done o ho => ?_)
        fun credential sinceUtc => abides_pollOnceAsync_of_received (fun _ _ _ _ => trivial)
          (fun _ => trivial) fun _ _ => heeding_handleDecisionAsync).map []
      cases o <;> first | exact True.intro | exact ho.elim
    | submit rawFilePath reason =>
      refine (Abides.of_within within_submitAsync fun done o ho => ?_).map []
      cases o <;> first | exact True.intro | exact ho.elim
    | getStatus requestId =>
      refine (Abides.of_within (within_getStatus (S := fun o => ∃ id, o = .getValueOrDefault id)
        fun id => ⟨id, rfl⟩) ?_).map []
      rintro done o ⟨id, rfl⟩
      trivial
    | execute token requestId rawPath deviceId => cases i <;> contradiction
    | validate token deviceId requestId hash => cases i <;> contradiction
  · contradiction

end Executions

end Agent

namespace Channel

section Runs

variable {site : Site} {a : Agent.State} {s : Backend.State} {w : World} {events : List Event}

/-- The decisions that the worker has received name their requests with hyphens. -/
private theorem requestId_of_received (hinit : s.Initial)
    (hrun : (World.init a s).run site events = some w) {i : Agent.Tid} {older : Agent.Log}
    {decision : Agent.ApprovalDecision} (holder : older <:+ w.agent.shared.log)
    (h : Agent.Received (mine i older) decision) :
    ∃ uuid : Uuid, decision.requestId = some uuid.textD := by
  obtain ⟨before, list, hmem, hdecision⟩ := h
  obtain ⟨d, hd, rfl⟩ := (World.sound_run hinit hrun).received i before list
    (holder.subset (mem_log_of_mem_mine hmem))
  obtain ⟨device, rows, first, -, -, -, -, -, -, hread⟩ := (World.sound_run hinit hrun).exact d hd
  obtain ⟨r, -, hid⟩ := requestId_of_read hread hdecision
  exact ⟨r.requestUuid, hid⟩

/-- What the agent tracks, it tracks without hyphens. -/
private theorem sourced_run (hempty : ∀ id, a.requests id = none)
    (hrun : (World.init a s).run site events = some w) :
    Agent.Sourced site.host.casing w.agent.shared := by
  obtain ⟨⟨labels, hagent⟩, -⟩ := exists_runs hrun
  exact (recorded_run Agent.follows_traced Agent.preserved_sourced (obedient_init _)
    (Agent.sourced_nil hempty) (run_free hagent)).2

/-- So a decision that was received is on no request that the agent tracks. -/
private theorem not_tracked (hempty : ∀ id, a.requests id = none) (hinit : s.Initial)
    (hrun : (World.init a s).run site events = some w) {i : Agent.Tid} {older : Agent.Log}
    {decision : Agent.ApprovalDecision} (holder : older <:+ w.agent.shared.log)
    (h : Agent.Received (mine i older) decision) {id path : String}
    (hid : decision.requestId = some id) : ¬ Agent.TrackedAs w.agent.shared.log id path := by
  intro htracked
  obtain ⟨uuid, huuid⟩ := requestId_of_received hinit hrun holder h
  obtain ⟨-, guid, -, hguid⟩ := (sourced_run hempty hrun).submittable id path htracked
  apply Uuid.textD_ne_textN uuid guid
  rw [← hguid]
  exact Option.some.inj (huuid.symm.trans hid)

/-- A request is pending, or it has failed because it could not be sent. -/
def Undecided (log : Agent.Log) (requestId : String) (status : Agent.RequestStatus) : Prop :=
  status = .pending ∨ status = .failed ∧
    ∃ i before error, .performed i ⟨before, .receiveSubmitted requestId, .error error⟩ ∈ log

/-- No other status has a reason. -/
private theorem undecided_of_grounded (hempty : ∀ id, a.requests id = none) (hinit : s.Initial)
    (hrun : (World.init a s).run site events = some w) {id path : String} {status : Agent.RequestStatus}
    (htracked : Agent.TrackedAs w.agent.shared.log id path)
    (hgrounded : Agent.Grounded w.agent.shared.log id status) :
    Undecided w.agent.shared.log id status := by
  obtain ⟨i, older, holder, hshows⟩ := hgrounded
  have hnone : ∀ decision, Agent.Received (mine i older) decision → decision.requestId ≠ some id :=
    fun decision hreceived hid => not_tracked hempty hinit hrun holder hreceived hid htracked
  cases hshows with
  | pending => exact .inl rfl
  | @approved base decision token hreceived hid hstatus htoken hran =>
    obtain ⟨before, before', startInfo, authority, later, hbase, hdone, -⟩ := hran
    have hlater := ((List.suffix_cons _ later).trans (List.suffix_cons _ _)).trans hdone
    exact absurd hid (hnone _ (hreceived.mono (hbase.trans hlater)))
  | denied hreceived hid hstatus => exact absurd hid (hnone _ hreceived)
  | expired hreceived hid hstatus => exact absurd hid (hnone _ hreceived)
  | unexecuted hreceived hid hstatus => exact absurd hid (hnone _ hreceived)
  | @unsent before error hmem =>
    exact .inr ⟨rfl, i, before, error, holder.subset (mem_log_of_mem_mine hmem)⟩

/-- No process is started. -/
private theorem not_started (hempty : ∀ id, a.requests id = none) (hinit : s.Initial)
    (hrun : (World.init a s).run site events = some w) {i : Agent.Tid} {before : Agent.State}
    {startInfo : Agent.ProcessStartInfo} {authority : Agent.Authority}
    {answer : Agent.Res (.startProcess startInfo authority)} :
    .performed i ⟨before, .startProcess startInfo authority, answer⟩ ∉ w.agent.shared.log := by
  intro hmem
  obtain ⟨⟨labels, hagent⟩, -⟩ := exists_runs hrun
  obtain ⟨newer, older, hlog⟩ := List.append_of_mem hmem
  have hsuffix : (.performed i ⟨before, .startProcess startInfo authority, answer⟩ :: older) <:+
      w.agent.shared.log := ⟨newer, hlog.symm⟩
  obtain ⟨-, call, decision, before', tracked, hreceived, hid, hfound⟩ :=
    Agent.throughout_run Agent.follows_heeding hagent i _ older hsuffix
  have holder := (List.suffix_cons _ older).trans hsuffix
  have htracked := (sourced_run hempty hrun).looked i before' authority.expectedRequestId tracked
    (holder.subset (mem_log_of_mem_mine hfound))
  exact not_tracked hempty hinit hrun holder hreceived hid htracked

/-- In no run does the agent start a process for a decision of the backend. The status of a request, in
the store and as the tray is told it, is pending, or failed where the request could not be sent. -/
theorem nothing_executed (hempty : ∀ id, a.requests id = none) (hinit : s.Initial)
    (hrun : (World.init a s).run site events = some w) :
    (∀ i before startInfo authority answer,
      .performed i ⟨before, .startProcess startInfo authority, answer⟩ ∉ w.agent.shared.log) ∧
    (∀ id t, w.agent.shared.state.requests id = some t →
      Undecided w.agent.shared.log id t.status) ∧
    ∀ i id message, w.agent.thread i = some (.getStatus id, .pure (.response message)) →
      message.success = true → ∃ requestId status, id = some requestId ∧
        message = ⟨true, some requestId, some status.name, none⟩ ∧
        Undecided w.agent.shared.log requestId status := by
  obtain ⟨⟨labels, hagent⟩, -⟩ := exists_runs hrun
  obtain ⟨hhonoring, hgrounded⟩ :=
    Agent.allGrounded_run (fun id t ht => absurd ((hempty id).symm.trans ht) (by simp)) (run_free hagent)
  have hsourced := sourced_run hempty hrun
  refine ⟨fun i before startInfo authority answer => not_started hempty hinit hrun, fun id t ht => ?_,
    fun i id message hthread hsuccess => ?_⟩
  · exact undecided_of_grounded hempty hinit hrun (hsourced.tracked id t ht) (hgrounded.tracked id t ht)
  · obtain ⟨requestId, before, t, hid, hmem, hmessage⟩ :=
      Agent.looked_of_thread hhonoring hthread hsuccess
    have hlooked := mem_log_of_mem_mine hmem
    exact ⟨requestId, t.status, hid, hmessage, undecided_of_grounded hempty hinit hrun
      (hsourced.looked i before requestId t hlooked) (hgrounded.looked i before requestId t hlooked)⟩

end Runs

namespace Sample

open Backend.Sample (order submission approval)

/-- The agent submits a file, an administrator approves the request, and the worker receives the decision
and looks its request up. -/
def unheeded : List Event :=
  Agent.Sample.submission.map .agent ++ received ++
    [.agent (.perform 0 .unit), .agent (.perform 0 .unit), .agent (.perform 0 .unit)]

/-- The status of the request at the backend and at the agent, and whether the worker has received the
decision. -/
def outcome (w : World) : Option (Backend.ElevationRequestStatus × Agent.RequestStatus × Bool) := do
  let r ← w.backend.shared.state.request 0
  let t ← w.agent.shared.state.requests r.requestUuid.textN
  return (r.status, t.status, w.deliveries.any fun d =>
    d.decisions.any fun decision => decide (decision.requestId = some r.requestUuid.textD))

/-- The request stays pending at the agent. -/
theorem run_unheeded :
    (start.run site unheeded).bind outcome = some (.approved, .pending, true) := by
  decide +kernel

end Sample

/-- A request is approved and its decision is received, and it stays pending: no process is started. -/
theorem nothing_executed_sample : ∃ w r t, Sample.start.run Sample.site Sample.unheeded = some w ∧
    w.backend.shared.state.request 0 = some r ∧ r.status = .approved ∧ w.Received r.requestUuid ∧
    w.agent.shared.state.requests r.requestUuid.textN = some t ∧ t.status = .pending ∧
    ∀ i before startInfo authority answer,
      .performed i ⟨before, .startProcess startInfo authority, answer⟩ ∉ w.agent.shared.log := by
  obtain ⟨w, hw, hpicture⟩ := Option.bind_eq_some_iff.mp Sample.run_unheeded
  obtain ⟨r, hr, hpicture⟩ := Option.bind_eq_some_iff.mp hpicture
  obtain ⟨t, ht, hpicture⟩ := Option.bind_eq_some_iff.mp hpicture
  obtain ⟨hstatus, hrest⟩ := Prod.mk.inj (Option.some.inj hpicture)
  obtain ⟨hpending, hany⟩ := Prod.mk.inj hrest
  obtain ⟨d, hd, hany⟩ := List.any_eq_true.mp hany
  obtain ⟨decision, hdecision, hid⟩ := List.any_eq_true.mp hany
  obtain ⟨before, hmem⟩ := (World.sound_run Backend.Sample.database_initial hw).delivered d hd
  refine ⟨w, r, t, hw, hr, hstatus, ⟨before, d.decisions, decision, hmem, hdecision, ?_⟩, ht, hpending,
    (nothing_executed (fun _ => rfl) Backend.Sample.database_initial hw).1⟩
  exact of_decide_eq_true hid

end Channel

end ElevateGate
