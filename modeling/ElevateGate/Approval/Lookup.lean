import ElevateGate.Agent.Effects
import ElevateGate.Agent.Operations
import ElevateGate.Approval.Launches
import ElevateGate.Approval.Wire

/-!
# Looking a decision up

The agent tracks a request under the text of its identifier without hyphens. The backend reads that
text as a UUID and answers with hyphens. The two texts are never equal, so the agent finds no
request for any decision that it is given.
-/

namespace ElevateGate

open Interaction Time Text

namespace Agent

/-- The identifiers of requests are texts without hyphens, both in the state store and in what was
sent. -/
structure Keyed (r : Recorded Op Res Tid Event State) : Prop where
  tracked : ∀ id t, r.state.requests id = some t → ∃ guid : Uuid, id = guid.textN
  sent : ∀ i before bearerToken request answer,
    .performed i ⟨before, .sendRequest bearerToken request, answer⟩ ∈ r.log →
    ∃ guid : Uuid, request.requestId = guid.textN

/-- What the operations have to keep to. -/
def Op.Keys : Op → Prop
  | .setItem requestId _ => ∃ guid : Uuid, requestId = guid.textN
  | .sendRequest _ request => ∃ guid : Uuid, request.requestId = guid.textN
  | _ => True

section Runs

variable {host : Host} {accepts : Tid → Call → Bool}

/-- Every call keeps to it. -/
private theorem follows_keys : (system host accepts).Follows fun _ _ o => o.Keys := by
  refine follows_of_ops ?_ ?_ ?_
  · intro o ho
    cases o <;> first | exact ho | exact True.intro
  · intro o ho
    cases o <;> first | exact True.intro | exact ho.elim
  · intro token requestId deviceId o ho
    cases o <;> first | exact True.intro | exact ho.elim

/-- An entry of the state store is an old one, or the operation has set it. -/
private theorem tracked_step {s s' : State} {op : Op} (heffect : Effect s op s') (hkeys : op.Keys)
    (h : ∀ id t, s.requests id = some t → ∃ guid : Uuid, id = guid.textN) {id : String}
    {t : TrackedRequest} (ht : s'.requests id = some t) : ∃ guid : Uuid, id = guid.textN := by
  cases heffect with
  | setItem requestId request =>
    by_cases hid : id = requestId
    · rw [hid]
      exact hkeys
    · exact h id t (by simpa [State.setRequest, hid] using ht)
  | @addOrUpdate requestId existing status hexisting =>
    by_cases hid : id = requestId
    · rw [hid]
      exact h requestId existing hexisting
    · exact h id t (by simpa [State.setRequest, hid] using ht)
  | insertNonce nonce =>
    rw [State.insertNonce] at ht
    split at ht <;> exact h id t ht
  | _ => exact h id t ht

/-- Every step keeps the identifiers. -/
private theorem preserved_keyed :
    Preserved (system host accepts) .free (fun _ _ o => o.Keys) Keyed where
  perform i call op choice answer s s' log h hkeys _ hperform :=
    { tracked := fun _ _ ht => tracked_step (perform_effect hperform) hkeys h.tracked ht
      sent := by
        intro j before bearerToken request ans hmem
        rcases List.mem_cons.mp hmem with heq | hmem
        · obtain ⟨rfl, hdeed⟩ := Moment.performed.inj heq
          cases hdeed
          exact hkeys
        · exact h.sent j before bearerToken request ans hmem }
  stop i s log h :=
    { tracked := h.tracked
      sent := fun j _ _ _ _ hmem => h.sent j _ _ _ _ ((List.mem_cons.mp hmem).resolve_left (by simp)) }
  reset s s' log h hreset :=
    { tracked := by
        obtain rfl := Option.some.inj hreset
        exact fun _ _ ht => by contradiction
      sent := fun j _ _ _ _ hmem => h.sent j _ _ _ _ ((List.mem_cons.mp hmem).resolve_left (by simp)) }
  env event s s' log h _ henv :=
    { tracked := fun id t ht => h.tracked id t (env_requests henv ▸ ht)
      sent := fun j _ _ _ _ hmem => h.sent j _ _ _ _ ((List.mem_cons.mp hmem).resolve_left (by simp)) }

/-- Before the first request there is no identifier. -/
private theorem keyed_nil {s : State} (h : ∀ id, s.requests id = none) : Keyed ⟨s, []⟩ where
  tracked id t ht := absurd (ht.symm.trans (h id)) (by simp)
  sent _ _ _ _ _ hmem := by contradiction

/-- For no request that the agent has submitted does a decision of the backend find it: the decision
names the UUID of the request, under a text that no tracked request has. -/
theorem decision_not_found {s : State} {labels : List (Label Tid Choice Event Call)}
    {c : Config Op Res ClrException Answer Tid Call (Recorded Op Res Tid Event State)} {i : Tid}
    {before : State} {bearerToken : String} {request : ApprovalRequest}
    {answer : Res (.sendRequest bearerToken request)} {r : Backend.ElevationRequest}
    (hrun : ((system host accepts).recorded .free).run labels (System.init ⟨s, []⟩) = some c)
    (hstart : ∀ id, s.requests id = none)
    (hsent : .performed i ⟨before, .sendRequest bearerToken request, answer⟩ ∈ c.shared.log)
    (hstored : Uuid.parse request.requestId = some r.requestUuid) (dates : JsonDates)
    (approval : Option Backend.Approval) :
    ∃ decision id, ApprovalDecision.ofJson dates
        ((Backend.AgentApprovalDecision.ofRows (r, approval)).toJson dates) = some decision ∧
      decision.requestId = some id ∧ Uuid.parse id = Uuid.parse request.requestId ∧
      id ≠ request.requestId ∧ c.shared.state.requests id = none := by
  have hkeyed : Keyed c.shared :=
    (recorded_run follows_keys preserved_keyed (obedient_init _) (keyed_nil hstart) hrun).2
  obtain ⟨guid, hguid⟩ := hkeyed.sent i before bearerToken request answer hsent
  obtain ⟨decision, hdecision, hid, -⟩ := ofJson_decision dates (r, approval)
  refine ⟨decision, r.requestUuid.textD, hdecision, hid, ?_, ?_, ?_⟩
  · rw [Uuid.parse_textD, hstored]
  · rw [hguid]
    exact Uuid.textD_ne_textN _ _
  · rw [Option.eq_none_iff_forall_ne_some]
    intro t ht
    obtain ⟨guid', hguid'⟩ := hkeyed.tracked _ t ht
    exact Uuid.textD_ne_textN _ _ hguid'

end Runs

namespace Sample

open Backend.Sample (requestUuid)

/-- The steps of the submission of the file, for which `requestUuid` is drawn. -/
def submission : List (Label Tid Choice Event Call) :=
  [.spawn 2 (.submit path "installation"), .perform 2 (.drive .fixed)] ++
    List.replicate 9 (.perform 2 .unit) ++ [.perform 2 (.guid requestUuid)] ++
    List.replicate 6 (.perform 2 .unit)

/-- The request that is sent. -/
def request : ApprovalRequest where
  requestId := requestUuid.textN
  deviceId := state.credential.deviceId
  file :=
    { fileName := "setup.exe"
      fullPath := path
      sizeBytes := 0
      fileVersion := none
      sha256Hex := "e3b0c44298fc1c149afbf4c8996fb92427ae41e4649b934ca495991b7852b855" }
  signature := ⟨.trusted, none, none⟩
  reason := "installation"
  requestedAtUtc := state.clock

/-- Whether a deed has sent the request. -/
def isRequest : Deed → Bool
  | ⟨_, .sendRequest _ request', _⟩ => decide (request' = request)
  | _ => false

/-- Such a deed is in the log. -/
theorem sent_of_isRequest {log : Log} (h : log.any (Moment.isDeed isRequest) = true) :
    ∃ i before bearerToken, ∃ answer : Res (.sendRequest bearerToken request),
      .performed i ⟨before, .sendRequest bearerToken request, answer⟩ ∈ log := by
  obtain ⟨moment, hmem, hmoment⟩ := List.any_eq_true.mp h
  cases moment with
  | performed i deed =>
    obtain ⟨before, op, answer⟩ := deed
    cases op with
    | sendRequest bearerToken request' =>
      obtain rfl : request' = request := of_decide_eq_true hmoment
      exact ⟨i, before, bearerToken, answer, hmem⟩
    | _ => exact absurd hmoment (by simp [Moment.isDeed, isRequest])
  | _ => exact absurd hmoment (by simp [Moment.isDeed])

/-- The agent sends the request and tracks it, under the text without hyphens alone. -/
theorem run_submission :
    ∃ c, ((system host anyCall).recorded .free).run submission (System.init ⟨state, []⟩) = some c ∧
      c.shared.log.any (Moment.isDeed isRequest) = true ∧
      (c.shared.state.requests requestUuid.textN).map TrackedRequest.status = some .pending ∧
      c.shared.state.requests requestUuid.textD = none := by
  have hrun : (((system host anyCall).recorded .free).run submission
      (System.init ⟨state, []⟩)).map (fun c => (c.shared.log.any (Moment.isDeed isRequest),
        (c.shared.state.requests requestUuid.textN).map TrackedRequest.status,
        c.shared.state.requests requestUuid.textD)) = some (true, some .pending, none) := by
    decide +kernel
  obtain ⟨c, hc, heq⟩ := Option.map_eq_some_iff.mp hrun
  obtain ⟨hsent, hrest⟩ := Prod.mk.inj heq
  obtain ⟨htracked, hmissing⟩ := Prod.mk.inj hrest
  exact ⟨c, hc, hsent, htracked, hmissing⟩

/-- The backend has approved the request under the UUID that it has read. -/
theorem run_approved :
    ∃ backend a r, (Backend.system Backend.Sample.deployment).run
        (Backend.Sample.submission ++ Backend.Sample.approval)
        (System.init Backend.Sample.database) = some backend ∧
      backend.shared.approval 0 = some a ∧ backend.shared.request a.elevationRequestId = some r ∧
      r.requestUuid = requestUuid ∧ r.status = .approved := by
  have hrun : ((Backend.system Backend.Sample.deployment).run
      (Backend.Sample.submission ++ Backend.Sample.approval)
      (System.init Backend.Sample.database)).bind (fun c => (c.shared.approval 0).bind fun a =>
        (c.shared.request a.elevationRequestId).map fun r => (r.requestUuid, r.status)) =
      some (requestUuid, .approved) := by
    decide +kernel
  obtain ⟨backend, hbackend, hrows⟩ := Option.bind_eq_some_iff.mp hrun
  obtain ⟨a, ha, hrows⟩ := Option.bind_eq_some_iff.mp hrows
  obtain ⟨r, hr, heq⟩ := Option.map_eq_some_iff.mp hrows
  obtain ⟨huuid, hstatus⟩ := Prod.mk.inj heq
  exact ⟨backend, a, r, hbackend, ha, hr, huuid, hstatus⟩

end Sample

/-- The decision on the request of the run is such a decision. -/
theorem decision_not_found_sample :
    ∃ c r approval decision id, ((system Sample.host anyCall).recorded .free).run Sample.submission
        (System.init ⟨Sample.state, []⟩) = some c ∧
      ApprovalDecision.ofJson .iso
        ((Backend.AgentApprovalDecision.ofRows (r, approval)).toJson .iso) = some decision ∧
      decision.requestId = some id ∧ c.shared.state.requests id = none := by
  obtain ⟨c, hrun, hsent, -⟩ := Sample.run_submission
  obtain ⟨i, before, bearerToken, answer, hmem⟩ := Sample.sent_of_isRequest hsent
  obtain ⟨backend, a, r, -, -, -, huuid, -⟩ := Sample.run_approved
  have hstored : Uuid.parse Sample.request.requestId = some r.requestUuid := by
    rw [huuid]
    exact Uuid.parse_textN _
  obtain ⟨decision, id, hdecision, hid, -, -, hmissing⟩ :=
    decision_not_found hrun (fun _ => rfl) hmem hstored .iso (some a)
  exact ⟨c, r, some a, decision, id, hrun, hdecision, hid, hmissing⟩

/-- A request is pending at the agent and approved at the backend, and the decision that the agent
polls names no request that it tracks. -/
theorem approved_decision_lost :
    ∃ c backend a r decision tracked,
      ((system Sample.host anyCall).recorded .free).run Sample.submission
        (System.init ⟨Sample.state, []⟩) = some c ∧
      c.shared.log.any (Moment.isDeed Sample.isRequest) = true ∧
      c.shared.state.requests Sample.request.requestId = some tracked ∧ tracked.status = .pending ∧
      (Backend.system Backend.Sample.deployment).run
        (Backend.Sample.submission ++ Backend.Sample.approval)
        (System.init Backend.Sample.database) = some backend ∧
      backend.shared.approval 0 = some a ∧ backend.shared.request a.elevationRequestId = some r ∧
      Uuid.parse Sample.request.requestId = some r.requestUuid ∧ r.status = .approved ∧
      ApprovalDecision.ofJson .iso
        ((Backend.AgentApprovalDecision.ofRows (r, some a)).toJson .iso) = some decision ∧
      decision.requestId.bind c.shared.state.requests = none := by
  obtain ⟨c, hrun, hsent, htracked, hmissing⟩ := Sample.run_submission
  obtain ⟨tracked, htracked, hpending⟩ := Option.map_eq_some_iff.mp htracked
  obtain ⟨backend, a, r, hbackend, ha, hr, huuid, hstatus⟩ := Sample.run_approved
  obtain ⟨decision, hdecision, hid, -⟩ := ofJson_decision .iso (r, some a)
  refine ⟨c, backend, a, r, decision, tracked, hrun, hsent, htracked, hpending, hbackend, ha, hr,
    ?_, hstatus, hdecision, ?_⟩
  · rw [huuid]
    exact Uuid.parse_textN _
  · rw [hid, huuid]
    exact hmissing

end Agent

end ElevateGate
