import ElevateGate.Agent.Statuses
import ElevateGate.Approval.Lookup

/-!
# A status other than pending is final

Nothing in the state store compares the old status of a request with the new one. A status is final
in the runs in which the submission and the worker keep out of each other's way, and not in others.
-/

namespace ElevateGate.Agent

open Interaction Time Text

section Runs

variable {host : Host}

/-- Where the two writers keep out of each other's way, a status other than pending never changes,
and no process is started for a request that was denied, expired or failed. -/
theorem terminal_status_final {s : State} {first rest : List (Label Tid Choice Event Call)}
    {c c' : Config Op Res ClrException Answer Tid Call Record}
    (hstart : ∀ id, s.requests id = none)
    (hfirst : (guarded host).run first (System.init ⟨s, []⟩) = some c)
    (hrest : (guarded host).run rest c = some c') :
    (∀ id t t', c.shared.state.requests id = some t → t.status ≠ .pending →
        c'.shared.state.requests id = some t' → t'.status = t.status) ∧
      ∀ i before startInfo authority, ∀ answer : Res (.startProcess startInfo authority),
        .performed i ⟨before, .startProcess startInfo authority, answer⟩ ∈ c'.shared.log →
        ∀ t, before.requests authority.expectedRequestId = some t →
          t.status ≠ .denied ∧ t.status ≠ .expired ∧ t.status ≠ .failed := by
  have hinit : Tracked ⟨s, []⟩ :=
    { added := fun id t ht => absurd (ht.symm.trans (hstart id)) (by simp)
      drawn := fun i guid ⟨before, hmem⟩ => by contradiction
      unique := fun i j guid ⟨before, hmem⟩ => by contradiction
      keyed := fun id ⟨i, before, request, answer, hmem⟩ => by contradiction
      started := fun i before info authority answer hmem => by contradiction }
  obtain ⟨hgood, -⟩ := (valid_discipline host).run (Discipline.good_init hinit) hfirst
  obtain ⟨hgood', hfinal⟩ := (valid_discipline host).run hgood hrest
  constructor
  · intro id t t' ht hstatus ht'
    obtain ⟨t₀, ht₀, hkept⟩ := (hfinal id (hgood.inv.added id t ht)).2 t' ht'
    obtain rfl := Option.some.inj (ht.symm.trans ht₀)
    exact hkept hstatus
  · intro i before startInfo authority answer hmem t ht
    have hallowed := hgood'.inv.started i before startInfo authority answer hmem t ht
    simpa [RequestStatus.Refuses] using hallowed

end Runs

/-! ## A lost response -/

namespace Sample

open Backend.Sample (noon deviceUuid requestUuid emptyDigest)

/-- The submission of the file, whose response is lost. -/
def lostSubmission : List (Label Tid Choice Event Call) :=
  [.spawn 2 (.submit path "installation"), .perform 2 (.drive .fixed)] ++
    List.replicate 9 (.perform 2 .unit) ++ [.perform 2 (.guid requestUuid)] ++
    List.replicate 3 (.perform 2 .unit) ++
    [.perform 2 (.fail (.httpRequest "The response ended prematurely.")), .perform 2 .unit]

/-- The worker polls a decision. -/
def poll (decision : ApprovalDecision) : List (Label Tid Choice Event Call) :=
  .spawn 0 (.pollingWorker 0) :: List.replicate 4 (.perform 0 .unit) ++
    [.perform 0 (.decisions [decision])]

/-- The payload of an approval under the text of the identifier that the agent tracks. -/
def trackedPayload : List UInt8 :=
  (Signing.buildCanonicalPayload .ascii deviceUuid.textD requestUuid.textN emptyDigest.text
    expiresAt nonce).toOption.getD []

/-- A host that accepts its signature. -/
def trackedHost : Host :=
  { host with verifySignature := fun _ message _ => decide (message = trackedPayload) }

/-- The approval of the request. -/
def approved : ApprovalDecision where
  requestId := requestUuid.textN
  status := .approved
  token := some { token with requestId := requestUuid.textN }

/-- An approval without a token, which the worker takes for a failure. -/
def tokenless : ApprovalDecision := { approved with token := none }

/-- The submission fails, and then the worker handles the approval of the request that the backend
has stored all the same. -/
def lateApproval : List (Label Tid Choice Event Call) :=
  poll approved ++ List.replicate 3 (.perform 0 .unit) ++ [.perform 0 (.drive .fixed)] ++
    List.replicate 10 (.perform 0 .unit)

/-- The status of the request. -/
def statusOf (c : Config Op Res ClrException Answer Tid Call Record) : Option RequestStatus :=
  (c.shared.state.requests requestUuid.textN).map TrackedRequest.status

/-- Whether a deed has started a process for the request, which had failed. -/
def startsFailed : Deed → Bool
  | ⟨before, .startProcess _ authority, .ok true⟩ =>
    decide (authority.expectedRequestId = requestUuid.textN) &&
      decide ((before.requests requestUuid.textN).map TrackedRequest.status = some .failed)
  | _ => false

end Sample

/-- The submission whose response is lost fails, and stays so when a decision without a token is
polled. -/
theorem terminal_status_final_sample :
    ∃ c c' t t', (guarded Sample.host).run Sample.lostSubmission
        (System.init ⟨Sample.state, []⟩) = some c ∧
      (guarded Sample.host).run (Sample.poll Sample.tokenless ++ List.replicate 4
        (.perform 0 .unit)) c = some c' ∧
      c.shared.state.requests Backend.Sample.requestUuid.textN = some t ∧ t.status = .failed ∧
      c'.shared.state.requests Backend.Sample.requestUuid.textN = some t' ∧
      t'.status = t.status := by
  have hrun : (((guarded Sample.host).run Sample.lostSubmission
      (System.init ⟨Sample.state, []⟩)).bind fun c => (Sample.statusOf c).bind fun status =>
        ((guarded Sample.host).run (Sample.poll Sample.tokenless ++ List.replicate 4
          (.perform 0 .unit)) c).bind fun c' => (Sample.statusOf c').map fun _ => status) =
      some .failed := by
    decide +kernel
  obtain ⟨c, hc, hrun⟩ := Option.bind_eq_some_iff.mp hrun
  obtain ⟨status, hstatus, hrun⟩ := Option.bind_eq_some_iff.mp hrun
  obtain ⟨c', hc', hrun⟩ := Option.bind_eq_some_iff.mp hrun
  obtain ⟨status', hstatus', rfl⟩ := Option.map_eq_some_iff.mp hrun
  obtain ⟨t, ht, hfailed⟩ := Option.map_eq_some_iff.mp hstatus
  obtain ⟨t', ht', -⟩ := Option.map_eq_some_iff.mp hstatus'
  refine ⟨c, c', t, t', hc, hc', ht, hfailed, ht', ?_⟩
  have hfinal := (terminal_status_final (fun _ => rfl) hc hc').1
  exact hfinal _ t t' ht (by rw [hfailed]; simp) ht'

/-- A request whose submission has failed is approved: its process is started while its status is
failed, and then the status changes. -/
theorem failed_request_started :
    ∃ c c', ((system Sample.trackedHost serviceCalls).recorded .free).run Sample.lostSubmission
        (System.init ⟨Sample.state, []⟩) = some c ∧ Sample.statusOf c = some .failed ∧
      ((system Sample.trackedHost serviceCalls).recorded .free).run Sample.lateApproval c =
        some c' ∧ Sample.statusOf c' = some .approved ∧
      c'.shared.log.any (Moment.isDeed Sample.startsFailed) = true := by
  have hrun : ((((system Sample.trackedHost serviceCalls).recorded .free).run Sample.lostSubmission
      (System.init ⟨Sample.state, []⟩)).bind fun c => (((system Sample.trackedHost
        serviceCalls).recorded .free).run Sample.lateApproval c).map fun c' =>
          (Sample.statusOf c, Sample.statusOf c',
            c'.shared.log.any (Moment.isDeed Sample.startsFailed))) =
      some (some .failed, some .approved, true) := by
    decide +kernel
  obtain ⟨c, hc, hrun⟩ := Option.bind_eq_some_iff.mp hrun
  obtain ⟨c', hc', heq⟩ := Option.map_eq_some_iff.mp hrun
  obtain ⟨hstatus, hrest⟩ := Prod.mk.inj heq
  obtain ⟨hstatus', hstarted⟩ := Prod.mk.inj hrest
  exact ⟨c, c', hc, hstatus, hc', hstatus', hstarted⟩

end ElevateGate.Agent
