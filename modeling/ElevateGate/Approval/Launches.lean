import ElevateGate.Approval.Authority

/-!
# One launch for one approval

The ledger lets every nonce through once, so whatever decisions the agent is given, however often
it restarts and however its threads interleave, a nonce starts at most one process. The backend
approves a request at most once, so a request starts at most one process too.
-/

namespace ElevateGate

open Interaction Time Text

/-- The payload of an approval that the backend has issued: its row is committed. -/
def Backend.State.Issued (deployment : Backend.Deployment) (s : Backend.State)
    (payload : List UInt8) : Prop :=
  ∃ aid a r, s.approval aid = some a ∧ s.request a.elevationRequestId = some r ∧
    Signing.buildCanonicalPayload deployment.casing a.deviceUuid.textD r.requestUuid.textD
      a.sha256.text a.expiresAt a.nonce = .ok payload

/-- The approvals of one request UUID are one approval. -/
private theorem approval_of_requestUuid {deployment : Backend.Deployment} {s : Backend.State}
    (hinv : Backend.Inv deployment s) {aid aid' : Nat} {a a' : Backend.Approval}
    {r r' : Backend.ElevationRequest} (ha : s.approval aid = some a)
    (ha' : s.approval aid' = some a') (hr : s.request a.elevationRequestId = some r)
    (hr' : s.request a'.elevationRequestId = some r') (huuid : r.requestUuid = r'.requestUuid) :
    a = a' := by
  have hid : a.elevationRequestId = a'.elevationRequestId := by
    by_contra hne
    have hclash := hinv.distinct .elevationRequests (Or.inl rfl) _ _ r r' hne (Or.inl hr)
      (Or.inl hr')
    simp only [Backend.Table.clash, decide_eq_false_iff_not] at hclash
    exact hclash huuid
  have hkey := hinv.linked.unique aid aid' a a' ha ha' hid
  rw [hkey, ha'] at ha
  exact (Option.some.inj ha).symm

namespace Agent

section Launches

variable {host : Host} {accepts : Tid → Call → Bool}

/-- A start for a request is a start. -/
private theorem start_of_isStartFor {requestId : String} {moment : Moment Op Res Tid Event State}
    (h : Moment.isDeed (isStartFor requestId) moment = true) :
    ∃ i before info authority, ∃ answer : Res (.startProcess info authority),
      moment = .performed i ⟨before, .startProcess info authority, answer⟩ ∧
        authority.expectedRequestId = requestId := by
  cases moment with
  | performed i deed =>
    obtain ⟨before, op, answer⟩ := deed
    cases op with
    | startProcess info authority =>
      exact ⟨i, before, info, authority, answer, rfl, of_decide_eq_true h⟩
    | _ => exact absurd h (by simp [Moment.isDeed, isStartFor])
  | _ => exact absurd h (by simp [Moment.isDeed])

/-- A log with evidence for every start: the starts for one request are starts for the nonce of its
one approval. -/
private theorem nonce_of_requestId {deployment : Backend.Deployment} {s : Backend.State}
    {r : Recorded Op Res Tid Event State} (hinv : Backend.Inv deployment s)
    (hrecounted : Recounted host r)
    (hunforgeable : ∀ message signature, host.verify message signature = true →
      s.Issued deployment message) {requestId : String} {i j : Tid} {before before' : State}
    {info info' : ProcessStartInfo} {authority authority' : Authority}
    {answer : Res (.startProcess info authority)} {answer' : Res (.startProcess info' authority')}
    (hstart : .performed i ⟨before, .startProcess info authority, answer⟩ ∈ r.log)
    (hstart' : .performed j ⟨before', .startProcess info' authority', answer'⟩ ∈ r.log)
    (hrequest : authority.expectedRequestId = requestId)
    (hrequest' : authority'.expectedRequestId = requestId) :
    authority.token.nonce = authority'.token.nonce := by
  have hissued : ∀ {k : Tid} {before : State} {info : ProcessStartInfo} {authority : Authority}
      {answer : Res (.startProcess info authority)},
      .performed k ⟨before, .startProcess info authority, answer⟩ ∈ r.log →
      ∃ aid a row, s.approval aid = some a ∧ s.request a.elevationRequestId = some row ∧
        row.requestUuid.textD = authority.expectedRequestId ∧
        authority.token.nonce = some a.nonce := by
    intro k before info authority answer hmem
    obtain ⟨e, done, -, hchecked⟩ := hrecounted.evidence k before info authority answer hmem
    obtain ⟨payload, hbuild, hverify⟩ := hchecked.signature
    obtain ⟨aid, a, row, ha, hrow, hpayload⟩ := hunforgeable payload _ hverify
    obtain ⟨-, hrequestId, hnonce, -⟩ := fields_of_payload hbuild hpayload
    exact ⟨aid, a, row, ha, hrow,
      Option.some.inj (hrequestId.symm.trans hchecked.requestId), hnonce⟩
  obtain ⟨aid, a, row, ha, hrow, huuid, hnonce⟩ := hissued hstart
  obtain ⟨aid', a', row', ha', hrow', huuid', hnonce'⟩ := hissued hstart'
  have hsame : row.requestUuid = row'.requestUuid :=
    Uuid.textD_injective (by rw [huuid, huuid', hrequest, hrequest'])
  rw [hnonce, hnonce', approval_of_requestUuid hinv ha ha' hrow hrow' hsame]

/-- At most one launch: in every run a nonce has at most one valid outcome and starts at most one
process, and a request starts at most one process. -/
theorem at_most_one_launch {s : State} {labels : List (Label Tid Choice Event Call)}
    {c : Config Op Res ClrException Answer Tid Call (Recorded Op Res Tid Event State)}
    {deployment : Backend.Deployment} {database : Backend.State}
    {backendLabels : List (Label Backend.Sid Backend.Choice Backend.Event Backend.Call)}
    {backend : Config Backend.Op Backend.Res PyError Backend.Answer Backend.Sid Backend.Call
      Backend.State}
    (hrun : ((system host accepts).recorded .free).run labels (System.init ⟨s, []⟩) = some c)
    (hinitial : database.Initial)
    (hbackend : (Backend.system deployment).run backendLabels (System.init database) = some backend)
    (hunforgeable : ∀ message signature, host.verify message signature = true →
      backend.shared.Issued deployment message) :
    (∀ nonce, c.shared.log.countP (Moment.isDeed (isValid nonce)) ≤ 1 ∧
      c.shared.log.countP (Moment.isDeed (isStart nonce)) ≤ 1) ∧
    ∀ requestId, c.shared.log.countP (Moment.isDeed (isStartFor requestId)) ≤ 1 := by
  obtain ⟨-, hrecounted⟩ := recounted_run hrun
  have hinv := (Backend.reachable_inv hinitial hbackend
    (show (Backend.system deployment).run [] _ = _ from rfl)).1
  have hvalid : ∀ nonce, c.shared.log.countP (Moment.isDeed (isValid nonce)) ≤ 1 := by
    intro nonce
    have hinserted := hrecounted.inserted nonce
    have hle := (hrecounted.valid nonce).countP_le
    split at hinserted <;> omega
  have hstart : ∀ nonce, c.shared.log.countP (Moment.isDeed (isStart nonce)) ≤ 1 := fun nonce =>
    Nat.le_trans (hrecounted.started nonce).countP_le (hvalid nonce)
  refine ⟨fun nonce => ⟨hvalid nonce, hstart nonce⟩, fun requestId => ?_⟩
  by_contra hmany
  obtain ⟨moment, hmem, hfor⟩ := List.countP_pos_iff.mp (show 0 < c.shared.log.countP
    (Moment.isDeed (isStartFor requestId)) by omega)
  obtain ⟨i, before, info, authority, answer, rfl, hrequest⟩ := start_of_isStartFor hfor
  obtain ⟨e, done, -, hchecked⟩ := hrecounted.evidence i before info authority answer hmem
  -- every other start for the request is a start for the same nonce
  refine hmany (Nat.le_trans (List.countP_mono_left ?_) (hstart e.nonce))
  intro moment hmem' hfor'
  obtain ⟨j, before', info', authority', answer', rfl, hrequest'⟩ := start_of_isStartFor hfor'
  have hnonce := nonce_of_requestId hinv hrecounted hunforgeable hmem' hmem hrequest' hrequest
  exact decide_eq_true (hnonce.trans hchecked.nonce)

end Launches

namespace Sample

open Backend.Sample (deviceUuid requestUuid deployment)

/-- The token is executed, the service restarts, and the token is replayed. -/
def replay : List (Label Tid Choice Event Call) :=
  execution ++ [.perform 1 .unit, .reset,
    .spawn 1 (.execute token requestUuid.textD path deviceUuid.textD),
    .perform 1 (.drive .fixed)] ++ List.replicate 6 (.perform 1 .unit)

/-- A computation that has a value has succeeded with it. -/
private theorem ok_of_toOption {ε α : Type} {x : Except ε α} {a : α} (h : x.toOption = some a) :
    x = .ok a := by
  cases x with
  | error e => contradiction
  | ok b => rw [Option.some.inj h]

/-- The backend has issued the approval that the host accepts. -/
theorem run_issued :
    ∃ backend, (Backend.system deployment).run
        (Backend.Sample.submission ++ Backend.Sample.approval)
        (System.init Backend.Sample.database) = some backend ∧
      ∀ message signature', host.verify message signature' = true →
        backend.shared.Issued deployment message := by
  have hrun : ((Backend.system deployment).run
      (Backend.Sample.submission ++ Backend.Sample.approval)
      (System.init Backend.Sample.database)).bind (fun c => (c.shared.approval 0).bind fun a =>
        (c.shared.request a.elevationRequestId).bind fun r =>
          (Signing.buildCanonicalPayload deployment.casing a.deviceUuid.textD r.requestUuid.textD
            a.sha256.text a.expiresAt a.nonce).toOption) = some payload := by
    decide +kernel
  obtain ⟨backend, hbackend, hrows⟩ := Option.bind_eq_some_iff.mp hrun
  obtain ⟨a, ha, hrows⟩ := Option.bind_eq_some_iff.mp hrows
  obtain ⟨r, hr, hbuild⟩ := Option.bind_eq_some_iff.mp hrows
  refine ⟨backend, hbackend, fun message signature' hverify => ?_⟩
  obtain rfl : message = payload := by
    simp only [Host.verify, host, Bool.and_eq_true, decide_eq_true_eq] at hverify
    exact hverify.2.1
  exact ⟨0, a, r, ha, hr, ok_of_toOption hbuild⟩

end Sample

/-- The replayed token starts no second process. -/
theorem at_most_one_launch_sample :
    ∃ c, ((system Sample.host anyCall).recorded .free).run Sample.replay
        (System.init ⟨Sample.state, []⟩) = some c ∧
      c.shared.log.countP (Moment.isDeed (isStart Sample.nonce)) = 1 ∧
      ∀ requestId, c.shared.log.countP (Moment.isDeed (isStartFor requestId)) ≤ 1 := by
  have hreplay : (((system Sample.host anyCall).recorded .free).run Sample.replay
      (System.init ⟨Sample.state, []⟩)).map
        (fun c => c.shared.log.countP (Moment.isDeed (isStart Sample.nonce))) = some 1 := by
    decide +kernel
  obtain ⟨c, hrun, hcount⟩ := Option.map_eq_some_iff.mp hreplay
  obtain ⟨backend, hbackend, hunforgeable⟩ := Sample.run_issued
  exact ⟨c, hrun, hcount, (at_most_one_launch hrun Backend.Sample.database_initial hbackend
    hunforgeable).2⟩

end Agent

end ElevateGate
