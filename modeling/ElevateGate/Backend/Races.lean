import ElevateGate.Backend.Responses

/-!
# Racing reviewers and consumers

Of all the calls that decide one request at most one is answered 200, and the audit trail names it. A
call that is refused has changed nothing, but that a stale request may have expired.
-/

namespace ElevateGate.Backend

open Interaction Time Text Handler

section Endpoints

variable {deployment : Deployment} {call : Call} {success : List Deed → Prop} {done : List Deed}
  {K : List Change → Prop} {α β : Type}

/-- Whether more deeds leave a success a success. -/
def Lasting (success : List Deed → Prop) : Prop :=
  ∀ deed done, success done → success (deed :: done)

/-- A transaction that decides nothing names nobody. -/
private theorem attributed_of_pending {r : ElevationRequest} {log : AuditLog}
    (h : r.status = .pending) : Attributed deployment call done [.log none log, .request none r] := by
  intro old r' hr' hdecided
  obtain ⟨-, rfl⟩ : old = none ∧ r' = r := by simpa using hr'
  rw [h] at hdecided
  exact absurd hdecided (by simp)

/-- Nor does one that writes no request. -/
private theorem attributed_of_none {list : List Change} (h : ∀ old r, .request old r ∉ list) :
    Attributed deployment call done list := fun old r hr => absurd hr (h old r)

/-- Nor does one that expires requests. -/
private theorem attributed_of_expires {list : List Change} (h : ∀ c ∈ list, Expires c) :
    Attributed deployment call done list := by
  intro old r hr hdecided
  obtain ⟨r0, r1, heq, -, hexpired, -⟩ := h _ hr
  obtain ⟨-, rfl⟩ := Change.request_inj.mp heq
  rw [hexpired] at hdecided
  exact absurd hdecided (by simp)

/-- Reloading a request only reads. -/
private theorem keeping_refresh (hlasting : Lasting success) (hsuccess : success done)
    (elevationRequestId : Nat) :
    Keeping deployment call success done (refreshElevationRequest elevationRequestId) := by
  refine keeping_quiet (o := .query) trivial fun before snapshot => ?_
  refine keeping_scalarOneOrNone (keeping_raise_other (by simp)) fun request _ => ?_
  refine keeping_scalarOneOrNone (keeping_raise_other (by simp)) fun device _ => ?_
  exact .pure (hlasting _ _ hsuccess)

/-- A dashboard-facing submission commits one. -/
private theorem keeping_submitElevationRequest (credentials : Option BasicCredentials)
    (body : ElevationRequestCreate) (admitted : Bool) :
    Keeping deployment (.submitElevationRequest credentials body admitted) (fun _ => True) []
      (submitElevationRequest deployment credentials body admitted) := by
  refine keeping_getCurrentDevice stage_nil fun device _ _ hstage1 _ _ => keeping_limit ?_
  refine keeping_now fun _ time => keeping_addSeconds fun expiresAt => ?_
  refine keeping_create (hstage1.quiet _ trivial) fun r done2 _ hstage2 => ?_
  refine keeping_writeAuditLog hstage2 fun _ _ hstage3 => ?_
  refine keeping_commit hstage3 ?_ fun _ => keeping_refresh (fun _ _ _ => trivial) trivial _
  rintro list ⟨log, _, rfl, ⟨_, rfl, rfl, hpending, -⟩, -, -, haction, -⟩
  exact Or.inl ⟨.submission hpending haction, attributed_of_pending hpending⟩

/-- The rows of a submission by the agent of a device that was read before. -/
def Submitted (earlier : State) (device : Device) (body : AgentApprovalRequest) (r : ElevationRequest)
    (list : List Change) : Prop :=
  ∃ log, list = [.log none log, .request none r] ∧ r.status = .pending ∧
    log.action = "elevation_request.submitted" ∧ earlier.device r.deviceId = some device ∧
    r.filename = body.fileName ∧ r.publisher = body.publisherCommonName

/-- A request that its submission has moved. -/
private theorem Updated.submitted {r r' : ElevationRequest} {newStatus : ElevationRequestStatus}
    {reviewedBy : Option Nat} {reviewedAt : Datetime} {list : List Change}
    (h : Updated .elevationRequests r.id (fun r => decide (ElevationRequest.status r = .pending))
      (ElevationRequestRepository.decided newStatus reviewedBy reviewedAt) done K r' list)
    (hK : ∀ list, K list → ∃ log, list = [.log none log, .request none r]) :
    ∃ log, list = [.request none r', .log none log, .request none r] ∧
      K [.log none log, .request none r] ∧
      r' = ElevationRequestRepository.decided newStatus reviewedBy reviewedAt r := by
  obtain ⟨s, r0, rest, rfl, rfl, hrest, -, -, -, hold⟩ := h
  obtain ⟨log, rfl⟩ := hK rest hrest
  have hlatest : latestRequest r.id [.log none log, .request none r] = some r := by simp
  rcases hold with ⟨hsome, hcom⟩ | ⟨hnone, -⟩
  · obtain rfl : r = r0 := Option.some.inj (hlatest.symm.trans hsome)
    refine ⟨log, ?_, hrest, rfl⟩
    rw [hcom none r (List.mem_cons_of_mem _ List.mem_cons_self) rfl]
    rfl
  · rw [latestRequest, hnone] at hlatest
    contradiction

/-- A submission has no allowlist entries of its own. -/
private theorem latest_entries {r : ElevationRequest} {log : AuditLog} (id : Nat) :
    latest .appAllowlistEntries id [.log none log, .request none r] = none :=
  (latest_cons_ne (by decide)).trans (latest_cons_ne (by decide))

/-- The requests of an automatic approval. -/
private theorem request_cases {old : Option ElevationRequest} {r r' r'' : ElevationRequest}
    {a : Approval} {log log' : AuditLog}
    (h : .request old r'' ∈ [Change.log none log', .approval none a, .request none r', .log none log,
      .request none r]) : r'' = r' ∨ r'' = r := by
  have hcases : old = none ∧ r'' = r' ∨ old = none ∧ r'' = r := by simpa using h
  exact hcases.imp And.right And.right

/-- Auto-approval adds the rows of a decision to those of the submission, or none. -/
private theorem keeping_tryAutoApprove {r : ElevationRequest} {device : Device} {earlier : State}
    {credentials : Option String} {body : AgentApprovalRequest} {admitted : Bool}
    {f : Unit → Handler β} (hcall : call = .agentSubmitRequest credentials body admitted)
    (hread : reads done = [earlier])
    (hdevice : device.deviceUuid = body.deviceId)
    (hstage : Stage deployment (Submitted earlier device body r) done)
    (h : ∀ done',
      Stage deployment (fun list => Transaction list ∧ Attributed deployment call done' list) done' →
      Keeping deployment call success done' (f ())) :
    Keeping deployment call success done (tryAutoApprove deployment r device >>= f) := by
  have hplain : ∀ done' K', Stage deployment K' done' →
      (∀ list, K' list → Submitted earlier device body r list) →
      Keeping deployment call success done' (f ()) := by
    refine fun done' K' hstage' hK => h done' (hstage'.mono fun list hlist => ?_)
    obtain ⟨log, rfl, hpending, haction, -⟩ := hK list hlist
    exact ⟨.submission hpending haction, attributed_of_pending hpending⟩
  rw [tryAutoApprove]
  split
  · exact hplain _ _ hstage fun _ => id
  · split
    · next publisher hpublisher =>
      rw [bind_assoc, AppAllowlistRepository.findMatch, bind_assoc]
      refine keeping_select fun before snapshot' => ?_
      have hstage1 := hstage.query before snapshot'
      refine keeping_scalarOneOrNone (hplain _ _ hstage1 fun _ => And.left) fun entry hentry => ?_
      obtain ⟨hmem, hmatch⟩ := List.mem_filter.mp (List.mem_of_mem_take hentry)
      simp only [bind_assoc]
      refine keeping_now fun before' time => ?_
      refine keeping_transitionStatus (hstage1.quiet ⟨before', .now, time⟩ trivial)
        (fun _ hstage2 => hplain _ _ hstage2 fun _ => And.left) ?_
      intro deed updated hstage2
      simp only [bind_assoc]
      refine keeping_issueApproval hstage2 fun a done3 hsuffix hstage3 => ?_
      refine keeping_writeAuditLog hstage3 fun _ _ hstage4 => h _ (hstage4.mono ?_)
      rintro list ⟨log', _, rfl, ⟨_, rfl, hupdated, hconsumed⟩, hactor, hid, haction', htype, htarget⟩
      obtain ⟨log, rfl, ⟨⟨log0, heq, hpending, haction, hearlier, hcolumns⟩, hrows⟩, rfl⟩ :=
        hupdated.submitted fun list hlist => hlist.1.imp fun log hlog => hlog.1
      obtain rfl : log = log0 := by simpa using heq
      have hentry' : before.com .appAllowlistEntries entry.id = some entry := by
        rcases hrows .appAllowlistEntries entry hmem with hlatest | ⟨-, hcom⟩
        · rw [latest_entries] at hlatest
          contradiction
        · exact hcom
      have habout : (Matter.decision r.id).IsAbout log' := ⟨htype, htarget, by simp [haction']⟩
      refine ⟨.autoApproval hpending haction rfl rfl hconsumed habout
        (Or.inr ⟨rfl, rfl, hactor, ⟨entry.id, hid⟩, haction'⟩), ?_⟩
      intro old r' hr' hdecided
      rcases request_cases hr' with rfl | rfl
      swap
      · rw [hpending] at hdecided
        exact absurd hdecided (by simp)
      subst hcall
      refine ⟨rfl, rfl, entry, log', ⟨hcolumns.1, hcolumns.2, earlier, before, snapshot', done, device,
        publisher, ?_, hread, hearlier, hdevice, hentry', hpublisher, hmatch⟩, by simp, habout, hid⟩
      have hquery : (⟨before, .query, snapshot'⟩ :: done) <:+ done3 :=
        List.IsSuffix.trans ⟨[deed, ⟨before', .now, time⟩], rfl⟩ hsuffix
      exact hquery.trans (List.suffix_cons _ _)
    · exact hplain _ _ hstage fun _ => id

/-- The agent's submission commits one, and its auto-approval if there is one. -/
private theorem keeping_agentSubmitRequest (credentials : Option String)
    (body : AgentApprovalRequest) (admitted : Bool) :
    Keeping deployment (.agentSubmitRequest credentials body admitted) (fun _ => True) []
      (agentSubmitRequest deployment credentials body admitted) := by
  refine keeping_getCurrentDeviceBearer stage_nil fun device before snapshot hdevice =>
    keeping_limit ?_
  have hstage1 : Stage deployment _ _ := stage_nil.query before snapshot
  split
  · exact keeping_httpError hstage1 _ _
  · next hbody =>
    refine keeping_now fun before' time => keeping_addSeconds fun expiresAt => ?_
    refine keeping_create (hstage1.quiet ⟨before', .now, time⟩ trivial)
      fun r done2 hreads hstage2 => ?_
    refine keeping_writeAuditLog hstage2 fun deed hquery hstage3 => ?_
    have hread : reads (deed :: done2) = [before] := (reads_cons_ne hquery).trans hreads
    have hstage4 : Stage deployment (Submitted before device body r) _ := hstage3.mono (by
      rintro list ⟨log, _, rfl, ⟨_, rfl, ⟨rfl, hrows⟩, hpending, hdeviceId, hfilename, hpublisher⟩,
        -, -, haction, -⟩
      refine ⟨log, rfl, hpending, haction, ?_, hfilename, hpublisher⟩
      rcases hrows .devices device hdevice with hlatest | ⟨-, hcom⟩
      · contradiction
      · rw [hdeviceId]
        exact hcom)
    refine keeping_tryAutoApprove rfl hread (not_not.mp hbody).symm hstage4 fun done4 hstage5 => ?_
    refine keeping_commit hstage5 (fun _ htransaction => Or.inl htransaction) fun _ => ?_
    exact .pure trivial

/-- A reviewer's look at a request: it goes on if the request is there to be decided, and a stale one
expires. -/
private theorem keeping_pendingRequest {elevationRequestId : Nat} {f : ElevationRequest → Handler β}
    (hstage : Stage deployment (· = []) done)
    (h : ∀ (r : ElevationRequest) done', r.id = elevationRequestId →
      Stage deployment (· = []) done' → Keeping deployment call success done' (f r)) :
    Keeping deployment call success done (pendingRequest elevationRequestId >>= f) := by
  simp only [pendingRequest, ElevationRequestRepository.getById, bind_assoc]
  refine keeping_select fun before snapshot => ?_
  have hstage1 := hstage.quiet ⟨before, .query, snapshot⟩ trivial
  refine keeping_scalarOneOrNone (keeping_httpError_bind hstage1 _ _ _) fun r hr => ?_
  obtain ⟨hmem, hid⟩ := List.mem_filter.mp hr
  dsimp only
  split
  · exact keeping_httpError_bind hstage1 _ _ _
  · simp only [rejectIfExpired, bind_assoc]
    refine keeping_now fun before' time => ?_
    have hstage2 := hstage1.quiet ⟨before', .now, time⟩ trivial
    split
    · next hstale =>
      simp only [bind_assoc]
      have hsaw : ∀ deed, Saw deployment (deed :: ⟨before', .now, time⟩ :: ⟨before, .query, snapshot⟩ ::
          done) r := fun deed => ⟨before, snapshot, done,
        (List.suffix_cons _ _).trans (List.suffix_cons _ _), hstage.knows, hmem⟩
      refine keeping_transitionStatus hstage2 (fun _ hstage3 => ?_) fun deed updated hstage3 => ?_
      · refine keeping_commit hstage3 (fun _ hnothing => Or.inr hnothing) fun _ => ?_
        exact keeping_raise_spares (hstage3.spares_commit fun _ hnothing => Or.inl hnothing) _
      · refine keeping_commit hstage3 ?_ fun _ => ?_
        · intro list hupdated
          obtain ⟨r0, rfl, hpending, -, rfl⟩ := hupdated.request
          have hexpires : ∀ c ∈ [Change.request (some r0) (ElevationRequestRepository.decided
              .expired none time r0)], Expires c := by
            intro c hc
            obtain rfl := List.mem_singleton.mp hc
            exact ⟨r0, _, rfl, hpending, rfl, rfl⟩
          exact Or.inl ⟨.expiry hexpires, attributed_of_expires hexpires⟩
        · refine keeping_raise_spares (hstage3.spares_commit fun list hupdated => ?_) _
          obtain ⟨r0, rfl, hpending, hkey, rfl⟩ := hupdated.request
          exact Or.inr ⟨r0, r, time, rfl, hpending,
            ⟨before', List.mem_cons_of_mem _ List.mem_cons_self⟩, hsaw deed, hkey.symm, hstale⟩
    · exact h r _ (of_decide_eq_true hid) hstage2

/-- The rows of a decision on a request by an administrator. -/
def DecidesAs (elevationRequestId : Nat) (status : ElevationRequestStatus) (adminId : Nat)
    (list : List Change) : Prop :=
  ∃ r, latestRequest elevationRequestId list = some r ∧ r.status = status ∧
    r.reviewedBy = some adminId

/-- The deeds of a reviewer whose token names an administrator and whose decision is committed. -/
def Decided (deployment : Deployment) (elevationRequestId : Nat) (status : ElevationRequestStatus)
    (credentials : Option String) (done : List Deed) : Prop :=
  ∃ token time adminId, credentials = some token ∧
    deployment.decodeAccessToken time token = some (some adminId) ∧
    Commits deployment (DecidesAs elevationRequestId status adminId) done

/-- Approving commits the decision, its approval and its audit row. -/
private theorem keeping_approveElevationRequest (elevationRequestId : Nat)
    (credentials : Option String) :
    Keeping deployment (.approveElevationRequest elevationRequestId credentials)
      (Decided deployment elevationRequestId .approved credentials) []
      (approveElevationRequest deployment elevationRequestId credentials) := by
  refine keeping_requireRole stage_nil fun admin _ token time hstage1 hcredentials hsubject => ?_
  refine keeping_pendingRequest hstage1 fun r _ hid hstage2 => ?_
  refine keeping_now fun _ time' => ?_
  refine keeping_transitionStatus (hstage2.quiet _ trivial)
    (fun _ hstage3 => keeping_httpError hstage3 _ _) fun _ updated hstage3 => ?_
  simp only [DeviceRepository.getById, bind_assoc]
  refine keeping_select fun before snapshot => ?_
  refine keeping_scalarOneOrNone (keeping_raise_other (by simp)) fun device _ => ?_
  refine keeping_issueApproval (hstage3.quiet ⟨before, .query, snapshot⟩ trivial)
    fun a _ _ hstage4 => ?_
  refine keeping_writeAuditLog hstage4 fun _ _ hstage5 => ?_
  refine keeping_commit hstage5 ?_ fun _ => keeping_refresh ?_ ?_ _
  · rintro list ⟨log, _, rfl, ⟨_, rfl, hupdated, hconsumed⟩, hactor, hactorId, haction, htype,
      htarget⟩
    obtain ⟨r0, rfl, hpending, hkey, rfl⟩ := hupdated.request
    refine Or.inl ⟨.approval hpending rfl rfl hconsumed ⟨htype, htarget, ?_⟩
      (Or.inl ⟨admin.id, rfl, hactor, hactorId, Or.inl ⟨rfl, haction⟩⟩), fun old r' hr' _ => ?_⟩
    · simp [haction]
    · obtain ⟨-, rfl⟩ : old = some r0 ∧
          r' = ElevationRequestRepository.decided .approved (some admin.id) time' r0 := by
        simpa using hr'
      exact ⟨hkey.trans hid, rfl, token, time, admin.id, hcredentials, hsubject, rfl⟩
  · rintro deed done ⟨token, time, adminId, hcredentials, hsubject, hcommits⟩
    exact ⟨token, time, adminId, hcredentials, hsubject, hcommits.cons⟩
  · refine ⟨token, time, admin.id, hcredentials, hsubject, ?_⟩
    refine (hstage5.mono ?_).commits
    rintro list ⟨log, _, rfl, ⟨_, rfl, hupdated, -⟩, -⟩
    obtain ⟨r0, rfl, -, hkey, rfl⟩ := hupdated.request
    have hkey' : r0.id = elevationRequestId := hkey.trans hid
    refine ⟨ElevationRequestRepository.decided .approved (some admin.id) time' r0, ?_, rfl, rfl⟩
    simp [ElevationRequestRepository.decided, hkey']

/-- Denying commits the decision and its audit row. -/
private theorem keeping_denyElevationRequest (elevationRequestId : Nat)
    (reason credentials : Option String) :
    Keeping deployment (.denyElevationRequest elevationRequestId reason credentials)
      (Decided deployment elevationRequestId .denied credentials) []
      (denyElevationRequest deployment elevationRequestId reason credentials) := by
  refine keeping_requireRole stage_nil fun admin _ token time hstage1 hcredentials hsubject => ?_
  refine keeping_pendingRequest hstage1 fun r _ hid hstage2 => ?_
  refine keeping_now fun _ time' => ?_
  refine keeping_transitionStatus (hstage2.quiet _ trivial)
    (fun _ hstage3 => keeping_httpError hstage3 _ _) fun _ updated hstage3 => ?_
  refine keeping_writeAuditLog hstage3 fun _ _ hstage4 => ?_
  refine keeping_commit hstage4 ?_ fun _ => keeping_refresh ?_ ?_ _
  · rintro list ⟨log, _, rfl, hupdated, hactor, hactorId, haction, htype, htarget⟩
    obtain ⟨r0, rfl, hpending, hkey, rfl⟩ := hupdated.request
    refine Or.inl ⟨.denial hpending rfl rfl ⟨htype, htarget, ?_⟩
      (Or.inl ⟨admin.id, rfl, hactor, hactorId, Or.inr ⟨rfl, haction⟩⟩), fun old r' hr' _ => ?_⟩
    · simp [haction]
    · obtain ⟨-, rfl⟩ : old = some r0 ∧
          r' = ElevationRequestRepository.decided .denied (some admin.id) time' r0 := by
        simpa using hr'
      exact ⟨hkey.trans hid, rfl, token, time, admin.id, hcredentials, hsubject, rfl⟩
  · rintro deed done ⟨token, time, adminId, hcredentials, hsubject, hcommits⟩
    exact ⟨token, time, adminId, hcredentials, hsubject, hcommits.cons⟩
  · refine ⟨token, time, admin.id, hcredentials, hsubject, ?_⟩
    refine (hstage4.mono ?_).commits
    rintro list ⟨log, _, rfl, hupdated, -⟩
    obtain ⟨r0, rfl, -, hkey, rfl⟩ := hupdated.request
    have hkey' : r0.id = elevationRequestId := hkey.trans hid
    refine ⟨ElevationRequestRepository.decided .denied (some admin.id) time' r0, ?_, rfl, rfl⟩
    simp [ElevationRequestRepository.decided, hkey']

/-- A stale request that a poll has moved. -/
private theorem Updated.stale {id deviceId : Nat} {now : Datetime} {r' : ElevationRequest}
    {list : List Change}
    (h : Updated .elevationRequests id (ElevationRequestRepository.isStale deviceId now)
      (fun r => { r with status := .expired, reviewedAt := some now : ElevationRequest }) done
      (fun list => ∀ c ∈ list, Expires c) r' list) : ∀ c ∈ list, Expires c := by
  obtain ⟨s, r, rest, rfl, rfl, hrest, hcondition, -, -, hold⟩ := h
  obtain ⟨-, hpending, -⟩ := of_decide_eq_true hcondition
  intro c hc
  rcases List.mem_cons.mp hc with rfl | hc
  · rcases hold with ⟨hlatest, -⟩ | ⟨-, hcom⟩
    · -- a request that was moved already is not stale
      obtain ⟨old, hmem⟩ := exists_of_latest hlatest
      obtain ⟨r1, r2, heq, -, hexpired, -⟩ := hrest _ hmem
      obtain ⟨-, -, hnew⟩ := Change.mk.inj heq
      obtain rfl : r = r2 := eq_of_heq hnew
      rw [hpending] at hexpired
      contradiction
    · refine ⟨r, { r with status := .expired, reviewedAt := some now }, ?_, hpending, rfl, rfl⟩
      rw [hcom]
      rfl
  · exact hrest c hc

/-- A poll commits the expiry of the stale requests of its device. -/
private theorem keeping_pollDecisions {device : Device} {since : Option Datetime}
    {f : List (ElevationRequest × Option Approval) → Handler β}
    (hstage : Stage deployment (· = []) done)
    (h : ∀ rows done', Keeping deployment call success done' (f rows)) :
    Keeping deployment call success done (pollDecisions device since >>= f) := by
  simp only [pollDecisions, ElevationRequestRepository.expireStalePendingRequestsForDevice, bind_assoc]
  refine keeping_now fun before time => ?_
  refine keeping_select fun before' snapshot => ?_
  have hstart : Stage deployment (fun list => ∀ c ∈ list, Expires c)
      (⟨before', .query, snapshot⟩ :: ⟨before, .now, time⟩ :: done) := by
    have hstage1 := hstage.quiet ⟨before, .now, time⟩ trivial
    refine (hstage1.quiet ⟨before', .query, snapshot⟩ trivial).mono ?_
    rintro list rfl
    simp
  refine Obeys.bind (Q := Ends deployment (Stage deployment fun list => ∀ c ∈ list, Expires c)) ?_
    (fun _ done' hstage' => ?_) fun _ _ hends => hends
  · refine Obeys.forEach (I := Stage deployment fun list => ∀ c ∈ list, Expires c) hstart ?_
      fun _ hstage' => hstage'
    intro r _ done' hstage'
    refine Obeys.mono (Q := Ends deployment (Stage deployment fun list => ∀ c ∈ list, Expires c))
      ?_ fun result _ hends => by cases result <;> exact hends
    exact keeping_updateWhere (f := fun _ => (pure () : Handler Unit)) hstage'
      (fun _ hstage'' => .pure hstage'')
      (fun _ r' hstage'' => .pure (hstage''.mono fun _ => Updated.stale))
  · refine keeping_commit hstage' (fun _ hlist => Or.inl ⟨.expiry hlist, attributed_of_expires hlist⟩)
      fun before'' => ?_
    simp only [ApprovalRepository.listDecisionsForDeviceSince, bind_assoc]
    exact keeping_quiet (o := .query) trivial fun _ snapshot' => h _ _

/-- The rows of a consumption of an approval of a device. -/
def Consumption (approvalId : Nat) (deviceUuid : Uuid) (list : List Change) : Prop :=
  ∃ a, latestApproval approvalId list = some a ∧ a.consumedAt ≠ none ∧ a.deviceUuid = deviceUuid

/-- The deeds of a device whose consumption of its own approval is committed. -/
def Consumed (deployment : Deployment) (approvalId : Nat) (credentials : Option BasicCredentials)
    (done : List Deed) : Prop :=
  ∃ device, Presented deployment credentials device ∧
    (∃ before snapshot, ⟨before, .query, snapshot⟩ ∈ done ∧ device ∈ snapshot.rows .devices) ∧
    Commits deployment (Consumption approvalId device.deviceUuid) done

/-- A consumed approval belongs to the device that it was seen to belong to. -/
private theorem Updated.consumed {approvalId : Nat} {time : Datetime} {before : State}
    {snapshot : Snapshot} {seen a' : Approval} {list : List Change}
    (hbefore : ∃ deed ∈ done, deed.before = before)
    (hseen : seen ∈ snapshot.rows .approvals) (hid : seen.id = approvalId)
    (h : Updated .approvals approvalId (fun a => (Approval.consumedAt a).isNone)
      (fun a => { a with consumedAt := some time : Approval }) done
      (fun list => list = [] ∧ ∀ t, ∀ r ∈ snapshot.rows t,
        latest t (t.id r) list = some r ∨
          (latest t (t.id r) list = none ∧ before.com t (t.id r) = some r)) a' list) :
    ∃ a : Approval, list = [.approval (some a) a'] ∧ a.consumedAt = none ∧ a.id = approvalId ∧
      a.deviceUuid = seen.deviceUuid ∧ a' = { a with consumedAt := some time } := by
  obtain ⟨s, a, rest, rfl, rfl, ⟨rfl, hrows⟩, hcondition, hkey, hevolves, hold⟩ := h
  obtain ⟨deed, hdeed, rfl⟩ := hbefore
  rcases hold with ⟨hlatest, -⟩ | ⟨-, hcom⟩
  · contradiction
  rcases hrows .approvals seen hseen with hlatest | ⟨-, hcommitted⟩
  · contradiction
  -- between the two statements only `consumed_at` may have changed
  obtain ⟨a1, ha1, hconsumes⟩ := (hevolves deed hdeed).approval seen.id seen hcommitted
  have hsame : a1 = a := by
    rw [hid, State.approval, hcom] at ha1
    exact (Option.some.inj ha1).symm
  subst hsame
  refine ⟨a1, by rw [hcom]; rfl, Option.isNone_iff_eq_none.mp hcondition, hkey, ?_, rfl⟩
  rw [hconsumes.columns]

/-- Consuming commits the consumption and its audit row. -/
private theorem keeping_markApprovalConsumed (approvalId : Nat)
    (credentials : Option BasicCredentials) (admitted : Bool) :
    Keeping deployment (.markApprovalConsumed approvalId credentials admitted)
      (Consumed deployment approvalId credentials) []
      (markApprovalConsumed deployment approvalId credentials admitted) := by
  refine keeping_getCurrentDevice stage_nil fun device earlier devices hstage1 hdevice hpresented =>
    keeping_limit ?_
  simp only [ApprovalRepository.getById, bind_assoc]
  refine keeping_select fun before snapshot => ?_
  have hstage2 := hstage1.query before snapshot
  refine keeping_scalarOneOrNone (keeping_httpError hstage2 _ _) fun seen hseen => ?_
  obtain ⟨hmem, hid⟩ := List.mem_filter.mp hseen
  have hid : seen.id = approvalId := of_decide_eq_true hid
  dsimp only
  split
  · exact keeping_httpError hstage2 _ _
  · next hown =>
    have hsame : seen.deviceUuid = device.deviceUuid := not_not.mp hown
    refine keeping_now fun before' time => ?_
    refine keeping_updateWhere (hstage2.quiet ⟨before', .now, time⟩ trivial)
      (fun _ hstage3 => keeping_httpError hstage3 _ _) fun _ a' hstage3 => ?_
    have hbefore : ∃ deed ∈ (⟨before', .now, time⟩ :: ⟨before, .query, snapshot⟩ ::
        [⟨earlier, .query, devices⟩] : List Deed),
        deed.before = before := ⟨⟨before, .query, snapshot⟩, by simp, rfl⟩
    refine keeping_writeAuditLog hstage3 fun _ _ hstage4 => ?_
    refine keeping_commit hstage4 ?_ fun _ => ?_
    · rintro list ⟨log, _, rfl, hupdated, hactor, hactorId, haction, htype, htarget⟩
      obtain ⟨a, rfl, hnone, hkey, huuid', rfl⟩ := hupdated.consumed hbefore hmem hid
      refine Or.inl ⟨.consumption hnone rfl (by simp) ⟨htype, ?_, haction⟩ ⟨hactor, ?_⟩,
        attributed_of_none (by simp)⟩
      · rw [htarget, hid, ← hkey]
      · rw [hactorId, ← hsame, ← huuid']
    · refine keeping_select fun before'' snapshot' => ?_
      refine keeping_scalarOneOrNone (keeping_raise_other (by simp)) fun refreshed _ => ?_
      refine .pure ⟨device, hpresented, ⟨earlier, devices, by simp, hdevice⟩, Commits.cons ?_⟩
      refine (hstage4.mono ?_).commits
      rintro list ⟨log, _, rfl, hupdated, -⟩
      obtain ⟨a, rfl, -, hkey, huuid', rfl⟩ := hupdated.consumed hbefore hmem hid
      exact ⟨{ a with consumedAt := some time }, by simp [hkey], by simp, huuid'.trans hsame⟩

/-- The dashboard-facing poll commits the expiry of stale requests. -/
private theorem keeping_getDecisions (since : Option Datetime)
    (credentials : Option BasicCredentials) (admitted : Bool) :
    Keeping deployment call (fun _ => True) []
      (getDecisions deployment since credentials admitted) := by
  refine keeping_getCurrentDevice stage_nil fun device _ _ hstage _ _ => keeping_limit ?_
  exact keeping_pollDecisions hstage fun rows _ => .pure trivial

/-- So does the agent's. -/
private theorem keeping_agentPollDecisions (deviceId : String) (since : Option Datetime)
    (credentials : Option String) (admitted : Bool) :
    Keeping deployment call (fun _ => True) []
      (agentPollDecisions deployment deviceId since credentials admitted) := by
  refine keeping_getCurrentDeviceBearer stage_nil fun device before snapshot _ => keeping_limit ?_
  have hnil : Stage deployment (· = []) [] := stage_nil
  have hstage := hnil.quiet ⟨before, .query, snapshot⟩ trivial
  split
  · exact keeping_httpError hstage _ _
  · exact keeping_pollDecisions hstage fun rows _ => .pure trivial

/-- What the deeds of a call show that is answered with success. -/
def Succeeded (deployment : Deployment) : Call → List Deed → Prop
  | .approveElevationRequest elevationRequestId credentials, done =>
    Decided deployment elevationRequestId .approved credentials done
  | .denyElevationRequest elevationRequestId _ credentials, done =>
    Decided deployment elevationRequestId .denied credentials done
  | .markApprovalConsumed approvalId credentials _, done =>
    Consumed deployment approvalId credentials done
  | _, _ => True

/-- Every endpoint keeps to the protocol. -/
private theorem keeping_endpoint (call : Call) :
    Keeping deployment call (Succeeded deployment call) [] (endpoint deployment call) := by
  cases call with
  | submitElevationRequest credentials body admitted =>
    exact keeping_map (keeping_submitElevationRequest credentials body admitted)
  | agentSubmitRequest credentials body admitted =>
    exact keeping_map (keeping_agentSubmitRequest credentials body admitted)
  | approveElevationRequest elevationRequestId credentials =>
    exact keeping_map (keeping_approveElevationRequest elevationRequestId credentials)
  | denyElevationRequest elevationRequestId reason credentials =>
    exact keeping_map (keeping_denyElevationRequest elevationRequestId reason credentials)
  | getDecisions since credentials admitted =>
    exact keeping_map (keeping_getDecisions since credentials admitted)
  | agentPollDecisions deviceId since credentials admitted =>
    exact keeping_map (keeping_agentPollDecisions deviceId since credentials admitted)
  | markApprovalConsumed approvalId credentials admitted =>
    exact keeping_map (keeping_markApprovalConsumed approvalId credentials admitted)

/-- A success stays one. -/
private theorem lasting_succeeded (call : Call) : Lasting (Succeeded deployment call) := by
  intro deed done h
  cases call with
  | approveElevationRequest elevationRequestId credentials =>
    obtain ⟨token, time, adminId, hcredentials, hsubject, hcommits⟩ := h
    exact ⟨token, time, adminId, hcredentials, hsubject, hcommits.cons⟩
  | denyElevationRequest elevationRequestId reason credentials =>
    obtain ⟨token, time, adminId, hcredentials, hsubject, hcommits⟩ := h
    exact ⟨token, time, adminId, hcredentials, hsubject, hcommits.cons⟩
  | markApprovalConsumed approvalId credentials admitted =>
    obtain ⟨device, hpresented, ⟨before, snapshot, hmem, hdevice⟩, hcommits⟩ := h
    exact ⟨device, hpresented, ⟨before, snapshot, List.mem_cons_of_mem _ hmem, hdevice⟩,
      hcommits.cons⟩
  | _ => trivial

/-- What the deeds of a call show that has been answered, whose session is closed. -/
def Answers (deployment : Deployment) (call : Call) (result : Except PyError Answer)
    (done : List Deed) : Prop :=
  Ends deployment (Succeeded deployment call) result done ∧ changes done = []

/-- Every call keeps to the protocol and ends as its endpoint does. -/
theorem system_honors (deployment : Deployment) :
    (system deployment).Honors (Committing deployment) (Answers deployment) := by
  intro i call program hprogram
  obtain rfl := Option.some.inj hprogram
  refine (keeping_endpoint call).finally_ fun result done hends => ?_
  refine .perform (fun heq => by contradiction) fun before answer => .pure ⟨?_, rfl⟩
  cases result with
  | ok value => exact lasting_succeeded call _ _ hends
  | error error => exact fun hrefusal => (hends hrefusal).close

end Endpoints

end ElevateGate.Backend
