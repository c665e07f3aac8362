import ElevateGate.Backend.Consistency
import ElevateGate.Backend.Transactions

/-!
# Review windows

A request is decided before its deadline and expires at or after it. The deadline of a request never
changes. What expires a request compares the very time that it writes with the deadline; what decides
one compares an earlier reading of the clock and writes a second one.
-/

namespace ElevateGate.Backend

open Interaction Time Text Handler

/-- A request was decided before its deadline. -/
def ElevationRequest.Timely (r : ElevationRequest) : Prop :=
  r.status = .approved ∨ r.status = .denied → ∃ time, r.reviewedAt = some time ∧ time < r.expiresAt

/-- A request has expired at or after its deadline. -/
def ElevationRequest.Overdue (r : ElevationRequest) : Prop :=
  r.status = .expired → ∃ time, r.reviewedAt = some time ∧ r.expiresAt ≤ time

section Deadlines

variable {deployment : Deployment} {sign : List UInt8 → List UInt8} {i : Sid} {s s' s'' : State}
  {op : Op} {answer : Res op} {id : Nat} {r r' : ElevationRequest}

/-- The request that an operation writes. -/
inductive Writes (i : Sid) (s : State) : Op → Nat → ElevationRequest → Prop
  | update {id : Nat} {assign : Row ⟨.elevationRequests, id⟩ → Option (Row ⟨.elevationRequests, id⟩)}
      {row row' : Row ⟨.elevationRequests, id⟩}
      (hview : s.db.view i ⟨.elevationRequests, id⟩ = some row) (hassign : assign row = some row') :
      Writes i s (.update ⟨.elevationRequests, id⟩ assign) id row'.record
  | insert {make : (id : Nat) → Datetime → Row ⟨.elevationRequests, id⟩} :
      Writes i s (.insert .elevationRequests make) (s.nextId .elevationRequests)
        (make (s.nextId .elevationRequests) (s.txNow i)).record

/-- The version of a request after an operation was there before, or was written. -/
theorem Effect.version (h : Effect sign i s op answer s') (hinv : Inv deployment s)
    (hr : s'.Version .elevationRequests id r) :
    s.Version .elevationRequests id r ∨ Writes i s op id r := by
  cases h with
  | @hit t id' assign row row' hview hassign hfree =>
    rcases version_written hr with hr | ⟨ht, rfl, hrecord⟩
    · exact .inl hr
    · subst ht
      obtain rfl : r = row'.record := hrecord
      exact .inr (.update hview hassign)
  | @inserted t make hviolates =>
    rcases version_written hr with hr | ⟨ht, rfl, hrecord⟩
    · exact .inl hr
    · subst ht
      obtain rfl : r = _ := hrecord
      exact .inr .insert
  | commit =>
    rcases hr with hcom | ⟨j, hown⟩
    · rcases com_commit_cases hinv hcom with hown | hcom
      · exact .inl (.inr ⟨i, hown⟩)
      · exact .inl (.inl hcom.2)
    · exact .inl (.inr ⟨j, own_of_dropDirty rfl hown⟩)
  | close =>
    rcases hr with hcom | ⟨j, hown⟩
    · exact .inl (.inl hcom)
    · exact .inl (.inr ⟨j, own_of_dropDirty rfl hown⟩)
  | _ => exact .inl hr

/-- What happens to the requests while nobody writes one. -/
structure Retains (s s' : State) : Prop where
  nextId : s.nextId .elevationRequests ≤ s'.nextId .elevationRequests
  version : ∀ id r, s'.Version .elevationRequests id r → s.Version .elevationRequests id r

theorem Retains.refl (s : State) : Retains s s := ⟨Nat.le_refl _, fun _ _ h => h⟩

theorem Retains.trans (h : Retains s s') (h' : Retains s' s'') : Retains s s'' :=
  ⟨Nat.le_trans h.nextId h'.nextId, fun id r hr => h.version id r (h'.version id r hr)⟩

/-- A session that stops drops its versions. -/
theorem retains_rollback (i : Sid) (s : State) : Retains s (s.rollback i) where
  nextId := Nat.le_refl _
  version id r hr := by
    rcases hr with hcom | ⟨j, hown⟩
    · exact .inl hcom
    · exact .inr ⟨j, own_of_dropDirty rfl hown⟩

/-- So does a crash. -/
theorem retains_crash (s : State) : Retains s s.crash where
  nextId := Nat.le_refl _
  version id r hr := by
    rcases hr with hcom | ⟨j, hown⟩
    · exact .inl hcom
    · obtain ⟨row, hrow, -⟩ := State.own_eq_some.mp hown
      contradiction

/-- Other transactions change no request. -/
private theorem retains_maintain {k : Key} {version : Option (Row k)}
    (h : maintainable s k version = true) : Retains s (s.maintain k version) where
  nextId := by
    by_cases hk : Table.elevationRequests = k.table
    · simp [State.maintain, hk]
    · simp [State.maintain, Function.update_of_ne hk]
  version id r hr := by
    refine hr.imp (fun hcom => ?_) fun hown => hown
    rwa [com_maintain] at hcom
    rintro rfl
    exact (maintainable_spec h).2.1 rfl

/-- No event writes a request. -/
theorem retains_env {event : Event} (h : env event s = some s') : Retains s s' := by
  cases event with
  | advance clock =>
    simp only [env] at h
    split at h
    · obtain rfl := Option.some.inj h
      exact ⟨Nat.le_refl _, fun _ _ hr => hr⟩
    · contradiction
  | maintain k version =>
    simp only [env] at h
    split at h
    · next hmaintainable =>
      obtain rfl := Option.some.inj h
      exact retains_maintain hmaintainable
    · contradiction
  | transact rows =>
    exact transact_induction (R := Retains) .refl .trans (fun _ _ _ h => retains_maintain h) h

/-- The versions of a request agree on its deadline. -/
def State.Agrees (s : State) : Prop :=
  ∀ id r r', s.Version .elevationRequests id r → s.Version .elevationRequests id r' →
    r.expiresAt = r'.expiresAt

/-- Requests keep their deadlines from one state to a later one. -/
structure Carries (s s' : State) : Prop where
  agrees : s.Agrees
  nextId : s.nextId .elevationRequests ≤ s'.nextId .elevationRequests
  version : ∀ id r', s'.Version .elevationRequests id r' →
    s.nextId .elevationRequests ≤ id ∨
      ∃ r, s.Version .elevationRequests id r ∧ r.expiresAt = r'.expiresAt

theorem Carries.refl (h : s.Agrees) : Carries s s :=
  ⟨h, Nat.le_refl _, fun _ r hr => .inr ⟨r, hr, rfl⟩⟩

theorem Carries.trans (h : Carries s s') (h' : Carries s' s'') : Carries s s'' where
  agrees := h.agrees
  nextId := Nat.le_trans h.nextId h'.nextId
  version id r'' hr'' := by
    rcases h'.version id r'' hr'' with hid | ⟨r', hr', hexpires'⟩
    · exact .inl (Nat.le_trans h.nextId hid)
    · rcases h.version id r' hr' with hid | ⟨r, hr, hexpires⟩
      · exact .inl hid
      · exact .inr ⟨r, hr, hexpires.trans hexpires'⟩

/-- A version has a primary key that was handed out. -/
theorem Inv.lt_nextId (hinv : Inv deployment s) (hr : s.Version .elevationRequests id r) :
    id < s.nextId .elevationRequests := by
  by_contra hid
  obtain ⟨hcommitted, hdirty⟩ := hinv.fresh ⟨.elevationRequests, id⟩ (Nat.le_of_not_lt hid)
  rcases hr with hcom | ⟨j, hown⟩
  · rw [State.com, hcommitted] at hcom
    contradiction
  · obtain ⟨row, hrow, -⟩ := State.own_eq_some.mp hown
    rw [hdirty] at hrow
    contradiction

/-- A request that has versions in both states has one deadline. -/
theorem Carries.expiresAt (h : Carries s s') (hinv : Inv deployment s)
    (hr : s.Version .elevationRequests id r) (hr' : s'.Version .elevationRequests id r') :
    r'.expiresAt = r.expiresAt := by
  rcases h.version id r' hr' with hid | ⟨r₀, hr₀, hexpires⟩
  · exact absurd (hinv.lt_nextId hr) (Nat.not_lt.mpr hid)
  · exact hexpires.symm.trans (h.agrees id r₀ r hr₀ hr)

/-- While nobody writes a request, the deadlines are carried. -/
theorem Retains.carries (h : Retains s s') (hagrees : s.Agrees) : Carries s s' ∧ s'.Agrees :=
  ⟨⟨hagrees, h.nextId, fun id r hr => .inr ⟨r, h.version id r hr, rfl⟩⟩,
    fun id r r' hr hr' => hagrees id r r' (h.version id r hr) (h.version id r' hr')⟩

/-- What an update of a request leaves. -/
def Op.KeepsDeadline : Op → Prop
  | .update ⟨.elevationRequests, _⟩ assign => ∀ row row', assign row = some row' →
    ElevationRequest.expiresAt row'.record = ElevationRequest.expiresAt row.record
  | _ => True

/-- An operation that keeps the deadline of what it updates carries the deadlines. -/
theorem Effect.carries (h : Effect sign i s op answer s') (hinv : Inv deployment s)
    (hop : op.KeepsDeadline) (hagrees : s.Agrees) : Carries s s' ∧ s'.Agrees := by
  have hwritten : ∀ id r, Writes i s op id r → s.nextId .elevationRequests ≤ id ∨
      ∃ r₀, s.Version .elevationRequests id r₀ ∧ r₀.expiresAt = r.expiresAt := by
    intro id r hwrites
    cases hwrites with
    | update hview hassign =>
      exact .inr ⟨_, version_of_view hview, (hop _ _ hassign).symm⟩
    | insert => exact .inl (Nat.le_refl _)
  refine ⟨⟨hagrees, h.nextId_le _, fun id r hr => ?_⟩, fun id r r' hr hr' => ?_⟩
  · rcases h.version hinv hr with hr | hwrites
    · exact .inr ⟨r, hr, rfl⟩
    · exact hwritten id r hwrites
  · rcases h.version hinv hr with hr | hwrites
    · rcases h.version hinv hr' with hr' | hwrites'
      · exact hagrees id r r' hr hr'
      · rcases hwritten id r' hwrites' with hid | ⟨r₀, hr₀, hexpires⟩
        · exact absurd (hinv.lt_nextId hr) (Nat.not_lt.mpr hid)
        · exact (hagrees id r r₀ hr hr₀).trans hexpires
    · rcases h.version hinv hr' with hr' | hwrites'
      · rcases hwritten id r hwrites with hid | ⟨r₀, hr₀, hexpires⟩
        · exact absurd (hinv.lt_nextId hr') (Nat.not_lt.mpr hid)
        · exact hexpires.symm.trans (hagrees id r₀ r' hr₀ hr')
      · cases hwrites with
        | update hview hassign =>
          cases hwrites' with
          | update hview' hassign' =>
            rw [hop _ _ hassign, hop _ _ hassign']
            exact hagrees _ _ _ (version_of_view hview) (version_of_view hview')
        | insert =>
          cases hwrites' with
          | insert => rfl

end Deadlines

/-- A session is about to take the time of its decision: it has just compared the deadline with the
clock, or found an entry that covers the request that it has just submitted. -/
inductive Deciding : Call → List Deed → ElevationRequest → Prop
  | approve {elevationRequestId : Nat} {credentials : Option String} {before before' : State}
      {time : Datetime} {snapshot : Snapshot} {older : List Deed} {r : ElevationRequest}
      (hr : r ∈ snapshot.rows .elevationRequests) (hid : r.id = elevationRequestId) :
      Deciding (.approveElevationRequest elevationRequestId credentials)
        (⟨before, .now, time⟩ :: ⟨before', .query, snapshot⟩ :: older) r
  | deny {elevationRequestId : Nat} {reason credentials : Option String} {before before' : State}
      {time : Datetime} {snapshot : Snapshot} {older : List Deed} {r : ElevationRequest}
      (hr : r ∈ snapshot.rows .elevationRequests) (hid : r.id = elevationRequestId) :
      Deciding (.denyElevationRequest elevationRequestId reason credentials)
        (⟨before, .now, time⟩ :: ⟨before', .query, snapshot⟩ :: older) r
  | submit {credentials : Option String} {body : AgentApprovalRequest} {admitted : Bool}
      {before before' before'' : State} {snapshot : Snapshot}
      {make : (id : Nat) → Datetime → Row ⟨.auditLogs, id⟩} {log : AuditLog}
      {make' : (id : Nat) → Datetime → Row ⟨.elevationRequests, id⟩} {older : List Deed}
      {r : ElevationRequest} :
      Deciding (.agentSubmitRequest credentials body admitted)
        (⟨before, .query, snapshot⟩ :: ⟨before', .insert .auditLogs make, .ok log⟩ ::
          ⟨before'', .insert .elevationRequests make', .ok r⟩ :: older) r

/-- A configuration of the backend with its log. -/
abbrev Configuration := Config Op Res PyError Answer Sid Call Record

/-- A session that is about to decide a request takes the time of its decision before the deadline. -/
def Prompt (c : Configuration) : Label Sid Choice Event Call → Prop
  | .perform i _ => ∀ call program r, c.thread i = some (call, program) →
    program.pending = some .now → Deciding call (mine i c.shared.log) r →
    c.shared.state.clock < r.expiresAt
  | _ => True

/-- The deadline of a request has passed at a time: it was compared when the row was locked, or the
session has just read it. -/
def Passed (done : List Deed) (time : Datetime) (r : ElevationRequest) : Prop :=
  r.expiresAt ≤ time ∨ ∃ before before' snapshot older seen,
    done = ⟨before, .now, time⟩ :: ⟨before', .query, snapshot⟩ :: older ∧
    seen ∈ snapshot.rows .elevationRequests ∧ seen.id = r.id ∧ seen.expiresAt ≤ time

/-- How a session may update a request. -/
structure Stamps (call : Call) (done : List Deed) (r r' : ElevationRequest) : Prop where
  expiresAt : r'.expiresAt = r.expiresAt
  stamp : ∃ time, r'.reviewedAt = some time ∧
    (r'.status = .expired ∧ Passed done time r ∨
      (r'.status = .approved ∨ r'.status = .denied) ∧ ∃ before older seen,
        done = ⟨before, .now, time⟩ :: older ∧ Deciding call older seen ∧ seen.id = r.id)

/-- The protocol of a call: new requests are pending, and updates are stamped. -/
def Stamping (call : Call) (done : List Deed) : Op → Prop
  | .update ⟨.elevationRequests, _⟩ assign => ∀ row row', assign row = some row' →
    Stamps call done row.record row'.record
  | .insert .elevationRequests make => ∀ id time,
    ElevationRequest.status (make id time).record = .pending
  | _ => True

section Calls

variable {deployment : Deployment} {call : Call} {done : List Deed} {α β : Type}

/-- A part of a call that keeps to the protocol. -/
abbrev Stamped (call : Call) (done : List Deed) (program : Handler β) : Prop :=
  Obeys (Stamping call) (fun _ _ => True) done program

/-- Whether an operation writes no request. -/
def Op.SparesRequests : Op → Prop
  | .update ⟨.elevationRequests, _⟩ _ => False
  | .insert .elevationRequests _ => False
  | _ => True

/-- What writes no request may be done at any time. -/
theorem stamped_of_within {program : Handler β} (h : program.Within Op.SparesRequests) :
    Stamped call done program := by
  refine Abides.of_within h (fun done o ho => ?_) done
  cases o with
  | update k assign =>
    obtain ⟨t, id⟩ := k
    cases t <;> first | exact ho.elim | trivial
  | insert t make => cases t <;> first | exact ho.elim | trivial
  | _ => trivial

/-- An operation that writes no request. -/
theorem stamped_op {o : Op} {f : Res o → Handler β} (ho : o.SparesRequests)
    (h : ∀ before answer, Stamped call (⟨before, o, answer⟩ :: done) (f answer)) :
    Stamped call done (op o >>= f) :=
  .op_bind (by
    cases o with
    | update k assign =>
      obtain ⟨t, id⟩ := k
      cases t <;> first | exact ho.elim | trivial
    | insert t make => cases t <;> first | exact ho.elim | trivial
    | _ => trivial) h

private theorem within_op {o : Op} (ho : o.SparesRequests) : (op o).Within Op.SparesRequests :=
  .op ho

private theorem within_raise {error : PyError} : (raise error : Handler β).Within Op.SparesRequests :=
  .throw

private theorem within_addSeconds {dt : Datetime} {seconds : Int} :
    (addSeconds dt seconds).Within Op.SparesRequests := by
  unfold addSeconds
  split
  · exact .pure
  · exact within_raise

private theorem within_issueApproval {r : ElevationRequest} {device : Device} :
    (issueApproval deployment r device).Within Op.SparesRequests :=
  (within_op (o := .now) trivial).bind fun _ => within_addSeconds.bind fun _ =>
    (within_op (o := .tokenUrlsafe 24) trivial).bind fun _ => Program.Within.liftExcept.bind fun _ =>
      (within_op (o := .signPayload _ _) trivial).bind fun _ => within_insert trivial

private theorem within_refresh {elevationRequestId : Nat} :
    (refreshElevationRequest elevationRequestId).Within Op.SparesRequests := by
  refine (within_op (o := .query) trivial).bind fun snapshot =>
    within_scalarOneOrNone.bind fun request => ?_
  cases request with
  | none => exact within_raise
  | some request =>
    refine within_scalarOneOrNone.bind fun device => ?_
    cases device with
    | none => exact within_raise
    | some device => exact .pure

private theorem within_markApprovalConsumed {approvalId : Nat} {credentials : Option BasicCredentials}
    {admitted : Bool} :
    (markApprovalConsumed deployment approvalId credentials admitted).Within Op.SparesRequests := by
  refine (within_getCurrentDevice trivial).bind fun device => within_limit.bind fun _ =>
    (within_one trivial).bind fun approval => ?_
  cases approval with
  | none => exact within_raise
  | some approval =>
    refine .ite (fun _ => within_raise) fun _ => ?_
    refine (within_op (o := .now) trivial).bind fun time => Program.Within.bind ?_ fun updated => ?_
    · exact (within_op (o := .update ⟨.approvals, approvalId⟩ _) trivial).bind fun _ => .pure
    · cases updated with
      | none => exact within_raise
      | some updated =>
        refine (within_writeAuditLog fun _ => trivial).bind fun _ =>
          (within_op (o := .commit) trivial).bind fun _ => (within_select trivial).bind fun rows =>
            within_scalarOneOrNone.bind fun refreshed => ?_
        cases refreshed with
        | none => exact within_raise
        | some refreshed => exact .pure

/-- What is left of a call that writes no more requests. -/
private theorem stamped_rest {program : Handler α} {f : α → Handler β}
    (h : program.Within Op.SparesRequests) (hf : ∀ value done', Stamped call done' (f value)) :
    Stamped call done (program >>= f) :=
  (stamped_of_within h).bind (fun value done' _ => hf value done') fun _ _ _ => trivial

/-- A `SELECT`. -/
private theorem stamped_select {t : Table} {condition : t.Record → Bool} {f : List t.Record → Handler β}
    (h : ∀ before (snapshot : Snapshot), Stamped call (⟨before, .query, snapshot⟩ :: done)
      (f ((snapshot.rows t).filter condition))) :
    Stamped call done (select t condition >>= f) :=
  stamped_op (o := .query) trivial h

/-- At most one row is expected. -/
private theorem stamped_scalarOneOrNone {rows : List α} {f : Option α → Handler β}
    (hnone : Stamped call done (f none)) (hsome : ∀ r ∈ rows, Stamped call done (f (some r))) :
    Stamped call done (scalarOneOrNone rows >>= f) := by
  cases rows with
  | nil => exact hnone
  | cons r rest =>
    cases rest with
    | nil => exact hsome r List.mem_cons_self
    | cons _ _ => exact .throw trivial

/-- Moving a pending request to a new status. -/
private theorem stamped_transitionStatus {id : Nat} {newStatus : ElevationRequestStatus}
    {reviewedBy : Option Nat} {reviewedAt : Datetime} {f : Option ElevationRequest → Handler β}
    (hstamps : ∀ r, r.id = id →
      Stamps call done r (ElevationRequestRepository.decided newStatus reviewedBy reviewedAt r))
    (h : ∀ deed result, Stamped call (deed :: done) (f result)) :
    Stamped call done (ElevationRequestRepository.transitionStatus id .pending newStatus reviewedBy
      reviewedAt >>= f) := by
  refine .perform (fun row row' hassign => ?_) fun before answer => h _ _
  dsimp only at hassign
  split at hassign
  · obtain rfl := Option.some.inj hassign
    exact hstamps _ row.id_eq
  · contradiction

/-- Expiring stale requests compares the time that it writes. -/
private theorem stamped_expireStale {deviceId : Nat} {now : Datetime} {f : Unit → Handler β}
    (h : ∀ done', Stamped call done' (f ())) :
    Stamped call done
      (ElevationRequestRepository.expireStalePendingRequestsForDevice deviceId now >>= f) := by
  rw [ElevationRequestRepository.expireStalePendingRequestsForDevice, bind_assoc]
  refine stamped_select fun before snapshot => ?_
  refine (Obeys.forEach (I := fun _ => True) (Q := fun _ _ => True) trivial (fun r _ done' _ => ?_)
    fun _ _ => trivial).bind (fun _ done' _ => h done') fun _ _ _ => trivial
  refine .perform (fun row row' hassign => ?_) fun before answer => .pure trivial
  dsimp only at hassign
  split at hassign
  · next hstale =>
    obtain rfl := Option.some.inj hassign
    obtain ⟨-, -, hpassed⟩ := of_decide_eq_true hstale
    exact ⟨rfl, now, rfl, .inl ⟨rfl, .inl hpassed⟩⟩
  · contradiction

/-- The request that is about to be decided was just read, and the clock after it. -/
private theorem stamped_pendingRequest {elevationRequestId : Nat} {f : ElevationRequest → Handler β}
    (h : ∀ before before' time (snapshot : Snapshot) r,
      r ∈ snapshot.rows .elevationRequests → r.id = elevationRequestId →
      Stamped call (⟨before, .now, time⟩ :: ⟨before', .query, snapshot⟩ :: done) (f r)) :
    Stamped call done (pendingRequest elevationRequestId >>= f) := by
  simp only [pendingRequest, ElevationRequestRepository.getById, bind_assoc]
  refine stamped_select fun before' snapshot => ?_
  refine stamped_scalarOneOrNone (.throw trivial) fun r hr => ?_
  obtain ⟨hmem, hid⟩ := List.mem_filter.mp hr
  dsimp only
  split
  · exact .throw trivial
  · simp only [rejectIfExpired, bind_assoc]
    refine stamped_op (o := .now) trivial fun before (time : Datetime) => ?_
    split
    · next hpassed =>
      simp only [bind_assoc]
      refine stamped_transitionStatus (fun r' hr' => ?_) fun deed result => ?_
      · exact ⟨rfl, time, rfl, .inl ⟨rfl, .inr ⟨before, before', snapshot, done, r, rfl, hmem,
          hr'.symm, hpassed⟩⟩⟩
      · exact stamped_op (o := .commit) trivial fun _ _ => .throw trivial
    · exact h before before' time snapshot r hmem (of_decide_eq_true hid)

/-- Taking the time of a decision and deciding. -/
private theorem stamped_decision {id : Nat} {newStatus : ElevationRequestStatus}
    {reviewedBy : Option Nat} {f : Option ElevationRequest → Handler β} {seen : ElevationRequest}
    (hstatus : newStatus = .approved ∨ newStatus = .denied) (hdeciding : Deciding call done seen)
    (hid : seen.id = id) (h : ∀ done' result, Stamped call done' (f result)) :
    Stamped call done (now >>= fun time => ElevationRequestRepository.transitionStatus id .pending
      newStatus reviewedBy time >>= f) := by
  refine stamped_op (o := .now) trivial fun before (time : Datetime) => ?_
  refine stamped_transitionStatus (fun r hr => ?_) fun deed result => h _ result
  exact ⟨rfl, time, rfl, .inr ⟨hstatus, before, done, seen, rfl, hdeciding, hid.trans hr.symm⟩⟩

/-- Approving on account of an allowlist entry. -/
private theorem stamped_tryAutoApprove {credentials : Option String} {body : AgentApprovalRequest}
    {before before' : State} {make : (id : Nat) → Datetime → Row ⟨.auditLogs, id⟩} {log : AuditLog}
    {make' : (id : Nat) → Datetime → Row ⟨.elevationRequests, id⟩} {r : ElevationRequest}
    {device : Device} {admitted : Bool} {f : Unit → Handler β}
    (h : ∀ done', Stamped (.agentSubmitRequest credentials body admitted) done' (f ())) :
    Stamped (.agentSubmitRequest credentials body admitted)
      (⟨before, .insert .auditLogs make, .ok log⟩ ::
        ⟨before', .insert .elevationRequests make', .ok r⟩ :: done)
      (tryAutoApprove deployment r device >>= f) := by
  rw [tryAutoApprove]
  split
  · exact h _
  · split
    · next publisher hpublisher =>
      rw [bind_assoc, AppAllowlistRepository.findMatch, bind_assoc]
      refine stamped_select fun before'' snapshot => ?_
      refine stamped_scalarOneOrNone (h _) fun entry hentry => ?_
      simp only [bind_assoc]
      refine stamped_decision (.inl rfl) .submit rfl fun done' result => ?_
      cases result with
      | none => exact h _
      | some updated =>
        simp only [bind_assoc]
        exact stamped_rest within_issueApproval fun approval _ =>
          stamped_rest (within_writeAuditLog fun _ => trivial) fun _ => h
    · exact h _

/-- A new request is pending. -/
private theorem stamped_create {values : ElevationRequestRepository.Values}
    {f : ElevationRequest → Handler β}
    (h : ∀ before make done' r,
      Stamped call (⟨before, .insert .elevationRequests make, .ok r⟩ :: done') (f r)) :
    Stamped call done (ElevationRequestRepository.create values >>= f) := by
  have hinsert : ∀ requestUuid done', Stamped call done'
      ((if values.fitsColumns then insert .elevationRequests
        (ElevationRequestRepository.newRow values requestUuid) else raise .dbapiError) >>= f) := by
    intro requestUuid done'
    split
    swap
    · exact .throw trivial
    refine .op_bind (fun id time => rfl) fun before answer => ?_
    cases answer with
    | ok r => exact h before _ done' r
    | error error => exact .throw trivial
  rw [ElevationRequestRepository.create]
  cases values.requestUuid with
  | some requestUuid => exact hinsert requestUuid done
  | none => exact stamped_op (o := .uuid4) trivial fun before requestUuid => hinsert requestUuid _

/-- Auditing a submission. -/
private theorem stamped_writeAuditLog {actorType : ActorType}
    {actorId action targetType targetId : String} {metadata : Option (List (String × MetadataValue))}
    {f : Unit → Handler β}
    (h : ∀ before make log, Stamped call (⟨before, .insert .auditLogs make, .ok log⟩ :: done) (f ())) :
    Stamped call done
      (writeAuditLog actorType actorId action targetType targetId metadata >>= f) := by
  rw [writeAuditLog, bind_assoc]
  refine .op_bind trivial fun before answer => ?_
  cases answer with
  | ok log => exact h before _ log
  | error error => exact .throw trivial

/-- A decision of a request by a reviewer, up to what the decision entails. -/
private theorem stamped_review {elevationRequestId : Nat} {credentials : Option String}
    {newStatus : ElevationRequestStatus} {f : AdminUser → Option ElevationRequest → Handler β}
    (hstatus : newStatus = .approved ∨ newStatus = .denied)
    (hdeciding : ∀ before before' time (snapshot : Snapshot) older r,
      r ∈ snapshot.rows .elevationRequests → r.id = elevationRequestId →
      Deciding call (⟨before, .now, time⟩ :: ⟨before', .query, snapshot⟩ :: older) r)
    (h : ∀ admin done' result, Stamped call done' (f admin result)) :
    Stamped call done (requireRole deployment [.admin, .reviewer] credentials >>= fun admin =>
      pendingRequest elevationRequestId >>= fun r => now >>= fun time =>
        ElevationRequestRepository.transitionStatus r.id .pending newStatus (some admin.id) time >>=
          f admin) :=
  stamped_rest (within_requireRole trivial trivial) fun admin _ =>
    stamped_pendingRequest fun before before' time snapshot r hr hid =>
      stamped_decision hstatus (hdeciding before before' time snapshot _ r hr hid) rfl (h admin)

/-- A poll expires what is stale. -/
private theorem stamped_pollDecisions {device : Device} {since : Option Datetime} :
    Stamped call done (pollDecisions device since) := by
  refine stamped_op (o := .now) trivial fun before now => stamped_expireStale fun done' => ?_
  refine stamped_op (o := .commit) trivial fun _ _ => stamped_of_within ?_
  exact (within_op (o := .query) trivial).bind fun _ => .pure

/-- A call that converts its answer. -/
private theorem stamped_map {program : Handler α} {g : α → β} (h : Stamped call done program) :
    Stamped call done (g <$> program) := by
  rw [map_eq_pure_bind]
  exact h.bind (fun _ _ _ => .pure trivial) fun _ _ _ => trivial

/-- Every endpoint keeps to the protocol. -/
private theorem stamped_endpoint : Stamped call [] (endpoint deployment call) := by
  cases call with
  | submitElevationRequest credentials body admitted =>
    refine stamped_map (stamped_rest (within_getCurrentDevice trivial) fun device _ => ?_)
    refine stamped_rest within_limit fun _ _ => ?_
    refine stamped_op (o := .now) trivial fun before time => ?_
    refine stamped_rest within_addSeconds fun expiresAt _ => stamped_create fun _ _ _ r => ?_
    refine stamped_rest (within_writeAuditLog fun _ => trivial) fun _ _ => ?_
    exact stamped_op (o := .commit) trivial fun _ _ => stamped_of_within within_refresh
  | agentSubmitRequest credentials body admitted =>
    refine stamped_map (stamped_rest (within_getCurrentDeviceBearer trivial) fun device _ => ?_)
    refine stamped_rest within_limit fun _ _ => ?_
    refine .ite (fun _ => .throw trivial) fun _ => ?_
    refine stamped_op (o := .now) trivial fun before time => ?_
    refine stamped_rest within_addSeconds fun expiresAt _ => stamped_create fun _ _ _ r => ?_
    refine stamped_writeAuditLog fun _ _ log => stamped_tryAutoApprove fun done => ?_
    exact stamped_op (o := .commit) trivial fun _ _ => .pure trivial
  | approveElevationRequest elevationRequestId credentials =>
    refine stamped_map (stamped_review (.inl rfl) (fun _ _ _ _ _ _ hr hid => .approve hr hid)
      fun admin done' result => ?_)
    cases result with
    | none => exact .throw trivial
    | some updated =>
      refine stamped_rest (within_one trivial) fun device _ => ?_
      cases device with
      | none => exact .throw trivial
      | some device =>
        refine stamped_rest within_issueApproval fun approval _ => ?_
        refine stamped_rest (within_writeAuditLog fun _ => trivial) fun _ _ => ?_
        exact stamped_op (o := .commit) trivial fun _ _ => stamped_of_within within_refresh
  | denyElevationRequest elevationRequestId reason credentials =>
    refine stamped_map (stamped_review (.inr rfl) (fun _ _ _ _ _ _ hr hid => .deny hr hid)
      fun admin done' result => ?_)
    cases result with
    | none => exact .throw trivial
    | some updated =>
      refine stamped_rest (within_writeAuditLog fun _ => trivial) fun _ _ => ?_
      exact stamped_op (o := .commit) trivial fun _ _ => stamped_of_within within_refresh
  | getDecisions since credentials admitted =>
    refine stamped_map (stamped_rest (within_getCurrentDevice trivial) fun device done' => ?_)
    refine stamped_rest within_limit fun _ _ => ?_
    exact stamped_pollDecisions.bind (fun _ _ _ => .pure trivial) fun _ _ _ => trivial
  | agentPollDecisions deviceId since credentials admitted =>
    refine stamped_map (stamped_rest (within_getCurrentDeviceBearer trivial) fun device done' => ?_)
    refine stamped_rest within_limit fun _ _ => ?_
    refine .ite (fun _ => .throw trivial) fun _ => ?_
    exact stamped_pollDecisions.bind (fun _ _ _ => .pure trivial) fun _ _ _ => trivial
  | markApprovalConsumed approvalId credentials admitted =>
    exact stamped_map (stamped_of_within within_markApprovalConsumed)

/-- So does every session, which is closed in the end. -/
theorem system_stamps (deployment : Deployment) : (system deployment).Follows Stamping := by
  intro i call program hprogram
  obtain rfl := Option.some.inj hprogram
  have hendpoint : Stamped call [] (endpoint deployment call) := stamped_endpoint
  refine hendpoint.finally_ fun result done _ => ?_
  refine .perform trivial fun before answer => .pure ?_
  trivial

end Calls

section Runs

variable {deployment : Deployment} {call : Call} {done older : List Deed} {i : Sid} {s s' : State}
  {log : List (Moment Op Res Sid Event State)} {r r' : ElevationRequest} {p : Prop}
  {c c' : Configuration}

/-- The deadlines of the requests have stayed since every deed of the log. -/
structure Fixed (r : Record) : Prop where
  agrees : r.state.Agrees
  carried : ∀ i deed, .performed i deed ∈ r.log → Carries deed.before r.state

/-- A step after which the deadlines are as before. -/
private theorem Fixed.cons (h : Fixed ⟨s, log⟩) (hcarries : Carries s s') (hagrees : s'.Agrees)
    {m : Moment Op Res Sid Event State}
    (hmoment : ∀ i deed, m = .performed i deed → deed.before = s) :
    Fixed ⟨s', m :: log⟩ where
  agrees := hagrees
  carried i deed hmem := by
    rcases List.mem_cons.mp hmem with heq | hmem
    · rw [hmoment i deed heq.symm]
      exact hcarries
    · exact (h.carried i deed hmem).trans hcarries

/-- A step that writes no request. -/
private theorem Fixed.retain (h : Fixed ⟨s, log⟩) (hretains : Retains s s')
    {moment : Moment Op Res Sid Event State} (hmoment : ∀ i deed, moment ≠ .performed i deed) :
    Fixed ⟨s', moment :: log⟩ := by
  obtain ⟨hcarries, hagrees⟩ := hretains.carries h.agrees
  exact h.cons hcarries hagrees fun i deed heq => absurd heq (hmoment i deed)

/-- Stamped updates keep the deadline. -/
private theorem Stamping.keepsDeadline {op : Op} (h : Stamping call done op) : op.KeepsDeadline := by
  cases op with
  | update k assign =>
    obtain ⟨t, id⟩ := k
    cases t with
    | elevationRequests => exact fun row row' hassign => (h row row' hassign).expiresAt
    | _ => trivial
  | _ => trivial

/-- A request that a session has read was a version then. -/
private theorem version_of_read {before : State} {snapshot : Snapshot}
    (hfaithful : Faithful deployment i (⟨before, .query, snapshot⟩ :: older))
    (hr : r ∈ snapshot.rows .elevationRequests) :
    before.Version .elevationRequests r.id r ∧ Inv deployment before := by
  obtain ⟨⟨s', heffect⟩, hinv, -⟩ := hfaithful
  change Effect deployment.sign i before .query snapshot s' at heffect
  have hrow : snapshot.row = before.db.view i := by
    cases heffect
    rfl
  refine ⟨?_, hinv⟩
  rcases visible_of_mem_rows hrow hr with hown | ⟨-, hcom⟩
  · exact .inr ⟨i, hown⟩
  · exact .inl hcom

/-- A request that a session is about to decide was a version when the session last looked. -/
private theorem Deciding.version (h : Deciding call done r) (hfaithful : Faithful deployment i done) :
    ∃ deed ∈ done, deed.before.Version .elevationRequests r.id r ∧ Inv deployment deed.before := by
  cases h with
  | approve hr | deny hr =>
    exact ⟨_, List.mem_cons_of_mem _ List.mem_cons_self, version_of_read hfaithful.tail hr⟩
  | submit =>
    obtain ⟨-, hinv, hreflects, -⟩ := hfaithful.tail
    refine ⟨_, List.mem_cons_of_mem _ List.mem_cons_self, .inr ⟨i, ?_⟩, hinv⟩
    have hown := hreflects.own .elevationRequests r.id
    exact hown.trans (latestRequest_request.trans (if_pos rfl))

/-- A request that was a version at a deed has the same deadline now. -/
private theorem Fixed.expiresAt (h : Fixed ⟨s, log⟩) {deed : Deed} (hdeed : deed ∈ mine i log)
    (hinv : Inv deployment deed.before) (hr : deed.before.Version .elevationRequests r.id r)
    (hr' : s.Version .elevationRequests r.id r') : r'.expiresAt = r.expiresAt :=
  (h.carried i deed (mem_log_of_mem_mine hdeed)).expiresAt hinv hr hr'

/-- What holds in every configuration of a run. Where the sessions are prompt, requests are decided in
time. -/
structure Dated (deployment : Deployment) (p : Prop) (c : Configuration) : Prop where
  good : (discipline deployment).Good (system deployment) c.forget
  obedient : Obedient Stamping c
  kept : Kept deployment c.shared
  fixed : Fixed c.shared
  overdue : ∀ id r, c.shared.state.Version .elevationRequests id r → r.Overdue
  timely : p → ∀ id r, c.shared.state.Version .elevationRequests id r → r.Timely
  prompt : p → ∀ i call program, c.thread i = some (call, program) → ∀ before time older r,
    (⟨before, .now, time⟩ :: older : List Deed) <:+ mine i c.shared.log → Deciding call older r →
    before.clock < r.expiresAt

/-- A session's own deeds have had their effects. -/
private theorem Dated.faithful (h : Dated deployment p c) (i : Sid) :
    Faithful deployment i (mine i c.shared.log) := h.kept.faithful i

/-- What an update writes is overdue if it expires the request, and timely if it decides it. -/
private theorem Dated.stamps (h : Dated deployment p c) {program : Handler Answer}
    (hthread : c.thread i = some (call, program))
    (hr : c.shared.state.Version .elevationRequests r.id r)
    (hstamps : Stamps call (mine i c.shared.log) r r') : r'.Overdue ∧ (p → r'.Timely) := by
  obtain ⟨hexpires, time, htime, hstamp⟩ := hstamps
  have hfaithful := h.faithful i
  have hdeadline : ∀ deed ∈ mine i c.shared.log, ∀ seen : ElevationRequest, seen.id = r.id →
      Inv deployment deed.before → deed.before.Version .elevationRequests seen.id seen →
      r.expiresAt = seen.expiresAt := by
    intro deed hdeed seen hid hinv hseen
    exact h.fixed.expiresAt hdeed hinv hseen (hid ▸ hr)
  rcases hstamp with ⟨hstatus, hpassed⟩ | ⟨hstatus, before, older, seen, hdone, hdeciding, hid⟩
  · refine ⟨fun _ => ⟨time, htime, ?_⟩, fun _ hdecided => ?_⟩
    · rw [hexpires]
      rcases hpassed with hpassed | ⟨b, b', snapshot, older, seen, hdone, hseen, hid, hpassed⟩
      · exact hpassed
      · rw [hdone] at hfaithful
        obtain ⟨hversion, hinv⟩ := version_of_read hfaithful.tail hseen
        have hmem : (⟨b', .query, snapshot⟩ : Deed) ∈ mine i c.shared.log := by
          rw [hdone]
          exact List.mem_cons_of_mem _ List.mem_cons_self
        rw [hdeadline _ hmem seen hid hinv hversion]
        exact hpassed
    · rw [hstatus] at hdecided
      exact absurd hdecided (by decide)
  · refine ⟨fun hexpired => ?_, fun hp _ => ⟨time, htime, ?_⟩⟩
    · rw [hexpired] at hstatus
      exact absurd hstatus (by decide)
    · rw [hdone] at hfaithful
      obtain ⟨⟨s', heffect⟩, -⟩ := hfaithful
      change Effect deployment.sign i before .now time s' at heffect
      obtain rfl : time = before.clock := by
        cases heffect
        rfl
      have hsuffix : (⟨before, .now, before.clock⟩ :: older : List Deed) <:+ mine i c.shared.log := by
        rw [hdone]
      have hfaithful' := (h.faithful i).suffix hsuffix
      obtain ⟨deed, hdeed, hversion, hinv⟩ := hdeciding.version hfaithful'.tail
      rw [hexpires, hdeadline deed (hsuffix.subset (List.mem_cons_of_mem _ hdeed)) seen hid hinv hversion]
      exact h.prompt hp i call program hthread before before.clock older seen hsuffix hdeciding

/-- What a session writes is overdue if it has expired, and timely if it is decided. -/
private theorem Dated.writes (h : Dated deployment p c) {program : Handler Answer} {op : Op} {id : Nat}
    (hthread : c.thread i = some (call, program)) (hstamping : Stamping call (mine i c.shared.log) op)
    (hwrites : Writes i c.shared.state op id r) : r.Overdue ∧ (p → r.Timely) := by
  cases hwrites with
  | @update id assign row row' hview hassign =>
    have hid : ElevationRequest.id row.record = id := row.id_eq
    refine h.stamps hthread ?_ (hstamping row row' hassign)
    rw [hid]
    exact version_of_view hview
  | @insert make =>
    have hpending := hstamping (c.shared.state.nextId .elevationRequests) (c.shared.state.txNow i)
    refine ⟨fun hexpired => ?_, fun _ hdecided => ?_⟩
    · rw [hexpired] at hpending
      contradiction
    · rw [hpending] at hdecided
      exact absurd hdecided (by decide)

/-- A step in which nobody writes a request or takes the time. -/
private theorem Dated.quiet (h : Dated deployment p c)
    (hgood : (discipline deployment).Good (system deployment) c'.forget) (hobedient : Obedient Stamping c')
    (hkept : Kept deployment c'.shared) (hretains : Retains c.shared.state c'.shared.state)
    {m : Moment Op Res Sid Event State} (hlog : c'.shared.log = m :: c.shared.log)
    (hmoment : ∀ i deed, m ≠ .performed i deed)
    (hthreads : ∀ i call program, c'.thread i = some (call, program) →
      mine i c'.shared.log = [] ∨
        c.thread i = some (call, program) ∧ mine i c'.shared.log = mine i c.shared.log) :
    Dated deployment p c' where
  good := hgood
  obedient := hobedient
  kept := hkept
  fixed := by
    have hfixed := h.fixed.retain hretains hmoment
    rwa [← hlog] at hfixed
  overdue id r hr := h.overdue id r (hretains.version id r hr)
  timely hp id r hr := h.timely hp id r (hretains.version id r hr)
  prompt hp i call program hthread before time older r hsuffix hdeciding := by
    rcases hthreads i call program hthread with hnil | ⟨hthread', hsame⟩
    · rw [hnil] at hsuffix
      exact absurd (List.suffix_nil.mp hsuffix) (by simp)
    · rw [hsame] at hsuffix
      exact h.prompt hp i call program hthread' before time older r hsuffix hdeciding

/-- An operation of a prompt session. -/
private theorem Dated.performed (h : Dated deployment p c) {choice : Choice}
    (hgood : (discipline deployment).Good (system deployment) c'.forget) (hobedient : Obedient Stamping c')
    (hkept : Kept deployment c'.shared) (hprompt : p → Prompt c (.perform i choice))
    (hstep : ((system deployment).recorded .free).step (.perform i choice) c = some c') :
    Dated deployment p c' := by
  obtain ⟨call, op, next, answer, record, hthread, hperform, rfl⟩ := System.step_perform _ hstep
  obtain ⟨-, hs, hlog⟩ := System.recorded_perform hperform
  have heffect : Effect deployment.sign i c.shared.state op answer record.state := perform_effect hs
  have hinv : Inv deployment c.shared.state := h.good.inv
  have hallowed : Stamping call (mine i c.shared.log) op := by
    cases h.obedient i call _ hthread with
    | perform allowed _ => exact allowed
  obtain ⟨hcarries, hagrees⟩ := heffect.carries hinv hallowed.keepsDeadline h.fixed.agrees
  have hversions : ∀ id r, record.state.Version .elevationRequests id r →
      r.Overdue ∧ (p → r.Timely) := by
    intro id r hr
    rcases heffect.version hinv hr with hr | hwrites
    · exact ⟨h.overdue id r hr, fun hp => h.timely hp id r hr⟩
    · exact h.writes hthread hallowed hwrites
  refine ⟨hgood, hobedient, hkept, ?_, fun id r hr => (hversions id r hr).1,
    fun hp id r hr => (hversions id r hr).2 hp, ?_⟩
  · have hfixed := h.fixed.cons (m := .performed i ⟨c.shared.state, op, answer⟩) hcarries hagrees
      fun j deed heq => by obtain ⟨-, rfl⟩ := Moment.performed.inj heq; rfl
    rwa [← hlog] at hfixed
  · intro hp j call' program' hthread' before time older r hsuffix hdeciding
    change _ <:+ mine j record.log at hsuffix
    rw [hlog] at hsuffix
    by_cases hj : j = i
    · subst hj
      obtain ⟨rfl, -⟩ := Prod.mk.inj (Option.some.inj (by simpa using hthread'))
      rw [mine_performed_self] at hsuffix
      rcases List.suffix_cons_iff.mp hsuffix with heq | hsuffix
      · -- the session takes the time in this step
        obtain ⟨hdeed, rfl⟩ := List.cons.inj heq
        obtain ⟨rfl, rfl, -⟩ := Deed.mk.inj hdeed
        exact hprompt hp call _ r hthread rfl hdeciding
      · exact h.prompt hp j call _ hthread before time older r hsuffix hdeciding
    · rw [mine_performed_ne (Ne.symm hj)] at hsuffix
      exact h.prompt hp j call' program' (by simpa [hj] using hthread') before time older r hsuffix
        hdeciding

/-- A step of a prompt session keeps the requests dated. -/
theorem Dated.step (h : Dated deployment p c) {label : Label Sid Choice Event Call}
    (hprompt : p → Prompt c label)
    (hstep : ((system deployment).recorded .free).step label c = some c') :
    Dated deployment p c' := by
  obtain ⟨hgood, hevolves⟩ := (valid deployment).step h.good (step_forget hstep)
  obtain ⟨hobedient, hkept⟩ := honoring_step (Q := fun _ _ _ => True)
    (E := (discipline deployment).Advances) (system_stamps deployment) preserved_kept h.obedient
    h.kept ⟨h.good.inv, hgood.inv, hevolves⟩ hstep
  cases label with
  | perform i choice => exact h.performed hgood hobedient hkept hprompt hstep
  | spawn i call =>
    obtain ⟨program, hprogram, rfl⟩ := System.step_spawn _ hstep
    refine h.quiet hgood hobedient hkept (retains_rollback i _) (m := .stopped i) rfl (by simp)
      fun j call' program' hthread => ?_
    by_cases hj : j = i
    · subst hj
      exact .inl mine_stopped_self
    · exact .inr ⟨by simpa [hj] using hthread, mine_stopped_ne (Ne.symm hj)⟩
  | kill i =>
    obtain rfl := Option.some.inj hstep
    refine h.quiet hgood hobedient hkept (retains_rollback i _) (m := .stopped i) rfl (by simp)
      fun j call' program' hthread => ?_
    by_cases hj : j = i
    · subst hj
      exact .inl mine_stopped_self
    · exact .inr ⟨by simpa [hj] using hthread, mine_stopped_ne (Ne.symm hj)⟩
  | reset =>
    obtain rfl := Option.some.inj hstep
    exact h.quiet hgood hobedient hkept (retains_crash _) (m := .restarted) rfl (by simp)
      fun j call' program' hthread => by contradiction
  | env event =>
    obtain ⟨record, hrecord, rfl⟩ := Option.map_eq_some_iff.mp hstep
    simp only [System.recorded] at hrecord
    split at hrecord
    · obtain ⟨s, hs, rfl⟩ := Option.map_eq_some_iff.mp hrecord
      exact h.quiet hgood hobedient hkept (retains_env hs) (m := .happened event) rfl (by simp)
        fun j call' program' hthread => .inr ⟨hthread, mine_happened event⟩
    · contradiction

/-- Before the first request all is dated. -/
theorem State.Initial.dated (h : s.Initial) : Dated deployment p (System.init ⟨s, []⟩) := by
  have hnone : ∀ id r, ¬ s.Version .elevationRequests id r := by
    rintro id r (hcom | ⟨j, hown⟩)
    · rw [State.com, h.requests] at hcom
      contradiction
    · obtain ⟨row, hrow, -⟩ := State.own_eq_some.mp hown
      rw [h.dirty] at hrow
      contradiction
  exact
    { good := Discipline.good_init h.inv
      obedient := obedient_init _
      kept :=
        { reflects := fun i => reflects_nil (fun t id => by simp [State.own, h.dirty, System.init]) rfl
          evolved := fun _ _ hmem => by contradiction
          faithful := fun _ => trivial }
      fixed := ⟨fun id r _ hr => absurd hr (hnone id r), fun _ _ hmem => by contradiction⟩
      overdue := fun id r hr => absurd hr (hnone id r)
      timely := fun _ id r hr => absurd hr (hnone id r)
      prompt := fun _ _ _ _ hthread => by contradiction }

/-- Every run in which the sessions are prompt keeps the requests dated. -/
theorem Dated.run (h : Dated deployment p c) {labels : List (Label Sid Choice Event Call)}
    (hprompt : p → ∀ first label rest b, labels = first ++ label :: rest →
      ((system deployment).recorded .free).run first c = some b → Prompt b label)
    (hrun : ((system deployment).recorded .free).run labels c = some c') : Dated deployment p c' := by
  induction labels generalizing c with
  | nil =>
    obtain rfl := Option.some.inj hrun
    exact h
  | cons label rest ih =>
    obtain ⟨mid, hstep, hrest⟩ := Option.bind_eq_some_iff.mp hrun
    refine ih (h.step (fun hp => hprompt hp [] label rest c rfl rfl) hstep) ?_ hrest
    intro hp first label' rest' b hsplit hfirst
    exact hprompt hp (label :: first) label' rest' b (by rw [hsplit]; rfl)
      (System.run_cons _ hstep hfirst)

/-- Every expired request has expired at or after its deadline. If every session that is about to
decide a request takes the time of its decision before the deadline, every decided request was decided
before its deadline. -/
theorem review_window {labels : List (Label Sid Choice Event Call)} (hinit : s.Initial)
    (hrun : ((system deployment).recorded .free).run labels (System.init ⟨s, []⟩) = some c) :
    (∀ id r, c.shared.state.request id = some r → r.Overdue) ∧
      ((∀ first label rest b, labels = first ++ label :: rest →
          ((system deployment).recorded .free).run first (System.init ⟨s, []⟩) = some b →
          Prompt b label) →
        ∀ id r, c.shared.state.request id = some r → r.Timely) := by
  have hdated : Dated deployment _ c := hinit.dated.run (fun hp => hp) hrun
  exact ⟨fun id r hr => hdated.overdue id r (.inl hr), fun hp id r hr => hdated.timely hp id r (.inl hr)⟩

end Runs

namespace Sample

/-- The deadline of the request. -/
def deadline : Datetime := ⟨63900003600000000, by decide⟩

/-- The last moment before it. -/
def eve : Datetime := ⟨63900003599999999, by decide⟩

/-- The deadline passes while the approval stands between its two readings of the clock. -/
def late : List (Label Sid Choice Event Call) :=
  submission ++ .env (.advance eve) :: (approval.take 5 ++ .env (.advance deadline) :: approval.drop 5)

/-- The approval begins at the last moment. -/
def lastMoment : List (Label Sid Choice Event Call) :=
  submission ++ .env (.advance eve) :: approval

/-- The requests that a session has found or filed with a deed. -/
def seen : Deed → List ElevationRequest
  | ⟨_, .query, snapshot⟩ => snapshot.rows .elevationRequests
  | ⟨_, .insert .elevationRequests _, .ok r⟩ => [r]
  | _ => []

/-- The clock stands before the deadline of every request that the session knows of. -/
def inTime (c : Configuration) : Label Sid Choice Event Call → Bool
  | .perform i _ => (mine i c.shared.log).all fun deed =>
      (seen deed).all fun r => decide (c.shared.state.clock < r.expiresAt)
  | _ => true

theorem prompt_of_inTime {c : Configuration} {label : Label Sid Choice Event Call}
    (h : inTime c label = true) : Prompt c label := by
  cases label with
  | perform i choice =>
    intro call program r _ _ hdeciding
    have hseen : ∀ deed ∈ mine i c.shared.log, r ∈ seen deed → c.shared.state.clock < r.expiresAt :=
      fun deed hdeed hr =>
        of_decide_eq_true (List.all_eq_true.mp (List.all_eq_true.mp h deed hdeed) r hr)
    generalize mine i c.shared.log = done at hdeciding hseen
    cases hdeciding with
    | approve hr => exact hseen _ (List.mem_cons_of_mem _ List.mem_cons_self) hr
    | deny hr => exact hseen _ (List.mem_cons_of_mem _ List.mem_cons_self) hr
    | submit =>
      exact hseen _ (List.mem_cons_of_mem _ (List.mem_cons_of_mem _ List.mem_cons_self))
        List.mem_cons_self
  | _ => trivial

theorem lastMoment_inTime : ((system deployment).recorded .free).everyStep inTime lastMoment
    (System.init ⟨database, []⟩) = true := by
  decide +kernel

end Sample

/-- A submission, and its approval at the last moment. -/
theorem review_window_sample : ∃ c r,
    ((system Sample.deployment).recorded .free).run Sample.lastMoment
      (System.init ⟨Sample.database, []⟩) = some c ∧
    c.shared.state.request 0 = some r ∧ r.status = .approved ∧ r.Overdue ∧ r.Timely := by
  have hrun : (((system Sample.deployment).recorded .free).run Sample.lastMoment
      (System.init ⟨Sample.database, []⟩)).map (fun c =>
        (c.shared.state.request 0).map ElevationRequest.status) = some (some .approved) := by
    decide +kernel
  obtain ⟨c, hc, hrow⟩ := Option.map_eq_some_iff.mp hrun
  obtain ⟨r, hr, hstatus⟩ := Option.map_eq_some_iff.mp hrow
  obtain ⟨hoverdue, htimely⟩ := review_window Sample.database_initial hc
  refine ⟨c, r, hc, hr, hstatus, hoverdue 0 r hr, htimely ?_ 0 r hr⟩
  exact fun first label rest b hlabels hfirst =>
    Sample.prompt_of_inTime (System.of_everyStep _ Sample.lastMoment_inTime hlabels hfirst)

/-- The approval that takes its time at the deadline. -/
theorem late_approval : ∃ c r, 0 < Sample.deployment.settings.elevationRequestTtlSeconds ∧
    ((system Sample.deployment).recorded .free).run Sample.late (System.init ⟨Sample.database, []⟩) =
      some c ∧
    c.shared.state.request 0 = some r ∧ r.status = .approved ∧ ¬ r.Timely := by
  have hrun : (((system Sample.deployment).recorded .free).run Sample.late
      (System.init ⟨Sample.database, []⟩)).map (fun c => (c.shared.state.request 0).map fun r =>
        (r.status, r.reviewedAt, r.expiresAt)) =
      some (some (.approved, some Sample.deadline, Sample.deadline)) := by
    decide +kernel
  obtain ⟨c, hc, hrow⟩ := Option.map_eq_some_iff.mp hrun
  obtain ⟨r, hr, hcolumns⟩ := Option.map_eq_some_iff.mp hrow
  obtain ⟨hstatus, hrest⟩ := Prod.mk.inj hcolumns
  obtain ⟨hreviewed, hexpires⟩ := Prod.mk.inj hrest
  refine ⟨c, r, by decide, hc, hr, hstatus, fun htimely => ?_⟩
  obtain ⟨time, htime, hlt⟩ := htimely (.inl hstatus)
  rw [hreviewed] at htime
  obtain rfl := Option.some.inj htime
  rw [hexpires] at hlt
  exact Nat.lt_irrefl _ hlt

end ElevateGate.Backend
