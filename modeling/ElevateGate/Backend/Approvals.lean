import ElevateGate.Backend.Rules

/-!
# Every endpoint keeps the approval invariant

First what each write does to the description of a session's own rows, then one rule for each
repository function that writes, then the endpoints. The main results are about whole runs: the
invariant of the committed rows holds in every reachable state, and decisions are final between
any two states of a run.
-/

namespace ElevateGate.Backend

open Interaction Time Text Handler

variable {deployment : Deployment} {s s' : State} {i : Sid} {id : Nat} {β : Type}
  {Q : β → State → Prop}

section LocalWrites

variable {nextId : Table → Nat}

/-- Writing an audit row does not matter. -/
theorem Local.written_audit {hole : Option Nat} (h : Local deployment s i hole)
    {row : Row ⟨.auditLogs, id⟩} :
    Local deployment (s.written i .auditLogs id row nextId) i hole :=
  h.transfer (fun _ _ ht => own_written_ne (by simp [ht])) (fun _ _ _ _ _ => rfl)
    (.of_committed rfl fun _ h => h)

/-- A new request is pending. -/
theorem Local.written_request {hole : Option Nat} (h : Local deployment s i hole)
    {row : Row ⟨.elevationRequests, id⟩} (hreviewed : Reviewed row.record)
    (hstatus : ElevationRequest.status row.record = .pending)
    (hcom : s.com .elevationRequests id = none) (hown : s.own i .elevationRequests id = none) :
    Local deployment (s.written i .elevationRequests id row nextId) i hole := by
  have hother : ∀ id', id' ≠ id →
      (s.written i .elevationRequests id row nextId).ownRequest i id' = s.ownRequest i id' :=
    fun id' hne => own_written_ne (by simp [hne])
  have happroval : ∀ aid, (s.written i .elevationRequests id row nextId).ownApproval i aid
      = s.ownApproval i aid := fun aid => own_written_ne (by simp)
  refine ⟨fun id' => (own_written_ne (by simp)).trans (h.device id'), ?_, ?_, ?_, ?_⟩
  · intro id' r hr
    by_cases hid : id' = id
    · subst hid
      obtain rfl := Option.some.inj (own_written_self.symm.trans hr)
      refine ⟨hreviewed, fun old hold => ?_⟩
      rw [State.request, com_written, hcom] at hold
      contradiction
    · rw [hother id' hid] at hr
      exact h.request id' r hr
  · intro id' r hr happroved hhole hpending
    by_cases hid : id' = id
    · subst hid
      obtain rfl := Option.some.inj (own_written_self.symm.trans hr)
      rw [hstatus] at happroved
      contradiction
    · rw [hother id' hid] at hr
      obtain ⟨aid, a, ha, hrest⟩ := h.approved id' r hr happroved hhole hpending
      exact ⟨aid, a, (happroval aid).trans ha, hrest⟩
  · intro aid a ha
    rw [happroval] at ha
    refine (h.approval aid a ha).imp (fun h => h) ?_
    rintro ⟨hnew, hhole, r, hr, happroved, hpending, hbinds⟩
    have hne : a.elevationRequestId ≠ id := by
      rintro heq
      rw [heq, State.ownRequest, hown] at hr
      contradiction
    exact ⟨hnew, hhole, r, (hother _ hne).trans hr, happroved, hpending,
      hbinds.stable (.of_committed rfl fun _ h => h)⟩
  · intro aid aid' a a' ha ha'
    rw [happroval] at ha ha'
    exact h.unique aid aid' a a' ha ha'

/-- A visible pending request was pending when it was committed, if it was. -/
theorem pending_of_view {hole : Option Nat} (h : Local deployment s i hole)
    {row : Row ⟨.elevationRequests, id⟩}
    (hview : s.db.view i ⟨.elevationRequests, id⟩ = some row)
    (hpending : ElevationRequest.status row.record = .pending) {old : ElevationRequest}
    (hold : s.request id = some old) : old.status = .pending ∧ Decides old row.record := by
  rcases view_eq_some hview with hown | ⟨-, hcom⟩
  · have hdecides := (h.request id row.record hown).2 old hold
    refine ⟨?_, hdecides⟩
    by_contra hdecided
    exact hdecided ((hdecides.final hdecided).1.symm.trans hpending)
  · rw [State.request, hcom] at hold
    obtain rfl := Option.some.inj hold
    exact ⟨hpending, Decides.refl _⟩

/-- Deciding a visible pending request leaves a hole if it is approved. -/
theorem Local.written_decision (h : Local deployment s i none)
    {row row' : Row ⟨.elevationRequests, id⟩}
    (hview : s.db.view i ⟨.elevationRequests, id⟩ = some row)
    (hpending : ElevationRequest.status row.record = .pending)
    (hdecides : Decides row.record row'.record) (hreviewed : Reviewed row'.record) :
    Local deployment (s.written i .elevationRequests id row' nextId) i
      (if ElevationRequest.status row'.record = .approved then some id else none) := by
  have hother : ∀ id', id' ≠ id →
      (s.written i .elevationRequests id row' nextId).ownRequest i id' = s.ownRequest i id' :=
    fun id' hne => own_written_ne (by simp [hne])
  have happroval : ∀ aid, (s.written i .elevationRequests id row' nextId).ownApproval i aid
      = s.ownApproval i aid := fun aid => own_written_ne (by simp)
  refine ⟨fun id' => (own_written_ne (by simp)).trans (h.device id'), ?_, ?_, ?_, ?_⟩
  · intro id' r hr
    by_cases hid : id' = id
    · subst hid
      obtain rfl := Option.some.inj (own_written_self.symm.trans hr)
      exact ⟨hreviewed, fun old hold => (pending_of_view h hview hpending hold).2.trans hdecides⟩
    · rw [hother id' hid] at hr
      exact h.request id' r hr
  · intro id' r hr happroved hhole hold
    by_cases hid : id' = id
    · subst hid
      obtain rfl := Option.some.inj (own_written_self.symm.trans hr)
      rw [if_pos happroved] at hhole
      exact absurd rfl hhole
    · rw [hother id' hid] at hr
      obtain ⟨aid, a, ha, hrest⟩ := h.approved id' r hr happroved (by simp) hold
      exact ⟨aid, a, (happroval aid).trans ha, hrest⟩
  · intro aid a ha
    rw [happroval] at ha
    refine (h.approval aid a ha).imp (fun h => h) ?_
    rintro ⟨hnew, -, r, hr, happroved, hold, hbinds⟩
    have hne : a.elevationRequestId ≠ id := by
      rintro heq
      rw [heq] at hr
      rcases view_eq_some hview with hown | ⟨hnone, -⟩
      · rw [State.ownRequest, hown] at hr
        obtain rfl := Option.some.inj hr
        rw [hpending] at happroved
        contradiction
      · rw [State.ownRequest, hnone] at hr
        contradiction
    refine ⟨hnew, ?_, r, (hother _ hne).trans hr, happroved, hold,
      hbinds.stable (.of_committed rfl fun _ h => h)⟩
    split
    · exact fun heq => hne (Option.some.inj heq).symm
    · simp
  · intro aid aid' a a' ha ha'
    rw [happroval] at ha ha'
    exact h.unique aid aid' a a' ha ha'

/-- Inserting the approval of the request in the hole fills it. -/
theorem Local.written_approval {r : ElevationRequest}
    (h : Local deployment s i (some r.id)) (hr : s.ownRequest i r.id = some r)
    (hstatus : r.status = .approved)
    (hpending : ∀ old, s.request r.id = some old → old.status = .pending)
    {row : Row ⟨.approvals, id⟩} (hrequest : Approval.elevationRequestId row.record = r.id)
    (hbinds : Binds deployment s r row.record) (hcom : s.com .approvals id = none)
    (hown : s.own i .approvals id = none) :
    Local deployment (s.written i .approvals id row nextId) i none := by
  have hother : ∀ aid, aid ≠ id →
      (s.written i .approvals id row nextId).ownApproval i aid = s.ownApproval i aid :=
    fun aid hne => own_written_ne (by simp [hne])
  have hsame : ∀ id', (s.written i .approvals id row nextId).ownRequest i id'
      = s.ownRequest i id' := fun id' => own_written_ne (by simp)
  have hevolves : Evolves s (s.written i .approvals id row nextId) :=
    .of_committed rfl fun _ h => h
  refine ⟨fun id' => (own_written_ne (by simp)).trans (h.device id'), ?_, ?_, ?_, ?_⟩
  · intro id' r' hr'
    rw [hsame] at hr'
    exact h.request id' r' hr'
  · intro id' r' hr' happroved _ hold
    rw [hsame] at hr'
    by_cases hid : id' = r.id
    · exact ⟨id, row.record, own_written_self, hcom, hrequest.trans hid.symm⟩
    · obtain ⟨aid, a, ha, hnew, heq⟩ :=
        h.approved id' r' hr' happroved (fun heq => hid (Option.some.inj heq).symm) hold
      have hne : aid ≠ id := by
        rintro rfl
        rw [State.ownApproval, hown] at ha
        contradiction
      exact ⟨aid, a, (hother aid hne).trans ha, hnew, heq⟩
  · intro aid a ha
    by_cases haid : aid = id
    · subst haid
      obtain rfl := Option.some.inj (own_written_self.symm.trans ha)
      refine Or.inr ⟨hcom, by simp, r, ?_, hstatus, ?_, hbinds.stable hevolves⟩
      · rw [hsame, hrequest]
        exact hr
      · rw [hrequest]
        exact hpending
    · rw [hother aid haid] at ha
      refine (h.approval aid a ha).imp (fun h => h) ?_
      rintro ⟨hnew, -, r', hr', hrest⟩
      obtain ⟨happroved, hold, hbinds'⟩ := hrest
      exact ⟨hnew, by simp, r', (hsame _).trans hr', happroved, hold, hbinds'.stable hevolves⟩
  · intro aid aid' a a' ha ha' hnew hnew' heq
    -- an approval that was inserted before is not for the request in the hole
    have hfilled : ∀ aid a, aid ≠ id →
        (s.written i .approvals id row nextId).ownApproval i aid = some a →
        s.approval aid = none → a.elevationRequestId ≠ r.id := by
      intro aid a hne ha hnew heq
      rw [hother aid hne] at ha
      rcases h.approval aid a ha with ⟨old, hold, -⟩ | ⟨-, hhole, -⟩
      · rw [hnew] at hold
        contradiction
      · exact hhole (by rw [heq])
    by_cases haid : aid = id
    · by_cases haid' : aid' = id
      · exact haid.trans haid'.symm
      · subst haid
        obtain rfl := Option.some.inj (own_written_self.symm.trans ha)
        exact absurd (heq.symm.trans hrequest) (hfilled aid' a' haid' ha' hnew')
    · by_cases haid' : aid' = id
      · subst haid'
        obtain rfl := Option.some.inj (own_written_self.symm.trans ha')
        exact absurd (heq.trans hrequest) (hfilled aid a haid ha hnew)
      · rw [hother aid haid] at ha
        rw [hother aid' haid'] at ha'
        exact h.unique aid aid' a a' ha ha' hnew hnew' heq

/-- Consuming a visible approval keeps a session's rows in order. -/
theorem Local.written_consumed {hole : Option Nat} (h : Local deployment s i hole)
    {row row' : Row ⟨.approvals, id⟩}
    (hview : s.db.view i ⟨.approvals, id⟩ = some row)
    (hconsumes : Consumes row.record row'.record) :
    Local deployment (s.written i .approvals id row' nextId) i hole := by
  have hother : ∀ aid, aid ≠ id →
      (s.written i .approvals id row' nextId).ownApproval i aid = s.ownApproval i aid :=
    fun aid hne => own_written_ne (by simp [hne])
  have hsame : ∀ id', (s.written i .approvals id row' nextId).ownRequest i id'
      = s.ownRequest i id' := fun id' => own_written_ne (by simp)
  have hevolves : Evolves s (s.written i .approvals id row' nextId) :=
    .of_committed rfl fun _ h => h
  have hcolumn : Approval.elevationRequestId row'.record = Approval.elevationRequestId row.record :=
    by rw [hconsumes.columns]
  -- an approval that this session inserted was already its own before
  have hinserted : ∀ aid a, (s.written i .approvals id row' nextId).ownApproval i aid = some a →
      s.approval aid = none → ∃ a0, s.ownApproval i aid = some a0 ∧ Consumes a0 a := by
    intro aid a ha hnew
    by_cases haid : aid = id
    · subst haid
      obtain rfl := Option.some.inj (own_written_self.symm.trans ha)
      rcases view_eq_some hview with hown | ⟨-, hcom⟩
      · exact ⟨row.record, hown, hconsumes⟩
      · rw [State.approval, hcom] at hnew
        contradiction
    · exact ⟨a, (hother aid haid) ▸ ha, Consumes.refl a⟩
  refine ⟨fun id' => (own_written_ne (by simp)).trans (h.device id'), ?_, ?_, ?_, ?_⟩
  · intro id' r hr
    rw [hsame] at hr
    exact h.request id' r hr
  · intro id' r hr happroved hhole hold
    rw [hsame] at hr
    obtain ⟨aid, a, ha, hnew, heq⟩ := h.approved id' r hr happroved hhole hold
    by_cases haid : aid = id
    · subst haid
      refine ⟨aid, row'.record, own_written_self, hnew, ?_⟩
      rcases view_eq_some hview with hown | ⟨hnone, -⟩
      · rw [State.ownApproval, hown] at ha
        obtain rfl := Option.some.inj ha
        exact hcolumn.trans heq
      · rw [State.ownApproval, hnone] at ha
        contradiction
    · exact ⟨aid, a, (hother aid haid).trans ha, hnew, heq⟩
  · intro aid a ha
    by_cases hnew : s.approval aid = none
    · obtain ⟨a0, ha0, hconsumes0⟩ := hinserted aid a ha hnew
      rcases h.approval aid a0 ha0 with ⟨old, hold, -⟩ | ⟨-, hhole, r, hr, happroved, hold, hbinds⟩
      · rw [hnew] at hold
        contradiction
      · have heq : a.elevationRequestId = a0.elevationRequestId := by rw [hconsumes0.columns]
        rw [← heq] at hhole hr hold
        exact Or.inr ⟨hnew, hhole, r, (hsame _).trans hr, happroved, hold,
          (hbinds.evolve (Decides.refl r) hconsumes0).stable hevolves⟩
    · obtain ⟨old, hold⟩ := Option.ne_none_iff_exists'.mp hnew
      refine Or.inl ⟨old, hold, ?_⟩
      by_cases haid : aid = id
      · subst haid
        obtain rfl := Option.some.inj (own_written_self.symm.trans ha)
        rcases view_eq_some hview with hown | ⟨-, hcom⟩
        · rcases h.approval aid row.record hown with ⟨old', hold', hconsumes'⟩ | ⟨hnone, -⟩
          · rw [hold] at hold'
            obtain rfl := Option.some.inj hold'
            exact hconsumes'.trans hconsumes
          · exact absurd hnone hnew
        · rw [State.approval, hcom] at hold
          obtain rfl := Option.some.inj hold
          exact hconsumes
      · rw [hother aid haid] at ha
        rcases h.approval aid a ha with ⟨old', hold', hconsumes'⟩ | ⟨hnone, -⟩
        · rw [hold] at hold'
          obtain rfl := Option.some.inj hold'
          exact hconsumes'
        · exact absurd hnone hnew
  · intro aid aid' a a' ha ha' hnew hnew' heq
    obtain ⟨a0, ha0, hconsumes0⟩ := hinserted aid a ha hnew
    obtain ⟨a1, ha1, hconsumes1⟩ := hinserted aid' a' ha' hnew'
    refine h.unique aid aid' a0 a1 ha0 ha1 hnew hnew' ?_
    rw [hconsumes0.columns, hconsumes1.columns] at heq
    exact heq

end LocalWrites

section Repositories

variable {hole : Option Nat}

/-- A device that the session has read: its row is committed and keeps its UUID. -/
def Known (s : State) (device : Device) : Prop :=
  ∃ d, s.device device.id = some d ∧ d.deviceUuid = device.deviceUuid

/-- A known device stays known. -/
theorem Known.stable {device : Device} (h : Known s device) (hevolves : Evolves s s') :
    Known s' device := by
  obtain ⟨d, hd, huuid⟩ := h
  obtain ⟨d', hd', heq⟩ := hevolves.device _ d hd
  exact ⟨d', hd', heq.trans huuid⟩

/-- A device that a query returns is known. -/
private theorem known_of_visible (hlocal : Local deployment s i hole) {device : Device}
    (h : s.own i .devices device.id = some device ∨
      (s.own i .devices device.id = none ∧ s.com .devices device.id = some device)) :
    Known s device := by
  rcases h with hown | ⟨-, hcom⟩
  · rw [hlocal.device] at hown
    contradiction
  · exact ⟨device, hcom, rfl⟩

/-- Looking a device up by its UUID. -/
theorem keeps_getByUuid {deviceUuid : Uuid} {f : Option Device → Handler β}
    (hlocal : Local deployment s i hole)
    (hnone : ∀ s', Inv deployment s' → Rely i s s' → Keeps deployment i Q (f none) s')
    (hsome : ∀ device s', Inv deployment s' → Rely i s s' → Known s' device →
      Keeps deployment i Q (f (some device)) s') :
    Keeps deployment i Q (DeviceRepository.getByUuid deviceUuid >>= f) s := by
  rw [DeviceRepository.getByUuid, bind_assoc]
  refine keeps_select fun rows s' hinv hrely hrows => ?_
  exact keeps_scalarOneOrNone (hnone s' hinv hrely) fun device hdevice =>
    hsome device s' hinv hrely (known_of_visible (hlocal.stable hrely) (hrows device hdevice).2)

/-- Looking a device up by its primary key. -/
theorem keeps_getById {deviceId : Nat} {f : Option Device → Handler β}
    (hlocal : Local deployment s i hole)
    (hnone : ∀ s', Inv deployment s' → Rely i s s' → Keeps deployment i Q (f none) s')
    (hsome : ∀ device s', Inv deployment s' → Rely i s s' → Known s' device →
      device.id = deviceId → Keeps deployment i Q (f (some device)) s') :
    Keeps deployment i Q (DeviceRepository.getById deviceId >>= f) s := by
  rw [DeviceRepository.getById, bind_assoc]
  refine keeps_select fun rows s' hinv hrely hrows => ?_
  refine keeps_scalarOneOrNone (hnone s' hinv hrely) fun device hdevice => ?_
  obtain ⟨hid, hvisible⟩ := hrows device hdevice
  exact hsome device s' hinv hrely (known_of_visible (hlocal.stable hrely) hvisible)
    (of_decide_eq_true hid)

/-- Auditing does not change a request. -/
theorem keeps_writeAuditLog {actorType : ActorType} {actorId action targetType targetId : String}
    {metadata : Option (List (String × MetadataValue))} {f : Unit → Handler β}
    (hlocal : Local deployment s i hole)
    (h : ∀ s', Inv deployment s' → Evolves s s' → Local deployment s' i hole →
      (∀ id, s'.ownRequest i id = s.ownRequest i id) → Keeps deployment i Q (f ()) s') :
    Keeps deployment i Q
      (writeAuditLog actorType actorId action targetType targetId metadata >>= f) s := by
  rw [writeAuditLog, bind_assoc]
  refine keeps_insert fun s' row nextId time _ hinv hrely _ _ hinv' => ?_
  refine h _ hinv' (hrely.evolves.trans (.of_committed rfl fun _ h => h))
    (hlocal.stable hrely).written_audit fun id => ?_
  exact (own_written_ne (by simp)).trans (hrely.own _ _)

/-- Two rows with the same UUID agree on the unique index of requests. -/
private theorem sameIndex_request {r r' : ElevationRequest} (h : r'.requestUuid = r.requestUuid) :
    SameIndex .elevationRequests r r' := fun x => by
  simp [Table.clash, h]

/-- A consumed approval agrees with the approval on the unique indexes. -/
private theorem sameIndex_approval {a a' : Approval}
    (hrequest : a'.elevationRequestId = a.elevationRequestId) (hnonce : a'.nonce = a.nonce) :
    SameIndex .approvals a a' := fun x => by
  simp [Table.clash, hrequest, hnonce]

/-- A new request is the session's own and pending. -/
theorem keeps_create {values : ElevationRequestRepository.Values} {f : ElevationRequest → Handler β}
    (hlocal : Local deployment s i none)
    (h : ∀ r s', Inv deployment s' → Evolves s s' → Local deployment s' i none →
      s'.ownRequest i r.id = some r → r.deviceId = values.deviceId →
      Keeps deployment i Q (f r) s') :
    Keeps deployment i Q (ElevationRequestRepository.create values >>= f) s := by
  have hinsert : ∀ requestUuid s, Local deployment s i none →
      (∀ r s', Inv deployment s' → Evolves s s' → Local deployment s' i none →
        s'.ownRequest i r.id = some r → r.deviceId = values.deviceId →
        Keeps deployment i Q (f r) s') →
      Keeps deployment i Q ((if values.fitsColumns then insert .elevationRequests
        (ElevationRequestRepository.newRow values requestUuid) else raise .dbapiError) >>= f) s := by
    intro requestUuid s hlocal h
    split
    swap
    · exact keeps_raise _
    refine keeps_insert fun s' row nextId time hrow hinv hrely hcom hown hinv' => ?_
    subst hrow
    refine h _ _ hinv' (hrely.evolves.trans (.of_committed rfl fun _ h => h)) ?_
      own_written_self rfl
    exact (hlocal.stable hrely).written_request
      (by simp [Reviewed, ElevationRequestRepository.newRow]) rfl hcom (hown i)
  rw [ElevationRequestRepository.create]
  cases values.requestUuid with
  | some requestUuid => exact hinsert requestUuid s hlocal h
  | none =>
    refine keeps_uuid4 fun requestUuid s' _ hrely => hinsert requestUuid s' (hlocal.stable hrely) ?_
    exact fun r s'' hinv hevolves => h r s'' hinv (hrely.evolves.trans hevolves)

/-- Moving a pending request to a new status. An approved one is the hole to be filled. -/
theorem keeps_transitionStatus {newStatus : ElevationRequestStatus} {reviewedBy : Option Nat}
    {reviewedAt : Datetime} {f : Option ElevationRequest → Handler β} (hnew : newStatus ≠ .pending)
    (hlocal : Local deployment s i none)
    (hmiss : ∀ s', Inv deployment s' → Rely i s s' → Keeps deployment i Q (f none) s')
    (hhit : ∀ r s', Inv deployment s' → Evolves s s' →
      Local deployment s' i (if newStatus = .approved then some id else none) →
      s'.ownRequest i id = some r → r.id = id → r.status = newStatus →
      (∀ old, s'.request id = some old → old.status = .pending) →
      (∀ own, s.ownRequest i id = some own → r.deviceId = own.deviceId) →
      Keeps deployment i Q (f (some r)) s') :
    Keeps deployment i Q (ElevationRequestRepository.transitionStatus id .pending newStatus
      reviewedBy reviewedAt >>= f) s := by
  refine keeps_updateWhere (fun _ r => sameIndex_request rfl) hmiss ?_
  intro s' row hinv hrely hview hcondition hinv'
  have hpending : ElevationRequest.status row.record = .pending := of_decide_eq_true hcondition
  have hlocal' := hlocal.stable hrely
  let decided : Row ⟨.elevationRequests, id⟩ := row.modify
    (ElevationRequestRepository.decided newStatus reviewedBy reviewedAt) fun _ => rfl
  have hdecides : Decides row.record decided.record :=
    ⟨rfl, rfl, rfl, rfl, fun hdecided => absurd hpending hdecided⟩
  have hreviewed : Reviewed decided.record := by
    simp [Reviewed, decided, Row.modify, ElevationRequestRepository.decided, hnew]
  refine hhit _ _ hinv' (hrely.evolves.trans (.of_committed rfl fun _ h => h))
    (hlocal'.written_decision hview hpending hdecides hreviewed) own_written_self row.id_eq rfl
    (fun old hold => (pending_of_view hlocal' hview hpending hold).1) fun own hown => ?_
  rw [State.ownRequest, ← hrely.own] at hown
  rcases view_eq_some hview with hown' | ⟨hnone, -⟩
  · rw [hown] at hown'
    rw [Option.some.inj hown']
    rfl
  · rw [hown] at hnone
    contradiction

/-- Expiring the stale requests of a device leaves no hole. -/
theorem keeps_expireStale {deviceId : Nat} {now : Datetime} {f : Unit → Handler β}
    (hlocal : Local deployment s i none)
    (h : ∀ s', Inv deployment s' → Local deployment s' i none → Keeps deployment i Q (f ()) s') :
    Keeps deployment i Q
      (ElevationRequestRepository.expireStalePendingRequestsForDevice deviceId now >>= f) s := by
  rw [ElevationRequestRepository.expireStalePendingRequestsForDevice, bind_assoc]
  refine keeps_select fun rows s' hinv hrely hrows => ?_
  refine Discipline.Safe.bind
    (Q := fun result s => match result with
      | .ok () => Local deployment s i none
      | .error _ => True) ?_ (fun _ s'' hinv' hlocal' => h s'' hinv' hlocal') (fun _ _ _ _ => trivial)
  refine Discipline.Safe.forEach (P := fun s => Local deployment s i none) (hlocal.stable hrely)
    (fun _ _ hP hrely _ => hP.stable hrely) ?_ fun _ _ hP => hP
  intro r _ s1 _ hlocal1
  change Keeps deployment i (fun _ s => Local deployment s i none)
    (updateWhere .elevationRequests (ElevationRequest.id r) _ _ _ >>= fun _ => pure ()) s1
  refine keeps_updateWhere (fun _ _ => sameIndex_request rfl)
    (fun s2 _ hrely2 => keeps_pure fun s3 _ hrely3 => hlocal1.stable (hrely2.trans hrely3)) ?_
  intro s2 row _ hrely2 hview hcondition _
  obtain ⟨-, hpending, -⟩ := of_decide_eq_true hcondition
  refine keeps_pure fun s3 _ hrely3 => Local.stable ?_ hrely3
  exact (hlocal1.stable hrely2).written_decision hview hpending
    ⟨rfl, rfl, rfl, rfl, fun hdecided => absurd hpending hdecided⟩ (by simp [Reviewed, Row.modify])

/-- Issuing the approval of the request in the hole fills it. -/
theorem keeps_issueApproval {r : ElevationRequest} {device : Device} {f : Approval → Handler β}
    (hlocal : Local deployment s i (some r.id)) (hr : s.ownRequest i r.id = some r)
    (hstatus : r.status = .approved)
    (hpending : ∀ old, s.request r.id = some old → old.status = .pending)
    (hknown : Known s device) (hdevice : r.deviceId = device.id)
    (h : ∀ a s', Inv deployment s' → Evolves s s' → Local deployment s' i none →
      Keeps deployment i Q (f a) s') :
    Keeps deployment i Q (issueApproval deployment r device >>= f) s := by
  rw [issueApproval, bind_assoc]
  refine keeps_now fun issuedAt s1 _ hrely1 => ?_
  rw [bind_assoc]
  refine keeps_addSeconds fun expiresAt => ?_
  rw [bind_assoc]
  refine keeps_tokenUrlsafe fun nonce s2 _ hrely2 => ?_
  rw [bind_assoc]
  cases hpayload : Signing.buildCanonicalPayload deployment.casing device.deviceUuid.textD
      r.requestUuid.textD r.sha256.text expiresAt nonce with
  | error error => exact keeps_raise error
  | ok payload =>
    change Keeps deployment i Q ((signPayload ⟨r, device, expiresAt, nonce⟩ payload >>= _) >>= f) s2
    rw [bind_assoc]
    refine keeps_signPayload hpayload fun s3 _ hrely3 => ?_
    refine keeps_insert fun s4 row nextId time hrow hinv hrely4 hcom hown hinv' => ?_
    have hrely : Rely i s s4 := ((hrely1.trans hrely2).trans hrely3).trans hrely4
    have hevolves := hrely.evolves
    have hcurrent : s4.ownRequest i r.id = some r := (hrely.own _ _).trans hr
    have hbinds : Binds deployment s4 r row.record := by
      obtain ⟨d, hd, huuid⟩ := hknown.stable hevolves
      rw [hrow]
      exact ⟨⟨d, by rwa [hdevice], huuid⟩, rfl, payload, hpayload, rfl⟩
    refine h _ _ hinv' (hevolves.trans (.of_committed rfl fun _ h => h))
      ((hlocal.stable hrely).written_approval hcurrent hstatus (fun old hold => ?_) (by rw [hrow]; rfl)
        hbinds hcom (hown i))
    exact hpending old (by rwa [State.request, hrely.com hr] at hold)

/-- Consuming an approval. -/
theorem keeps_markConsumed {approvalId : Nat} {consumedAt : Datetime}
    {f : Option Approval → Handler β} (hlocal : Local deployment s i none)
    (h : ∀ a s', Inv deployment s' → Local deployment s' i none → Keeps deployment i Q (f a) s') :
    Keeps deployment i Q (ApprovalRepository.markConsumed approvalId consumedAt >>= f) s := by
  refine keeps_updateWhere (fun _ a => sameIndex_approval rfl rfl)
    (fun s' hinv hrely => h none s' hinv (hlocal.stable hrely)) ?_
  intro s' row hinv hrely hview hcondition hinv'
  refine h _ _ hinv' ((hlocal.stable hrely).written_consumed hview ⟨rfl, fun hsome => ?_⟩)
  rw [Option.isNone_iff_eq_none.mp hcondition] at hsome
  contradiction

end Repositories

section Endpoints

/-- The rate limiter touches nothing. -/
theorem keeps_limit {admitted : Bool} {f : Unit → Handler β} (h : Keeps deployment i Q (f ()) s) :
    Keeps deployment i Q (limit admitted >>= f) s := by
  rw [limit_bind]
  split
  · exact h
  · exact keeps_raise _

/-- Authentication only reads. -/
theorem keeps_getCurrentDevice {credentials : Option BasicCredentials} {f : Device → Handler β}
    (hlocal : Local deployment s i none)
    (h : ∀ device s', Inv deployment s' → Rely i s s' → Known s' device →
      Keeps deployment i Q (f device) s') :
    Keeps deployment i Q (getCurrentDevice deployment credentials >>= f) s := by
  cases credentials with
  | none => exact keeps_httpError_bind _ _ _
  | some credentials =>
    simp only [getCurrentDevice]
    split
    · rw [bind_assoc]
      refine keeps_getByUuid hlocal (fun _ _ _ => keeps_httpError_bind _ _ _) ?_
      intro device s' hinv hrely hknown
      dsimp only
      split
      · exact keeps_httpError_bind _ _ _
      · split
        · exact keeps_httpError_bind _ _ _
        · exact h device s' hinv hrely hknown
    · exact keeps_httpError_bind _ _ _

/-- Authentication by bearer token only reads. -/
theorem keeps_getCurrentDeviceBearer {credentials : Option String} {f : Device → Handler β}
    (hlocal : Local deployment s i none)
    (h : ∀ device s', Inv deployment s' → Rely i s s' → Known s' device →
      Keeps deployment i Q (f device) s') :
    Keeps deployment i Q (getCurrentDeviceBearer deployment credentials >>= f) s := by
  cases credentials with
  | none => exact keeps_httpError_bind _ _ _
  | some credentials =>
    simp only [getCurrentDeviceBearer]
    split
    · exact keeps_httpError_bind _ _ _
    · split
      · rw [bind_assoc]
        refine keeps_getByUuid hlocal (fun _ _ _ => keeps_httpError_bind _ _ _) ?_
        intro device s' hinv hrely hknown
        dsimp only
        split
        · exact keeps_httpError_bind _ _ _
        · split
          · exact keeps_httpError_bind _ _ _
          · exact h device s' hinv hrely hknown
      · exact keeps_httpError_bind _ _ _

/-- Authentication of an administrator only reads. -/
theorem keeps_requireRole {roles : List AdminRole} {credentials : Option String}
    {f : AdminUser → Handler β}
    (h : ∀ admin s', Inv deployment s' → Rely i s s' → Keeps deployment i Q (f admin) s') :
    Keeps deployment i Q (requireRole deployment roles credentials >>= f) s := by
  rw [requireRole, bind_assoc]
  cases credentials with
  | none => exact keeps_httpError_bind _ _ _
  | some token =>
    simp only [getCurrentAdmin, bind_assoc]
    refine keeps_now fun time s1 _ hrely1 => ?_
    split
    · split
      · rw [bind_assoc, AdminUserRepository.getById, bind_assoc]
        refine keeps_select fun rows s2 hinv2 hrely2 _ => ?_
        refine keeps_scalarOneOrNone (keeps_httpError_bind _ _ _) fun admin _ => ?_
        dsimp only
        split
        · exact keeps_httpError_bind _ _ _
        · simp only [pure_bind]
          split
          · exact h admin s2 hinv2 (hrely1.trans hrely2)
          · exact keeps_httpError_bind _ _ _
      · exact keeps_httpError_bind _ _ _
    · exact keeps_httpError_bind _ _ _

/-- Reloading a request only reads. -/
theorem keeps_refresh {elevationRequestId : Nat} :
    Keeps deployment i (fun _ _ => True) (refreshElevationRequest elevationRequestId) s := by
  refine keeps_query fun snapshot s' _ _ _ => ?_
  refine keeps_scalarOneOrNone (keeps_raise _) fun request _ => ?_
  refine keeps_scalarOneOrNone (keeps_raise _) fun device _ => ?_
  exact keeps_pure fun _ _ _ => trivial

/-- A dashboard-facing submission keeps the discipline. -/
theorem keeps_submitElevationRequest (hlocal : Local deployment s i none)
    (credentials : Option BasicCredentials) (body : ElevationRequestCreate) (admitted : Bool) :
    Keeps deployment i (fun _ _ => True)
      (submitElevationRequest deployment credentials body admitted) s := by
  refine keeps_getCurrentDevice hlocal fun device s1 _ hrely1 _ => keeps_limit ?_
  refine keeps_now fun time s2 _ hrely2 => keeps_addSeconds fun expiresAt => ?_
  refine keeps_create (hlocal.stable (hrely1.trans hrely2)) fun r s3 _ _ hlocal3 _ _ => ?_
  refine keeps_writeAuditLog hlocal3 fun s4 _ _ hlocal4 _ => ?_
  exact keeps_commit hlocal4 fun s5 _ _ _ => keeps_refresh

/-- Auto-approval keeps the session's rows in order, whether it approves or not. -/
theorem keeps_tryAutoApprove {r : ElevationRequest} {device : Device} {f : Unit → Handler β}
    (hlocal : Local deployment s i none) (hr : s.ownRequest i r.id = some r)
    (hknown : Known s device) (hdevice : r.deviceId = device.id)
    (h : ∀ s', Inv deployment s' → Local deployment s' i none → Keeps deployment i Q (f ()) s')
    (hinv : Inv deployment s) :
    Keeps deployment i Q (tryAutoApprove deployment r device >>= f) s := by
  rw [tryAutoApprove]
  split
  · exact h s hinv hlocal
  · split
    · rw [bind_assoc, AppAllowlistRepository.findMatch, bind_assoc]
      refine keeps_select fun rows s1 hinv1 hrely1 _ => ?_
      refine keeps_scalarOneOrNone (h s1 hinv1 (hlocal.stable hrely1)) fun entry _ => ?_
      simp only [bind_assoc]
      refine keeps_now fun time s2 _ hrely2 => ?_
      have hrely := hrely1.trans hrely2
      refine keeps_transitionStatus (by decide) (hlocal.stable hrely)
        (fun s3 hinv3 hrely3 => h s3 hinv3 (hlocal.stable (hrely.trans hrely3))) ?_
      intro updated s3 _ hevolves3 hlocal3 hown3 hid hstatus hpending hsame
      have hdeviceId : updated.deviceId = device.id :=
        (hsame r ((hrely.own _ _).trans hr)).trans hdevice
      rw [if_pos rfl, ← hid] at hlocal3
      rw [← hid] at hown3 hpending
      simp only [bind_assoc]
      refine keeps_issueApproval hlocal3 hown3 hstatus hpending
        (hknown.stable (hrely.evolves.trans hevolves3)) hdeviceId fun a s4 _ _ hlocal4 => ?_
      exact keeps_writeAuditLog hlocal4 fun s5 hinv5 _ hlocal5 _ => h s5 hinv5 hlocal5
    · exact h s hinv hlocal

/-- The agent's submission keeps the discipline. -/
theorem keeps_agentSubmitRequest (hlocal : Local deployment s i none) (credentials : Option String)
    (body : AgentApprovalRequest) (admitted : Bool) :
    Keeps deployment i (fun _ _ => True)
      (agentSubmitRequest deployment credentials body admitted) s := by
  refine keeps_getCurrentDeviceBearer hlocal fun device s1 _ hrely1 hknown => keeps_limit ?_
  split
  · exact keeps_httpError _ _
  · refine keeps_now fun time s2 _ hrely2 => keeps_addSeconds fun expiresAt => ?_
    refine keeps_create (hlocal.stable (hrely1.trans hrely2)) ?_
    intro r s3 _ hevolves3 hlocal3 hown3 hdevice
    refine keeps_writeAuditLog hlocal3 fun s4 hinv4 hevolves4 hlocal4 hsame4 => ?_
    have hknown4 := hknown.stable (hrely2.evolves.trans (hevolves3.trans hevolves4))
    refine keeps_tryAutoApprove hlocal4 ((hsame4 _).trans hown3) hknown4 hdevice ?_ hinv4
    intro s5 _ hlocal5
    exact keeps_commit hlocal5 fun s6 _ _ _ => keeps_pure fun _ _ _ => trivial

/-- A reviewer's look at the request keeps the discipline. -/
theorem keeps_pendingRequest {elevationRequestId : Nat} {f : ElevationRequest → Handler β}
    (hlocal : Local deployment s i none)
    (h : ∀ r s', Inv deployment s' → Local deployment s' i none → Keeps deployment i Q (f r) s') :
    Keeps deployment i Q (pendingRequest elevationRequestId >>= f) s := by
  simp only [pendingRequest, ElevationRequestRepository.getById, bind_assoc]
  refine keeps_select fun rows s1 _ hrely1 _ => ?_
  refine keeps_scalarOneOrNone (keeps_httpError_bind _ _ _) fun r _ => ?_
  dsimp only
  split
  · exact keeps_httpError_bind _ _ _
  · simp only [rejectIfExpired, bind_assoc]
    refine keeps_now fun time s2 hinv2 hrely2 => ?_
    have hlocal2 := hlocal.stable (hrely1.trans hrely2)
    split
    · simp only [bind_assoc]
      refine keeps_transitionStatus (by decide) hlocal2 (fun s3 _ hrely3 => ?_) ?_
      · exact keeps_commit (hlocal2.stable hrely3) fun _ _ _ _ => keeps_httpError_bind _ _ _
      · intro _ s3 _ _ hlocal3 _ _ _ _ _
        exact keeps_commit hlocal3 fun _ _ _ _ => keeps_httpError_bind _ _ _
    · exact h r s2 hinv2 hlocal2

/-- Approving keeps the discipline. -/
theorem keeps_approveElevationRequest (hlocal : Local deployment s i none)
    (elevationRequestId : Nat) (credentials : Option String) :
    Keeps deployment i (fun _ _ => True)
      (approveElevationRequest deployment elevationRequestId credentials) s := by
  refine keeps_requireRole fun admin s1 _ hrely1 => ?_
  refine keeps_pendingRequest (hlocal.stable hrely1) fun r s2 _ hlocal2 => ?_
  refine keeps_now fun time s3 _ hrely3 => ?_
  refine keeps_transitionStatus (by decide) (hlocal2.stable hrely3)
    (fun _ _ _ => keeps_httpError _ _) ?_
  intro updated s4 _ _ hlocal4 hown4 hid hstatus hpending _
  rw [if_pos rfl, ← hid] at hlocal4
  rw [← hid] at hown4 hpending
  refine keeps_getById hlocal4 (fun _ _ _ => keeps_raise _) ?_
  intro device s5 _ hrely5 hknown hdevice
  refine keeps_issueApproval (hlocal4.stable hrely5) ((hrely5.own _ _).trans hown4) hstatus ?_ hknown
    hdevice.symm fun a s6 _ _ hlocal6 => ?_
  · intro old hold
    exact hpending old (by rwa [State.request, hrely5.com hown4] at hold)
  · refine keeps_writeAuditLog hlocal6 fun s7 _ _ hlocal7 _ => ?_
    exact keeps_commit hlocal7 fun _ _ _ _ => keeps_refresh

/-- Denying keeps the discipline. -/
theorem keeps_denyElevationRequest (hlocal : Local deployment s i none) (elevationRequestId : Nat)
    (reason credentials : Option String) :
    Keeps deployment i (fun _ _ => True)
      (denyElevationRequest deployment elevationRequestId reason credentials) s := by
  refine keeps_requireRole fun admin s1 _ hrely1 => ?_
  refine keeps_pendingRequest (hlocal.stable hrely1) fun r s2 _ hlocal2 => ?_
  refine keeps_now fun time s3 _ hrely3 => ?_
  refine keeps_transitionStatus (by decide) (hlocal2.stable hrely3)
    (fun _ _ _ => keeps_httpError _ _) ?_
  intro updated s4 _ _ hlocal4 _ _ _ _ _
  refine keeps_writeAuditLog hlocal4 fun s5 _ _ hlocal5 _ => ?_
  exact keeps_commit hlocal5 fun _ _ _ _ => keeps_refresh

/-- A poll expires the stale requests, commits, and reads. -/
theorem keeps_pollDecisions {device : Device} {since : Option Datetime}
    {f : List (ElevationRequest × Option Approval) → Handler β}
    (hlocal : Local deployment s i none)
    (h : ∀ rows s', Inv deployment s' → Keeps deployment i Q (f rows) s') :
    Keeps deployment i Q (pollDecisions device since >>= f) s := by
  simp only [pollDecisions, bind_assoc]
  refine keeps_now fun time s1 _ hrely1 => ?_
  refine keeps_expireStale (hlocal.stable hrely1) fun s2 _ hlocal2 => ?_
  refine keeps_commit hlocal2 fun s3 _ _ _ => ?_
  simp only [ApprovalRepository.listDecisionsForDeviceSince, bind_assoc]
  exact keeps_query fun snapshot s4 hinv4 _ _ => h _ s4 hinv4

/-- Consuming keeps the discipline. -/
theorem keeps_markApprovalConsumed (hlocal : Local deployment s i none) (approvalId : Nat)
    (credentials : Option BasicCredentials) (admitted : Bool) :
    Keeps deployment i (fun _ _ => True)
      (markApprovalConsumed deployment approvalId credentials admitted) s := by
  refine keeps_getCurrentDevice hlocal fun device s1 _ hrely1 _ => keeps_limit ?_
  simp only [ApprovalRepository.getById, bind_assoc]
  refine keeps_select fun rows s2 _ hrely2 _ => ?_
  refine keeps_scalarOneOrNone (keeps_httpError _ _) fun approval _ => ?_
  dsimp only
  split
  · exact keeps_httpError _ _
  · refine keeps_now fun time s3 _ hrely3 => ?_
    refine keeps_markConsumed (hlocal.stable ((hrely1.trans hrely2).trans hrely3)) ?_
    intro a s4 _ hlocal4
    cases a with
    | none => exact keeps_httpError _ _
    | some updated =>
      refine keeps_writeAuditLog hlocal4 fun s5 _ _ hlocal5 _ => ?_
      refine keeps_commit hlocal5 fun s6 _ _ _ => ?_
      refine keeps_select fun rows s7 _ _ _ => ?_
      exact keeps_scalarOneOrNone (keeps_raise _) fun _ _ => keeps_pure fun _ _ _ => trivial

/-- What is computed from an answer keeps what the answer keeps. -/
private theorem keeps_map {α : Type} {g : α → Answer} {program : Handler α}
    (h : Keeps deployment i (fun _ _ => True) program s) :
    Keeps deployment i (fun _ _ => True) (g <$> program) s := by
  rw [map_eq_pure_bind]
  exact Discipline.Safe.bind h (fun _ _ _ _ => keeps_pure fun _ _ _ => trivial)
    fun _ _ _ _ => trivial

/-- Every endpoint keeps the discipline. -/
theorem keeps_endpoint (hlocal : Local deployment s i none) (call : Call) :
    Keeps deployment i (fun _ _ => True) (endpoint deployment call) s := by
  cases call with
  | submitElevationRequest credentials body admitted =>
    exact keeps_map (keeps_submitElevationRequest hlocal credentials body admitted)
  | agentSubmitRequest credentials body admitted =>
    exact keeps_map (keeps_agentSubmitRequest hlocal credentials body admitted)
  | approveElevationRequest elevationRequestId credentials =>
    exact keeps_map (keeps_approveElevationRequest hlocal elevationRequestId credentials)
  | denyElevationRequest elevationRequestId reason credentials =>
    exact keeps_map (keeps_denyElevationRequest hlocal elevationRequestId reason credentials)
  | getDecisions since credentials admitted =>
    refine keeps_map (keeps_getCurrentDevice hlocal fun device s1 _ hrely1 _ => keeps_limit ?_)
    exact keeps_pollDecisions (hlocal.stable hrely1) fun _ _ _ => keeps_pure fun _ _ _ => trivial
  | agentPollDecisions deviceId since credentials admitted =>
    refine keeps_map (keeps_getCurrentDeviceBearer hlocal fun device s1 _ hrely1 _ => keeps_limit ?_)
    split
    · exact keeps_httpError _ _
    · exact keeps_pollDecisions (hlocal.stable hrely1) fun _ _ _ => keeps_pure fun _ _ _ => trivial
  | markApprovalConsumed approvalId credentials admitted =>
    exact keeps_map (keeps_markApprovalConsumed hlocal approvalId credentials admitted)

/-- Closing the session rolls back. -/
theorem keeps_close : Keeps deployment i (fun _ _ => True) close s := by
  intro s' _ hinv choice answer s'' hperform
  obtain rfl : s'' = s'.rollback i := by
    cases choice <;> exact (Prod.mk.inj (Option.some.inj hperform)).2.symm
  exact ⟨guar_rollback hinv, fun _ _ _ => trivial⟩

end Endpoints

section Runs

/-- The discipline is valid for the backend. -/
theorem valid (deployment : Deployment) : (discipline deployment).Valid (system deployment) where
  entry i call program s hprogram hinv := by
    obtain rfl := Option.some.inj hprogram
    have hclean : ∀ t id, (s.rollback i).own i t id = none := fun t id =>
      own_dropDirty (show (s.rollback i).db.dirty = s.db.dropDirty i from rfl)
    refine Discipline.Safe.finally_ (keeps_endpoint (.of_clean hclean) call) ?_
      fun _ _ _ _ _ _ => trivial
    intro result s' _ _
    exact keeps_close.mono fun result _ _ _ => by cases result <;> trivial
  stop i s hinv := guar_rollback hinv
  env event s s' hstep hinv := by
    cases event with
    | advance clock =>
      simp only [system, env] at hstep
      split at hstep
      · obtain rfl := Option.some.inj hstep
        exact env_advance hinv clock
      · contradiction
    | maintain k version =>
      simp only [system, env] at hstep
      split at hstep
      · next h =>
        obtain rfl := Option.some.inj hstep
        exact env_maintain hinv h
      · contradiction
    | transact rows => exact env_transact hinv hstep
  reset s s' hstep hinv := by
    obtain rfl := Option.some.inj hstep
    exact ⟨inv_crash hinv, .of_committed rfl fun _ h => h⟩

/-- The invariant holds before the first request. -/
theorem State.Initial.inv (h : s.Initial) : Inv deployment s where
  kept k j hdeleted := by rw [h.dirty] at hdeleted; contradiction
  fresh k hk := ⟨h.bounded k hk, h.dirty k⟩
  distinct t ht id id' r r' _ hr _ := by
    rcases hr with hcom | ⟨j, hown⟩
    · rcases ht with rfl | rfl
      · rw [State.com, h.requests] at hcom
        contradiction
      · rw [State.com, h.approvals] at hcom
        contradiction
    · rw [State.own, h.dirty] at hown
      contradiction
  indexed t _ id j r r' _ hown := by
    rw [State.own, h.dirty] at hown
    contradiction
  linked :=
    { reviewed := fun id r hr => by rw [State.request, State.com, h.requests] at hr; contradiction
      approved := fun id r hr => by rw [State.request, State.com, h.requests] at hr; contradiction
      binds := fun aid a ha => by rw [State.approval, State.com, h.approvals] at ha; contradiction
      unique := fun aid _ a _ ha => by
        rw [State.approval, State.com, h.approvals] at ha; contradiction }
  signed issuance payload hmem := by rw [h.signed] at hmem; contradiction

/-- The invariant holds in every reachable state, and the committed rows evolve between any two
states of a run. -/
theorem reachable_inv {labels labels' : List (Label Sid Choice Event Call)}
    {c c' : Config Op Res PyError Answer Sid Call State} (hinit : s.Initial)
    (hrun : (system deployment).run labels (System.init s) = some c)
    (hrun' : (system deployment).run labels' c = some c') :
    Inv deployment c.shared ∧ Inv deployment c'.shared ∧ Evolves c.shared c'.shared := by
  obtain ⟨hgood, -⟩ := (valid deployment).run (Discipline.good_init hinit.inv) hrun
  obtain ⟨hgood', hevolves⟩ := (valid deployment).run hgood hrun'
  exact ⟨hgood.inv, hgood'.inv, hevolves⟩

end Runs

end ElevateGate.Backend
