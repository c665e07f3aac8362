import ElevateGate.Backend.Audit

/-!
# What a call has done when it answers

Each endpoint commits at most one transaction that writes rows, and what it answers depends on that
transaction: a decision is answered only when the decision has been committed, and a refusal only
when nothing has been committed but the expiry of a stale request.
-/

namespace ElevateGate.Backend

open Interaction Time Text Handler

/-- A call that is answered 404 or 409. -/
def Refusal (error : PyError) : Prop :=
  ∃ statusCode detail, error = .httpException statusCode detail ∧ (statusCode = 404 ∨ statusCode = 409)

/-- A request that the session saw before it wrote anything. -/
def Saw (deployment : Deployment) (done : List Deed) (r : ElevationRequest) : Prop :=
  ∃ before snapshot older, (⟨before, .query, snapshot⟩ :: older) <:+ done ∧
    (∀ i, Faithful deployment i older → changes older = []) ∧ r ∈ snapshot.rows .elevationRequests

/-- The rows of a transaction that writes nothing, or expires a request that was seen to be stale. -/
def Expiring (deployment : Deployment) (done : List Deed) (list : List Change) : Prop :=
  list = [] ∨ ∃ r seen time, list = [.request (some r)
      (ElevationRequestRepository.decided .expired none time r)] ∧ r.status = .pending ∧
    (∃ before, ⟨before, .now, time⟩ ∈ done) ∧ Saw deployment done seen ∧ seen.id = r.id ∧
    seen.expiresAt ≤ time

/-- The deeds of a call whose commits only expire stale requests. -/
def Spares (deployment : Deployment) (done : List Deed) : Prop :=
  ∀ before older, (⟨before, .commit, ()⟩ :: older) <:+ done →
    ∀ i, Faithful deployment i older → Expiring deployment older (changes older)

/-- The deeds of a call that has committed rows of some kind. -/
def Commits (deployment : Deployment) (K : List Change → Prop) (done : List Deed) : Prop :=
  ∃ before older, (⟨before, .commit, ()⟩ :: older) <:+ done ∧
    ∀ i, Faithful deployment i older → K (changes older)

/-- The device that the credentials of a call authenticate. -/
def Presented (deployment : Deployment) (credentials : Option BasicCredentials) (device : Device) :
    Prop :=
  ∃ c, credentials = some c ∧ Uuid.ofPython c.username = some device.deviceUuid ∧
    deployment.verifySecret c.password device.deviceSecretHash = true ∧
    device.enrollmentStatus = .active

/-- The administrator that the credentials of a call name. -/
def Reviewer (deployment : Deployment) (credentials : Option String) (reviewedBy : Option Nat) :
    Prop :=
  ∃ token time adminId, credentials = some token ∧
    deployment.decodeAccessToken time token = some (some adminId) ∧ reviewedBy = some adminId

/-- What an automatic approval rests on: the session read the device, and later an entry that covers
the request for a device of the group that it had read. -/
def Grounds (done : List Deed) (r : ElevationRequest) (entry : AppAllowlistEntry) : Prop :=
  ∃ earlier before snapshot snapshot' older device publisher,
    (⟨before, .query, snapshot'⟩ :: older) <:+ done ∧ ⟨earlier, .query, snapshot⟩ ∈ older ∧
    earlier.device r.deviceId = some device ∧
    before.com .appAllowlistEntries entry.id = some entry ∧ r.publisher = some publisher ∧
    AppAllowlistRepository.isMatch device.groupId publisher r.filename entry = true

/-- The states that the statements of a session have read, the latest first. -/
def reads : List Deed → List State
  | [] => []
  | ⟨before, .query, _⟩ :: older => before :: reads older
  | _ :: older => reads older

/-- What the automatic approval of a submission rests on: the request is the one of the body, and the
session had read nothing but the device of the body when it read the entry that covers the request. -/
def Rests (done : List Deed) (body : AgentApprovalRequest) (r : ElevationRequest)
    (entry : AppAllowlistEntry) : Prop :=
  r.filename = body.fileName ∧ r.publisher = body.publisherCommonName ∧
    ∃ earlier before snapshot older device publisher,
      (⟨before, .query, snapshot⟩ :: older) <:+ done ∧ reads older = [earlier] ∧
      earlier.device r.deviceId = some device ∧ device.deviceUuid = body.deviceId ∧
      before.com .appAllowlistEntries entry.id = some entry ∧ r.publisher = some publisher ∧
      AppAllowlistRepository.isMatch device.groupId publisher r.filename entry = true

/-- Who a call that decides a request must name: the administrator that its token names, or the entry
that an automatic approval rests on. -/
def Authored (deployment : Deployment) (done : List Deed) (list : List Change) (r : ElevationRequest) :
    Call → Prop
  | .approveElevationRequest elevationRequestId credentials =>
    r.id = elevationRequestId ∧ r.status = .approved ∧ Reviewer deployment credentials r.reviewedBy
  | .denyElevationRequest elevationRequestId _ credentials =>
    r.id = elevationRequestId ∧ r.status = .denied ∧ Reviewer deployment credentials r.reviewedBy
  | .agentSubmitRequest _ body _ =>
    r.status = .approved ∧ r.reviewedBy = none ∧ ∃ entry log, Rests done body r entry ∧
      latestLog log.id list = some log ∧ (Matter.decision r.id).IsAbout log ∧
      log.actorId = s!"app_allowlist_entry:{entry.id}"
  | _ => False

/-- The decisions of a transaction name who made them. -/
def Attributed (deployment : Deployment) (call : Call) (done : List Deed) (list : List Change) :
    Prop :=
  ∀ old r, .request old r ∈ list → r.status = .approved ∨ r.status = .denied →
    Authored deployment done list r call

/-- The protocol of a call: what it commits is a transaction, whose decisions are its own. -/
def Committing (deployment : Deployment) (call : Call) (done : List Deed) (o : Op) : Prop :=
  o = .commit → ∀ i, Faithful deployment i done →
    Transaction (changes done) ∧ Attributed deployment call done (changes done) ∨ changes done = []

/-- How a part of a call ends. -/
def Ends {β : Type} (deployment : Deployment) (success : List Deed → Prop) :
    Except PyError β → List Deed → Prop
  | .ok _, done => success done
  | .error error, done => Refusal error → Spares deployment done

/-- What is known of a session that has not committed yet. -/
structure Stage (deployment : Deployment) (K : List Change → Prop) (done : List Deed) : Prop where
  knows : ∀ i, Faithful deployment i done → K (changes done)
  uncommitted : ∀ deed ∈ done, deed.op ≠ .commit

/-- The operations that neither write nor end a transaction. -/
def Op.Quiet : Op → Prop
  | .update _ _ => False
  | .insert _ _ => False
  | .commit => False
  | .close => False
  | _ => True

section Rules

variable {deployment : Deployment} {call : Call} {success : List Deed → Prop} {done : List Deed}
  {K K' : List Change → Prop} {α β : Type}

/-- Only a query reads. -/
theorem reads_cons_ne {deed : Deed} (h : deed.op ≠ .query) : reads (deed :: done) = reads done := by
  obtain ⟨before, o, answer⟩ := deed
  cases o <;> first | rfl | exact absurd rfl h

/-- What a session has read it has queried. -/
theorem exists_of_reads {s : State} (h : s ∈ reads done) :
    ∃ snapshot, ⟨s, .query, snapshot⟩ ∈ done := by
  induction done with
  | nil => contradiction
  | cons deed older ih =>
    have holder : s ∈ reads older → ∃ snapshot, (⟨s, .query, snapshot⟩ : Deed) ∈ deed :: older := by
      intro hs
      obtain ⟨snapshot, hmem⟩ := ih hs
      exact ⟨snapshot, List.mem_cons_of_mem _ hmem⟩
    obtain ⟨before, o, answer⟩ := deed
    cases o with
    | query =>
      rcases List.mem_cons.mp h with rfl | hs
      · exact ⟨answer, List.mem_cons_self⟩
      · exact holder hs
    | _ => exact holder h

/-- An approval that rests on an entry has its grounds. -/
theorem Rests.grounds {body : AgentApprovalRequest} {r : ElevationRequest}
    {entry : AppAllowlistEntry} (h : Rests done body r entry) : Grounds done r entry := by
  obtain ⟨-, -, earlier, before, snapshot', older, device, publisher, hsuffix, hreads, hdevice, -,
    hentry, hpublisher, hmatch⟩ := h
  obtain ⟨snapshot, hmem⟩ : ∃ snapshot, (⟨earlier, .query, snapshot⟩ : Deed) ∈ older :=
    exists_of_reads (by simp [hreads])
  exact ⟨earlier, before, snapshot, snapshot', older, device, publisher, hsuffix, hmem, hdevice, hentry,
    hpublisher, hmatch⟩

/-- A part of a call that keeps to the protocol. -/
abbrev Keeping (deployment : Deployment) (call : Call) (success : List Deed → Prop)
    (done : List Deed) (program : Handler β) : Prop :=
  Obeys (Committing deployment call) (Ends deployment success) done program

theorem Stage.mono (h : Stage deployment K done) (hK : ∀ list, K list → K' list) :
    Stage deployment K' done :=
  ⟨fun i hfaithful => hK _ (h.knows i hfaithful), h.uncommitted⟩

/-- A session that has not committed spares everything. -/
theorem Stage.spares (h : Stage deployment K done) : Spares deployment done := by
  intro before older hsuffix
  exact absurd rfl (h.uncommitted _ (hsuffix.subset List.mem_cons_self))

/-- Before the first deed nothing is written. -/
theorem stage_nil : Stage deployment (· = []) [] := ⟨fun _ _ => rfl, by simp⟩

/-- A quiet deed writes nothing. -/
theorem changes_quiet {deed : Deed} (h : deed.op.Quiet) : changes (deed :: done) = changes done := by
  obtain ⟨before, o, answer⟩ := deed
  cases o <;> first | rfl | exact h.elim

/-- A quiet deed adds nothing to what is known. -/
theorem Stage.quiet (h : Stage deployment K done) (deed : Deed) (hquiet : deed.op.Quiet) :
    Stage deployment K (deed :: done) where
  knows i hfaithful := by
    rw [changes_quiet hquiet]
    exact h.knows i hfaithful.tail
  uncommitted d hd := by
    rcases List.mem_cons.mp hd with rfl | hd
    · intro heq
      rw [heq] at hquiet
      exact hquiet
    · exact h.uncommitted d hd

/-- An exception where nothing was committed, or next to nothing. -/
theorem keeping_raise_spares (h : Spares deployment done) (error : PyError) :
    Keeping deployment call success done (raise error : Handler β) := .throw fun _ => h

/-- An exception before the commit. -/
theorem keeping_raise (h : Stage deployment K done) (error : PyError) :
    Keeping deployment call success done (raise error : Handler β) := keeping_raise_spares h.spares error

theorem keeping_httpError (h : Stage deployment K done) (statusCode : Nat) (detail : String) :
    Keeping deployment call success done (httpError statusCode detail : Handler β) :=
  keeping_raise h _

theorem keeping_httpError_bind (h : Stage deployment K done) (statusCode : Nat) (detail : String)
    (f : α → Handler β) :
    Keeping deployment call success done (httpError statusCode detail >>= f) :=
  keeping_raise h _

/-- A quiet operation. -/
theorem keeping_quiet {o : Op} {f : Res o → Handler β} (hquiet : o.Quiet)
    (h : ∀ before answer, Keeping deployment call success (⟨before, o, answer⟩ :: done) (f answer)) :
    Keeping deployment call success done (op o >>= f) :=
  .op_bind (fun heq => by rw [heq] at hquiet; exact hquiet.elim) fun before answer =>
    h before answer

/-- A `SELECT`. -/
theorem keeping_select {t : Table} {condition : t.Record → Bool} {f : List t.Record → Handler β}
    (h : ∀ before snapshot, Keeping deployment call success (⟨before, .query, snapshot⟩ :: done)
      (f ((snapshot.rows t).filter condition))) :
    Keeping deployment call success done (select t condition >>= f) :=
  keeping_quiet trivial h

/-- An exception that is no answer. -/
theorem keeping_raise_other {error : PyError}
    (h : ∀ statusCode detail, error ≠ .httpException statusCode detail) :
    Keeping deployment call success done (raise error : Handler β) := .throw fun hrefusal => by
  obtain ⟨statusCode, detail, heq, -⟩ := hrefusal
  exact absurd heq (h statusCode detail)

/-- The rate limiter does nothing. -/
theorem keeping_limit {admitted : Bool} {f : Unit → Handler β}
    (h : Keeping deployment call success done (f ())) :
    Keeping deployment call success done (limit admitted >>= f) := by
  rw [limit_bind]
  split
  · exact h
  · exact keeping_raise_other (by simp)

/-- At most one row is expected. -/
theorem keeping_scalarOneOrNone {rows : List α} {f : Option α → Handler β}
    (hnone : Keeping deployment call success done (f none))
    (hsome : ∀ r ∈ rows, Keeping deployment call success done (f (some r))) :
    Keeping deployment call success done (scalarOneOrNone rows >>= f) := by
  cases rows with
  | nil => exact hnone
  | cons r rest =>
    cases rest with
    | nil => exact hsome r List.mem_cons_self
    | cons _ _ => exact keeping_raise_other (by simp)

/-- The clock. -/
theorem keeping_now {f : Datetime → Handler β}
    (h : ∀ before time, Keeping deployment call success (⟨before, .now, time⟩ :: done) (f time)) :
    Keeping deployment call success done (now >>= f) :=
  keeping_quiet trivial h

/-- A deadline either fits the calendar or the program raises. -/
theorem keeping_addSeconds {dt : Datetime} {seconds : Int} {f : Datetime → Handler β}
    (h : ∀ later, Keeping deployment call success done (f later)) :
    Keeping deployment call success done (addSeconds dt seconds >>= f) := by
  unfold addSeconds
  split
  · exact h _
  · exact keeping_raise_other (by simp)

/-- A query returns rows that are the session's own or committed. -/
theorem Stage.query (h : Stage deployment K done) (before : State) (snapshot : Snapshot) :
    Stage deployment (fun list => K list ∧ ∀ t, ∀ r ∈ snapshot.rows t,
      latest t (t.id r) list = some r ∨
        (latest t (t.id r) list = none ∧ before.com t (t.id r) = some r))
      (⟨before, .query, snapshot⟩ :: done) where
  knows i hfaithful := by
    obtain ⟨⟨s', heffect⟩, -, hreflects, -, hrest⟩ := hfaithful
    change Effect deployment.sign i before .query snapshot s' at heffect
    change Reflects i before done at hreflects
    have hrow : snapshot.row = before.db.view i := by
      cases heffect
      rfl
    refine ⟨h.knows i hrest, fun t r hr => ?_⟩
    change latest t (t.id r) (changes done) = some r ∨
      (latest t (t.id r) (changes done) = none ∧ _)
    rw [← hreflects.own]
    exact visible_of_mem_rows hrow hr
  uncommitted := (h.quiet ⟨before, .query, snapshot⟩ trivial).uncommitted

/-- What an insert that succeeds has written. -/
theorem Stage.insert (h : Stage deployment K done) {t : Table}
    {make : (id : Nat) → Datetime → Row ⟨t, id⟩} {before : State} {record : t.Record} :
    Stage deployment (fun list => ∃ id time rest, (make id time).record = record ∧
      list = ⟨t, none, record⟩ :: rest ∧ K rest)
      (⟨before, .insert t make, .ok record⟩ :: done) where
  knows i hfaithful := by
    obtain ⟨⟨s', heffect⟩, hinv, -, -, hrest⟩ := hfaithful
    change Effect deployment.sign i before (.insert t make) (.ok record) s' at heffect
    cases heffect with
    | inserted hviolates =>
      refine ⟨before.nextId t, before.txNow i, changes done, rfl, ?_, h.knows i hrest⟩
      have hkey : t.id (make (before.nextId t) (before.txNow i)).record = before.nextId t :=
        (make (before.nextId t) (before.txNow i)).id_eq
      have hcom : before.com t (before.nextId t) = none := by
        rw [State.com, (hinv.fresh ⟨t, before.nextId t⟩ (Nat.le_refl _)).1]
        rfl
      simp only [changes, Op.ends, change, hkey, hcom]
      rfl
  uncommitted d hd := by
    rcases List.mem_cons.mp hd with rfl | hd
    · simp
    · exact h.uncommitted d hd

/-- An insert. -/
theorem keeping_insert {t : Table} {make : (id : Nat) → Datetime → Row ⟨t, id⟩}
    {f : t.Record → Handler β} (hstage : Stage deployment K done)
    (h : ∀ before record, Stage deployment (fun list => ∃ id time rest,
        (make id time).record = record ∧ list = ⟨t, none, record⟩ :: rest ∧ K rest)
        (⟨before, .insert t make, .ok record⟩ :: done) →
      Keeping deployment call success (⟨before, .insert t make, .ok record⟩ :: done) (f record)) :
    Keeping deployment call success done (insert t make >>= f) := by
  refine .op_bind (fun heq => by contradiction) fun before answer => ?_
  cases answer with
  | ok record => exact h before record hstage.insert
  | error error =>
    refine .throw fun _ => ?_
    intro before' older hsuffix
    rcases List.suffix_cons_iff.mp hsuffix with heq | hsuffix
    · exact absurd (congrArg Deed.op (List.cons.inj heq).1) (by simp)
    · exact hstage.spares before' older hsuffix

/-- The rows after a conditional update that has found its row: the row that it found was the
session's own, or else the committed one, in a state that has evolved from the ones that the session
has met before. -/
def Updated (t : Table) (id : Nat) (condition : t.Record → Bool) (values : t.Record → t.Record)
    (done : List Deed) (K : List Change → Prop) (r' : t.Record) (list : List Change) : Prop :=
  ∃ (s : State) (r : t.Record) (rest : List Change), r' = values r ∧
    list = ⟨t, s.com t id, r'⟩ :: rest ∧ K rest ∧ condition r = true ∧ t.id r = id ∧
    (∀ d ∈ done, Evolves d.before s) ∧
    ((latest t id rest = some r ∧ ∀ old' new, (⟨t, old', new⟩ : Change) ∈ rest → t.id new = id →
        s.com t id = old') ∨
      (latest t id rest = none ∧ s.com t id = some r))

/-- What a conditional update has written. -/
theorem Stage.updateWhere (h : Stage deployment K done) {t : Table} {id : Nat}
    {condition : t.Record → Bool} {values : t.Record → t.Record}
    {hid : ∀ r, t.id (values r) = t.id r} {before : State} {row' : Row ⟨t, id⟩} :
    Stage deployment (Updated t id condition values done K row'.record)
      (⟨before, .update ⟨t, id⟩ fun row =>
        if condition row.record then some (row.modify values hid) else none, some row'⟩ :: done) where
  knows i hfaithful := by
    obtain ⟨⟨s', heffect⟩, -, hreflects, hevolved, hrest⟩ := hfaithful
    change Effect deployment.sign i before (.update ⟨t, id⟩ _) (some row') s' at heffect
    change Reflects i before done at hreflects
    obtain ⟨row, hview, hcondition, rfl⟩ : ∃ row, before.db.view i ⟨t, id⟩ = some row ∧
        condition row.record = true ∧ row.modify values hid = row' := by
      cases heffect with
      | hit hview hassign =>
        dsimp only at hassign
        split at hassign
        · next hcondition => exact ⟨_, hview, hcondition, Option.some.inj hassign⟩
        · contradiction
    have hkey : t.id row.record = id := row.id_eq
    refine ⟨before, row.record, changes done, rfl, rfl, h.knows i hrest, hcondition, hkey, hevolved,
      ?_⟩
    rcases view_eq_some hview with hown | ⟨hnone, hcom⟩
    · refine Or.inl ⟨(hreflects.own t id).symm.trans hown, fun old' new hmem hnew => ?_⟩
      have hold := hreflects.old _ hmem
      rwa [show Change.id ⟨t, old', new⟩ = id from hnew] at hold
    · exact Or.inr ⟨(hreflects.own t id).symm.trans hnone, hcom⟩
  uncommitted d hd := by
    rcases List.mem_cons.mp hd with rfl | hd
    · simp
    · exact h.uncommitted d hd

/-- An update that finds no row writes nothing. -/
private theorem Stage.miss (h : Stage deployment K done) {k : Key} {assign : Row k → Option (Row k)}
    {before : State} : Stage deployment K (⟨before, .update k assign, none⟩ :: done) where
  knows i hfaithful := h.knows i hfaithful.tail
  uncommitted d hd := by
    rcases List.mem_cons.mp hd with rfl | hd
    · simp
    · exact h.uncommitted d hd

/-- A conditional update. -/
theorem keeping_updateWhere {t : Table} {id : Nat} {condition : t.Record → Bool}
    {values : t.Record → t.Record} {hid : ∀ r, t.id (values r) = t.id r}
    {f : Option t.Record → Handler β} (hstage : Stage deployment K done)
    (hmiss : ∀ deed, Stage deployment K (deed :: done) →
      Keeping deployment call success (deed :: done) (f none))
    (hhit : ∀ deed r, Stage deployment (Updated t id condition values done K r) (deed :: done) →
      Keeping deployment call success (deed :: done) (f (some r))) :
    Keeping deployment call success done (updateWhere t id condition values hid >>= f) := by
  refine .perform (fun heq => by contradiction) fun before answer => ?_
  cases answer with
  | none => exact hmiss _ hstage.miss
  | some row => exact hhit _ _ hstage.updateWhere

/-- A call that converts its answer. -/
theorem keeping_map {program : Handler α} {g : α → β} (h : Keeping deployment call success done program) :
    Keeping deployment call success done (g <$> program) := by
  rw [map_eq_pure_bind]
  exact h.bind (fun _ _ hsuccess => .pure hsuccess) fun _ _ hspares => hspares

/-- Closing a session commits nothing. -/
theorem Spares.close (h : Spares deployment done) {before : State} :
    Spares deployment (⟨before, .close, ()⟩ :: done) := by
  intro before' older hsuffix
  rcases List.suffix_cons_iff.mp hsuffix with heq | hsuffix
  · exact absurd (congrArg Deed.op (List.cons.inj heq).1) (by simp)
  · exact h before' older hsuffix

/-- Committing what is known to be a transaction. -/
theorem keeping_commit {f : Unit → Handler β} (hstage : Stage deployment K done)
    (hK : ∀ list, K list → Transaction list ∧ Attributed deployment call done list ∨ list = [])
    (h : ∀ before, Keeping deployment call success (⟨before, .commit, ()⟩ :: done) (f ())) :
    Keeping deployment call success done (commit >>= f) :=
  .op_bind (fun _ i hfaithful => hK _ (hstage.knows i hfaithful)) fun before _ => h before

/-- A commit of rows of some kind. -/
theorem Stage.commits (h : Stage deployment K done) {before : State} :
    Commits deployment K (⟨before, .commit, ()⟩ :: done) :=
  ⟨before, done, List.suffix_refl _, h.knows⟩

/-- What has been committed stays so. -/
theorem Commits.cons (h : Commits deployment K done) {deed : Deed} :
    Commits deployment K (deed :: done) := by
  obtain ⟨before, older, hsuffix, hK⟩ := h
  exact ⟨before, older, hsuffix.trans (List.suffix_cons _ _), hK⟩

/-- A commit that expires a request at most spares everything else. -/
theorem Stage.spares_commit (h : Stage deployment K done)
    (hK : ∀ list, K list → Expiring deployment done list)
    {before : State} : Spares deployment (⟨before, .commit, ()⟩ :: done) := by
  intro before' older hsuffix i hfaithful
  rcases List.suffix_cons_iff.mp hsuffix with heq | hsuffix
  · obtain ⟨-, rfl⟩ := List.cons.inj heq
    exact hK _ (h.knows i hfaithful)
  · exact h.spares before' older hsuffix i hfaithful

end Rules

section Repositories

variable {deployment : Deployment} {call : Call} {success : List Deed → Prop} {done : List Deed}
  {K : List Change → Prop} {β : Type}

/-- Auditing writes one row. -/
theorem keeping_writeAuditLog {actorType : ActorType} {actorId action targetType targetId : String}
    {metadata : Option (List (String × MetadataValue))} {f : Unit → Handler β}
    (hstage : Stage deployment K done)
    (h : ∀ deed, deed.op ≠ .query → Stage deployment (fun list => ∃ log rest,
        list = .log none log :: rest ∧ K rest ∧
        log.actorType = actorType ∧ log.actorId = actorId ∧ log.action = action ∧
        log.targetType = targetType ∧ log.targetId = targetId) (deed :: done) →
      Keeping deployment call success (deed :: done) (f ())) :
    Keeping deployment call success done
      (writeAuditLog actorType actorId action targetType targetId metadata >>= f) := by
  rw [writeAuditLog, bind_assoc]
  refine keeping_insert hstage fun before record hstage' => h _ (fun heq => by cases heq) (hstage'.mono ?_)
  rintro list ⟨id, time, rest, rfl, rfl, hrest⟩
  exact ⟨_, rest, rfl, hrest, rfl, rfl, rfl, rfl, rfl⟩

/-- Creating a request writes a pending one. -/
theorem keeping_create {values : ElevationRequestRepository.Values} {f : ElevationRequest → Handler β}
    (hstage : Stage deployment K done)
    (h : ∀ r done', reads done' = reads done → Stage deployment (fun list => ∃ rest,
        list = .request none r :: rest ∧ K rest ∧ r.status = .pending ∧
        r.deviceId = values.deviceId ∧ r.filename = values.filename ∧
        r.publisher = values.publisher) done' → Keeping deployment call success done' (f r)) :
    Keeping deployment call success done (ElevationRequestRepository.create values >>= f) := by
  have hinsert : ∀ requestUuid done1, reads done1 = reads done → Stage deployment K done1 →
      Keeping deployment call success done1 ((if values.fitsColumns then insert .elevationRequests
        (ElevationRequestRepository.newRow values requestUuid) else raise .dbapiError) >>= f) := by
    intro requestUuid done1 hreads hstage1
    split
    swap
    · exact keeping_raise_other (by simp)
    refine keeping_insert hstage1 fun before record hstage2 =>
      h _ _ ((reads_cons_ne fun heq => by cases heq).trans hreads) (hstage2.mono ?_)
    rintro list ⟨id, time, rest, rfl, rfl, hrest⟩
    exact ⟨rest, rfl, hrest, rfl, rfl, rfl, rfl⟩
  rw [ElevationRequestRepository.create]
  cases values.requestUuid with
  | some requestUuid => exact hinsert requestUuid done rfl hstage
  | none =>
    refine keeping_quiet (o := .uuid4) trivial fun before requestUuid => ?_
    exact hinsert requestUuid _ rfl (hstage.quiet _ trivial)

/-- Moving a pending request to a new status. -/
theorem keeping_transitionStatus {id : Nat} {newStatus : ElevationRequestStatus}
    {reviewedBy : Option Nat} {reviewedAt : Datetime} {f : Option ElevationRequest → Handler β}
    (hstage : Stage deployment K done)
    (hmiss : ∀ deed, Stage deployment K (deed :: done) →
      Keeping deployment call success (deed :: done) (f none))
    (hhit : ∀ deed r, Stage deployment (Updated .elevationRequests id
        (fun r => decide (ElevationRequest.status r = .pending))
        (ElevationRequestRepository.decided newStatus reviewedBy reviewedAt) done K r) (deed :: done) →
      Keeping deployment call success (deed :: done) (f (some r))) :
    Keeping deployment call success done (ElevationRequestRepository.transitionStatus id .pending newStatus
      reviewedBy reviewedAt >>= f) :=
  keeping_updateWhere hstage hmiss hhit

/-- A request that a session without versions of its own has moved. -/
theorem Updated.request {id : Nat} {newStatus : ElevationRequestStatus} {reviewedBy : Option Nat}
    {reviewedAt : Datetime} {r' : ElevationRequest} {list : List Change}
    (h : Updated .elevationRequests id (fun r => decide (ElevationRequest.status r = .pending))
      (ElevationRequestRepository.decided newStatus reviewedBy reviewedAt) done (· = []) r' list) :
    ∃ r : ElevationRequest, list = [.request (some r) r'] ∧ r.status = .pending ∧ r.id = id ∧
      r' = ElevationRequestRepository.decided newStatus reviewedBy reviewedAt r := by
  obtain ⟨s, r, rest, rfl, rfl, rfl, hcondition, hid, -, hold⟩ := h
  rcases hold with ⟨hlatest, -⟩ | ⟨-, hcom⟩
  · contradiction
  · exact ⟨r, by rw [hcom]; rfl, of_decide_eq_true hcondition, hid, rfl⟩

/-- Issuing writes an approval that has not been consumed. -/
theorem keeping_issueApproval {r : ElevationRequest} {device : Device} {f : Approval → Handler β}
    (hstage : Stage deployment K done)
    (h : ∀ a done', done <:+ done' → Stage deployment (fun list => ∃ rest,
        list = .approval none a :: rest ∧ K rest ∧ a.consumedAt = none) done' →
      Keeping deployment call success done' (f a)) :
    Keeping deployment call success done (issueApproval deployment r device >>= f) := by
  rw [issueApproval, bind_assoc]
  refine keeping_now fun _ issuedAt => ?_
  have hstage1 := hstage.quiet ⟨‹_›, .now, issuedAt⟩ trivial
  rw [bind_assoc]
  refine keeping_addSeconds fun expiresAt => ?_
  rw [bind_assoc]
  refine keeping_quiet (o := .tokenUrlsafe 24) trivial fun before2 nonce => ?_
  have hstage2 := hstage1.quiet ⟨before2, .tokenUrlsafe 24, nonce⟩ trivial
  rw [bind_assoc]
  cases Signing.buildCanonicalPayload deployment.casing device.deviceUuid.textD
      r.requestUuid.textD r.sha256.text expiresAt nonce with
  | error error => exact keeping_raise hstage2 error
  | ok payload =>
    change Keeping deployment call success _ ((signPayload ⟨r, device, expiresAt, nonce⟩ payload >>= _) >>= f)
    rw [bind_assoc]
    refine keeping_quiet (o := .signPayload ⟨r, device, expiresAt, nonce⟩ payload) trivial
      fun before3 signature => ?_
    have hstage3 := hstage2.quiet
      ⟨before3, .signPayload ⟨r, device, expiresAt, nonce⟩ payload, signature⟩ trivial
    refine keeping_insert hstage3 fun before4 record hstage4 => h _ _ ?_ (hstage4.mono ?_)
    · exact ⟨[_, _, _, _], rfl⟩
    · rintro list ⟨id, time, rest, rfl, rfl, hrest⟩
      exact ⟨rest, rfl, hrest, rfl⟩

end Repositories

section Authentication

variable {deployment : Deployment} {call : Call} {success : List Deed → Prop} {done : List Deed}
  {K : List Change → Prop} {β : Type}

/-- Authentication reads the device that the credentials authenticate. -/
theorem keeping_getCurrentDevice {credentials : Option BasicCredentials} {f : Device → Handler β}
    (hstage : Stage deployment K done)
    (h : ∀ device before snapshot, Stage deployment K (⟨before, .query, snapshot⟩ :: done) →
      device ∈ snapshot.rows .devices → Presented deployment credentials device →
      Keeping deployment call success (⟨before, .query, snapshot⟩ :: done) (f device)) :
    Keeping deployment call success done (getCurrentDevice deployment credentials >>= f) := by
  cases credentials with
  | none => exact keeping_httpError_bind hstage _ _ _
  | some credentials =>
    simp only [getCurrentDevice]
    split
    · next deviceUuid huuid =>
      rw [bind_assoc, DeviceRepository.getByUuid, bind_assoc]
      refine keeping_select fun before snapshot => ?_
      have hstage' := hstage.quiet ⟨before, .query, snapshot⟩ trivial
      refine keeping_scalarOneOrNone (keeping_httpError_bind hstage' _ _ _) ?_
      intro device hdevice
      obtain ⟨hmem, hsame⟩ := List.mem_filter.mp hdevice
      obtain rfl : device.deviceUuid = deviceUuid := of_decide_eq_true hsame
      dsimp only
      split
      · exact keeping_httpError_bind hstage' _ _ _
      · next hsecret =>
        split
        · exact keeping_httpError_bind hstage' _ _ _
        · next hactive =>
          exact h device before snapshot hstage' hmem
            ⟨credentials, rfl, huuid, by simpa using hsecret, not_not.mp hactive⟩
    · exact keeping_httpError_bind hstage _ _ _

/-- Authentication by bearer token only reads the device. -/
theorem keeping_getCurrentDeviceBearer {credentials : Option String} {f : Device → Handler β}
    (hstage : Stage deployment K done)
    (h : ∀ device before snapshot, device ∈ snapshot.rows .devices →
      Keeping deployment call success (⟨before, .query, snapshot⟩ :: done) (f device)) :
    Keeping deployment call success done (getCurrentDeviceBearer deployment credentials >>= f) := by
  cases credentials with
  | none => exact keeping_httpError_bind hstage _ _ _
  | some credentials =>
    simp only [getCurrentDeviceBearer]
    split
    · exact keeping_httpError_bind hstage _ _ _
    · split
      · rw [bind_assoc, DeviceRepository.getByUuid, bind_assoc]
        refine keeping_select fun before snapshot => ?_
        have hstage' := hstage.quiet ⟨before, .query, snapshot⟩ trivial
        refine keeping_scalarOneOrNone (keeping_httpError_bind hstage' _ _ _) ?_
        intro device hdevice
        dsimp only
        split
        · exact keeping_httpError_bind hstage' _ _ _
        · split
          · exact keeping_httpError_bind hstage' _ _ _
          · exact h device before snapshot (List.mem_filter.mp hdevice).1
      · exact keeping_httpError_bind hstage _ _ _

/-- Authentication finds the administrator that the token names. -/
theorem keeping_requireRole {roles : List AdminRole} {credentials : Option String}
    {f : AdminUser → Handler β} (hstage : Stage deployment K done)
    (h : ∀ (admin : AdminUser) done' token time, Stage deployment K done' → credentials = some token →
      deployment.decodeAccessToken time token = some (some admin.id) →
      Keeping deployment call success done' (f admin)) :
    Keeping deployment call success done (requireRole deployment roles credentials >>= f) := by
  rw [requireRole, bind_assoc]
  cases credentials with
  | none => exact keeping_httpError_bind hstage _ _ _
  | some token =>
    simp only [getCurrentAdmin, bind_assoc]
    refine keeping_now fun before time => ?_
    have hstage1 := hstage.quiet ⟨before, .now, time⟩ trivial
    split
    · next subject hsubject =>
      split
      · next adminId =>
        rw [bind_assoc, AdminUserRepository.getById, bind_assoc]
        refine keeping_select fun before snapshot => ?_
        have hstage2 := hstage1.quiet ⟨before, .query, snapshot⟩ trivial
        refine keeping_scalarOneOrNone (keeping_httpError_bind hstage2 _ _ _) ?_
        intro admin hadmin
        have hid : admin.id = adminId := of_decide_eq_true (List.mem_filter.mp hadmin).2
        dsimp only
        split
        · exact keeping_httpError_bind hstage2 _ _ _
        · simp only [pure_bind]
          split
          · exact h admin _ token time hstage2 rfl (hid ▸ hsubject)
          · exact keeping_httpError_bind hstage2 _ _ _
      · exact keeping_httpError_bind hstage1 _ _ _
    · exact keeping_httpError_bind hstage1 _ _ _

end Authentication

end ElevateGate.Backend
