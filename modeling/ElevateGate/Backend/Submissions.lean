import ElevateGate.Backend.Serial

/-!
# Submissions without interleaving

What a submission of the agent does when no other session runs. It files the request, approved at
once exactly where the allowlist lists its publisher and file name for the device, or it is rejected
for one of seven reasons and leaves no trace.
-/

namespace ElevateGate.Backend

open Interaction Time Text Handler

/-- Whether an entry is global or scoped to a group that a device belongs to. -/
def Applies (entry : AppAllowlistEntry) (group : Option Nat) : Prop :=
  entry.groupId = none ∨ ∃ id, entry.groupId = some id ∧ group = some id

/-- Some committed entry has exactly this publisher and file name and applies to the group. -/
def State.Listed (s : State) (group : Option Nat) (publisher filename : String) : Prop :=
  ∃ id entry, s.com .appAllowlistEntries id = some entry ∧
    AppAllowlistEntry.publisher entry = publisher ∧ AppAllowlistEntry.filename entry = filename ∧
      Applies entry group

/-- What the submission of a device has to satisfy to be approved at once. -/
def AutoApprovable (s : State) (device : Device) (trustStatus : SignatureStatus)
    (publisher : Option String) (filename : String) : Prop :=
  trustStatus = .trusted ∧
    ∃ name, publisher = some name ∧ s.Listed device.groupId name filename

/-- The credentials are those of an active device. -/
def Authenticates (deployment : Deployment) (s : State) (credentials : Option String)
    (device : Device) : Prop :=
  ∃ token, credentials = some token ∧ (partitionDot token).2 ≠ "" ∧
    Uuid.ofPython (partitionDot token).1 = some device.deviceUuid ∧
      s.device device.id = some device ∧
        deployment.verifySecret (partitionDot token).2 device.deviceSecretHash = true ∧
          device.enrollmentStatus = .active

/-- No two devices have one UUID. -/
def State.DistinctDevices (s : State) : Prop :=
  ∀ id id' device device', s.device id = some device → s.device id' = some device' →
    device.deviceUuid = device'.deviceUuid → device = device'

/-- Whether the row of a submission fits the columns of `elevation_requests`. -/
def AgentApprovalRequest.fitsColumns (body : AgentApprovalRequest) : Bool :=
  fitsColumn (some 500) body.fileName && fitsColumn none body.fullPath &&
    fitsColumn (some 64) body.sha256Hex.text && body.publisherCommonName.all (fitsColumn (some 500)) &&
    fitsBigInteger body.sizeBytes && body.fileVersion.all (fitsColumn (some 100)) &&
    fitsColumn none body.reason

/-- A request that a submission has filed. -/
structure Filed (s s' : State) (device : Device) (body : AgentApprovalRequest)
    (r : ElevationRequest) : Prop where
  absent : s.request r.id = none
  committed : s'.request r.id = some r
  requestUuid : r.requestUuid = body.requestId
  deviceId : r.deviceId = device.id
  approved : r.status = .approved ↔
    AutoApprovable s device body.trustStatus body.publisherCommonName body.fileName
  otherwise : r.status ≠ .approved → r.status = .pending ∧
    ∀ id a, s'.approval id = some a → a.elevationRequestId ≠ r.id
  others : ∀ id, id ≠ r.id → s'.request id = s.request id
  device : ∀ id, s'.device id = s.device id
  entry : ∀ id, s'.com .appAllowlistEntries id = s.com .appAllowlistEntries id

/-- Why a submission may be rejected. -/
inductive Rejected (deployment : Deployment) (s : State) (finish : Datetime)
    (credentials : Option String) (body : AgentApprovalRequest) (admitted : Bool) : PyError → Prop
  | unauthenticated {code : Nat} {detail : String} (hcode : code = 401 ∨ code = 403)
      (h : ∀ device, ¬ Authenticates deployment s credentials device) :
      Rejected deployment s finish credentials body admitted (.httpException code detail)
  | limited {device : Device} (h : Authenticates deployment s credentials device)
      (hadmitted : admitted = false) :
      Rejected deployment s finish credentials body admitted .rateLimitExceeded
  | otherDevice {device : Device} (h : Authenticates deployment s credentials device)
      (hdevice : body.deviceId ≠ device.deviceUuid) :
      Rejected deployment s finish credentials body admitted (.httpException 400
        "Request body deviceId does not match the authenticated device.")
  | overflow {time : Datetime} {seconds : Int} (hfrom : s.clock ≤ time) (hto : time ≤ finish)
      (hseconds : seconds = deployment.settings.elevationRequestTtlSeconds ∨
        seconds = deployment.settings.approvalTtlSeconds)
      (h : time.addSeconds seconds = none) :
      Rejected deployment s finish credentials body admitted .overflowError
  | unfit (h : body.fitsColumns = false) :
      Rejected deployment s finish credentials body admitted .dbapiError
  | duplicate {id : Nat} {r : ElevationRequest} (hr : s.request id = some r)
      (h : r.requestUuid = body.requestId) :
      Rejected deployment s finish credentials body admitted .integrityError
  | nonceTaken {id : Nat} {a : Approval} {random : List UInt8} (ha : s.approval id = some a)
      (hlength : random.length = 24) (h : a.nonce = urlsafeText random) :
      Rejected deployment s finish credentials body admitted .integrityError

/-- How a submission may end. -/
inductive Outcome (deployment : Deployment) (s : State) (credentials : Option String)
    (body : AgentApprovalRequest) (admitted : Bool) : Except PyError Answer → State → Prop
  | filed {device : Device} {r : ElevationRequest} {s' : State}
      (hdevice : Authenticates deployment s credentials device)
      (hbody : body.deviceId = device.deviceUuid) (hadmitted : admitted = true)
      (hfits : body.fitsColumns = true) (h : Filed s s' device body r) :
      Outcome deployment s credentials body admitted (.ok (.requestId r.requestUuid.textD)) s'
  | rejected {error : PyError} {s' : State}
      (h : Rejected deployment s s'.clock credentials body admitted error)
      (hcommitted : s'.db.committed = s.db.committed) :
      Outcome deployment s credentials body admitted (.error error) s'

/-- A rejection stays justified as time passes. -/
theorem Rejected.later {deployment : Deployment} {s : State} {finish finish' : Datetime}
    {credentials : Option String} {body : AgentApprovalRequest} {admitted : Bool} {error : PyError}
    (h : Rejected deployment s finish credentials body admitted error) (hle : finish ≤ finish') :
    Rejected deployment s finish' credentials body admitted error := by
  cases h with
  | unauthenticated hcode h => exact .unauthenticated hcode h
  | limited h hadmitted => exact .limited h hadmitted
  | otherDevice h hdevice => exact .otherDevice h hdevice
  | overflow hfrom hto hseconds h => exact .overflow hfrom (Nat.le_trans hto hle) hseconds h
  | unfit h => exact .unfit h
  | duplicate hr h => exact .duplicate hr h
  | nonceTaken ha hlength h => exact .nonceTaken ha hlength h

/-- Only committed rows matter to a request that was filed. -/
theorem Filed.congr {s s' s'' : State} {device : Device} {body : AgentApprovalRequest}
    {r : ElevationRequest} (h : Filed s s' device body r)
    (hcommitted : s''.db.committed = s'.db.committed) : Filed s s'' device body r where
  absent := h.absent
  committed := (com_congr hcommitted _ _).trans h.committed
  requestUuid := h.requestUuid
  deviceId := h.deviceId
  approved := h.approved
  otherwise hstatus := by
    obtain ⟨hpending, hnone⟩ := h.otherwise hstatus
    exact ⟨hpending, fun id a ha => hnone id a ((com_congr hcommitted _ _).symm.trans ha)⟩
  others id hid := (com_congr hcommitted _ _).trans (h.others id hid)
  device id := (com_congr hcommitted _ _).trans (h.device id)
  entry id := (com_congr hcommitted _ _).trans (h.entry id)

/-- The query for entries finds exactly those that apply. -/
theorem isMatch_iff {group : Option Nat} {publisher filename : String} {entry : AppAllowlistEntry} :
    AppAllowlistRepository.isMatch group publisher filename entry = true ↔
      entry.publisher = publisher ∧ entry.filename = filename ∧ Applies entry group := by
  cases group with
  | none => simp [AppAllowlistRepository.isMatch, Applies, and_assoc]
  | some id =>
    simp [AppAllowlistRepository.isMatch, Applies, and_assoc, eq_comm (a := id)]

section Visible

variable {start : State} {r : ElevationRequest} {a : Approval} {list : List Change} {id : Nat}

/-- A request that is seen. -/
def seenRequest (start : State) (list : List Change) (id : Nat) : Option ElevationRequest :=
  seen start list .elevationRequests id

/-- An approval that is seen. -/
def seenApproval (start : State) (list : List Change) (id : Nat) : Option Approval :=
  seen start list .approvals id

theorem seenRequest_eq : seenRequest start list id = (latestRequest id list).or (start.request id) :=
  rfl

theorem seenApproval_eq :
    seenApproval start list id = (latestApproval id list).or (start.approval id) := rfl

/-- Rows of other tables are seen as they were. -/
theorem seen_of_untouched {t : Table} (h : ∀ c ∈ list, c.table ≠ t) :
    seen start list t id = start.com t id := by
  have hlatest : latest t id list = none := by
    refine Option.eq_none_iff_forall_ne_some.mpr fun r hr => ?_
    obtain ⟨old, hmem⟩ := exists_of_latest hr
    exact h _ hmem rfl
  rw [seen, hlatest, Option.none_or]

end Visible

section Steps

variable {deployment : Deployment} {i : Sid} {start s : State} {list : List Change} {β : Type}
  {Q : Except PyError β → State → Prop}

/-- Adding to a time may overflow. -/
theorem does_addSeconds {time : Datetime} {seconds : Int} {f : Datetime → Handler β}
    (h : Alone i start list s) (htime : time ≤ s.clock)
    (hoverflow : ∀ s', Alone i start list s' → time ≤ s'.clock → time.addSeconds seconds = none →
      Q (.error .overflowError) s')
    (hnext : ∀ later, Does deployment i Q (f later) s) :
    Does deployment i Q (addSeconds time seconds >>= f) s := by
  rw [addSeconds]
  split
  · next later _ => exact hnext later
  · next hnone =>
    refine .throw fun s' hticks => ?_
    exact hoverflow s' (h.ticks hticks) (Nat.le_trans htime (eq_of_ticks hticks).1) hnone

/-- The device whose UUID the bearer token names, or an error where there is none or the secret is
wrong or the device revoked. -/
theorem does_getCurrentDeviceBearer {credentials : Option String} {f : Device → Handler β}
    (h : Alone i start [] s) (hdistinct : start.DistinctDevices)
    (herror : ∀ code detail s', Alone i start [] s' → code = 401 ∨ code = 403 →
      (∀ device, ¬ Authenticates deployment start credentials device) →
      Q (.error (.httpException code detail)) s')
    (hok : ∀ device s', Alone i start [] s' → Authenticates deployment start credentials device →
      Does deployment i Q (f device) s') :
    Does deployment i Q (getCurrentDeviceBearer deployment credentials >>= f) s := by
  have hfail : ∀ code detail s', Alone i start [] s' → code = 401 ∨ code = 403 →
      (∀ device, ¬ Authenticates deployment start credentials device) →
      Does deployment i Q (httpError code detail >>= f) s' := fun code detail s' h' hcode hnone =>
    .throw fun s'' hticks => herror code detail s'' (h'.ticks hticks) hcode hnone
  cases credentials with
  | none =>
    refine hfail _ _ _ h (Or.inl rfl) ?_
    rintro device ⟨_, htoken, -⟩
    contradiction
  | some token =>
    rw [getCurrentDeviceBearer]
    dsimp only
    split
    · next hsecret =>
      refine hfail _ _ _ h (Or.inl rfl) ?_
      rintro device ⟨_, htoken, hne, -⟩
      obtain rfl := Option.some.inj htoken
      exact hne hsecret
    · next hsecret =>
      split
      · next deviceUuid huuid =>
        simp only [bind_assoc, DeviceRepository.getByUuid]
        refine does_select_unique h ?_ (fun s1 h1 hnone => ?_) fun device s1 h1 hdevice hmatch => ?_
        · intro id id' r r' hr hr' hcondition hcondition'
          exact hdistinct id id' r r' hr hr'
            ((of_decide_eq_true hcondition).trans (of_decide_eq_true hcondition').symm)
        · refine hfail _ _ _ h1 (Or.inl rfl) ?_
          rintro device ⟨_, htoken, -, huuid', hdevice, -⟩
          obtain rfl := Option.some.inj htoken
          have heq := Option.some.inj (huuid.symm.trans huuid')
          have hnot := hnone device.id device hdevice
          simp [heq] at hnot
        · have hunique : ∀ device', Authenticates deployment start (some token) device' →
              device' = device := by
            rintro device' ⟨_, htoken, -, huuid', hdevice', -⟩
            obtain rfl := Option.some.inj htoken
            have heq := Option.some.inj (huuid.symm.trans huuid')
            exact hdistinct _ _ _ _ hdevice' hdevice (heq.symm.trans (of_decide_eq_true hmatch).symm)
          dsimp only
          split
          · next hverify =>
            refine hfail _ _ _ h1 (Or.inl rfl) fun device' hdevice' => ?_
            obtain rfl := hunique device' hdevice'
            obtain ⟨_, htoken, -, -, -, hverify', -⟩ := hdevice'
            obtain rfl := Option.some.inj htoken
            simp [hverify'] at hverify
          · next hverify =>
            split
            · next hstatus =>
              refine hfail _ _ _ h1 (Or.inr rfl) fun device' hdevice' => ?_
              obtain rfl := hunique device' hdevice'
              obtain ⟨_, -, -, -, -, -, hactive⟩ := hdevice'
              exact hstatus hactive
            · next hstatus =>
              refine hok device s1 h1 ⟨token, rfl, hsecret, ?_, hdevice, by simpa using hverify, ?_⟩
              · rw [huuid, of_decide_eq_true hmatch]
              · simpa using hstatus
      · next huuid =>
        refine hfail _ _ _ h (Or.inl rfl) ?_
        rintro device ⟨_, htoken, -, huuid', -⟩
        obtain rfl := Option.some.inj htoken
        exact huuid _ huuid'

/-- A call may be refused by the rate limiter. -/
theorem does_limit {admitted : Bool} {f : Unit → Handler β} (h : Alone i start list s)
    (hlimited : ∀ s', Alone i start list s' → admitted = false →
      Q (.error .rateLimitExceeded) s')
    (hnext : admitted = true → Does deployment i Q (f ()) s) :
    Does deployment i Q (limit admitted >>= f) s := by
  rw [limit_bind]
  split
  · next hadmitted => exact hnext hadmitted
  · next hadmitted =>
    exact .throw fun s' hticks => hlimited s' (h.ticks hticks) (Bool.not_eq_true _ ▸ hadmitted)

/-- Audit rows never clash. -/
theorem does_writeAuditLog {actorType : ActorType} {actorId action targetType targetId : String}
    {metadata : Option (List (String × MetadataValue))} {f : Unit → Handler β}
    (h : Alone i start list s)
    (hnext : ∀ log s', Alone i start (.log none log :: list) s' → Does deployment i Q (f ()) s') :
    Does deployment i Q
      (writeAuditLog actorType actorId action targetType targetId metadata >>= f) s := by
  rw [writeAuditLog, bind_assoc]
  exact does_insert h (fun _ _ _ _ _ _ _ hclash => by simp [Table.clash] at hclash)
    fun _ _ s' _ h' => hnext _ s' h'

/-- A new request is pending, under a new key, with the columns that the caller chose. -/
theorem does_create {values : ElevationRequestRepository.Values} {requestUuid : Uuid}
    {f : ElevationRequest → Handler β} (h : Alone i start list s)
    (huuid : values.requestUuid = some requestUuid)
    (hunfit : ∀ s', Alone i start list s' → values.fitsColumns = false → Q (.error .dbapiError) s')
    (hclash : ∀ id r s', Alone i start list s' → seenRequest start list id = some r →
      r.requestUuid = requestUuid → Q (.error .integrityError) s')
    (hok : ∀ r s', values.fitsColumns = true → r.status = .pending → r.requestUuid = requestUuid →
      r.deviceId = values.deviceId → r.signatureStatus = values.signatureStatus →
      r.publisher = values.publisher → r.filename = values.filename →
      seenRequest start list r.id = none → Alone i start (.request none r :: list) s' →
      Does deployment i Q (f r) s') :
    Does deployment i Q (ElevationRequestRepository.create values >>= f) s := by
  rw [ElevationRequestRepository.create, huuid]
  change Does deployment i Q ((if values.fitsColumns then insert .elevationRequests
    (ElevationRequestRepository.newRow values requestUuid) else raise .dbapiError) >>= f) s
  split
  · next hfits =>
    refine does_insert h (fun id now id' r s' h' hr hduplicate => ?_) fun id now s' hunseen h' => ?_
    · exact hclash id' r s' h' hr (of_decide_eq_true hduplicate).symm
    · exact hok _ s' hfits rfl rfl rfl rfl rfl rfl hunseen h'
  · next hfits =>
    exact .throw fun s' hticks => hunfit s' (h.ticks hticks) (Bool.not_eq_true _ ▸ hfits)

/-- The query for an entry that applies; that several do is no obstacle. -/
theorem does_findMatch {group : Option Nat} {publisher filename : String}
    {f : Option AppAllowlistEntry → Handler β} (h : Alone i start list s)
    (hlist : ∀ c ∈ list, c.table ≠ .appAllowlistEntries)
    (hnone : ∀ s', Alone i start list s' → ¬ start.Listed group publisher filename →
      Does deployment i Q (f none) s')
    (hsome : ∀ entry s', Alone i start list s' → start.Listed group publisher filename →
      Does deployment i Q (f (some entry)) s') :
    Does deployment i Q (AppAllowlistRepository.findMatch group publisher filename >>= f) s := by
  simp only [AppAllowlistRepository.findMatch, Handler.select, bind_assoc, pure_bind]
  refine does_query h fun snapshot s' h' hrows _ => ?_
  have hmem : ∀ entry : AppAllowlistEntry, entry ∈ snapshot.rows .appAllowlistEntries ↔
      start.com .appAllowlistEntries entry.id = some entry := fun entry => by
    rw [← seen_of_untouched hlist]
    exact hrows .appAllowlistEntries entry
  cases hfilter : List.filter (α := Table.Record .appAllowlistEntries)
      (AppAllowlistRepository.isMatch group publisher filename) (snapshot.rows .appAllowlistEntries) with
  | nil =>
    refine hnone s' h' ?_
    rintro ⟨id, entry, hentry, hpublisher, hfilename, happlies⟩
    have hid : AppAllowlistEntry.id entry = id :=
      h'.id_of_seen (t := .appAllowlistEntries) ((seen_of_untouched hlist).trans hentry)
    have hnot := List.filter_eq_nil_iff.mp hfilter entry ((hmem entry).mpr (by rwa [hid]))
    exact hnot (isMatch_iff.mpr ⟨hpublisher, hfilename, happlies⟩)
  | cons entry rest =>
    refine hsome entry s' h' ?_
    obtain ⟨hentry, hmatch⟩ := List.mem_filter.mp (hfilter ▸ List.mem_cons_self :
      entry ∈ (snapshot.rows .appAllowlistEntries).filter _)
    obtain ⟨hpublisher, hfilename, happlies⟩ := isMatch_iff.mp hmatch
    exact ⟨entry.id, entry, (hmem entry).mp hentry, hpublisher, hfilename, happlies⟩

/-- The nonce of an approval is short. -/
private theorem length_urlsafeText_le {random : List UInt8} (h : random.length = 24) :
    (urlsafeText random).toList.length ≤ 1000 := by
  have hlength : (Base64.encode .urlSafe random).length = 4 * ((random.length + 2) / 3) :=
    Base64.length_encode _ random
  have hfilter := List.length_filter_le (· ≠ '=') (Base64.encode .urlSafe random)
  rw [h] at hlength
  rw [urlsafeText, String.toList_ofList]
  omega

/-- Signing succeeds, unless the approval would expire too late or clashes with another one. -/
theorem does_issueApproval {r : ElevationRequest} {device : Device} {f : Approval → Handler β}
    (h : Alone i start list s)
    (hoverflow : ∀ time s', Alone i start list s' → start.clock ≤ time → time ≤ s'.clock →
      time.addSeconds deployment.settings.approvalTtlSeconds = none → Q (.error .overflowError) s')
    (hclash : ∀ random id a s', Alone i start list s' → random.length = 24 →
      seenApproval start list id = some a →
      a.elevationRequestId = r.id ∨ a.nonce = urlsafeText random → Q (.error .integrityError) s')
    (hok : ∀ a s', a.elevationRequestId = r.id → Alone i start (.approval none a :: list) s' →
      Does deployment i Q (f a) s') :
    Does deployment i Q (issueApproval deployment r device >>= f) s := by
  simp only [issueApproval, bind_assoc]
  refine does_now h fun issuedAt s1 h1 hfrom hto => ?_
  refine does_addSeconds h1 hto (fun s' h' hto' hnone => hoverflow issuedAt s' h' hfrom hto' hnone)
    fun expiresAt => ?_
  refine does_tokenUrlsafe h1 fun random s2 hlength h2 => ?_
  obtain ⟨payload, hpayload⟩ : ∃ payload, Signing.buildCanonicalPayload deployment.casing
      device.deviceUuid.textD r.requestUuid.textD r.sha256.text expiresAt (urlsafeText random)
        = .ok payload :=
    exists_payload r.sha256 expiresAt (by simp) (by simp) (length_urlsafeText_le hlength)
  rw [hpayload]
  refine does_signPayload h2 fun signature s3 h3 => ?_
  refine does_insert h3 (fun id time id' a s' h' ha hclash' => ?_) fun id time s' _ h' => ?_
  · refine hclash random id' a s' h' hlength ha ?_
    have hcases := (Bool.or_eq_true _ _).mp hclash'
    exact hcases.imp (fun h => (of_decide_eq_true h).symm) fun h => (of_decide_eq_true h).symm
  · exact hok _ s' rfl h'

/-- Auto-approval either leaves the submission as it is or adds the decision, the approval and an
audit row, exactly where the allowlist says so. -/
theorem does_tryAutoApprove {r : ElevationRequest} {log : AuditLog} {device : Device}
    {f : Unit → Handler β} (h : Alone i start [.log none log, .request none r] s)
    (hr : r.status = .pending)
    (hoverflow : ∀ list time s', Alone i start list s' → start.clock ≤ time → time ≤ s'.clock →
      time.addSeconds deployment.settings.approvalTtlSeconds = none → Q (.error .overflowError) s')
    (hclash : ∀ list random id a s', Alone i start list s' → random.length = 24 →
      start.approval id = some a →
      a.elevationRequestId = r.id ∨ a.nonce = urlsafeText random → Q (.error .integrityError) s')
    (hplain : ∀ s', Alone i start [.log none log, .request none r] s' →
      ¬ AutoApprovable start device r.signatureStatus r.publisher r.filename →
      Does deployment i Q (f ()) s')
    (happroved : ∀ r' a log' s', r'.id = r.id → r'.status = .approved →
      r'.requestUuid = r.requestUuid → r'.deviceId = r.deviceId → a.elevationRequestId = r.id →
      Alone i start [.log none log', .approval none a, .request (start.request r.id) r',
        .log none log, .request none r] s' →
      AutoApprovable start device r.signatureStatus r.publisher r.filename →
      Does deployment i Q (f ()) s') :
    Does deployment i Q (tryAutoApprove deployment r device >>= f) s := by
  rw [tryAutoApprove]
  split
  · next hstatus => exact hplain s h fun hauto => hstatus hauto.1
  · next hstatus =>
    have htrusted : r.signatureStatus = .trusted := by simpa using hstatus
    split
    · next publisher hpublisher =>
      rw [bind_assoc]
      refine does_findMatch h (by simp [Change.log, Change.request]) (fun s1 h1 hunlisted => ?_)
        fun entry s1 h1 hlisted => ?_
      · refine hplain s1 h1 ?_
        rintro ⟨-, name, hname, hlisted⟩
        obtain rfl := Option.some.inj (hpublisher.symm.trans hname)
        exact hunlisted hlisted
      · have hauto : AutoApprovable start device r.signatureStatus r.publisher r.filename :=
          ⟨htrusted, publisher, hpublisher, hlisted⟩
        simp only [bind_assoc]
        refine does_now h1 fun time s2 h2 _ _ => ?_
        have hseen : seenRequest start [.log none log, .request none r] r.id = some r := by
          rw [seenRequest_eq]
          simp
        refine does_updateWhere h2 (fun s3 hmiss h3 => ?_) fun r0 s3 hr0 hpending h3 => ?_
        · have hnot := hmiss r hseen
          simp [hr] at hnot
        · obtain rfl : r0 = r := Option.some.inj (hr0.symm.trans hseen)
          simp only [bind_assoc]
          refine does_issueApproval h3 (fun time' s4 h4 hfrom hto hnone => ?_)
            (fun random id a s4 h4 hlength ha hcases => ?_) fun a s4 ha h4 => ?_
          · exact hoverflow _ time' s4 h4 hfrom hto hnone
          · exact hclash _ random id a s4 h4 hlength ha hcases
          · refine does_writeAuditLog h4 fun log' s5 h5 => ?_
            exact happroved (ElevationRequestRepository.decided .approved none time r0) a log' s5 rfl
              rfl rfl rfl ha h5 hauto
    · next hpublisher =>
      refine hplain s h ?_
      rintro ⟨-, name, hname, -⟩
      exact hpublisher name hname

/-- What the submission ensures before its session is closed. -/
private def EndsAlone (deployment : Deployment) (i : Sid) (start : State) (credentials : Option String)
    (body : AgentApprovalRequest) (admitted : Bool) : Except PyError String → State → Prop
  | .ok text, s => s.Idle ∧ admitted = true ∧ body.fitsColumns = true ∧
      ∃ device r, Authenticates deployment start credentials device ∧
        body.deviceId = device.deviceUuid ∧ Filed start s device body r ∧ r.requestUuid.textD = text
  | .error error, s => (∃ list, Alone i start list s) ∧
      Rejected deployment start s.clock credentials body admitted error

/-- A request that has no committed row has no committed approval. -/
private theorem unapproved {r : ElevationRequest} (hlinked : Linked deployment start)
    (habsent : start.request r.id = none) {id : Nat} {a : Approval}
    (ha : start.approval id = some a) : a.elevationRequestId ≠ r.id := by
  intro heq
  obtain ⟨r', hr', -⟩ := hlinked.binds id a ha
  rw [heq, habsent] at hr'
  contradiction

/-- Committing what a submission has written files the request. -/
private theorem filed_of_seen {s' : State} {device : Device} {body : AgentApprovalRequest}
    {r : ElevationRequest} (hcom : ∀ t id, s'.com t id = seen start list t id)
    (hkinds : ∀ c ∈ list, c.table ≠ .devices ∧ c.table ≠ .appAllowlistEntries)
    (hlatest : ∀ id, latestRequest id list = if r.id = id then some r else none)
    (habsent : start.request r.id = none) (hrequestUuid : r.requestUuid = body.requestId)
    (hdeviceId : r.deviceId = device.id)
    (happroved : r.status = .approved ↔
      AutoApprovable start device body.trustStatus body.publisherCommonName body.fileName)
    (hotherwise : r.status ≠ .approved → r.status = .pending ∧
      ∀ id a, seenApproval start list id = some a → a.elevationRequestId ≠ r.id) :
    Filed start s' device body r where
  absent := habsent
  committed := by
    have hseen : seenRequest start list r.id = some r := by simp [seenRequest_eq, hlatest]
    exact (hcom .elevationRequests r.id).trans hseen
  requestUuid := hrequestUuid
  deviceId := hdeviceId
  approved := happroved
  otherwise hstatus := by
    obtain ⟨hpending, hnone⟩ := hotherwise hstatus
    exact ⟨hpending, fun id a ha => hnone id a ((hcom .approvals id).symm.trans ha)⟩
  others id hid := by
    have hseen : seenRequest start list id = start.request id := by
      simp [seenRequest_eq, hlatest, Ne.symm hid]
    exact (hcom .elevationRequests id).trans hseen
  device id := (hcom .devices id).trans (seen_of_untouched fun c hc => (hkinds c hc).1)
  entry id := (hcom .appAllowlistEntries id).trans (seen_of_untouched fun c hc => (hkinds c hc).2)

/-- The endpoint commits and answers. -/
private theorem does_answer {credentials : Option String} {body : AgentApprovalRequest}
    {admitted : Bool} {device : Device} {r : ElevationRequest} {text : String}
    (h : Alone i start list s) (hadmitted : admitted = true) (hfits : body.fitsColumns = true)
    (hdevice : Authenticates deployment start credentials device)
    (hbody : body.deviceId = device.deviceUuid) (htext : r.requestUuid.textD = text)
    (hfiled : ∀ s', (∀ t id, s'.com t id = seen start list t id) → Filed start s' device body r) :
    Does deployment i (EndsAlone deployment i start credentials body admitted)
      (commit >>= fun _ => pure text) s := by
  refine does_commit h fun s' hidle hcom => .pure fun s'' hticks => ?_
  rw [(eq_of_ticks hticks).2]
  exact ⟨⟨hidle.clean, hidle.fresh⟩, hadmitted, hfits, device, r, hdevice, hbody, hfiled _ hcom, htext⟩

/-- The submission files the request or is rejected. -/
private theorem does_agentSubmitRequest {credentials : Option String} {body : AgentApprovalRequest}
    {admitted : Bool} (h : Alone i start [] s) (hdistinct : start.DistinctDevices)
    (hlinked : Linked deployment start) :
    Does deployment i (EndsAlone deployment i start credentials body admitted)
      (agentSubmitRequest deployment credentials body admitted) s := by
  rw [agentSubmitRequest]
  refine does_getCurrentDeviceBearer h hdistinct
    (fun code detail s1 h1 hcode hnone => ⟨⟨_, h1⟩, .unauthenticated hcode hnone⟩)
    fun device s1 h1 hdevice => ?_
  refine does_limit h1 (fun s2 h2 hlimited => ⟨⟨_, h2⟩, .limited hdevice hlimited⟩)
    fun hadmitted => ?_
  split
  · next hbody =>
    exact .throw fun s2 hticks => ⟨⟨_, h1.ticks hticks⟩, .otherDevice hdevice hbody⟩
  · next hbody =>
    refine does_now h1 fun time s2 h2 hfrom hto => ?_
    refine does_addSeconds h2 hto (fun s3 h3 hto' hnone =>
      ⟨⟨_, h3⟩, .overflow hfrom hto' (Or.inl rfl) hnone⟩) fun expiresAt => ?_
    refine does_create h2 rfl (fun s3 h3 hunfit => ⟨⟨_, h3⟩, .unfit hunfit⟩)
      (fun id r s3 h3 hr hclash => ⟨⟨_, h3⟩, .duplicate hr hclash⟩) ?_
    intro r s3 hfits hpending hrequestUuid hdeviceId hsignature hpublisher hfilename habsent h3
    refine does_writeAuditLog h3 fun log s4 h4 => ?_
    refine does_tryAutoApprove h4 hpending (fun list time' s5 h5 hfrom' hto' hnone => ?_)
      (fun list random id a s5 h5 hlength ha hcases => ?_) (fun s5 h5 hnot => ?_) ?_
    · exact ⟨⟨_, h5⟩, .overflow hfrom' hto' (Or.inr rfl) hnone⟩
    · refine ⟨⟨_, h5⟩, .nonceTaken ha hlength (hcases.resolve_left ?_)⟩
      exact unapproved hlinked habsent ha
    · refine does_answer h5 hadmitted hfits hdevice (not_not.mp hbody) rfl fun s6 hcom => ?_
      rw [hsignature, hpublisher, hfilename] at hnot
      refine filed_of_seen hcom (by simp [Change.log, Change.request]) (by simp) habsent hrequestUuid
        hdeviceId ⟨fun hstatus => ?_, fun hauto => absurd hauto hnot⟩ fun _ => ⟨hpending, ?_⟩
      · rw [hpending] at hstatus
        contradiction
      · intro id a ha
        have ha' : start.approval id = some a := by simpa [seenApproval_eq] using ha
        exact unapproved hlinked habsent ha'
    · intro r' a log' s5 hid hstatus hrequestUuid' hdeviceId' ha h5 hauto
      rw [hsignature, hpublisher, hfilename] at hauto
      refine does_answer h5 hadmitted hfits hdevice (not_not.mp hbody)
        (congrArg Uuid.textD hrequestUuid') fun s6 hcom => ?_
      refine filed_of_seen hcom (by simp [Change.log, Change.request, Change.approval]) ?_ ?_
        (hrequestUuid'.trans hrequestUuid) (hdeviceId'.trans hdeviceId)
        ⟨fun _ => hauto, fun _ => hstatus⟩ fun hne => absurd hstatus hne
      · intro id
        by_cases hid' : r.id = id <;> simp [hid, hid']
      · rw [hid]
        exact habsent

/-- A submission that runs alone is never stuck, files the request or is rejected, and leaves no
transaction open. -/
theorem does_submission {credentials : Option String} {body : AgentApprovalRequest} {admitted : Bool}
    (hstart : Alone i start [] s) (hdistinct : start.DistinctDevices)
    (hlinked : Linked deployment start) : Does deployment i
      (fun result s => s.Idle ∧ Outcome deployment start credentials body admitted result s)
      (serve deployment (.agentSubmitRequest credentials body admitted)) s := by
  have hmap : Does deployment i (fun result s => match result with
      | .ok answer => s.Idle ∧ Outcome deployment start credentials body admitted (.ok answer) s
      | .error error => (∃ list, Alone i start list s) ∧
          Rejected deployment start s.clock credentials body admitted error)
      (endpoint deployment (.agentSubmitRequest credentials body admitted)) s := by
    refine (does_agentSubmitRequest hstart hdistinct hlinked).map ?_ fun _ _ => id
    rintro text s ⟨hidle, hadmitted, hfits, device, r, hdevice, hbody, hfiled, rfl⟩
    exact ⟨hidle, .filed hdevice hbody hadmitted hfits hfiled⟩
  refine hmap.finally_ fun result s hresult => ?_
  cases result with
  | ok answer =>
    obtain ⟨hidle, houtcome⟩ := hresult
    refine does_close (hidle.resting i) fun s' hidle' hcommitted _ => ⟨hidle', ?_⟩
    cases houtcome with
    | filed hdevice hbody hadmitted hfits hfiled =>
      exact .filed hdevice hbody hadmitted hfits (hfiled.congr hcommitted)
  | error error =>
    obtain ⟨⟨list, halone⟩, hrejected⟩ := hresult
    exact does_close halone fun s' hidle hcommitted hclock =>
      ⟨hidle, .rejected (hrejected.later hclock) hcommitted⟩

end Steps

end ElevateGate.Backend
