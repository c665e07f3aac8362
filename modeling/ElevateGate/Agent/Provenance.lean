import ElevateGate.Agent.Grammar
import ElevateGate.Agent.Ledger
import ElevateGate.Agent.Submission

/-!
# Where a path comes from

A submission validates a path, tracks the request under the GUID that it has just drawn, and sends
the request. The worker looks the request up and executes the tracked path. Every path that the
worker works on is therefore one that a submission has reported.
-/

namespace ElevateGate.Agent

open Interaction Time Text

/-- The path that an operation of an execution is about. -/
def Op.path : Op → Option String
  | .fileExists path => some path
  | .openRead path => some path
  | .readAll path => some path
  | .close path => some path
  | .startProcess _ authority => some authority.canonicalPath
  | _ => none

/-- The request that a thread with the given deeds has looked up last, and what it has found. -/
def found : List Deed → Option (String × Option TrackedRequest)
  | [] => none
  | ⟨_, .getValueOrDefault requestId, answer⟩ :: _ => some (requestId, answer)
  | _ :: rest => found rest

/-- The GUID that a thread with the given deeds has drawn and not yet used. -/
def drawnGuid : List Deed → Option Uuid
  | [] => none
  | ⟨_, .newGuid, guid⟩ :: _ => some guid
  | ⟨_, .setItem _ _, _⟩ :: _ => none
  | _ :: rest => drawnGuid rest

/-- A path that a submission may track: the canonical path of some path, with an extension that is
allowed. -/
def Submittable (casing : Casing) (path : String) : Prop :=
  (∃ raw, WindowsPathRules.tryCanonicalize raw = some path) ∧
    isAllowedExtension casing (getExtension path) = true

/-- The operations of an execution for a raw path: what it does to a file, it does to the canonical
path. -/
structure Op.Launches (host : Host) (requestId rawPath : String) (o : Op) : Prop where
  executes : ∃ token deviceId, o.Executes token requestId deviceId
  path : ∀ path, o.path = some path → WindowsPathRules.tryCanonicalize rawPath = some path
  classified : ∀ root, o = .classify root →
    ∃ letter segments, IsPath rawPath letter segments ∧ root = driveRoot letter
  started : ∀ startInfo authority, o = .startProcess startInfo authority →
    startInfo = ExecutionEngine.startInfo host authority.canonicalPath
      (getExtension authority.canonicalPath)

section Programs

variable {host : Host} {requestId rawPath : String}

/-- An operation that is about no path. -/
private theorem Op.Launches.of_pathless {token : ApprovalToken} {deviceId : String} {o : Op}
    (h : o.Executes token requestId deviceId) (hpath : o.path = none)
    (hroot : ∀ root, o ≠ .classify root) : o.Launches host requestId rawPath where
  executes := ⟨token, deviceId, h⟩
  path path hsome := by
    rw [hpath] at hsome
    contradiction
  classified root heq := absurd heq (hroot root)
  started startInfo authority heq := by
    rw [heq] at hpath
    contradiction

/-- An accepted path is the canonical one. -/
theorem returns_validate {path : String}
    (h : (PathValidator.validate rawPath).Returns (.valid path)) :
    WindowsPathRules.tryCanonicalize rawPath = some path := by
  by_cases hpath : ∃ letter segments, IsPath rawPath letter segments
  · obtain ⟨letter, segments, hpath⟩ := hpath
    rw [validate_of_isPath hpath] at h
    cases h with
    | perform classification hrest =>
      obtain ⟨-, rfl⟩ := outcomeOn_eq_valid.mp hrest.eq_of_pure
      exact tryCanonicalize_eq_some.mpr ⟨letter, segments, hpath, rfl⟩
  · push Not at hpath
    obtain ⟨reason, hreason⟩ := validate_of_not_isPath hpath
    rw [hreason] at h
    cases h

/-- The validator asks about the drive of the path. -/
private theorem within_validate_launches (token : ApprovalToken) (deviceId : String) :
    (PathValidator.validate rawPath).Within (Op.Launches host requestId rawPath) := by
  by_cases hpath : ∃ letter segments, IsPath rawPath letter segments
  · obtain ⟨letter, segments, hpath⟩ := hpath
    rw [validate_of_isPath hpath]
    refine (within_op (o := .classify (driveRoot letter)) ?_).bind fun classification => .pure
    exact
      { executes := ⟨token, deviceId, True.intro⟩
        path := fun path hsome => by contradiction
        classified := fun root heq => ⟨letter, segments, hpath, (Op.classify.inj heq).symm⟩
        started := fun startInfo authority heq => by contradiction }
  · push Not at hpath
    obtain ⟨reason, hreason⟩ := validate_of_not_isPath hpath
    rw [hreason]
    exact .pure

/-- An execution touches only the canonical path of its raw path. -/
theorem within_executeAsync_launches {token : ApprovalToken} {deviceId : String} :
    (ExecutionEngine.executeAsync host token requestId rawPath deviceId).Within
      (Op.Launches host requestId rawPath) := by
  have hpathless : ∀ o : Op, o.Executes token requestId deviceId → o.path = none →
      (∀ root, o ≠ .classify root) → o.Launches host requestId rawPath :=
    fun o ho hpath hroot => .of_pathless ho hpath hroot
  refine (within_validate_launches token deviceId).bind_returns fun outcome houtcome => ?_
  cases outcome with
  | invalid reason => exact .pure
  | valid path =>
    have hfile : ∀ o : Op, o.Executes token requestId deviceId → o.path = some path →
        (∀ startInfo authority, o ≠ .startProcess startInfo authority) →
        o.Launches host requestId rawPath := fun o ho hpath hother =>
      { executes := ⟨token, deviceId, ho⟩
        path := fun p hp => by
          rw [← hp, hpath]
          exact returns_validate houtcome
        classified := fun root heq => by
          rw [heq] at hpath
          contradiction
        started := fun startInfo authority heq => absurd heq (hother startInfo authority) }
    have hstart : ∀ o : Op, o = .startProcess (ExecutionEngine.startInfo host path
        (getExtension path)) ⟨token, requestId, path, deviceId⟩ →
        o.Launches host requestId rawPath := by
      rintro o rfl
      exact
        { executes := ⟨token, deviceId, rfl, rfl, rfl⟩
          path := fun p hp => Option.some.inj hp ▸ returns_validate houtcome
          classified := fun root heq => by contradiction
          started := fun startInfo authority heq => by cases heq; rfl }
    dsimp only
    refine .ite (fun _ => .pure) fun _ => ?_
    refine (within_op (hfile (.fileExists path) trivial rfl (by simp))).bind fun found => ?_
    refine .ite (fun _ => .pure) fun _ => ?_
    refine (within_computeHexAsync.mono ?_).bind fun hash => ?_
    · rintro o (rfl | rfl | rfl) <;> exact hfile _ True.intro rfl (by simp)
    refine (within_validateAsync.mono ?_).bind fun validation => ?_
    · intro o ho
      refine hpathless o ?_ ?_ ?_ <;>
        cases o <;> first | exact True.intro | exact ho.elim | exact ho | rfl | simp
    cases validation with
    | invalid reason => exact .pure
    | valid =>
      refine Program.Within.tryCatch ?_ fun _ => .pure
      refine (within_orThrow (within_op (hstart _ rfl))).bind fun started => ?_
      refine .ite (fun _ => .pure) fun _ => ?_
      exact (within_orThrow (within_op (hpathless .waitForExit trivial rfl (by simp)))).bind fun _ => .pure

end Programs

/-- The protocol of the worker: it neither draws GUIDs nor submits, and it launches only what it has
looked up. -/
structure Handling (host : Host) (done : List Deed) (o : Op) : Prop where
  draws : o ≠ .newGuid
  sets : ∀ id t, o ≠ .setItem id t
  sends : ∀ bearerToken request, o ≠ .sendRequest bearerToken request
  launches : (∃ path, o.path = some path) ∨ (∃ root, o = .classify root) →
    ∃ id t, found done = some (id, some t) ∧ o.Launches host id t.canonicalPath

/-- The protocol of the other calls: a request is tracked under a GUID that was just drawn, and then
sent with the path under which it is tracked. -/
def Submitting (host : Host) (done : List Deed) : Op → Prop
  | .setItem id t => ∃ guid, drawnGuid done = some guid ∧ id = guid.textN ∧
      Submittable host.casing t.canonicalPath
  | .sendRequest _ request => ∃ s t answer rest,
      done = ⟨s, .setItem request.requestId t, answer⟩ :: rest ∧
        t.canonicalPath = request.file.fullPath
  | _ => True

/-- The protocol of a call. -/
def Traced (host : Host) : Call → List Deed → Op → Prop
  | .pollingWorker _ => Handling host
  | _ => Submitting host

section Calls

variable {host : Host} {credential : DeviceCredential}

/-- Operations other than lookups do not change what was found. -/
private theorem found_append {new done : List Deed}
    (h : ∀ deed ∈ new, ∀ id, deed.op ≠ .getValueOrDefault id) :
    found (new ++ done) = found done := by
  induction new with
  | nil => rfl
  | cons deed new ih =>
    have hrest := ih fun d hd => h d (List.mem_cons_of_mem _ hd)
    obtain ⟨before, o, answer⟩ := deed
    cases o <;> first | exact hrest | exact absurd rfl (h _ List.mem_cons_self _)

/-- The worker may do anything else than launch. -/
private theorem handling_of_polls {done : List Deed} {o : Op} (h : o.Polls) :
    Handling host done o := by
  refine ⟨?_, fun id t => ?_, fun bearerToken request => ?_, ?_⟩
  · rintro rfl
    exact h
  · rintro rfl
    exact h
  · rintro rfl
    exact h
  · rintro (⟨path, hpath⟩ | ⟨root, rfl⟩)
    · cases o <;> contradiction
    · exact h.elim

/-- Recording what happened. -/
private theorem obeys_recordAsync {eventType : AuditEventType}
    {requestId deviceId nonce : Option String} {message : String} {done : List Deed} :
    Obeys (Handling host) (fun _ after => found after = found done) done
      (recordAsync eventType requestId deviceId nonce message) := by
  refine (Obeys.of_within within_recordAsync fun new o _ ho => handling_of_polls ho.polls).mono ?_
  rintro _ _ ⟨new, rfl, hnew⟩
  refine found_append fun deed hdeed id hid => ?_
  have hrecords := hnew deed hdeed
  rw [hid] at hrecords
  exact hrecords

/-- What is looked up is what is launched. -/
private theorem abides_handleDecisionAsync_handling (decision : ApprovalDecision) :
    Abides (Handling host)
      (ApprovalPollingWorker.handleDecisionAsync host credential decision) := by
  intro done
  have hupdate : ∀ after requestId status, Obeys (Handling host) (fun _ _ => True) after
      (RequestStateStore.updateStatus requestId status) := fun after requestId status =>
    Abides.of_within (S := Op.Polls) (within_orThrow (within_op (o := .addOrUpdate requestId status) trivial))
      (fun _ _ => handling_of_polls) after
  cases hid : decision.requestId with
  | none =>
    simp only [ApprovalPollingWorker.handleDecisionAsync, hid]
    exact .throw trivial
  | some requestId =>
    simp only [ApprovalPollingWorker.handleDecisionAsync, hid]
    refine .perform (handling_of_polls trivial) fun before answer => ?_
    cases answer with
    | none => exact .pure trivial
    | some tracked =>
      refine obeys_recordAsync.bind ?_ fun _ _ _ => trivial
      intro _ after hfound
      cases decision.status with
      | denied => exact hupdate _ _ _
      | expired => exact hupdate _ _ _
      | pending => exact .pure trivial
      | failed => exact .pure trivial
      | approved =>
        cases decision.token with
        | none => exact hupdate _ _ _
        | some token =>
          refine (Obeys.of_within within_executeAsync_launches ?_).bind ?_ fun _ _ _ => trivial
          · intro new o hnew ho
            obtain ⟨token', deviceId, hexecutes⟩ := ho.executes
            refine ⟨?_, fun id t => ?_, fun bearerToken request => ?_, fun _ => ?_⟩
            · rintro rfl
              exact hexecutes
            · rintro rfl
              exact hexecutes
            · rintro rfl
              exact hexecutes
            · refine ⟨requestId, tracked, ?_, ho⟩
              rw [found_append, hfound]
              · rfl
              · intro deed hdeed id hlookup
                obtain ⟨token'', deviceId', hother⟩ := (hnew deed hdeed).executes
                rw [hlookup] at hother
                exact hother
          · intro outcome after' _
            cases outcome with
            | ok =>
              exact (hupdate _ _ _).bind
                (fun _ _ _ => obeys_recordAsync.mono fun _ _ _ => trivial) fun _ _ _ => trivial
            | failed reason =>
              exact (hupdate _ _ _).bind
                (fun _ _ _ => obeys_recordAsync.mono fun _ _ _ => trivial) fun _ _ _ => trivial

/-- A submission tracks and sends one path. -/
private theorem abides_submitFile_submitting {path reason : String} (hpath : Submittable host.casing path) :
    Abides (Submitting host) (RequestCoordinator.submitFile host path reason) := by
  have hreads : ∀ done o, o.Reads → Submitting host done o := by
    intro done o ho
    cases o <;> first | exact True.intro | exact ho.elim
  have hrecords : ∀ done o, o.Records → Submitting host done o := by
    intro done o ho
    cases o <;> first | exact True.intro | exact ho.elim
  refine fun done => .perform trivial fun s0 received => ?_
  cases received with
  | error error => exact .throw trivial
  | ok credential =>
    refine (obeys_readFile hreads).bind ?_ fun _ _ _ => trivial
    rintro ⟨metadata, signature⟩ after hread
    obtain ⟨reading, rfl, rfl, -⟩ := hread _ _ rfl
    refine .op_bind trivial fun s1 guid => .op_bind trivial fun s2 now => ?_
    refine .op_bind ⟨guid, rfl, rfl, hpath⟩ fun s3 _ => ?_
    refine Obeys.bind (Q := fun _ _ => True) ?_ ?_ fun _ _ _ => trivial
    · refine Obeys.tryCatch (Q := fun _ _ => True) ?_ (fun _ _ _ => trivial) ?_
      · refine .perform ⟨s3, _, _, _, rfl, rfl⟩ fun s4 _ => .perform trivial fun s5 submitted => ?_
        cases submitted with
        | error error => exact .throw trivial
        | ok _ => exact .pure trivial
      · intro error after _
        refine .perform trivial fun s4 updated => ?_
        cases updated with
        | error error => exact .throw trivial
        | ok _ => exact .pure trivial
    · intro submitted after _
      refine Obeys.ite (fun _ => .pure trivial) fun _ => ?_
      exact ((Abides.of_within within_recordAsync hrecords) _).bind (fun _ _ _ => .pure trivial)
        fun _ _ _ => trivial

/-- So does a call that submits. -/
private theorem abides_submitAsync {rawFilePath reason : Option String} :
    Abides (Submitting host) (RequestCoordinator.submitAsync host rawFilePath reason) := by
  refine fun done => .ite (fun _ => .pure trivial) fun _ => .ite (fun _ => .pure trivial) fun _ => ?_
  refine (obeys_validate fun _ => trivial).bind ?_ fun _ _ _ => trivial
  intro outcome after hcanonical
  cases outcome with
  | invalid rejection =>
    refine ((Abides.of_within within_recordAsync fun done o ho => ?_) _).bind
      (fun _ _ _ => .pure trivial) fun _ _ _ => trivial
    cases o <;> first | exact True.intro | exact ho.elim
  | valid canonicalPath =>
    dsimp only
    refine .ite (fun _ => .pure trivial) fun hextension => .perform trivial fun s found => ?_
    refine .ite (fun _ => .pure trivial) fun _ => abides_submitFile_submitting ⟨⟨_, hcanonical _ rfl⟩, ?_⟩ _
    simpa using hextension

/-- Every call keeps to its protocol. -/
theorem follows_traced {accepts : Tid → Call → Bool} :
    (system host accepts).Follows (Traced host) := by
  have hexecutes : ∀ token requestId deviceId done o, o.Executes token requestId deviceId →
      Submitting host done o := by
    intro token requestId deviceId done o ho
    cases o <;> first | exact True.intro | exact ho.elim
  intro i call program hprogram
  simp only [system] at hprogram
  split at hprogram
  · obtain rfl := Option.some.inj hprogram
    cases call with
    | pollingWorker ticks =>
      exact (abides_worker (fun _ _ => handling_of_polls)
        fun _ => abides_handleDecisionAsync_handling).map []
    | submit rawFilePath reason => exact abides_submitAsync.map []
    | getStatus requestId =>
      refine (Abides.of_within (within_getStatus (S := fun o => ∃ id, o = .getValueOrDefault id)
        fun id => ⟨id, rfl⟩) ?_).map []
      rintro done o ⟨id, rfl⟩
      trivial
    | execute token requestId rawPath deviceId =>
      exact (Abides.of_within within_executeAsync (hexecutes token requestId deviceId)).map []
    | validate token deviceId requestId hash =>
      refine (Abides.of_within within_validateAsync fun done o ho => ?_).map []
      cases o <;> first | exact True.intro | exact ho.elim
  · contradiction

end Calls

/-- A request was tracked with a path. -/
def TrackedAs (log : Log) (id path : String) : Prop :=
  ∃ i before t answer, .performed i ⟨before, .setItem id t, answer⟩ ∈ log ∧ t.canonicalPath = path

/-- A request is tracked once, with a path that may be submitted. What is tracked, looked up and
sent under its identifier has this path. -/
structure Sourced (casing : Casing) (r : Recorded Op Res Tid Event State) : Prop where
  submittable : ∀ id path, TrackedAs r.log id path →
    Submittable casing path ∧ ∃ guid ∈ r.state.drawn, id = guid.textN
  owned : ∀ i guid, drawnGuid (mine i r.log) = some guid → guid ∈ r.state.drawn ∧
    (∀ path, ¬ TrackedAs r.log guid.textN path) ∧ ∀ j, drawnGuid (mine j r.log) = some guid → j = i
  single : ∀ id path path', TrackedAs r.log id path → TrackedAs r.log id path' → path = path'
  tracked : ∀ id t, r.state.requests id = some t → TrackedAs r.log id t.canonicalPath
  looked : ∀ i before id t,
    .performed i ⟨before, .getValueOrDefault id, some t⟩ ∈ r.log → TrackedAs r.log id t.canonicalPath
  sent : ∀ i before bearerToken request answer,
    .performed i ⟨before, .sendRequest bearerToken request, answer⟩ ∈ r.log →
    TrackedAs r.log request.requestId request.file.fullPath

section Invariant

variable {host : Host} {accepts : Tid → Call → Bool} {s s' : State} {log : Log}
  {moment : Moment Op Res Tid Event State} {id path : String}

/-- What was tracked stays so. -/
theorem TrackedAs.cons (h : TrackedAs log id path) : TrackedAs (moment :: log) id path := by
  obtain ⟨i, before, t, answer, hmem, hpath⟩ := h
  exact ⟨i, before, t, answer, List.mem_cons_of_mem _ hmem, hpath⟩

/-- Only setting an entry tracks a request. -/
theorem trackedAs_cons (h : ∀ i deed id t, moment = .performed i deed → deed.op ≠ .setItem id t) :
    TrackedAs (moment :: log) id path ↔ TrackedAs log id path := by
  refine ⟨?_, TrackedAs.cons⟩
  rintro ⟨i, before, t, answer, hmem, hpath⟩
  rcases List.mem_cons.mp hmem with heq | hmem
  · exact absurd rfl (h _ _ id t heq.symm)
  · exact ⟨i, before, t, answer, hmem, hpath⟩

/-- A step that neither draws nor tracks keeps the sources. -/
private theorem Sourced.step (h : Sourced host.casing ⟨s, log⟩)
    (hset : ∀ i deed id t, moment = .performed i deed → deed.op ≠ .setItem id t)
    (hguid : ∀ k guid, drawnGuid (mine k (moment :: log)) = some guid →
      drawnGuid (mine k log) = some guid)
    (hdrawn : s'.drawn = s.drawn)
    (hrequests : ∀ id t, s'.requests id = some t →
      ∃ t', s.requests id = some t' ∧ t'.canonicalPath = t.canonicalPath)
    (hlooked : ∀ i before id t, moment = .performed i ⟨before, .getValueOrDefault id, some t⟩ →
      s.requests id = some t)
    (hsent : ∀ i before bearerToken request answer,
      moment = .performed i ⟨before, .sendRequest bearerToken request, answer⟩ →
      TrackedAs log request.requestId request.file.fullPath) :
    Sourced host.casing ⟨s', moment :: log⟩ where
  submittable id path htracked := by
    rw [trackedAs_cons hset] at htracked
    have hdrawn' := h.submittable id path htracked
    rw [show (Recorded.mk s' (moment :: log)).state.drawn = s.drawn from hdrawn]
    exact hdrawn'
  owned i guid hi := by
    obtain ⟨hmem, hnot, honly⟩ := h.owned i guid (hguid i guid hi)
    refine ⟨?_, fun path htracked => ?_, fun j hj => honly j (hguid j guid hj)⟩
    · rw [show (Recorded.mk s' (moment :: log)).state.drawn = s.drawn from hdrawn]
      exact hmem
    · exact hnot path ((trackedAs_cons hset).mp htracked)
  single id path path' htracked htracked' :=
    h.single id path path' ((trackedAs_cons hset).mp htracked) ((trackedAs_cons hset).mp htracked')
  tracked id t ht := by
    obtain ⟨t', ht', hpath⟩ := hrequests id t ht
    exact hpath ▸ (h.tracked id t' ht').cons
  looked i before id t hmem := by
    rcases List.mem_cons.mp hmem with heq | hmem
    · exact (h.tracked id t (hlooked i before id t heq.symm)).cons
    · exact (h.looked i before id t hmem).cons
  sent i before bearerToken request answer hmem := by
    rcases List.mem_cons.mp hmem with heq | hmem
    · exact (hsent i before bearerToken request answer heq.symm).cons
    · exact (h.sent i before bearerToken request answer hmem).cons

/-- A step that is no deed changes nothing that matters, but for a restart, which forgets. -/
private theorem Sourced.quiet (h : Sourced host.casing ⟨s, log⟩)
    (hmoment : ∀ i deed, moment ≠ .performed i deed) (hdrawn : s'.drawn = s.drawn)
    (hrequests : ∀ id t, s'.requests id = some t → s.requests id = some t) :
    Sourced host.casing ⟨s', moment :: log⟩ := by
  refine h.step (fun i deed _ _ heq => absurd heq (hmoment i deed)) (fun k guid hguid => ?_) hdrawn
    (fun id t ht => ⟨t, hrequests id t ht, rfl⟩)
    (fun i before id t heq => absurd heq (hmoment _ _))
    fun i before bearerToken request answer heq => absurd heq (hmoment _ _)
  rcases (mine_quiet hmoment : mine k (_ :: log) = mine k log ∨ _) with hmine | hmine
  · rwa [hmine] at hguid
  · rw [hmine] at hguid
    contradiction

/-- An operation other than setting an entry keeps the paths of the entries. -/
private theorem requests_step {op : Op} (heffect : Effect s op s') (hset : ∀ id t, op ≠ .setItem id t)
    {t : TrackedRequest} (ht : s'.requests id = some t) :
    ∃ t', s.requests id = some t' ∧ t'.canonicalPath = t.canonicalPath := by
  cases heffect with
  | setItem requestId request => exact absurd rfl (hset _ _)
  | @addOrUpdate requestId existing status hexisting =>
    by_cases hid : id = requestId
    · subst hid
      simp only [State.setRequest, Function.update_self, Option.some.injEq] at ht
      exact ⟨existing, hexisting, by rw [← ht]⟩
    · exact ⟨t, by simpa [State.setRequest, hid] using ht, rfl⟩
  | insertNonce nonce =>
    rw [State.insertNonce] at ht
    split at ht <;> exact ⟨t, ht, rfl⟩
  | _ => exact ⟨t, ht, rfl⟩

/-- Drawing a GUID gives the thread one that no request has. -/
private theorem sourced_newGuid {i : Tid} {guid : Uuid} (h : Sourced host.casing ⟨s, log⟩)
    (hfresh : guid ∉ s.drawn) : Sourced host.casing
      ⟨{ s with drawn := guid :: s.drawn }, .performed i ⟨s, .newGuid, guid⟩ :: log⟩ := by
  have hset : ∀ j (deed : Deed) id t, (Moment.performed i ⟨s, .newGuid, guid⟩ :
      Moment Op Res Tid Event State) = .performed j deed → deed.op ≠ .setItem id t := by
    intro j deed id t heq
    obtain ⟨-, rfl⟩ := Moment.performed.inj heq
    simp
  have hmine : ∀ k guid', drawnGuid (mine k (.performed i ⟨s, .newGuid, guid⟩ :: log)) = some guid' →
      (k = i ∧ guid' = guid) ∨ drawnGuid (mine k log) = some guid' := by
    intro k guid' hk
    by_cases hki : i = k
    · subst hki
      rw [mine_performed_self] at hk
      exact Or.inl ⟨rfl, (Option.some.inj hk).symm⟩
    · rw [mine_performed_ne hki] at hk
      exact Or.inr hk
  refine ⟨fun id path htracked => ?_, fun k guid' hk => ?_, fun id path path' h1 h2 => ?_,
    fun id t ht => (h.tracked id t ht).cons, fun j before id t hmem => ?_,
    fun j before bearerToken request answer hmem => ?_⟩
  · obtain ⟨hsubmittable, guid', hdrawn, hid⟩ :=
      h.submittable id path ((trackedAs_cons hset).mp htracked)
    exact ⟨hsubmittable, guid', List.mem_cons_of_mem _ hdrawn, hid⟩
  · rcases hmine k guid' hk with ⟨rfl, rfl⟩ | hold
    · refine ⟨List.mem_cons_self, fun path htracked => ?_, fun j hj => ?_⟩
      · obtain ⟨-, guid'', hdrawn, hid⟩ :=
          h.submittable _ path ((trackedAs_cons hset).mp htracked)
        exact hfresh (Uuid.textN_injective hid ▸ hdrawn)
      · rcases hmine j guid' hj with ⟨rfl, -⟩ | hold
        · rfl
        · exact absurd (h.owned j guid' hold).1 hfresh
    · obtain ⟨hdrawn, hnot, honly⟩ := h.owned k guid' hold
      refine ⟨List.mem_cons_of_mem _ hdrawn, fun path htracked =>
        hnot path ((trackedAs_cons hset).mp htracked), fun j hj => ?_⟩
      rcases hmine j guid' hj with ⟨-, rfl⟩ | hold'
      · exact absurd hdrawn hfresh
      · exact honly j hold'
  · exact h.single id path path' ((trackedAs_cons hset).mp h1) ((trackedAs_cons hset).mp h2)
  · exact (h.looked j before id t ((List.mem_cons.mp hmem).resolve_left (by simp))).cons
  · exact (h.sent j before bearerToken request answer
      ((List.mem_cons.mp hmem).resolve_left (by simp))).cons

/-- Tracking a request under a GUID that the thread owns. -/
private theorem sourced_setItem {i : Tid} {guid : Uuid} {t : TrackedRequest}
    (h : Sourced host.casing ⟨s, log⟩) (hguid : drawnGuid (mine i log) = some guid)
    (hsubmittable : Submittable host.casing t.canonicalPath) :
    Sourced host.casing ⟨s.setRequest guid.textN t,
      .performed i ⟨s, .setItem guid.textN t, ()⟩ :: log⟩ := by
  obtain ⟨hdrawn, hnot, honly⟩ := h.owned i guid hguid
  -- the request is a new one
  have hcases : ∀ id path, TrackedAs (.performed i ⟨s, .setItem guid.textN t, ()⟩ :: log) id path →
      (id = guid.textN ∧ path = t.canonicalPath) ∨ (id ≠ guid.textN ∧ TrackedAs log id path) := by
    rintro id path ⟨j, before, t', answer, hmem, hpath⟩
    rcases List.mem_cons.mp hmem with heq | hmem
    · cases heq
      exact Or.inl ⟨rfl, hpath.symm⟩
    · refine Or.inr ⟨?_, j, before, t', answer, hmem, hpath⟩
      rintro rfl
      exact hnot path ⟨j, before, t', answer, hmem, hpath⟩
  have hmine : ∀ k guid', drawnGuid (mine k (.performed i ⟨s, .setItem guid.textN t, ()⟩ :: log)) =
      some guid' → k ≠ i ∧ drawnGuid (mine k log) = some guid' := by
    intro k guid' hk
    by_cases hki : i = k
    · subst hki
      rw [mine_performed_self] at hk
      contradiction
    · rw [mine_performed_ne hki] at hk
      exact ⟨Ne.symm hki, hk⟩
  refine ⟨fun id path htracked => ?_, fun k guid' hk => ?_, fun id path path' h1 h2 => ?_,
    fun id t' ht => ?_, fun j before id t' hmem => ?_,
    fun j before bearerToken request answer hmem => ?_⟩
  · rcases hcases id path htracked with ⟨rfl, rfl⟩ | ⟨-, hold⟩
    · exact ⟨hsubmittable, guid, hdrawn, rfl⟩
    · exact h.submittable id path hold
  · obtain ⟨hki, hold⟩ := hmine k guid' hk
    obtain ⟨hdrawn', hnot', honly'⟩ := h.owned k guid' hold
    refine ⟨hdrawn', fun path htracked => ?_, fun j hj => honly' j (hmine j guid' hj).2⟩
    rcases hcases _ path htracked with ⟨hid, -⟩ | ⟨-, hold'⟩
    · exact hki (honly k (Uuid.textN_injective hid ▸ hold))
    · exact hnot' path hold'
  · rcases hcases id path h1 with ⟨rfl, rfl⟩ | ⟨hid, h1⟩
    · rcases hcases _ path' h2 with ⟨-, rfl⟩ | ⟨hid, -⟩
      · rfl
      · exact absurd rfl hid
    · rcases hcases id path' h2 with ⟨rfl, -⟩ | ⟨-, h2⟩
      · exact absurd rfl hid
      · exact h.single id path path' h1 h2
  · by_cases hid : id = guid.textN
    · subst hid
      simp only [State.setRequest, Function.update_self, Option.some.injEq] at ht
      exact ⟨i, s, t, (), List.mem_cons_self, congrArg TrackedRequest.canonicalPath ht⟩
    · exact (h.tracked id t' (by simpa [State.setRequest, hid] using ht)).cons
  · exact (h.looked j before id t' ((List.mem_cons.mp hmem).resolve_left (by simp))).cons
  · exact (h.sent j before bearerToken request answer
      ((List.mem_cons.mp hmem).resolve_left (by simp))).cons

/-- What a thread has drawn does not change when another operation is performed. -/
private theorem drawnGuid_performed {i k : Tid} {op : Op} {answer : Res op} {guid : Uuid}
    (hnew : op ≠ .newGuid) (h : drawnGuid (mine k (.performed i ⟨s, op, answer⟩ :: log)) = some guid) :
    drawnGuid (mine k log) = some guid := by
  by_cases hki : i = k
  · subst hki
    rw [mine_performed_self] at h
    cases op <;> first | exact h | contradiction
  · rwa [mine_performed_ne hki] at h

/-- Every step keeps the sources. -/
theorem preserved_sourced :
    Preserved (system host accepts) .free (Traced host) (Sourced host.casing) where
  perform i call op choice answer s s' log h hallowed _ hperform := by
    have heffect := perform_effect hperform
    -- only submissions set entries and send requests
    have hsubmits : (∃ id t, op = .setItem id t) ∨ (∃ b request, op = .sendRequest b request) →
        Submitting host (mine i log) op := by
      intro hop
      cases call with
      | pollingWorker ticks =>
        rcases hop with ⟨id, t, heq⟩ | ⟨b, request, heq⟩
        · exact absurd heq (hallowed.sets id t)
        · exact absurd heq (hallowed.sends b request)
      | _ => exact hallowed
    by_cases hnew : op = .newGuid
    · subst hnew
      obtain ⟨hfresh, rfl⟩ := perform_newGuid hperform
      exact sourced_newGuid h hfresh
    by_cases hsets : ∃ id t, op = .setItem id t
    · obtain ⟨id, t, rfl⟩ := hsets
      obtain ⟨guid, hguid, rfl, hsubmittable⟩ := hsubmits (Or.inl ⟨id, t, rfl⟩)
      obtain rfl := perform_setItem hperform
      exact sourced_setItem h hguid hsubmittable
    push Not at hsets
    refine h.step (fun j deed id t heq => ?_) (fun k guid => drawnGuid_performed hnew) ?_
      (fun id t ht => requests_step heffect hsets ht) ?_ ?_
    · obtain ⟨-, rfl⟩ := Moment.performed.inj heq
      exact hsets id t
    · cases heffect with
      | insertNonce nonce =>
        rw [State.insertNonce]
        split <;> rfl
      | newGuid => exact absurd rfl hnew
      | _ => rfl
    · intro j before id t heq
      cases heq
      exact perform_getValueOrDefault hperform
    · intro j before bearerToken request answer' heq
      cases heq
      obtain ⟨s0, t, answer0, rest, hmine, hpath⟩ := hsubmits (Or.inr ⟨bearerToken, request, rfl⟩)
      have hmem := mem_log_of_mem_mine (hmine ▸ List.mem_cons_self)
      exact ⟨_, s0, t, answer0, hmem, hpath⟩
  stop i s log h := h.quiet (by simp) rfl fun _ _ ht => ht
  reset s s' log h hreset := by
    obtain rfl := Option.some.inj hreset
    exact h.quiet (by simp) rfl fun _ _ ht => by contradiction
  env event s s' log h _ henv :=
    h.quiet (by simp) (env_drawn henv) fun id t ht => env_requests henv ▸ ht

/-- Before the first call nothing was tracked. -/
theorem sourced_nil {casing : Casing} (h : ∀ id, s.requests id = none) : Sourced casing ⟨s, []⟩ where
  submittable id path htracked := by
    obtain ⟨_, _, _, _, hmem, -⟩ := htracked
    contradiction
  owned i guid hguid := by contradiction
  single id path path' htracked := by
    obtain ⟨_, _, _, _, hmem, -⟩ := htracked
    contradiction
  tracked id t ht := absurd (ht.symm.trans (h id)) (by simp)
  looked _ _ _ _ hmem := by contradiction
  sent _ _ _ _ _ hmem := by contradiction

end Invariant

end ElevateGate.Agent
