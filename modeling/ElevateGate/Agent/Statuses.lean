import ElevateGate.Agent.Tracking

/-!
# The two writers keep the discipline

A submission and the worker, followed from operation to operation: what each knows about the status
of its request when it writes it.
-/

namespace ElevateGate.Agent

open Interaction Time

/-- The service in the runs in which the two writers keep out of each other's way. -/
abbrev guarded (host : Host) :
    System Op Res ClrException Answer Tid Choice Event Call Record :=
  (system host serviceCalls).recorded apart

/-- Every operation that remains keeps what the other threads rely on, and the postcondition holds
in the end. -/
def Keeps {β : Type} (host : Host) (i : Tid) (Q : Except ClrException β → Record → Prop)
    (program : Service β) (r : Record) : Prop :=
  discipline.Safe (guarded host) i Q program r

/-- The state after an operation. -/
abbrev Record.after (r : Record) (i : Tid) (o : Op) (answer : Res o) (s : State) : Record :=
  ⟨s, .performed i ⟨r.state, o, answer⟩ :: r.log⟩

section Rules

variable {host : Host} {i : Tid} {β γ : Type} {r : Record}
  {Q : Except ClrException β → Record → Prop}

/-- One operation: it keeps the guarantee, and so does the rest after any answer. -/
theorem keeps_op {o : Op} {f : Res o → Service β}
    (h : ∀ r', Tracked r' → Undisputed i r r' → ∀ choice answer s,
      apart.perform i o choice r' = true → perform host i o choice r'.state = some (answer, s) →
        Guar i r' (r'.after i o answer s) ∧ Keeps host i Q (f answer) (r'.after i o answer s)) :
    Keeps host i Q (op o >>= f) r := by
  intro r' hrely htracked choice answer r'' hperform
  obtain ⟨hguard, hs, hlog⟩ := System.recorded_perform hperform
  obtain ⟨s, log⟩ := r''
  obtain rfl : log = .performed i ⟨r'.state, o, answer⟩ :: r'.log := hlog
  exact h r' htracked hrely choice answer s hguard hs

/-- A quiet operation needs no proof. -/
theorem keeps_quiet {o : Op} {f : Res o → Service β} (hquiet : o.Quiet)
    (h : ∀ r', Tracked r' → Undisputed i r r' → ∀ choice answer s,
      apart.perform i o choice r' = true → perform host i o choice r'.state = some (answer, s) →
        Keeps host i Q (f answer) (r'.after i o answer s)) :
    Keeps host i Q (op o >>= f) r :=
  keeps_op fun r' htracked hrely choice answer s hguard hperform =>
    ⟨guar_quiet htracked hquiet hperform, h r' htracked hrely choice answer s hguard hperform⟩

/-- Returning needs a postcondition that the others do not invalidate. -/
theorem keeps_pure {value : β} (h : ∀ r', Tracked r' → Undisputed i r r' → Q (.ok value) r') :
    Keeps host i Q (.pure value) r := fun r' hrely htracked => h r' htracked hrely

/-- So does throwing. -/
theorem keeps_throw {error : ClrException}
    (h : ∀ r', Tracked r' → Undisputed i r r' → Q (.error error) r') :
    Keeps host i Q (.throw error) r := fun r' hrely htracked => h r' htracked hrely

/-- Both branches keep the discipline. -/
theorem keeps_ite {c : Prop} [Decidable c] {program program' : Service β}
    (h : c → Keeps host i Q program r) (h' : ¬ c → Keeps host i Q program' r) :
    Keeps host i Q (if c then program else program') r := by
  by_cases hc : c
  · rw [if_pos hc]
    exact h hc
  · rw [if_neg hc]
    exact h' hc

/-- Quiet operations keep whatever the others leave alone and they do not change. -/
theorem keeps_within {S : Op → Prop} {K : Record → Prop} {program : Service β}
    (h : program.Within S) (hquiet : ∀ o, S o → o.Quiet)
    (hrely : ∀ r r', K r → Undisputed i r r' → K r')
    (hstep : ∀ r o choice answer s, S o → K r → perform host i o choice r.state = some (answer, s) →
      K (r.after i o answer s)) (hK : K r) : Keeps host i (fun _ => K) program r := by
  induction h generalizing r with
  | pure => exact keeps_pure fun r' _ hundisputed => hrely r r' hK hundisputed
  | throw => exact keeps_throw fun r' _ hundisputed => hrely r r' hK hundisputed
  | perform allowed _ ih =>
    refine keeps_quiet (hquiet _ allowed) fun r' _ hundisputed choice answer s _ hperform => ?_
    exact ih answer (hstep r' _ choice answer s allowed (hrely r r' hK hundisputed) hperform)

/-- Quiet operations need no proof. -/
theorem keeps_quietly {S : Op → Prop} {program : Service β} (h : program.Within S)
    (hquiet : ∀ o, S o → o.Quiet) : Keeps host i (fun _ _ => True) program r :=
  keeps_within h hquiet (fun _ _ _ _ => trivial) (fun _ _ _ _ _ _ _ _ => trivial) trivial

/-- What follows starts in any state in which the first program may end. -/
theorem keeps_bind {R : Except ClrException γ → Record → Prop} {program : Service γ}
    {f : γ → Service β} (h : Keeps host i R program r)
    (hok : ∀ value r', Tracked r' → R (.ok value) r' → Keeps host i Q (f value) r')
    (herror : ∀ error r', Tracked r' → R (.error error) r' → Q (.error error) r') :
    Keeps host i Q (program >>= f) r :=
  Discipline.Safe.bind h hok herror

/-- A handler starts in any state in which the exception may be thrown. -/
theorem keeps_tryCatch {R : Except ClrException β → Record → Prop} {program : Service β}
    {handler : ClrException → Service β} (h : Keeps host i R program r)
    (hok : ∀ value r', Tracked r' → R (.ok value) r' → Q (.ok value) r')
    (herror : ∀ error r', Tracked r' → R (.error error) r' →
      Keeps host i Q (handler error) r') :
    Keeps host i Q (tryCatch program handler) r :=
  Discipline.Safe.tryCatch h hok herror

/-- An answer that may be an exception. -/
theorem keeps_orThrow {o : Op} {α : Type} {f : Res o → Throws α}
    {Q : Except ClrException α → Record → Prop} (hquiet : o.Quiet)
    (hQ : ∀ r', Tracked r' → Undisputed i r r' → ∀ choice answer s,
      apart.perform i o choice r' = true → perform host i o choice r'.state = some (answer, s) →
        ∀ r'', Tracked r'' → Undisputed i (r'.after i o answer s) r'' → Q (f answer) r'') :
    Keeps host i Q (op o >>= fun answer => Program.liftExcept (f answer)) r := by
  refine keeps_quiet hquiet fun r' htracked hrely choice answer s hguard hperform => ?_
  have hpost := hQ r' htracked hrely choice answer s hguard hperform
  cases hanswer : f answer with
  | ok value => exact keeps_pure fun r'' htracked' hrely' => hanswer ▸ hpost r'' htracked' hrely'
  | error error => exact keeps_throw fun r'' htracked' hrely' => hanswer ▸ hpost r'' htracked' hrely'

end Rules

section Submission

variable {host : Host} {i : Tid} {r : Record}

/-- The submission has drawn a GUID and not yet added its request. -/
def Owns (i : Tid) (guid : Uuid) (r : Record) : Prop :=
  Drew i guid r.log ∧ ¬ Added guid.textN r.log

/-- The submission has added its request. -/
def Submitted (i : Tid) (guid : Uuid) (r : Record) : Prop :=
  Drew i guid r.log ∧ ∃ t, r.state.requests guid.textN = some t

/-- The response to the submission was lost, and its request is still pending. -/
def Losing (i : Tid) (guid : Uuid) (r : Record) : Prop :=
  Drew i guid r.log ∧ r.lost guid.textN = true ∧
    ∃ t, r.state.requests guid.textN = some t ∧ t.status = .pending

theorem Owns.stable {guid : Uuid} {r' : Record} (h : Owns i guid r) (hrely : Undisputed i r r') :
    Owns i guid r' :=
  ⟨hrely.drew guid h.1, hrely.unadded guid h.1 h.2⟩

theorem Submitted.stable {guid : Uuid} {r' : Record} (h : Submitted i guid r)
    (hrely : Undisputed i r r') : Submitted i guid r' := by
  obtain ⟨hdrew, t, ht⟩ := h
  exact ⟨hrely.drew guid hdrew, hrely.kept _ t ht⟩

theorem Losing.stable {guid : Uuid} {r' : Record} (h : Losing i guid r)
    (hrely : Undisputed i r r') : Losing i guid r' := by
  obtain ⟨hdrew, hlost, t, ht, hpending⟩ := h
  exact ⟨hrely.drew guid hdrew, hrely.lost _ hlost, t, hrely.failing guid t hdrew ht hpending hlost,
    hpending⟩

/-- A GUID that was just drawn is owned. -/
theorem owns_of_newGuid {guid : Uuid} {choice : Choice} {s : State} (h : Tracked r)
    (hperform : perform host i .newGuid choice r.state = some (guid, s)) :
    Owns i guid (r.after i .newGuid guid s) := by
  refine ⟨⟨r.state, List.mem_cons_self⟩, ?_⟩
  rw [added_cons fun j deed heq id request => by
    obtain ⟨-, rfl⟩ := Moment.performed.inj heq
    simp]
  intro hadded
  obtain ⟨k, guid', heq, hdrew⟩ := h.keyed _ hadded
  rw [← Uuid.textN_injective heq] at hdrew
  exact (perform_newGuid hperform).1 (h.drawn k guid hdrew)

/-- Reading the clock changes nothing that a submission knows. -/
private theorem Owns.quiet {guid : Uuid} {o : Op} {answer : Res o} {s : State}
    (h : Owns i guid r) (hquiet : o.Quiet) : Owns i guid (r.after i o answer s) := by
  obtain ⟨⟨before, hmem⟩, hunadded⟩ := h
  refine ⟨⟨before, List.mem_cons_of_mem _ hmem⟩, ?_⟩
  rwa [added_cons fun j deed heq id request hop => by
    obtain ⟨-, rfl⟩ := Moment.performed.inj heq
    rw [show o = .setItem id request from hop] at hquiet
    exact hquiet]

/-- A submission adds the request of the GUID that it has drawn. -/
private theorem keeps_add {guid : Uuid} {request : TrackedRequest} (h : Owns i guid r) :
    Keeps host i (fun _ => Submitted i guid) (RequestStateStore.add guid.textN request) r := by
  refine keeps_op fun r1 htracked1 hrely1 _ _ s1 _ hperform => ?_
  obtain ⟨hdrew, hunadded⟩ := h.stable hrely1
  obtain rfl := perform_setItem hperform
  refine ⟨guar_setItem htracked1 hdrew hunadded, keeps_pure fun r2 _ hrely2 => ?_⟩
  obtain ⟨before, hmem⟩ := hdrew
  have hsubmitted : Submitted i guid (r1.after i (.setItem guid.textN request) ()
      (r1.state.setRequest guid.textN request)) :=
    ⟨⟨before, List.mem_cons_of_mem _ hmem⟩, request, Function.update_self _ _ _⟩
  exact hsubmitted.stable hrely2

/-- Sending the request, and marking it as failed where the response is lost. -/
private theorem keeps_send {guid : Uuid} {bearerToken : String} {request : ApprovalRequest}
    (hid : request.requestId = guid.textN) (h : Submitted i guid r) :
    Keeps host i (fun _ _ => True) (tryCatch (do
      RequestCoordinator.submitRequestAsync bearerToken request
      return true) fun _ => do
    RequestStateStore.updateStatus guid.textN .failed
    return false) r := by
  refine keeps_tryCatch (R := fun result r' => ∀ error, result = .error error → Losing i guid r')
    ?_ (fun _ _ _ _ => trivial) ?_
  · refine keeps_quiet trivial fun r1 _ hrely1 choice1 _ s1 _ hperform1 => ?_
    have hsubmitted : Submitted i guid (r1.after i (.sendRequest bearerToken request) () s1) := by
      obtain ⟨⟨before, hmem⟩, t, ht⟩ := h.stable hrely1
      refine ⟨⟨before, List.mem_cons_of_mem _ hmem⟩, t, ?_⟩
      rw [← ht, ← ((perform_effect hperform1).quiet trivial).1]
    refine keeps_op fun r2 htracked2 hrely2 choice2 answer s2 hguard2 hperform2 => ?_
    refine ⟨guar_receiveSubmitted htracked2 hguard2 hperform2, ?_⟩
    cases answer with
    | ok _ => exact keeps_pure fun _ _ _ error heq => by contradiction
    | error error =>
      -- the guard lets a response be lost only while the request is pending
      obtain ⟨⟨before, hmem⟩, t, ht⟩ := hsubmitted.stable hrely2
      have hlosing : Losing i guid
          (r2.after i (.receiveSubmitted request.requestId) (.error error) s2) := by
        rw [hid] at hguard2 hperform2 ⊢
        cases choice2 with
        | unit => exact absurd (Prod.mk.inj (Option.some.inj hperform2)).1 (by simp)
        | fail error' =>
          obtain ⟨-, rfl⟩ := Prod.mk.inj (Option.some.inj hperform2)
          have hmay : mayLose guid.textN r2 = true := hguard2
          simp only [mayLose, ht, Option.all_some, Bool.and_eq_true, decide_eq_true_eq] at hmay
          refine ⟨⟨before, List.mem_cons_of_mem _ hmem⟩, ?_, t, ht, hmay.1⟩
          rw [lost_cons]
          simp [Moment.isDeed, isLost]
        | _ => contradiction
      exact keeps_throw fun r3 _ hrely3 error' _ => hlosing.stable hrely3
  · intro error r1 htracked1 hlosing
    refine keeps_op fun r2 htracked2 hrely2 choice2 answer s2 _ hperform2 => ?_
    obtain ⟨hdrew, hlost, t, ht, hpending⟩ := (hlosing error rfl).stable hrely2
    rcases perform_addOrUpdate hperform2 with ⟨t', ht', rfl, rfl⟩ | ⟨hnone, -⟩
    · obtain rfl : t = t' := Option.some.inj (ht.symm.trans ht')
      refine ⟨guar_addOrUpdate htracked2 ht (fun h => absurd hpending h) ?_ fun _ _ =>
        ⟨hpending, hlost⟩, keeps_pure fun _ _ _ => trivial⟩
      intro k hk guid' heq hdrew'
      exact absurd (htracked2.unique k i guid (Uuid.textN_injective heq ▸ hdrew') hdrew) hk
    · rw [ht] at hnone
      contradiction

/-- What a submission reads is quiet. -/
theorem Op.Reads.quiet {o : Op} (h : o.Reads) : o.Quiet := by
  cases o <;> first | exact trivial | exact h.elim

/-- What is recorded is quiet. -/
theorem Op.Records.quiet {o : Op} (h : o.Records) : o.Quiet := by
  cases o <;> first | exact trivial | exact h.elim

/-- A submission keeps the discipline. -/
private theorem keeps_submitFile {path reason : String} :
    Keeps host i (fun _ _ => True) (RequestCoordinator.submitFile host path reason) r := by
  refine keeps_bind (R := fun _ _ => True)
    (keeps_orThrow (o := .getCredential) (f := id) trivial fun _ _ _ _ _ _ _ _ _ _ _ => trivial)
    ?_ fun _ _ _ _ => trivial
  intro credential r0 _ _
  refine keeps_bind (keeps_quietly within_readFile fun _ => Op.Reads.quiet) ?_
    fun _ _ _ _ => trivial
  rintro ⟨metadata, signature⟩ r1 _ _
  refine keeps_op fun r2 htracked2 _ choice2 guid s2 _ hperform2 => ?_
  refine ⟨guar_newGuid htracked2 hperform2, ?_⟩
  have howns2 := owns_of_newGuid htracked2 hperform2
  refine keeps_quiet trivial fun r3 _ hrely3 _ now s3 _ _ => ?_
  have howns3 : Owns i guid (r3.after i .utcNow now s3) := (howns2.stable hrely3).quiet trivial
  refine keeps_bind (keeps_add howns3) (fun _ r4 _ hsubmitted => ?_) fun _ _ _ _ => trivial
  refine keeps_bind (keeps_send rfl hsubmitted) ?_ fun _ _ _ _ => trivial
  intro submitted r5 _ _
  refine keeps_ite (fun _ => keeps_pure fun _ _ _ => trivial) fun _ => ?_
  exact keeps_bind (keeps_quietly within_recordAsync fun _ => Op.Records.quiet)
    (fun _ _ _ _ => keeps_pure fun _ _ _ => trivial) fun _ _ _ _ => trivial

/-- So does a call that submits. -/
theorem keeps_submitAsync {rawFilePath reason : Option String} :
    Keeps host i (fun _ _ => True) (RequestCoordinator.submitAsync host rawFilePath reason) r := by
  refine keeps_ite (fun _ => keeps_pure fun _ _ _ => trivial) fun _ => ?_
  refine keeps_ite (fun _ => keeps_pure fun _ _ _ => trivial) fun _ => ?_
  refine keeps_bind (keeps_quietly (within_validate (S := Op.Quiet) fun _ => trivial)
    fun _ h => h) ?_ fun _ _ _ _ => trivial
  intro outcome r1 _ _
  cases outcome with
  | invalid rejection =>
    exact keeps_bind (keeps_quietly within_recordAsync fun _ => Op.Records.quiet)
      (fun _ _ _ _ => keeps_pure fun _ _ _ => trivial) fun _ _ _ _ => trivial
  | valid canonicalPath =>
    refine keeps_ite (fun _ => keeps_pure fun _ _ _ => trivial) fun _ => ?_
    refine keeps_quiet trivial fun r2 _ _ _ found _ _ _ => ?_
    exact keeps_ite (fun _ => keeps_pure fun _ _ _ => trivial) fun _ => keeps_submitFile

/-- So does a call that asks for the status. -/
theorem keeps_getStatus {requestId : Option String} :
    Keeps host i (fun _ _ => True) (RequestCoordinator.getStatus requestId) r :=
  keeps_quietly (within_getStatus (S := Op.Quiet) fun _ => trivial) fun _ h => h

end Submission

section Worker

variable {host : Host} {r : Record} {id : String} {t : TrackedRequest} {auditEvent : AuditEvent}

/-- The worker handles a decision on a tracked request, which is pending, or to which the decision
changes nothing. -/
structure Ready (id : String) (t : TrackedRequest) (auditEvent : AuditEvent) (r : Record) :
    Prop where
  handled : r.handled = some id
  entry : r.state.requests id = some t
  free : t.status = .pending ∧ r.lost id = false ∨
    settled auditEvent r.state.ledger t.status = true

/-- What is settled is not pending. -/
theorem settled_ne_pending {ledger : List String} {status : RequestStatus}
    (h : settled auditEvent ledger status = true) : status ≠ .pending := by
  rintro rfl
  contradiction

/-- A larger ledger settles more. -/
theorem settled_mono {ledger ledger' : List String} {status : RequestStatus}
    (h : settled auditEvent ledger status = true) (hledger : ledger ⊆ ledger') :
    settled auditEvent ledger' status = true := by
  cases status with
  | failed =>
    simp only [settled, Bool.and_eq_true] at h ⊢
    refine ⟨h.1, ?_⟩
    cases hnonce : auditEvent.nonce with
    | none => rfl
    | some nonce =>
      have hmem := h.2
      rw [hnonce] at hmem
      exact decide_eq_true (hledger (of_decide_eq_true hmem))
  | _ => exact h

/-- A denial that changes nothing finds the request denied. -/
theorem Ready.denied (h : Ready id t auditEvent r)
    (hmessage : auditEvent.message = RequestStatus.denied.name) (hfinal : t.status ≠ .pending) :
    t.status = .denied := by
  have hsettled := h.free.resolve_left fun hpending => hfinal hpending.1
  cases hstatus : t.status <;> simp_all [settled, RequestStatus.name]

/-- An expiry that changes nothing finds the request expired. -/
theorem Ready.expired (h : Ready id t auditEvent r)
    (hmessage : auditEvent.message = RequestStatus.expired.name) (hfinal : t.status ≠ .pending) :
    t.status = .expired := by
  have hsettled := h.free.resolve_left fun hpending => hfinal hpending.1
  cases hstatus : t.status <;> simp_all [settled, RequestStatus.name]

/-- An approval that changes nothing finds the request failed, and its nonce consumed. -/
theorem Ready.approved (h : Ready id t auditEvent r)
    (hmessage : auditEvent.message = RequestStatus.approved.name) (hfinal : t.status ≠ .pending) :
    t.status = .failed ∧ ∀ nonce, auditEvent.nonce = some nonce → nonce ∈ r.state.ledger := by
  have hsettled := h.free.resolve_left fun hpending => hfinal hpending.1
  cases hstatus : t.status with
  | failed =>
    refine ⟨rfl, fun nonce hnonce => ?_⟩
    rw [hstatus] at hsettled
    simp only [settled, Bool.and_eq_true, hnonce, Option.all_some, decide_eq_true_eq] at hsettled
    exact hsettled.2
  | _ => simp_all [settled, RequestStatus.name]

theorem Ready.stable {r' : Record} (h : Ready id t auditEvent r) (hrely : Undisputed 0 r r') :
    Ready id t auditEvent r' := by
  have hunlost : t.status ≠ .pending ∨ r.lost id = false :=
    h.free.symm.imp settled_ne_pending And.right
  obtain ⟨hentry, hunlost'⟩ := hrely.handling rfl id t h.handled h.entry hunlost
  refine ⟨?_, hentry, ?_⟩
  · rw [Record.handled, hrely.mine]
    exact h.handled
  · rcases h.free with ⟨hpending, -⟩ | hsettled
    · exact Or.inl ⟨hpending, hunlost'.resolve_left (not_not.mpr hpending)⟩
    · exact Or.inr (settled_mono hsettled hrely.ledger)

/-- The operations of an execution leave the worker at its decision. -/
def Op.Runs : Op → Prop
  | .utcNow => True
  | .classify _ => True
  | .fileExists _ => True
  | .openRead _ => True
  | .readAll _ => True
  | .close _ => True
  | .insertNonce _ => True
  | .startProcess _ _ => True
  | .waitForExit => True
  | .note _ => True
  | _ => False

theorem Ready.after {o : Op} {choice : Choice} {answer : Res o} {s : State}
    (h : Ready id t auditEvent r)
    (hperform : perform host 0 o choice r.state = some (answer, s)) (hruns : o.Runs) :
    Ready id t auditEvent (r.after 0 o answer s) := by
  have heffect := perform_effect hperform
  have hhandled : (r.after 0 o answer s).handled = r.handled := by
    rw [Record.handled, mine_performed_self, Record.handled]
    cases o <;> first | rfl | exact hruns.elim
  have hlost : (r.after 0 o answer s).lost id = r.lost id := by
    rw [lost_cons]
    cases o <;> first | rfl | exact hruns.elim
  have hrequests : s.requests = r.state.requests := by
    cases heffect with
    | insertNonce nonce =>
      rw [State.insertNonce]
      split <;> rfl
    | setItem | addOrUpdate | newGuid => exact hruns.elim
    | _ => rfl
  refine ⟨hhandled.trans h.handled, ?_, ?_⟩
  · exact (congrFun hrequests id).trans h.entry
  · rw [hlost]
    exact h.free.imp_right fun hsettled => settled_mono hsettled heffect.ledger

/-- Operations of an execution that start no process keep what the worker knows. -/
private theorem keeps_ready {S : Op → Prop} {β : Type} {program : Service β}
    (h : program.Within S) (hS : ∀ o, S o → o.Runs ∧ o.Quiet) (hready : Ready id t auditEvent r) :
    Keeps host 0 (fun _ => Ready id t auditEvent) program r :=
  keeps_within h (fun o ho => (hS o ho).2) (fun _ _ h hrely => h.stable hrely)
    (fun _ o _ _ _ ho h hperform => h.after hperform (hS o ho).1) hready

/-- What the worker knows when a part of an execution ends: a result that lets the execution go on
means that the request is pending. -/
def Held {β : Type} (id : String) (t : TrackedRequest) (auditEvent : AuditEvent) (value : β)
    (result : Except ClrException β) (r : Record) : Prop :=
  Ready id t auditEvent r ∧ (result = .ok value → t.status = .pending)

/-- A result of the other kind means nothing. -/
private theorem keeps_held {β : Type} {value other : β} (hready : Ready id t auditEvent r)
    (hother : other ≠ value) : Keeps host 0 (Held id t auditEvent value) (pure other) r :=
  keeps_pure fun _ _ hrely =>
    ⟨hready.stable hrely, fun heq => absurd (Except.ok.inj heq) hother⟩

/-- Nor does an exception. -/
private theorem Ready.held {β : Type} {value : β} {error : ClrException}
    (h : Ready id t auditEvent r) : Held id t auditEvent value (.error error) r :=
  ⟨h, fun heq => by contradiction⟩

/-- The nonce of an approval that changes nothing was consumed before. -/
private theorem keeps_tryConsumeAsync (hready : Ready id t auditEvent r)
    (hmessage : auditEvent.message = RequestStatus.approved.name) :
    Keeps host 0 (Held id t auditEvent true)
      (SqliteNonceStore.tryConsumeAsync auditEvent.nonce) r := by
  have hthrow : ∀ error : ClrException, Keeps host 0 (Held id t auditEvent true)
      (Program.throw error : Service Bool) r := fun error =>
    keeps_throw fun r' _ hrely => (hready.stable hrely).held
  cases hnonce : auditEvent.nonce with
  | none => exact hthrow _
  | some nonce =>
    refine keeps_ite (fun _ => hthrow _) fun _ => ?_
    refine keeps_bind (R := Held id t auditEvent 1) ?_ ?_ fun _ _ _ h => h.1.held
    · refine keeps_orThrow (o := .insertNonce nonce) (f := fun answer => answer) trivial ?_
      intro r1 _ hrely1 choice answer s _ hperform r2 _ hrely2
      have hready1 := hready.stable hrely1
      refine ⟨(hready1.after hperform trivial).stable hrely2, fun heq => ?_⟩
      obtain rfl : answer = .ok 1 := heq
      by_contra hfinal
      exact (perform_insertNonce hperform).1 ((hready1.approved hmessage hfinal).2 nonce hnonce)
    · intro rows r1 _ ⟨hready1, hrows⟩
      refine keeps_pure fun r2 _ hrely2 => ⟨hready1.stable hrely2, fun heq => hrows ?_⟩
      rw [eq_of_beq (Except.ok.inj heq)]

/-- A token is found valid only for a request that is pending. -/
private theorem keeps_validateAsync {token : ApprovalToken} {deviceId requestId hash : String}
    (hready : Ready id t auditEvent r)
    (hmessage : auditEvent.message = RequestStatus.approved.name)
    (hnonce : auditEvent.nonce = token.nonce) :
    Keeps host 0 (Held id t auditEvent .valid)
      (validateAsync host token deviceId requestId hash) r := by
  refine keeps_bind (keeps_ready (S := fun _ => False) .liftExcept (fun _ => False.elim) hready) ?_
    fun _ _ _ h => h.held
  intro payload r1 _ hready1
  refine keeps_ite (fun _ => keeps_held hready1 (by simp)) fun _ => ?_
  refine keeps_ite (fun _ => keeps_held hready1 (by simp)) fun _ => ?_
  refine keeps_ite (fun _ => keeps_held hready1 (by simp)) fun _ => ?_
  refine keeps_quiet trivial fun r2 _ hrely2 _ now s2 _ hperform2 => ?_
  have hready2 := (hready1.stable hrely2).after hperform2 trivial
  refine keeps_ite (fun _ => keeps_held hready2 (by simp)) fun _ => ?_
  refine keeps_bind (hnonce ▸ keeps_tryConsumeAsync hready2 hmessage) ?_ fun _ _ _ h => h.1.held
  intro fresh r3 _ ⟨hready3, hfresh⟩
  refine keeps_ite (fun _ => keeps_held hready3 (by simp)) fun hnot => ?_
  refine keeps_ite (fun _ => keeps_held hready3 (by simp)) fun _ => ?_
  refine keeps_quiet trivial fun r4 _ hrely4 _ _ s4 _ hperform4 => ?_
  have hready4 := (hready3.stable hrely4).after hperform4 trivial
  refine keeps_pure fun r5 _ hrely5 => ⟨hready4.stable hrely5, fun _ => hfresh ?_⟩
  cases fresh with
  | true => rfl
  | false => exact absurd rfl hnot

/-- A process is started for a request that is pending. -/
private theorem keeps_launchAsync {path extension : String} {authority : Authority}
    (hready : Ready authority.expectedRequestId t auditEvent r) (hpending : t.status = .pending) :
    Keeps host 0 (fun _ => Ready authority.expectedRequestId t auditEvent)
      (ExecutionEngine.launchAsync host path extension authority) r := by
  refine keeps_tryCatch (R := fun _ => Ready authority.expectedRequestId t auditEvent) ?_
    (fun _ _ _ h => h) fun error r1 _ h => keeps_pure fun r2 _ hrely2 => h.stable hrely2
  refine keeps_op fun r1 htracked1 hrely1 _ started s1 _ hperform1 => ?_
  have hready1 := hready.stable hrely1
  have hallowed : ∀ t', r1.state.requests authority.expectedRequestId = some t' →
      ¬ t'.status.Refuses := by
    intro t' ht'
    obtain rfl := Option.some.inj (hready1.entry.symm.trans ht')
    rw [hpending]
    simp [RequestStatus.Refuses]
  refine ⟨guar_startProcess htracked1 hallowed hperform1, ?_⟩
  have hready2 := hready1.after hperform1 trivial
  cases started with
  | error error => exact keeps_throw fun r2 _ hrely2 => hready2.stable hrely2
  | ok started =>
    refine keeps_ite (fun _ => keeps_pure fun r2 _ hrely2 => hready2.stable hrely2) fun _ => ?_
    refine keeps_bind (keeps_ready (S := (· = .waitForExit)) (within_orThrow (within_op rfl)) ?_
      hready2) (fun _ r3 _ h => keeps_pure fun r4 _ hrely4 => h.stable hrely4) fun _ _ _ h => h
    rintro o rfl
    exact ⟨trivial, trivial⟩

/-- An execution succeeds only for a request that is pending. -/
private theorem keeps_executeAsync {token : ApprovalToken} {path deviceId : String}
    (hready : Ready id t auditEvent r)
    (hmessage : auditEvent.message = RequestStatus.approved.name)
    (hnonce : auditEvent.nonce = token.nonce) :
    Keeps host 0 (Held id t auditEvent .ok)
      (ExecutionEngine.executeAsync host token id path deviceId) r := by
  refine keeps_bind (keeps_ready (S := fun o => ∃ root, o = .classify root)
    (within_validate fun root => ⟨root, rfl⟩) ?_ hready) ?_ fun _ _ _ h => h.held
  · rintro o ⟨root, rfl⟩
    exact ⟨trivial, trivial⟩
  intro outcome r1 _ hready1
  cases outcome with
  | invalid reason => exact keeps_held hready1 (by simp)
  | valid canonicalPath =>
    refine keeps_ite (fun _ => keeps_held hready1 (by simp)) fun _ => ?_
    refine keeps_quiet trivial fun r2 _ hrely2 _ found s2 _ hperform2 => ?_
    have hready2 := (hready1.stable hrely2).after hperform2 trivial
    refine keeps_ite (fun _ => keeps_held hready2 (by simp)) fun _ => ?_
    refine keeps_bind (keeps_ready within_computeHexAsync ?_ hready2) ?_ fun _ _ _ h => h.held
    · rintro o (rfl | rfl | rfl) <;> exact ⟨trivial, trivial⟩
    intro currentHash r3 _ hready3
    refine keeps_bind (keeps_validateAsync hready3 hmessage hnonce) ?_ fun _ _ _ h => h.1.held
    intro validation r4 _ ⟨hready4, hvalid⟩
    cases validation with
    | invalid reason => exact keeps_held hready4 (by simp)
    | valid =>
      have hlaunch : Keeps host 0 (fun _ => Ready id t auditEvent) (ExecutionEngine.launchAsync host
          canonicalPath (getExtension canonicalPath) ⟨token, id, canonicalPath, deviceId⟩) r4 :=
        keeps_launchAsync hready4 (hvalid rfl)
      exact hlaunch.mono fun _ _ _ h => ⟨h, fun _ => hvalid rfl⟩

/-- The worker writes a status that the request has, or that it gets while it is pending. -/
private theorem keeps_updateStatus {status : RequestStatus} (hready : Ready id t auditEvent r)
    (hfinal : t.status ≠ .pending → status = t.status) :
    Keeps host 0 (fun _ _ => True) (RequestStateStore.updateStatus id status) r := by
  refine keeps_op fun r1 htracked1 hrely1 _ answer s1 _ hperform1 => ?_
  have hready1 := hready.stable hrely1
  rcases perform_addOrUpdate hperform1 with ⟨t', ht', rfl, rfl⟩ | ⟨hnone, -⟩
  · obtain rfl : t = t' := Option.some.inj (hready1.entry.symm.trans ht')
    refine ⟨guar_addOrUpdate htracked1 ht' hfinal ?_ (fun h => absurd rfl h),
      keeps_pure fun _ _ _ => trivial⟩
    intro k _ guid _ _ hpending
    rcases hready1.free with ⟨-, hlost⟩ | hsettled
    · exact hlost
    · exact absurd hpending (settled_ne_pending hsettled)
  · rw [hready1.entry] at hnone
    contradiction

/-- Handling an approval. -/
private theorem keeps_handleApprovedAsync {credential : DeviceCredential}
    {token : Option ApprovalToken} {tracked : TrackedRequest} (hready : Ready id t auditEvent r)
    (hmessage : auditEvent.message = RequestStatus.approved.name)
    (hnonce : auditEvent.nonce = token.bind ApprovalToken.nonce) :
    Keeps host 0 (fun _ _ => True)
      (ApprovalPollingWorker.handleApprovedAsync host credential id token tracked) r := by
  cases token with
  | none => exact keeps_updateStatus hready fun hfinal => ((hready.approved hmessage hfinal).1).symm
  | some token =>
    refine keeps_bind (keeps_executeAsync hready hmessage hnonce) ?_ fun _ _ _ _ => trivial
    intro outcome r1 _ ⟨hready1, hok⟩
    have hrecord : ∀ r2, ∀ eventType message, Keeps host 0 (fun _ _ => True)
        (recordAsync eventType (some id) (some credential.deviceId) token.nonce message) r2 :=
      fun _ _ _ => keeps_quietly within_recordAsync fun _ => Op.Records.quiet
    cases outcome with
    | ok =>
      exact keeps_bind (keeps_updateStatus hready1 fun hfinal => absurd (hok rfl) hfinal)
        (fun _ r2 _ _ => hrecord r2 _ _) fun _ _ _ _ => trivial
    | failed reason =>
      exact keeps_bind (keeps_updateStatus hready1 fun hfinal =>
          ((hready1.approved hmessage hfinal).1).symm)
        (fun _ r2 _ _ => hrecord r2 _ _) fun _ _ _ _ => trivial

/-- A decision that the guard lets the worker take up finds the worker ready. -/
private theorem ready_of_mayTakeUp {answer : Throws Unit} {choice : Choice} {s : State}
    {status : RequestStatus} {requestId : String}
    (hstatus : status = .denied ∨ status = .expired ∨ status = .approved)
    (hid : auditEvent.requestId = some requestId) (hkind : auditEvent.eventType = .decisionReceived)
    (hmessage : auditEvent.message = status.name)
    (hentry : r.state.requests requestId = some t)
    (hguard : apart.perform 0 (.record auditEvent) choice r = true)
    (hperform : perform host 0 (.record auditEvent) choice r.state = some (answer, s)) :
    Ready requestId t auditEvent (r.after 0 (.record auditEvent) answer s) := by
  have htakes : takesUp auditEvent = true := by
    rcases hstatus with h | h | h <;> simp [takesUp, hkind, hmessage, h]
  have hmay : mayTakeUp auditEvent r = true := by
    simpa [apart, htakes] using hguard
  have hs : s.requests = r.state.requests ∧ s.ledger = r.state.ledger := by
    cases perform_effect hperform <;> exact ⟨rfl, rfl⟩
  refine ⟨?_, ?_, ?_⟩
  · rw [Record.handled, mine_performed_self, handling, if_pos htakes, hid]
  · rw [← hentry]
    exact congrFun hs.1 requestId
  · rw [show (r.after 0 (.record auditEvent) answer s).state.ledger = r.state.ledger from hs.2]
    simpa [mayTakeUp, hid, hentry, Record.lost, Moment.isDeed, isLost] using hmay

/-- What the worker knows when it has recorded the decision that it handles. -/
def Taken (requestId : String) (status : RequestStatus) (nonce : Option String) (r : Record) :
    Prop :=
  status = .denied ∨ status = .expired ∨ status = .approved → ∃ t auditEvent,
    Ready requestId t auditEvent r ∧ auditEvent.message = status.name ∧ auditEvent.nonce = nonce

/-- Recording a decision on a tracked request takes it up. -/
private theorem keeps_recordDecision {requestId deviceId : String} {decision : ApprovalDecision}
    (hentry : ∃ t, r.state.requests requestId = some t) :
    Keeps host 0 (fun _ => Taken requestId decision.status (decision.token.bind ApprovalToken.nonce))
      (recordAsync .decisionReceived (some requestId) (some deviceId)
        (decision.token.bind ApprovalToken.nonce) decision.status.name) r := by
  refine keeps_quiet trivial fun r1 _ hrely1 _ now s1 _ hperform1 => ?_
  have hentry1 : ∃ t, (r1.after 0 .utcNow now s1).state.requests requestId = some t := by
    obtain ⟨t, ht⟩ := hentry
    obtain ⟨t', ht'⟩ := hrely1.kept requestId t ht
    exact ⟨t', (congrFun ((perform_effect hperform1).quiet trivial).1 requestId).trans ht'⟩
  refine keeps_orThrow (o := .record _) (f := fun answer => answer) trivial ?_
  intro r2 _ hrely2 choice answer s2 hguard2 hperform2 r3 _ hrely3 hstatus
  obtain ⟨t, ht⟩ := hentry1
  obtain ⟨t', ht'⟩ := hrely2.kept requestId t ht
  have hready := ready_of_mayTakeUp hstatus rfl rfl rfl ht' hguard2 hperform2
  exact ⟨t', _, hready.stable hrely3, rfl, rfl⟩

/-- Handling a decision. -/
private theorem keeps_handleDecisionAsync {credential : DeviceCredential}
    {decision : ApprovalDecision} : Keeps host 0 (fun _ _ => True)
      (ApprovalPollingWorker.handleDecisionAsync host credential decision) r := by
  cases hid : decision.requestId with
  | none =>
    simp only [ApprovalPollingWorker.handleDecisionAsync, hid]
    exact keeps_throw fun _ _ _ => trivial
  | some requestId =>
    simp only [ApprovalPollingWorker.handleDecisionAsync, hid]
    refine keeps_quiet trivial fun r1 _ hrely1 choice found s1 _ hperform1 => ?_
    have hfound : found = r1.state.requests requestId ∧ s1 = r1.state := by
      cases choice with
      | unit => exact (Prod.mk.inj (Option.some.inj hperform1)).imp Eq.symm Eq.symm
      | _ => contradiction
    obtain ⟨rfl, rfl⟩ := hfound
    cases hentry : r1.state.requests requestId with
    | none => exact keeps_pure fun _ _ _ => trivial
    | some tracked =>
      refine keeps_bind (keeps_recordDecision ⟨tracked, hentry⟩) ?_ fun _ _ _ _ => trivial
      intro _ r2 _ htaken
      cases hstatus : decision.status with
      | denied =>
        obtain ⟨t, auditEvent, hready, hmessage, -⟩ := htaken (Or.inl hstatus)
        rw [hstatus] at hmessage
        exact keeps_updateStatus hready fun hfinal => (hready.denied hmessage hfinal).symm
      | expired =>
        obtain ⟨t, auditEvent, hready, hmessage, -⟩ := htaken (Or.inr (Or.inl hstatus))
        rw [hstatus] at hmessage
        exact keeps_updateStatus hready fun hfinal => (hready.expired hmessage hfinal).symm
      | approved =>
        obtain ⟨t, auditEvent, hready, hmessage, hnonce⟩ := htaken (Or.inr (Or.inr hstatus))
        rw [hstatus] at hmessage
        exact keeps_handleApprovedAsync hready hmessage hnonce
      | pending => exact keeps_pure fun _ _ _ => trivial
      | failed => exact keeps_pure fun _ _ _ => trivial

/-- Setting the watermark. -/
private theorem keeps_setSinceUtc :
    Keeps host 0 (fun _ _ => True) ApprovalPollingWorker.setSinceUtc r :=
  keeps_quiet trivial fun _ _ _ _ _ _ _ _ => keeps_quiet trivial fun _ _ _ _ _ _ _ _ =>
    keeps_pure fun _ _ _ => trivial

/-- Polling, and handling what the poll returns. -/
private theorem keeps_pollOnceAsync {credential : DeviceCredential} {sinceUtc : DateTimeOffset} :
    Keeps host 0 (fun _ _ => True) (ApprovalPollingWorker.pollOnceAsync host credential sinceUtc)
      r := by
  refine keeps_bind (R := fun _ _ => True) ?_ (fun decisions r1 _ _ => ?_) fun _ _ _ _ => trivial
  · refine keeps_quiet trivial fun _ _ _ _ _ _ _ _ => ?_
    exact keeps_orThrow (o := .receiveDecisions) (f := fun answer => answer) trivial
      fun _ _ _ _ _ _ _ _ _ _ _ => trivial
  · refine Discipline.Safe.forEach (P := fun _ => True) trivial (fun _ _ _ _ _ => trivial) ?_
      fun _ _ _ => trivial
    intro decision _ r2 _ _
    exact Discipline.Safe.mono keeps_handleDecisionAsync fun result _ _ _ => by
      cases result <;> trivial

/-- A cycle of the worker. -/
private theorem keeps_cycle {credential : DeviceCredential} {sinceUtc : DateTimeOffset} :
    Keeps host 0 (fun _ _ => True) (ApprovalPollingWorker.cycle host credential sinceUtc) r := by
  refine keeps_tryCatch (R := fun _ _ => True) ?_ (fun _ _ _ _ => trivial) fun _ _ _ _ =>
    keeps_pure fun _ _ _ => trivial
  exact keeps_bind keeps_pollOnceAsync (fun _ _ _ _ => keeps_setSinceUtc) fun _ _ _ _ => trivial

/-- The cycles of the worker. -/
private theorem keeps_cycles {credential : DeviceCredential} {ticks : Nat}
    {sinceUtc : DateTimeOffset} : Keeps host 0 (fun _ _ => True)
      (ApprovalPollingWorker.cycles host credential ticks sinceUtc) r := by
  induction ticks generalizing sinceUtc r with
  | zero =>
    exact keeps_bind keeps_cycle (fun _ _ _ _ => keeps_pure fun _ _ _ => trivial)
      fun _ _ _ _ => trivial
  | succ ticks ih =>
    refine keeps_bind keeps_cycle (fun sinceUtc r1 _ _ => ?_) fun _ _ _ _ => trivial
    refine keeps_bind (keeps_quietly (within_orThrow (within_op (S := Op.Quiet) trivial))
      fun _ h => h) (fun again r2 _ _ => ?_) fun _ _ _ _ => trivial
    exact keeps_ite (fun _ => ih) fun _ => keeps_pure fun _ _ _ => trivial

/-- The worker keeps the discipline. -/
theorem keeps_pollingWorker {ticks : Nat} :
    Keeps host 0 (fun _ _ => True) (ApprovalPollingWorker.executeAsync host ticks) r := by
  refine keeps_bind (keeps_quietly (within_orThrow (within_op (S := Op.Quiet) trivial))
    fun _ h => h) (fun credential r1 _ _ => ?_) fun _ _ _ _ => trivial
  exact keeps_bind keeps_setSinceUtc (fun _ _ _ _ => keeps_cycles) fun _ _ _ _ => trivial

end Worker

/-- What a call answers does not matter. -/
private theorem keeps_map {host : Host} {i : Tid} {β γ : Type} {program : Service β} {f : β → γ}
    {r : Record} (h : Keeps host i (fun _ _ => True) program r) :
    Keeps host i (fun _ _ => True) (f <$> program) r := by
  rw [map_eq_pure_bind]
  exact keeps_bind h (fun _ _ _ _ => keeps_pure fun _ _ _ => trivial) fun _ _ _ _ => trivial

/-- The service keeps the discipline in the runs in which the two writers keep out of each other's
way. -/
theorem valid_discipline (host : Host) : discipline.Valid (guarded host) where
  entry i call program r hprogram htracked := by
    obtain ⟨haccepts, rfl⟩ : serviceCalls i call = true ∧ serve host call = program := by
      simpa [System.recorded, system] using hprogram
    cases i with
    | zero =>
      cases call with
      | pollingWorker ticks => exact keeps_map keeps_pollingWorker
      | _ => contradiction
    | succ i =>
      cases call with
      | submit rawFilePath reason => exact keeps_map keeps_submitAsync
      | getStatus requestId => exact keeps_map keeps_getStatus
      | _ => contradiction
  stop i r htracked :=
    { inv := htracked.unmarked (fun _ _ heq => by contradiction) (fun id t ht => ⟨t, ht⟩) rfl
      evolves := .step fun id t' ht' => ⟨t', ht', fun _ => rfl⟩
      rely := fun k hk => by
        refine .unmarked (mine_stopped_ne hk.symm) (fun _ _ heq => by contradiction) ?_ rfl
          (List.Subset.refl _)
        exact fun _ _ _ _ _ hlost => hlost }
  env event r r' henv htracked := by
    obtain ⟨s, hs, rfl⟩ := Option.map_eq_some_iff.mp henv
    have hrequests := env_requests hs
    have hdrawn : s.drawn = r.state.drawn := env_drawn hs
    refine ⟨htracked.unmarked (fun _ _ heq => by contradiction)
      (fun id t ht => ⟨t, hrequests ▸ ht⟩) hdrawn, .step fun id t' ht' => ⟨t', hrequests ▸ ht',
        fun _ => rfl⟩, fun k => ?_⟩
    exact .unmarked rfl (fun _ _ heq => by contradiction) (fun _ _ _ _ _ hlost => hlost) hrequests
      (env_ledger hs ▸ List.Subset.refl _)
  reset r r' hreset htracked := by
    obtain rfl : (⟨r.state.restart, .restarted :: r.log⟩ : Record) = r' := Option.some.inj hreset
    exact ⟨htracked.unmarked (fun _ _ heq => by contradiction) (fun _ _ ht => by contradiction) rfl,
      .step fun _ _ ht' => by contradiction⟩

end ElevateGate.Agent
