import ElevateGate.Agent.Effects
import ElevateGate.Agent.Operations

/-!
# Who may change the status of a request

Two parts of the service write the status of a tracked request without looking at the old one: the
submission, when its response is lost, and the worker, when it has handled a decision. The status of
a request is final if the two keep out of each other's way. The guard says when they do.
-/

namespace ElevateGate.Agent

open Interaction Time

/-- The service with the log of what happened. -/
abbrev Record := Recorded Op Res Tid Event State

/-- Whether a deed has lost the response to the submission of a request. -/
def isLost (requestId : String) : Deed → Bool
  | ⟨_, .receiveSubmitted id, .error _⟩ => decide (id = requestId)
  | _ => false

/-- Whether the response to the submission of a request was lost. -/
def Record.lost (r : Record) (requestId : String) : Bool :=
  r.log.any (Moment.isDeed (isLost requestId))

/-- Whether an event says that a decision is taken up which writes a status. -/
def takesUp (auditEvent : AuditEvent) : Bool :=
  decide (auditEvent.eventType = .decisionReceived) &&
    (decide (auditEvent.message = RequestStatus.approved.name) ||
      decide (auditEvent.message = RequestStatus.denied.name) ||
      decide (auditEvent.message = RequestStatus.expired.name))

/-- The request of the decision that a thread with the given deeds is handling. -/
def handling : List Deed → Option String
  | [] => none
  | ⟨_, .record auditEvent, _⟩ :: rest =>
    if takesUp auditEvent then auditEvent.requestId else handling rest
  | ⟨_, .addOrUpdate _ _, _⟩ :: _ => none
  | ⟨_, .getValueOrDefault _, _⟩ :: _ => none
  | ⟨_, .waitForNextTick, _⟩ :: _ => none
  | _ :: rest => handling rest

/-- The request of the decision that the worker is handling. -/
def Record.handled (r : Record) : Option String :=
  handling (mine 0 r.log)

/-- Whether handling a decision can only write the status that the request has. -/
def settled (auditEvent : AuditEvent) (ledger : List String) (status : RequestStatus) : Bool :=
  match status with
  | .denied => decide (auditEvent.message = RequestStatus.denied.name)
  | .expired => decide (auditEvent.message = RequestStatus.expired.name)
  | .failed => decide (auditEvent.message = RequestStatus.approved.name) &&
      auditEvent.nonce.all fun nonce => decide (nonce ∈ ledger)
  | _ => false

/-- Whether a decision may be taken up: its request is pending and the response to its submission
was not lost, or the decision changes nothing. -/
def mayTakeUp (auditEvent : AuditEvent) (r : Record) : Bool :=
  (r.state.requests (auditEvent.requestId.getD "")).all fun tracked =>
    decide (tracked.status = .pending) && !r.lost (auditEvent.requestId.getD "") ||
      settled auditEvent r.state.ledger tracked.status

/-- Whether the response to a submission may be lost: the request is pending and no decision on it
is being handled. -/
def mayLose (requestId : String) (r : Record) : Bool :=
  (r.state.requests requestId).all fun tracked =>
    decide (tracked.status = .pending) && decide (r.handled ≠ some requestId)

/-- The runs in which the two writers keep out of each other's way. -/
def apart : Guard Op Res Tid Choice Event State where
  perform _ op choice r :=
    match op, choice with
    | .record auditEvent, _ => !takesUp auditEvent || mayTakeUp auditEvent r
    | .receiveSubmitted requestId, .fail _ => mayLose requestId r
    | _, _ => true
  env _ _ := true

/-- A thread has drawn a GUID. -/
def Drew (i : Tid) (guid : Uuid) (log : List (Moment Op Res Tid Event State)) : Prop :=
  ∃ before, .performed i ⟨before, .newGuid, guid⟩ ∈ log

/-- A request was added to the state store. -/
def Added (requestId : String) (log : List (Moment Op Res Tid Event State)) : Prop :=
  ∃ i before request answer, .performed i ⟨before, .setItem requestId request, answer⟩ ∈ log

/-- A status at which no process may be started. -/
def RequestStatus.Refuses (status : RequestStatus) : Prop :=
  status = .denied ∨ status = .expired ∨ status = .failed

/-- What holds in every state. -/
structure Tracked (r : Record) : Prop where
  added : ∀ id t, r.state.requests id = some t → Added id r.log
  drawn : ∀ i guid, Drew i guid r.log → guid ∈ r.state.drawn
  unique : ∀ i j guid, Drew i guid r.log → Drew j guid r.log → i = j
  keyed : ∀ id, Added id r.log → ∃ i guid, id = Uuid.textN guid ∧ Drew i guid r.log
  started : ∀ i before info authority answer,
    .performed i ⟨before, .startProcess info authority, answer⟩ ∈ r.log →
    ∀ t, before.requests authority.expectedRequestId = some t → ¬ t.status.Refuses

/-- How the requests may change: a status other than pending is final, and what a restart has lost
does not come back. -/
def Final (r r' : Record) : Prop :=
  ∀ id, Added id r.log → Added id r'.log ∧ ∀ t', r'.state.requests id = some t' →
    ∃ t, r.state.requests id = some t ∧ (t.status ≠ .pending → t'.status = t.status)

/-- What a thread relies on between its operations. The others leave alone what the thread has not
added yet, what its submission is about to mark as failed, and, for the worker, the request that it
is handling. -/
structure Undisputed (i : Tid) (r r' : Record) : Prop where
  mine : mine i r'.log = mine i r.log
  ledger : r.state.ledger ⊆ r'.state.ledger
  drew : ∀ guid, Drew i guid r.log → Drew i guid r'.log
  lost : ∀ id, r.lost id = true → r'.lost id = true
  kept : ∀ id t, r.state.requests id = some t → ∃ t', r'.state.requests id = some t'
  unadded : ∀ guid : Uuid, Drew i guid r.log → ¬ Added guid.textN r.log → ¬ Added guid.textN r'.log
  failing : ∀ (guid : Uuid) t, Drew i guid r.log → r.state.requests guid.textN = some t →
    t.status = .pending → r.lost guid.textN = true → r'.state.requests guid.textN = some t
  handling : i = 0 → ∀ id t, r.handled = some id → r.state.requests id = some t →
    t.status ≠ .pending ∨ r.lost id = false →
    r'.state.requests id = some t ∧ (t.status ≠ .pending ∨ r'.lost id = false)

theorem Undisputed.refl (i : Tid) (r : Record) : Undisputed i r r where
  mine := rfl
  ledger := List.Subset.refl _
  drew _ h := h
  lost _ h := h
  kept _ t h := ⟨t, h⟩
  unadded _ _ h := h
  failing _ _ _ h _ _ := h
  handling _ _ _ _ h h' := ⟨h, h'⟩

theorem Undisputed.trans {i : Tid} {r r' r'' : Record} (h : Undisputed i r r')
    (h' : Undisputed i r' r'') : Undisputed i r r'' where
  mine := h'.mine.trans h.mine
  ledger := List.Subset.trans h.ledger h'.ledger
  drew guid hdrew := h'.drew guid (h.drew guid hdrew)
  lost id hlost := h'.lost id (h.lost id hlost)
  kept id t ht := by
    obtain ⟨t', ht'⟩ := h.kept id t ht
    exact h'.kept id t' ht'
  unadded guid hdrew hadded := h'.unadded guid (h.drew guid hdrew) (h.unadded guid hdrew hadded)
  failing guid t hdrew ht hpending hlost :=
    h'.failing guid t (h.drew guid hdrew) (h.failing guid t hdrew ht hpending hlost) hpending
      (h.lost _ hlost)
  handling hi id t hhandled ht hfree := by
    obtain ⟨ht', hfree'⟩ := h.handling hi id t hhandled ht hfree
    refine h'.handling hi id t ?_ ht' hfree'
    subst hi
    rw [Record.handled, h.mine]
    exact hhandled

theorem Final.refl (r : Record) : Final r r := fun _ hadded =>
  ⟨hadded, fun t' ht' => ⟨t', ht', fun _ => rfl⟩⟩

theorem Final.trans {r r' r'' : Record} (h : Final r r') (h' : Final r' r'') : Final r r'' := by
  intro id hadded
  obtain ⟨hadded', hfirst⟩ := h id hadded
  obtain ⟨hadded'', hsecond⟩ := h' id hadded'
  refine ⟨hadded'', fun t'' ht'' => ?_⟩
  obtain ⟨t', ht', hstatus'⟩ := hsecond t'' ht''
  obtain ⟨t, ht, hstatus⟩ := hfirst t' ht'
  refine ⟨t, ht, fun hfinal => ?_⟩
  have heq := hstatus hfinal
  exact (hstatus' (heq ▸ hfinal)).trans heq

/-- The discipline of the two writers. -/
def discipline : Discipline Tid Call ClrException Answer Record where
  inv := Tracked
  rely := Undisputed
  evolves := Final
  post _ _ _ _ := True
  rely_refl := Undisputed.refl
  rely_trans h h' := h.trans h'
  evolves_refl := Final.refl
  evolves_trans h h' := h.trans h'

/-! ## What a step owes -/

/-- The operations that neither draw a GUID nor write the state store nor start a process, and that
lose no response. -/
def Op.Quiet : Op → Prop
  | .newGuid => False
  | .setItem _ _ => False
  | .addOrUpdate _ _ => False
  | .receiveSubmitted _ => False
  | .startProcess _ _ => False
  | _ => True

/-- The operations that may be an occasion for a new entry of the log to matter. -/
def Op.Marks : Op → Prop
  | .newGuid => True
  | .setItem _ _ => True
  | .startProcess _ _ => True
  | _ => False

theorem Op.Quiet.not_marks {o : Op} (h : o.Quiet) : ¬ o.Marks := by
  cases o <;> first | exact id | exact h.elim

section Logs

variable {i k : Tid} {guid : Uuid} {id : String} {r : Record} {s : State}
  {moment : Moment Op Res Tid Event State} {log : List (Moment Op Res Tid Event State)}

/-- Only drawing a GUID draws one. -/
theorem drew_cons (h : ∀ i deed, moment = .performed i deed → deed.op ≠ .newGuid) :
    Drew k guid (moment :: log) ↔ Drew k guid log := by
  constructor
  · rintro ⟨before, hmem⟩
    rcases List.mem_cons.mp hmem with heq | hmem
    · exact absurd rfl (h _ _ heq.symm)
    · exact ⟨before, hmem⟩
  · rintro ⟨before, hmem⟩
    exact ⟨before, List.mem_cons_of_mem _ hmem⟩

/-- Only setting an entry adds a request. -/
theorem added_cons
    (h : ∀ i deed, moment = .performed i deed → ∀ id request, deed.op ≠ .setItem id request) :
    Added id (moment :: log) ↔ Added id log := by
  constructor
  · rintro ⟨i, before, request, answer, hmem⟩
    rcases List.mem_cons.mp hmem with heq | hmem
    · exact absurd rfl (h _ _ heq.symm _ _)
    · exact ⟨i, before, request, answer, hmem⟩
  · rintro ⟨i, before, request, answer, hmem⟩
    exact ⟨i, before, request, answer, List.mem_cons_of_mem _ hmem⟩

/-- A response once lost stays lost. -/
theorem lost_cons : Record.lost ⟨s, moment :: log⟩ id =
    (Moment.isDeed (isLost id) moment || Record.lost ⟨s, log⟩ id) := rfl

/-- A quiet step loses no response. -/
theorem lost_quiet (h : ∀ i deed, moment = .performed i deed → deed.op.Quiet) :
    Record.lost ⟨s, moment :: log⟩ id = Record.lost ⟨s, log⟩ id := by
  rw [lost_cons]
  cases moment with
  | performed i deed =>
    have hquiet := h i deed rfl
    obtain ⟨before, op, answer⟩ := deed
    cases op <;> first | rfl | exact hquiet.elim
  | _ => rfl

/-- A step that marks nothing keeps what holds in every state. -/
theorem Tracked.unmarked (h : Tracked r)
    (hmarks : ∀ i deed, moment = .performed i deed → ¬ deed.op.Marks)
    (hrequests : ∀ id t, s.requests id = some t → ∃ t', r.state.requests id = some t')
    (hdrawn : s.drawn = r.state.drawn) : Tracked ⟨s, moment :: r.log⟩ := by
  have hdrew : ∀ k guid, Drew k guid (moment :: r.log) ↔ Drew k guid r.log := fun k guid =>
    drew_cons fun i deed heq hop => hmarks i deed heq (by rw [hop]; trivial)
  have hadded : ∀ id, Added id (moment :: r.log) ↔ Added id r.log := fun id =>
    added_cons fun i deed heq id request hop => hmarks i deed heq (by rw [hop]; trivial)
  exact
    { added := fun id t ht => by
        obtain ⟨t', ht'⟩ := hrequests id t ht
        exact (hadded id).mpr (h.added id t' ht')
      drawn := fun k guid hk => by
        rw [show (Recorded.mk s (moment :: r.log)).state.drawn = r.state.drawn from hdrawn]
        exact h.drawn k guid ((hdrew k guid).mp hk)
      unique := fun k j guid hk hj =>
        h.unique k j guid ((hdrew k guid).mp hk) ((hdrew j guid).mp hj)
      keyed := fun id hid => by
        obtain ⟨k, guid, heq, hk⟩ := h.keyed id ((hadded id).mp hid)
        exact ⟨k, guid, heq, (hdrew k guid).mpr hk⟩
      started := fun k before info authority answer hmem => by
        rcases List.mem_cons.mp hmem with heq | hmem
        · exact absurd trivial (hmarks _ _ heq.symm)
        · exact h.started k before info authority answer hmem }

/-- A step keeps the statuses that are final if it writes none of them. -/
theorem Final.step (h : ∀ id t', s.requests id = some t' → ∃ t, r.state.requests id = some t ∧
    (t.status ≠ .pending → t'.status = t.status)) : Final r ⟨s, moment :: r.log⟩ := by
  rintro id ⟨i, before, request, answer, hmem⟩
  exact ⟨⟨i, before, request, answer, List.mem_cons_of_mem _ hmem⟩, h id⟩

/-- A step that leaves the requests alone disputes nothing, unless it loses the response for the
request that the worker is handling. -/
theorem Undisputed.unmarked
    (hmine : Interaction.mine k (moment :: r.log) = Interaction.mine k r.log)
    (hmarks : ∀ i deed, moment = .performed i deed → ¬ deed.op.Marks)
    (hlost : ∀ id t, r.handled = some id → r.state.requests id = some t → t.status = .pending →
      r.lost id = false → Record.lost ⟨s, moment :: r.log⟩ id = false)
    (hrequests : s.requests = r.state.requests) (hledger : r.state.ledger ⊆ s.ledger) :
    Undisputed k r ⟨s, moment :: r.log⟩ where
  mine := hmine
  ledger := hledger
  drew guid hdrew := by
    obtain ⟨before, hmem⟩ := hdrew
    exact ⟨before, List.mem_cons_of_mem _ hmem⟩
  lost id hlost := by
    rw [lost_cons]
    exact Bool.or_eq_true_iff.mpr (Or.inr hlost)
  kept id t ht := ⟨t, by rw [← ht]; exact congrFun hrequests id⟩
  unadded guid _ hadded := by
    rwa [added_cons fun i deed heq id request hop => hmarks i deed heq (by rw [hop]; trivial)]
  failing guid t _ ht _ _ := by
    rw [← ht]
    exact congrFun hrequests _
  handling _ id t hhandled ht hfree := by
    refine ⟨by rw [← ht]; exact congrFun hrequests _, ?_⟩
    by_cases hpending : t.status = .pending
    · exact Or.inr (hlost id t hhandled ht hpending (hfree.resolve_left (not_not.mpr hpending)))
    · exact Or.inl hpending

end Logs

section Steps

variable {host : Host} {i : Tid} {choice : Choice} {r : Record} {s : State}

/-- What thread `i` owes when it steps. -/
abbrev Guar (i : Tid) (r r' : Record) : Prop := discipline.Guarantee i r r'

/-- A quiet operation leaves the requests and the GUIDs. -/
theorem Effect.quiet {s s' : State} {o : Op} (h : Effect s o s') (hquiet : o.Quiet) :
    s'.requests = s.requests ∧ s'.drawn = s.drawn := by
  cases h with
  | insertNonce nonce =>
    rw [State.insertNonce]
    split <;> exact ⟨rfl, rfl⟩
  | unchanged => exact ⟨rfl, rfl⟩
  | handles _ => exact ⟨rfl, rfl⟩
  | audit _ => exact ⟨rfl, rfl⟩
  | _ => exact hquiet.elim

/-- A step that leaves the requests alone owes nothing more. -/
private theorem guar_unmarked {o : Op} {answer : Res o} (h : Tracked r) (hmarks : ¬ o.Marks)
    (hlost : ∀ id t, r.handled = some id → r.state.requests id = some t → t.status = .pending →
      r.lost id = false →
        Record.lost ⟨s, .performed i ⟨r.state, o, answer⟩ :: r.log⟩ id = false)
    (hrequests : s.requests = r.state.requests) (hdrawn : s.drawn = r.state.drawn)
    (hledger : r.state.ledger ⊆ s.ledger) :
    Guar i r ⟨s, .performed i ⟨r.state, o, answer⟩ :: r.log⟩ where
  inv := by
    refine h.unmarked (fun j deed heq => ?_) (fun id t ht => ⟨t, hrequests ▸ ht⟩) hdrawn
    obtain ⟨-, rfl⟩ := Moment.performed.inj heq
    exact hmarks
  evolves := .step fun id t' ht' => ⟨t', hrequests ▸ ht', fun _ => rfl⟩
  rely k hk := by
    refine .unmarked (mine_performed_ne hk.symm _) (fun j deed heq => ?_) hlost hrequests hledger
    obtain ⟨-, rfl⟩ := Moment.performed.inj heq
    exact hmarks

/-- Nor does a quiet operation. -/
theorem guar_quiet {o : Op} {answer : Res o} (h : Tracked r) (hquiet : o.Quiet)
    (hperform : perform host i o choice r.state = some (answer, s)) :
    Guar i r ⟨s, .performed i ⟨r.state, o, answer⟩ :: r.log⟩ := by
  have heffect := perform_effect hperform
  obtain ⟨hrequests, hdrawn⟩ := heffect.quiet hquiet
  refine guar_unmarked h hquiet.not_marks (fun id t _ _ _ hlost => ?_) hrequests hdrawn
    heffect.ledger
  rw [lost_quiet fun j deed heq => by obtain ⟨-, rfl⟩ := Moment.performed.inj heq; exact hquiet]
  exact hlost

/-- The response to a submission may arrive, or be lost where the guard allows it. -/
theorem guar_receiveSubmitted {id : String} {answer : Res (.receiveSubmitted id)} (h : Tracked r)
    (hguard : apart.perform i (.receiveSubmitted id) choice r = true)
    (hperform : perform host i (.receiveSubmitted id) choice r.state = some (answer, s)) :
    Guar i r ⟨s, .performed i ⟨r.state, .receiveSubmitted id, answer⟩ :: r.log⟩ := by
  cases choice with
  | unit =>
    obtain ⟨rfl, rfl⟩ := Prod.mk.inj (Option.some.inj hperform)
    exact guar_unmarked h not_false (fun _ _ _ _ _ hlost => hlost) rfl rfl (List.Subset.refl _)
  | fail error =>
    obtain ⟨rfl, rfl⟩ := Prod.mk.inj (Option.some.inj hperform)
    refine guar_unmarked h not_false (fun id' t hhandled ht hpending hlost => ?_) rfl rfl
      (List.Subset.refl _)
    have hother : id ≠ id' := by
      rintro rfl
      have hmay : mayLose id r = true := hguard
      simp [mayLose, ht, hhandled] at hmay
    rw [lost_cons]
    simpa [Moment.isDeed, isLost, hother] using hlost
  | _ => contradiction

/-- A thread may draw a GUID. -/
theorem guar_newGuid {guid : Uuid} (h : Tracked r)
    (hperform : perform host i .newGuid choice r.state = some (guid, s)) :
    Guar i r ⟨s, .performed i ⟨r.state, .newGuid, guid⟩ :: r.log⟩ := by
  obtain ⟨hfresh, rfl⟩ := perform_newGuid hperform
  have hdrew : ∀ k guid', Drew k guid' (.performed i ⟨r.state, .newGuid, guid⟩ :: r.log) →
      (k = i ∧ guid' = guid) ∨ Drew k guid' r.log := by
    rintro k guid' ⟨before, hmem⟩
    rcases List.mem_cons.mp hmem with heq | hmem
    · cases heq
      exact Or.inl ⟨rfl, rfl⟩
    · exact Or.inr ⟨before, hmem⟩
  have hadded : ∀ id, Added id (.performed i ⟨r.state, .newGuid, guid⟩ :: r.log) ↔
      Added id r.log := fun id => added_cons fun j deed heq id request => by
    obtain ⟨-, rfl⟩ := Moment.performed.inj heq
    simp
  have hmono : ∀ k guid', Drew k guid' r.log →
      Drew k guid' (.performed i ⟨r.state, .newGuid, guid⟩ :: r.log) := by
    rintro k guid' ⟨before, hmem⟩
    exact ⟨before, List.mem_cons_of_mem _ hmem⟩
  refine ⟨⟨?_, ?_, ?_, ?_, ?_⟩, .step fun id t' ht' => ⟨t', ht', fun _ => rfl⟩, fun k hk => ?_⟩
  · exact fun id t ht => (hadded id).mpr (h.added id t ht)
  · intro k guid' hk
    rcases hdrew k guid' hk with ⟨-, rfl⟩ | hk
    · exact List.mem_cons_self
    · exact List.mem_cons_of_mem _ (h.drawn k guid' hk)
  · intro k j guid' hk hj
    rcases hdrew k guid' hk with ⟨rfl, rfl⟩ | hold
    · rcases hdrew j guid' hj with ⟨rfl, -⟩ | hold'
      · rfl
      · exact absurd (h.drawn j guid' hold') hfresh
    · rcases hdrew j guid' hj with ⟨rfl, rfl⟩ | hold'
      · exact absurd (h.drawn k guid' hold) hfresh
      · exact h.unique k j guid' hold hold'
  · intro id hid
    obtain ⟨k, guid', heq, hk⟩ := h.keyed id ((hadded id).mp hid)
    exact ⟨k, guid', heq, hmono k guid' hk⟩
  · intro k before info authority answer hmem
    exact h.started k before info authority answer ((List.mem_cons.mp hmem).resolve_left (by simp))
  · exact
      { mine := mine_performed_ne hk.symm _
        ledger := List.Subset.refl _
        drew := hmono k
        lost := fun id hlost => hlost
        kept := fun id t ht => ⟨t, ht⟩
        unadded := fun guid' _ hunadded => by rwa [hadded]
        failing := fun guid' t _ ht _ _ => ht
        handling := fun _ id t _ ht hfree => ⟨ht, hfree⟩ }

/-- A thread may add the request of a GUID that it has drawn and not yet added. -/
theorem guar_setItem {guid : Uuid} {request : TrackedRequest} (h : Tracked r)
    (hdrew : Drew i guid r.log) (hunadded : ¬ Added guid.textN r.log) :
    Guar i r ⟨r.state.setRequest guid.textN request,
      .performed i ⟨r.state, .setItem guid.textN request, ()⟩ :: r.log⟩ := by
  have hdrew' : ∀ k guid', Drew k guid' (.performed i ⟨r.state, .setItem guid.textN request, ()⟩ ::
      r.log) ↔ Drew k guid' r.log := fun k guid' => drew_cons fun j deed heq => by
    obtain ⟨-, rfl⟩ := Moment.performed.inj heq
    simp
  have hadded : ∀ id, Added id (.performed i ⟨r.state, .setItem guid.textN request, ()⟩ :: r.log) ↔
      id = guid.textN ∨ Added id r.log := by
    intro id
    constructor
    · rintro ⟨j, before, request', answer, hmem⟩
      rcases List.mem_cons.mp hmem with heq | hmem
      · cases heq
        exact Or.inl rfl
      · exact Or.inr ⟨j, before, request', answer, hmem⟩
    · rintro (rfl | ⟨j, before, request', answer, hmem⟩)
      · exact ⟨i, r.state, request, (), List.mem_cons_self⟩
      · exact ⟨j, before, request', answer, List.mem_cons_of_mem _ hmem⟩
  -- an entry that is there is not the new one
  have hother : ∀ id t, r.state.requests id = some t → id ≠ guid.textN := by
    rintro id t ht rfl
    exact hunadded (h.added _ t ht)
  have hsame : ∀ id, id ≠ guid.textN →
      (r.state.setRequest guid.textN request).requests id = r.state.requests id := fun id hid =>
    Function.update_of_ne hid _ _
  refine ⟨⟨?_, ?_, ?_, ?_, ?_⟩, ?_, fun k hk => ?_⟩
  · intro id t ht
    by_cases hid : id = guid.textN
    · exact (hadded id).mpr (Or.inl hid)
    · exact (hadded id).mpr (Or.inr (h.added id t (hsame id hid ▸ ht)))
  · exact fun k guid' hk => h.drawn k guid' ((hdrew' k guid').mp hk)
  · exact fun k j guid' hk hj => h.unique k j guid' ((hdrew' k guid').mp hk) ((hdrew' j guid').mp hj)
  · intro id hid
    rcases (hadded id).mp hid with rfl | hid
    · exact ⟨i, guid, rfl, (hdrew' i guid).mpr hdrew⟩
    · obtain ⟨k, guid', heq, hk⟩ := h.keyed id hid
      exact ⟨k, guid', heq, (hdrew' k guid').mpr hk⟩
  · intro k before info authority answer hmem
    exact h.started k before info authority answer ((List.mem_cons.mp hmem).resolve_left (by simp))
  · intro id hid
    refine ⟨(hadded id).mpr (Or.inr hid), fun t' ht' => ⟨t', ?_, fun _ => rfl⟩⟩
    have hne : id ≠ guid.textN := fun heq => hunadded (heq ▸ hid)
    rw [← ht']
    exact (hsame id hne).symm
  · exact
      { mine := mine_performed_ne hk.symm _
        ledger := List.Subset.refl _
        drew := fun guid' hk => (hdrew' k guid').mpr hk
        lost := fun id hlost => hlost
        kept := fun id t ht => ⟨t, by rw [← ht]; exact hsame id (hother id t ht)⟩
        unadded := fun guid' hdrewn hunadded' hadded' => by
          rcases (hadded _).mp hadded' with heq | hadded'
          · rw [Uuid.textN_injective heq] at hdrewn
            exact hk (h.unique k i guid hdrewn hdrew)
          · exact hunadded' hadded'
        failing := fun guid' t _ ht _ _ => by
          rw [← ht]
          exact hsame _ (hother _ t ht)
        handling := fun _ id t _ ht hfree => ⟨by rw [← ht]; exact hsame id (hother id t ht), hfree⟩ }

/-- A thread may write a status that is not final, or that the request has already, if no other
thread relies on it. -/
theorem guar_addOrUpdate {id : String} {status : RequestStatus} {t : TrackedRequest}
    (h : Tracked r) (ht : r.state.requests id = some t)
    (hfinal : t.status ≠ .pending → status = t.status)
    (hfailing : ∀ k, k ≠ i → ∀ guid : Uuid, id = guid.textN → Drew k guid r.log →
      t.status = .pending → r.lost id = false)
    (hhandling : i ≠ 0 → r.handled = some id → t.status = .pending ∧ r.lost id = true) :
    Guar i r ⟨r.state.setRequest id { t with status := status },
      .performed i ⟨r.state, .addOrUpdate id status, .ok ()⟩ :: r.log⟩ := by
  have hsame : ∀ id', id' ≠ id → (r.state.setRequest id { t with status := status }).requests id' =
      r.state.requests id' := fun id' hid => Function.update_of_ne hid _ _
  have hself : (r.state.setRequest id { t with status := status }).requests id =
      some { t with status := status } := Function.update_self _ _ _
  have hmarks : ∀ j deed, (Moment.performed i ⟨r.state, .addOrUpdate id status, .ok ()⟩ :
      Moment Op Res Tid Event State) = .performed j deed → ¬ deed.op.Marks := by
    intro j deed heq
    obtain ⟨-, rfl⟩ := Moment.performed.inj heq
    exact not_false
  refine ⟨h.unmarked hmarks (fun id' t' ht' => ?_) rfl, .step fun id' t' ht' => ?_, fun k hk => ?_⟩
  · by_cases hid : id' = id
    · exact ⟨t, hid ▸ ht⟩
    · exact ⟨t', (hsame id' hid).symm.trans ht'⟩
  · by_cases hid : id' = id
    · subst hid
      obtain rfl := Option.some.inj (hself.symm.trans ht')
      exact ⟨t, ht, hfinal⟩
    · exact ⟨t', (hsame id' hid).symm.trans ht', fun _ => rfl⟩
  · exact
      { mine := mine_performed_ne hk.symm _
        ledger := List.Subset.refl _
        drew := fun guid ⟨before, hmem⟩ => ⟨before, List.mem_cons_of_mem _ hmem⟩
        lost := fun id' hlost => hlost
        kept := fun id' t' ht' => by
          by_cases hid : id' = id
          · subst hid
            exact ⟨_, hself⟩
          · exact ⟨t', (hsame id' hid).trans ht'⟩
        unadded := fun guid _ hunadded => by
          rwa [added_cons fun j deed heq id request hop => hmarks j deed heq (by rw [hop]; trivial)]
        failing := fun guid t' hdrew ht' hpending hlost => by
          have hid : guid.textN ≠ id := by
            rintro rfl
            obtain rfl := Option.some.inj (ht.symm.trans ht')
            rw [hfailing k hk guid rfl hdrew hpending] at hlost
            contradiction
          exact (hsame _ hid).trans ht'
        handling := fun hk' id' t' hhandled ht' hfree => by
          have hid : id' ≠ id := by
            rintro rfl
            obtain rfl := Option.some.inj (ht.symm.trans ht')
            obtain ⟨hpending, hlost⟩ := hhandling (fun hi => hk (hk'.trans hi.symm)) hhandled
            rcases hfree with hfree | hfree
            · exact hfree hpending
            · rw [hlost] at hfree
              contradiction
          exact ⟨(hsame _ hid).trans ht', hfree⟩ }

/-- A thread may start a process for a request at whose status this is not refused. -/
theorem guar_startProcess {info : ProcessStartInfo} {authority : Authority}
    {answer : Res (.startProcess info authority)} (h : Tracked r)
    (hstatus : ∀ t, r.state.requests authority.expectedRequestId = some t → ¬ t.status.Refuses)
    (hperform : perform host i (.startProcess info authority) choice r.state = some (answer, s)) :
    Guar i r ⟨s, .performed i ⟨r.state, .startProcess info authority, answer⟩ :: r.log⟩ := by
  have hs : s = r.state := by
    cases choice <;>
      first | exact (Prod.mk.inj (Option.some.inj hperform)).2.symm | contradiction
  subst hs
  have hdrew : ∀ k guid, Drew k guid (.performed i ⟨r.state, .startProcess info authority, answer⟩ ::
      r.log) ↔ Drew k guid r.log := fun k guid => drew_cons fun j deed heq => by
    obtain ⟨-, rfl⟩ := Moment.performed.inj heq
    simp
  have hadded : ∀ id, Added id (.performed i ⟨r.state, .startProcess info authority, answer⟩ ::
      r.log) ↔ Added id r.log := fun id => added_cons fun j deed heq id request => by
    obtain ⟨-, rfl⟩ := Moment.performed.inj heq
    simp
  refine ⟨⟨?_, ?_, ?_, ?_, ?_⟩, .step fun id t' ht' => ⟨t', ht', fun _ => rfl⟩, fun k hk => ?_⟩
  · exact fun id t ht => (hadded id).mpr (h.added id t ht)
  · exact fun k guid hk => h.drawn k guid ((hdrew k guid).mp hk)
  · exact fun k j guid hk hj => h.unique k j guid ((hdrew k guid).mp hk) ((hdrew j guid).mp hj)
  · intro id hid
    obtain ⟨k, guid, heq, hk⟩ := h.keyed id ((hadded id).mp hid)
    exact ⟨k, guid, heq, (hdrew k guid).mpr hk⟩
  · intro k before info' authority' answer' hmem
    rcases List.mem_cons.mp hmem with heq | hmem
    · cases heq
      exact hstatus
    · exact h.started k before info' authority' answer' hmem
  · exact
      { mine := mine_performed_ne hk.symm _
        ledger := List.Subset.refl _
        drew := fun guid hk => (hdrew k guid).mpr hk
        lost := fun id hlost => hlost
        kept := fun id t ht => ⟨t, ht⟩
        unadded := fun guid _ hunadded => by rwa [hadded]
        failing := fun guid t _ ht _ _ => ht
        handling := fun _ id t _ ht hfree => ⟨ht, hfree⟩ }

end Steps

end ElevateGate.Agent
