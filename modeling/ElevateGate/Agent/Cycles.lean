import ElevateGate.Agent.Accounting
import ElevateGate.Agent.Watermarks

/-!
# The cycles of the polling worker

In a cycle the worker polls for the decisions on its device, carries out those of the response one after
the other, and sets the watermark. It sets it only after it has carried out all of them: an exception on
the way ends the cycle, and the next poll asks since the same time.
-/

namespace ElevateGate.Agent

open Interaction Time

/-- The decisions that the worker handles, and what it had done when it received them: the last response,
unless the worker has polled or set the watermark since. -/
def response : List Deed → Option (List ApprovalDecision × List Deed)
  | [] => none
  | ⟨before, .receiveDecisions, .ok list⟩ :: older =>
    some (list, ⟨before, .receiveDecisions, .ok list⟩ :: older)
  | ⟨_, .sendPoll _ _ _, _⟩ :: _ => none
  | ⟨_, .note (.sinceUtc _), _⟩ :: _ => none
  | _ :: older => response older

/-- The statuses that a decision may give its request: one that was approved fails if it cannot be
executed. -/
def Settles : RequestStatus → RequestStatus → Prop
  | .approved, status => status = .approved ∨ status = .failed
  | .denied, status => status = .denied
  | .expired, status => status = .expired
  | .pending, _ => False
  | .failed, _ => False

/-- After some deeds the status of a request was set as a decision asks, if it asks for a status. -/
def StatusSet (base done : List Deed) (decision : ApprovalDecision) (requestId : String) : Prop :=
  decision.status ≠ .pending → decision.status ≠ .failed → ∃ before status later,
    ((⟨before, .addOrUpdate requestId status, .ok ()⟩ : Deed) :: later) <:+ done ∧ base <:+ later ∧
      Settles decision.status status

/-- A decision was carried out after some deeds: its request was looked up, and if it is tracked its
status was set. -/
def CarriedOut (base done : List Deed) (decision : ApprovalDecision) : Prop :=
  ∃ requestId before tracked older, decision.requestId = some requestId ∧ base <:+ older ∧
    ((⟨before, .getValueOrDefault requestId, tracked⟩ : Deed) :: older) <:+ done ∧
    (tracked.isSome = true →
      StatusSet (⟨before, .getValueOrDefault requestId, tracked⟩ :: older) done decision requestId)

/-- The protocol of the cycles: a request is looked up because a decision of the response is on it, and
the watermark is set at the start and when every decision of the response was carried out. -/
def Cycled (done : List Deed) : Op → Prop
  | .getValueOrDefault requestId => ∃ list base decision,
    response done = some (list, base) ∧ decision ∈ list ∧ decision.requestId = some requestId
  | .note (.sinceUtc _) => watermark done = none ∨
    ∃ list base, response done = some (list, base) ∧ ∀ decision ∈ list, CarriedOut base done decision
  | _ => True

/-- The protocol of a call. -/
def Cycles : Call → List Deed → Op → Prop
  | .pollingWorker _ => Cycled
  | _ => fun _ o => o.Aside

/-- The operations with which a decision is carried out once its request was looked up. -/
def Op.CarriesOut : Op → Prop
  | .getValueOrDefault _ => False
  | .sendPoll _ _ _ => False
  | .receiveDecisions => False
  | .note (.sinceUtc _) => False
  | _ => True

section Worker

variable {host : Host} {done after base : List Deed} {credential : DeviceCredential} {α : Type}
  {list : List ApprovalDecision} {decision : ApprovalDecision}

/-- What was settled stays so. -/
theorem StatusSet.mono {requestId : String} (h : StatusSet base done decision requestId)
    (hafter : done <:+ after) : StatusSet base after decision requestId := by
  intro hpending hfailed
  obtain ⟨before, status, later, hset, hbase, hsettles⟩ := h hpending hfailed
  exact ⟨before, status, later, hset.trans hafter, hbase, hsettles⟩

/-- What was carried out stays so. -/
theorem CarriedOut.mono (h : CarriedOut base done decision) (hafter : done <:+ after) :
    CarriedOut base after decision := by
  obtain ⟨requestId, before, tracked, older, hid, hbase, hlooked, hsettled⟩ := h
  exact ⟨requestId, before, tracked, older, hid, hbase, hlooked.trans hafter, fun hsome =>
    (hsettled hsome).mono hafter⟩

/-- Looking requests up and carrying decisions out leaves the response. -/
theorem response_cons {deed : Deed}
    (h : deed.op.CarriesOut ∨ ∃ requestId, deed.op = .getValueOrDefault requestId) :
    response (deed :: done) = response done := by
  obtain ⟨before, o, answer⟩ := deed
  rcases h with hout | ⟨requestId, heq⟩
  · cases o with
    | note n => cases n <;> first | rfl | exact hout.elim
    | _ => first | rfl | exact hout.elim
  · obtain rfl : o = .getValueOrDefault requestId := heq
    rfl

/-- A response was received, and the watermark was not set since. -/
theorem response_spec (h : response done = some (list, base)) : base <:+ done ∧
    watermark done = watermark base ∧
      ∃ before older, base = ⟨before, .receiveDecisions, .ok list⟩ :: older := by
  induction done with
  | nil => contradiction
  | cons deed older ih =>
    have hrest : response older = some (list, base) → watermark (deed :: older) = watermark older →
        base <:+ deed :: older ∧ watermark (deed :: older) = watermark base ∧
          ∃ before older', base = ⟨before, .receiveDecisions, .ok list⟩ :: older' := by
      intro holder hsame
      obtain ⟨hsuffix, hwatermark, hbase⟩ := ih holder
      exact ⟨hsuffix.trans (List.suffix_cons _ _), hsame.trans hwatermark, hbase⟩
    obtain ⟨before, o, answer⟩ := deed
    cases o with
    | receiveDecisions =>
      cases answer with
      | ok list' =>
        obtain ⟨rfl, rfl⟩ := Prod.mk.inj (Option.some.inj h)
        exact ⟨List.suffix_refl _, rfl, before, older, rfl⟩
      | error error => exact hrest h rfl
    | sendPoll bearerToken deviceId sinceUtc => contradiction
    | note n =>
      cases n with
      | sinceUtc t => contradiction
      | valid nonce => exact hrest h rfl
    | _ => exact hrest h rfl

/-- Carrying a decision out adds to what was done, and leaves the response. -/
private theorem cycled_carriesOut {program : Service α} (h : program.Within Op.CarriesOut) :
    Obeys Cycled (fun _ after => done <:+ after ∧ response after = response done) done program := by
  have hallowed : ∀ (done : List Deed) (o : Op), o.CarriesOut → Cycled done o := by
    intro done o ho
    cases o with
    | note n => cases n <;> first | exact True.intro | exact ho.elim
    | _ => first | exact True.intro | exact ho.elim
  refine (Obeys.of_within h fun new o _ ho => hallowed (new ++ done) o ho).mono ?_
  rintro _ _ ⟨new, rfl, hnew⟩
  refine ⟨List.suffix_append _ _, ?_⟩
  induction new with
  | nil => rfl
  | cons deed rest ih =>
    rw [List.cons_append, response_cons (.inl (hnew deed List.mem_cons_self))]
    exact ih fun d hd => hnew d (List.mem_cons_of_mem _ hd)

private theorem carriesOut_record {eventType : AuditEventType} {requestId deviceId nonce : Option String}
    {message : String} :
    (recordAsync eventType requestId deviceId nonce message).Within Op.CarriesOut :=
  within_recordAsync.mono fun o ho => by cases o <;> first | exact True.intro | exact ho.elim

private theorem carriesOut_execute {token : ApprovalToken} {requestId path deviceId : String} :
    (ExecutionEngine.executeAsync host token requestId path deviceId).Within Op.CarriesOut :=
  within_executeAsync.mono fun o ho => by
    cases o with
    | note n => cases n <;> first | exact True.intro | exact ho.elim
    | _ => first | exact True.intro | exact ho.elim

/-- What has been done by a thread that has looked the request of a decision up. -/
private abbrev Settling (response' : Option (List ApprovalDecision × List Deed)) (base : List Deed)
    (decision : ApprovalDecision) (requestId : String) (result : Except ClrException Unit)
    (after : List Deed) : Prop :=
  base <:+ after ∧ response after = response' ∧
    (result = .ok () → StatusSet base after decision requestId)

/-- The status of the request is set, or the update throws. -/
private theorem cycled_settle {requestId : String} {status : RequestStatus} (hbase : base <:+ done)
    (hsettles : Settles decision.status status) :
    Obeys Cycled (Settling (response done) base decision requestId) done
      (RequestStateStore.updateStatus requestId status) := by
  refine .perform trivial fun before updated => ?_
  have hsuffix := hbase.trans
    (List.suffix_cons (⟨before, .addOrUpdate requestId status, updated⟩ : Deed) done)
  have hresponse : response (⟨before, .addOrUpdate requestId status, updated⟩ :: done) =
      response done := by
    rw [response_cons]
    exact .inl True.intro
  cases updated with
  | error error => exact .throw ⟨hsuffix, hresponse, by simp⟩
  | ok _ =>
    exact .pure ⟨hsuffix, hresponse, fun _ _ _ =>
      ⟨before, status, done, List.suffix_refl _, hbase, hsettles⟩⟩

/-- The event is recorded after that. -/
private theorem cycled_settleAndRecord {requestId : String} {status : RequestStatus}
    {eventType : AuditEventType} {id deviceId nonce : Option String} {message : String}
    (hbase : base <:+ done) (hsettles : Settles decision.status status) :
    Obeys Cycled (Settling (response done) base decision requestId) done (do
      RequestStateStore.updateStatus requestId status
      recordAsync eventType id deviceId nonce message) := by
  refine (cycled_settle hbase hsettles).bind ?_ fun _ _ h => ⟨h.1, h.2.1, by simp⟩
  rintro _ after ⟨hafter, hresponse, hsettled⟩
  refine (cycled_carriesOut carriesOut_record).mono ?_
  rintro result after' ⟨hafter', hsame⟩
  exact ⟨hafter.trans hafter', hsame.trans hresponse, fun _ => (hsettled rfl).mono hafter'⟩

/-- Once the request was looked up and found, its status is set, or something throws. -/
private theorem cycled_handleTracked {requestId : String} {tracked : TrackedRequest}
    (hbase : base <:+ done) :
    Obeys Cycled (Settling (response done) base decision requestId) done (do
      recordAsync .decisionReceived decision.requestId (some credential.deviceId)
        (decision.token.bind ApprovalToken.nonce) decision.status.name
      match decision.status with
      | .denied => RequestStateStore.updateStatus requestId .denied
      | .expired => RequestStateStore.updateStatus requestId .expired
      | .approved =>
        ApprovalPollingWorker.handleApprovedAsync host credential requestId decision.token tracked
      | .pending => return ()
      | .failed => return ()) := by
  refine (cycled_carriesOut carriesOut_record).bind ?_ fun _ _ h => ⟨hbase.trans h.1, h.2, by simp⟩
  rintro _ after ⟨hafter, hsame⟩
  rw [← hsame]
  have hbase' := hbase.trans hafter
  cases hstatus : decision.status with
  | denied => exact cycled_settle hbase' (by rw [hstatus]; rfl)
  | expired => exact cycled_settle hbase' (by rw [hstatus]; rfl)
  | pending => exact .pure ⟨hbase', rfl, fun _ hpending _ => absurd hstatus hpending⟩
  | failed => exact .pure ⟨hbase', rfl, fun _ _ hfailed => absurd hstatus hfailed⟩
  | approved =>
    cases decision.token with
    | none => exact cycled_settle hbase' (by rw [hstatus]; exact .inr rfl)
    | some token =>
      refine (cycled_carriesOut carriesOut_execute).bind ?_
        fun _ _ h => ⟨hbase'.trans h.1, h.2, by simp⟩
      rintro outcome after' ⟨hafter', hsame'⟩
      rw [← hsame']
      cases outcome with
      | ok => exact cycled_settleAndRecord (hbase'.trans hafter') (by rw [hstatus]; exact .inl rfl)
      | failed reason =>
        exact cycled_settleAndRecord (hbase'.trans hafter') (by rw [hstatus]; exact .inr rfl)

/-- A decision of the response is carried out, or an exception is thrown. -/
private theorem cycled_handleDecisionAsync (hresponse : response done = some (list, base))
    (hmem : decision ∈ list) :
    Obeys Cycled (fun result after => done <:+ after ∧ response after = some (list, base) ∧
        (result = .ok () → CarriedOut base after decision)) done
      (ApprovalPollingWorker.handleDecisionAsync host credential decision) := by
  cases hid : decision.requestId with
  | none =>
    simp only [ApprovalPollingWorker.handleDecisionAsync, hid]
    exact .throw ⟨List.suffix_refl _, hresponse, by simp⟩
  | some requestId =>
    simp only [ApprovalPollingWorker.handleDecisionAsync, hid]
    refine .op_bind ⟨list, base, decision, hresponse, hmem, hid⟩ fun before tracked => ?_
    have hlooked := List.suffix_cons (⟨before, .getValueOrDefault requestId, tracked⟩ : Deed) done
    have hresponse' : response (⟨before, .getValueOrDefault requestId, tracked⟩ :: done) =
        some (list, base) := by
      rw [response_cons, hresponse]
      exact .inr ⟨requestId, rfl⟩
    have hbase : base <:+ done := (response_spec hresponse).1
    cases tracked with
    | none =>
      exact .pure ⟨hlooked, hresponse', fun _ =>
        ⟨requestId, before, none, done, hid, hbase, List.suffix_refl _, by simp⟩⟩
    | some tracked =>
      dsimp only
      have hhandled := @cycled_handleTracked host _ _ credential decision requestId tracked
        (List.suffix_refl (⟨before, .getValueOrDefault requestId, some tracked⟩ :: done))
      rw [hid] at hhandled
      refine hhandled.mono ?_
      rintro result after ⟨hafter, hsame, hsettled⟩
      exact ⟨hlooked.trans hafter, hsame.trans hresponse', fun hok =>
        ⟨requestId, before, some tracked, done, hid, hbase, hafter, fun _ => hsettled hok⟩⟩

/-- The decisions of the response are carried out one after the other. -/
private theorem cycled_forEach {rest : List ApprovalDecision}
    (hresponse : response done = some (list, base)) (hrest : ∀ decision ∈ rest, decision ∈ list)
    (hdone : ∀ decision ∈ list, decision ∈ rest ∨ CarriedOut base done decision) :
    Obeys Cycled (fun result after => result = .ok () → response after = some (list, base) ∧
        ∀ decision ∈ list, CarriedOut base after decision) done
      (Program.forEach (ApprovalPollingWorker.handleDecisionAsync host credential) rest) := by
  induction rest generalizing done with
  | nil =>
    refine .pure fun _ => ⟨hresponse, fun decision hmem => ?_⟩
    exact (hdone decision hmem).resolve_left (by simp)
  | cons decision rest ih =>
    refine (cycled_handleDecisionAsync hresponse (hrest decision List.mem_cons_self)).bind ?_
      fun _ _ _ => by simp
    rintro _ after ⟨hafter, hresponse', hout⟩
    refine ih hresponse' (fun d hd => hrest d (List.mem_cons_of_mem _ hd)) fun d hd => ?_
    rcases hdone d hd with hleft | hout'
    · rcases List.mem_cons.mp hleft with rfl | hleft
      · exact .inr (hout rfl)
      · exact .inl hleft
    · exact .inr (hout'.mono hafter)

/-- A cycle sets the watermark only when the whole response was carried out. -/
private theorem cycled_cycle {sinceUtc : DateTimeOffset} :
    Obeys Cycled (fun _ _ => True) done (ApprovalPollingWorker.cycle host credential sinceUtc) := by
  refine Obeys.tryCatch (Q := fun _ _ => True) ?_ (fun _ _ h => h) fun _ _ h => .pure h
  refine .perform trivial fun sending sent => .perform trivial fun receiving received => ?_
  cases received with
  | error error => exact .throw trivial
  | ok list =>
    refine (cycled_forEach rfl (fun _ h => h) fun _ h => .inl h).bind ?_ fun _ _ _ => trivial
    intro _ after hout
    obtain ⟨hresponse, hall⟩ := hout rfl
    refine .perform trivial fun clock now => .perform ?_ fun _ _ => .pure trivial
    refine .inr ⟨list, _, ?_, fun decision hmem => (hall decision hmem).mono (List.suffix_cons _ _)⟩
    rw [response_cons, hresponse]
    exact .inl True.intro

/-- So do all the cycles. -/
private theorem cycled_cycles {ticks : Nat} {sinceUtc : DateTimeOffset} :
    Obeys Cycled (fun _ _ => True) done
      (ApprovalPollingWorker.cycles host credential ticks sinceUtc) := by
  induction ticks generalizing done sinceUtc with
  | zero => exact cycled_cycle.bind (fun _ _ _ => .pure trivial) fun _ _ _ => trivial
  | succ ticks ih =>
    refine cycled_cycle.bind (fun next after _ => ?_) fun _ _ _ => trivial
    refine .perform trivial fun ticking ticked => ?_
    cases ticked with
    | error error => exact .throw trivial
    | ok again => exact .ite (fun _ => ih) fun _ => .pure trivial

/-- So does the worker. -/
private theorem cycled_worker {ticks : Nat} :
    Obeys Cycled (fun _ _ => True) [] (ApprovalPollingWorker.executeAsync host ticks) := by
  refine .perform trivial fun before received => ?_
  cases received with
  | error error => exact .throw trivial
  | ok credential =>
    exact .perform trivial fun clock now => .perform (.inl rfl) fun _ _ => cycled_cycles

end Worker

/-- Every thread of the service keeps to the protocol of the cycles. -/
theorem follows_cycles {host : Host} {accepts : Tid → Call → Bool} :
    (system host accepts).Follows Cycles := by
  intro i call program hprogram
  simp only [system] at hprogram
  split at hprogram
  · obtain rfl := Option.some.inj hprogram
    have haside : ∀ {α : Type} {program : Service α} {f : α → Answer}, program.Within Op.Aside →
        Obeys (fun _ o => o.Aside) (fun _ _ => True) ([] : List Deed) (f <$> program) := fun h =>
      (Obeys.of_within h.map fun _ _ _ ho => ho).mono fun _ _ _ => trivial
    cases call with
    | pollingWorker ticks =>
      rw [serve, map_eq_pure_bind]
      exact cycled_worker.bind (fun _ _ _ => .pure trivial) fun _ _ _ => trivial
    | submit rawFilePath reason => exact haside (within_submitAsync.mono fun _ => Op.Submits.aside)
    | getStatus requestId => exact haside (within_getStatus fun id => trivial)
    | execute token expectedRequestId rawPath deviceId =>
      exact haside (within_executeAsync.mono fun _ => Op.Executes.aside)
    | validate token expectedDeviceId expectedRequestId currentFileSha256Hex =>
      exact haside (within_validateAsync.mono fun _ => Op.Validates.aside)
  · contradiction

section Runs

variable {host : Host} {accepts : Tid → Call → Bool} {s : State}
  {guard : Guard Op Res Tid Choice Event State} {labels : List (Label Tid Choice Event Call)}
  {c : Config Op Res ClrException Answer Tid Call Record} {i : Tid}

/-- What the threads were allowed to do in a run. -/
theorem throughout_run {P : Call → List Deed → Op → Prop} (h : (system host accepts).Follows P)
    (hrun : ((system host accepts).recorded guard).run labels (System.init ⟨s, []⟩) = some c) :
    Throughout P (fun _ => True) c.shared := by
  have hpreserved : Preserved (system host accepts) guard P fun _ => True := by
    constructor <;> intros <;> trivial
  exact (recorded_run h hpreserved.throughout (obedient_init _) ⟨trivial, throughout_nil s⟩ hrun).2.2

/-- In every run a poll asks for what was decided since the watermark. -/
private theorem watermark_of_poll {newer older : List Deed} {before : State} {bearerToken deviceId : String}
    {sinceUtc : DateTimeOffset}
    (hrun : ((system host accepts).recorded guard).run labels (System.init ⟨s, []⟩) = some c)
    (hpoll : mine i c.shared.log = newer ++ ⟨before, .sendPoll bearerToken deviceId sinceUtc, ()⟩ :: older) :
    watermark older = some sinceUtc := by
  obtain ⟨-, hsince⟩ := (throughout_run follows_watermarked hrun).of_mine hpoll
  exact hsince

/-- A response was received to a poll for what was decided since the watermark, which was not set in
between. -/
private theorem response_of_run {older base newer : List Deed} {list : List ApprovalDecision}
    (hrun : ((system host accepts).recorded guard).run labels (System.init ⟨s, []⟩) = some c)
    (hmine : mine i c.shared.log = newer ++ older) (hresponse : response older = some (list, base)) :
    ∃ received sent bearerToken deviceId sinceUtc rest,
      base = ⟨received, .receiveDecisions, .ok list⟩ ::
        ⟨sent, .sendPoll bearerToken deviceId sinceUtc, ()⟩ :: rest ∧
      base <:+ older ∧ watermark rest = some sinceUtc ∧ watermark older = some sinceUtc := by
  have hthroughout := throughout_run follows_watermarked hrun
  obtain ⟨hsuffix, hwatermark, received, polled, rfl⟩ := response_spec hresponse
  obtain ⟨between, rfl⟩ := id hsuffix
  rw [← List.append_assoc] at hmine
  obtain ⟨-, sent, bearerToken, deviceId, sinceUtc, rest, rfl⟩ := hthroughout.of_mine hmine
  have hsent : mine i c.shared.log = (newer ++ between ++ [⟨received, .receiveDecisions, .ok list⟩]) ++
      ⟨sent, .sendPoll bearerToken deviceId sinceUtc, ()⟩ :: rest := by
    rw [hmine]
    simp
  have hsince := watermark_of_poll hrun hsent
  exact ⟨received, sent, bearerToken, deviceId, sinceUtc, rest, rfl, hsuffix, hsince,
    hwatermark.trans hsince⟩

/-- In every run the worker sets the watermark when it starts, and then only when it has carried out
every decision of a response to a poll for what was decided since the watermark. -/
private theorem carriedOut_of_set {newer older : List Deed} {before : State} {t : DateTimeOffset}
    (hrun : ((system host accepts).recorded guard).run labels (System.init ⟨s, []⟩) = some c)
    (hset : mine i c.shared.log = newer ++ ⟨before, .note (.sinceUtc t), ()⟩ :: older) :
    watermark older = none ∨ ∃ list base received sent bearerToken deviceId sinceUtc rest,
      base = ⟨received, .receiveDecisions, .ok list⟩ ::
        ⟨sent, .sendPoll bearerToken deviceId sinceUtc, ()⟩ :: rest ∧
      base <:+ older ∧ watermark rest = some sinceUtc ∧ watermark older = some sinceUtc ∧
      ∀ decision ∈ list, CarriedOut base older decision := by
  obtain ⟨call, hallowed⟩ := (throughout_run follows_cycles hrun).of_mine hset
  cases call with
  | pollingWorker ticks =>
    rcases hallowed with hstart | ⟨list, base, hresponse, hout⟩
    · exact .inl hstart
    · have hmine : mine i c.shared.log =
          (newer ++ [⟨before, .note (.sinceUtc t), ()⟩]) ++ older := by
        rw [hset]
        simp
      obtain ⟨received, sent, bearerToken, deviceId, sinceUtc, rest, hbase, hsuffix, hsince,
        hwatermark⟩ := response_of_run hrun hmine hresponse
      exact .inr ⟨list, base, received, sent, bearerToken, deviceId, sinceUtc, rest, hbase, hsuffix,
        hsince, hwatermark, hout⟩
  | _ => exact hallowed.elim

/-- In every run the worker sets the watermark when it starts, and then only when it has carried out
every decision of a response to a poll for what was decided since the watermark; and every poll asks for
what was decided since the watermark. -/
theorem watermark_set_when_carried_out
    (hrun : ((system host accepts).recorded guard).run labels (System.init ⟨s, []⟩) = some c) :
    (∀ newer older before t,
      mine i c.shared.log = newer ++ ⟨before, .note (.sinceUtc t), ()⟩ :: older →
      watermark older = none ∨ ∃ list base received sent bearerToken deviceId sinceUtc rest,
        base = ⟨received, .receiveDecisions, .ok list⟩ ::
          ⟨sent, .sendPoll bearerToken deviceId sinceUtc, ()⟩ :: rest ∧
        base <:+ older ∧ watermark rest = some sinceUtc ∧ watermark older = some sinceUtc ∧
        ∀ decision ∈ list, CarriedOut base older decision) ∧
    ∀ newer older before bearerToken deviceId sinceUtc,
      mine i c.shared.log = newer ++ ⟨before, .sendPoll bearerToken deviceId sinceUtc, ()⟩ :: older →
      watermark older = some sinceUtc := by
  constructor
  · intro newer older before t hset
    exact carriedOut_of_set hrun hset
  · intro newer older before bearerToken deviceId sinceUtc hpoll
    exact watermark_of_poll hrun hpoll

end Runs

namespace Sample

/-- The worker receives the decision, waits for the process and sets the watermark. -/
def settled : List (Label Tid Choice Event Call) := launching ++ List.replicate 6 (.perform 0 .unit)

/-- The watermark that a thread has just set, and the one before it. -/
def justSet (c : Config Op Res ClrException Answer Tid Call Record) (i : Tid) :
    Option (DateTimeOffset × Option DateTimeOffset) :=
  match mine i c.shared.log with
  | ⟨_, .note (.sinceUtc t), _⟩ :: older => some (t, watermark older)
  | _ => none

theorem mine_of_justSet {c : Config Op Res ClrException Answer Tid Call Record} {i : Tid}
    {t : DateTimeOffset} {last : Option DateTimeOffset} (h : justSet c i = some (t, last)) :
    ∃ before older, mine i c.shared.log = [] ++ ⟨before, .note (.sinceUtc t), ()⟩ :: older ∧
      watermark older = last := by
  unfold justSet at h
  split at h
  · next before t' answer older heq =>
    obtain ⟨rfl, rfl⟩ := Prod.mk.inj (Option.some.inj h)
    exact ⟨before, older, heq, rfl⟩
  · contradiction

end Sample

/-- The worker has polled since the watermark, has carried out the decision that it received, and sets
the watermark. -/
theorem watermark_set_when_carried_out_sample : ∃ c before t older base sent bearerToken deviceId sinceUtc,
    ∃ newer rest : List Deed, ∃ list : List ApprovalDecision,
    ((system Sample.verifier serviceCalls).recorded .free).run Sample.settled
      (System.init ⟨Sample.submitted, []⟩) = some c ∧
    mine 0 c.shared.log = ⟨before, .note (.sinceUtc t), ()⟩ :: older ∧
    base <:+ older ∧ (∀ decision ∈ list, CarriedOut base older decision) ∧
    base = newer ++ ⟨sent, .sendPoll bearerToken deviceId sinceUtc, ()⟩ :: rest ∧
    watermark rest = some sinceUtc := by
  have hrun : ((((system Sample.verifier serviceCalls).recorded .free).run Sample.settled
      (System.init ⟨Sample.submitted, []⟩)).map fun c => Sample.justSet c 0) =
        some (some (.minValue, some .minValue)) := by
    decide +kernel
  obtain ⟨c, hc, hjust⟩ := Option.map_eq_some_iff.mp hrun
  obtain ⟨before, older, hmine, hlast⟩ := Sample.mine_of_justSet hjust
  have hsome : watermark older ≠ none := fun hnone => Option.some_ne_none _ (hlast.symm.trans hnone)
  obtain ⟨hset, hpolled⟩ := watermark_set_when_carried_out (i := 0) hc
  have hcarried := (hset [] older before .minValue hmine).resolve_left hsome
  obtain ⟨list, base, received, sent, bearerToken, deviceId, sinceUtc, rest, hbase, hsuffix, -, -, hall⟩ :=
    hcarried
  obtain ⟨between, rfl⟩ := id hsuffix
  -- what the worker has done since that poll
  have hpoll : mine 0 c.shared.log =
      (⟨before, .note (.sinceUtc .minValue), ()⟩ :: between ++
        [⟨received, .receiveDecisions, .ok list⟩]) ++
        ⟨sent, .sendPoll bearerToken deviceId sinceUtc, ()⟩ :: rest := by
    rw [hmine, hbase]
    simp
  exact ⟨c, before, .minValue, _, base, sent, bearerToken, deviceId, sinceUtc,
    [⟨received, .receiveDecisions, .ok list⟩], rest, list, hc, hmine, hsuffix, hall, hbase,
    hpolled _ rest sent bearerToken deviceId sinceUtc hpoll⟩

end ElevateGate.Agent
