import ElevateGate.Agent.Tracking

/-!
# The watermark of the polling worker

The worker polls for the decisions since its watermark. It sets the watermark to a reading of the clock
that it takes when it starts, and again when it has handled every decision of a response; where anything
is thrown in between, the watermark stays. While the clock does not go back, the watermark does not
either, whatever stops and restarts the worker.
-/

namespace ElevateGate.Agent

open Interaction Time

/-- The watermark of a worker that has done these deeds. -/
def watermark : List Deed → Option DateTimeOffset
  | [] => none
  | ⟨_, .note (.sinceUtc t), _⟩ :: _ => some t
  | _ :: older => watermark older

/-- The protocol of the worker's polls: a poll asks for what was decided since the watermark, a response
is one to the poll that was sent last, and a watermark is the last reading of the clock. -/
def Watermarked (done : List Deed) : Op → Prop
  | .sendPoll _ _ sinceUtc => watermark done = some sinceUtc
  | .receiveDecisions => ∃ before bearerToken deviceId sinceUtc older,
    done = ⟨before, .sendPoll bearerToken deviceId sinceUtc, ()⟩ :: older
  | .note (.sinceUtc t) => ∃ before older, done = ⟨before, .utcNow, t⟩ :: older
  | _ => True

/-- The operations that have nothing to do with polls. -/
def Op.Aside : Op → Prop
  | .sendPoll _ _ _ => False
  | .receiveDecisions => False
  | .note (.sinceUtc _) => False
  | _ => True

theorem Op.Records.aside {o : Op} (h : o.Records) : o.Aside := by
  cases o <;> first | exact True.intro | exact h.elim

theorem Op.Submits.aside {o : Op} (h : o.Submits) : o.Aside := by
  cases o <;> first | exact True.intro | exact h.elim

theorem Op.Validates.aside {token : ApprovalToken} {o : Op} (h : o.Validates token) : o.Aside := by
  cases o with
  | note n => cases n <;> first | exact True.intro | exact h.elim
  | _ => first | exact True.intro | exact h.elim

theorem Op.Executes.aside {token : ApprovalToken} {requestId deviceId : String} {o : Op}
    (h : o.Executes token requestId deviceId) : o.Aside := by
  cases o with
  | note n => cases n <;> first | exact True.intro | exact h.elim
  | _ => first | exact True.intro | exact h.elim

section Worker

variable {host : Host} {done : List Deed} {credential : DeviceCredential} {α : Type}

/-- A deed that sets no watermark leaves it. -/
theorem watermark_cons {deed : Deed} (h : ∀ t, deed.op ≠ .note (.sinceUtc t)) :
    watermark (deed :: done) = watermark done := by
  obtain ⟨before, o, answer⟩ := deed
  cases o with
  | note n =>
    cases n with
    | sinceUtc t => exact absurd rfl (h t)
    | valid nonce => rfl
  | _ => rfl

/-- So do several such deeds. -/
private theorem watermark_append {new : List Deed} (h : ∀ deed ∈ new, deed.op.Aside) :
    watermark (new ++ done) = watermark done := by
  induction new with
  | nil => rfl
  | cons deed rest ih =>
    have hdeed : ∀ t, deed.op ≠ .note (.sinceUtc t) := by
      intro t heq
      have haside := h deed List.mem_cons_self
      rw [heq] at haside
      exact haside
    rw [List.cons_append, watermark_cons hdeed]
    exact ih fun d hd => h d (List.mem_cons_of_mem _ hd)

/-- What is aside of the polls keeps the watermark. -/
private theorem obeys_aside {program : Service α} (h : program.Within Op.Aside) :
    Obeys Watermarked (fun _ after => watermark after = watermark done) done program := by
  have hallowed : ∀ (done : List Deed) (o : Op), o.Aside → Watermarked done o := by
    intro done o ho
    cases o with
    | note n => cases n <;> first | exact True.intro | exact ho.elim
    | _ => first | exact True.intro | exact ho.elim
  refine (Obeys.of_within h fun new o _ ho => hallowed (new ++ done) o ho).mono ?_
  rintro result _ ⟨new, rfl, hnew⟩
  exact watermark_append hnew

private theorem within_handleDecisionAsync {decision : ApprovalDecision} :
    (ApprovalPollingWorker.handleDecisionAsync host credential decision).Within Op.Aside := by
  have hget : (RequestStateStore.get decision.requestId).Within Op.Aside := by
    cases decision.requestId with
    | none => exact .throw
    | some requestId => exact within_op trivial
  refine hget.bind fun tracked => ?_
  cases tracked with
  | none => exact .pure
  | some tracked =>
    refine (within_recordAsync.mono fun _ => Op.Records.aside).bind fun _ => ?_
    cases decision.status with
    | denied => exact within_updateStatus trivial
    | expired => exact within_updateStatus trivial
    | approved =>
      exact within_handleApprovedAsync (fun _ => trivial) (fun _ => Op.Records.aside)
        fun _ _ => Op.Executes.aside
    | pending => exact .pure
    | failed => exact .pure

/-- A cycle polls since the watermark, which it moves or keeps. -/
private theorem obeys_cycle {sinceUtc : DateTimeOffset} (h : watermark done = some sinceUtc) :
    Obeys Watermarked (fun result after => ∀ next, result = .ok next → watermark after = some next)
      done (ApprovalPollingWorker.cycle host credential sinceUtc) := by
  have hsame : ∀ (after : List Deed), watermark after = some sinceUtc → ∀ next,
      (Except.ok sinceUtc : Except ClrException DateTimeOffset) = .ok next →
        watermark after = some next := by
    intro after hafter next heq
    obtain rfl := Except.ok.inj heq
    exact hafter
  refine Obeys.tryCatch (Q := fun result after => match result with
      | .ok next => watermark after = some next
      | .error _ => watermark after = some sinceUtc) ?_
    (fun next after hafter next' heq => Except.ok.inj heq ▸ hafter)
    fun error after hafter => .pure (hsame after hafter)
  refine .perform h fun before sent => .perform ⟨before, _, _, _, done, rfl⟩ fun before' received => ?_
  cases received with
  | error error => exact .throw h
  | ok decisions =>
    have hhandled : ∀ done', watermark done' = some sinceUtc →
        Obeys Watermarked (fun _ after => watermark after = some sinceUtc) done'
          (Program.forEach (ApprovalPollingWorker.handleDecisionAsync host credential) decisions) := by
      intro done' hdone'
      refine (obeys_aside (.forEach fun decision _ => within_handleDecisionAsync)).mono ?_
      exact fun _ after hafter => hafter.trans hdone'
    refine (hhandled (⟨before', .receiveDecisions, .ok decisions⟩ ::
      ⟨before, .sendPoll credential.bearerToken credential.deviceId sinceUtc, sent⟩ :: done) h).bind
        (fun _ after _ => ?_) fun _ _ hafter => ?_
    · exact .perform trivial fun clock now => .perform ⟨clock, after, rfl⟩ fun _ _ => .pure rfl
    · exact hafter

/-- So do all the cycles. -/
private theorem obeys_cycles {ticks : Nat} {sinceUtc : DateTimeOffset}
    (h : watermark done = some sinceUtc) :
    Obeys Watermarked (fun _ _ => True) done
      (ApprovalPollingWorker.cycles host credential ticks sinceUtc) := by
  induction ticks generalizing done sinceUtc with
  | zero => exact (obeys_cycle h).bind (fun _ _ _ => .pure trivial) fun _ _ _ => trivial
  | succ ticks ih =>
    refine (obeys_cycle h).bind (fun next after hafter => ?_) fun _ _ _ => trivial
    refine .perform trivial fun before ticked => ?_
    cases ticked with
    | error error => exact .throw trivial
    | ok again =>
      refine .ite (fun _ => ih ?_) fun _ => .pure trivial
      exact hafter next rfl

/-- So does the worker. -/
private theorem obeys_worker {ticks : Nat} :
    Obeys Watermarked (fun _ _ => True) done (ApprovalPollingWorker.executeAsync host ticks) := by
  refine .perform trivial fun before received => ?_
  cases received with
  | error error => exact .throw trivial
  | ok credential =>
    exact .perform trivial fun clock now => .perform ⟨clock, _, rfl⟩ fun _ _ => obeys_cycles rfl

end Worker

/-- Every thread of the service keeps to the protocol of the polls. -/
theorem follows_watermarked {host : Host} {accepts : Tid → Call → Bool} :
    (system host accepts).Follows fun _ => Watermarked := by
  intro i call program hprogram
  simp only [system] at hprogram
  split at hprogram
  · obtain rfl := Option.some.inj hprogram
    have haside : ∀ {α : Type} {program : Service α} {f : α → Answer}, program.Within Op.Aside →
        Obeys Watermarked (fun _ _ => True) [] (f <$> program) := fun h =>
      (obeys_aside (h.map)).mono fun _ _ _ => trivial
    cases call with
    | pollingWorker ticks =>
      rw [serve, map_eq_pure_bind]
      exact obeys_worker.bind (fun _ _ _ => .pure trivial) fun _ _ _ => trivial
    | submit rawFilePath reason => exact haside (within_submitAsync.mono fun _ => Op.Submits.aside)
    | getStatus requestId => exact haside (within_getStatus fun id => trivial)
    | execute token expectedRequestId rawPath deviceId =>
      exact haside (within_executeAsync.mono fun _ => Op.Executes.aside)
    | validate token expectedDeviceId expectedRequestId currentFileSha256Hex =>
      exact haside (within_validateAsync.mono fun _ => Op.Validates.aside)
  · contradiction

/-- The runs in which the clock never goes back. -/
def onward : Guard Op Res Tid Choice Event State where
  perform _ _ _ _ := true
  env event r :=
    match event with
    | .setClock t => decide (r.state.clock.utcTicks ≤ t.utcTicks)
    | .write _ _ => true

/-- The watermark that was set last, by the worker that runs or by one that ran before. -/
def lastWatermark : List (Moment Op Res Tid Event State) → Option DateTimeOffset
  | [] => none
  | .performed 0 ⟨_, .note (.sinceUtc t), _⟩ :: _ => some t
  | _ :: older => lastWatermark older

/-- What is known of the watermark while the clock never goes back. -/
structure Rising (r : Record) : Prop where
  past : ∀ t, lastWatermark r.log = some t → t.utcTicks ≤ r.state.clock.utcTicks
  clocked : ∀ before now older, mine 0 r.log = ⟨before, .utcNow, now⟩ :: older →
    now.utcTicks ≤ r.state.clock.utcTicks ∧
      ∀ t, lastWatermark r.log = some t → t.utcTicks ≤ now.utcTicks
  present : ∀ t, watermark (mine 0 r.log) = some t → lastWatermark r.log = some t
  polled : ∀ before bearerToken deviceId sinceUtc older,
    mine 0 r.log = ⟨before, .sendPoll bearerToken deviceId sinceUtc, ()⟩ :: older →
      lastWatermark r.log = some sinceUtc
  risen : ∀ older, older <:+ r.log → ∀ t, lastWatermark older = some t →
    ∃ t', lastWatermark r.log = some t' ∧ t.utcTicks ≤ t'.utcTicks

section Rises

variable {s s' : State} {log : List (Moment Op Res Tid Event State)}
  {moment : Moment Op Res Tid Event State}

/-- What sets no watermark leaves it. -/
theorem lastWatermark_cons
    (h : ∀ before t, moment ≠ .performed 0 ⟨before, .note (.sinceUtc t), ()⟩) :
    lastWatermark (moment :: log) = lastWatermark log := by
  conv_lhs => unfold lastWatermark
  split
  · contradiction
  · next heq =>
    obtain ⟨rfl, -⟩ := List.cons.inj heq
    exact absurd rfl (h _ _)
  · next heq =>
    obtain ⟨-, rfl⟩ := List.cons.inj heq
    rfl

/-- The watermark has risen when something happens that does not set it. -/
private theorem Rising.risen_cons (h : Rising ⟨s, log⟩)
    (hmoment : ∀ before t, moment ≠ .performed 0 ⟨before, .note (.sinceUtc t), ()⟩) :
    ∀ older, older <:+ moment :: log → ∀ t, lastWatermark older = some t →
      ∃ t', lastWatermark (moment :: log) = some t' ∧ t.utcTicks ≤ t'.utcTicks := by
  intro older hsuffix t ht
  rw [lastWatermark_cons hmoment]
  rcases List.suffix_cons_iff.mp hsuffix with rfl | hsuffix
  · rw [lastWatermark_cons hmoment] at ht
    exact ⟨t, ht, le_rfl⟩
  · exact h.risen older hsuffix t ht

/-- What the worker does not do, and what stops it, changes nothing of this as time passes. -/
private theorem Rising.aside (h : Rising ⟨s, log⟩)
    (hmoment : ∀ before t, moment ≠ .performed 0 ⟨before, .note (.sinceUtc t), ()⟩)
    (hclock : s.clock.utcTicks ≤ s'.clock.utcTicks)
    (hmine : mine 0 (moment :: log) = mine 0 log ∨ mine 0 (moment :: log) = []) :
    Rising ⟨s', moment :: log⟩ where
  past t ht := by
    rw [lastWatermark_cons hmoment] at ht
    exact (h.past t ht).trans hclock
  clocked before now older heq := by
    rcases hmine with hsame | hnone
    · rw [hsame] at heq
      obtain ⟨hnow, hlast⟩ := h.clocked before now older heq
      rw [lastWatermark_cons hmoment]
      exact ⟨hnow.trans hclock, hlast⟩
    · rw [hnone] at heq
      contradiction
  present t ht := by
    rw [lastWatermark_cons hmoment]
    rcases hmine with hsame | hnone
    · rw [hsame] at ht
      exact h.present t ht
    · rw [hnone] at ht
      contradiction
  polled before bearerToken deviceId sinceUtc older heq := by
    rw [lastWatermark_cons hmoment]
    rcases hmine with hsame | hnone
    · rw [hsame] at heq
      exact h.polled before bearerToken deviceId sinceUtc older heq
    · rw [hnone] at heq
      contradiction
  risen := h.risen_cons hmoment

/-- The worker sets the watermark to the last reading of the clock. -/
private theorem Rising.noted {t : DateTimeOffset} {before : State} {older : List Deed}
    (h : Rising ⟨s, log⟩) (hmine : mine 0 log = ⟨before, .utcNow, t⟩ :: older) :
    Rising ⟨s, .performed 0 ⟨s, .note (.sinceUtc t), ()⟩ :: log⟩ where
  past t' ht' := by
    obtain rfl := Option.some.inj ht'
    exact (h.clocked before t older hmine).1
  clocked before' now older' heq := by
    rw [mine_performed_self] at heq
    cases (List.cons.inj heq).1
  present t' ht' := by
    rw [mine_performed_self] at ht'
    exact ht'
  polled before' bearerToken deviceId sinceUtc older' heq := by
    rw [mine_performed_self] at heq
    cases (List.cons.inj heq).1
  risen older' hsuffix t' ht' := by
    rcases List.suffix_cons_iff.mp hsuffix with rfl | hsuffix
    · exact ⟨t', ht', le_rfl⟩
    · obtain ⟨last, hlast, hle⟩ := h.risen older' hsuffix t' ht'
      exact ⟨t, rfl, hle.trans ((h.clocked before t older hmine).2 last hlast)⟩

/-- The other deeds of the worker leave the watermark. -/
private theorem Rising.did {deed : Deed} (h : Rising ⟨s, log⟩)
    (hdeed : ∀ t, deed.op ≠ .note (.sinceUtc t)) (hallowed : Watermarked (mine 0 log) deed.op)
    (hclock : s'.clock = s.clock)
    (hnow : ∀ before now, deed = ⟨before, .utcNow, now⟩ → now = s.clock) :
    Rising ⟨s', .performed 0 deed :: log⟩ := by
  have hmoment : ∀ before t, (.performed 0 deed : Moment Op Res Tid Event State) ≠
      .performed 0 ⟨before, .note (.sinceUtc t), ()⟩ := by
    intro before t heq
    obtain ⟨-, rfl⟩ := Moment.performed.inj heq
    exact hdeed t rfl
  constructor
  · intro t ht
    rw [lastWatermark_cons hmoment] at ht
    exact hclock ▸ h.past t ht
  · intro before now older heq
    rw [mine_performed_self] at heq
    obtain rfl := hnow before now (List.cons.inj heq).1
    rw [lastWatermark_cons hmoment]
    exact ⟨hclock ▸ le_rfl, h.past⟩
  · intro t ht
    rw [mine_performed_self, watermark_cons hdeed] at ht
    rw [lastWatermark_cons hmoment]
    exact h.present t ht
  · intro before bearerToken deviceId sinceUtc older heq
    rw [mine_performed_self] at heq
    obtain ⟨rfl, -⟩ := List.cons.inj heq
    rw [lastWatermark_cons hmoment]
    exact h.present sinceUtc hallowed
  · exact h.risen_cons hmoment

/-- No operation sets the clock. -/
theorem Effect.clock {op : Op} (h : Effect s op s') : s'.clock = s.clock := by
  cases h with
  | insertNonce nonce =>
    unfold State.insertNonce
    split <;> rfl
  | _ => rfl

/-- Every step keeps what is known of the watermark. -/
private theorem preserved_rising {host : Host} {accepts : Tid → Call → Bool} :
    Preserved (system host accepts) onward (fun _ => Watermarked) Rising where
  perform i call op choice answer s s' log h hallowed hguard hperform := by
    have hclock : s'.clock = s.clock := (perform_effect hperform).clock
    by_cases hi : i = 0
    · subst hi
      by_cases hnote : ∃ t, op = .note (.sinceUtc t)
      · obtain ⟨t, rfl⟩ := hnote
        obtain ⟨before, older, hmine⟩ := hallowed
        have hsame : s' = s := by
          cases choice <;> first | exact (Prod.mk.inj (Option.some.inj hperform)).2.symm | contradiction
        rw [hsame]
        exact h.noted hmine
      · refine h.did (fun t heq => hnote ⟨t, heq⟩) hallowed hclock fun before now heq => ?_
        cases heq
        exact perform_utcNow hperform
    · refine h.aside (fun before t heq => hi (Moment.performed.inj heq).1) (hclock ▸ le_rfl) (.inl ?_)
      exact mine_performed_ne hi _
  stop i s log h := h.aside (by simp) le_rfl (mine_quiet (by simp))
  reset s s' log h hreset := by
    obtain rfl := Option.some.inj hreset
    exact h.aside (by simp) le_rfl (mine_quiet (by simp))
  env event s s' log h hguard henv := by
    refine h.aside (by simp) ?_ (mine_quiet (by simp))
    cases event with
    | setClock t =>
      obtain rfl := Option.some.inj henv
      exact of_decide_eq_true hguard
    | write path content =>
      change env (.write path content) s = some s' at henv
      simp only [env] at henv
      split at henv
      · contradiction
      · obtain rfl := Option.some.inj henv
        exact le_rfl

/-- While the clock does not go back, the watermark does not: a poll asks for what was decided since
the watermark that was set last, which is the highest of all. -/
theorem rising_run {host : Host} {accepts : Tid → Call → Bool}
    {labels : List (Label Tid Choice Event Call)}
    {c : Config Op Res ClrException Answer Tid Call Record}
    (hrun : ((system host accepts).recorded onward).run labels (System.init ⟨s, []⟩) = some c) :
    Rising c.shared := by
  have hstart : Rising ⟨s, []⟩ := by
    constructor
    · intro t ht
      contradiction
    · intro before now older heq
      contradiction
    · intro t ht
      contradiction
    · intro before bearerToken deviceId sinceUtc older heq
      contradiction
    · intro older hsuffix t ht
      rw [List.suffix_nil.mp hsuffix] at ht
      contradiction
  exact (recorded_run follows_watermarked preserved_rising (obedient_init _) hstart hrun).2

end Rises

end ElevateGate.Agent
