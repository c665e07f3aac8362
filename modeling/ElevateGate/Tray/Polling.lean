import ElevateGate.Tray.Announcements

/-!
# One balloon for every request

The timer ticks every three seconds, whether or not the answer to the tick before has come. While each
answer comes before the next tick, every request that the service accepts is polled until its balloon is
shown, and has one balloon. An answer that comes later is taken for one about the next request: it shows
the balloon of the old request again, and ends the polling of the new one.
-/

namespace ElevateGate.Tray

open Interaction Agent

/-- Whether the form waits for a status. -/
def World.querying (w : World) : Bool := w.exchanges.any fun x => x.call.isQuery

/-- The timer may tick once the answer to the tick before has come. -/
def Event.apart : Event → World → Bool
  | .tick, w => !w.querying
  | _, _ => true

/-- Every tick of a run comes after the answer to the tick before. -/
def ticksApart (host : Host) : List Event → World → Bool
  | [], _ => true
  | event :: rest, w => event.apart w && (w.step host event).all (ticksApart host rest)

/-- What a form does whose answers come in time. -/
inductive Phase (w : World) : Prop
  | idle (hexchanges : w.exchanges = []) (hinputs : w.form.inputsEnabled = true)
      (htimer : w.form.pollTimer = false) (htold : w.accepted = w.announced.map Prod.fst)
  | submitting {n : Nat} {filePath reason : String} {progress : Progress}
      (hexchanges : w.exchanges = [⟨n, .submitRequest filePath reason, progress⟩])
      (hinputs : w.form.inputsEnabled = false) (htimer : w.form.pollTimer = false)
      (htold : w.accepted = w.announced.map Prod.fst)
  | waiting {id : String} (hexchanges : w.exchanges = []) (hinputs : w.form.inputsEnabled = false)
      (htimer : w.form.pollTimer = true) (hid : w.form.requestId = some id)
      (htold : w.accepted = id :: w.announced.map Prod.fst)
  | polling {n : Nat} {id : String} {progress : Progress}
      (hexchanges : w.exchanges = [⟨n, .getStatus id, progress⟩])
      (hinputs : w.form.inputsEnabled = false) (htimer : w.form.pollTimer = true)
      (hid : w.form.requestId = some id) (htold : w.accepted = id :: w.announced.map Prod.fst)

variable {host : Host} {s : State} {events : List Event} {w w' : World}

/-- The service and the progress of the calls do not matter. -/
private theorem Phase.progress (h : Phase w) {service : Configuration} {exchanges : List Exchange}
    (hcalls : exchanges.map Exchange.call = w.exchanges.map Exchange.call) :
    Phase { w with service := service, exchanges := exchanges } := by
  cases h with
  | idle hexchanges hinputs htimer htold =>
    rw [hexchanges] at hcalls
    exact .idle (List.map_eq_nil_iff.mp hcalls) hinputs htimer htold
  | waiting hexchanges hinputs htimer hid htold =>
    rw [hexchanges] at hcalls
    exact .waiting (List.map_eq_nil_iff.mp hcalls) hinputs htimer hid htold
  | submitting hexchanges hinputs htimer htold =>
    rw [hexchanges, List.map_singleton, List.map_eq_singleton_iff] at hcalls
    obtain ⟨⟨n, call, progress⟩, rfl, rfl⟩ := hcalls
    exact .submitting rfl hinputs htimer htold
  | polling hexchanges hinputs htimer hid htold =>
    rw [hexchanges, List.map_singleton, List.map_eq_singleton_iff] at hcalls
    obtain ⟨⟨n, call, progress⟩, rfl, rfl⟩ := hcalls
    exact .polling rfl hinputs htimer hid htold

/-- A call that gets on is still the same call. -/
private theorem calls_set {k n : Nat} {call : PipeCall} {progress progress' : Progress}
    (h : w.exchanges[k]? = some ⟨n, call, progress⟩) :
    (w.exchanges.set k ⟨n, call, progress'⟩).map Exchange.call = w.exchanges.map Exchange.call := by
  obtain ⟨hk, hcall⟩ := List.getElem?_eq_some_iff.mp h
  have hlength : k < (w.exchanges.map Exchange.call).length := by simpa using hk
  have hsame : (w.exchanges.map Exchange.call)[k] = call := by rw [List.getElem_map, hcall]
  calc (w.exchanges.set k ⟨n, call, progress'⟩).map Exchange.call
      = (w.exchanges.map Exchange.call).set k call := List.map_set
    _ = (w.exchanges.map Exchange.call).set k (w.exchanges.map Exchange.call)[k] := by rw [hsame]
    _ = w.exchanges.map Exchange.call := List.set_getElem_self hlength

/-- A submission ends. -/
private theorem phase_submitted (hinputs : w.form.inputsEnabled = false)
    (htimer : w.form.pollTimer = false) (htold : w.accepted = w.announced.map Prod.fst)
    {n : Nat} {filePath reason : String} {progress : Progress}
    (hexchanges : w.exchanges = [⟨n, .submitRequest filePath reason, progress⟩]) {reply : Reply}
    (hreply : ∀ response, reply = .ok response → response.success = true →
      ∃ id, response.requestId = some id) :
    Phase (w.finish 0 (.submitRequest filePath reason) reply) := by
  have hempty : (w.finish 0 (.submitRequest filePath reason) reply).exchanges = [] := by
    simp [World.finish, hexchanges]
  cases reply with
  | error text => exact .idle hempty rfl htimer htold
  | ok response =>
    cases hsuccess : response.success with
    | false =>
      refine .idle hempty ?_ ?_ ?_ <;>
        simp [World.finish, RequestForm.onReply, RequestForm.onSubmitted, RequestForm.setStatus,
          RequestForm.setInputsEnabled, World.acceptedBy, World.announcedBy, hsuccess, htimer, htold]
    | true =>
      obtain ⟨id, hid⟩ := hreply response rfl hsuccess
      refine @Phase.waiting _ id hempty ?_ ?_ ?_ ?_ <;>
        simp [World.finish, RequestForm.onReply, RequestForm.onSubmitted, RequestForm.setStatus,
          World.acceptedBy, World.announcedBy, hsuccess, hid, hinputs, htold]

/-- A query of a status ends. -/
private theorem phase_polled {id : String} (hinputs : w.form.inputsEnabled = false)
    (htimer : w.form.pollTimer = true) (hid : w.form.requestId = some id)
    (htold : w.accepted = id :: w.announced.map Prod.fst) {n : Nat} {progress : Progress}
    (hexchanges : w.exchanges = [⟨n, .getStatus id, progress⟩]) {reply : Reply} :
    Phase (w.finish 0 (.getStatus id) reply) := by
  have hempty : (w.finish 0 (.getStatus id) reply).exchanges = [] := by
    simp [World.finish, hexchanges]
  cases reply with
  | error text => exact .waiting hempty hinputs htimer hid htold
  | ok response =>
    cases hterminal : response.success && isTerminalStatus response.status with
    | true =>
      obtain ⟨hsuccess, hstatus⟩ := Bool.and_eq_true_iff.mp hterminal
      refine .idle hempty ?_ ?_ ?_ <;>
        simp [World.finish, RequestForm.onReply, RequestForm.onPolled, RequestForm.setStatus,
          RequestForm.setInputsEnabled, World.acceptedBy, World.announcedBy, hsuccess, hstatus, htold]
    | false =>
      have hsame : (w.form.onPolled (.ok response)).inputsEnabled = w.form.inputsEnabled ∧
          (w.form.onPolled (.ok response)).pollTimer = w.form.pollTimer ∧
          (w.form.onPolled (.ok response)).requestId = w.form.requestId := by
        cases hsuccess : response.success with
        | false => simp [RequestForm.onPolled, hsuccess, RequestForm.setStatus]
        | true =>
          rw [hsuccess, Bool.true_and] at hterminal
          simp [RequestForm.onPolled, hsuccess, hterminal, RequestForm.setStatus]
      have htold' : (w.finish 0 (.getStatus id) (.ok response)).accepted =
          id :: (w.finish 0 (.getStatus id) (.ok response)).announced.map Prod.fst := by
        simp [World.finish, World.acceptedBy, World.announcedBy, hterminal, htold]
      exact .waiting hempty (hsame.1.trans hinputs) (hsame.2.1.trans htimer) (hsame.2.2.trans hid) htold'

/-- A call ends. -/
private theorem Phase.finish (h : Phase w) {k : Nat} {x : Exchange} (hx : w.exchanges[k]? = some x)
    {reply : Reply} (hreply : ∀ filePath reason response, x.call = .submitRequest filePath reason →
      reply = .ok response → response.success = true → ∃ id, response.requestId = some id) :
    Phase (w.finish k x.call reply) := by
  have honly : ∀ y, w.exchanges = [y] → k = 0 ∧ x = y := by
    intro y hy
    rw [hy, List.getElem?_singleton] at hx
    split at hx
    · next hk => exact ⟨hk, (Option.some.inj hx).symm⟩
    · contradiction
  cases h with
  | idle hexchanges =>
    rw [hexchanges] at hx
    contradiction
  | waiting hexchanges =>
    rw [hexchanges] at hx
    contradiction
  | submitting hexchanges hinputs htimer htold =>
    obtain ⟨rfl, rfl⟩ := honly _ hexchanges
    exact phase_submitted hinputs htimer htold hexchanges fun response => hreply _ _ response rfl
  | polling hexchanges hinputs htimer hid htold =>
    obtain ⟨rfl, rfl⟩ := honly _ hexchanges
    exact phase_polled hinputs htimer hid htold hexchanges

/-- An event that comes in time keeps the form in one of its phases. -/
private theorem Phase.step (h : Phase w) (htold : Told host s events w) {event : Event}
    (hapart : event.apart w = true) (hstep : w.step host event = some w') : Phase w' := by
  cases World.step_steps hstep with
  | @click filePathText reasonText henabled =>
    cases h with
    | idle hexchanges hinputs htimer htold =>
      obtain ⟨text, hclicked | hclicked⟩ := w.form.onSubmitClicked_spec filePathText reasonText <;>
        rw [hclicked]
      · exact .idle hexchanges hinputs htimer htold
      · have hcalls : ({ w with form := (w.form.setInputsEnabled false).setStatus text }.start
            (some (.submitRequest (trim filePathText) (trim reasonText)))).exchanges =
            [⟨w.calls, .submitRequest (trim filePathText) (trim reasonText), .sent⟩] := by
          simp [World.start, hexchanges]
        exact .submitting hcalls rfl htimer htold
    | submitting _ hinputs => exact absurd (henabled.symm.trans hinputs) (by simp)
    | waiting _ hinputs => exact absurd (henabled.symm.trans hinputs) (by simp)
    | polling _ hinputs => exact absurd (henabled.symm.trans hinputs) (by simp)
  | tick hticks =>
    cases h with
    | idle _ _ htimer => exact absurd (hticks.symm.trans htimer) (by simp)
    | submitting _ _ htimer => exact absurd (hticks.symm.trans htimer) (by simp)
    | @waiting id hexchanges hinputs htimer hid htold =>
      have hcall : w.form.onPollTick = some (.getStatus id) := by
        simp [RequestForm.onPollTick, hid]
      have hcalls : (w.start (some (.getStatus id))).exchanges =
          [⟨w.calls, .getStatus id, .sent⟩] := by
        simp [World.start, hexchanges]
      rw [hcall]
      exact .polling hcalls hinputs htimer hid htold
    | polling hexchanges => simp [Event.apart, World.querying, hexchanges, PipeCall.isQuery] at hapart
  | serve hexchange hservice => exact h.progress (calls_set hexchange)
  | answer hexchange hresponse => exact h.progress (calls_set hexchange)
  | @receive k n call response hexchange =>
    refine h.finish hexchange fun filePath reason response' hcall heq hsuccess => ?_
    obtain rfl := Except.ok.inj heq
    obtain rfl : call = .submitRequest filePath reason := hcall
    obtain ⟨i, older, -, -, id, _, _, _, -, -, -, -, rfl⟩ :=
      (htold.waits _ (List.mem_of_getElem? hexchange)).answers response rfl hsuccess
    exact ⟨id, rfl⟩
  | fail hexchange => exact h.finish hexchange fun _ _ _ _ heq => by contradiction
  | service hservice => exact h.progress (by simp)

/-- Every run in which the ticks come in time. -/
private theorem phase_run (hstart : ∀ id t, s.requests id = some t → t.status = .pending)
    {done : List Event} (hdone : (World.init s).run host done = some w) (h : Phase w)
    (htold : Told host s done w)
    (hapart : ticksApart host events w = true) (hrun : w.run host events = some w') : Phase w' := by
  induction events generalizing done w with
  | nil => exact Option.some.inj hrun ▸ h
  | cons event rest ih =>
    obtain ⟨mid, hstep, hrest⟩ := Option.bind_eq_some_iff.mp hrun
    obtain ⟨hnow, hlater⟩ := Bool.and_eq_true_iff.mp hapart
    rw [hstep, Option.all_some] at hlater
    have hmid : (World.init s).run host (done ++ [event]) = some mid := World.run_snoc hdone hstep
    exact ih hmid (h.step htold hnow hstep) (htold.step hstart hdone hstep) hlater hrest

/-- While every answer comes before the next tick, every request that the form was told was accepted has
one balloon, in this order, apart from the latest as long as it is polled, which has none yet. -/
theorem requests_announced_once (hstart : ∀ id t, s.requests id = some t → t.status = .pending)
    (hrun : (World.init s).run host events = some w)
    (hapart : ticksApart host events (World.init s) = true) :
    (w.form.pollTimer = false ∧ w.accepted = w.announced.map Prod.fst) ∨
      ∃ id, w.form.pollTimer = true ∧ w.form.requestId = some id ∧ w.form.inputsEnabled = false ∧
        w.accepted = id :: w.announced.map Prod.fst := by
  have hinit : Phase (World.init s) := .idle rfl rfl rfl rfl
  cases phase_run hstart rfl hinit told_init hapart hrun with
  | idle _ _ htimer htold => exact Or.inl ⟨htimer, htold⟩
  | submitting _ _ htimer htold => exact Or.inl ⟨htimer, htold⟩
  | waiting _ hinputs htimer hid htold => exact Or.inr ⟨_, htimer, hid, hinputs, htold⟩
  | polling _ hinputs htimer hid htold => exact Or.inr ⟨_, htimer, hid, hinputs, htold⟩

namespace Sample

/-- Two ticks before the denial is answered. The first answer shows the balloon, the user submits again,
and then the second answer comes. -/
def tooLate : List Event :=
  submission 2 (.repeated 1) ++ denial (.repeated 1) ++ [.tick, .tick] ++ query 0 3 ++ query 1 4 ++
    [.receive 0] ++ submission 5 (.repeated 2) ++ [.receive 0]

end Sample

/-- A denied request is announced once. -/
theorem requests_announced_once_sample : ∃ w,
    (World.init Sample.service).run Agent.Sample.verifier Sample.inTime = some w ∧
      w.announced = [(Sample.idText 1, "Denied")] ∧ w.accepted = w.announced.map Prod.fst := by
  obtain ⟨w, hrun, hview⟩ := Sample.run_inTime
  obtain ⟨-, hannounced, -, htimer, -⟩ := Sample.View.mk.inj hview
  refine ⟨w, hrun, hannounced, ?_⟩
  rcases requests_announced_once (fun _ _ ht => by contradiction) hrun (by decide +kernel) with
    ⟨-, htold⟩ | ⟨id, htimer', -⟩
  · exact htold
  · exact absurd (htimer'.symm.trans htimer) (by simp)

/-- An answer that comes after the next tick announces the denied request again and ends the polling of
the next request, which is pending. -/
theorem late_answer_ends_polling : ∃ w,
    (World.init Sample.service).run Agent.Sample.verifier Sample.tooLate = some w ∧
      Sample.view w = ⟨[Sample.idText 2, Sample.idText 1],
        [(Sample.idText 1, "Denied"), (Sample.idText 1, "Denied")], some (Sample.idText 2), false,
        [some .pending, some .denied]⟩ := by
  have hrun : ((World.init Sample.service).run Agent.Sample.verifier Sample.tooLate).map Sample.view =
      some ⟨[Sample.idText 2, Sample.idText 1],
        [(Sample.idText 1, "Denied"), (Sample.idText 1, "Denied")], some (Sample.idText 2), false,
        [some .pending, some .denied]⟩ := by
    decide +kernel
  exact Option.map_eq_some_iff.mp hrun

end ElevateGate.Tray
