import ElevateGate.Tray.RequestForm

/-!
# What the form announces

A balloon is about a request that the user has submitted with the form and that the service has accepted,
and it says what the service knows: there is a reason for its status in what the threads of the service
have done. This holds in every run, however late the answers are.
-/

namespace ElevateGate.Tray

open Interaction Agent

section Calls

variable (host : Host) (s : State) (events : List Event)

/-- The user has clicked when the form had made so many calls. -/
def Clicked (n : Nat) (filePathText reasonText : String) : Prop :=
  ∃ first rest w, events = first ++ .click filePathText reasonText :: rest ∧
    (World.init s).run host first = some w ∧ w.calls = n

/-- A thread of the service was started for the call with a number, and has not been stopped since. -/
def Serving (n : Nat) (call : PipeCall) (i : Tid) (log : Log) : Prop :=
  ∃ first k rest w w' newer, events = first ++ .serve k i :: rest ∧
    (World.init s).run host first = some w ∧ w.exchanges[k]? = some ⟨n, call, .sent⟩ ∧
    w.step host (.serve k i) = some w' ∧ log = newer ++ w'.service.shared.log ∧ Uninterrupted i newer

/-- The form has submitted a request at a click, and the thread that served this call has accepted it. -/
def Submitted (log : Log) (requestId : String) : Prop :=
  ∃ filePathText reasonText n i older response, Clicked host s events n filePathText reasonText ∧
    older <:+ log ∧
    Serving host s events n (.submitRequest (trim filePathText) (trim reasonText)) i older ∧
    response.requestId = some requestId ∧
    Accepted (trim filePathText) (trim reasonText) response (mine i older)

/-- A call that the form may make: it submits what the user has entered, or asks for the status of a
request that was accepted. -/
def Asks (log : Log) (n : Nat) : PipeCall → Prop
  | .submitRequest filePath reason => ∃ filePathText reasonText,
    Clicked host s events n filePathText reasonText ∧ filePath = trim filePathText ∧
      reason = trim reasonText
  | .getStatus requestId => Submitted host s events log requestId

/-- A response to a call that has succeeded. -/
def Answers (log : Log) (response : PipeResponseMessage) (n : Nat) : PipeCall → Prop
  | .submitRequest filePath reason => ∃ i older, older <:+ log ∧
    Serving host s events n (.submitRequest filePath reason) i older ∧
    Accepted filePath reason response (mine i older)
  | .getStatus requestId => ∃ status : RequestStatus,
    response = ⟨true, some requestId, some status.name, none⟩ ∧ Grounded log requestId status

/-- A balloon about a request is about one that was submitted, and there is a reason for its status. -/
def Announces (log : Log) (requestId status : String) : Prop :=
  Submitted host s events log requestId ∧ isTerminalStatus (some status) = true ∧
    ∃ known : RequestStatus, known.name = status ∧ Grounded log requestId known

end Calls

section Growth

variable {host : Host} {s : State} {events events' : List Event} {log log' : Log} {requestId : String}
  {n : Nat}

theorem grounded_mono {status : RequestStatus} (h : Grounded log requestId status)
    (hlog : log <:+ log') : Grounded log' requestId status := by
  obtain ⟨i, older, holder, hshows⟩ := h
  exact ⟨i, older, holder.trans hlog, hshows⟩

theorem Clicked.mono {filePathText reasonText : String}
    (h : Clicked host s events n filePathText reasonText) (hevents : events <+: events') :
    Clicked host s events' n filePathText reasonText := by
  obtain ⟨first, rest, w, rfl, hrun⟩ := h
  obtain ⟨later, rfl⟩ := hevents
  exact ⟨first, rest ++ later, w, by simp, hrun⟩

theorem Serving.mono {call : PipeCall} {i : Tid} (h : Serving host s events n call i log)
    (hevents : events <+: events') : Serving host s events' n call i log := by
  obtain ⟨first, k, rest, w, w', newer, rfl, hserves⟩ := h
  obtain ⟨later, rfl⟩ := hevents
  exact ⟨first, k, rest ++ later, w, w', newer, by simp, hserves⟩

/-- A thread that is not interrupted goes on serving. -/
theorem Serving.append {call : PipeCall} {i : Tid} {newer : Log}
    (h : Serving host s events n call i log) (hnewer : Uninterrupted i newer) :
    Serving host s events n call i (newer ++ log) := by
  obtain ⟨first, k, rest, w, w', since, hevents, hrun, hexchange, hstep, rfl, hsince⟩ := h
  refine ⟨first, k, rest, w, w', newer ++ since, hevents, hrun, hexchange, hstep,
    (List.append_assoc _ _ _).symm, ?_⟩
  exact ⟨fun hmem => (List.mem_append.mp hmem).elim hnewer.1 hsince.1,
    fun hmem => (List.mem_append.mp hmem).elim hnewer.2 hsince.2⟩

theorem Submitted.mono (h : Submitted host s events log requestId) (hevents : events <+: events')
    (hlog : log <:+ log') : Submitted host s events' log' requestId := by
  obtain ⟨filePathText, reasonText, n, i, older, response, hclick, holder, hserving, haccepted⟩ := h
  exact ⟨filePathText, reasonText, n, i, older, response, hclick.mono hevents, holder.trans hlog,
    hserving.mono hevents, haccepted⟩

theorem Asks.mono {call : PipeCall} (h : Asks host s events log n call) (hevents : events <+: events')
    (hlog : log <:+ log') : Asks host s events' log' n call := by
  cases call with
  | submitRequest filePath reason =>
    obtain ⟨filePathText, reasonText, hclick, htexts⟩ := h
    exact ⟨filePathText, reasonText, hclick.mono hevents, htexts⟩
  | getStatus requestId => exact Submitted.mono h hevents hlog

theorem Answers.mono {response : PipeResponseMessage} {call : PipeCall}
    (h : Answers host s events log response n call) (hevents : events <+: events')
    (hlog : log <:+ log') : Answers host s events' log' response n call := by
  cases call with
  | submitRequest filePath reason =>
    obtain ⟨i, older, holder, hserving, haccepted⟩ := h
    exact ⟨i, older, holder.trans hlog, hserving.mono hevents, haccepted⟩
  | getStatus requestId =>
    obtain ⟨status, hresponse, hgrounded⟩ := h
    exact ⟨status, hresponse, grounded_mono hgrounded hlog⟩

theorem Announces.mono {status : String} (h : Announces host s events log requestId status)
    (hevents : events <+: events') (hlog : log <:+ log') :
    Announces host s events' log' requestId status := by
  obtain ⟨hsubmitted, hterminal, known, hname, hgrounded⟩ := h
  exact ⟨hsubmitted.mono hevents hlog, hterminal, known, hname, grounded_mono hgrounded hlog⟩

end Growth

variable {host : Host} {s : State} {events : List Event} {w w' : World}

/-- What holds of a call that the form waits for. -/
structure Waits (host : Host) (s : State) (events : List Event) (service : Configuration)
    (x : Exchange) : Prop where
  asks : Asks host s events service.shared.log x.number x.call
  served : ∀ i, x.progress = .served i →
    (∃ program, service.thread i = some (x.call.served, program)) ∧
      Serving host s events x.number x.call i service.shared.log
  answers : ∀ response, x.progress = .answered response → response.success = true →
    Answers host s events service.shared.log response x.number x.call

/-- More events may have happened. -/
private theorem Waits.later {service : Configuration} {x : Exchange}
    (h : Waits host s events service x) (event : Event) :
    Waits host s (events ++ [event]) service x where
  asks := h.asks.mono (List.prefix_append _ _) (List.suffix_refl _)
  served i hi := ⟨(h.served i hi).1, (h.served i hi).2.mono (List.prefix_append _ _)⟩
  answers response hresponse hsuccess :=
    (h.answers response hresponse hsuccess).mono (List.prefix_append _ _) (List.suffix_refl _)

/-- What the form and the calls that it waits for come from. -/
structure Told (host : Host) (s : State) (events : List Event) (w : World) : Prop where
  service : ∃ labels, ((system host serviceCalls).recorded .free).run labels (System.init ⟨s, []⟩) =
    some w.service
  requestId : ∀ id, w.form.requestId = some id → Submitted host s events w.service.shared.log id
  waits : ∀ x ∈ w.exchanges, Waits host s events w.service x
  accepted : ∀ id ∈ w.accepted, Submitted host s events w.service.shared.log id
  announces : ∀ a ∈ w.announced, Announces host s events w.service.shared.log a.1 a.2
  balloons : w.form.balloons = w.announced.map fun a => notifyOutcome (some a.2)

/-- Before the first event. -/
theorem told_init : Told host s [] (.init s) where
  service := ⟨[], rfl⟩
  requestId _ h := by contradiction
  waits _ h := by contradiction
  accepted _ h := by contradiction
  announces _ h := by contradiction
  balloons := rfl

/-- More events may have happened. -/
private theorem Told.later (h : Told host s events w) (event : Event) :
    Told host s (events ++ [event]) w :=
  have hevents : events <+: events ++ [event] := List.prefix_append _ _
  { h with
    requestId := fun id hid => (h.requestId id hid).mono hevents (List.suffix_refl _)
    waits := fun x hx => (h.waits x hx).later event
    accepted := fun id hid => (h.accepted id hid).mono hevents (List.suffix_refl _)
    announces := fun a ha => (h.announces a ha).mono hevents (List.suffix_refl _) }

/-- The form makes a call. -/
private theorem Told.start (h : Told host s events w) {call : Option PipeCall}
    (hcall : ∀ c, call = some c → Asks host s events w.service.shared.log w.calls c) :
    Told host s events (w.start call) := by
  cases call with
  | none => exact h
  | some call =>
    refine { h with waits := fun x hx => ?_ }
    rcases List.mem_cons.mp hx with rfl | hx
    · exact ⟨hcall call rfl, fun _ hserved => by contradiction, fun _ hanswered => by contradiction⟩
    · exact h.waits x hx

/-- The service takes a step, and the calls get on. -/
private theorem Told.progress (h : Told host s events w) {label : Label Tid Choice Agent.Event Call}
    {service : Configuration} {exchanges : List Exchange}
    (hstep : ((system host serviceCalls).recorded .free).step label w.service = some service)
    (hwaits : w.service.shared.log <:+ service.shared.log →
      ∀ x ∈ exchanges, Waits host s events service x) :
    Told host s events { w with service := service, exchanges := exchanges } := by
  have hlog := log_suffix_run (System.run_step _ hstep)
  obtain ⟨labels, hrun⟩ := h.service
  exact ⟨⟨labels ++ [label], System.run_snoc _ hrun hstep⟩,
    fun id hid => (h.requestId id hid).mono List.prefix_rfl hlog, hwaits hlog,
    fun id hid => (h.accepted id hid).mono List.prefix_rfl hlog,
    fun a ha => (h.announces a ha).mono List.prefix_rfl hlog, h.balloons⟩

/-- A call ends, and what the form takes from it is right. -/
private theorem Told.finish (h : Told host s events w) {k : Nat} {call : PipeCall} {reply : Reply}
    (hrequestId : ∀ id, (w.form.onReply call reply).requestId = some id →
      Submitted host s events w.service.shared.log id)
    (haccepted : ∀ id ∈ World.acceptedBy call reply, Submitted host s events w.service.shared.log id)
    (hannounced : ∀ a ∈ World.announcedBy call reply,
      Announces host s events w.service.shared.log a.1 a.2) :
    Told host s events (w.finish k call reply) where
  service := h.service
  requestId := hrequestId
  waits x hx := h.waits x (List.mem_of_mem_eraseIdx hx)
  accepted id hid := (List.mem_append.mp hid).elim (haccepted id) (h.accepted id)
  announces a ha := (List.mem_append.mp ha).elim (hannounced a) (h.announces a)
  balloons := by
    simp only [World.finish, List.map_append, World.balloons_onReply, h.balloons]

/-- What a thread that serves a call has answered. -/
private theorem answers_of_response (hstart : ∀ id t, s.requests id = some t → t.status = .pending)
    {labels : List (Label Tid Choice Agent.Event Call)} {service : Configuration} {i : Tid}
    {call : PipeCall} {program : Service Answer} {response : PipeResponseMessage} {n : Nat}
    (hrun : ((system host serviceCalls).recorded .free).run labels (System.init ⟨s, []⟩) =
      some service)
    (hthread : service.thread i = some (call.served, program))
    (hserving : Serving host s events n call i service.shared.log)
    (hresponse : World.responseOf service i = some response) (hsuccess : response.success = true) :
    Answers host s events service.shared.log response n call := by
  obtain ⟨hhonoring, hgrounded⟩ := allGrounded_run hstart hrun
  have hended := thread_of_responseOf hthread hresponse
  cases call with
  | submitRequest filePath reason =>
    exact ⟨i, _, List.suffix_refl _, hserving, accepted_of_thread hhonoring hended hsuccess⟩
  | getStatus requestId =>
    obtain ⟨requestId', status, hid, hmessage, hstatus⟩ :=
      grounded_of_thread hhonoring hgrounded hended hsuccess
    obtain rfl := Option.some.inj hid
    exact ⟨status, hmessage, hstatus⟩

/-- A call ends with the response that is in the pipe. -/
private theorem Told.receive (h : Told host s events w) {k n : Nat} {call : PipeCall}
    {response : PipeResponseMessage} (hasks : Asks host s events w.service.shared.log n call)
    (hanswers : response.success = true →
      Answers host s events w.service.shared.log response n call) :
    Told host s events (w.finish k call (.ok response)) := by
  have haccepted : ∀ id ∈ World.acceptedBy call (.ok response),
      Submitted host s events w.service.shared.log id := by
    intro id hid
    cases call with
    | getStatus requestId => contradiction
    | submitRequest filePath reason =>
      cases hsuccess : response.success with
      | false => simp [World.acceptedBy, hsuccess] at hid
      | true =>
        obtain ⟨filePathText, reasonText, hclick, rfl, rfl⟩ := hasks
        obtain ⟨i, older, holder, hserving, haccepted⟩ := hanswers hsuccess
        have hid' : response.requestId = some id := by simpa [World.acceptedBy, hsuccess] using hid
        exact ⟨filePathText, reasonText, n, i, older, response, hclick, holder, hserving, hid',
          haccepted⟩
  refine h.finish (fun id hid => ?_) haccepted fun a ha => ?_
  · exact (World.requestId_onReply hid).elim (h.requestId id) (haccepted id)
  · cases call with
    | submitRequest filePath reason => contradiction
    | getStatus requestId =>
      simp only [World.announcedBy] at ha
      split at ha
      · next hterminal =>
        obtain ⟨hsuccess, hterminal⟩ := Bool.and_eq_true_iff.mp hterminal
        obtain ⟨status, hresponse, hgrounded⟩ := hanswers hsuccess
        obtain rfl := List.mem_singleton.mp ha
        obtain rfl := hresponse
        exact ⟨hasks, hterminal, status, rfl, hgrounded⟩
      · contradiction

/-- A thread of the service keeps serving a call, unless the step stops it. -/
private theorem Waits.after {label : Label Tid Choice Agent.Event Call} {service service' : Configuration}
    (hstep : ((system host serviceCalls).recorded .free).step label service = some service')
    (hlog : service.shared.log <:+ service'.shared.log) {x : Exchange}
    (h : Waits host s events service x) :
    Waits host s events service' { x with progress := World.after label x.progress } where
  asks := h.asks.mono List.prefix_rfl hlog
  served i hi := by
    obtain ⟨hserved, hthread, newer, hnewer, huninterrupted⟩ :=
      served_after hstep (fun hserved => (h.served i hserved).1) hi
    exact ⟨hthread, hnewer ▸ (h.served i hserved).2.append huninterrupted⟩
  answers response hresponse hsuccess :=
    (h.answers response (answered_of_after hresponse) hsuccess).mono List.prefix_rfl hlog

/-- One event. -/
theorem Told.step (hstart : ∀ id t, s.requests id = some t → t.status = .pending)
    (hrun : (World.init s).run host events = some w) (h : Told host s events w) {event : Event}
    (hstep : w.step host event = some w') : Told host s (events ++ [event]) w' := by
  have hlater := h.later event
  cases World.step_steps hstep with
  | @click filePathText reasonText _ =>
    obtain ⟨text, hclicked | hclicked⟩ := w.form.onSubmitClicked_spec filePathText reasonText <;>
      rw [hclicked]
    · exact { hlater with }
    · have hform : Told host s (events ++ [.click filePathText reasonText])
          { w with form := (w.form.setInputsEnabled false).setStatus text } := { hlater with }
      refine hform.start fun call hcall => ?_
      obtain rfl := Option.some.inj hcall
      exact ⟨filePathText, reasonText, ⟨events, [], w, rfl, hrun, rfl⟩, rfl, rfl⟩
  | tick =>
    refine hlater.start fun call hcall => ?_
    obtain ⟨id, hid, rfl⟩ := Option.map_eq_some_iff.mp hcall
    exact hlater.requestId id hid
  | @serve k n i call service hexchange hservice =>
    refine hlater.progress hservice fun hlog x hx => ?_
    rcases List.mem_or_eq_of_mem_set hx with hx | rfl
    · exact (hlater.waits x hx).after hservice hlog
    · refine ⟨(hlater.waits _ (List.mem_of_getElem? hexchange)).asks.mono List.prefix_rfl hlog,
        fun j hj => ?_, fun _ hanswered => by contradiction⟩
      obtain rfl := Progress.served.inj hj
      refine ⟨?_, events, k, [], w, _, [], rfl, hrun, hexchange, hstep, rfl, by simp [Uninterrupted]⟩
      obtain ⟨program, -, rfl⟩ := System.step_spawn _ hservice
      exact ⟨program, Function.update_self _ _ _⟩
  | answer hexchange hresponse =>
    have hwaits := hlater.waits _ (List.mem_of_getElem? hexchange)
    obtain ⟨⟨program, hthread⟩, hserving⟩ := hwaits.served _ rfl
    obtain ⟨labels, hservice⟩ := hlater.service
    refine { hlater with waits := fun x hx => ?_ }
    rcases List.mem_or_eq_of_mem_set hx with hx | rfl
    · exact hlater.waits x hx
    · refine ⟨hwaits.asks, fun _ hserved => by contradiction, fun response' heq hsuccess => ?_⟩
      obtain rfl := Progress.answered.inj heq
      exact answers_of_response hstart hservice hthread hserving hresponse hsuccess
  | receive hexchange =>
    have hwaits := hlater.waits _ (List.mem_of_getElem? hexchange)
    exact hlater.receive hwaits.asks fun hsuccess => hwaits.answers _ rfl hsuccess
  | @fail k text x hexchange =>
    refine hlater.finish (fun id hid => hlater.requestId id ?_) ?_ ?_
    · cases hcall : x.call <;> rw [hcall] at hid <;> exact hid
    · cases hcall : x.call <;> exact fun _ hmem => by contradiction
    · cases hcall : x.call <;> exact fun _ hmem => by contradiction
  | service hservice =>
    refine hlater.progress hservice fun hlog x hx => ?_
    obtain ⟨y, hy, rfl⟩ := List.mem_map.mp hx
    exact (hlater.waits y hy).after hservice hlog

/-- Every run. -/
theorem told_run (hstart : ∀ id t, s.requests id = some t → t.status = .pending)
    {done : List Event} (hdone : (World.init s).run host done = some w) (h : Told host s done w)
    (hrun : w.run host events = some w') : Told host s (done ++ events) w' := by
  induction events generalizing done w with
  | nil =>
    obtain rfl := Option.some.inj hrun
    rwa [List.append_nil]
  | cons event rest ih =>
    obtain ⟨mid, hstep, hrest⟩ := Option.bind_eq_some_iff.mp hrun
    have hmid : (World.init s).run host (done ++ [event]) = some mid := World.run_snoc hdone hstep
    have htold := ih hmid (h.step hstart hdone hstep) hrest
    rwa [List.append_assoc] at htold

/-- Every balloon that the form shows is about a request that was submitted with it and accepted by the
service, and there is a reason for what it says. -/
theorem announcements_justified (hstart : ∀ id t, s.requests id = some t → t.status = .pending)
    (hrun : (World.init s).run host events = some w) :
    w.form.balloons = w.announced.map (fun a => notifyOutcome (some a.2)) ∧
      ∀ a ∈ w.announced, Announces host s events w.service.shared.log a.1 a.2 :=
  have htold := told_run hstart rfl told_init hrun
  ⟨htold.balloons, htold.announces⟩

/-- The denial that is shown is announced for a reason. -/
theorem announcements_justified_sample : ∃ w,
    (World.init Sample.service).run Agent.Sample.verifier Sample.inTime = some w ∧
      Announces Agent.Sample.verifier Sample.service Sample.inTime w.service.shared.log
        (Sample.idText 1) "Denied" ∧
      w.form.balloons = [⟨.warning, "Your request was denied."⟩] := by
  obtain ⟨w, hrun, hview⟩ := Sample.run_inTime
  obtain ⟨-, hannounced, -⟩ := Sample.View.mk.inj hview
  obtain ⟨hballoons, hannounces⟩ :=
    announcements_justified (fun _ _ ht => by contradiction) hrun
  refine ⟨w, hrun, hannounces _ (hannounced ▸ List.mem_singleton_self _), ?_⟩
  rw [hballoons, hannounced]
  decide +kernel

end ElevateGate.Tray
