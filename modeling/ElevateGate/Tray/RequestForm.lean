import ElevateGate.Agent.Loops
import ElevateGate.Agent.Outcomes

/-!
# The request form of the tray

The form submits a request over the pipe of the service, then asks for its status at every tick of its
timer, and shows a balloon when the status is terminal. Its handlers run on one thread, and none of them
waits for another: an answer may arrive after any number of ticks and clicks. The service runs beside
the form, and serves each call on a thread of its own.
-/

namespace ElevateGate.Tray

open Interaction Agent

/-- `string.Trim`. -/
def trim (s : String) : String :=
  let blank := fun c : Char => decide (c.toNat ∈ whiteSpace)
  String.ofList (((s.toList.dropWhile blank).reverse.dropWhile blank).reverse)

/-- `string.Length`, which counts the code units of UTF-16. -/
def length (s : String) : Nat :=
  (s.toList.map fun c => if c.toNat < 0x10000 then 1 else 2).sum

/-- A text in an interpolated string, in which `null` is empty. -/
def interpolated (text : Option String) : String := text.getD ""

/-- What the tray may ask of the service. -/
inductive PipeCall
  | submitRequest (filePath reason : String)
  | getStatus (requestId : String)

namespace PipeCall

/-- The message of `SubmitRequestAsync` and of `GetStatusAsync`. -/
def message : PipeCall → Loops.PipeRequestMessage
  | .submitRequest filePath reason => ⟨.submitRequest, some filePath, some reason, none⟩
  | .getStatus requestId => ⟨.getStatus, none, none, some requestId⟩

/-- The call that serves it. -/
def served : PipeCall → Call
  | .submitRequest filePath reason => .submit (some filePath) (some reason)
  | .getStatus requestId => .getStatus (some requestId)

/-- Whether it asks for a status. -/
def isQuery : PipeCall → Bool
  | .submitRequest _ _ => false
  | .getStatus _ => true

/-- The pipe server dispatches the message to that call. -/
theorem dispatchAsync_message {host : Host} {deserialize : Loops.Deserialize} {line : String}
    (call : PipeCall) (h : deserialize line = some (some call.message)) :
    ∃ program, serve host call.served = Answer.response <$> program ∧
      Loops.NamedPipeServer.dispatchAsync host deserialize line = Loops.service program := by
  rw [Loops.NamedPipeServer.dispatchAsync, h]
  cases call <;> exact ⟨_, rfl, rfl⟩

end PipeCall

/-- `ToolTipIcon`. -/
inductive ToolTipIcon
  | info
  | warning
  | error
  deriving DecidableEq

/-- What `ShowBalloonTip` shows. -/
structure Balloon where
  icon : ToolTipIcon
  text : String
  deriving DecidableEq

/-- `IsTerminalStatus`. -/
def isTerminalStatus (status : Option String) : Bool :=
  status = some RequestStatus.approved.name || status = some RequestStatus.denied.name ||
    status = some RequestStatus.expired.name || status = some RequestStatus.failed.name

/-- A terminal status is the name of one. -/
theorem name_of_isTerminalStatus {status : Option String} (h : isTerminalStatus status = true) :
    ∃ known : RequestStatus, status = some known.name := by
  simp only [isTerminalStatus, Bool.or_eq_true, decide_eq_true_eq] at h
  rcases h with ((h | h) | h) | h <;> exact ⟨_, h⟩

/-- The balloon of `NotifyOutcome`. -/
def notifyOutcome (status : Option String) : Balloon :=
  if status = some RequestStatus.approved.name then
    ⟨.info, "Your request was approved and is running."⟩
  else if status = some RequestStatus.denied.name then ⟨.warning, "Your request was denied."⟩
  else if status = some RequestStatus.expired.name then
    ⟨.warning, "Your request expired before it was decided."⟩
  else ⟨.error, "Your request could not be completed."⟩

/-- What is answered to a call: a response, or the text of an exception. -/
abbrev Reply := Except String PipeResponseMessage

/-- The state of a form. The timer ticks while it is enabled. -/
structure RequestForm where
  requestId : Option String
  pollTimer : Bool
  statusLabel : String
  inputsEnabled : Bool
  balloons : List Balloon

namespace RequestForm

/-- The form when it is opened. -/
def opened : RequestForm := ⟨none, false, "", true, []⟩

/-- `SetStatus`. -/
def setStatus (form : RequestForm) (text : String) : RequestForm := { form with statusLabel := text }

/-- `SetInputsEnabled`. -/
def setInputsEnabled (form : RequestForm) (enabled : Bool) : RequestForm :=
  { form with inputsEnabled := enabled }

/-- `OnSubmitClicked` until the call, with the texts of the two boxes. -/
def onSubmitClicked (form : RequestForm) (filePathText reasonText : String) :
    RequestForm × Option PipeCall :=
  let filePath := trim filePathText
  let reason := trim reasonText
  if isWhiteSpace filePath then (form.setStatus "Please choose a file first.", none)
  else if length reason < 5 then
    (form.setStatus "Please enter a reason (at least 5 characters).", none)
  else ((form.setInputsEnabled false).setStatus "Submitting request...",
    some (.submitRequest filePath reason))

/-- A click submits what was entered, or leaves everything but the label. -/
theorem onSubmitClicked_spec (form : RequestForm) (filePathText reasonText : String) :
    ∃ text, form.onSubmitClicked filePathText reasonText = (form.setStatus text, none) ∨
      form.onSubmitClicked filePathText reasonText = ((form.setInputsEnabled false).setStatus text,
        some (.submitRequest (trim filePathText) (trim reasonText))) := by
  unfold onSubmitClicked
  dsimp only
  split
  · exact ⟨_, Or.inl rfl⟩
  · split
    · exact ⟨_, Or.inl rfl⟩
    · exact ⟨_, Or.inr rfl⟩

/-- `OnSubmitClicked` after the call. -/
def onSubmitted (form : RequestForm) : Reply → RequestForm
  | .error text =>
    (form.setStatus s!"Failed to reach ElevateGate service: {text}").setInputsEnabled true
  | .ok response =>
    if !response.success then
      (form.setStatus s!"Rejected: {interpolated response.errorMessage}").setInputsEnabled true
    else
      { ({ form with requestId := response.requestId }.setStatus
          s!"Status: {interpolated response.status}") with pollTimer := true }

/-- `OnPollTick` until the call. -/
def onPollTick (form : RequestForm) : Option PipeCall := form.requestId.map .getStatus

/-- `OnPollTick` after the call. -/
def onPolled (form : RequestForm) : Reply → RequestForm
  | .error text => form.setStatus s!"Status check failed: {text}"
  | .ok response =>
    if !response.success then
      form.setStatus s!"Status check failed: {interpolated response.errorMessage}"
    else
      let form := form.setStatus s!"Status: {interpolated response.status}"
      if isTerminalStatus response.status then
        { form with pollTimer := false
                    balloons := notifyOutcome response.status :: form.balloons }.setInputsEnabled true
      else form

/-- What follows a call. -/
def onReply (form : RequestForm) : PipeCall → Reply → RequestForm
  | .submitRequest _ _ => form.onSubmitted
  | .getStatus _ => form.onPolled

end RequestForm

/-- How far a call has got: not yet served, served by a thread, given up by the service, or answered
with a response that is in the pipe. -/
inductive Progress
  | sent
  | served (i : Tid)
  | lost
  | answered (response : PipeResponseMessage)

/-- A call that the form waits for, with its number among the calls that the form has made. -/
structure Exchange where
  number : Nat
  call : PipeCall
  progress : Progress

/-- A configuration of the service. -/
abbrev Configuration := Config Op Res ClrException Answer Tid Call Record

/-- A form, the service, and what passes between them. The calls of the form are counted. What the form has
been told is kept: the requests that were accepted, and the balloons that were shown with the request and
the status that they are about, the latest first. -/
structure World where
  service : Configuration
  form : RequestForm
  exchanges : List Exchange
  calls : Nat
  accepted : List String
  announced : List (String × String)

/-- What may happen. The calls that the form waits for are counted from the latest. -/
inductive Event
  /-- The user submits. -/
  | click (filePathText reasonText : String)
  | tick
  /-- A thread of the service begins to serve a call. -/
  | serve (k : Nat) (i : Tid)
  /-- A thread of the service has ended, and its response is written to the pipe. -/
  | answer (k : Nat)
  /-- A call ends with the response that is in the pipe. -/
  | receive (k : Nat)
  /-- A call ends with an exception. -/
  | fail (k : Nat) (text : String)
  /-- Any other step of the service. -/
  | service (label : Label Tid Choice Agent.Event Call)

namespace World

/-- The form is opened beside a service in a state. -/
def init (s : State) : World := ⟨System.init ⟨s, []⟩, .opened, [], 0, [], []⟩

/-- Begin a call, if there is one. -/
def start (w : World) : Option PipeCall → World
  | none => w
  | some call =>
    { w with
      exchanges := ⟨w.calls, call, .sent⟩ :: w.exchanges
      calls := w.calls + 1 }

/-- How far a call has got after a step of the service: what a thread that is stopped was serving is
lost. -/
def after : Label Tid Choice Agent.Event Call → Progress → Progress
  | .kill i, .served j => if j = i then .lost else .served j
  | .reset, .served _ => .lost
  | _, progress => progress

/-- The requests that a form takes for accepted, after a call. -/
def acceptedBy (call : PipeCall) (reply : Reply) : List String :=
  match call, reply with
  | .submitRequest _ _, .ok response => if response.success then response.requestId.toList else []
  | _, _ => []

/-- The balloon that it shows after a call. -/
def announcedBy (call : PipeCall) (reply : Reply) : List (String × String) :=
  match call, reply with
  | .getStatus requestId, .ok response =>
    if response.success && isTerminalStatus response.status then
      [(requestId, response.status.getD "")]
    else []
  | _, _ => []

/-- End a call. -/
def finish (w : World) (k : Nat) (call : PipeCall) (reply : Reply) : World :=
  { w with
    form := w.form.onReply call reply
    exchanges := w.exchanges.eraseIdx k
    accepted := acceptedBy call reply ++ w.accepted
    announced := announcedBy call reply ++ w.announced }

/-- The response of a thread that has ended with one. -/
def responseOf (service : Configuration) (i : Tid) : Option PipeResponseMessage :=
  match service.thread i with
  | some (_, .pure (.response response)) => some response
  | _ => none

/-- Every balloon is about a status that was announced. -/
theorem balloons_onReply (form : RequestForm) (call : PipeCall) (reply : Reply) :
    (form.onReply call reply).balloons =
      (announcedBy call reply).map (fun a => notifyOutcome (some a.2)) ++ form.balloons := by
  cases reply with
  | error text => cases call <;> rfl
  | ok response =>
    cases call with
    | submitRequest filePath reason =>
      cases hsuccess : response.success <;>
        simp [RequestForm.onReply, RequestForm.onSubmitted, hsuccess, announcedBy,
          RequestForm.setStatus, RequestForm.setInputsEnabled]
    | getStatus requestId =>
      cases hsuccess : response.success with
      | false =>
        simp [RequestForm.onReply, RequestForm.onPolled, hsuccess, announcedBy, RequestForm.setStatus]
      | true =>
        cases hterminal : isTerminalStatus response.status with
        | false =>
          simp [RequestForm.onReply, RequestForm.onPolled, hsuccess, hterminal, announcedBy,
            RequestForm.setStatus]
        | true =>
          obtain ⟨known, hknown⟩ := name_of_isTerminalStatus hterminal
          rw [hknown] at hterminal
          simp [RequestForm.onReply, RequestForm.onPolled, hsuccess, hterminal, announcedBy,
            RequestForm.setStatus, RequestForm.setInputsEnabled, hknown]

/-- A form asks for a request that it asked for, or for one that it has just been told of. -/
theorem requestId_onReply {form : RequestForm} {call : PipeCall} {reply : Reply} {id : String}
    (h : (form.onReply call reply).requestId = some id) :
    form.requestId = some id ∨ id ∈ acceptedBy call reply := by
  cases reply with
  | error text => cases call <;> exact Or.inl h
  | ok response =>
    cases call with
    | submitRequest filePath reason =>
      cases hsuccess : response.success <;>
        simp only [RequestForm.onReply, RequestForm.onSubmitted, hsuccess] at h
      · exact Or.inl h
      · exact Or.inr (by simpa [acceptedBy, hsuccess, RequestForm.setStatus] using h)
    | getStatus requestId =>
      refine Or.inl ?_
      simp only [RequestForm.onReply, RequestForm.onPolled] at h
      split at h
      · exact h
      · split at h <;> exact h

variable (host : Host)

/-- One step, or `none` where the event cannot happen. -/
def step : Event → World → Option World
  | .click filePathText reasonText, w =>
    if w.form.inputsEnabled then
      let clicked := w.form.onSubmitClicked filePathText reasonText
      some ({ w with form := clicked.1 }.start clicked.2)
    else none
  | .tick, w => if w.form.pollTimer then some (w.start w.form.onPollTick) else none
  | .serve k i, w =>
    match w.exchanges[k]? with
    | some ⟨n, call, .sent⟩ =>
      (((system host serviceCalls).recorded .free).step (.spawn i call.served) w.service).map
        fun service =>
          { w with service := service, exchanges := w.exchanges.set k ⟨n, call, .served i⟩ }
    | _ => none
  | .answer k, w =>
    match w.exchanges[k]? with
    | some ⟨n, call, .served i⟩ => (responseOf w.service i).map fun response =>
      { w with exchanges := w.exchanges.set k ⟨n, call, .answered response⟩ }
    | _ => none
  | .receive k, w =>
    match w.exchanges[k]? with
    | some ⟨_, call, .answered response⟩ => some (w.finish k call (.ok response))
    | _ => none
  | .fail k text, w => w.exchanges[k]?.map fun x => w.finish k x.call (.error text)
  | .service label, w =>
    (((system host serviceCalls).recorded .free).step label w.service).map fun service =>
      { w with
        service := service
        exchanges := w.exchanges.map fun x => { x with progress := after label x.progress } }

/-- The events of a list in order. -/
def run : List Event → World → Option World
  | [], w => some w
  | event :: rest, w => (w.step host event).bind (run rest)

/-- Two runs, one after the other. -/
theorem run_append (first second : List Event) (w : World) :
    w.run host (first ++ second) = (w.run host first).bind fun w' => w'.run host second := by
  induction first generalizing w with
  | nil => rfl
  | cons event rest ih =>
    simp only [List.cons_append, run, Option.bind_assoc]
    congr 1
    funext w'
    exact ih w'

variable {host} in
/-- A step goes after a run. -/
theorem run_snoc {events : List Event} {event : Event} {w mid w' : World}
    (h : w.run host events = some mid) (h' : mid.step host event = some w') :
    w.run host (events ++ [event]) = some w' := by
  rw [run_append, h, Option.bind_some, run, h']
  rfl

/-- The steps of a world. -/
inductive Steps (w : World) : Event → World → Prop
  | click {filePathText reasonText : String} (henabled : w.form.inputsEnabled = true) :
      Steps w (.click filePathText reasonText)
        ({ w with form := (w.form.onSubmitClicked filePathText reasonText).1 }.start
          (w.form.onSubmitClicked filePathText reasonText).2)
  | tick (hticks : w.form.pollTimer = true) : Steps w .tick (w.start w.form.onPollTick)
  | serve {k n : Nat} {i : Tid} {call : PipeCall} {service : Configuration}
      (hexchange : w.exchanges[k]? = some ⟨n, call, .sent⟩)
      (hservice : ((system host serviceCalls).recorded .free).step (.spawn i call.served) w.service =
        some service) :
      Steps w (.serve k i)
        { w with service := service, exchanges := w.exchanges.set k ⟨n, call, .served i⟩ }
  | answer {k n : Nat} {i : Tid} {call : PipeCall} {response : PipeResponseMessage}
      (hexchange : w.exchanges[k]? = some ⟨n, call, .served i⟩)
      (hresponse : responseOf w.service i = some response) :
      Steps w (.answer k) { w with exchanges := w.exchanges.set k ⟨n, call, .answered response⟩ }
  | receive {k n : Nat} {call : PipeCall} {response : PipeResponseMessage}
      (hexchange : w.exchanges[k]? = some ⟨n, call, .answered response⟩) :
      Steps w (.receive k) (w.finish k call (.ok response))
  | fail {k : Nat} {text : String} {x : Exchange} (hexchange : w.exchanges[k]? = some x) :
      Steps w (.fail k text) (w.finish k x.call (.error text))
  | service {label : Label Tid Choice Agent.Event Call} {service : Configuration}
      (hservice : ((system host serviceCalls).recorded .free).step label w.service = some service) :
      Steps w (.service label)
        { w with
          service := service
          exchanges := w.exchanges.map fun x => { x with progress := after label x.progress } }

variable {host} in
/-- Every step is one of these. -/
theorem step_steps {w w' : World} {event : Event} (h : w.step host event = some w') :
    Steps host w event w' := by
  cases event with
  | click filePathText reasonText =>
    simp only [step] at h
    split at h
    · next henabled => exact Option.some.inj h ▸ .click henabled
    · contradiction
  | tick =>
    simp only [step] at h
    split at h
    · next hticks => exact Option.some.inj h ▸ .tick hticks
    · contradiction
  | serve k i =>
    simp only [step] at h
    split at h
    · next n call hexchange =>
      obtain ⟨service, hservice, rfl⟩ := Option.map_eq_some_iff.mp h
      exact .serve hexchange hservice
    · contradiction
  | answer k =>
    simp only [step] at h
    split at h
    · next n call i hexchange =>
      obtain ⟨response, hresponse, rfl⟩ := Option.map_eq_some_iff.mp h
      exact .answer hexchange hresponse
    · contradiction
  | receive k =>
    simp only [step] at h
    split at h
    · next n call response hexchange => exact Option.some.inj h ▸ .receive hexchange
    · contradiction
  | fail k text =>
    obtain ⟨x, hexchange, rfl⟩ := Option.map_eq_some_iff.mp h
    exact .fail hexchange
  | service label =>
    obtain ⟨service, hservice, rfl⟩ := Option.map_eq_some_iff.mp h
    exact .service hservice

end World

section Threads

variable {host : Host} {service service' : Configuration} {label : Label Tid Choice Agent.Event Call}

/-- A thread keeps serving a call, and is not interrupted, unless the step stops it. -/
theorem served_after
    (hstep : ((system host serviceCalls).recorded .free).step label service = some service')
    {progress : Progress} {call : Call} {i : Tid}
    (h : progress = .served i → ∃ program, service.thread i = some (call, program))
    (hi : World.after label progress = .served i) :
    progress = .served i ∧ (∃ program, service'.thread i = some (call, program)) ∧
      ∃ newer, service'.shared.log = newer ++ service.shared.log ∧ Uninterrupted i newer := by
  have hkept : progress = .served i ∧ label ≠ .kill i ∧ label ≠ .reset := by
    cases label with
    | kill j =>
      cases progress with
      | served k =>
        simp only [World.after] at hi
        split at hi
        · contradiction
        · next hne =>
          obtain rfl := Progress.served.inj hi
          exact ⟨rfl, fun h => hne (Label.kill.inj h).symm, by simp⟩
      | _ => contradiction
    | reset => cases progress <;> contradiction
    | _ => exact ⟨hi, by simp, by simp⟩
  obtain ⟨program, hthread⟩ := h hkept.1
  exact ⟨hkept.1, thread_step_log hstep hthread hkept.2.1 hkept.2.2⟩

/-- A response that is in the pipe was there before the step of the service. -/
theorem answered_of_after {progress : Progress} {response : PipeResponseMessage}
    (h : World.after label progress = .answered response) : progress = .answered response := by
  cases label with
  | kill i =>
    cases progress with
    | served j =>
      simp only [World.after] at h
      split at h <;> contradiction
    | _ => exact h
  | reset => cases progress <;> first | exact h | contradiction
  | _ => exact h

/-- A thread that has a response has ended with it. -/
theorem thread_of_responseOf {i : Tid} {call : Call} {program : Service Answer}
    {response : PipeResponseMessage} (hthread : service.thread i = some (call, program))
    (hresponse : World.responseOf service i = some response) :
    service.thread i = some (call, .pure (.response response)) := by
  unfold World.responseOf at hresponse
  split at hresponse
  · next heq =>
    rw [hthread, Option.some.injEq, Prod.mk.injEq] at heq
    rw [hthread, heq.2, Option.some.inj hresponse]
  · contradiction

end Threads

namespace Sample

open Agent.Sample (verifier submitted)

/-- The service before the first request. -/
def service : State := { submitted with requests := fun _ => none }

/-- The user submits the file, a thread serves the submission, and the form hears of it. -/
def submission (i : Tid) (guid : Uuid) : List Event :=
  [.click " C:\\a.exe" "setup", .serve 0 i, .service (.perform i (.drive .fixed))] ++
    List.replicate 9 (.service (.perform i .unit)) ++ [.service (.perform i (.guid guid))] ++
    List.replicate 6 (.service (.perform i .unit)) ++ [.answer 0, .receive 0]

/-- The worker polls the denial of a request. -/
def denial (guid : Uuid) : List Event :=
  let decision : ApprovalDecision := { requestId := some guid.textN, status := .denied, token := none }
  [.service (.spawn 0 (.pollingWorker 0))] ++ List.replicate 4 (.service (.perform 0 .unit)) ++
    [.service (.perform 0 (.decisions [decision]))] ++ List.replicate 4 (.service (.perform 0 .unit))

/-- A thread serves a query. -/
def query (k : Nat) (i : Tid) : List Event := [.serve k i, .service (.perform i .unit), .answer k]

/-- A request that is denied, polled in time. -/
def inTime : List Event :=
  submission 2 (.repeated 1) ++ denial (.repeated 1) ++ [.tick] ++ query 0 3 ++ [.receive 0]

/-- What can be seen of a world. -/
structure View where
  accepted : List String
  announced : List (String × String)
  requestId : Option String
  pollTimer : Bool
  statuses : List (Option RequestStatus)
  deriving DecidableEq

/-- The view of a world, with the statuses of the requests that were accepted. -/
def view (w : World) : View where
  accepted := w.accepted
  announced := w.announced
  requestId := w.form.requestId
  pollTimer := w.form.pollTimer
  statuses := w.accepted.map fun id => (w.service.shared.state.requests id).map TrackedRequest.status

/-- The text of the identifier of a request. -/
def idText (digit : Nat) : String := (Uuid.repeated digit).textN

theorem run_inTime : ∃ w, (World.init service).run verifier inTime = some w ∧
    view w = ⟨[idText 1], [(idText 1, "Denied")], some (idText 1), false, [some .denied]⟩ := by
  have hrun : ((World.init service).run verifier inTime).map view =
      some ⟨[idText 1], [(idText 1, "Denied")], some (idText 1), false, [some .denied]⟩ := by
    decide +kernel
  exact Option.map_eq_some_iff.mp hrun

end Sample

end ElevateGate.Tray
