import ElevateGate.Agent.Watermarks
import ElevateGate.Approval.Wire
import ElevateGate.Backend.Polls

/-!
# The worker and the backend

The service of a device and the backend, each with its own threads, over one clock. A poll that the
worker has sent may arrive at the backend, where a session begins to serve it, and what the session
answers may arrive at the worker. Either may be lost. Everything else that the two do, they do at any
time.
-/

namespace ElevateGate

open Interaction Time

/-- The microseconds of an instant are in the range of `datetime`. -/
theorem Time.DateTimeOffset.micros_lt (t : DateTimeOffset) : t.utcTicks / 10 < maxMicros := by
  have hlt := t.utcTicks_lt
  simp only [maxTicks, maxMicros] at hlt ⊢
  omega

/-- The `datetime` at an instant, without what is less than a microsecond. -/
def Time.DateTimeOffset.toDatetime (t : DateTimeOffset) : Datetime := ⟨t.utcTicks / 10, t.micros_lt⟩

namespace Channel

/-- A configuration of the service. -/
abbrev Service := Config Agent.Op Agent.Res ClrException Agent.Answer Agent.Tid Agent.Call Agent.Record

/-- A configuration of the backend. -/
abbrev Server := Backend.Configuration

/-- A step of the service. -/
abbrev ServiceStep := Label Agent.Tid Agent.Choice Agent.Event Agent.Call

/-- A step of the backend. -/
abbrev ServerStep := Label Backend.Sid Backend.Choice Backend.Event Backend.Call

/-- What the two are deployed with, how pydantic writes a decision for `System.Text.Json` to read, and
how a query carries an instant to pydantic. -/
structure Site where
  host : Agent.Host
  deployment : Backend.Deployment
  dates : JsonDates
  queryDates : RequestDates

/-- The arguments of `PollDecisionsAsync`. -/
structure Poll where
  bearerToken : String
  deviceId : String
  sinceUtc : DateTimeOffset

/-- A response that the worker has received: the poll that it answers, the state in which the session
that served the poll listed the decisions, and what the worker has read. -/
structure Delivery where
  poll : Poll
  listed : Backend.State
  decisions : List Agent.ApprovalDecision

/-- The service, the backend, the session that serves the poll for whose response the worker waits, and
the responses that the worker has received, the latest first. -/
structure World where
  agent : Service
  backend : Server
  serving : Option Backend.Sid
  deliveries : List Delivery

/-- What may happen. -/
inductive Event
  /-- A step of the service that takes no response to a poll. -/
  | agent (label : ServiceStep)
  /-- A step of the backend. -/
  | backend (label : ServerStep)
  /-- The poll that the worker has sent arrives, and a session begins to serve it, or is told by the rate
  limiter to refuse it. -/
  | arrive (k : Backend.Sid) (admitted : Bool)
  /-- The response to the poll arrives. -/
  | respond
  /-- Time passes. -/
  | advance (t : DateTimeOffset)

/-- Whether a step is the worker's, or stops it. -/
def ofWorker : ServiceStep → Bool
  | .perform i _ => decide (i = 0)
  | .spawn i _ => decide (i = 0)
  | .kill i => decide (i = 0)
  | .reset => true
  | .env _ => false

/-- Whether a step of the service neither takes a response to a poll nor passes time. -/
def agentOnly : ServiceStep → Bool
  | .perform _ (.decisions _) => false
  | .env (.setClock _) => false
  | _ => true

/-- Whether a step of the backend passes no time. -/
def backendOnly : ServerStep → Bool
  | .env (.advance _) => false
  | _ => true

/-- What a session has answered an agent's poll with. -/
def answerOf (server : Server) (k : Backend.Sid) : Option (List Backend.AgentApprovalDecision) :=
  match server.thread k with
  | some (_, .pure (.agentDecisions list)) => some list
  | _ => none

/-- The poll that the worker has sent, if that is the last thing it did. -/
def asked (agent : Service) : Option Poll :=
  match mine 0 agent.shared.log with
  | ⟨_, .sendPoll bearerToken deviceId sinceUtc, _⟩ :: _ => some ⟨bearerToken, deviceId, sinceUtc⟩
  | _ => none

namespace Site

variable (site : Site)

/-- The service, whose clock never goes back. -/
abbrev service := (Agent.system site.host Agent.serviceCalls).recorded Agent.onward

/-- The backend. -/
abbrev server := (Backend.system site.deployment).recorded .free

/-- The call that a poll is for the backend. -/
def call (poll : Poll) (admitted : Bool) : Option Backend.Call :=
  (site.queryDates.read (site.queryDates.write poll.sinceUtc.toUniversalTime)).map fun since =>
    .agentPollDecisions poll.deviceId (some since) (some poll.bearerToken) admitted

/-- What the agent reads of the decisions that the backend answers. -/
def read (list : List Backend.AgentApprovalDecision) : Option (List Agent.ApprovalDecision) :=
  list.mapM fun decision => Agent.ApprovalDecision.ofJson site.dates (decision.toJson site.dates)

end Site

namespace World

/-- The service and the backend start. -/
def init (a : Agent.State) (s : Backend.State) : World where
  agent := System.init ⟨a, []⟩
  backend := System.init ⟨s, []⟩
  serving := none
  deliveries := []

variable (site : Site)

/-- One step, or `none` where the event cannot happen. -/
def step (w : World) : Event → Option World
  | .agent label =>
    if agentOnly label then
      (site.service.step label w.agent).map fun agent =>
        { w with agent := agent, serving := if ofWorker label then none else w.serving }
    else none
  | .backend label =>
    if backendOnly label then
      (site.server.step label w.backend).map fun backend =>
        -- a session that is stopped does not answer
        { w with backend := backend, serving := w.serving.filter fun k => (backend.thread k).isSome }
    else none
  | .arrive k admitted =>
    if w.serving.isNone then do
      let poll ← asked w.agent
      let call ← site.call poll admitted
      let backend ← site.server.step (.spawn k call) w.backend
      return { w with backend := backend, serving := some k }
    else none
  | .respond => do
    let poll ← asked w.agent
    let k ← w.serving
    let list ← answerOf w.backend k
    let listed ← (Backend.reads (mine k w.backend.shared.log)).head?
    let decisions ← site.read list
    let agent ← site.service.step (.perform 0 (.decisions decisions)) w.agent
    return { w with
      agent := agent
      serving := none
      deliveries := ⟨poll, listed, decisions⟩ :: w.deliveries }
  | .advance t => do
    let agent ← site.service.step (.env (.setClock t)) w.agent
    let backend ← site.server.step (.env (.advance t.toDatetime)) w.backend
    return { w with agent := agent, backend := backend }

/-- Take the steps of a list in order. -/
def run : List Event → World → Option World
  | [], w => some w
  | event :: rest, w => (w.step site event).bind (run rest)

/-- A run of two parts passes through the world between them. -/
theorem run_append (first second : List Event) (w : World) :
    run site (first ++ second) w = (run site first w).bind (run site second) := by
  induction first generalizing w with
  | nil => rfl
  | cons event rest ih =>
    simp only [List.cons_append, run, Option.bind_assoc]
    congr 1
    funext w'
    exact ih w'

/-- The steps of a world. -/
inductive Steps (w : World) : World → Prop
  | agent {label : ServiceStep} {agent : Service} (honly : agentOnly label = true)
      (hstep : site.service.step label w.agent = some agent) :
      Steps w { w with agent := agent, serving := if ofWorker label then none else w.serving }
  | backend {label : ServerStep} {backend : Server}
      (hstep : site.server.step label w.backend = some backend) :
      Steps w { w with
        backend := backend, serving := w.serving.filter fun k => (backend.thread k).isSome }
  | arrive {k : Backend.Sid} {admitted : Bool} {poll : Poll} {call : Backend.Call} {backend : Server}
      (hasked : asked w.agent = some poll) (hcall : site.call poll admitted = some call)
      (hstep : site.server.step (.spawn k call) w.backend = some backend) :
      Steps w { w with backend := backend, serving := some k }
  | respond {poll : Poll} {k : Backend.Sid} {list : List Backend.AgentApprovalDecision}
      {listed : Backend.State} {decisions : List Agent.ApprovalDecision} {agent : Service}
      (hasked : asked w.agent = some poll) (hserving : w.serving = some k)
      (hanswer : answerOf w.backend k = some list)
      (hlisted : (Backend.reads (mine k w.backend.shared.log)).head? = some listed)
      (hread : site.read list = some decisions)
      (hstep : site.service.step (.perform 0 (.decisions decisions)) w.agent = some agent) :
      Steps w { w with
        agent := agent, serving := none, deliveries := ⟨poll, listed, decisions⟩ :: w.deliveries }
  | advance {t : DateTimeOffset} {agent : Service} {backend : Server}
      (hagent : site.service.step (.env (.setClock t)) w.agent = some agent)
      (hbackend : site.server.step (.env (.advance t.toDatetime)) w.backend = some backend) :
      Steps w { w with agent := agent, backend := backend }

variable {site}

/-- Every step is one of these. -/
theorem step_steps {w w' : World} {event : Event} (h : w.step site event = some w') :
    Steps site w w' := by
  cases event with
  | agent label =>
    simp only [step] at h
    split at h
    · next honly =>
      obtain ⟨agent, hstep, rfl⟩ := Option.map_eq_some_iff.mp h
      exact .agent honly hstep
    · contradiction
  | backend label =>
    simp only [step] at h
    split at h
    · obtain ⟨backend, hstep, rfl⟩ := Option.map_eq_some_iff.mp h
      exact .backend hstep
    · contradiction
  | arrive k admitted =>
    simp only [step] at h
    split at h
    · obtain ⟨poll, hasked, h⟩ := Option.bind_eq_some_iff.mp h
      obtain ⟨call, hcall, h⟩ := Option.bind_eq_some_iff.mp h
      obtain ⟨backend, hstep, h⟩ := Option.bind_eq_some_iff.mp h
      obtain rfl := Option.some.inj h
      exact .arrive hasked hcall hstep
    · contradiction
  | respond =>
    obtain ⟨poll, hasked, h⟩ := Option.bind_eq_some_iff.mp h
    obtain ⟨k, hserving, h⟩ := Option.bind_eq_some_iff.mp h
    obtain ⟨list, hanswer, h⟩ := Option.bind_eq_some_iff.mp h
    obtain ⟨listed, hlisted, h⟩ := Option.bind_eq_some_iff.mp h
    obtain ⟨decisions, hread, h⟩ := Option.bind_eq_some_iff.mp h
    obtain ⟨agent, hstep, h⟩ := Option.bind_eq_some_iff.mp h
    obtain rfl := Option.some.inj h
    exact .respond hasked hserving hanswer hlisted hread hstep
  | advance t =>
    obtain ⟨agent, hagent, h⟩ := Option.bind_eq_some_iff.mp h
    obtain ⟨backend, hbackend, h⟩ := Option.bind_eq_some_iff.mp h
    obtain rfl := Option.some.inj h
    exact .advance hagent hbackend

end World

end Channel

end ElevateGate
