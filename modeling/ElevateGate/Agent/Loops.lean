import ElevateGate.Agent.Effects
import ElevateGate.Agent.Validation

/-!
# The loops of the service

`NamedPipeServer` serves one connection after the other, and `ApprovalPollingWorker` polls at every tick.
Both are background services: an exception that leaves their loop stops the host. The operations of the
pipe are added to those of the service, and the machine knows whether the stopping token is cancelled.
-/

namespace ElevateGate.Agent.Loops

open Interaction Time Text

/-- `PipeMessageType`. A number that names no message is read all the same. -/
inductive PipeMessageType
  | submitRequest
  | getStatus
  | other (value : Int)

/-- What the tray sends. -/
structure PipeRequestMessage where
  type : PipeMessageType
  filePath : Option String
  reason : Option String
  requestId : Option String

/-- `JsonSerializer.Deserialize<PipeRequestMessage>`: `none` where it throws a `JsonException`, and
`some none` for the text `null`. -/
abbrev Deserialize := String → Option (Option PipeRequestMessage)

/-- The operations of the two loops. -/
inductive Op
  /-- `stoppingToken.IsCancellationRequested`. -/
  | isCancellationRequested
  /-- `SecuredNamedPipeFactory.CreateServerInstance`. -/
  | createServerStream
  /-- `NamedPipeServerStream.WaitForConnectionAsync`. -/
  | waitForConnection
  /-- `PipeClientValidator.IsAuthorized`, which catches every exception. -/
  | isAuthorized
  /-- `StreamReader.ReadLineAsync`, answered with `none` at the end of the stream. -/
  | readLine
  /-- `StreamWriter.WriteLineAsync`. -/
  | writeLine (response : PipeResponseMessage)
  /-- `StreamWriter.Dispose`, which flushes. -/
  | disposeWriter
  /-- `NamedPipeServerStream.Dispose`. -/
  | disposePipe
  /-- An operation of the service. -/
  | service (o : Agent.Op)

/-- The answer to an operation. -/
@[reducible] def Res : Op → Type
  | .isCancellationRequested => Bool
  | .createServerStream => Throws Unit
  | .waitForConnection => Throws Unit
  | .isAuthorized => Bool
  | .readLine => Throws (Option String)
  | .writeLine _ => Throws Unit
  | .disposeWriter => Throws Unit
  | .disposePipe => Unit
  | .service o => Agent.Res o

/-- What is not determined by the program. -/
inductive Choice
  | base (choice : Agent.Choice)
  /-- A line arrives, or the stream ends. -/
  | line (text : Option String)

/-- The machine of the service, and whether the stopping token is cancelled. -/
structure Hosted where
  state : State
  cancelled : Bool

/-- What happens beside the loops. -/
inductive Event
  /-- The host stops, and cancels the stopping token. -/
  | cancel
  | base (event : Agent.Event)

/-- The program of a loop or of a part of it. -/
abbrev Loop (α : Type) := Program Op Res ClrException α

/-- Perform an operation. -/
def op (o : Op) : Loop (Res o) := Program.op o

/-- Return or throw what an operation has answered. -/
def orThrow {α : Type} (result : Loop (Throws α)) : Loop α := do
  let result ← result
  Program.liftExcept result

/-- Run a part of the service. -/
def service {α : Type} (program : Service α) : Loop α :=
  program.lift .service fun _ answer => answer

namespace ApprovalPollingWorker

variable (host : Host)

/-- The loop of `ExecuteAsync`, until the timer has ticked `ticks` times: whether the worker is still in
it. -/
def cycles (credential : DeviceCredential) : Nat → DateTimeOffset → Service Bool
  | 0, sinceUtc => do
    let _ ← Agent.ApprovalPollingWorker.cycle host credential sinceUtc
    return true
  | ticks + 1, sinceUtc => do
    let sinceUtc ← Agent.ApprovalPollingWorker.cycle host credential sinceUtc
    let again ← Agent.orThrow (Agent.op .waitForNextTick)
    if again then cycles credential ticks sinceUtc else return false

/-- `ExecuteAsync`, for the first `ticks` ticks of the timer. -/
def executeAsync (ticks : Nat) : Service Bool := do
  let credential ← Agent.orThrow (Agent.op .getCredential)
  let sinceUtc ← Agent.ApprovalPollingWorker.setSinceUtc
  cycles host credential ticks sinceUtc

/-- The loop is the worker's. -/
theorem cycles_eq (credential : DeviceCredential) (ticks : Nat) (sinceUtc : DateTimeOffset) :
    (fun _ => ()) <$> cycles host credential ticks sinceUtc =
      Agent.ApprovalPollingWorker.cycles host credential ticks sinceUtc := by
  induction ticks generalizing sinceUtc with
  | zero =>
    rw [cycles, map_bind]
    rfl
  | succ ticks ih =>
    rw [cycles, map_bind]
    refine congrArg _ (funext fun sinceUtc' => ?_)
    rw [map_bind]
    refine congrArg _ (funext fun again => ?_)
    cases again
    · rfl
    · exact ih sinceUtc'

/-- So is what comes before it. -/
theorem executeAsync_eq (ticks : Nat) :
    (fun _ => ()) <$> executeAsync host ticks = Agent.ApprovalPollingWorker.executeAsync host ticks := by
  rw [executeAsync, map_bind]
  refine congrArg _ (funext fun credential => ?_)
  rw [map_bind]
  exact congrArg _ (funext fun sinceUtc => cycles_eq host credential ticks sinceUtc)

end ApprovalPollingWorker

namespace NamedPipeServer

variable (host : Host) (deserialize : Deserialize)

/-- The response to a message that is not served. -/
def refused (errorMessage : String) : PipeResponseMessage where
  success := false
  requestId := none
  status := none
  errorMessage := some errorMessage

/-- `DispatchAsync`. -/
def dispatchAsync (line : String) : Loop PipeResponseMessage :=
  match deserialize line with
  | none => return refused "Malformed request."
  | some none => return refused "Malformed request."
  | some (some request) =>
    match request.type with
    | .submitRequest => service (RequestCoordinator.submitAsync host request.filePath request.reason)
    | .getStatus => service (RequestCoordinator.getStatus request.requestId)
    | .other _ => return refused "Unknown message type."

/-- `HandleConnectionAsync`. -/
def handleConnectionAsync : Loop Unit :=
  Program.finally_ (do
    let line ← orThrow (op .readLine)
    match line with
    | none => return ()
    | some line =>
      let response ← dispatchAsync host deserialize line
      orThrow (op (.writeLine response))) (orThrow (op .disposeWriter))

/-- What is done with a pipe once it is created. -/
def servePipe : Loop Unit := do
  orThrow (op .waitForConnection)
  let authorized ← op .isAuthorized
  if !authorized then return () else handleConnectionAsync host deserialize

/-- The `catch` clauses of `ExecuteAsync`: whether the loop goes on. -/
def catchClauses : ClrException → Loop Bool
  | .operationCanceled _ => return false
  | .io _ => return true
  | error => throw error

/-- One iteration of the loop: whether it goes on. -/
def iteration : Loop Bool := do
  let created ← op .createServerStream
  match created with
  | .error error => catchClauses error
  | .ok () =>
    Program.finally_ (tryCatch (do
        servePipe host deserialize
        return true) catchClauses) (op .disposePipe)

/-- `ExecuteAsync`, for the first `n` iterations: whether the server is still in its loop. -/
def executeAsync : Nat → Loop Bool
  | 0 => return true
  | n + 1 => do
    let cancelled ← op .isCancellationRequested
    if cancelled then return false
    else
      let goesOn ← iteration host deserialize
      if goesOn then executeAsync n else return false

end NamedPipeServer

/-- The timer ends the waiting of the worker. It does so only if the token is cancelled. -/
def interrupts : Agent.Op → Agent.Choice → Bool
  | .waitForNextTick, .no => true
  | .waitForNextTick, .fail _ => true
  | _, _ => false

/-- Perform an operation, or `none` where the choice does not fit it. -/
def perform (host : Host) (i : Tid) : (o : Op) → Choice → Hosted → Option (Res o × Hosted)
  | .isCancellationRequested, .base .unit, s => some (s.cancelled, s)
  | .createServerStream, .base .unit, s => some (.ok (), s)
  | .createServerStream, .base (.fail error), s => some (.error error, s)
  | .waitForConnection, .base .unit, s => some (.ok (), s)
  | .waitForConnection, .base (.fail error), s => some (.error error, s)
  | .isAuthorized, .base .unit, s => some (true, s)
  | .isAuthorized, .base .no, s => some (false, s)
  | .readLine, .line text, s => some (.ok text, s)
  | .readLine, .base (.fail error), s => some (.error error, s)
  | .writeLine _, .base .unit, s => some (.ok (), s)
  | .writeLine _, .base (.fail error), s => some (.error error, s)
  | .disposeWriter, .base .unit, s => some (.ok (), s)
  | .disposeWriter, .base (.fail error), s => some (.error error, s)
  | .disposePipe, .base .unit, s => some ((), s)
  | .service o, .base choice, s =>
    if interrupts o choice && !s.cancelled then none
    else (Agent.perform host i o choice s.state).map fun result =>
      (result.1, { s with state := result.2 })
  | _, _, _ => none

/-- What an event does. -/
def env : Event → Hosted → Option Hosted
  | .cancel, s => some { s with cancelled := true }
  | .base event, s => (Agent.env event s.state).map fun state => { s with state := state }

/-- The two background services. -/
inductive Call
  | approvalPollingWorker (ticks : Nat)
  | namedPipeServer (iterations : Nat)

/-- The worker runs on thread 0, and the pipe server on thread 1. -/
def loops (host : Host) (deserialize : Deserialize) : Tid → Call → Option (Loop Bool)
  | 0, .approvalPollingWorker ticks => some (service (ApprovalPollingWorker.executeAsync host ticks))
  | 1, .namedPipeServer iterations =>
    some (NamedPipeServer.executeAsync host deserialize iterations)
  | _, _ => none

/-- The host. -/
def system (host : Host) (deserialize : Deserialize) :
    System Op Res ClrException Bool Tid Choice Event Call Hosted where
  program := loops host deserialize
  perform := perform host
  env := env
  stop i s := { s with state := s.state.stop i }
  reset s := some { state := s.state.restart, cancelled := false }


/-- A run with its log. -/
abbrev Record := Recorded Op Res Tid Event Hosted

/-- Whether the exception is an `IOException`. -/
def isIO : ClrException → Bool
  | .io _ => true
  | _ => false

/-- The exception that an operation of the service has answered with, unless the code around it catches
every exception. -/
def serviceFailure : (o : Agent.Op) → Agent.Res o → Option ClrException
  | .openRead _, .error error => some error
  | .readAll _, .error error => some error
  | .fileLength _, .error error => some error
  | .getCredential, .error error => some error
  | .record _, .error error => some error
  | _, _ => none

/-- The same of an operation of a loop. -/
def failure : (o : Op) → Res o → Option ClrException
  | .createServerStream, .error error => some error
  | .waitForConnection, .error error => some error
  | .readLine, .error error => some error
  | .writeLine _, .error error => some error
  | .disposeWriter, .error error => some error
  | .service o, answer => serviceFailure o answer
  | _, _ => none

/-- Whether nothing around an operation of the service catches every exception. -/
def exposedService : Agent.Op → Bool
  | .openRead _ => true
  | .readAll _ => true
  | .fileLength _ => true
  | .getCredential => true
  | .record _ => true
  | _ => false

/-- The same of an operation of a loop. -/
def Op.exposed : Op → Bool
  | .createServerStream => true
  | .waitForConnection => true
  | .readLine => true
  | .writeLine _ => true
  | .disposeWriter => true
  | .service o => exposedService o
  | _ => false

/-- The exception that is chosen. -/
def Choice.exception : Choice → Option ClrException
  | .base (.fail error) => some error
  | .base (.failAfter error) => some error
  | _ => none

/-- Whether a thread survives a choice: the worker has its credential, and an exception that nothing
around the operation catches reaches the loop of the server as an `IOException`. -/
def survived : Tid → Op → Choice → Bool
  | 0, .service .getCredential, choice => choice.exception.isNone
  | 0, _, _ => true
  | _ + 1, o, choice => !o.exposed || choice.exception.all isIO

/-- The runs in which the threads survive until the token is cancelled. -/
def bearable : Guard Op Res Tid Choice Event Hosted where
  perform i o choice r := r.state.cancelled || survived i o choice
  env _ _ := true

section Discipline

variable (host : Host) (deserialize : Deserialize)

/-- What stays: a cancelled token is cancelled, and a tracked request is tracked. -/
structure Keeps (r r' : Record) : Prop where
  cancelled : r.state.cancelled = true → r'.state.cancelled = true
  requests : ∀ id t, r.state.state.requests id = some t → ∃ t', r'.state.state.requests id = some t'

/-- A loop is left only if the token is cancelled. -/
def Stays (result : Except ClrException Bool) (r : Record) : Prop :=
  r.state.cancelled = true ∨ result = .ok true

/-- What is thrown is an `IOException`, unless the token is cancelled. -/
def Contained {α : Type} (result : Except ClrException α) (r : Record) : Prop :=
  r.state.cancelled = true ∨ ∀ error, result = .error error → isIO error = true

theorem Keeps.refl (r : Record) : Keeps r r := ⟨fun h => h, fun _ t h => ⟨t, h⟩⟩

theorem Keeps.trans {r r' r'' : Record} (h : Keeps r r') (h' : Keeps r' r'') : Keeps r r'' where
  cancelled hc := h'.cancelled (h.cancelled hc)
  requests id t ht := by
    obtain ⟨t', ht'⟩ := h.requests id t ht
    exact h'.requests id t' ht'

/-- Both loops are left only if the token is cancelled. -/
def discipline : Discipline Tid Call ClrException Bool Record where
  inv _ := True
  rely _ := Keeps
  evolves _ _ := True
  post _ _ := Stays
  rely_refl _ := Keeps.refl
  rely_trans := Keeps.trans
  evolves_refl _ := True.intro
  evolves_trans _ _ := True.intro

/-- The operations of the service as the host performs them. -/
def inner : System Agent.Op Agent.Res ClrException Bool Tid Choice Event Call Record where
  program _ _ := none
  perform i o := ((system host deserialize).recorded bearable).perform i (.service o)
  env := ((system host deserialize).recorded bearable).env
  stop := ((system host deserialize).recorded bearable).stop
  reset := ((system host deserialize).recorded bearable).reset

/-- A part of the service is safe. -/
abbrev Safe {α : Type} (i : Tid) (Q : Except ClrException α → Record → Prop) (program : Service α)
    (r : Record) : Prop :=
  discipline.Safe (inner host deserialize) i Q program r

/-- A loop or a part of it is safe. -/
abbrev SafeLoop {α : Type} (i : Tid) (Q : Except ClrException α → Record → Prop) (program : Loop α)
    (r : Record) : Prop :=
  discipline.Safe ((system host deserialize).recorded bearable) i Q program r

end Discipline

section Steps

variable {host : Host} {deserialize : Deserialize} {i : Tid} {o : Op} {choice : Choice}
  {answer : Res o} {r r' : Record}

/-- An operation of the service is performed on the machine of the service. -/
private theorem perform_service {o : Agent.Op} {answer : Agent.Res o} {h h' : Hosted}
    (hperform : perform host i (.service o) choice h = some (answer, h')) :
    ∃ choice' state, choice = .base choice' ∧ (interrupts o choice' = true → h.cancelled = true) ∧
      Agent.perform host i o choice' h.state = some (answer, state) ∧
      h' = { h with state := state } := by
  cases choice with
  | line text => contradiction
  | base choice =>
    simp only [perform] at hperform
    split at hperform
    · contradiction
    · next hinterrupts =>
      obtain ⟨⟨answer', state⟩, hstate, heq⟩ := Option.map_eq_some_iff.mp hperform
      obtain ⟨rfl, rfl⟩ := Prod.mk.inj heq
      exact ⟨choice, state, rfl, fun h => by simpa [h] using hinterrupts, hstate, rfl⟩

/-- Every other operation leaves the machine. -/
private theorem perform_pipe {h h' : Hosted} (ho : ∀ o', o ≠ .service o')
    (hperform : perform host i o choice h = some (answer, h')) : h' = h := by
  unfold perform at hperform
  split at hperform
  all_goals first
    | exact (Prod.mk.inj (Option.some.inj hperform)).2.symm
    | exact absurd rfl (ho _)
    | contradiction

/-- An operation keeps what stays, and cancels nothing. -/
private theorem keeps_of_perform {h h' : Hosted}
    (hperform : perform host i o choice h = some (answer, h')) :
    h'.cancelled = h.cancelled ∧
      ∀ id t, h.state.requests id = some t → ∃ t', h'.state.requests id = some t' := by
  by_cases ho : ∀ o', o ≠ .service o'
  · rw [perform_pipe ho hperform]
    exact ⟨rfl, fun id t ht => ⟨t, ht⟩⟩
  · obtain ⟨o', ho'⟩ := not_forall.mp ho
    obtain rfl := not_not.mp ho'
    obtain ⟨choice', state, -, -, hstate, rfl⟩ := perform_service hperform
    exact ⟨rfl, fun id t ht => (perform_effect hstate).requests_isSome ht⟩

/-- A fact about a file that cannot be read is answered with an `IOException`. -/
private theorem isIO_of_inspect {α : Type} {state : State} {path : String}
    {fact : List UInt8 → Option α} {error : ClrException}
    (h : state.inspect path fact = .error error) : isIO error = true := by
  unfold State.inspect at h
  split at h
  · contradiction
  · rw [← Except.error.inj h]
    rfl

/-- An exception of an operation of the service was chosen, or is an `IOException`. -/
private theorem exception_of_serviceFailure {o : Agent.Op} {choice : Agent.Choice}
    {answer : Agent.Res o} {s s' : State} {error : ClrException}
    (hfailure : serviceFailure o answer = some error)
    (hperform : Agent.perform host i o choice s = some (answer, s')) :
    exposedService o = true ∧ (choice = .fail error ∨ choice = .failAfter error ∨ isIO error = true) := by
  unfold serviceFailure at hfailure
  split at hfailure
  all_goals first | contradiction | obtain rfl := Option.some.inj hfailure
  all_goals refine ⟨rfl, ?_⟩
  · -- opening a file
    cases choice with
    | unit =>
      simp only [Agent.perform] at hperform
      split at hperform
      · cases (Prod.mk.inj (Option.some.inj hperform)).1
      · rw [← Except.error.inj (Prod.mk.inj (Option.some.inj hperform)).1]
        exact Or.inr (Or.inr rfl)
    | fail error => exact Or.inl (by rw [Except.error.inj (Prod.mk.inj (Option.some.inj hperform)).1])
    | _ => contradiction
  · -- reading it
    cases choice with
    | unit => exact Or.inr (Or.inr (isIO_of_inspect (Prod.mk.inj (Option.some.inj hperform)).1))
    | fail error => exact Or.inl (by rw [Except.error.inj (Prod.mk.inj (Option.some.inj hperform)).1])
    | _ => contradiction
  · -- its length
    cases choice with
    | unit => exact Or.inr (Or.inr (isIO_of_inspect (Prod.mk.inj (Option.some.inj hperform)).1))
    | fail error => exact Or.inl (by rw [Except.error.inj (Prod.mk.inj (Option.some.inj hperform)).1])
    | _ => contradiction
  · -- the credential
    cases choice with
    | unit => cases (Prod.mk.inj (Option.some.inj hperform)).1
    | fail error => exact Or.inl (by rw [Except.error.inj (Prod.mk.inj (Option.some.inj hperform)).1])
    | _ => contradiction
  · -- an event
    cases choice with
    | unit => cases (Prod.mk.inj (Option.some.inj hperform)).1
    | fail error => exact Or.inl (by rw [Except.error.inj (Prod.mk.inj (Option.some.inj hperform)).1])
    | failAfter error =>
      exact Or.inr (Or.inl (by rw [Except.error.inj (Prod.mk.inj (Option.some.inj hperform)).1]))
    | _ => contradiction

/-- An exception of an operation was chosen, or is an `IOException`. -/
private theorem exception_of_failure {h h' : Hosted} {error : ClrException}
    (hfailure : failure o answer = some error)
    (hperform : perform host i o choice h = some (answer, h')) :
    o.exposed = true ∧ (choice.exception = some error ∨ isIO error = true) := by
  cases o with
  | service o =>
    obtain ⟨choice', state, rfl, -, hstate, -⟩ := perform_service hperform
    obtain ⟨hexposed, rfl | rfl | hio⟩ := exception_of_serviceFailure hfailure hstate
    · exact ⟨hexposed, Or.inl rfl⟩
    · exact ⟨hexposed, Or.inl rfl⟩
    · exact ⟨hexposed, Or.inr hio⟩
  | isCancellationRequested | isAuthorized | disposePipe => contradiction
  | createServerStream | waitForConnection | readLine | writeLine | disposeWriter =>
    obtain error' | value := answer
    · obtain rfl := Option.some.inj hfailure
      refine ⟨rfl, Or.inl ?_⟩
      rcases choice with (_ | chosen | _ | _ | _ | _ | _) | text
      all_goals first
        | contradiction
        | exact congrArg some (Except.error.inj (Prod.mk.inj (Option.some.inj hperform)).1)
        | cases (Prod.mk.inj (Option.some.inj hperform)).1
    · contradiction

/-- Beyond thread 0, what nothing catches is an `IOException` until the token is cancelled. -/
private theorem isIO_of_failure
    (h : ((system host deserialize).recorded bearable).perform (i + 1) o choice r = some (answer, r')) :
    r'.state.cancelled = true ∨ ∀ error, failure o answer = some error → isIO error = true := by
  obtain ⟨hguard, hperform, -⟩ := System.recorded_perform h
  obtain hcancelled | hsurvived := (Bool.or_eq_true _ _).mp hguard
  · exact Or.inl ((keeps_of_perform hperform).1.trans hcancelled)
  refine Or.inr fun error hfailure => ?_
  have hexception : o.exposed = true → choice.exception = some error → isIO error = true := by
    intro hexposed hchosen
    simpa [survived, hexposed, hchosen] using hsurvived
  obtain ⟨hexposed, hchosen | hio⟩ := exception_of_failure hfailure hperform
  · exact hexception hexposed hchosen
  · exact hio

/-- A step of the host keeps what stays. -/
private theorem keeps_of_step
    (h : ((system host deserialize).recorded bearable).perform i o choice r = some (answer, r')) :
    Keeps r r' := by
  obtain ⟨-, hperform, -⟩ := System.recorded_perform h
  obtain ⟨hcancelled, hrequests⟩ := keeps_of_perform hperform
  exact ⟨fun hc => hcancelled.trans hc, hrequests⟩

/-- So a thread may take it. -/
private theorem guarantee_of_keeps (h : Keeps r r') : discipline.Guarantee i r r' where
  inv := True.intro
  evolves := True.intro
  rely _ _ := h

end Steps

/-- A system whose operations keep what stays, and throw `IOException`s where nothing catches every
exception. -/
structure Keeping {Op : Type} {Res : Op → Type}
    (sys : System Op Res ClrException Bool Tid Choice Event Call Record)
    (failure : (o : Op) → Res o → Option ClrException) : Prop where
  keeps : ∀ {i o choice r answer r'}, sys.perform i o choice r = some (answer, r') → Keeps r r'
  io : ∀ {i o choice r answer r'}, sys.perform (i + 1) o choice r = some (answer, r') →
    r'.state.cancelled = true ∨ ∀ error, failure o answer = some error → isIO error = true

theorem keeping_host (host : Host) (deserialize : Deserialize) :
    Keeping ((system host deserialize).recorded bearable) failure where
  keeps := keeps_of_step
  io := isIO_of_failure

theorem keeping_inner (host : Host) (deserialize : Deserialize) :
    Keeping (inner host deserialize) serviceFailure where
  keeps := keeps_of_step
  io := isIO_of_failure

theorem Contained.error {α β : Type} {error : ClrException} {r r' : Record}
    (h : Contained (.error error : Except ClrException α) r) (hr : Keeps r r') :
    Contained (.error error : Except ClrException β) r' := by
  obtain hcancelled | hio := h
  · exact Or.inl (hr.cancelled hcancelled)
  · exact Or.inr fun error' heq => hio error' (by rw [Except.error.inj heq])

theorem Contained.stable {α : Type} {result : Except ClrException α} {r r' : Record}
    (h : Contained result r) (hr : Keeps r r') : Contained result r' := by
  obtain hcancelled | hio := h
  · exact Or.inl (hr.cancelled hcancelled)
  · exact Or.inr hio

theorem contained_ok {α : Type} {value : α} {r : Record} : Contained (.ok value) r :=
  Or.inr fun _ heq => by contradiction

namespace Keeping

variable {Op : Type} {Res : Op → Type} {sys : System Op Res ClrException Bool Tid Choice Event Call Record}
  {failure : (o : Op) → Res o → Option ClrException} {i : Tid} {r : Record} {α β : Type}

/-- What is returned is no exception. -/
theorem pure {value : α} : discipline.Safe sys i Contained (.pure value) r :=
  fun _ _ _ => contained_ok

/-- A program keeps what stays, whatever it throws. -/
theorem kept (hsys : Keeping sys failure) (program : Program Op Res ClrException α) :
    discipline.Safe sys i (fun _ r' => Keeps r r') program r := by
  induction program generalizing r with
  | pure value => exact fun _ hr _ => hr
  | throw error => exact fun _ hr _ => hr
  | perform o next ih =>
    intro t ht _ choice answer u hu
    have hkeeps := hsys.keeps hu
    exact ⟨guarantee_of_keeps hkeeps, (ih answer).mono fun _ _ _ h => (ht.trans hkeeps).trans h⟩

/-- Where every exception is caught, none leaves. -/
theorem tryCatch (hsys : Keeping sys failure) {program : Program Op Res ClrException α}
    {handler : ClrException → Program Op Res ClrException α}
    (hhandler : ∀ error r', Keeps r r' → discipline.Safe sys i Contained (handler error) r') :
    discipline.Safe sys i Contained (tryCatch program handler) r :=
  (hsys.kept program).tryCatch (fun _ _ _ _ => contained_ok) fun error r' _ h => hhandler error r' h

/-- After an operation the program goes on. -/
theorem op (hsys : Keeping sys failure) {o : Op} {f : Res o → Program Op Res ClrException α}
    {Q : Except ClrException α → Record → Prop}
    (hf : ∀ answer r', Keeps r r' → discipline.Safe sys i Q (f answer) r') :
    discipline.Safe sys i Q (Program.op o >>= f) r := by
  intro t ht _ choice answer u hu
  have hkeeps := hsys.keeps hu
  exact ⟨guarantee_of_keeps hkeeps, hf answer u (ht.trans hkeeps)⟩

/-- After a part the program goes on, unless an `IOException` leaves it. -/
theorem bind {program : Program Op Res ClrException α} {f : α → Program Op Res ClrException β}
    (h : discipline.Safe sys i Contained program r)
    (hf : ∀ value r', discipline.Safe sys i Contained (f value) r') :
    discipline.Safe sys i Contained (program >>= f) r :=
  h.bind (fun value r' _ _ => hf value r') fun _ r' _ hQ => hQ.error (.refl r')

/-- An operation that throws `IOException`s. -/
theorem attempt (hsys : Keeping sys failure) {o : Op} {f : Res o → Throws α}
    (hf : ∀ answer error, f answer = .error error → failure o answer = some error) :
    discipline.Safe sys (i + 1) Contained
      (Program.op o >>= fun answer => Program.liftExcept (f answer)) r := by
  intro t ht _ choice answer u hu
  refine ⟨guarantee_of_keeps (hsys.keeps hu), ?_⟩
  change discipline.Safe sys (i + 1) Contained (Program.liftExcept (f answer)) u
  have hfailure := hsys.io hu
  cases hanswer : f answer with
  | ok value => exact pure
  | error error =>
    intro t' ht' _
    obtain hcancelled | hio := hfailure
    · exact Or.inl (ht'.cancelled hcancelled)
    · refine Or.inr fun error' heq => ?_
      rw [← Except.error.inj heq]
      exact hio error (hf answer error hanswer)

/-- A cleanup that throws `IOException`s. -/
theorem finally_ (hsys : Keeping sys failure) {program : Program Op Res ClrException α}
    {cleanup : Program Op Res ClrException Unit} (h : discipline.Safe sys i Contained program r)
    (hcleanup : ∀ r', discipline.Safe sys i Contained cleanup r') :
    discipline.Safe sys i Contained (program.finally_ cleanup) r := by
  refine h.finally_ (fun result r' _ hQ => ?_) fun _ _ _ hQ hr _ => hQ.stable hr
  refine ((hcleanup r').and (hsys.kept cleanup)).mono fun final r'' _ hfinal => ?_
  cases final with
  | ok => exact hQ.stable hfinal.2
  | error error => exact hfinal.1.error (.refl r'')

end Keeping

section Parts

variable {host : Host} {deserialize : Deserialize} {i : Tid} {r : Record}

private theorem safe_recordAsync {eventType : AuditEventType}
    {requestId deviceId nonce : Option String} {message : String} :
    Safe host deserialize (i + 1) Contained
      (recordAsync eventType requestId deviceId nonce message) r := by
  refine (keeping_inner host deserialize).op fun now r' _ => ?_
  refine (keeping_inner host deserialize).attempt fun answer error h => ?_
  subst h
  rfl

private theorem safe_validate {rawPath : String} :
    Safe host deserialize i Contained (PathValidator.validate rawPath) r := by
  rw [PathValidator.validate]
  split
  · exact Keeping.pure
  split
  · exact Keeping.pure
  split
  · exact Keeping.pure
  split
  · exact Keeping.pure
  · refine (keeping_inner host deserialize).op fun classification r' _ => ?_
    cases classification <;> exact Keeping.pure

private theorem safe_computeHexAsync {path : String} :
    Safe host deserialize (i + 1) Contained (computeHexAsync host.casing path) r := by
  have hsys := keeping_inner host deserialize
  refine Keeping.bind (hsys.attempt fun answer error h => ?_) fun _ r' => ?_
  · subst h
    rfl
  · refine hsys.finally_ (Keeping.bind (hsys.attempt fun answer error h => ?_) fun _ _ => Keeping.pure)
      fun r'' => hsys.op fun _ _ _ => Keeping.pure
    subst h
    rfl

private theorem safe_readFile {path : String} :
    Safe host deserialize (i + 1) Contained (RequestCoordinator.readFile host path) r := by
  have hsys := keeping_inner host deserialize
  have hinspect : ∀ r', Safe host deserialize (i + 1) Contained
      (WindowsAuthenticodeInspector.inspect path) r' := by
    intro r'
    refine Keeping.bind (hsys.tryCatch fun _ _ _ => Keeping.pure) fun trustStatus _ => ?_
    split
    · exact Keeping.pure
    · exact Keeping.bind (hsys.tryCatch fun _ _ _ => Keeping.pure) fun _ _ => Keeping.pure
  refine Keeping.bind safe_computeHexAsync fun _ _ => ?_
  refine Keeping.bind (hsys.tryCatch fun _ _ _ => Keeping.pure) fun _ _ => ?_
  refine Keeping.bind (hinspect _) fun _ _ => ?_
  refine Keeping.bind (hsys.attempt fun answer error h => ?_) fun _ _ => Keeping.pure
  subst h
  rfl

/-- The status of a tracked request is updated. -/
private theorem safe_updateStatus {requestId : String} {status : RequestStatus} {t : TrackedRequest}
    (h : r.state.state.requests requestId = some t) :
    Safe host deserialize i Contained (RequestStateStore.updateStatus requestId status) r := by
  intro r' hr _ choice answer r'' hperform
  refine ⟨guarantee_of_keeps (keeps_of_step hperform), ?_⟩
  obtain ⟨t', ht'⟩ := hr.requests requestId t h
  obtain ⟨-, hstep, -⟩ := System.recorded_perform hperform
  obtain ⟨choice', state, -, -, hstate, -⟩ := perform_service hstep
  cases choice' with
  | unit =>
    simp only [Agent.perform, ht'] at hstate
    obtain ⟨rfl, -⟩ := Prod.mk.inj (Option.some.inj hstate)
    exact Keeping.pure
  | _ => contradiction

/-- A request is tracked once it is added. -/
private theorem safe_add {α : Type} {requestId : String} {request : TrackedRequest}
    {f : Unit → Service α} (hf : ∀ r', r'.state.state.requests requestId = some request →
      Safe host deserialize i Contained (f ()) r') :
    Safe host deserialize i Contained (RequestStateStore.add requestId request >>= f) r := by
  intro r' _ _ choice answer r'' hperform
  refine ⟨guarantee_of_keeps (keeps_of_step hperform), hf r'' ?_⟩
  obtain ⟨-, hstep, -⟩ := System.recorded_perform hperform
  obtain ⟨choice', state, -, -, hstate, hr''⟩ := perform_service hstep
  cases choice' with
  | unit =>
    obtain ⟨-, rfl⟩ := Prod.mk.inj (Option.some.inj hstate)
    rw [hr'']
    exact Function.update_self _ _ _
  | _ => contradiction

private theorem safe_submitFile {path reason : String} :
    Safe host deserialize (i + 1) Contained (RequestCoordinator.submitFile host path reason) r := by
  have hsys := keeping_inner host deserialize
  refine Keeping.bind (hsys.attempt fun answer error h => ?_) fun credential _ => ?_
  · subst h
    rfl
  refine Keeping.bind safe_readFile fun facts _ => ?_
  refine hsys.op fun guid _ _ => hsys.op fun now _ _ => ?_
  -- the request is tracked before it is sent
  refine safe_add fun r' ht => ?_
  refine Keeping.bind (hsys.tryCatch fun error r'' hr => ?_) fun submitted _ => ?_
  · obtain ⟨t', ht'⟩ := hr.requests _ _ ht
    exact Keeping.bind (safe_updateStatus ht') fun _ _ => Keeping.pure
  · split
    · exact Keeping.pure
    · exact Keeping.bind safe_recordAsync fun _ _ => Keeping.pure

private theorem safe_submitAsync {rawFilePath reason : Option String} :
    Safe host deserialize (i + 1) Contained
      (RequestCoordinator.submitAsync host rawFilePath reason) r := by
  have hsys := keeping_inner host deserialize
  rw [RequestCoordinator.submitAsync]
  split
  · exact Keeping.pure
  split
  · exact Keeping.pure
  refine Keeping.bind safe_validate fun outcome _ => ?_
  cases outcome with
  | invalid rejection => exact Keeping.bind safe_recordAsync fun _ _ => Keeping.pure
  | valid canonicalPath =>
    dsimp only
    split
    · exact Keeping.pure
    refine hsys.op fun found _ _ => ?_
    split
    · exact Keeping.pure
    · exact safe_submitFile

private theorem safe_getStatus {requestId : Option String} :
    Safe host deserialize i Contained (RequestCoordinator.getStatus requestId) r := by
  have hsys := keeping_inner host deserialize
  rw [RequestCoordinator.getStatus]
  split
  · exact Keeping.pure
  · next hgiven =>
    cases requestId with
    | none => exact absurd rfl hgiven
    | some requestId =>
      refine hsys.op fun tracked _ _ => ?_
      cases tracked <;> exact Keeping.pure

end Parts

section Loops

variable {host : Host} {deserialize : Deserialize} {i : Tid} {r : Record}

/-- A part of the service is safe where the host runs it. -/
theorem safe_service {α : Type} {Q : Except ClrException α → Record → Prop} {program : Service α}
    (h : Safe host deserialize i Q program r) : SafeLoop host deserialize i Q (service program) r :=
  Discipline.Safe.lift (f := Op.service) (fun _ choice _ _ _ hperform => ⟨choice, hperform⟩) h

private theorem safe_dispatchAsync {line : String} :
    SafeLoop host deserialize (i + 1) Contained
      (NamedPipeServer.dispatchAsync host deserialize line) r := by
  rw [NamedPipeServer.dispatchAsync]
  split
  · exact Keeping.pure
  · exact Keeping.pure
  split
  · exact safe_service safe_submitAsync
  · exact safe_service safe_getStatus
  · exact Keeping.pure

private theorem safe_handleConnectionAsync :
    SafeLoop host deserialize (i + 1) Contained
      (NamedPipeServer.handleConnectionAsync host deserialize) r := by
  have hsys := keeping_host host deserialize
  refine hsys.finally_ ?_ fun _ => hsys.attempt fun answer error h => ?_
  · refine Keeping.bind (hsys.attempt fun answer error h => ?_) fun line _ => ?_
    · subst h
      rfl
    cases line with
    | none => exact Keeping.pure
    | some line =>
      refine Keeping.bind safe_dispatchAsync fun _ _ => hsys.attempt fun answer error h => ?_
      subst h
      rfl
  · subst h
    rfl

private theorem safe_servePipe :
    SafeLoop host deserialize (i + 1) Contained (NamedPipeServer.servePipe host deserialize) r := by
  have hsys := keeping_host host deserialize
  refine Keeping.bind (hsys.attempt fun answer error h => ?_) fun _ _ => ?_
  · subst h
    rfl
  refine hsys.op fun authorized _ _ => ?_
  split
  · exact Keeping.pure
  · exact safe_handleConnectionAsync

/-- An `IOException` is caught, and the loop goes on. -/
private theorem safe_catchClauses {error : ClrException}
    (h : Contained (.error error : Except ClrException Unit) r) :
    SafeLoop host deserialize i Stays (NamedPipeServer.catchClauses error) r := by
  obtain hcancelled | hio := h
  · unfold NamedPipeServer.catchClauses
    split <;> exact fun _ hr _ => Or.inl (hr.cancelled hcancelled)
  · have hio := hio error rfl
    cases error with
    | io message => exact fun _ _ _ => Or.inr rfl
    | _ => contradiction

private theorem Stays.stable {result : Except ClrException Bool} {r' : Record} (h : Stays result r)
    (hr : Keeps r r') : Stays result r' := by
  obtain hcancelled | hstays := h
  · exact Or.inl (hr.cancelled hcancelled)
  · exact Or.inr hstays

private theorem safe_iteration :
    SafeLoop host deserialize (i + 1) Stays (NamedPipeServer.iteration host deserialize) r := by
  have hsys := keeping_host host deserialize
  intro r' _ _ choice created r'' hperform
  refine ⟨guarantee_of_keeps (keeps_of_step hperform), ?_⟩
  have hcreated := isIO_of_failure hperform
  cases created with
  | error error =>
    refine safe_catchClauses ?_
    obtain hcancelled | hio := hcreated
    · exact Or.inl hcancelled
    · exact Or.inr fun error' heq => hio error' (congrArg some (Except.error.inj heq))
  | ok =>
    refine Discipline.Safe.finally_ (Q := Stays) ?_ ?_ fun _ _ _ h hr _ => h.stable hr
    · refine Discipline.Safe.tryCatch (Q := fun result r => Contained result r ∧
          ∀ value, result = .ok value → value = true) ?_ ?_ ?_
      · refine safe_servePipe.bind (fun _ r' _ _ => ?_) fun _ _ _ h => ?_
        · exact fun _ _ _ => ⟨contained_ok, fun value heq => (Except.ok.inj heq).symm⟩
        · exact ⟨h.error (.refl _), fun _ heq => by contradiction⟩
      · intro value r₃ _ h
        exact Or.inr (by rw [h.2 value rfl])
      · intro error r₃ _ h
        exact safe_catchClauses (h.1.error (.refl _))
    · intro result r₃ _ h r₄ hr _ choice answer r₅ hperform
      have hkeeps := keeps_of_step hperform
      exact ⟨guarantee_of_keeps hkeeps, fun _ hr' _ => h.stable ((hr.trans hkeeps).trans hr')⟩

/-- The server leaves its loop only if the token is cancelled. -/
theorem safe_namedPipeServer {iterations : Nat} : SafeLoop host deserialize (i + 1) Stays
    (NamedPipeServer.executeAsync host deserialize iterations) r := by
  induction iterations generalizing r with
  | zero => exact fun _ _ _ => Or.inr rfl
  | succ n ih =>
    intro r' hr _ choice cancelled r'' hperform
    have hkeeps := keeps_of_step hperform
    refine ⟨guarantee_of_keeps hkeeps, ?_⟩
    have hcancelled : cancelled = true → r'.state.cancelled = true := by
      obtain ⟨-, hstep, -⟩ := System.recorded_perform hperform
      rcases choice with (_ | _ | _ | _ | _ | _ | _) | text
      all_goals first
        | contradiction
        | exact fun h => (Prod.mk.inj (Option.some.inj hstep)).1.trans h
    cases cancelled with
    | true => exact fun _ hr' _ => Or.inl (hr'.cancelled (hkeeps.cancelled (hcancelled rfl)))
    | false =>
      refine safe_iteration.bind (fun goesOn r₃ _ h => ?_) fun _ _ _ h => h
      cases goesOn with
      | true => exact ih
      | false =>
        obtain hcancelled | hstays := h
        · exact fun _ hr' _ => Or.inl (hr'.cancelled hcancelled)
        · exact absurd (Except.ok.inj hstays) (by decide)

/-- A cycle of the worker catches every exception. -/
private theorem safe_cycle {credential : DeviceCredential} {sinceUtc : DateTimeOffset} :
    Safe host deserialize i (fun result _ => ∃ value, result = .ok value)
      (Agent.ApprovalPollingWorker.cycle host credential sinceUtc) r :=
  ((keeping_inner host deserialize).kept _).tryCatch (fun value _ _ _ => ⟨value, rfl⟩)
    fun _ _ _ _ _ _ _ => ⟨_, rfl⟩

private theorem safe_cycles {credential : DeviceCredential} {ticks : Nat} {sinceUtc : DateTimeOffset} :
    Safe host deserialize i Stays (ApprovalPollingWorker.cycles host credential ticks sinceUtc) r := by
  induction ticks generalizing sinceUtc r with
  | zero =>
    refine safe_cycle.bind (fun _ _ _ _ _ _ _ => Or.inr rfl) fun _ _ _ h => ?_
    obtain ⟨_, heq⟩ := h
    contradiction
  | succ n ih =>
    refine safe_cycle.bind (fun sinceUtc' r' _ _ => ?_) fun _ _ _ h => ?_
    · intro r₁ _ _ choice ticked r₂ hperform
      have hkeeps := keeps_of_step hperform
      refine ⟨guarantee_of_keeps hkeeps, ?_⟩
      obtain ⟨-, hstep, -⟩ := System.recorded_perform hperform
      obtain ⟨choice', state, -, hinterrupts, hstate, -⟩ := perform_service hstep
      have hticked : ticked = .ok true ∨ r₂.state.cancelled = true := by
        cases choice' with
        | unit => exact Or.inl (Prod.mk.inj (Option.some.inj hstate)).1.symm
        | no => exact Or.inr (hkeeps.cancelled (hinterrupts rfl))
        | fail error => exact Or.inr (hkeeps.cancelled (hinterrupts rfl))
        | _ => contradiction
      obtain rfl | hcancelled := hticked
      · exact ih
      · -- the token is cancelled, whatever the worker does
        exact ((keeping_inner host deserialize).kept _).mono fun _ _ _ h =>
          Or.inl (h.cancelled hcancelled)
    · obtain ⟨_, heq⟩ := h
      contradiction

/-- The worker leaves its loop only if the token is cancelled. -/
theorem safe_approvalPollingWorker {ticks : Nat} : Safe host deserialize 0 Stays
    (ApprovalPollingWorker.executeAsync host ticks) r := by
  intro r₁ _ _ choice received r₂ hperform
  have hkeeps := keeps_of_step hperform
  refine ⟨guarantee_of_keeps hkeeps, ?_⟩
  obtain ⟨hguard, hstep, -⟩ := System.recorded_perform hperform
  obtain ⟨choice', state, rfl, -, hstate, -⟩ := perform_service hstep
  have hreceived : (∃ credential, received = .ok credential) ∨ r₂.state.cancelled = true := by
    obtain hcancelled | hsurvived := (Bool.or_eq_true _ _).mp hguard
    · exact Or.inr (hkeeps.cancelled hcancelled)
    · cases choice' with
      | unit => exact Or.inl ⟨_, (Prod.mk.inj (Option.some.inj hstate)).1.symm⟩
      | _ => contradiction
  obtain ⟨credential, rfl⟩ | hcancelled := hreceived
  · exact (keeping_inner host deserialize).op fun _ _ _ =>
      (keeping_inner host deserialize).op fun _ _ _ => safe_cycles
  · exact ((keeping_inner host deserialize).kept _).mono fun _ _ _ h => Or.inl (h.cancelled hcancelled)

/-- Both loops are safe. -/
theorem discipline_valid :
    discipline.Valid ((system host deserialize).recorded bearable) where
  entry i call program r hprogram _ := by
    change loops host deserialize i call = some program at hprogram
    unfold loops at hprogram
    split at hprogram
    · rw [← Option.some.inj hprogram]
      exact safe_service safe_approvalPollingWorker
    · rw [← Option.some.inj hprogram]
      exact safe_namedPipeServer
    · contradiction
  stop i r _ := guarantee_of_keeps ⟨fun h => h, fun _ t h => ⟨t, h⟩⟩
  env event r r' henv _ := by
    refine ⟨True.intro, True.intro, fun _ => ?_⟩
    obtain ⟨h, hh, rfl⟩ := Option.map_eq_some_iff.mp henv
    cases event with
    | cancel =>
      obtain rfl := Option.some.inj hh
      exact ⟨fun _ => rfl, fun _ t ht => ⟨t, ht⟩⟩
    | base event =>
      obtain ⟨state, hstate, rfl⟩ := Option.map_eq_some_iff.mp hh
      refine ⟨fun hc => hc, fun id t ht => ⟨t, ?_⟩⟩
      rw [← ht]
      exact congrFun (env_requests hstate) id
  reset _ _ _ _ := ⟨True.intro, True.intro⟩

end Loops

/-- In every run in which, until the token is cancelled, the worker has its credential and what nothing
around an operation of the server catches is an `IOException`, a loop is left only if the token has been
cancelled. -/
theorem loops_survive {host : Host} {deserialize : Deserialize} {s : Hosted}
    {labels : List (Label Tid Choice Event Call)}
    {c : Config Op Res ClrException Bool Tid Call Record}
    (hrun : ((system host deserialize).recorded bearable).run labels (System.init ⟨s, []⟩) = some c) :
    (∀ i call error, c.thread i = some (call, .throw error) → c.shared.state.cancelled = true) ∧
      ∀ i call, c.thread i = some (call, .pure false) → c.shared.state.cancelled = true := by
  obtain ⟨hgood, -⟩ := discipline_valid.run (Discipline.good_init True.intro) hrun
  constructor
  · intro i call error hthread
    obtain hcancelled | hstays := hgood.ended.2 error hthread
    · exact hcancelled
    · contradiction
  · intro i call hthread
    obtain hcancelled | hstays := hgood.ended.1 false hthread
    · exact hcancelled
    · contradiction

namespace Sample

/-- A request for a path that is rejected. -/
def line : String := "\x7b\"Type\":0,\"FilePath\":\"a.exe\",\"Reason\":\"setup\"\x7d"

/-- What the line is read as. -/
def message : PipeRequestMessage where
  type := .submitRequest
  filePath := some "a.exe"
  reason := some "setup"
  requestId := none

/-- The reading of this line. -/
def deserialize : Deserialize := fun text => if text = line then some (some message) else none

/-- The service is up. -/
def started : Hosted where
  state := Agent.Sample.fresh
  cancelled := false

/-- The line arrives, and the audit database answers the event of its rejection with an exception. -/
def rejection (error : ClrException) : List (Label Tid Choice Event Call) :=
  List.replicate 4 (.perform 1 (.base .unit)) ++
    [.perform 1 (.line (some line)), .perform 1 (.base .unit), .perform 1 (.base (.fail error)),
      .perform 1 (.base .unit), .perform 1 (.base .unit)]

/-- The audit database cannot be written to, and the server goes on until the service stops. -/
def stopped : List (Label Tid Choice Event Call) :=
  .spawn 1 (.namedPipeServer 2) :: rejection (.io "There is not enough space on the disk.") ++
    [.env .cancel, .perform 1 (.base .unit)]

/-- The audit database is locked, and the backend cannot be reached when the worker starts. -/
def failing : List (Label Tid Choice Event Call) :=
  .spawn 1 (.namedPipeServer 2) :: rejection (.sqlite "SQLite Error 5: 'database is locked'.") ++
    [.spawn 0 (.approvalPollingWorker 1),
      .perform 0 (.base (.fail (.httpRequest "No such host is known.")))]

/-- How a thread has ended. -/
def ending (c : Config Op Res ClrException Bool Tid Call Record) (i : Tid) :
    Option (Except ClrException Bool) :=
  match c.thread i with
  | some (_, .pure value) => some (.ok value)
  | some (_, .throw error) => some (.error error)
  | _ => none

/-- How the two threads have ended, and whether the token is cancelled. -/
def outcome (c : Config Op Res ClrException Bool Tid Call Record) :
    List (Option (Except ClrException Bool)) × Bool :=
  ([ending c 0, ending c 1], c.shared.state.cancelled)

theorem exists_thread {c : Config Op Res ClrException Bool Tid Call Record} {i : Tid}
    {result : Except ClrException Bool} (h : ending c i = some result) :
    ∃ call, c.thread i = some (call, Program.liftExcept result) := by
  unfold ending at h
  split at h
  · next call value hthread =>
    obtain rfl := Option.some.inj h
    exact ⟨call, hthread⟩
  · next call error hthread =>
    obtain rfl := Option.some.inj h
    exact ⟨call, hthread⟩
  · contradiction

end Sample

/-- The server outlives an `IOException` of the audit log and ends when the service stops. -/
theorem loops_survive_sample : ∃ c call,
    ((system Agent.Sample.verifier Sample.deserialize).recorded bearable).run Sample.stopped
      (System.init ⟨Sample.started, []⟩) = some c ∧
    c.thread 1 = some (call, .pure false) ∧ c.shared.state.cancelled = true := by
  have hrun : (((system Agent.Sample.verifier Sample.deserialize).recorded bearable).run Sample.stopped
      (System.init ⟨Sample.started, []⟩)).map Sample.outcome =
        some ([none, some (.ok false)], true) := by
    decide +kernel
  obtain ⟨c, hc, houtcome⟩ := Option.map_eq_some_iff.mp hrun
  obtain ⟨call, hthread⟩ := Sample.exists_thread
    (show Sample.ending c 1 = some (.ok false) from (List.cons.inj (List.cons.inj
      (Prod.mk.inj houtcome).1).2).1)
  exact ⟨c, call, hc, hthread, (loops_survive hc).2 1 call hthread⟩

/-- A locked audit database ends the server, and an unreachable backend the worker, although nothing has
cancelled the token. -/
theorem loops_left : ∃ c call call' error error',
    ((system Agent.Sample.verifier Sample.deserialize).recorded .free).run Sample.failing
      (System.init ⟨Sample.started, []⟩) = some c ∧
    c.thread 0 = some (call, .throw error) ∧ c.thread 1 = some (call', .throw error') ∧
    c.shared.state.cancelled = false := by
  have hrun : (((system Agent.Sample.verifier Sample.deserialize).recorded .free).run Sample.failing
      (System.init ⟨Sample.started, []⟩)).map Sample.outcome =
        some ([some (.error (.httpRequest "No such host is known.")),
          some (.error (.sqlite "SQLite Error 5: 'database is locked'."))], false) := by
    decide +kernel
  obtain ⟨c, hc, houtcome⟩ := Option.map_eq_some_iff.mp hrun
  obtain ⟨hendings, hcancelled⟩ := Prod.mk.inj houtcome
  obtain ⟨hworker, hrest⟩ := List.cons.inj hendings
  obtain ⟨call, hthread⟩ := Sample.exists_thread hworker
  obtain ⟨call', hthread'⟩ := Sample.exists_thread (List.cons.inj hrest).1
  exact ⟨c, call, call', _, _, hc, hthread, hthread', hcancelled⟩

end ElevateGate.Agent.Loops
