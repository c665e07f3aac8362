import ElevateGate.Backend.Endpoints
import Mathlib.Data.Finset.Basic

/-!
# The dashboard's provider of pending requests

`PendingRequestsProvider` polls the pending requests and compares each answer with the one before it:
it shows a toast for every request that the last answer did not list, and highlights these requests
until a timer fires. Its effect runs when the data changes, after the cleanup of the run before.
-/

namespace ElevateGate.Dashboard

open Backend

deriving instance DecidableEq for ElevationRequestRead

/-- The answer of a poll. -/
structure ElevationRequestList where
  items : List ElevationRequestRead
  total : Nat
  deriving DecidableEq

/-- `HIGHLIGHT_DURATION_MS`. -/
def highlightDurationMs : Nat := 12000

/-- The `request_uuid` of an item. -/
def requestUuid (item : ElevationRequestRead) : Uuid := item.request.requestUuid

/-- The identifiers of some items. -/
def idsOf (items : List ElevationRequestRead) : Finset Uuid := (items.map requestUuid).toFinset

/-- A toast, with the request that it is about and the time at which it was shown. -/
structure Toast where
  about : Uuid
  shownAt : Nat
  title : String
  description : String
  deriving DecidableEq

/-- The toast for a request that has arrived. -/
def toastFor (time : Nat) (item : ElevationRequestRead) : Toast where
  about := requestUuid item
  shownAt := time
  title := "New elevation request"
  description := item.request.username.getD "Someone" ++ " wants to run " ++ item.request.filename ++
    " on device #" ++ toString item.request.deviceId ++ "."

/-- A timer that will end the highlights of some requests. -/
structure Timer where
  due : Nat
  ids : Finset Uuid
  deriving DecidableEq

/-- The state of the provider: the query's data, what its effect remembers, the highlighted requests,
the timer of the last run of the effect, and the toasts that were shown. -/
structure Provider where
  clock : Nat
  data : Option ElevationRequestList
  seenIds : Option (Finset Uuid)
  newRequestIds : Finset Uuid
  timer : Option Timer
  toasts : List Toast
  deriving DecidableEq

/-- What happens to the provider while it is mounted. -/
inductive Event
  /-- Time passes. -/
  | wait (ms : Nat)
  /-- The timer fires. -/
  | fire
  /-- A poll is answered. -/
  | receive (data : ElevationRequestList)

namespace Provider

/-- The provider when it is mounted. -/
def mounted : Provider where
  clock := 0
  data := none
  seenIds := none
  newRequestIds := ∅
  timer := none
  toasts := []

/-- The items that the last answer did not list. -/
def freshlyArrived (p : Provider) (data : ElevationRequestList) : List ElevationRequestRead :=
  match p.seenIds with
  | none => []
  | some previouslySeen => data.items.filter fun item => requestUuid item ∉ previouslySeen

/-- Run the effect on new data. The first answer is only remembered. -/
def effect (p : Provider) (data : ElevationRequestList) : Provider :=
  let fresh := p.freshlyArrived data
  let p := { p with seenIds := some (idsOf data.items) }
  if fresh = [] then p
  else
    { p with
      toasts := p.toasts ++ fresh.map (toastFor p.clock)
      newRequestIds := p.newRequestIds ∪ idsOf fresh
      timer := some ⟨p.clock + highlightDurationMs, idsOf fresh⟩ }

/-- Receive an answer. Where it is like the last one, the query keeps its data; otherwise the cleanup
of the last run of the effect clears its timer, and the effect runs again. -/
def receive (p : Provider) (data : ElevationRequestList) : Provider :=
  if p.data = some data then p else effect { p with data := some data, timer := none } data

/-- One event, or `none` where it cannot happen: time does not pass a timer, and a timer fires when it
is due. -/
def step : Event → Provider → Option Provider
  | .wait ms, p =>
    if p.timer.all fun timer => decide (p.clock + ms ≤ timer.due) then
      some { p with clock := p.clock + ms }
    else none
  | .fire, p =>
    match p.timer with
    | some timer =>
      if timer.due ≤ p.clock then
        some { p with newRequestIds := p.newRequestIds \ timer.ids, timer := none }
      else none
    | none => none
  | .receive data, p => some (p.receive data)

/-- Let events happen one after the other. -/
def run : List Event → Provider → Option Provider
  | [], p => some p
  | event :: rest, p => (step event p).bind (run rest)

section Answers

variable {p : Provider} {data : ElevationRequestList} {item : ElevationRequestRead} {u : Uuid}

@[simp] theorem mem_idsOf {items : List ElevationRequestRead} :
    u ∈ idsOf items ↔ ∃ item ∈ items, requestUuid item = u := by
  simp [idsOf]

/-- Data that does not change is not processed again. -/
theorem receive_same (h : p.data = some data) : p.receive data = p := if_pos h

/-- Without new requests the effect only remembers the answer. -/
theorem receive_quiet (h : p.data ≠ some data) (hfresh : p.freshlyArrived data = []) :
    p.receive data =
      { p with data := some data, timer := none, seenIds := some (idsOf data.items) } := by
  rw [receive, if_neg h]
  exact if_pos hfresh

/-- New requests are announced and highlighted. -/
theorem receive_fresh (h : p.data ≠ some data) (hfresh : p.freshlyArrived data ≠ []) :
    p.receive data =
      { p with
        data := some data
        seenIds := some (idsOf data.items)
        toasts := p.toasts ++ (p.freshlyArrived data).map (toastFor p.clock)
        newRequestIds := p.newRequestIds ∪ idsOf (p.freshlyArrived data)
        timer := some ⟨p.clock + highlightDurationMs, idsOf (p.freshlyArrived data)⟩ } := by
  rw [receive, if_neg h]
  exact if_neg hfresh

/-- An item is new if the last answer did not list it. -/
theorem mem_freshlyArrived {previouslySeen : Finset Uuid} (h : p.seenIds = some previouslySeen) :
    item ∈ p.freshlyArrived data ↔ item ∈ data.items ∧ requestUuid item ∉ previouslySeen := by
  simp [freshlyArrived, h]

/-- Nothing is new in the first answer. -/
theorem freshlyArrived_first (h : p.seenIds = none) : p.freshlyArrived data = [] := by
  simp [freshlyArrived, h]

/-- A run of two parts passes through the provider between them. -/
theorem run_append (first second : List Event) (p : Provider) :
    run (first ++ second) p = (run first p).bind (run second) := by
  induction first generalizing p with
  | nil => rfl
  | cons event rest ih =>
    simp only [List.cons_append, run, Option.bind_assoc]
    congr 1
    funext p'
    exact ih p'

end Answers

end Provider

end ElevateGate.Dashboard
