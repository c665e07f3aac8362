import ElevateGate.Agent.Restarts
import ElevateGate.Tray.Announcements

/-!
# A restart of the service

The form does not notice that the service has restarted. It goes on asking for the status of its request,
which the service has forgotten, takes every answer for a failed check, and never enables its inputs
again.
-/

namespace ElevateGate.Tray

open Interaction Agent

variable {host : Host} {s : State} {events events' : List Event} {w w' w'' : World} {id : String}

/-- A query of the status of a request, to which no response that has succeeded is in the pipe. -/
structure Unanswered (id : String) (service : Configuration) (x : Exchange) : Prop where
  call : x.call = .getStatus id
  served : ∀ i, x.progress = .served i → ∃ program, service.thread i = some (x.call.served, program)
  failed : ∀ response, x.progress = .answered response → response.success = false

/-- A form that polls a request, and has shown no balloon since. -/
structure Stuck (host : Host) (first : Configuration) (announced : List (String × String)) (id : String)
    (w : World) : Prop where
  service : ∃ labels, ((system host serviceCalls).recorded .free).run labels first = some w.service
  timer : w.form.pollTimer = true
  inputs : w.form.inputsEnabled = false
  requestId : w.form.requestId = some id
  announced : w.announced = announced
  unanswered : ∀ x ∈ w.exchanges, Unanswered id w.service x

variable {first : Configuration} {announced : List (String × String)}

/-- The service takes a step. -/
private theorem Stuck.progress (h : Stuck host first announced id w)
    {label : Label Tid Choice Agent.Event Call} {service : Configuration} {exchanges : List Exchange}
    (hstep : ((system host serviceCalls).recorded .free).step label w.service = some service)
    (hunanswered : ∀ x ∈ exchanges, Unanswered id service x) :
    Stuck host first announced id { w with service := service, exchanges := exchanges } := by
  obtain ⟨labels, hrun⟩ := h.service
  exact { h with
    service := ⟨labels ++ [label], System.run_snoc _ hrun hstep⟩
    unanswered := hunanswered }

/-- A query ends without a status. -/
private theorem Stuck.finish (h : Stuck host first announced id w) {k : Nat} {reply : Reply}
    (hreply : ∀ response, reply = .ok response → response.success = false) :
    Stuck host first announced id (w.finish k (.getStatus id) reply) := by
  have hremaining : ∀ x ∈ (w.finish k (.getStatus id) reply).exchanges,
      Unanswered id (w.finish k (.getStatus id) reply).service x := fun x hx =>
    h.unanswered x (List.mem_of_mem_eraseIdx hx)
  cases reply with
  | error text => exact ⟨h.service, h.timer, h.inputs, h.requestId, h.announced, hremaining⟩
  | ok response =>
    have hfailed := hreply response rfl
    refine ⟨h.service, ?_, ?_, ?_, ?_, hremaining⟩ <;>
      simp [World.finish, RequestForm.onReply, RequestForm.onPolled, RequestForm.setStatus,
        World.announcedBy, hfailed, h.timer, h.inputs, h.requestId, h.announced]

/-- A query stays unanswered in a step of the service. -/
private theorem Unanswered.after {label : Label Tid Choice Agent.Event Call}
    {service service' : Configuration}
    (hstep : ((system host serviceCalls).recorded .free).step label service = some service')
    {x : Exchange} (h : Unanswered id service x) :
    Unanswered id service' { x with progress := World.after label x.progress } where
  call := h.call
  served i hi := (served_after hstep (h.served i) hi).2.1
  failed response hresponse := h.failed response (answered_of_after hresponse)

/-- One event. -/
private theorem Stuck.step (hforgotten : Forgotten host.casing id first.shared)
    (hthreads : ∀ i, first.thread i = none) (h : Stuck host first announced id w) {event : Event}
    (hstep : w.step host event = some w') : Stuck host first announced id w' := by
  cases World.step_steps hstep with
  | click henabled => exact absurd (henabled.symm.trans h.inputs) (by simp)
  | tick hticks =>
    have hcall : w.form.onPollTick = some (.getStatus id) := by
      simp [RequestForm.onPollTick, h.requestId]
    rw [hcall]
    refine ⟨h.service, h.timer, h.inputs, h.requestId, h.announced, fun x hx => ?_⟩
    rcases List.mem_cons.mp hx with rfl | hx
    · exact ⟨rfl, fun _ hserved => by contradiction, fun _ hanswered => by contradiction⟩
    · exact h.unanswered x hx
  | serve hexchange hservice =>
    refine h.progress hservice fun x hx => ?_
    rcases List.mem_or_eq_of_mem_set hx with hx | rfl
    · exact (h.unanswered x hx).after hservice
    · refine ⟨(h.unanswered _ (List.mem_of_getElem? hexchange)).call, fun j hj => ?_,
        fun _ hanswered => by contradiction⟩
      obtain rfl := Progress.served.inj hj
      obtain ⟨program, -, rfl⟩ := System.step_spawn _ hservice
      exact ⟨program, Function.update_self _ _ _⟩
  | @answer k n i call response hexchange hresponse =>
    have hcall := h.unanswered _ (List.mem_of_getElem? hexchange)
    refine { h with unanswered := fun x hx => ?_ }
    rcases List.mem_or_eq_of_mem_set hx with hx | rfl
    · exact h.unanswered x hx
    · refine ⟨hcall.call, fun _ hserved => by contradiction, fun response' heq => ?_⟩
      obtain rfl := Progress.answered.inj heq
      obtain ⟨labels, hrun⟩ := h.service
      obtain ⟨program, hthread⟩ := hcall.served i rfl
      have hended := thread_of_responseOf hthread hresponse
      obtain rfl : call = .getStatus id := hcall.call
      exact (forgotten_run hforgotten hthreads hrun).2 i _ hended
  | @receive k n call response hexchange =>
    have hcall := h.unanswered _ (List.mem_of_getElem? hexchange)
    obtain rfl : call = .getStatus id := hcall.call
    refine h.finish fun response' heq => ?_
    obtain rfl := Except.ok.inj heq
    exact hcall.failed response rfl
  | @fail k text x hexchange =>
    rw [(h.unanswered x (List.mem_of_getElem? hexchange)).call]
    exact h.finish fun _ heq => by contradiction
  | service hservice =>
    refine h.progress hservice fun x hx => ?_
    obtain ⟨y, hy, rfl⟩ := List.mem_map.mp hx
    exact (h.unanswered y hy).after hservice

/-- Every run from a restart. -/
private theorem stuck_run (hforgotten : Forgotten host.casing id first.shared)
    (hthreads : ∀ i, first.thread i = none) (h : Stuck host first announced id w)
    (hrun : w.run host events = some w') : Stuck host first announced id w' := by
  induction events generalizing w with
  | nil => exact Option.some.inj hrun ▸ h
  | cons event rest ih =>
    obtain ⟨mid, hstep, hrest⟩ := Option.bind_eq_some_iff.mp hrun
    exact ih (h.step hforgotten hthreads hstep) hrest

/-- A request that the form has submitted is tracked under its identifier. -/
theorem trackedAs_of_submitted {log : Log} (h : Submitted host s events log id) :
    ∃ path, TrackedAs log id path := by
  obtain ⟨filePathText, reasonText, n, i, older, response, -, holder, -, hid, haccepted⟩ := h
  obtain ⟨requestId, before, before', t, hset, -, -, -, rfl⟩ := haccepted
  obtain rfl := Option.some.inj hid
  exact ⟨_, i, before, t, (), holder.subset (mem_log_of_mem_mine hset), rfl⟩

/-- If the service restarts while the form polls a request, its inputs are disabled, it waits for nothing
but the status of this request, and no response is in the pipe, then the form polls for ever. Whatever
happens later, its timer ticks, its inputs stay disabled, and it shows no balloon; the service does not
know the request, and no query of its status has succeeded, the form's own included. -/
theorem restart_unnoticed (hstart : ∀ id, s.requests id = none)
    (hrun : (World.init s).run host events = some w) (htimer : w.form.pollTimer = true)
    (hinputs : w.form.inputsEnabled = false) (hid : w.form.requestId = some id)
    (hqueries : ∀ x ∈ w.exchanges, x.call = .getStatus id)
    (hpipe : ∀ x ∈ w.exchanges, ∀ response, x.progress ≠ .answered response)
    (hrestart : w.step host (.service .reset) = some w') (hrun' : w'.run host events' = some w'') :
    (w''.form.pollTimer = true ∧ w''.form.inputsEnabled = false ∧ w''.form.requestId = some id ∧
        w''.announced = w.announced) ∧
      w''.service.shared.state.requests id = none ∧
      (∀ i message, w''.service.thread i = some (.getStatus (some id), .pure (.response message)) →
        message.success = false) ∧
      ∀ x ∈ w''.exchanges, x.call = .getStatus id ∧
        ∀ response, x.progress = .answered response → response.success = false := by
  have htold := told_run (fun id t ht => absurd (ht.symm.trans (hstart id)) (by simp)) rfl told_init hrun
  obtain ⟨labels, hservice⟩ := htold.service
  obtain ⟨-, hsourced⟩ :=
    recorded_run follows_traced preserved_sourced (obedient_init _) (sourced_nil hstart) hservice
  obtain ⟨path, htracked⟩ := trackedAs_of_submitted (htold.requestId id hid)
  rw [World.step] at hrestart
  obtain ⟨service, hreset, rfl⟩ := Option.map_eq_some_iff.mp hrestart
  obtain ⟨hforgotten, hthreads⟩ := forgotten_reset hsourced htracked hreset
  have hstuck : Stuck host service w.announced id { w with
      service := service
      exchanges := w.exchanges.map fun x => { x with progress := World.after .reset x.progress } } := by
    refine ⟨⟨[], rfl⟩, htimer, hinputs, hid, rfl, fun x hx => ?_⟩
    obtain ⟨y, hy, rfl⟩ := List.mem_map.mp hx
    refine ⟨hqueries y hy, fun i hi => ?_, fun response hresponse => ?_⟩
    · cases hprogress : y.progress <;> simp [World.after, hprogress] at hi
    · exact absurd (answered_of_after hresponse) (hpipe y hy response)
  have hstuck' := stuck_run hforgotten hthreads hstuck hrun'
  obtain ⟨labels', hservice'⟩ := hstuck'.service
  obtain ⟨hunknown, hqueried⟩ := restart_forgets hstart hservice htracked hreset hservice'
  exact ⟨⟨hstuck'.timer, hstuck'.inputs, hstuck'.requestId, hstuck'.announced⟩, hunknown, hqueried,
    fun x hx => ⟨(hstuck'.unanswered x hx).call, (hstuck'.unanswered x hx).failed⟩⟩

namespace Sample

open Agent.Sample (verifier)

/-- The form polls after the restart. -/
def polled : List Event := .tick :: query 0 3 ++ [.receive 0]

theorem run_restarted : ∃ w w' w'',
    (World.init service).run verifier (submission 2 (.repeated 1)) = some w ∧
    w.step verifier (.service .reset) = some w' ∧ w'.run verifier polled = some w'' ∧
    w.form.pollTimer = true ∧ w.form.inputsEnabled = false ∧ w.form.requestId = some (idText 1) ∧
    w.exchanges = [] ∧ w''.form.statusLabel = "Status check failed: Unknown request id." := by
  have hrun : (((World.init service).run verifier (submission 2 (.repeated 1))).bind fun w =>
      (w.step verifier (.service .reset)).bind fun w' => (w'.run verifier polled).map fun w'' =>
        (w.form.pollTimer, w.form.inputsEnabled, w.form.requestId, w.exchanges.isEmpty,
          w''.form.statusLabel)) =
      some (true, false, some (idText 1), true, "Status check failed: Unknown request id.") := by
    decide +kernel
  obtain ⟨w, hw, hrun⟩ := Option.bind_eq_some_iff.mp hrun
  obtain ⟨w', hw', hrun⟩ := Option.bind_eq_some_iff.mp hrun
  obtain ⟨w'', hw'', hseen⟩ := Option.map_eq_some_iff.mp hrun
  simp only [Prod.mk.injEq] at hseen
  obtain ⟨htimer, hinputs, hid, hexchanges, hlabel⟩ := hseen
  exact ⟨w, w', w'', hw, hw', hw'', htimer, hinputs, hid, List.isEmpty_iff.mp hexchanges, hlabel⟩

end Sample

/-- A form whose request the service has forgotten goes on polling. -/
theorem restart_unnoticed_sample : ∃ w w' w'',
    (World.init Sample.service).run Agent.Sample.verifier (Sample.submission 2 (.repeated 1)) = some w ∧
    w.step Agent.Sample.verifier (.service .reset) = some w' ∧
    w'.run Agent.Sample.verifier Sample.polled = some w'' ∧
    w''.form.statusLabel = "Status check failed: Unknown request id." ∧
    w''.form.pollTimer = true ∧ w''.form.inputsEnabled = false ∧
    w''.service.shared.state.requests (Sample.idText 1) = none := by
  obtain ⟨w, w', w'', hrun, hrestart, hrun', htimer, hinputs, hid, hexchanges, hlabel⟩ :=
    Sample.run_restarted
  obtain ⟨⟨htimer', hinputs', -⟩, hunknown, -⟩ := restart_unnoticed (fun _ => rfl) hrun htimer hinputs hid
    (by simp [hexchanges]) (by simp [hexchanges]) hrestart hrun'
  exact ⟨w, w', w'', hrun, hrestart, hrun', hlabel, htimer', hinputs', hunknown⟩

end ElevateGate.Tray
