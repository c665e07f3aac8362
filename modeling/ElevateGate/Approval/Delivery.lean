import ElevateGate.Approval.Authority
import ElevateGate.Approval.Channel

/-!
# What the worker is told

Every response that the worker receives tells exactly what was committed for its device when the backend
listed the decisions, since the time that the worker asked for. So a decision has been received just if
it was committed when the last response was listed whose poll asked for its time. Once the watermark is
past the time of a decision, no later poll asks for it, and a decision that was not committed by then is
never received.
-/

namespace ElevateGate.Channel

open Interaction Time

/-- A session has read the state in one of its statements. -/
def ReadIn (s : Backend.State) (r : Backend.Record) : Prop :=
  ∃ k found, .performed k ⟨s, .query, found⟩ ∈ r.log

/-- A response tells what was committed for the device that was polled for when it was listed. -/
def Delivery.Exact (site : Site) (r : Backend.Record) (d : Delivery) : Prop :=
  ∃ device rows first, d.poll.deviceId = device.deviceUuid.textD ∧ ReadIn first r ∧
    first.device device.id = some device ∧ ReadIn d.listed r ∧
    Backend.Inv site.deployment d.listed ∧
    d.listed.Tells device.id d.poll.sinceUtc.toDatetime rows ∧
    site.read (rows.map Backend.AgentApprovalDecision.ofRows) = some d.decisions

/-- What is known of the responses in a run. -/
structure World.Sound (site : Site) (w : World) : Prop where
  exact : ∀ d ∈ w.deliveries, d.Exact site w.backend.shared
  ordered : w.deliveries.Pairwise fun d e => Backend.Evolves e.listed d.listed
  served : ∀ k, w.serving = some k → ∃ poll admitted call program, asked w.agent = some poll ∧
    site.call poll admitted = some call ∧ w.backend.thread k = some (call, program) ∧
      ∀ d ∈ w.deliveries, ∀ deed ∈ mine k w.backend.shared.log, Backend.Evolves d.listed deed.before
  delivered : ∀ d ∈ w.deliveries, ∃ before,
    .performed 0 ⟨before, .receiveDecisions, .ok d.decisions⟩ ∈ w.agent.shared.log
  received : ∀ i before list, .performed i ⟨before, .receiveDecisions, .ok list⟩ ∈ w.agent.shared.log →
    ∃ d ∈ w.deliveries, d.decisions = list

section Steps

variable {site : Site} {agent agent' : Service} {server server' : Server} {label : ServiceStep}

/-- A step that is not the worker's leaves what the worker has done. -/
theorem mine_of_aside (hstep : site.service.step label agent = some agent')
    (hworker : ofWorker label = false) : mine 0 agent'.shared.log = mine 0 agent.shared.log := by
  cases label with
  | perform i choice =>
    obtain ⟨call, op, next, answer, r, -, hperform, rfl⟩ := System.step_perform _ hstep
    rw [(System.recorded_perform hperform).2.2]
    exact mine_performed_ne (of_decide_eq_false hworker) _
  | spawn i call =>
    obtain ⟨program, -, rfl⟩ := System.step_spawn _ hstep
    exact mine_stopped_ne (of_decide_eq_false hworker)
  | kill i =>
    obtain rfl := Option.some.inj hstep
    exact mine_stopped_ne (of_decide_eq_false hworker)
  | reset => contradiction
  | env event =>
    obtain ⟨r, hr, rfl⟩ := Option.map_eq_some_iff.mp hstep
    simp only [System.recorded] at hr
    split at hr
    · obtain ⟨s, -, rfl⟩ := Option.map_eq_some_iff.mp hr
      rfl
    · contradiction

/-- Where no response arrives, none is received. -/
theorem received_of_agentOnly (hstep : site.service.step label agent = some agent')
    (honly : ∀ i list, label ≠ .perform i (.decisions list)) {i : Agent.Tid} {before : Agent.State}
    {list : List Agent.ApprovalDecision}
    (h : .performed i ⟨before, .receiveDecisions, .ok list⟩ ∈ agent'.shared.log) :
    .performed i ⟨before, .receiveDecisions, .ok list⟩ ∈ agent.shared.log := by
  cases label with
  | perform j choice =>
    obtain ⟨call, op, next, answer, r, -, hperform, rfl⟩ := System.step_perform _ hstep
    obtain ⟨-, hs, hlog⟩ := System.recorded_perform hperform
    change _ ∈ r.log at h
    rw [hlog] at h
    rcases List.mem_cons.mp h with heq | h
    · obtain ⟨rfl, heq⟩ := Moment.performed.inj heq
      cases heq
      cases choice with
      | decisions list' => exact absurd rfl (honly i list')
      | fail error => exact absurd (Prod.mk.inj (Option.some.inj hs)).1 (by simp)
      | _ => contradiction
    · exact h
  | spawn j call =>
    obtain ⟨program, -, rfl⟩ := System.step_spawn _ hstep
    exact (List.mem_cons.mp h).resolve_left (by simp)
  | kill j =>
    obtain rfl := Option.some.inj hstep
    exact (List.mem_cons.mp h).resolve_left (by simp)
  | reset =>
    obtain rfl := Option.some.inj hstep
    exact (List.mem_cons.mp h).resolve_left (by simp)
  | env event =>
    obtain ⟨r, hr, rfl⟩ := Option.map_eq_some_iff.mp hstep
    simp only [System.recorded] at hr
    split at hr
    · obtain ⟨s, -, rfl⟩ := Option.map_eq_some_iff.mp hr
      exact (List.mem_cons.mp h).resolve_left (by simp)
    · contradiction

/-- Where a response arrives, the worker receives it. -/
theorem log_of_respond {decisions : List Agent.ApprovalDecision}
    (hstep : site.service.step (.perform 0 (.decisions decisions)) agent = some agent') :
    agent'.shared.log = .performed 0 ⟨agent.shared.state, .receiveDecisions, .ok decisions⟩ ::
      agent.shared.log := by
  obtain ⟨call, op, next, answer, r, -, hperform, rfl⟩ := System.step_perform _ hstep
  obtain ⟨-, hs, hlog⟩ := System.recorded_perform hperform
  change Agent.perform site.host 0 op (.decisions decisions) agent.shared.state = _ at hs
  cases op <;> first
    | contradiction
    | (obtain ⟨rfl, -⟩ := Prod.mk.inj (Option.some.inj hs)
       exact hlog)

/-- What a session has done after a step it had done before, or it has done now. -/
theorem mem_mine_of_step {step : ServerStep} (hstep : site.server.step step server = some server')
    {k : Backend.Sid} {deed : Backend.Deed} (h : deed ∈ mine k server'.shared.log) :
    deed ∈ mine k server.shared.log ∨ deed.before = server.shared.state := by
  have hquiet : ∀ {m : Moment Backend.Op Backend.Res Backend.Sid Backend.Event Backend.State},
      (∀ i deed, m ≠ .performed i deed) → deed ∈ mine k (m :: server.shared.log) →
        deed ∈ mine k server.shared.log := by
    intro m hm hmem
    have hmine : mine k (m :: server.shared.log) = mine k server.shared.log ∨
        mine k (m :: server.shared.log) = [] := mine_quiet hm
    rcases hmine with hsame | hnone
    · rwa [hsame] at hmem
    · rw [hnone] at hmem
      contradiction
  cases step with
  | perform i choice =>
    obtain ⟨call, op, next, answer, r, -, hperform, rfl⟩ := System.step_perform _ hstep
    change deed ∈ mine k r.log at h
    rw [(System.recorded_perform hperform).2.2] at h
    by_cases hi : i = k
    · subst hi
      rw [mine_performed_self] at h
      rcases List.mem_cons.mp h with rfl | h
      · exact .inr rfl
      · exact .inl h
    · rw [mine_performed_ne hi] at h
      exact .inl h
  | spawn i call =>
    obtain ⟨program, -, rfl⟩ := System.step_spawn _ hstep
    exact .inl (hquiet (by simp) h)
  | kill i =>
    obtain rfl := Option.some.inj hstep
    exact .inl (hquiet (by simp) h)
  | reset =>
    obtain rfl := Option.some.inj hstep
    exact .inl (hquiet (by simp) h)
  | env event =>
    obtain ⟨r, hr, rfl⟩ := Option.map_eq_some_iff.mp hstep
    simp only [System.recorded] at hr
    split at hr
    · obtain ⟨s, -, rfl⟩ := Option.map_eq_some_iff.mp hr
      exact .inl (hquiet (by simp) h)
    · contradiction

/-- A step adds to the log. -/
private theorem log_of_step {Op : Type} {Res : Op → Type} {ε α Tid Choice Event Call σ : Type}
    [DecidableEq Tid] {sys : System Op Res ε α Tid Choice Event Call σ}
    {guard : Guard Op Res Tid Choice Event σ} {label : Label Tid Choice Event Call}
    {c c' : Config Op Res ε α Tid Call (Recorded Op Res Tid Event σ)}
    (h : (sys.recorded guard).step label c = some c') : c.shared.log <:+ c'.shared.log :=
  log_suffix_run (System.run_step _ h)

theorem ReadIn.mono {s : Backend.State} {r r' : Backend.Record} (h : ReadIn s r)
    (hlog : r.log <:+ r'.log) : ReadIn s r' := by
  obtain ⟨k, found, hmem⟩ := h
  exact ⟨k, found, hlog.subset hmem⟩

theorem Delivery.Exact.mono {d : Delivery} {r r' : Backend.Record} (h : d.Exact site r)
    (hlog : r.log <:+ r'.log) : d.Exact site r' := by
  obtain ⟨device, rows, first, hself, hfirst, hdevice, hlisted, hrest⟩ := h
  exact ⟨device, rows, first, hself, hfirst.mono hlog, hdevice, hlisted.mono hlog, hrest⟩

/-- The instant of a query arrives without what is less than a microsecond. -/
theorem call_eq {poll : Poll} {admitted : Bool} {call : Backend.Call}
    (h : site.call poll admitted = some call) : call = .agentPollDecisions poll.deviceId
      (some poll.sinceUtc.toDatetime) (some poll.bearerToken) admitted := by
  obtain ⟨since, hread, rfl⟩ := Option.map_eq_some_iff.mp h
  obtain ⟨dt, hdt, hmicros⟩ := site.queryDates.read_write poll.sinceUtc.toUniversalTime
  obtain rfl := Option.some.inj (hread.symm.trans hdt)
  obtain ⟨micros, hlt⟩ := since
  obtain rfl : micros = poll.sinceUtc.utcTicks / 10 := hmicros
  rfl

end Steps

section Runs

variable {site : Site} {a : Agent.State} {s : Backend.State} {w w' : World} {events : List Event}

/-- Each side of a world runs by itself. -/
theorem World.Steps.runs (h : w.Steps site w') :
    (∃ labels, site.service.run labels w.agent = some w'.agent) ∧
      ∃ labels, site.server.run labels w.backend = some w'.backend := by
  cases h with
  | agent honly hstep => exact ⟨⟨_, System.run_step _ hstep⟩, [], rfl⟩
  | backend hstep => exact ⟨⟨[], rfl⟩, _, System.run_step _ hstep⟩
  | arrive hasked hcall hstep => exact ⟨⟨[], rfl⟩, _, System.run_step _ hstep⟩
  | respond hasked hserving hanswer hlisted hread hstep => exact ⟨⟨_, System.run_step _ hstep⟩, [], rfl⟩
  | advance hagent hbackend => exact ⟨⟨_, System.run_step _ hagent⟩, _, System.run_step _ hbackend⟩

/-- So it does throughout a run. -/
theorem exists_runs (h : w.run site events = some w') :
    (∃ labels, site.service.run labels w.agent = some w'.agent) ∧
      ∃ labels, site.server.run labels w.backend = some w'.backend := by
  induction events generalizing w with
  | nil =>
    obtain rfl := Option.some.inj h
    exact ⟨⟨[], rfl⟩, [], rfl⟩
  | cons event rest ih =>
    obtain ⟨mid, hstep, hrest⟩ := Option.bind_eq_some_iff.mp h
    obtain ⟨⟨first, hfirst⟩, first', hfirst'⟩ := (World.step_steps hstep).runs
    obtain ⟨⟨last, hlast⟩, last', hlast'⟩ := ih hrest
    exact ⟨⟨first ++ last, System.run_trans _ hfirst hlast⟩, first' ++ last',
      System.run_trans _ hfirst' hlast'⟩

/-- A response tells what is committed, in a run from the first request on. -/
private theorem exact_of_answer {labels : List ServerStep} {k : Backend.Sid} {poll : Poll}
    {admitted : Bool} {call : Backend.Call} {program : Backend.Handler Backend.Answer} {server : Server}
    {list : List Backend.AgentApprovalDecision} {listed : Backend.State}
    {decisions : List Agent.ApprovalDecision} (hinit : s.Initial)
    (hrun : site.server.run labels (System.init ⟨s, []⟩) = some server)
    (hcall : site.call poll admitted = some call) (hthread : server.thread k = some (call, program))
    (hanswer : answerOf server k = some list)
    (hlisted : (Backend.reads (mine k server.shared.log)).head? = some listed)
    (hread : site.read list = some decisions) :
    Delivery.Exact site server.shared ⟨poll, listed, decisions⟩ ∧
      ∃ found, ⟨listed, .query, found⟩ ∈ mine k server.shared.log := by
  obtain rfl := call_eq hcall
  simp only [answerOf, hthread] at hanswer
  split at hanswer
  · next heq =>
    obtain rfl := Option.some.inj hanswer
    obtain ⟨rfl, rfl⟩ := Prod.mk.inj (Option.some.inj heq)
    obtain ⟨device, rows, first, scan, before, hreads, hself, hdevice, hreport, htells⟩ :=
      Backend.answer_tells hinit hrun hthread rfl
    obtain rfl := Backend.Answer.agentDecisions.inj (Option.some.inj hreport)
    rw [hreads] at hlisted
    obtain rfl := Option.some.inj hlisted
    have hfaithful := (hinit.chronicled hrun).1.kept.faithful k
    have hmem : ∀ state ∈ Backend.reads (mine k server.shared.log), ∃ found,
        ⟨state, .query, found⟩ ∈ mine k server.shared.log := fun _ h => Backend.exists_of_reads h
    obtain ⟨found, hfound⟩ := hmem before (by simp [hreads])
    obtain ⟨found', hfound'⟩ := hmem first (by simp [hreads])
    exact ⟨⟨device, rows, first, hself.1, ⟨k, found', mem_log_of_mem_mine hfound'⟩, hdevice,
      ⟨k, found, mem_log_of_mem_mine hfound⟩, hfaithful.inv hfound, htells, hread⟩, found, hfound⟩
  · contradiction

/-- What is known of the responses stays true when the backend takes a step. -/
private theorem World.Sound.serve {server' : Server} {k : Backend.Sid}
    (h : w.Sound site) (hstep : ∃ label, site.server.step label w.backend = some server')
    (hevolved : ∀ d ∈ w.deliveries, Backend.Evolves d.listed w.backend.shared.state)
    (hserving : w.serving = some k) {deed : Backend.Deed} (hdeed : deed ∈ mine k server'.shared.log) :
    ∀ d ∈ w.deliveries, Backend.Evolves d.listed deed.before := by
  obtain ⟨label, hstep⟩ := hstep
  intro d hd
  rcases mem_mine_of_step hstep hdeed with hold | hnow
  · obtain ⟨poll, admitted, call, program, -, -, -, hserved⟩ := h.served k hserving
    exact hserved d hd deed hold
  · exact hnow ▸ hevolved d hd

/-- Every step keeps what is known of the responses. -/
private theorem World.Sound.step {labels : List ServerStep} (hinit : s.Initial)
    (hrun : site.server.run labels (System.init ⟨s, []⟩) = some w.backend) (h : w.Sound site)
    (hstep : w.Steps site w') : w'.Sound site := by
  have hchronicled := (hinit.chronicled hrun).1
  have hevolved : ∀ d ∈ w.deliveries, Backend.Evolves d.listed w.backend.shared.state := by
    intro d hd
    obtain ⟨device, rows, first, -, -, -, ⟨k, found, hmem⟩, -⟩ := h.exact d hd
    exact hchronicled.kept.evolved k _ hmem
  cases hstep with
  | @agent label agent honly hstep =>
    have hlog : w.agent.shared.log <:+ agent.shared.log := log_of_step hstep
    refine ⟨h.exact, h.ordered, fun k hserving => ?_, fun d hd => ?_, fun i before list hmem => ?_⟩
    · cases hworker : ofWorker label with
      | true => simp [hworker] at hserving
      | false =>
        simp only [hworker, Bool.false_eq_true, if_false] at hserving
        have hasked : asked agent = asked w.agent := by
          rw [asked, asked, mine_of_aside hstep hworker]
        obtain ⟨poll, admitted, call, program, hpoll, hserved⟩ := h.served k hserving
        exact ⟨poll, admitted, call, program, hasked.trans hpoll, hserved⟩
    · obtain ⟨before, hmem⟩ := h.delivered d hd
      exact ⟨before, hlog.subset hmem⟩
    · refine h.received i before list (received_of_agentOnly hstep ?_ hmem)
      rintro j list' rfl
      contradiction
  | @backend label backend hstep =>
    refine ⟨fun d hd => (h.exact d hd).mono (log_of_step hstep), h.ordered, fun k hserving => ?_,
      h.delivered, h.received⟩
    obtain ⟨hserving, hused⟩ := Option.filter_eq_some_iff.mp hserving
    obtain ⟨poll, admitted, call, program, hpoll, hcall, hthread, -⟩ := h.served k hserving
    have hkill : label ≠ .kill k := by
      rintro rfl
      obtain rfl := Option.some.inj hstep
      simp at hused
    have hreset : label ≠ .reset := by
      rintro rfl
      obtain rfl := Option.some.inj hstep
      simp at hused
    obtain ⟨program', hthread'⟩ := System.thread_step _ hstep hthread hkill hreset
    exact ⟨poll, admitted, call, program', hpoll, hcall, hthread', fun d hd deed hdeed =>
      h.serve ⟨label, hstep⟩ hevolved hserving hdeed d hd⟩
  | @arrive k admitted poll call backend hasked hcall hstep =>
    refine ⟨fun d hd => (h.exact d hd).mono (log_of_step hstep), h.ordered, fun k' hserving => ?_,
      h.delivered, h.received⟩
    obtain rfl := Option.some.inj hserving
    obtain ⟨program, -, rfl⟩ := System.step_spawn _ hstep
    refine ⟨poll, admitted, call, program, hasked, hcall, Function.update_self _ _ _,
      fun d hd deed hdeed => ?_⟩
    change deed ∈ mine k (.stopped k :: _) at hdeed
    rw [mine_stopped_self] at hdeed
    contradiction
  | @respond poll k list listed decisions agent hasked hserving hanswer hlisted hread hstep =>
    have hlog := log_of_respond hstep
    obtain ⟨poll', admitted, call, program, hpoll, hcall, hthread, hserved⟩ := h.served k hserving
    obtain rfl := Option.some.inj (hasked.symm.trans hpoll)
    obtain ⟨hexact, found, hfound⟩ :=
      exact_of_answer hinit hrun hcall hthread hanswer hlisted hread
    constructor
    · intro d hd
      rcases List.mem_cons.mp hd with rfl | hd
      · exact hexact
      · exact h.exact d hd
    · exact List.pairwise_cons.mpr ⟨fun e he => hserved e he _ hfound, h.ordered⟩
    · intro k' hnone
      contradiction
    · intro d hd
      rw [hlog]
      rcases List.mem_cons.mp hd with rfl | hd
      · exact ⟨_, List.mem_cons_self⟩
      · obtain ⟨before, hmem⟩ := h.delivered d hd
        exact ⟨before, List.mem_cons_of_mem _ hmem⟩
    · intro i before list' hmem
      rw [hlog] at hmem
      rcases List.mem_cons.mp hmem with heq | hmem
      · cases heq
        exact ⟨_, List.mem_cons_self, rfl⟩
      · obtain ⟨d, hd, hsame⟩ := h.received i before list' hmem
        exact ⟨d, List.mem_cons_of_mem _ hd, hsame⟩
  | @advance t agent backend hagent hbackend =>
    have hlog : w.agent.shared.log <:+ agent.shared.log := log_of_step hagent
    refine ⟨fun d hd => (h.exact d hd).mono (log_of_step hbackend), h.ordered, fun k hserving => ?_,
      fun d hd => ?_, fun i before list hmem => ?_⟩
    · obtain ⟨poll, admitted, call, program, hpoll, hcall, hthread, -⟩ := h.served k hserving
      have hasked : asked agent = asked w.agent := by
        rw [asked, asked, mine_of_aside hagent rfl]
      obtain ⟨program', hthread'⟩ :=
        System.thread_step _ hbackend hthread (by simp) (by simp)
      exact ⟨poll, admitted, call, program', hasked.trans hpoll, hcall, hthread', fun d hd deed hdeed =>
        h.serve ⟨_, hbackend⟩ hevolved hserving hdeed d hd⟩
    · obtain ⟨before, hmem⟩ := h.delivered d hd
      exact ⟨before, hlog.subset hmem⟩
    · exact h.received i before list (received_of_agentOnly hagent (by simp) hmem)

/-- What is known of the responses holds in every run from the first request on. -/
theorem World.sound_run (hinit : s.Initial) (h : (World.init a s).run site events = some w) :
    w.Sound site := by
  have hstart : (World.init a s).Sound site := by
    constructor
    · intro d hd
      contradiction
    · exact List.Pairwise.nil
    · intro k hnone
      contradiction
    · intro d hd
      contradiction
    · intro i before list hmem
      contradiction
  have hrun : ∃ labels, site.server.run labels (System.init ⟨s, []⟩) = some (World.init a s).backend :=
    ⟨[], rfl⟩
  generalize World.init a s = start at *
  induction events generalizing start with
  | nil => exact Option.some.inj h ▸ hstart
  | cons event rest ih =>
    obtain ⟨mid, hstep, hrest⟩ := Option.bind_eq_some_iff.mp h
    have hsteps := World.step_steps hstep
    obtain ⟨first, hfirst⟩ := hrun
    obtain ⟨-, last, hlast⟩ := hsteps.runs
    apply ih mid hrest (hstart.step hinit hfirst hsteps)
    exact ⟨first ++ last, System.run_trans _ hfirst hlast⟩

/-- The responses that arrive later answer polls that ask for what was decided since the watermark or
since a later time. -/
theorem World.later_deliveries {t : DateTimeOffset} {labels : List ServiceStep}
    (hrun : site.service.run labels (System.init ⟨a, []⟩) = some w.agent)
    (h : w.run site events = some w') (ht : Agent.lastWatermark w.agent.shared.log = some t) :
    ∃ new, w'.deliveries = new ++ w.deliveries ∧
      ∀ d ∈ new, t.utcTicks ≤ d.poll.sinceUtc.utcTicks := by
  induction events generalizing w t labels with
  | nil =>
    obtain rfl := Option.some.inj h
    exact ⟨[], rfl, by simp⟩
  | cons event rest ih =>
    obtain ⟨mid, hstep, hrest⟩ := Option.bind_eq_some_iff.mp h
    have hsteps := World.step_steps hstep
    obtain ⟨⟨last, hlast⟩, -⟩ := hsteps.runs
    have hmid : site.service.run (labels ++ last) (System.init ⟨a, []⟩) = some mid.agent :=
      System.run_trans _ hrun hlast
    obtain ⟨t', ht', hle⟩ := (Agent.rising_run hmid).risen _ (log_suffix_run hlast) t ht
    obtain ⟨new, hnew, hsince⟩ := ih hmid hrest ht'
    have hlater : ∀ d ∈ new, t.utcTicks ≤ d.poll.sinceUtc.utcTicks := fun d hd =>
      hle.trans (hsince d hd)
    cases hsteps with
    | agent honly hstep => exact ⟨new, hnew, hlater⟩
    | backend hstep => exact ⟨new, hnew, hlater⟩
    | arrive hasked hcall hstep => exact ⟨new, hnew, hlater⟩
    | advance hagent hbackend => exact ⟨new, hnew, hlater⟩
    | @respond poll k list listed decisions agent hasked hserving hanswer hlisted hread hstep =>
      refine ⟨new ++ [⟨poll, listed, decisions⟩], by rw [hnew]; simp, fun d hd => ?_⟩
      rcases List.mem_append.mp hd with hd | hd
      · exact hlater d hd
      · obtain rfl := List.mem_singleton.mp hd
        have hlast : Agent.lastWatermark w.agent.shared.log = some poll.sinceUtc := by
          unfold asked at hasked
          split at hasked
          · next before bearerToken deviceId sinceUtc answer older hmine =>
            obtain rfl := Option.some.inj hasked
            exact (Agent.rising_run hrun).polled before bearerToken deviceId sinceUtc older hmine
          · contradiction
        obtain rfl := Option.some.inj (ht.symm.trans hlast)
        exact le_rfl

end Runs

/-- A request is decided among the committed rows. -/
def Decided (s : Backend.State) (id : Nat) : Prop :=
  ∃ r, s.request id = some r ∧ r.status ≠ .pending

/-- The worker has received a decision on a request. -/
def World.Received (w : World) (requestUuid : Uuid) : Prop :=
  ∃ before list decision, .performed 0 ⟨before, .receiveDecisions, .ok list⟩ ∈ w.agent.shared.log ∧
    decision ∈ list ∧ decision.requestId = some requestUuid.textD

/-- Whether a poll asks for what was decided for a device at a time. -/
def Poll.asksFor (device : Backend.Device) (time : Datetime) (poll : Poll) : Bool :=
  decide (poll.deviceId = device.deviceUuid.textD) && decide (poll.sinceUtc.toDatetime ≤ time)

/-- The last response to a poll that asked for what was decided for a device at a time. -/
def World.lastAsking (w : World) (device : Backend.Device) (time : Datetime) : Option Delivery :=
  w.deliveries.find? fun d => d.poll.asksFor device time

section Reading

variable {site : Site}

/-- The agent reads each decision of a response. -/
private theorem mem_of_read {list : List Backend.AgentApprovalDecision}
    {decisions : List Agent.ApprovalDecision} (h : site.read list = some decisions) :
    (∀ decision ∈ decisions, ∃ x ∈ list,
        Agent.ApprovalDecision.ofJson site.dates (x.toJson site.dates) = some decision) ∧
      ∀ x ∈ list, ∃ decision ∈ decisions,
        Agent.ApprovalDecision.ofJson site.dates (x.toJson site.dates) = some decision := by
  induction list generalizing decisions with
  | nil =>
    obtain rfl := Option.some.inj h
    simp
  | cons x rest ih =>
    rw [Site.read, List.mapM_cons] at h
    obtain ⟨decision, hx, h⟩ := Option.bind_eq_some_iff.mp h
    obtain ⟨others, hrest, h⟩ := Option.bind_eq_some_iff.mp h
    obtain rfl := Option.some.inj h
    obtain ⟨hfrom, hto⟩ := ih hrest
    constructor
    · intro d hd
      rcases List.mem_cons.mp hd with rfl | hd
      · exact ⟨x, List.mem_cons_self, hx⟩
      · obtain ⟨y, hy, hread⟩ := hfrom d hd
        exact ⟨y, List.mem_cons_of_mem _ hy, hread⟩
    · intro y hy
      rcases List.mem_cons.mp hy with rfl | hy
      · exact ⟨decision, List.mem_cons_self, hx⟩
      · obtain ⟨d, hd, hread⟩ := hto y hy
        exact ⟨d, List.mem_cons_of_mem _ hd, hread⟩

/-- A decision that the agent reads names a request that was listed, with hyphens. -/
theorem requestId_of_read {rows : List (Backend.ElevationRequest × Option Backend.Approval)}
    {decisions : List Agent.ApprovalDecision} {decision : Agent.ApprovalDecision}
    (h : site.read (rows.map Backend.AgentApprovalDecision.ofRows) = some decisions)
    (hdecision : decision ∈ decisions) :
    ∃ r ∈ rows.map Prod.fst, decision.requestId = some r.requestUuid.textD := by
  obtain ⟨x, hx, hread⟩ := (mem_of_read h).1 decision hdecision
  obtain ⟨row, hrow, rfl⟩ := List.mem_map.mp hx
  obtain ⟨decision', hread', hid, -⟩ := ofJson_decision site.dates row
  obtain rfl := Option.some.inj (hread.symm.trans hread')
  exact ⟨row.1, List.mem_map_of_mem hrow, hid⟩

/-- What the agent reads is about the requests that were listed. -/
private theorem exists_decision_iff {rows : List (Backend.ElevationRequest × Option Backend.Approval)}
    {decisions : List Agent.ApprovalDecision} {u : Uuid}
    (h : site.read (rows.map Backend.AgentApprovalDecision.ofRows) = some decisions) :
    (∃ decision ∈ decisions, decision.requestId = some u.textD) ↔
      ∃ r ∈ rows.map Prod.fst, r.requestUuid = u := by
  constructor
  · rintro ⟨decision, hdecision, hid⟩
    obtain ⟨r, hr, hid'⟩ := requestId_of_read h hdecision
    exact ⟨r, hr, Uuid.textD_injective (Option.some.inj (hid'.symm.trans hid))⟩
  · rintro ⟨r, hr, rfl⟩
    obtain ⟨row, hrow, rfl⟩ := List.mem_map.mp hr
    obtain ⟨decision, hdecision, hread⟩ := (mem_of_read h).2 _ (List.mem_map_of_mem hrow)
    obtain ⟨decision', hread', hid', -⟩ := ofJson_decision site.dates row
    obtain rfl := Option.some.inj (hread.symm.trans hread')
    exact ⟨decision, hdecision, hid'⟩

/-- What is decided stays decided. -/
private theorem Decided.mono {s s' : Backend.State} {id : Nat} (h : Decided s id)
    (hevolves : Backend.Evolves s s') : Decided s' id := by
  obtain ⟨r, hr, hstatus⟩ := h
  obtain ⟨r', hr', hdecides⟩ := hevolves.request id r hr
  exact ⟨r', hr', (hdecides.final hstatus).1 ▸ hstatus⟩

/-- Of the members of a list in which a property passes on to what comes before, the first decides. -/
private theorem exists_mem_iff_find {α : Type} {R : α → α → Prop} {p : α → Bool} {P : α → Prop}
    {l : List α} (hordered : l.Pairwise R) (hmono : ∀ x y, R x y → P y → P x) :
    (∃ x ∈ l, p x = true ∧ P x) ↔ ∃ x, l.find? p = some x ∧ P x := by
  induction hordered with
  | nil => simp
  | @cons x rest hx _ ih =>
    cases hp : p x with
    | true =>
      rw [List.find?_cons_of_pos hp]
      constructor
      · rintro ⟨y, hy, -, hP⟩
        rcases List.mem_cons.mp hy with rfl | hy
        · exact ⟨y, rfl, hP⟩
        · exact ⟨x, rfl, hmono x y (hx y hy) hP⟩
      · rintro ⟨y, heq, hP⟩
        obtain rfl := Option.some.inj heq
        exact ⟨x, List.mem_cons_self, hp, hP⟩
    | false =>
      rw [List.find?_cons_of_neg (by simp [hp]), ← ih]
      constructor
      · rintro ⟨y, hy, hpy, hP⟩
        rcases List.mem_cons.mp hy with rfl | hy
        · rw [hp] at hpy
          contradiction
        · exact ⟨y, hy, hpy, hP⟩
      · rintro ⟨y, hy, hpy, hP⟩
        exact ⟨y, List.mem_cons_of_mem _ hy, hpy, hP⟩

end Reading

section Receiving

variable {site : Site} {a : Agent.State} {s : Backend.State} {w w' : World} {events : List Event}
  {r : Backend.ElevationRequest} {device : Backend.Device} {time : Datetime}

/-- A recorded run of the backend is a run. -/
private theorem run_forget {labels : List ServerStep} {server server' : Server}
    (h : site.server.run labels server = some server') :
    (Backend.system site.deployment).run labels server.forget = some server'.forget := by
  induction labels generalizing server with
  | nil => exact congrArg (fun c : Server => some c.forget) (Option.some.inj h)
  | cons label rest ih =>
    obtain ⟨mid, hstep, hrest⟩ := Option.bind_eq_some_iff.mp h
    exact System.run_cons _ (step_forget hstep) (ih hrest)

/-- What is known of the backend in a run of the world. -/
private theorem backend_run (hinit : s.Initial) (hw : (World.init a s).run site events = some w) :
    Backend.Inv site.deployment w.backend.shared.state ∧
      ∀ state, ReadIn state w.backend.shared → Backend.Evolves state w.backend.shared.state := by
  obtain ⟨-, labels, hrun⟩ := exists_runs hw
  have hinv := (Backend.reachable_inv hinit (run_forget hrun)
    (show (Backend.system site.deployment).run [] _ = _ from rfl)).1
  refine ⟨hinv, ?_⟩
  rintro state ⟨k, found, hmem⟩
  exact (hinit.chronicled hrun).1.kept.evolved k _ hmem

/-- Requests with one UUID are one. -/
private theorem eq_of_requestUuid {deployment : Backend.Deployment} {state : Backend.State}
    (hinv : Backend.Inv deployment state) {r r' : Backend.ElevationRequest}
    (hr : state.request r.id = some r) (hr' : state.request r'.id = some r')
    (hsame : r.requestUuid = r'.requestUuid) : r = r' := by
  have hid : r.id = r'.id := by
    by_contra hne
    have hclash := hinv.distinct .elevationRequests (.inl rfl) _ _ r r' hne (.inl hr) (.inl hr')
    simp [Backend.Table.clash, hsame] at hclash
  rw [hid] at hr
  exact Option.some.inj (hr.symm.trans hr')

/-- A decision that was received had been committed when the response was listed, and the poll asked for
its time. -/
private theorem exists_of_received (hinit : s.Initial)
    (hw : (World.init a s).run site events = some w)
    (hr : w.backend.shared.state.request r.id = some r) (htime : r.reviewedAt = some time)
    (hdevice : w.backend.shared.state.device r.deviceId = some device)
    (h : w.Received r.requestUuid) :
    ∃ d ∈ w.deliveries, d.poll.asksFor device time = true ∧ Decided d.listed r.id := by
  obtain ⟨hinv, hevolved⟩ := backend_run hinit hw
  have hsound := World.sound_run hinit hw
  obtain ⟨before, list, decision, hmem, hdecision, hid⟩ := h
  obtain ⟨d, hd, rfl⟩ := hsound.received 0 before list hmem
  obtain ⟨polled, rows, first, hself, hfirst, hpolled, hlisted, hinv', htells, hread⟩ := hsound.exact d hd
  obtain ⟨old, hold, huuid⟩ := (exists_decision_iff hread).mp ⟨decision, hdecision, hid⟩
  obtain ⟨hcom, howner, time', htime', hsince⟩ := (htells.decisions old).mp hold
  have hstatus : old.status ≠ .pending :=
    (hinv'.linked.reviewed _ old hcom).mp (by rw [htime']; rfl)
  -- the request that was listed is the one that is committed now
  obtain ⟨now, hnow, hdecides⟩ := (hevolved _ hlisted).request old.id old hcom
  obtain rfl : now = r := eq_of_requestUuid hinv (hdecides.id ▸ hnow) hr (hdecides.requestUuid.trans huuid)
  have hsame : time' = time := by
    have hreviewed := (hdecides.final hstatus).2.2
    rw [htime, htime'] at hreviewed
    exact (Option.some.inj hreviewed).symm
  obtain ⟨device', hdevice', hdeviceUuid⟩ := (hevolved _ hfirst).device polled.id polled hpolled
  obtain rfl : device' = device := by
    rw [hdecides.deviceId, howner, hdevice'] at hdevice
    exact Option.some.inj hdevice
  refine ⟨d, hd, ?_, old, hdecides.id ▸ hcom, hstatus⟩
  simp only [Poll.asksFor, Bool.and_eq_true, decide_eq_true_eq]
  exact ⟨hdeviceUuid ▸ hself, hsame ▸ hsince⟩

/-- A decision that was committed when a response was listed whose poll asked for its time was received. -/
private theorem received_of_decided (hinit : s.Initial)
    (hw : (World.init a s).run site events = some w)
    (hr : w.backend.shared.state.request r.id = some r) (htime : r.reviewedAt = some time)
    (hunique : ∀ id d, w.backend.shared.state.device id = some d →
      d.deviceUuid = device.deviceUuid → id = r.deviceId) {d : Delivery} (hd : d ∈ w.deliveries)
    (hasks : d.poll.asksFor device time = true) (hdecided : Decided d.listed r.id) :
    w.Received r.requestUuid := by
  obtain ⟨hinv, hevolved⟩ := backend_run hinit hw
  have hsound := World.sound_run hinit hw
  obtain ⟨polled, rows, first, hself, hfirst, hpolled, hlisted, -, htells, hread⟩ := hsound.exact d hd
  obtain ⟨old, hold, hstatus⟩ := hdecided
  simp only [Poll.asksFor, Bool.and_eq_true, decide_eq_true_eq] at hasks
  obtain ⟨now, hnow, hdecides⟩ := (hevolved _ hlisted).request r.id old hold
  obtain rfl := Option.some.inj (hnow.symm.trans hr)
  obtain ⟨device', hdevice', hdeviceUuid⟩ := (hevolved _ hfirst).device polled.id polled hpolled
  have howner : polled.id = now.deviceId := by
    apply hunique polled.id device' hdevice'
    rw [hdeviceUuid]
    exact Uuid.textD_injective (hself.symm.trans hasks.1)
  have htold : old ∈ rows.map Prod.fst := by
    apply (htells.decisions old).mpr
    refine ⟨hdecides.id ▸ hold, hdecides.deviceId.symm.trans howner.symm, time, ?_, hasks.2⟩
    exact (hdecides.final hstatus).2.2.symm.trans htime
  obtain ⟨decision, hdecision, hid⟩ :=
    (exists_decision_iff hread).mpr ⟨old, htold, hdecides.requestUuid.symm⟩
  obtain ⟨before, hmem⟩ := hsound.delivered d hd
  exact ⟨before, d.decisions, decision, hmem, hdecision, hid⟩

/-- A decision has been received just if it was committed when the backend listed the last response whose
poll asked for its device and its time. -/
theorem decision_received_iff (hinit : s.Initial) (hw : (World.init a s).run site events = some w)
    (hr : w.backend.shared.state.request r.id = some r) (htime : r.reviewedAt = some time)
    (hdevice : w.backend.shared.state.device r.deviceId = some device)
    (hunique : ∀ id d, w.backend.shared.state.device id = some d →
      d.deviceUuid = device.deviceUuid → id = r.deviceId) :
    w.Received r.requestUuid ↔ ∃ d, w.lastAsking device time = some d ∧ Decided d.listed r.id := by
  have hordered := (World.sound_run hinit hw).ordered
  rw [World.lastAsking, ← exists_mem_iff_find hordered fun d e h hd => hd.mono h]
  constructor
  · exact exists_of_received hinit hw hr htime hdevice
  · rintro ⟨d, hd, hasks, hdecided⟩
    exact received_of_decided hinit hw hr htime hunique hd hasks hdecided

end Receiving

namespace Sample

open Backend.Sample (noon order submission approval)

/-- The agent and the backend of the samples, whose texts are ISO 8601. -/
def site : Site := ⟨Agent.Sample.host, Backend.Sample.deployment, .iso, .iso⟩

/-- The agent and the backend at noon. -/
def start : World := .init Agent.Sample.state Backend.Sample.database

/-- Some seconds after noon. -/
def after (seconds : Nat) (h : 10 * (noon.micros + 1000000 * seconds) < maxTicks) : DateTimeOffset :=
  .utc (10 * (noon.micros + 1000000 * seconds)) h

/-- A request is filed, and the worker starts and polls. -/
def asking : List Event :=
  submission.map .backend ++ [.agent (.spawn 0 (.pollingWorker 1)), .agent (.perform 0 .unit),
    .agent (.perform 0 .unit), .agent (.perform 0 .unit), .agent (.perform 0 .unit)]

/-- A session serves the poll. -/
def serving (query : Backend.Choice) : List Event :=
  [.arrive 2 true, .backend (.perform 2 query), .backend (.perform 2 .unit),
    .backend (.perform 2 query), .backend (.perform 2 .unit), .backend (.perform 2 query),
    .backend (.perform 2 .unit)]

/-- The request is approved before the poll is served. -/
def received : List Event :=
  asking ++ .advance (after 1 (by decide)) :: approval.map .backend ++ serving (order 1 1 2) ++ [.respond]

/-- The request is approved after the poll has been served, and the worker sets the watermark when it has
received the response. -/
def lost : List Event :=
  asking ++ serving (order 1 0 1) ++ .advance (after 1 (by decide)) :: approval.map .backend ++
    [.advance (after 2 (by decide)), .respond, .agent (.perform 0 .unit), .agent (.perform 0 .unit)]

/-- What can be seen of the request in a world. -/
structure Picture where
  status : Backend.ElevationRequestStatus
  reviewedAt : Datetime
  deviceId : Nat
  devices : Nat
  watermark : Nat
  listed : Option Backend.ElevationRequestStatus
  deriving DecidableEq

/-- The picture of a world. -/
def picture (w : World) : Option Picture := do
  let r ← w.backend.shared.state.request 0
  let device ← w.backend.shared.state.device r.deviceId
  let time ← r.reviewedAt
  let t ← Agent.lastWatermark w.agent.shared.log
  let d ← w.lastAsking device time
  return ⟨r.status, time, r.deviceId, w.backend.shared.state.nextId .devices, t.utcTicks,
    (d.listed.request 0).map Backend.ElevationRequest.status⟩

/-- The first run, in which the response was listed after the approval. -/
theorem run_received : (start.run site received).bind picture =
    some ⟨.approved, ⟨noon.micros + 1000000, by decide⟩, 0, 1, 10 * noon.micros, some .approved⟩ := by
  decide +kernel

/-- The second run, in which it was listed before. -/
theorem run_lost : (start.run site lost).bind picture =
    some ⟨.approved, ⟨noon.micros + 1000000, by decide⟩, 0, 1, 10 * (noon.micros + 2000000),
      some .pending⟩ := by
  decide +kernel

/-- What a picture shows of a world in which there is one device. -/
theorem exists_of_picture {events : List Event} {p : Picture}
    (h : (start.run site events).bind picture = some p) (hdevices : p.devices = 1)
    (hdevice : p.deviceId = 0) : ∃ w r device t d, start.run site events = some w ∧
      w.backend.shared.state.request r.id = some r ∧ r.status = p.status ∧
      r.reviewedAt = some p.reviewedAt ∧ w.backend.shared.state.device r.deviceId = some device ∧
      (∀ id other, w.backend.shared.state.device id = some other →
        other.deviceUuid = device.deviceUuid → id = r.deviceId) ∧
      Agent.lastWatermark w.agent.shared.log = some t ∧ t.utcTicks = p.watermark ∧
      w.lastAsking device p.reviewedAt = some d ∧
      (d.listed.request r.id).map Backend.ElevationRequest.status = p.listed := by
  obtain ⟨w, hw, h⟩ := Option.bind_eq_some_iff.mp h
  obtain ⟨r, hr, h⟩ := Option.bind_eq_some_iff.mp h
  obtain ⟨device, hd, h⟩ := Option.bind_eq_some_iff.mp h
  obtain ⟨time, htime, h⟩ := Option.bind_eq_some_iff.mp h
  obtain ⟨t, ht, h⟩ := Option.bind_eq_some_iff.mp h
  obtain ⟨d, hlast, h⟩ := Option.bind_eq_some_iff.mp h
  obtain rfl := Option.some.inj h
  have hid : r.id = 0 := Backend.id_of_com hr
  refine ⟨w, r, device, t, d, hw, hid ▸ hr, rfl, htime, hd, fun id other hother _ => ?_, ht, rfl, hlast,
    by rw [hid]⟩
  -- the rows beyond the first are not there
  have hinv := (backend_run Backend.Sample.database_initial hw).1
  have hlt : id < 1 := by
    by_contra hge
    have hnext : w.backend.shared.state.nextId .devices ≤ id := by
      rw [show w.backend.shared.state.nextId .devices = 1 from hdevices]
      omega
    have hfresh := (hinv.fresh ⟨.devices, id⟩ hnext).1
    rw [Backend.State.device, Backend.State.com, hfresh] at hother
    contradiction
  have hzero : r.deviceId = 0 := hdevice
  omega

end Sample

/-- A decision that is committed when the poll is served is received. -/
theorem decision_received_iff_sample : ∃ w r, Sample.start.run Sample.site Sample.received = some w ∧
    w.backend.shared.state.request r.id = some r ∧ r.status = .approved ∧ w.Received r.requestUuid := by
  have hpicture := Sample.exists_of_picture Sample.run_received rfl rfl
  obtain ⟨w, r, device, t, d, hw, hr, hstatus, htime, hdevice, hunique, hwatermark, hticks, hlast,
    hlisted⟩ := hpicture
  have hreceived :=
    decision_received_iff Backend.Sample.database_initial hw hr htime hdevice hunique
  obtain ⟨old, hold, hdecided⟩ := Option.map_eq_some_iff.mp hlisted
  refine ⟨w, r, hw, hr, hstatus, hreceived.mpr ⟨d, hlast, old, hold, ?_⟩⟩
  rw [hdecided]
  decide

section Losing

variable {site : Site} {a : Agent.State} {s : Backend.State} {w : World} {events : List Event}
  {r : Backend.ElevationRequest} {device : Backend.Device} {time : Datetime}

/-- Once the watermark is past the time of a decision, the decision is never received just if it was not
committed when the backend listed the last response whose poll asked for that time. Restarts, later polls
and whatever else happens make no difference. -/
theorem decision_lost_iff {t : DateTimeOffset} (hinit : s.Initial)
    (hw : (World.init a s).run site events = some w)
    (hr : w.backend.shared.state.request r.id = some r) (htime : r.reviewedAt = some time)
    (hdevice : w.backend.shared.state.device r.deviceId = some device)
    (hunique : ∀ id d, w.backend.shared.state.device id = some d →
      d.deviceUuid = device.deviceUuid → id = r.deviceId)
    (hwatermark : Agent.lastWatermark w.agent.shared.log = some t) (hpassed : time < t.toDatetime) :
    (∀ later w', w.run site later = some w' → ¬ w'.Received r.requestUuid) ↔
      ∀ d, w.lastAsking device time = some d → ¬ Decided d.listed r.id := by
  constructor
  · intro hlost d hd hdecided
    apply hlost [] w rfl
    have hasks := List.find?_some (p := fun d : Delivery => d.poll.asksFor device time) hd
    exact received_of_decided hinit hw hr htime hunique (List.mem_of_find?_eq_some hd) hasks hdecided
  · intro hundecided later w' hlater hreceived
    have hrun : (World.init a s).run site (events ++ later) = some w' := by
      rw [World.run_append, hw]
      exact hlater
    obtain ⟨⟨labels, hagent⟩, -⟩ := exists_runs hw
    obtain ⟨-, labels', hbackend⟩ := exists_runs hw
    obtain ⟨-, last, hlast⟩ := exists_runs hlater
    have hevolves := (Backend.reachable_inv hinit (run_forget hbackend) (run_forget hlast)).2.2
    -- the request and its device are what they were
    obtain ⟨r', hr', hdecides⟩ := hevolves.request r.id r hr
    have hstatus : r.status ≠ .pending :=
      ((backend_run hinit hw).1.linked.reviewed _ r hr).mp (by rw [htime]; rfl)
    obtain ⟨device', hdevice', hdeviceUuid⟩ := hevolves.device r.deviceId device hdevice
    obtain ⟨d, hd, hasks, hdecided⟩ := exists_of_received hinit hrun (hdecides.id ▸ hr')
      ((hdecides.final hstatus).2.2.trans htime) (hdecides.deviceId ▸ hdevice')
      (hdecides.requestUuid ▸ hreceived)
    obtain ⟨new, hnew, hsince⟩ := World.later_deliveries hagent hlater hwatermark
    have hasks' : d.poll.asksFor device time = true := by
      rw [Poll.asksFor, ← hdeviceUuid]
      exact hasks
    rw [hnew] at hd
    rcases List.mem_append.mp hd with hd | hd
    · -- a later poll asks for a later time
      simp only [Poll.asksFor, Bool.and_eq_true, decide_eq_true_eq] at hasks'
      have hle : d.poll.sinceUtc.utcTicks / 10 ≤ time.micros := hasks'.2
      have hlt : time.micros < t.utcTicks / 10 := hpassed
      have := hsince d hd
      omega
    · have hfound := exists_mem_iff_find (P := fun d : Delivery => Decided d.listed r.id)
        (p := fun d : Delivery => d.poll.asksFor device time) (World.sound_run hinit hw).ordered
          fun d e h hd => hd.mono h
      obtain ⟨e, he, hdecided'⟩ := hfound.mp ⟨d, hd, hasks', hdecides.id ▸ hdecided⟩
      exact hundecided e he hdecided'

end Losing

/-- A decision that is made after the poll is served, and before the worker sets the watermark, is never
received. -/
theorem decision_lost_iff_sample : ∃ w r time t, Sample.start.run Sample.site Sample.lost = some w ∧
    w.backend.shared.state.request r.id = some r ∧ r.status = .approved ∧ r.reviewedAt = some time ∧
    Agent.lastWatermark w.agent.shared.log = some t ∧ time < t.toDatetime ∧
    ∀ later w', w.run Sample.site later = some w' → ¬ w'.Received r.requestUuid := by
  have hpicture := Sample.exists_of_picture Sample.run_lost rfl rfl
  obtain ⟨w, r, device, t, d, hw, hr, hstatus, htime, hdevice, hunique, ht, hticks, hlast,
    hlisted⟩ := hpicture
  have hpassed : (⟨Backend.Sample.noon.micros + 1000000, by decide⟩ : Datetime) < t.toDatetime := by
    change Backend.Sample.noon.micros + 1000000 < t.utcTicks / 10
    rw [hticks]
    decide
  have hlost := decision_lost_iff Backend.Sample.database_initial hw hr htime hdevice hunique ht hpassed
  refine ⟨w, r, _, t, hw, hr, hstatus, htime, ht, hpassed, hlost.mpr fun d' hd' hdecided => ?_⟩
  obtain rfl := Option.some.inj (hlast.symm.trans hd')
  obtain ⟨old, hold, hopen⟩ := Option.map_eq_some_iff.mp hlisted
  obtain ⟨r', hr', hstatus'⟩ := hdecided
  obtain rfl := Option.some.inj (hold.symm.trans hr')
  exact hstatus' hopen

end ElevateGate.Channel
