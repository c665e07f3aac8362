import ElevateGate.Agent.Provenance
import ElevateGate.Approval.Absorption

/-!
# Submission and execution agree on the file

The path of a request is validated twice: when the user submits it and, long after, when its
approval is executed. The second validation answers with the path that the first has answered with,
so the file that is hashed and started is the one that was reported.
-/

namespace ElevateGate.Agent

open Interaction Time Text

section Validation

variable {casing : Casing} {raw raw' path path' : String}

/-- A canonical path is its own canonical path. -/
theorem tryCanonicalize_canonical (h : WindowsPathRules.tryCanonicalize raw = some path) :
    WindowsPathRules.tryCanonicalize path = some path := by
  obtain ⟨letter, segments, hpath, rfl⟩ := tryCanonicalize_eq_some.mp h
  refine tryCanonicalize_eq_some.mpr ⟨letter.toUpper, segments, hpath.canonical, ?_⟩
  rw [canonicalPath_toUpper hpath]

/-- The validator accepts the path with which it has accepted another. -/
theorem eval_validate_canonical (oracle : (o : Op) → Res o)
    (h : (PathValidator.validate raw).eval oracle = .ok (.valid path)) :
    (PathValidator.validate path).eval oracle = .ok (.valid path) := by
  obtain ⟨letter, segments, hpath, hfixed, rfl⟩ := (eval_validate_eq_valid oracle).mp h
  refine (eval_validate_eq_valid oracle).mpr ⟨letter.toUpper, segments, hpath.canonical, ?_, ?_⟩
  · rwa [driveRoot_toUpper hpath]
  · rw [canonicalPath_toUpper hpath]

end Validation

section Runs

variable {host : Host} {accepts : Tid → Call → Bool}

/-- What was found was looked up. -/
private theorem lookup_of_found {done : List Deed} {id : String} {t : TrackedRequest}
    (h : found done = some (id, some t)) : ∃ before, ⟨before, .getValueOrDefault id, some t⟩ ∈ done := by
  induction done with
  | nil => contradiction
  | cons deed rest ih =>
    obtain ⟨before, o, answer⟩ := deed
    cases o with
    | getValueOrDefault requestId =>
      obtain ⟨rfl, hanswer⟩ := Prod.mk.inj (Option.some.inj h)
      obtain rfl : answer = some t := hanswer
      exact ⟨before, List.mem_cons_self⟩
    | _ =>
      obtain ⟨before', hmem⟩ := ih h
      exact ⟨before', List.mem_cons_of_mem _ hmem⟩

/-- What the worker does to a file, it does to the path under which the request is tracked. -/
private theorem Sourced.launches {r : Recorded Op Res Tid Event State} {i : Tid} {o : Op}
    (h : Sourced host.casing r) (hhandling : Handling host (mine i r.log) o)
    (ho : (∃ path, o.path = some path) ∨ ∃ root, o = .classify root) :
    ∃ id t, found (mine i r.log) = some (id, some t) ∧ TrackedAs r.log id t.canonicalPath ∧
      Submittable host.casing t.canonicalPath ∧ o.Launches host id t.canonicalPath ∧
      ∀ path, o.path = some path → path = t.canonicalPath := by
  obtain ⟨id, t, hfound, hlaunches⟩ := hhandling.launches ho
  obtain ⟨before, hmem⟩ := lookup_of_found hfound
  have htracked := h.looked i before id t (mem_log_of_mem_mine hmem)
  obtain ⟨⟨⟨raw, hraw⟩, hextension⟩, -⟩ := h.submittable id _ htracked
  refine ⟨id, t, hfound, htracked, ⟨⟨raw, hraw⟩, hextension⟩, hlaunches, fun path hpath => ?_⟩
  have hsame := hlaunches.path path hpath
  rw [tryCanonicalize_canonical hraw] at hsame
  exact (Option.some.inj hsame).symm

/-- The validator accepts its own answers, two paths that it accepts have the same canonical path
exactly if their drives agree ignoring case and their segments are equal, and the extension of a
tracked path is an allowed one. What the worker validates, hashes and starts for a request is the
path that the submission reports. -/
theorem submission_execution_agree {s : State}
    {labels rest : List (Label Tid Choice Event Call)}
    {c c' : Config Op Res ClrException Answer Tid Call Record}
    (hstart : ∀ id, s.requests id = none)
    (hrun : ((system host accepts).recorded .free).run labels (System.init ⟨s, []⟩) = some c)
    (hrest : ((system host accepts).recorded .free).run rest c = some c') :
    (∀ (oracle : (o : Op) → Res o) raw path,
      (PathValidator.validate raw).eval oracle = .ok (.valid path) →
        (PathValidator.validate path).eval oracle = .ok (.valid path)) ∧
    (∀ (oracle : (o : Op) → Res o) raw raw' path path',
      (PathValidator.validate raw).eval oracle = .ok (.valid path) →
      (PathValidator.validate raw').eval oracle = .ok (.valid path') →
        ∃ letter segments letter' segments', IsPath raw letter segments ∧
          IsPath raw' letter' segments' ∧
          (path = path' ↔ letter.toUpper = letter'.toUpper ∧ segments = segments')) ∧
    (∀ id t, c.shared.state.requests id = some t →
      WindowsPathRules.tryCanonicalize t.canonicalPath = some t.canonicalPath ∧
        isAllowedExtension host.casing (getExtension t.canonicalPath) = true) ∧
    ∀ i ticks o next, c.thread i = some (.pollingWorker ticks, .perform o next) →
      ((∃ path, o.path = some path) ∨ ∃ root, o = .classify root) →
      ∃ id t, found (mine i c.shared.log) = some (id, some t) ∧
        (∀ path, o.path = some path → path = t.canonicalPath) ∧
        (∀ root, o = .classify root →
          ∃ letter segments, IsPath t.canonicalPath letter segments ∧ root = driveRoot letter) ∧
        (∀ startInfo authority, o = .startProcess startInfo authority →
          authority.expectedRequestId = id ∧
          startInfo = ExecutionEngine.startInfo host t.canonicalPath
            (getExtension t.canonicalPath)) ∧
        ∀ j before bearerToken request answer,
          .performed j ⟨before, .sendRequest bearerToken request, answer⟩ ∈ c'.shared.log →
          request.requestId = id → request.file.fullPath = t.canonicalPath := by
  obtain ⟨hobedient, hsourced⟩ :=
    recorded_run follows_traced preserved_sourced (obedient_init _) (sourced_nil hstart) hrun
  obtain ⟨-, hsourced'⟩ :=
    recorded_run follows_traced preserved_sourced hobedient hsourced hrest
  refine ⟨fun oracle raw path => eval_validate_canonical oracle,
    fun oracle raw raw' path path' h h' => ?_, fun id t ht => ?_, fun i ticks o next hthread ho => ?_⟩
  · obtain ⟨letter, segments, hpath, -, rfl⟩ := (eval_validate_eq_valid oracle).mp h
    obtain ⟨letter', segments', hpath', -, rfl⟩ := (eval_validate_eq_valid oracle).mp h'
    exact ⟨letter, segments, letter', segments', hpath, hpath', canonicalPath_inj hpath hpath'⟩
  · obtain ⟨⟨⟨raw, hraw⟩, hextension⟩, -⟩ := hsourced.submittable id _ (hsourced.tracked id t ht)
    exact ⟨tryCanonicalize_canonical hraw, hextension⟩
  · have hhandling : Handling host (mine i c.shared.log) o := by
      cases hobedient i _ _ hthread with
      | perform allowed => exact allowed
    obtain ⟨id, t, hfound, htracked, -, hlaunches, hpath⟩ := hsourced.launches hhandling ho
    refine ⟨id, t, hfound, hpath, hlaunches.classified, fun startInfo authority heq => ?_, ?_⟩
    · subst heq
      obtain ⟨token, deviceId, -, hid, -⟩ := hlaunches.executes
      have hstarted := hlaunches.started startInfo authority rfl
      rw [hpath authority.canonicalPath rfl] at hstarted
      exact ⟨hid, hstarted⟩
    · rintro j before bearerToken request answer hmem rfl
      have hsent := hsourced'.sent j before bearerToken request answer hmem
      obtain ⟨k, before', t', answer', hset, hcanonical⟩ := htracked
      exact hsourced'.single _ _ _ hsent
        ⟨k, before', t', answer', (log_suffix_run hrest).subset hset, hcanonical⟩

end Runs

namespace Sample

/-- The worker polls the approval of the request and is about to start its process. -/
def aboutToStart : List (Label Tid Choice Event Call) :=
  lostSubmission ++ poll approved ++ List.replicate 3 (.perform 0 .unit) ++
    [.perform 0 (.drive .fixed)] ++ List.replicate 7 (.perform 0 .unit)

/-- Whether the worker is about to start a process. -/
def starting (c : Config Op Res ClrException Answer Tid Call Record) : Bool :=
  match c.thread 0 with
  | some (.pollingWorker 0, .perform (.startProcess _ _) _) => true
  | _ => false

/-- A worker that is about to start a process. -/
private theorem thread_of_starting {c : Config Op Res ClrException Answer Tid Call Record}
    (h : starting c = true) : ∃ info authority next,
      c.thread 0 = some (.pollingWorker 0, .perform (.startProcess info authority) next) := by
  simp only [starting] at h
  split at h
  · next info authority next hthread => exact ⟨info, authority, next, hthread⟩
  · contradiction

end Sample

/-- The path that is about to be started is the one that was tracked. -/
theorem submission_execution_agree_sample :
    ∃ c info authority next, ((system Sample.trackedHost serviceCalls).recorded .free).run
        Sample.aboutToStart (System.init ⟨Sample.state, []⟩) = some c ∧
      c.thread 0 = some (.pollingWorker 0, .perform (.startProcess info authority) next) ∧
      ∃ id t, found (mine 0 c.shared.log) = some (id, some t) ∧
        authority.canonicalPath = t.canonicalPath := by
  have hrun : (((system Sample.trackedHost serviceCalls).recorded .free).run Sample.aboutToStart
      (System.init ⟨Sample.state, []⟩)).map Sample.starting = some true := by
    decide +kernel
  obtain ⟨c, hc, hstarting⟩ := Option.map_eq_some_iff.mp hrun
  obtain ⟨info, authority, next, hthread⟩ := Sample.thread_of_starting hstarting
  have hagree := submission_execution_agree (fun _ => rfl) hc
    (show ((system Sample.trackedHost serviceCalls).recorded .free).run [] c = some c from rfl)
  obtain ⟨id, t, hfound, hpath, -⟩ := hagree.2.2.2 0 0 _ next hthread (Or.inl ⟨_, rfl⟩)
  exact ⟨c, info, authority, next, hc, hthread, id, t, hfound, hpath _ rfl⟩

end ElevateGate.Agent
