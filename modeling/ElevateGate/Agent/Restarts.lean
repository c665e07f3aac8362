import ElevateGate.Agent.Outcomes

/-!
# What a restart forgets

The state store is in memory. A request that was tracked before the service restarted is unknown
afterwards, and stays so: its identifier was drawn, and is not drawn again.
-/

namespace ElevateGate.Agent

open Interaction Text

/-- A request that was tracked once is unknown, and no thread has found it since it was started. -/
structure Forgotten (casing : Casing) (id : String) (r : Record) : Prop where
  sourced : Sourced casing r
  tracked : ∃ path, TrackedAs r.log id path
  unknown : r.state.requests id = none
  unseen : ∀ i before t, (⟨before, .getValueOrDefault id, some t⟩ : Deed) ∉ mine i r.log

section Runs

variable {host : Host} {accepts : Tid → Call → Bool} {s s' : State} {id path : String}
  {log : List (Moment Op Res Tid Event State)}

/-- A step that is no deed finds nothing. -/
private theorem unseen_quiet {moment : Moment Op Res Tid Event State}
    (hunseen : ∀ i before t, (⟨before, .getValueOrDefault id, some t⟩ : Deed) ∉ mine i log)
    (hmoment : ∀ i deed, moment ≠ .performed i deed) (i : Tid) (before : State) (t : TrackedRequest) :
    (⟨before, .getValueOrDefault id, some t⟩ : Deed) ∉ mine i (moment :: log) := by
  rcases (mine_quiet hmoment : mine i (_ :: log) = mine i log ∨ _) with hmine | hmine <;> rw [hmine]
  · exact hunseen i before t
  · exact List.not_mem_nil

/-- Every step leaves a forgotten request forgotten. -/
theorem preserved_forgotten :
    Preserved (system host accepts) .free (Traced host) (Forgotten host.casing id) where
  perform i call o choice answer s s' log h hallowed hguard hperform := by
    obtain ⟨path, htracked⟩ := h.tracked
    refine ⟨preserved_sourced.perform i call o choice answer s s' log h.sourced hallowed hguard hperform,
      ⟨path, htracked.cons⟩, ?_, fun k before t hmem => ?_⟩
    · rw [Option.eq_none_iff_forall_ne_some]
      intro t ht
      obtain hold | rfl | ⟨-, t', ht'⟩ := (perform_effect hperform).requests_or ht
      · exact absurd (hold.symm.trans h.unknown) (by simp)
      · -- an entry is set under an identifier that was just drawn
        obtain ⟨guid, hguid, rfl, -⟩ : Submitting host (mine i log) (.setItem id t) := by
          cases call with
          | pollingWorker ticks => exact absurd rfl (hallowed.sets id t)
          | _ => exact hallowed
        exact (h.sourced.owned i guid hguid).2.1 path htracked
      · exact absurd (ht'.symm.trans h.unknown) (by simp)
    · by_cases hik : i = k
      · subst hik
        rw [mine_performed_self, List.mem_cons] at hmem
        rcases hmem with heq | hmem
        · cases heq
          exact absurd ((perform_getValueOrDefault hperform).symm.trans h.unknown) (by simp)
        · exact h.unseen i before t hmem
      · rw [mine_performed_ne hik] at hmem
        exact h.unseen k before t hmem
  stop i s log h :=
    ⟨preserved_sourced.stop i s log h.sourced, h.tracked.imp fun _ htracked => htracked.cons, h.unknown,
      unseen_quiet h.unseen (by simp)⟩
  reset s s' log h hreset :=
    ⟨preserved_sourced.reset s s' log h.sourced hreset, h.tracked.imp fun _ htracked => htracked.cons,
      by rw [← Option.some.inj hreset]; rfl, unseen_quiet h.unseen (by simp)⟩
  env event s s' log h hguard henv :=
    ⟨preserved_sourced.env event s s' log h.sourced hguard henv,
      h.tracked.imp fun _ htracked => htracked.cons, (congrFun (env_requests henv) id).trans h.unknown,
      unseen_quiet h.unseen (by simp)⟩

variable {labels labels' : List (Label Tid Choice Event Call)}
  {c c' c'' : Config Op Res ClrException Answer Tid Call Record}

/-- A restart forgets what was tracked, and ends every thread. -/
theorem forgotten_reset (hsourced : Sourced host.casing c.shared) (htracked : TrackedAs c.shared.log id path)
    (hreset : ((system host accepts).recorded .free).step .reset c = some c') :
    Forgotten host.casing id c'.shared ∧ ∀ i, c'.thread i = none := by
  have heq : (⟨⟨c.shared.state.restart, .restarted :: c.shared.log⟩, fun _ => none⟩ :
      Config Op Res ClrException Answer Tid Call Record) = c' := Option.some.inj hreset
  subst heq
  have hpreserved : Preserved (system host accepts) .free (Traced host) (Sourced host.casing) :=
    preserved_sourced
  have hsourced' : Sourced host.casing ⟨c.shared.state.restart, .restarted :: c.shared.log⟩ :=
    hpreserved.reset _ _ _ hsourced rfl
  exact ⟨⟨hsourced', ⟨path, htracked.cons⟩, rfl, fun _ _ _ => List.not_mem_nil⟩, fun _ => rfl⟩

/-- It stays forgotten, and no query of its status succeeds. -/
theorem forgotten_run (hforgotten : Forgotten host.casing id c.shared) (hthreads : ∀ i, c.thread i = none)
    (hrun : ((system host accepts).recorded .free).run labels c = some c') :
    c'.shared.state.requests id = none ∧ ∀ i message,
      c'.thread i = some (.getStatus (some id), .pure (.response message)) → message.success = false := by
  have hfree : ∀ {P : Prop} i call (program : Service Answer), c.thread i = some (call, program) → P :=
    fun i _ _ hthread => absurd (hthread.symm.trans (hthreads i)) (by simp)
  obtain ⟨-, hforgotten'⟩ := recorded_run follows_traced preserved_forgotten
    (fun i call program => hfree i call program) hforgotten hrun
  have htrivial : Preserved (system host accepts) .free (fun _ => Justifying) fun _ => True :=
    ⟨fun _ _ _ _ _ _ _ _ _ _ _ _ => trivial, fun _ _ _ _ => trivial, fun _ _ _ _ _ => trivial,
      fun _ _ _ _ _ _ _ => trivial⟩
  obtain ⟨hhonoring, -⟩ := honored_run honors_answered htrivial
    (fun i call program => hfree i call program) trivial hrun
  refine ⟨hforgotten'.unknown, fun i message hthread => ?_⟩
  cases hsuccess : message.success with
  | false => rfl
  | true =>
    obtain ⟨requestId, before, t, hid, hmem, -⟩ := looked_of_thread hhonoring hthread hsuccess
    obtain rfl := Option.some.inj hid
    exact absurd hmem (hforgotten'.unseen i before t)

/-- A request that was submitted before the service restarted is unknown afterwards, in every run: no
query of its status succeeds any more. -/
theorem restart_forgets (hstart : ∀ id, s.requests id = none)
    (hrun : ((system host accepts).recorded .free).run labels (System.init ⟨s, []⟩) = some c)
    (htracked : TrackedAs c.shared.log id path)
    (hreset : ((system host accepts).recorded .free).step .reset c = some c')
    (hrun' : ((system host accepts).recorded .free).run labels' c' = some c'') :
    c''.shared.state.requests id = none ∧ ∀ i message,
      c''.thread i = some (.getStatus (some id), .pure (.response message)) →
      message.success = false := by
  obtain ⟨-, hsourced⟩ :=
    recorded_run follows_traced preserved_sourced (obedient_init _) (sourced_nil hstart) hrun
  obtain ⟨hforgotten, hthreads⟩ := forgotten_reset hsourced htracked hreset
  exact forgotten_run hforgotten hthreads hrun'

end Runs

end ElevateGate.Agent
