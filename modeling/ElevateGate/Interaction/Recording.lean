import ElevateGate.Interaction.System
import Mathlib.Algebra.BigOperators.Group.Finset.Piecewise
import Mathlib.Algebra.Order.BigOperators.Group.Finset
import Mathlib.Data.Finset.Dedup

/-!
# Recorded runs

A recorded system keeps, beside its state, the log of everything that happened in the run: every
operation with the state it found and the answer it got. Two kinds of argument then combine. What a
program may do next, given what it has done so far, is a property of the program alone and is proved
by recursion on it (`Obeys`). What the operations do to the state is proved one step at a time, and
each step may use that the thread which takes it obeys its program.

A guard restricts the runs that are considered: a guarded run is a run whose steps all meet the
guard.
-/

namespace Interaction

/-- An operation that a thread performed, with the state it found and the answer it got. -/
structure Deed (Op : Type) (Res : Op → Type) (σ : Type) where
  before : σ
  op : Op
  answer : Res op

/-- One step of a run. -/
inductive Moment (Op : Type) (Res : Op → Type) (Tid Event σ : Type)
  | performed (i : Tid) (deed : Deed Op Res σ)
  | stopped (i : Tid)
  | restarted
  | happened (event : Event)

/-- A state and the steps that led to it, the latest first. -/
structure Recorded (Op : Type) (Res : Op → Type) (Tid Event σ : Type) where
  state : σ
  log : List (Moment Op Res Tid Event σ)

/-- The steps that a run may take. -/
structure Guard (Op : Type) (Res : Op → Type) (Tid Choice Event σ : Type) where
  perform : Tid → Op → Choice → Recorded Op Res Tid Event σ → Bool
  env : Event → Recorded Op Res Tid Event σ → Bool

variable {Op : Type} {Res : Op → Type} {ε α β γ Tid Choice Event Call σ : Type}

/-- Every step. -/
def Guard.free : Guard Op Res Tid Choice Event σ where
  perform _ _ _ _ := true
  env _ _ := true

/-- Keep the log of a system, and refuse the steps that do not meet the guard. -/
def System.recorded (sys : System Op Res ε α Tid Choice Event Call σ)
    (guard : Guard Op Res Tid Choice Event σ) :
    System Op Res ε α Tid Choice Event Call (Recorded Op Res Tid Event σ) where
  program := sys.program
  perform i op choice r :=
    if guard.perform i op choice r then
      (sys.perform i op choice r.state).map fun result =>
        (result.1, ⟨result.2, .performed i ⟨r.state, op, result.1⟩ :: r.log⟩)
    else none
  env event r :=
    if guard.env event r then
      (sys.env event r.state).map fun s => ⟨s, .happened event :: r.log⟩
    else none
  stop i r := ⟨sys.stop i r.state, .stopped i :: r.log⟩
  reset r := (sys.reset r.state).map fun s => ⟨s, .restarted :: r.log⟩

/-- A recorded step that performs an operation, taken apart. -/
theorem System.recorded_perform {sys : System Op Res ε α Tid Choice Event Call σ}
    {guard : Guard Op Res Tid Choice Event σ} {i : Tid} {op : Op} {choice : Choice}
    {answer : Res op} {r r' : Recorded Op Res Tid Event σ}
    (h : (sys.recorded guard).perform i op choice r = some (answer, r')) :
    guard.perform i op choice r = true ∧
      sys.perform i op choice r.state = some (answer, r'.state) ∧
      r'.log = .performed i ⟨r.state, op, answer⟩ :: r.log := by
  simp only [System.recorded] at h
  split at h
  · next hguard =>
    obtain ⟨⟨answer', s⟩, hs, heq⟩ := Option.map_eq_some_iff.mp h
    obtain ⟨rfl, rfl⟩ := Prod.mk.inj heq
    exact ⟨hguard, hs, rfl⟩
  · contradiction

/-- A step of a recorded system adds one moment to the log, and leaves the threads that have ended
and that it does not stop. -/
private theorem step_log [DecidableEq Tid] {sys : System Op Res ε α Tid Choice Event Call σ}
    {guard : Guard Op Res Tid Choice Event σ} {label : Label Tid Choice Event Call}
    {c c' : Config Op Res ε α Tid Call (Recorded Op Res Tid Event σ)}
    (h : (sys.recorded guard).step label c = some c') :
    ∃ moment, c'.shared.log = moment :: c.shared.log ∧
      ∀ i call (program : Program Op Res ε α), c.thread i = some (call, program) →
        program.pending = none → moment ≠ .stopped i → moment ≠ .restarted →
        c'.thread i = some (call, program) := by
  cases label with
  | perform j choice =>
    obtain ⟨call', op, next, answer, r, hthread', hperform, rfl⟩ := System.step_perform _ h
    refine ⟨_, (System.recorded_perform hperform).2.2, fun i call program hthread hended _ _ => ?_⟩
    by_cases hj : i = j
    · subst hj
      obtain ⟨-, rfl⟩ := Prod.mk.inj (Option.some.inj (hthread'.symm.trans hthread))
      contradiction
    · exact (Function.update_of_ne hj _ _).trans hthread
  | spawn j call' =>
    obtain ⟨program', _, rfl⟩ := System.step_spawn _ h
    refine ⟨_, rfl, fun i call program hthread _ hstopped _ => ?_⟩
    exact (Function.update_of_ne (by rintro rfl; exact hstopped rfl) _ _).trans hthread
  | kill j =>
    obtain rfl := Option.some.inj h
    refine ⟨_, rfl, fun i call program hthread _ hstopped _ => ?_⟩
    exact (Function.update_of_ne (by rintro rfl; exact hstopped rfl) _ _).trans hthread
  | reset =>
    obtain ⟨r, hr, rfl⟩ := Option.map_eq_some_iff.mp h
    obtain ⟨s, -, rfl⟩ := Option.map_eq_some_iff.mp hr
    exact ⟨_, rfl, fun _ _ _ _ _ _ hrestarted => absurd rfl hrestarted⟩
  | env event =>
    obtain ⟨r, hr, rfl⟩ := Option.map_eq_some_iff.mp h
    simp only [System.recorded] at hr
    split at hr
    · obtain ⟨s, -, rfl⟩ := Option.map_eq_some_iff.mp hr
      exact ⟨_, rfl, fun _ _ _ hthread _ _ _ => hthread⟩
    · contradiction

/-- A step of a recorded system adds to the log. -/
private theorem log_suffix_step [DecidableEq Tid] {sys : System Op Res ε α Tid Choice Event Call σ}
    {guard : Guard Op Res Tid Choice Event σ} {label : Label Tid Choice Event Call}
    {c c' : Config Op Res ε α Tid Call (Recorded Op Res Tid Event σ)}
    (h : (sys.recorded guard).step label c = some c') : c.shared.log <:+ c'.shared.log := by
  obtain ⟨moment, hlog, -⟩ := step_log h
  exact hlog ▸ List.suffix_cons _ _

/-- So does a run. -/
theorem log_suffix_run [DecidableEq Tid] {sys : System Op Res ε α Tid Choice Event Call σ}
    {guard : Guard Op Res Tid Choice Event σ} {labels : List (Label Tid Choice Event Call)}
    {c c' : Config Op Res ε α Tid Call (Recorded Op Res Tid Event σ)}
    (h : (sys.recorded guard).run labels c = some c') : c.shared.log <:+ c'.shared.log := by
  induction labels generalizing c with
  | nil => exact Option.some.inj h ▸ List.suffix_refl _
  | cons label rest ih =>
    obtain ⟨mid, hstep, hrest⟩ := Option.bind_eq_some_iff.mp h
    exact (log_suffix_step hstep).trans (ih hrest)

/-- Every moment of the log is a step of the run. -/
theorem step_of_moment [DecidableEq Tid] {sys : System Op Res ε α Tid Choice Event Call σ}
    {guard : Guard Op Res Tid Choice Event σ} {labels : List (Label Tid Choice Event Call)}
    {c c' : Config Op Res ε α Tid Call (Recorded Op Res Tid Event σ)}
    (hrun : (sys.recorded guard).run labels c = some c') {moment : Moment Op Res Tid Event σ}
    {older : List (Moment Op Res Tid Event σ)} (hsuffix : (moment :: older) <:+ c'.shared.log)
    (holder : c.shared.log <:+ older) :
    ∃ first label rest a b, labels = first ++ label :: rest ∧
      (sys.recorded guard).run first c = some a ∧ (sys.recorded guard).step label a = some b ∧
      (sys.recorded guard).run rest b = some c' ∧ a.shared.log = older ∧
      b.shared.log = moment :: older := by
  induction labels generalizing c with
  | nil =>
    obtain rfl := Option.some.inj hrun
    have hlength := (hsuffix.trans holder).length_le
    simp at hlength
  | cons label labels ih =>
    obtain ⟨mid, hstep, hrest⟩ := Option.bind_eq_some_iff.mp hrun
    obtain ⟨moment', hlog, -⟩ := step_log hstep
    by_cases heq : c.shared.log = older
    · -- the moment is the first step
      subst heq
      have hmid : mid.shared.log = moment :: c.shared.log := by
        refine (List.suffix_of_suffix_length_le (log_suffix_run hrest) hsuffix ?_).eq_of_length ?_ <;>
          simp [hlog]
      exact ⟨[], label, labels, c, mid, rfl, rfl, hstep, hrest, rfl, hmid⟩
    · have hmid : mid.shared.log <:+ older := by
        refine List.suffix_of_suffix_length_le (log_suffix_run hrest)
          ((List.suffix_cons moment older).trans hsuffix) ?_
        have hlength := holder.length_le
        have hne : c.shared.log.length ≠ older.length := fun h => heq (holder.eq_of_length h)
        rw [hlog, List.length_cons]
        omega
      obtain ⟨first, label', rest, a, b, rfl, hfirst, hrest'⟩ := ih hrest hmid
      exact ⟨label :: first, label', rest, a, b, rfl, System.run_cons _ hstep hfirst, hrest'⟩

/-- A recorded deed was performed on the state that it says it found. -/
theorem perform_of_step [DecidableEq Tid] {sys : System Op Res ε α Tid Choice Event Call σ}
    {guard : Guard Op Res Tid Choice Event σ} {label : Label Tid Choice Event Call}
    {c c' : Config Op Res ε α Tid Call (Recorded Op Res Tid Event σ)} {i : Tid}
    {deed : Deed Op Res σ} (hstep : (sys.recorded guard).step label c = some c')
    (hlog : c'.shared.log = .performed i deed :: c.shared.log) :
    deed.before = c.shared.state ∧
      ∃ choice, sys.perform i deed.op choice deed.before = some (deed.answer, c'.shared.state) := by
  cases label with
  | perform j choice =>
    obtain ⟨call', op, next, answer, r, hthread', hperform, rfl⟩ := System.step_perform _ hstep
    obtain ⟨-, hs, hlog'⟩ := System.recorded_perform hperform
    obtain ⟨rfl, rfl⟩ := Moment.performed.inj (List.cons.inj (hlog.symm.trans hlog')).1
    exact ⟨rfl, choice, hs⟩
  | spawn j call' =>
    obtain ⟨program', _, rfl⟩ := System.step_spawn _ hstep
    cases (List.cons.inj hlog).1
  | kill j =>
    obtain rfl := Option.some.inj hstep
    cases (List.cons.inj hlog).1
  | reset =>
    obtain ⟨r, hr, rfl⟩ := Option.map_eq_some_iff.mp hstep
    obtain ⟨s, -, rfl⟩ := Option.map_eq_some_iff.mp hr
    cases (List.cons.inj hlog).1
  | env event =>
    obtain ⟨r, hr, rfl⟩ := Option.map_eq_some_iff.mp hstep
    simp only [System.recorded] at hr
    split at hr
    · obtain ⟨s, -, rfl⟩ := Option.map_eq_some_iff.mp hr
      cases (List.cons.inj hlog).1
    · contradiction

/-- What a thread has done since it was last started, the latest deed first. -/
def mine [DecidableEq Tid] (i : Tid) : List (Moment Op Res Tid Event σ) → List (Deed Op Res σ)
  | [] => []
  | .performed j deed :: older => if j = i then deed :: mine i older else mine i older
  | .stopped j :: older => if j = i then [] else mine i older
  | .restarted :: _ => []
  | .happened _ :: older => mine i older

section Mine

variable [DecidableEq Tid] {i j : Tid} {log : List (Moment Op Res Tid Event σ)}

@[simp] theorem mine_performed_self (deed : Deed Op Res σ) :
    mine i (.performed i deed :: log) = deed :: mine i log := if_pos rfl

theorem mine_performed_ne (h : j ≠ i) (deed : Deed Op Res σ) :
    mine i (.performed j deed :: log) = mine i log := if_neg h

@[simp] theorem mine_stopped_self : mine i (.stopped i :: log) = [] := if_pos rfl

theorem mine_stopped_ne (h : j ≠ i) : mine i (.stopped j :: log) = mine i log := if_neg h

@[simp] theorem mine_restarted : mine i (.restarted :: log) = [] := rfl

@[simp] theorem mine_happened (event : Event) :
    mine i (.happened event :: log) = mine i log := rfl

/-- A step that is no deed leaves a thread's own deeds or ends the thread. -/
theorem mine_quiet {k : Tid} {m : Moment Op Res Tid Event σ}
    (h : ∀ i deed, m ≠ .performed i deed) :
    mine k (m :: log) = mine k log ∨ mine k (m :: log) = [] := by
  cases m with
  | performed i deed => exact absurd rfl (h i deed)
  | stopped i =>
    by_cases hi : i = k
    · subst hi
      exact Or.inr mine_stopped_self
    · exact Or.inl (mine_stopped_ne hi)
  | restarted => exact Or.inr rfl
  | happened event => exact Or.inl rfl

/-- A thread's own deeds are in the log. -/
theorem mem_log_of_mem_mine {deed : Deed Op Res σ} (h : deed ∈ mine i log) :
    .performed i deed ∈ log := by
  induction log with
  | nil => simp [mine] at h
  | cons moment older ih =>
    cases moment with
    | performed j deed' =>
      by_cases hj : j = i
      · subst hj
        rw [mine_performed_self, List.mem_cons] at h
        rcases h with rfl | h
        · exact List.mem_cons_self
        · exact List.mem_cons_of_mem _ (ih h)
      · rw [mine_performed_ne hj] at h
        exact List.mem_cons_of_mem _ (ih h)
    | stopped j =>
      by_cases hj : j = i
      · subst hj
        simp at h
      · rw [mine_stopped_ne hj] at h
        exact List.mem_cons_of_mem _ (ih h)
    | restarted => simp at h
    | happened event =>
      rw [mine_happened] at h
      exact List.mem_cons_of_mem _ (ih h)

/-- Whether a thread was not stopped during some steps. -/
def Uninterrupted (i : Tid) (log : List (Moment Op Res Tid Event σ)) : Prop :=
  .stopped i ∉ log ∧ .restarted ∉ log

/-- What a thread has done that was not stopped meanwhile. -/
theorem mine_append {newer : List (Moment Op Res Tid Event σ)} (h : Uninterrupted i newer) :
    mine i (newer ++ log) = mine i newer ++ mine i log := by
  induction newer with
  | nil => rfl
  | cons moment newer ih =>
    obtain ⟨hstopped, hrestarted⟩ := h
    have ih := ih ⟨fun h => hstopped (List.mem_cons_of_mem _ h),
      fun h => hrestarted (List.mem_cons_of_mem _ h)⟩
    cases moment with
    | performed j deed =>
      by_cases hj : j = i
      · subst hj
        rw [List.cons_append, mine_performed_self, mine_performed_self, ih]
        rfl
      · rw [List.cons_append, mine_performed_ne hj, mine_performed_ne hj, ih]
    | stopped j =>
      have hj : j ≠ i := by
        rintro rfl
        simp at hstopped
      rw [List.cons_append, mine_stopped_ne hj, mine_stopped_ne hj, ih]
    | restarted => simp at hrestarted
    | happened event =>
      rw [List.cons_append, mine_happened, mine_happened, ih]

omit [DecidableEq Tid] in
/-- A thread that was not stopped was last started before. -/
theorem stopped_suffix {newer older base : List (Moment Op Res Tid Event σ)}
    {moment : Moment Op Res Tid Event σ} (h : Uninterrupted i newer) (hmoment : moment ≠ .stopped i)
    (hsuffix : (.stopped i :: base) <:+ newer ++ moment :: older) :
    (.stopped i :: base) <:+ older := by
  induction newer with
  | nil =>
    rcases List.suffix_cons_iff.mp hsuffix with heq | hsuffix
    · exact absurd (List.cons.inj heq).1.symm hmoment
    · exact hsuffix
  | cons newest newer ih =>
    obtain ⟨hstopped, hrestarted⟩ := h
    rcases List.suffix_cons_iff.mp hsuffix with heq | hsuffix
    · rw [(List.cons.inj heq).1] at hstopped
      exact absurd List.mem_cons_self hstopped
    · exact ih ⟨fun h => hstopped (List.mem_cons_of_mem _ h),
        fun h => hrestarted (List.mem_cons_of_mem _ h)⟩ hsuffix

/-- A thread's own deed was performed after the earlier ones, and since then the thread has done
only the later ones and was not stopped. -/
theorem exists_of_mine {deed : Deed Op Res σ} {new rest : List (Deed Op Res σ)}
    (h : mine i log = new ++ deed :: rest) :
    ∃ newer older, log = newer ++ .performed i deed :: older ∧ mine i older = rest ∧
      (∀ d, .performed i d ∈ newer → d ∈ new) ∧ Uninterrupted i newer := by
  induction log generalizing new with
  | nil => simp [mine] at h
  | cons moment older ih =>
    -- a step that neither is a deed of the thread nor stops it is one of the newer ones
    have hskip : mine i older = new ++ deed :: rest → (∀ d, moment ≠ .performed i d) →
        moment ≠ .stopped i → moment ≠ .restarted →
        ∃ newer older', moment :: older = newer ++ .performed i deed :: older' ∧
          mine i older' = rest ∧ (∀ d, .performed i d ∈ newer → d ∈ new) ∧
          Uninterrupted i newer := by
      intro hmine hother hstopped hrestarted
      obtain ⟨newer, older', rfl, hrest, hnew, hnot, hnot'⟩ := ih hmine
      refine ⟨moment :: newer, older', rfl, hrest, fun d hd => hnew d ?_, ?_⟩
      · exact (List.mem_cons.mp hd).resolve_left (hother d).symm
      · exact ⟨by simp [hnot, hstopped.symm], by simp [hnot', hrestarted.symm]⟩
    cases moment with
    | performed j d =>
      by_cases hj : j = i
      · subst hj
        rw [mine_performed_self] at h
        cases new with
        | nil =>
          obtain ⟨rfl, rfl⟩ := List.cons.inj h
          exact ⟨[], older, rfl, rfl, by simp, by simp [Uninterrupted]⟩
        | cons d' new =>
          obtain ⟨rfl, hmine⟩ := List.cons.inj h
          obtain ⟨newer, older', rfl, hrest, hnew, hnot, hnot'⟩ := ih hmine
          refine ⟨.performed j d :: newer, older', rfl, hrest, fun d' hd' => ?_, ?_⟩
          · rcases List.mem_cons.mp hd' with heq | hd'
            · rw [(Moment.performed.inj heq).2]
              exact List.mem_cons_self
            · exact List.mem_cons_of_mem _ (hnew d' hd')
          · exact ⟨by simp [hnot], by simp [hnot']⟩
      · rw [mine_performed_ne hj] at h
        exact hskip h (fun d' heq => hj (Moment.performed.inj heq).1) (by simp) (by simp)
    | stopped j =>
      by_cases hj : j = i
      · subst hj
        simp at h
      · rw [mine_stopped_ne hj] at h
        exact hskip h (by simp) (by simp [hj]) (by simp)
    | restarted => simp at h
    | happened event => exact hskip h (by simp) (by simp) (by simp)

/-- A thread's own deed is a step of any run since the thread was started. -/
theorem step_of_mine {sys : System Op Res ε α Tid Choice Event Call σ}
    {guard : Guard Op Res Tid Choice Event σ} {labels : List (Label Tid Choice Event Call)}
    {c c' : Config Op Res ε α Tid Call (Recorded Op Res Tid Event σ)}
    {base : List (Moment Op Res Tid Event σ)} (hrun : (sys.recorded guard).run labels c = some c')
    (hstart : c.shared.log = .stopped i :: base) {deed : Deed Op Res σ}
    {new rest : List (Deed Op Res σ)} (hmine : mine i c'.shared.log = new ++ deed :: rest) :
    ∃ first label last a b newer, labels = first ++ label :: last ∧
      (sys.recorded guard).run first c = some a ∧ (sys.recorded guard).step label a = some b ∧
      (sys.recorded guard).run last b = some c' ∧ mine i a.shared.log = rest ∧
      deed.before = a.shared.state ∧ mine i b.shared.log = deed :: rest ∧
      (∃ choice, sys.perform i deed.op choice deed.before = some (deed.answer, b.shared.state)) ∧
      c'.shared.log = newer ++ b.shared.log ∧ Uninterrupted i newer := by
  obtain ⟨newer, older, hlog, hrest, -, huninterrupted⟩ := exists_of_mine hmine
  have hsuffix : (.performed i deed :: older) <:+ c'.shared.log := ⟨newer, hlog.symm⟩
  have hstopped : (.stopped i :: base) <:+ newer ++ .performed i deed :: older := by
    rw [← hlog, ← hstart]
    exact log_suffix_run hrun
  have holder : c.shared.log <:+ older := by
    rw [hstart]
    exact stopped_suffix huninterrupted (by simp) hstopped
  obtain ⟨first, label, last, a, b, hlabels, hfirst, hstep, hlast, ha, hb⟩ :=
    step_of_moment hrun hsuffix holder
  obtain ⟨hbefore, hperform⟩ := perform_of_step hstep (hb.trans (by rw [ha]))
  refine ⟨first, label, last, a, b, newer, hlabels, hfirst, hstep, hlast, ?_, hbefore, ?_, hperform,
    ?_, huninterrupted⟩
  · rw [ha, hrest]
  · rw [hb, mine_performed_self, hrest]
  · rw [hb, hlog]

/-- A step that does not stop a thread leaves it its call, and does not interrupt it. -/
theorem thread_step_log {sys : System Op Res ε α Tid Choice Event Call σ}
    {guard : Guard Op Res Tid Choice Event σ} {label : Label Tid Choice Event Call} {call : Call}
    {program : Program Op Res ε α} {c c' : Config Op Res ε α Tid Call (Recorded Op Res Tid Event σ)}
    (hstep : (sys.recorded guard).step label c = some c') (hthread : c.thread i = some (call, program))
    (hkill : label ≠ .kill i) (hreset : label ≠ .reset) :
    (∃ program, c'.thread i = some (call, program)) ∧
      ∃ newer, c'.shared.log = newer ++ c.shared.log ∧ Uninterrupted i newer := by
  refine ⟨System.thread_step _ hstep hthread hkill hreset, ?_⟩
  cases label with
  | perform j choice =>
    obtain ⟨_, op, _, answer, ⟨s, log⟩, -, hperform, rfl⟩ := System.step_perform _ hstep
    obtain ⟨-, -, rfl⟩ := System.recorded_perform hperform
    exact ⟨[_], rfl, by simp [Uninterrupted]⟩
  | spawn j call' =>
    have hfree := System.free_of_spawn _ hstep
    obtain ⟨program', -, rfl⟩ := System.step_spawn _ hstep
    have hj : j ≠ i := by
      rintro rfl
      rw [hfree] at hthread
      contradiction
    exact ⟨[_], rfl, by simp [Uninterrupted, hj.symm]⟩
  | kill j =>
    obtain rfl := Option.some.inj hstep
    have hj : j ≠ i := by
      rintro rfl
      exact hkill rfl
    exact ⟨[_], rfl, by simp [Uninterrupted, hj.symm]⟩
  | reset => exact absurd rfl hreset
  | env event =>
    obtain ⟨r, hr, rfl⟩ := Option.map_eq_some_iff.mp hstep
    simp only [System.recorded] at hr
    split at hr
    · obtain ⟨s, -, rfl⟩ := Option.map_eq_some_iff.mp hr
      exact ⟨[_], rfl, by simp [Uninterrupted]⟩
    · contradiction

end Mine

section Counting

variable {p q : Deed Op Res σ → Bool} {log : List (Moment Op Res Tid Event σ)}

/-- Whether a moment is a deed with some property. -/
def Moment.isDeed (p : Deed Op Res σ → Bool) : Moment Op Res Tid Event σ → Bool
  | .performed _ deed => p deed
  | _ => false

/-- A new deed counts if it has the property. -/
theorem countP_performed (i : Tid) (deed : Deed Op Res σ) :
    (Moment.performed i deed :: log).countP (Moment.isDeed p) =
      log.countP (Moment.isDeed p) + (p deed).toNat := by
  rw [List.countP_cons]
  cases h : p deed <;> simp [Moment.isDeed, h]

variable [DecidableEq Tid]

/-- Whether a moment is a deed of a thread with some property. -/
def Moment.isDeedOf (i : Tid) (p : Deed Op Res σ → Bool) : Moment Op Res Tid Event σ → Bool
  | .performed j deed => decide (j = i) && p deed
  | _ => false

/-- The steps since a thread's last deed with some property, the latest first. -/
def since (i : Tid) (p : Deed Op Res σ → Bool) :
    List (Moment Op Res Tid Event σ) → List (Moment Op Res Tid Event σ)
  | [] => []
  | moment :: older => if moment.isDeedOf i p then [] else moment :: since i p older

theorem since_deed {i : Tid} {deed : Deed Op Res σ} (h : p deed = true) :
    since i p (.performed i deed :: log) = [] := by
  simp [since, Moment.isDeedOf, h]

theorem since_cons {i : Tid} {moment : Moment Op Res Tid Event σ}
    (h : moment.isDeedOf i p = false) : since i p (moment :: log) = moment :: since i p log := by
  simp [since, h]

/-- Steps that are not such deeds come after the last one. -/
theorem since_append {i : Tid} {newer : List (Moment Op Res Tid Event σ)}
    (h : ∀ moment ∈ newer, moment.isDeedOf i p = false) :
    since i p (newer ++ log) = newer ++ since i p log := by
  induction newer with
  | nil => rfl
  | cons moment newer ih =>
    rw [List.cons_append, since_cons (h moment List.mem_cons_self),
      ih fun m hm => h m (List.mem_cons_of_mem _ hm), List.cons_append]

/-- The steps before a thread's last deed with some property, the latest first. -/
def before (i : Tid) (p : Deed Op Res σ → Bool) :
    List (Moment Op Res Tid Event σ) → List (Moment Op Res Tid Event σ)
  | [] => []
  | moment :: older => if moment.isDeedOf i p then older else before i p older

/-- Steps that are not such deeds do not matter. -/
theorem before_append {i : Tid} {newer : List (Moment Op Res Tid Event σ)}
    (h : ∀ moment ∈ newer, moment.isDeedOf i p = false) :
    before i p (newer ++ log) = before i p log := by
  induction newer with
  | nil => rfl
  | cons moment newer ih =>
    rw [List.cons_append, before, if_neg (by simp [h moment List.mem_cons_self]),
      ih fun m hm => h m (List.mem_cons_of_mem _ hm)]

/-- A thread's steps are not deeds that the thread has not done. -/
private theorem isDeedOf_eq_false {i : Tid} {newer : List (Moment Op Res Tid Event σ)}
    (h : ∀ deed, .performed i deed ∈ newer → p deed = false) :
    ∀ moment ∈ newer, moment.isDeedOf i p = false := by
  intro moment hmem
  cases moment with
  | performed j deed =>
    by_cases hj : j = i
    · subst hj
      simp [Moment.isDeedOf, h deed hmem]
    · simp [Moment.isDeedOf, hj]
  | _ => rfl

/-- The last of a thread's deeds with some property is where the steps before it end. -/
theorem before_of_mine {i : Tid} {deed : Deed Op Res σ} {new rest : List (Deed Op Res σ)}
    (h : mine i log = new ++ deed :: rest) (hdeed : p deed = true)
    (hnew : ∀ d ∈ new, p d = false) :
    (.performed i deed :: before i p log) <:+ log ∧ mine i (before i p log) = rest := by
  obtain ⟨newer, older, rfl, hrest, hmem, -⟩ := exists_of_mine h
  have hbefore : before i p (newer ++ .performed i deed :: older) = older := by
    rw [before_append (isDeedOf_eq_false fun d hd => hnew d (hmem d hd))]
    simp [before, Moment.isDeedOf, hdeed]
  rw [hbefore]
  exact ⟨List.suffix_append _ _, hrest⟩

/-- What happened since a thread's last `p` deed before one of its later deeds happened since its
last `p` deed. -/
theorem since_of_mine {i : Tid} {deed : Deed Op Res σ} {new rest : List (Deed Op Res σ)}
    (h : mine i log = new ++ deed :: rest) (hnew : ∀ d ∈ new ++ [deed], p d = false) :
    ∃ older, (.performed i deed :: older) <:+ log ∧ mine i older = rest ∧
      since i p older ⊆ since i p log := by
  obtain ⟨newer, older, rfl, hrest, hmem, -⟩ := exists_of_mine h
  refine ⟨older, List.suffix_append _ _, hrest, ?_⟩
  rw [since_append (isDeedOf_eq_false fun d hd => hnew d (by simp [hmem d hd])),
    since_cons (by simp [Moment.isDeedOf, hnew deed])]
  exact fun m hm => List.mem_append_right _ (List.mem_cons_of_mem _ hm)

/-- The deeds are those of all the threads together. -/
private theorem countP_isDeed_eq_sum (threads : Finset Tid)
    (h : ∀ i deed, Moment.performed i deed ∈ log → i ∈ threads) :
    log.countP (Moment.isDeed p) = ∑ i ∈ threads, log.countP (Moment.isDeedOf i p) := by
  induction log with
  | nil => simp
  | cons moment older ih =>
    have hrest := ih fun i deed hmem => h i deed (List.mem_cons_of_mem _ hmem)
    simp only [List.countP_cons, Finset.sum_add_distrib, hrest]
    congr 1
    cases moment with
    | performed j deed =>
      have hj := h j deed List.mem_cons_self
      by_cases hp : p deed = true
      · simp [Moment.isDeed, Moment.isDeedOf, hp, hj]
      · simp [Moment.isDeed, Moment.isDeedOf, hp]
    | _ => simp [Moment.isDeed, Moment.isDeedOf]

/-- What every thread does at most as often as something else, all of them together do at most as
often. -/
theorem countP_isDeed_le
    (h : ∀ i, log.countP (Moment.isDeedOf i p) ≤ log.countP (Moment.isDeedOf i q)) :
    log.countP (Moment.isDeed p) ≤ log.countP (Moment.isDeed q) := by
  let threads := (log.filterMap fun | .performed i _ => some i | _ => none).toFinset
  have hthreads : ∀ i deed, Moment.performed i deed ∈ log → i ∈ threads := fun i deed hmem =>
    List.mem_toFinset.mpr (List.mem_filterMap.mpr ⟨_, hmem, rfl⟩)
  rw [countP_isDeed_eq_sum threads hthreads, countP_isDeed_eq_sum threads hthreads]
  exact Finset.sum_le_sum fun i _ => h i

/-- Every thread does `p` at least as often as `q`, and once more often when `p` is its last deed. -/
def Ahead (p q : Deed Op Res σ → Bool) (log : List (Moment Op Res Tid Event σ)) : Prop :=
  ∀ i, log.countP (Moment.isDeedOf i q) + ((mine i log).head?.any p).toNat ≤
    log.countP (Moment.isDeedOf i p)

theorem Ahead.nil : Ahead p q ([] : List (Moment Op Res Tid Event σ)) := fun i => by simp [mine]

/-- A thread that does `q` only right after `p` stays ahead. -/
theorem Ahead.performed {i : Tid} {deed : Deed Op Res σ} (h : Ahead p q log)
    (hq : q deed = true → (mine i log).head?.any p = true) :
    Ahead p q (.performed i deed :: log) := by
  intro k
  have hk := h k
  simp only [List.countP_cons]
  by_cases hik : i = k
  · subst hik
    rw [mine_performed_self]
    cases hp : p deed <;> cases hqd : q deed <;>
      simp only [hqd, forall_const, reduceCtorEq, false_implies] at hq <;>
      simp [Moment.isDeedOf, hp, hqd, hq] at hk ⊢ <;> omega
  · rw [mine_performed_ne hik]
    simpa [Moment.isDeedOf, hik] using hk

/-- Nor does a thread fall behind while it does nothing. -/
theorem Ahead.quiet {moment : Moment Op Res Tid Event σ} (h : Ahead p q log)
    (hmoment : ∀ i deed, moment ≠ .performed i deed) : Ahead p q (moment :: log) := by
  intro k
  have hk := h k
  have hnone : ∀ p, Moment.isDeedOf k p moment = false := by
    cases moment with
    | performed i deed => exact absurd rfl (hmoment i deed)
    | _ => exact fun _ => rfl
  simp only [List.countP_cons, hnone]
  rcases (mine_quiet hmoment : mine k (_ :: log) = mine k log ∨ _) with hmine | hmine
  · rw [hmine]
    simpa using hk
  · rw [hmine]
    simp at hk ⊢
    omega

/-- All the threads together do `q` at most as often as `p`. -/
theorem Ahead.countP_le (h : Ahead p q log) :
    log.countP (Moment.isDeed q) ≤ log.countP (Moment.isDeed p) :=
  countP_isDeed_le fun i => Nat.le_trans (Nat.le_add_right _ _) (h i)

end Counting

/-- Every operation that a program may come to perform is allowed by a protocol, given what the
thread has done before it, and the postcondition holds when the program ends. -/
inductive Obeys (P : List (Deed Op Res σ) → Op → Prop)
    (Q : Except ε β → List (Deed Op Res σ) → Prop) :
    List (Deed Op Res σ) → Program Op Res ε β → Prop
  | pure {done : List (Deed Op Res σ)} {value : β} (post : Q (.ok value) done) :
      Obeys P Q done (.pure value)
  | throw {done : List (Deed Op Res σ)} {error : ε} (post : Q (.error error) done) :
      Obeys P Q done (.throw error)
  | perform {done : List (Deed Op Res σ)} {op : Op} {next : Res op → Program Op Res ε β}
      (allowed : P done op)
      (rest : ∀ before answer, Obeys P Q (⟨before, op, answer⟩ :: done) (next answer)) :
      Obeys P Q done (.perform op next)

namespace Obeys

variable {P : List (Deed Op Res σ) → Op → Prop} {Q : Except ε β → List (Deed Op Res σ) → Prop}
  {done : List (Deed Op Res σ)}

/-- Perform an operation and go on. -/
theorem op_bind {op : Op} {f : Res op → Program Op Res ε β} (allowed : P done op)
    (rest : ∀ before answer, Obeys P Q (⟨before, op, answer⟩ :: done) (f answer)) :
    Obeys P Q done (Program.op op >>= f) :=
  .perform allowed rest

/-- Both branches obey. -/
theorem ite {c : Prop} [Decidable c] {program program' : Program Op Res ε β}
    (h : c → Obeys P Q done program) (h' : ¬ c → Obeys P Q done program') :
    Obeys P Q done (if c then program else program') := by
  by_cases hc : c
  · rw [if_pos hc]
    exact h hc
  · rw [if_neg hc]
    exact h' hc

/-- Weaken the postcondition. -/
theorem mono {Q' : Except ε β → List (Deed Op Res σ) → Prop} {program : Program Op Res ε β}
    (h : Obeys P Q done program) (hpost : ∀ result done, Q result done → Q' result done) :
    Obeys P Q' done program := by
  induction h with
  | pure post => exact .pure (hpost _ _ post)
  | throw post => exact .throw (hpost _ _ post)
  | perform allowed _ ih => exact .perform allowed ih

/-- A program that obeys two protocols ends with both postconditions. -/
theorem and {P' : List (Deed Op Res σ) → Op → Prop} {Q' : Except ε β → List (Deed Op Res σ) → Prop}
    {program : Program Op Res ε β} (h : Obeys P Q done program) (h' : Obeys P' Q' done program) :
    Obeys P (fun result done => Q result done ∧ Q' result done) done program := by
  induction h with
  | pure post =>
    cases h' with
    | pure post' => exact .pure ⟨post, post'⟩
  | throw post =>
    cases h' with
    | throw post' => exact .throw ⟨post, post'⟩
  | perform allowed _ ih =>
    cases h' with
    | perform allowed' rest' =>
      exact .perform allowed fun before answer => ih before answer (rest' before answer)

/-- Sequencing: the continuation starts after whatever the first program may have done. -/
theorem bind {Q' : Except ε γ → List (Deed Op Res σ) → Prop} {program : Program Op Res ε β}
    {f : β → Program Op Res ε γ} (h : Obeys P Q done program)
    (hok : ∀ value done, Q (.ok value) done → Obeys P Q' done (f value))
    (herror : ∀ error done, Q (.error error) done → Q' (.error error) done) :
    Obeys P Q' done (program >>= f) := by
  induction h with
  | pure post => exact hok _ _ post
  | throw post => exact .throw (herror _ _ post)
  | perform allowed _ ih => exact .perform allowed ih

/-- A handler starts after whatever the program may have done before it threw. -/
theorem tryCatch {Q' : Except ε β → List (Deed Op Res σ) → Prop} {program : Program Op Res ε β}
    {handler : ε → Program Op Res ε β} (h : Obeys P Q done program)
    (hok : ∀ value done, Q (.ok value) done → Q' (.ok value) done)
    (herror : ∀ error done, Q (.error error) done → Obeys P Q' done (handler error)) :
    Obeys P Q' done (tryCatch program handler) := by
  induction h with
  | pure post => exact .pure (hok _ _ post)
  | throw post => exact herror _ _ post
  | perform allowed _ ih => exact .perform allowed ih

/-- The cleanup starts after whatever the program may have done. -/
theorem finally_ {Q' : Except ε β → List (Deed Op Res σ) → Prop} {program : Program Op Res ε β}
    {cleanup : Program Op Res ε Unit} (h : Obeys P Q done program)
    (hcleanup : ∀ result done, Q result done → Obeys P
      (fun final done => match final with | .ok () => Q' result done | .error e => Q' (.error e) done)
      done cleanup) : Obeys P Q' done (program.finally_ cleanup) := by
  induction h with
  | pure post => exact (hcleanup _ _ post).bind (fun _ _ hQ => .pure hQ) fun _ _ hQ => hQ
  | throw post => exact (hcleanup _ _ post).bind (fun _ _ hQ => .throw hQ) fun _ _ hQ => hQ
  | perform allowed _ ih => exact .perform allowed ih

/-- A program that stays within some operations obeys a protocol that allows these whatever else
the program has done. -/
theorem of_within {S : Op → Prop} {program : Program Op Res ε β} (h : program.Within S)
    (hallowed : ∀ new o, (∀ deed ∈ new, S deed.op) → S o → P (new ++ done) o) :
    Obeys P (fun _ after => ∃ new, after = new ++ done ∧ ∀ deed ∈ new, S deed.op) done program := by
  induction h generalizing done with
  | pure => exact .pure ⟨[], rfl, by simp⟩
  | throw => exact .throw ⟨[], rfl, by simp⟩
  | @perform o next hS _ ih =>
    refine .perform (hallowed [] o (by simp) hS) fun before answer => ?_
    refine (ih answer fun new o' hnew ho' => ?_).mono ?_
    · have hmem : ∀ deed ∈ new ++ [⟨before, o, answer⟩], S (Deed.op deed) := by
        simpa [or_imp, forall_and] using ⟨hnew, hS⟩
      have hallowed' := hallowed (new ++ [⟨before, o, answer⟩]) o' hmem ho'
      rwa [List.append_assoc, List.singleton_append] at hallowed'
    · rintro _ _ ⟨new, rfl, hnew⟩
      refine ⟨new ++ [⟨before, o, answer⟩], by simp, ?_⟩
      simpa [or_imp, forall_and] using ⟨hnew, hS⟩

/-- A loop over a list keeps what its body keeps. -/
theorem forEach {I : List (Deed Op Res σ) → Prop} {Q : Except ε Unit → List (Deed Op Res σ) → Prop}
    {body : γ → Program Op Res ε Unit} {list : List γ} (hstart : I done)
    (hbody : ∀ x ∈ list, ∀ done, I done → Obeys P
      (fun result done => match result with | .ok _ => I done | .error e => Q (.error e) done)
      done (body x))
    (hdone : ∀ done, I done → Q (.ok ()) done) :
    Obeys P Q done (Program.forEach body list) := by
  induction list generalizing done with
  | nil => exact .pure (hdone done hstart)
  | cons x rest ih =>
    have hx := hbody x List.mem_cons_self done hstart
    exact hx.bind (fun _ _ hI => ih hI fun y hy => hbody y (List.mem_cons_of_mem _ hy))
      fun _ _ hQ => hQ

end Obeys

/-- A program obeys a protocol from whatever the thread has done before. -/
def Abides (P : List (Deed Op Res σ) → Op → Prop) (program : Program Op Res ε β) : Prop :=
  ∀ done, Obeys P (fun _ _ => True) done program

namespace Abides

variable {P : List (Deed Op Res σ) → Op → Prop}

/-- Operations that the protocol always allows may be performed anywhere. -/
theorem of_within {S : Op → Prop} {program : Program Op Res ε β} (h : program.Within S)
    (hallowed : ∀ done o, S o → P done o) : Abides P program := fun done =>
  (Obeys.of_within h fun new o _ => hallowed (new ++ done) o).mono fun _ _ _ => trivial

theorem bind {program : Program Op Res ε β} {f : β → Program Op Res ε γ} (h : Abides P program)
    (hf : ∀ value, Abides P (f value)) : Abides P (program >>= f) := fun done =>
  (h done).bind (fun value done' _ => hf value done') fun _ _ _ => trivial

theorem map {program : Program Op Res ε β} {f : β → γ} (h : Abides P program) :
    Abides P (f <$> program) := by
  rw [map_eq_pure_bind]
  exact h.bind fun _ _ => .pure trivial

theorem tryCatch {program : Program Op Res ε β} {handler : ε → Program Op Res ε β}
    (h : Abides P program) (hhandler : ∀ error, Abides P (handler error)) :
    Abides P (MonadExceptOf.tryCatch program handler) := fun done =>
  (h done).tryCatch (fun _ _ _ => trivial) fun error done' _ => hhandler error done'

theorem forEach {body : γ → Program Op Res ε Unit} {list : List γ} (h : ∀ x, Abides P (body x)) :
    Abides P (Program.forEach body list) := fun _ =>
  Obeys.forEach (I := fun _ => True) trivial
    (fun x _ done' _ => (h x done').mono fun result _ _ => by cases result <;> trivial)
    fun _ _ => trivial

end Abides

section Runs

variable [DecidableEq Tid] (sys : System Op Res ε α Tid Choice Event Call σ)
  (guard : Guard Op Res Tid Choice Event σ) (P : Call → List (Deed Op Res σ) → Op → Prop)

/-- The program of every call obeys the protocol of the call. -/
def System.Follows : Prop :=
  ∀ i call program, sys.program i call = some program →
    Obeys (P call) (fun _ _ => True) [] program

/-- What every step of a recorded system preserves. A step that performs an operation may use that
the protocol allows it and that it meets the guard. -/
structure Preserved (I : Recorded Op Res Tid Event σ → Prop) : Prop where
  perform : ∀ i call op choice answer s s' log, I ⟨s, log⟩ → P call (mine i log) op →
    guard.perform i op choice ⟨s, log⟩ = true → sys.perform i op choice s = some (answer, s') →
    I ⟨s', .performed i ⟨s, op, answer⟩ :: log⟩
  stop : ∀ i s log, I ⟨s, log⟩ → I ⟨sys.stop i s, .stopped i :: log⟩
  reset : ∀ s s' log, I ⟨s, log⟩ → sys.reset s = some s' → I ⟨s', .restarted :: log⟩
  env : ∀ event s s' log, I ⟨s, log⟩ → guard.env event ⟨s, log⟩ = true →
    sys.env event s = some s' → I ⟨s', .happened event :: log⟩

/-- The program of every call obeys the protocol of the call and ends with the postcondition of the
call. -/
def System.Honors (Q : Call → Except ε α → List (Deed Op Res σ) → Prop) : Prop :=
  ∀ i call program, sys.program i call = some program → Obeys (P call) (Q call) [] program

/-- Preservation by the steps of a run that is known to change the state in a certain way only. -/
structure PreservedUnder (E : σ → σ → Prop) (I : Recorded Op Res Tid Event σ → Prop) : Prop where
  perform : ∀ i call op choice answer s s' log, E s s' → I ⟨s, log⟩ → P call (mine i log) op →
    guard.perform i op choice ⟨s, log⟩ = true → sys.perform i op choice s = some (answer, s') →
    I ⟨s', .performed i ⟨s, op, answer⟩ :: log⟩
  stop : ∀ i s log, E s (sys.stop i s) → I ⟨s, log⟩ → I ⟨sys.stop i s, .stopped i :: log⟩
  reset : ∀ s s' log, E s s' → I ⟨s, log⟩ → sys.reset s = some s' → I ⟨s', .restarted :: log⟩
  env : ∀ event s s' log, E s s' → I ⟨s, log⟩ → guard.env event ⟨s, log⟩ = true →
    sys.env event s = some s' → I ⟨s', .happened event :: log⟩

/-- Every thread in use obeys the protocol from here. -/
def Obedient (c : Config Op Res ε α Tid Call (Recorded Op Res Tid Event σ)) : Prop :=
  ∀ i call program, c.thread i = some (call, program) →
    Obeys (P call) (fun _ _ => True) (mine i c.shared.log) program

/-- Every thread in use obeys the protocol from here and ends with the postcondition. -/
def Honoring (Q : Call → Except ε α → List (Deed Op Res σ) → Prop)
    (c : Config Op Res ε α Tid Call (Recorded Op Res Tid Event σ)) : Prop :=
  ∀ i call program, c.thread i = some (call, program) →
    Obeys (P call) (Q call) (mine i c.shared.log) program

variable {sys guard P} {I : Recorded Op Res Tid Event σ → Prop}

/-- Before the first call every thread is obedient. -/
theorem obedient_init (r : Recorded Op Res Tid Event σ) :
    Obedient P (System.init r : Config Op Res ε α Tid Call _) := by
  intro i call program hthread
  simp [System.init] at hthread

variable {Q : Call → Except ε α → List (Deed Op Res σ) → Prop} {E : σ → σ → Prop}

/-- Before the first call no thread has anything to honor. -/
theorem honoring_init (r : Recorded Op Res Tid Event σ) :
    Honoring P Q (System.init r : Config Op Res ε α Tid Call _) := by
  intro i call program hthread
  simp [System.init] at hthread

/-- What holds of every thread in use keeps holding of the threads that do not step. -/
private theorem threads_update {c : Config Op Res ε α Tid Call (Recorded Op Res Tid Event σ)}
    {j : Tid} {r : Recorded Op Res Tid Event σ} {entry : Option (Call × Program Op Res ε α)}
    {T : Call → Program Op Res ε α → List (Deed Op Res σ) → Prop}
    (h : ∀ i call program, c.thread i = some (call, program) →
      T call program (mine i c.shared.log))
    (hmine : ∀ i, i ≠ j → mine i r.log = mine i c.shared.log)
    (hentry : ∀ call program, entry = some (call, program) → T call program (mine j r.log)) :
    ∀ i call program, Function.update c.thread j entry i = some (call, program) →
      T call program (mine i r.log) := by
  intro i call program hthread
  by_cases hi : i = j
  · subst hi
    exact hentry call program (by simpa using hthread)
  · rw [hmine i hi]
    exact h i call program (by simpa [hi] using hthread)

/-- The threads that do not step stay as they are. -/
private theorem honoring_update {c : Config Op Res ε α Tid Call (Recorded Op Res Tid Event σ)}
    {j : Tid} {r : Recorded Op Res Tid Event σ} {entry : Option (Call × Program Op Res ε α)}
    (h : Honoring P Q c) (hmine : ∀ i, i ≠ j → mine i r.log = mine i c.shared.log)
    (hentry : ∀ call program, entry = some (call, program) →
      Obeys (P call) (Q call) (mine j r.log) program) :
    Honoring P Q { shared := r, thread := Function.update c.thread j entry } :=
  threads_update (T := fun call program done => Obeys (P call) (Q call) done program) h hmine hentry

/-- One step keeps the threads to their protocols and what the operations preserve. -/
theorem honoring_step (hhonors : sys.Honors P Q) (hpreserved : PreservedUnder sys guard P E I)
    {label : Label Tid Choice Event Call}
    {c c' : Config Op Res ε α Tid Call (Recorded Op Res Tid Event σ)} (hhonoring : Honoring P Q c)
    (hinv : I c.shared) (hE : E c.shared.state c'.shared.state)
    (hstep : (sys.recorded guard).step label c = some c') :
    Honoring P Q c' ∧ I c'.shared := by
  cases label with
  | perform i choice =>
    obtain ⟨call, op, next, answer, r, hthread, hperform, rfl⟩ := System.step_perform _ hstep
    obtain ⟨hallowed, hnext⟩ : P call (mine i c.shared.log) op ∧ ∀ before answer,
        Obeys (P call) (Q call) (⟨before, op, answer⟩ :: mine i c.shared.log)
          (next answer) := by
      cases hhonoring i call _ hthread with
      | perform allowed rest => exact ⟨allowed, rest⟩
    simp only [System.recorded] at hperform
    split at hperform
    · next hguard =>
      obtain ⟨⟨answer', s⟩, hs, heq⟩ := Option.map_eq_some_iff.mp hperform
      obtain ⟨rfl, rfl⟩ := Prod.mk.inj heq
      refine ⟨honoring_update hhonoring (fun k hk => mine_performed_ne hk.symm _) ?_,
        hpreserved.perform i call op choice _ _ _ _ hE hinv hallowed hguard hs⟩
      intro call' program' hentry
      obtain ⟨rfl, rfl⟩ := Prod.mk.inj (Option.some.inj hentry)
      rw [mine_performed_self]
      exact hnext _ _
    · contradiction
  | spawn i call =>
    obtain ⟨program, hprogram, rfl⟩ := System.step_spawn _ hstep
    refine ⟨honoring_update hhonoring (fun k hk => mine_stopped_ne hk.symm) ?_,
      hpreserved.stop i _ _ hE hinv⟩
    intro call' program' hentry
    obtain ⟨rfl, rfl⟩ := Prod.mk.inj (Option.some.inj hentry)
    change Obeys _ _ (mine i (.stopped i :: _)) _
    rw [mine_stopped_self]
    exact hhonors i call program hprogram
  | kill i =>
    obtain rfl := Option.some.inj hstep
    exact ⟨honoring_update hhonoring (fun k hk => mine_stopped_ne hk.symm)
      fun _ _ heq => by contradiction, hpreserved.stop i _ _ hE hinv⟩
  | reset =>
    obtain ⟨r, hr, rfl⟩ := Option.map_eq_some_iff.mp hstep
    obtain ⟨s, hs, rfl⟩ := Option.map_eq_some_iff.mp hr
    exact ⟨fun i call program hthread => by contradiction, hpreserved.reset _ s _ hE hinv hs⟩
  | env event =>
    obtain ⟨r, hr, rfl⟩ := Option.map_eq_some_iff.mp hstep
    simp only [System.recorded] at hr
    split at hr
    · next hguard =>
      obtain ⟨s, hs, rfl⟩ := Option.map_eq_some_iff.mp hr
      exact ⟨fun i call program hthread => hhonoring i call program hthread,
        hpreserved.env event _ s _ hE hinv hguard hs⟩
    · contradiction

/-- Every deed of a thread in use was allowed by the protocol of its call. -/
def Lawful (P : Call → List (Deed Op Res σ) → Op → Prop)
    (c : Config Op Res ε α Tid Call (Recorded Op Res Tid Event σ)) : Prop :=
  ∀ i call program, c.thread i = some (call, program) →
    ∀ deed older, (deed :: older) <:+ mine i c.shared.log → P call older deed.op

/-- Before the first call nothing was done. -/
theorem lawful_init (r : Recorded Op Res Tid Event σ) :
    Lawful P (System.init r : Config Op Res ε α Tid Call _) := by
  intro i call program hthread
  simp [System.init] at hthread

/-- The deeds of the threads that do not step stay as they are. -/
private theorem lawful_update {c : Config Op Res ε α Tid Call (Recorded Op Res Tid Event σ)}
    {j : Tid} {r : Recorded Op Res Tid Event σ} {entry : Option (Call × Program Op Res ε α)}
    (h : Lawful P c) (hmine : ∀ i, i ≠ j → mine i r.log = mine i c.shared.log)
    (hentry : ∀ call program, entry = some (call, program) →
      ∀ deed older, (deed :: older) <:+ mine j r.log → P call older deed.op) :
    Lawful P { shared := r, thread := Function.update c.thread j entry } :=
  threads_update
    (T := fun call _ done => ∀ deed older, (deed :: older) <:+ done → P call older deed.op) h hmine
    hentry

/-- One step keeps the deeds lawful. -/
private theorem lawful_step {label : Label Tid Choice Event Call}
    {c c' : Config Op Res ε α Tid Call (Recorded Op Res Tid Event σ)} (hhonoring : Honoring P Q c)
    (hlawful : Lawful P c) (hstep : (sys.recorded guard).step label c = some c') : Lawful P c' := by
  have hnil : ∀ call, ∀ (deed : Deed Op Res σ) older, (deed :: older) <:+ [] →
      P call older deed.op := fun _ _ _ hsuffix => absurd (List.suffix_nil.mp hsuffix) (by simp)
  cases label with
  | perform i choice =>
    obtain ⟨call, op, next, answer, r, hthread, hperform, rfl⟩ := System.step_perform _ hstep
    obtain ⟨-, -, hlog⟩ := System.recorded_perform hperform
    have hmine : mine i r.log = ⟨c.shared.state, op, answer⟩ :: mine i c.shared.log := by
      rw [hlog, mine_performed_self]
    refine lawful_update hlawful (fun k hk => ?_) fun call' program' hentry => ?_
    · rw [hlog, mine_performed_ne hk.symm]
    · obtain ⟨rfl, rfl⟩ := Prod.mk.inj (Option.some.inj hentry)
      intro deed older hsuffix
      rw [hmine] at hsuffix
      rcases List.suffix_cons_iff.mp hsuffix with heq | hsuffix
      · obtain ⟨rfl, rfl⟩ := List.cons.inj heq
        cases hhonoring i call _ hthread with
        | perform allowed _ => exact allowed
      · exact hlawful i call _ hthread deed older hsuffix
  | spawn i call =>
    obtain ⟨program, hprogram, rfl⟩ := System.step_spawn _ hstep
    refine lawful_update hlawful (fun k hk => mine_stopped_ne hk.symm) fun call' _ _ => ?_
    change ∀ deed older, _ <:+ mine i (.stopped i :: _) → _
    rw [mine_stopped_self]
    exact hnil call'
  | kill i =>
    obtain rfl := Option.some.inj hstep
    exact lawful_update hlawful (fun k hk => mine_stopped_ne hk.symm)
      fun _ _ heq => by contradiction
  | reset =>
    obtain ⟨r, hr, rfl⟩ := Option.map_eq_some_iff.mp hstep
    exact fun i call program hthread => by contradiction
  | env event =>
    obtain ⟨r, hr, rfl⟩ := Option.map_eq_some_iff.mp hstep
    simp only [System.recorded] at hr
    split at hr
    · obtain ⟨s, hs, rfl⟩ := Option.map_eq_some_iff.mp hr
      exact fun i call program hthread => hlawful i call program hthread
    · contradiction

/-- What every step preserves is preserved whatever else is known of the steps. -/
theorem Preserved.under (h : Preserved sys guard P I) : PreservedUnder sys guard P E I where
  perform i call op choice answer s s' log _ := h.perform i call op choice answer s s' log
  stop i s log _ := h.stop i s log
  reset s s' log _ := h.reset s s' log
  env event s s' log _ := h.env event s s' log

/-- Where nothing else is known of the steps, every step preserves it. -/
theorem PreservedUnder.unconditional (h : PreservedUnder sys guard P (fun _ _ => True) I) :
    Preserved sys guard P I where
  perform i call op choice answer s s' log := h.perform i call op choice answer s s' log trivial
  stop i s log := h.stop i s log trivial
  reset s s' log := h.reset s s' log trivial
  env event s s' log := h.env event s s' log trivial

/-- Every deed of the log was allowed, and what the steps preserve was true before it. -/
def Throughout (P : Call → List (Deed Op Res σ) → Op → Prop)
    (I : Recorded Op Res Tid Event σ → Prop) (r : Recorded Op Res Tid Event σ) : Prop :=
  ∀ i deed older, (.performed i deed :: older) <:+ r.log →
    I ⟨deed.before, older⟩ ∧ ∃ call, P call (mine i older) deed.op

/-- A step that is no deed adds nothing. -/
private theorem Throughout.quiet {r : Recorded Op Res Tid Event σ} {s : σ}
    {moment : Moment Op Res Tid Event σ} (h : Throughout P I r)
    (hmoment : ∀ i deed, moment ≠ .performed i deed) :
    Throughout P I ⟨s, moment :: r.log⟩ := by
  intro i deed older hsuffix
  rcases List.suffix_cons_iff.mp hsuffix with heq | hsuffix
  · exact absurd (List.cons.inj heq).1.symm (hmoment i deed)
  · exact h i deed older hsuffix

/-- What every step preserves was true throughout the run. -/
theorem PreservedUnder.throughout (h : PreservedUnder sys guard P E I) :
    PreservedUnder sys guard P E fun r => I r ∧ Throughout P I r where
  perform i call op choice answer s s' log hE hI hallowed hguard hperform := by
    refine ⟨h.perform i call op choice answer s s' log hE hI.1 hallowed hguard hperform, ?_⟩
    intro j deed older hsuffix
    rcases List.suffix_cons_iff.mp hsuffix with heq | hsuffix
    · obtain ⟨hdeed, rfl⟩ := List.cons.inj heq
      obtain ⟨rfl, rfl⟩ := Moment.performed.inj hdeed
      exact ⟨hI.1, call, hallowed⟩
    · exact hI.2 j deed older hsuffix
  stop i s log hE hI := ⟨h.stop i s log hE hI.1, hI.2.quiet (by simp)⟩
  reset s s' log hE hI hreset := ⟨h.reset s s' log hE hI.1 hreset, hI.2.quiet (by simp)⟩
  env event s s' log hE hI hguard henv :=
    ⟨h.env event s s' log hE hI.1 hguard henv, hI.2.quiet (by simp)⟩

theorem Preserved.throughout (h : Preserved sys guard P I) :
    Preserved sys guard P fun r => I r ∧ Throughout P I r :=
  (h.under (E := fun _ _ => True)).throughout.unconditional

/-- Nothing was done before the first step. -/
theorem throughout_nil (s : σ) : Throughout P I ⟨s, []⟩ := by
  intro i deed older hsuffix
  exact absurd (List.suffix_nil.mp hsuffix) (by simp)

/-- A deed that a thread has done was allowed after what the thread had done before it. -/
theorem Throughout.of_mine {r : Recorded Op Res Tid Event σ} (h : Throughout P I r)
    {i : Tid} {deed : Deed Op Res σ} {new rest : List (Deed Op Res σ)}
    (hmine : mine i r.log = new ++ deed :: rest) : ∃ call, P call rest deed.op := by
  obtain ⟨newer, older, hlog, hrest, -⟩ := exists_of_mine hmine
  obtain ⟨-, call, hallowed⟩ := h i deed older ⟨newer, hlog.symm⟩
  exact ⟨call, hrest ▸ hallowed⟩

/-- Every run keeps the threads to their protocols and what the operations preserve. -/
theorem honored_run (hhonors : sys.Honors P Q) (hpreserved : Preserved sys guard P I)
    {labels : List (Label Tid Choice Event Call)}
    {c c' : Config Op Res ε α Tid Call (Recorded Op Res Tid Event σ)} (hhonoring : Honoring P Q c)
    (hinv : I c.shared) (hrun : (sys.recorded guard).run labels c = some c') :
    Honoring P Q c' ∧ I c'.shared := by
  induction labels generalizing c with
  | nil =>
    obtain rfl := Option.some.inj hrun
    exact ⟨hhonoring, hinv⟩
  | cons label rest ih =>
    obtain ⟨mid, hstep, hrest⟩ := Option.bind_eq_some_iff.mp hrun
    obtain ⟨hmid, hinv'⟩ :=
      honoring_step hhonors (hpreserved.under (E := fun _ _ => True)) hhonoring hinv trivial hstep
    exact ih hmid hinv' hrest

/-- Every run keeps the threads obedient and what the operations preserve. -/
theorem recorded_run (hfollows : sys.Follows P) (hpreserved : Preserved sys guard P I)
    {labels : List (Label Tid Choice Event Call)}
    {c c' : Config Op Res ε α Tid Call (Recorded Op Res Tid Event σ)} (hobedient : Obedient P c)
    (hinv : I c.shared) (hrun : (sys.recorded guard).run labels c = some c') :
    Obedient P c' ∧ I c'.shared :=
  honored_run (Q := fun _ _ _ => True) hfollows hpreserved hobedient hinv hrun

/-- A thread that has ended stays as it is until it is stopped. -/
theorem thread_of_uninterrupted {labels : List (Label Tid Choice Event Call)}
    {c c' : Config Op Res ε α Tid Call (Recorded Op Res Tid Event σ)} {i : Tid} {call : Call}
    {program : Program Op Res ε α} {newer : List (Moment Op Res Tid Event σ)}
    (hthread : c.thread i = some (call, program)) (hended : program.pending = none)
    (hrun : (sys.recorded guard).run labels c = some c')
    (hlog : c'.shared.log = newer ++ c.shared.log) (huninterrupted : Uninterrupted i newer) :
    c'.thread i = some (call, program) := by
  induction labels generalizing c newer with
  | nil =>
    obtain rfl := Option.some.inj hrun
    exact hthread
  | cons label rest ih =>
    obtain ⟨mid, hstep, hrest⟩ := Option.bind_eq_some_iff.mp hrun
    obtain ⟨moment, hmoment, hkeeps⟩ := step_log hstep
    obtain ⟨newer', hnewer'⟩ := log_suffix_run hrest
    have hnewer : newer = newer' ++ [moment] := by
      refine @List.append_cancel_right _ _ c.shared.log _ ?_
      rw [← hlog, ← hnewer', hmoment, List.append_assoc, List.singleton_append]
    subst hnewer
    obtain ⟨hstopped, hrestarted⟩ := huninterrupted
    refine ih (hkeeps i call program hthread hended ?_ ?_) hrest hnewer'.symm ⟨?_, ?_⟩
    · rintro rfl
      simp at hstopped
    · rintro rfl
      simp at hrestarted
    · exact fun h => hstopped (List.mem_append_left _ h)
    · exact fun h => hrestarted (List.mem_append_left _ h)

/-- A step that stops no thread. -/
def Label.Calm : Label Tid Choice Event Call → Prop
  | .kill _ => False
  | .reset => False
  | _ => True

/-- A thread in use that no step stops stays with its call and adds to what it has done. -/
theorem thread_run {labels : List (Label Tid Choice Event Call)}
    {c c' : Config Op Res ε α Tid Call (Recorded Op Res Tid Event σ)} {i : Tid} {call : Call}
    {program : Program Op Res ε α} (hcalm : ∀ label ∈ labels, label.Calm)
    (hthread : c.thread i = some (call, program))
    (hrun : (sys.recorded guard).run labels c = some c') :
    ∃ program', c'.thread i = some (call, program') ∧ mine i c.shared.log <:+ mine i c'.shared.log := by
  induction labels generalizing c program with
  | nil =>
    obtain rfl := Option.some.inj hrun
    exact ⟨program, hthread, List.suffix_refl _⟩
  | cons label rest ih =>
    obtain ⟨mid, hstep, hrest⟩ := Option.bind_eq_some_iff.mp hrun
    obtain ⟨program', hthread', hsuffix⟩ : ∃ program', mid.thread i = some (call, program') ∧
        mine i c.shared.log <:+ mine i mid.shared.log := by
      cases label with
      | perform j choice =>
        obtain ⟨call', op, next, answer, r, hj, hperform, rfl⟩ := System.step_perform _ hstep
        obtain ⟨-, -, hlog⟩ := System.recorded_perform hperform
        by_cases hij : i = j
        · subst hij
          obtain ⟨rfl, -⟩ := Prod.mk.inj (Option.some.inj (hj.symm.trans hthread))
          refine ⟨_, Function.update_self _ _ _, ?_⟩
          rw [hlog, mine_performed_self]
          exact List.suffix_cons _ _
        · refine ⟨program, (Function.update_of_ne hij _ _).trans hthread, ?_⟩
          rw [hlog, mine_performed_ne (Ne.symm hij)]
      | spawn j call' =>
        have hij : i ≠ j := by
          rintro rfl
          rw [System.free_of_spawn _ hstep] at hthread
          contradiction
        obtain ⟨_, _, rfl⟩ := System.step_spawn _ hstep
        refine ⟨program, (Function.update_of_ne hij _ _).trans hthread, ?_⟩
        change _ <:+ mine i (.stopped j :: _)
        rw [mine_stopped_ne (Ne.symm hij)]
      | env event =>
        obtain ⟨r, hr, rfl⟩ := Option.map_eq_some_iff.mp hstep
        simp only [System.recorded] at hr
        split at hr
        · obtain ⟨s, -, rfl⟩ := Option.map_eq_some_iff.mp hr
          exact ⟨program, hthread, List.suffix_refl _⟩
        · contradiction
      | kill | reset => exact (hcalm _ List.mem_cons_self).elim
    obtain ⟨program'', hthread'', hsuffix'⟩ :=
      ih (fun l hl => hcalm l (List.mem_cons_of_mem _ hl)) hthread' hrest
    exact ⟨program'', hthread'', hsuffix.trans hsuffix'⟩

/-- The configuration with a log that begins here. -/
def Config.watch (c : Config Op Res ε α Tid Call σ) :
    Config Op Res ε α Tid Call (Recorded Op Res Tid Event σ) where
  shared := ⟨c.shared, []⟩
  thread := c.thread

/-- The configuration without its log. -/
def Config.forget (c : Config Op Res ε α Tid Call (Recorded Op Res Tid Event σ)) :
    Config Op Res ε α Tid Call σ where
  shared := c.shared.state
  thread := c.thread

/-- A recorded step is a step. -/
theorem step_forget {label : Label Tid Choice Event Call}
    {c c' : Config Op Res ε α Tid Call (Recorded Op Res Tid Event σ)}
    (h : (sys.recorded guard).step label c = some c') :
    sys.step label c.forget = some c'.forget := by
  cases label with
  | perform i choice =>
    obtain ⟨call, op, next, answer, r, hthread, hperform, rfl⟩ := System.step_perform _ h
    obtain ⟨-, hs, -⟩ := System.recorded_perform hperform
    simp only [System.step, Config.forget, hthread, hs]
    rfl
  | spawn i call =>
    have hthread := System.free_of_spawn _ h
    obtain ⟨program, hprogram, rfl⟩ := System.step_spawn _ h
    have hprogram' : sys.program i call = some program := hprogram
    simp only [System.step, Config.forget, hthread, hprogram']
    rfl
  | kill i =>
    obtain rfl := Option.some.inj h
    rfl
  | reset =>
    obtain ⟨r, hr, rfl⟩ := Option.map_eq_some_iff.mp h
    obtain ⟨s, hs, rfl⟩ := Option.map_eq_some_iff.mp hr
    simp only [System.step, Config.forget, hs]
    rfl
  | env event =>
    obtain ⟨r, hr, rfl⟩ := Option.map_eq_some_iff.mp h
    simp only [System.recorded] at hr
    split at hr
    · obtain ⟨s, hs, rfl⟩ := Option.map_eq_some_iff.mp hr
      simp only [System.step, Config.forget, hs]
      rfl
    · contradiction

/-- A step that meets a guard is one without the guard. -/
private theorem step_free {label : Label Tid Choice Event Call}
    {c c' : Config Op Res ε α Tid Call (Recorded Op Res Tid Event σ)}
    (h : (sys.recorded guard).step label c = some c') :
    (sys.recorded .free).step label c = some c' := by
  cases label with
  | perform i choice =>
    obtain ⟨call, op, next, answer, r, hthread, hperform, rfl⟩ := System.step_perform _ h
    simp only [System.recorded] at hperform
    split at hperform
    · simp only [System.step, hthread, System.recorded, Guard.free, if_true, hperform]
      rfl
    · contradiction
  | spawn i call => exact h
  | kill i => exact h
  | reset => exact h
  | env event =>
    obtain ⟨r, hr, rfl⟩ := Option.map_eq_some_iff.mp h
    simp only [System.recorded] at hr
    split at hr
    · simp only [System.step, System.recorded, Guard.free, if_true, hr]
      rfl
    · contradiction

/-- A run that meets a guard is one without the guard. -/
theorem run_free {labels : List (Label Tid Choice Event Call)}
    {c c' : Config Op Res ε α Tid Call (Recorded Op Res Tid Event σ)}
    (h : (sys.recorded guard).run labels c = some c') :
    (sys.recorded .free).run labels c = some c' := by
  induction labels generalizing c with
  | nil => exact h
  | cons label rest ih =>
    obtain ⟨mid, hstep, hrest⟩ := Option.bind_eq_some_iff.mp h
    exact Option.bind_eq_some_iff.mpr ⟨mid, step_free hstep, ih hrest⟩

/-- How the steps of a system with a valid discipline change the state. -/
def Discipline.Advances (D : Discipline Tid Call ε α σ) (s s' : σ) : Prop :=
  D.inv s ∧ D.inv s' ∧ D.evolves s s'

/-- Every recorded run of a system with a valid discipline keeps the threads to their protocols, their
deeds lawful, what the operations preserve, and the discipline. -/
theorem honoring_run {D : Discipline Tid Call ε α σ} (hvalid : D.Valid sys)
    (hhonors : sys.Honors P Q) (hpreserved : PreservedUnder sys guard P D.Advances I)
    {labels : List (Label Tid Choice Event Call)}
    {c c' : Config Op Res ε α Tid Call (Recorded Op Res Tid Event σ)}
    (hgood : D.Good sys c.forget) (hhonoring : Honoring P Q c) (hlawful : Lawful P c)
    (hinv : I c.shared) (hrun : (sys.recorded guard).run labels c = some c') :
    D.Good sys c'.forget ∧ D.evolves c.shared.state c'.shared.state ∧ Honoring P Q c' ∧
      Lawful P c' ∧ I c'.shared := by
  induction labels generalizing c with
  | nil =>
    obtain rfl := Option.some.inj hrun
    exact ⟨hgood, D.evolves_refl _, hhonoring, hlawful, hinv⟩
  | cons label rest ih =>
    obtain ⟨mid, hstep, hrest⟩ := Option.bind_eq_some_iff.mp hrun
    obtain ⟨hgood', hevolves⟩ := hvalid.step hgood (step_forget hstep)
    obtain ⟨hhonoring', hinv'⟩ := honoring_step hhonors hpreserved hhonoring hinv
      ⟨hgood.inv, hgood'.inv, hevolves⟩ hstep
    have hlawful' := lawful_step hhonoring hlawful hstep
    obtain ⟨hgood'', hevolves', hrest'⟩ := ih hgood' hhonoring' hlawful' hinv' hrest
    exact ⟨hgood'', D.evolves_trans hevolves hevolves', hrest'⟩

end Runs

end Interaction
