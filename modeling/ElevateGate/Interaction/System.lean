import ElevateGate.Interaction.Program
import Mathlib.Logic.Function.Basic

/-!
# Threads over a shared state

A system runs any number of threads, each executing a program, over one shared state. One
step performs one operation of one thread, starts a call on a free thread, kills a thread,
restarts everything, or lets the environment change the shared state. All nondeterminism is
resolved by the label of the step, so a run is a list of labels and can be computed.

A discipline proves properties of all runs thread by thread: each thread relies on what the
others may do between its operations and guarantees the same to them. `Safe` is the proof
obligation of one thread, defined by recursion on its remaining program.
-/

namespace Interaction

/-- What calls execute, what operations do to the shared state, and what else may happen to it.

`perform` answers `none` where the operation cannot take place now, for example because it
has to wait. `stop` is the effect on the shared state of a thread that is killed. -/
structure System (Op : Type) (Res : Op → Type) (ε α Tid Choice Event Call σ : Type) where
  program : Tid → Call → Option (Program Op Res ε α)
  perform : Tid → (op : Op) → Choice → σ → Option (Res op × σ)
  env : Event → σ → Option σ
  stop : Tid → σ → σ
  reset : σ → Option σ

/-- The shared state and, for each thread in use, its call and what remains of its program. -/
structure Config (Op : Type) (Res : Op → Type) (ε α Tid Call σ : Type) where
  shared : σ
  thread : Tid → Option (Call × Program Op Res ε α)

/-- The possible steps of a system. -/
inductive Label (Tid Choice Event Call : Type)
  | perform (i : Tid) (choice : Choice)
  | spawn (i : Tid) (call : Call)
  | kill (i : Tid)
  | reset
  | env (event : Event)

variable {Op : Type} {Res : Op → Type} {ε α Tid Choice Event Call σ : Type}

namespace System

variable [DecidableEq Tid] (sys : System Op Res ε α Tid Choice Event Call σ)

/-- One step, or `none` where the label is not possible in the configuration. -/
def step : Label Tid Choice Event Call → Config Op Res ε α Tid Call σ →
    Option (Config Op Res ε α Tid Call σ)
  | .perform i choice, c =>
    match c.thread i with
    | some (call, .perform op next) =>
      (sys.perform i op choice c.shared).map fun answer =>
        { shared := answer.2
          thread := Function.update c.thread i (some (call, next answer.1)) }
    | _ => none
  | .spawn i call, c =>
    match c.thread i, sys.program i call with
    | none, some program =>
      some { shared := sys.stop i c.shared
             thread := Function.update c.thread i (some (call, program)) }
    | _, _ => none
  | .kill i, c =>
    some { shared := sys.stop i c.shared, thread := Function.update c.thread i none }
  | .reset, c => (sys.reset c.shared).map fun s => { shared := s, thread := fun _ => none }
  | .env event, c => (sys.env event c.shared).map fun s => { c with shared := s }

/-- Take the steps of a list in order. -/
def run : List (Label Tid Choice Event Call) → Config Op Res ε α Tid Call σ →
    Option (Config Op Res ε α Tid Call σ)
  | [], c => some c
  | label :: rest, c => (sys.step label c).bind (run rest)

/-- The configuration with no thread in use. -/
def init (s : σ) : Config Op Res ε α Tid Call σ where
  shared := s
  thread _ := none

/-- A run of two parts passes through the configuration between them. -/
theorem run_append (first second : List (Label Tid Choice Event Call))
    (c : Config Op Res ε α Tid Call σ) :
    sys.run (first ++ second) c = (sys.run first c).bind (sys.run second) := by
  induction first generalizing c with
  | nil => rfl
  | cons label rest ih =>
    simp only [List.cons_append, run, Option.bind_assoc]
    congr 1
    funext c'
    exact ih c'

section Runs

variable {c b c' : Config Op Res ε α Tid Call σ} {label : Label Tid Choice Event Call}
  {first second : List (Label Tid Choice Event Call)}

/-- Runs compose. -/
theorem run_trans (h : sys.run first c = some b) (h' : sys.run second b = some c') :
    sys.run (first ++ second) c = some c' := by
  rw [run_append, h]
  exact h'

/-- A step goes before a run. -/
theorem run_cons (h : sys.step label c = some b) (h' : sys.run second b = some c') :
    sys.run (label :: second) c = some c' := by
  rw [run, h]
  exact h'

/-- A step is a run. -/
theorem run_step (h : sys.step label c = some c') : sys.run [label] c = some c' :=
  sys.run_cons h rfl

/-- A step goes after a run. -/
theorem run_snoc (h : sys.run first c = some b) (h' : sys.step label b = some c') :
    sys.run (first ++ [label]) c = some c' :=
  sys.run_trans h (sys.run_step h')

end Runs

/-- What a run brings about, one of its steps brings about. -/
theorem exists_step_of_run {p : Config Op Res ε α Tid Call σ → Prop}
    {labels : List (Label Tid Choice Event Call)} {c c' : Config Op Res ε α Tid Call σ}
    (hrun : sys.run labels c = some c') (hc : ¬ p c) (hc' : p c') :
    ∃ first label rest b b', labels = first ++ label :: rest ∧ sys.run first c = some b ∧
      sys.step label b = some b' ∧ sys.run rest b' = some c' ∧ ¬ p b ∧ p b' := by
  induction labels generalizing c with
  | nil =>
    obtain rfl := Option.some.inj hrun
    exact absurd hc' hc
  | cons label labels ih =>
    obtain ⟨mid, hstep, hrest⟩ := Option.bind_eq_some_iff.mp hrun
    by_cases hmid : p mid
    · exact ⟨[], label, labels, c, mid, rfl, rfl, hstep, hrest, hc, hmid⟩
    · obtain ⟨first, label', rest, b, b', rfl, hfirst, hfound⟩ := ih hrest hmid
      exact ⟨label :: first, label', rest, b, b', rfl, sys.run_cons hstep hfirst, hfound⟩

/-- Whether a check succeeds at every step of a run. -/
def everyStep (check : Config Op Res ε α Tid Call σ → Label Tid Choice Event Call → Bool) :
    List (Label Tid Choice Event Call) → Config Op Res ε α Tid Call σ → Bool
  | [], _ => true
  | label :: rest, c => check c label && (sys.step label c).all (everyStep check rest)

/-- The check succeeds wherever the run has come. -/
theorem of_everyStep {check : Config Op Res ε α Tid Call σ → Label Tid Choice Event Call → Bool}
    {labels first rest : List (Label Tid Choice Event Call)} {label : Label Tid Choice Event Call}
    {c b : Config Op Res ε α Tid Call σ} (h : sys.everyStep check labels c = true)
    (hlabels : labels = first ++ label :: rest) (hfirst : sys.run first c = some b) :
    check b label = true := by
  subst hlabels
  induction first generalizing c with
  | nil =>
    obtain rfl := Option.some.inj hfirst
    exact (Bool.and_eq_true_iff.mp h).1
  | cons label' first ih =>
    obtain ⟨mid, hstep, hrest⟩ := Option.bind_eq_some_iff.mp hfirst
    have hmid := (Bool.and_eq_true_iff.mp h).2
    rw [hstep] at hmid
    exact ih hrest hmid

/-- A step that performs an operation, taken apart. -/
theorem step_perform {i : Tid} {choice : Choice} {c c' : Config Op Res ε α Tid Call σ}
    (h : sys.step (.perform i choice) c = some c') :
    ∃ call op next answer s, c.thread i = some (call, .perform op next) ∧
      sys.perform i op choice c.shared = some (answer, s) ∧
      c' = { shared := s, thread := Function.update c.thread i (some (call, next answer)) } := by
  simp only [step] at h
  split at h
  · next call op next hthread =>
    obtain ⟨⟨answer, s⟩, hperform, rfl⟩ := Option.map_eq_some_iff.mp h
    exact ⟨call, op, next, answer, s, hthread, hperform, rfl⟩
  · contradiction

/-- A call is started on a free thread. -/
theorem free_of_spawn {i : Tid} {call : Call} {c c' : Config Op Res ε α Tid Call σ}
    (h : sys.step (.spawn i call) c = some c') : c.thread i = none := by
  simp only [step] at h
  split at h
  · assumption
  · contradiction

/-- A step that starts a call, taken apart. -/
theorem step_spawn {i : Tid} {call : Call} {c c' : Config Op Res ε α Tid Call σ}
    (h : sys.step (.spawn i call) c = some c') :
    ∃ program, sys.program i call = some program ∧
      c' = { shared := sys.stop i c.shared
             thread := Function.update c.thread i (some (call, program)) } := by
  simp only [step] at h
  split at h
  · next program _ hprogram => exact ⟨program, hprogram, (Option.some.inj h).symm⟩
  · contradiction

/-- A thread in use stays with its call in a step that does not stop it. -/
theorem thread_step {label : Label Tid Choice Event Call} {i : Tid} {call : Call}
    {program : Program Op Res ε α} {c c' : Config Op Res ε α Tid Call σ}
    (h : sys.step label c = some c') (hthread : c.thread i = some (call, program))
    (hkill : label ≠ .kill i) (hreset : label ≠ .reset) :
    ∃ program', c'.thread i = some (call, program') := by
  cases label with
  | perform j choice =>
    obtain ⟨call', op, next, answer, s, hj, -, rfl⟩ := sys.step_perform h
    by_cases hij : i = j
    · subst hij
      obtain ⟨rfl, -⟩ := Prod.mk.inj (Option.some.inj (hj.symm.trans hthread))
      exact ⟨_, Function.update_self _ _ _⟩
    · exact ⟨program, (Function.update_of_ne hij _ _).trans hthread⟩
  | spawn j call' =>
    have hij : i ≠ j := by
      rintro rfl
      rw [sys.free_of_spawn h] at hthread
      contradiction
    obtain ⟨program', -, rfl⟩ := sys.step_spawn h
    exact ⟨program, (Function.update_of_ne hij _ _).trans hthread⟩
  | kill j =>
    obtain rfl := Option.some.inj h
    have hij : i ≠ j := by
      rintro rfl
      exact hkill rfl
    exact ⟨program, (Function.update_of_ne hij _ _).trans hthread⟩
  | reset => exact absurd rfl hreset
  | env event =>
    obtain ⟨s, -, rfl⟩ := Option.map_eq_some_iff.mp h
    exact ⟨program, hthread⟩

/-- A thread on which no call is started stays free. -/
theorem free_run {labels : List (Label Tid Choice Event Call)} {i : Tid}
    {c c' : Config Op Res ε α Tid Call σ} (hspawn : ∀ call, .spawn i call ∉ labels)
    (hfree : c.thread i = none) (hrun : sys.run labels c = some c') : c'.thread i = none := by
  induction labels generalizing c with
  | nil => exact Option.some.inj hrun ▸ hfree
  | cons label rest ih =>
    obtain ⟨mid, hstep, hrest⟩ := Option.bind_eq_some_iff.mp hrun
    refine ih (fun call hmem => hspawn call (List.mem_cons_of_mem _ hmem)) ?_ hrest
    cases label with
    | perform j choice =>
      obtain ⟨_, _, _, _, _, hthread, -, rfl⟩ := sys.step_perform hstep
      have hij : i ≠ j := by
        rintro rfl
        rw [hfree] at hthread
        contradiction
      exact (Function.update_of_ne hij _ _).trans hfree
    | spawn j call =>
      obtain ⟨_, -, rfl⟩ := sys.step_spawn hstep
      have hij : i ≠ j := by
        rintro rfl
        exact hspawn call List.mem_cons_self
      exact (Function.update_of_ne hij _ _).trans hfree
    | kill j =>
      obtain rfl := Option.some.inj hstep
      by_cases hij : i = j
      · subst hij
        exact Function.update_self _ _ _
      · exact (Function.update_of_ne hij _ _).trans hfree
    | reset =>
      obtain ⟨s, -, rfl⟩ := Option.map_eq_some_iff.mp hstep
      rfl
    | env event =>
      obtain ⟨s, -, rfl⟩ := Option.map_eq_some_iff.mp hstep
      exact hfree

/-- The threads of a run perform what the calls perform. -/
theorem within_run {S : Op → Prop}
    (hsys : ∀ i call program, sys.program i call = some program → program.Within S)
    {labels : List (Label Tid Choice Event Call)} {c c' : Config Op Res ε α Tid Call σ}
    (hc : ∀ i call program, c.thread i = some (call, program) → program.Within S)
    (hrun : sys.run labels c = some c') :
    ∀ i call program, c'.thread i = some (call, program) → program.Within S := by
  induction labels generalizing c with
  | nil => exact Option.some.inj hrun ▸ hc
  | cons label rest ih =>
    obtain ⟨mid, hstep, hrest⟩ := Option.bind_eq_some_iff.mp hrun
    refine ih ?_ hrest
    have hupdate : ∀ {j : Tid} {entry : Option (Call × Program Op Res ε α)},
        (∀ call program, entry = some (call, program) → program.Within S) →
        ∀ i call program, Function.update c.thread j entry i = some (call, program) →
          program.Within S := by
      intro j entry hentry i call program hthread
      by_cases hi : i = j
      · subst hi
        rw [Function.update_self] at hthread
        exact hentry call program hthread
      · rw [Function.update_of_ne hi] at hthread
        exact hc i call program hthread
    cases label with
    | perform j choice =>
      obtain ⟨call, op, next, answer, s, hthread, -, rfl⟩ := sys.step_perform hstep
      refine hupdate fun call' program heq => ?_
      obtain ⟨rfl, rfl⟩ := Prod.mk.inj (Option.some.inj heq)
      cases hc j call _ hthread with
      | perform _ hrest => exact hrest answer
    | spawn j call =>
      obtain ⟨program, hprogram, rfl⟩ := sys.step_spawn hstep
      refine hupdate fun call' program' heq => ?_
      obtain ⟨rfl, rfl⟩ := Prod.mk.inj (Option.some.inj heq)
      exact hsys j call program hprogram
    | kill j =>
      obtain rfl := Option.some.inj hstep
      exact hupdate fun _ _ heq => by contradiction
    | reset =>
      obtain ⟨s, -, rfl⟩ := Option.map_eq_some_iff.mp hstep
      exact fun _ _ _ hthread => by contradiction
    | env event =>
      obtain ⟨s, -, rfl⟩ := Option.map_eq_some_iff.mp hstep
      exact hc

end System

/-- A rely/guarantee discipline: an invariant of the shared state, what each thread relies on
between its operations, how the shared state may evolve, and what holds when a call ends. -/
structure Discipline (Tid Call ε α σ : Type) where
  inv : σ → Prop
  rely : Tid → σ → σ → Prop
  evolves : σ → σ → Prop
  post : Tid → Call → Except ε α → σ → Prop
  rely_refl : ∀ i s, rely i s s
  rely_trans : ∀ {i s t u}, rely i s t → rely i t u → rely i s u
  evolves_refl : ∀ s, evolves s s
  evolves_trans : ∀ {s t u}, evolves s t → evolves t u → evolves s u

namespace Discipline

variable (D : Discipline Tid Call ε α σ)

/-- What thread `i` owes to the others when it changes the shared state. -/
structure Guarantee (i : Tid) (s s' : σ) : Prop where
  inv : D.inv s'
  evolves : D.evolves s s'
  rely : ∀ j, j ≠ i → D.rely j s s'

variable (sys : System Op Res ε α Tid Choice Event Call σ)

/-- Every operation that remains, performed after whatever the others may have done, keeps the
guarantee, and the postcondition holds when the program ends. -/
def Safe {β : Type} (i : Tid) (Q : Except ε β → σ → Prop) : Program Op Res ε β → σ → Prop
  | .pure value, s => ∀ s', D.rely i s s' → D.inv s' → Q (.ok value) s'
  | .throw error, s => ∀ s', D.rely i s s' → D.inv s' → Q (.error error) s'
  | .perform op next, s => ∀ s', D.rely i s s' → D.inv s' → ∀ choice answer s'',
      sys.perform i op choice s' = some (answer, s'') →
        D.Guarantee i s' s'' ∧ Safe i Q (next answer) s''

variable {D sys} {i : Tid}

/-- Interference that the thread relies on does not invalidate its proof. -/
theorem Safe.stable {β : Type} {Q : Except ε β → σ → Prop} {program : Program Op Res ε β}
    {s s' : σ} (h : D.Safe sys i Q program s) (hrely : D.rely i s s') :
    D.Safe sys i Q program s' := by
  cases program with
  | pure value => exact fun t ht => h t (D.rely_trans hrely ht)
  | throw error => exact fun t ht => h t (D.rely_trans hrely ht)
  | perform op next => exact fun t ht => h t (D.rely_trans hrely ht)

/-- Weaken the postcondition. -/
theorem Safe.mono {β : Type} {Q Q' : Except ε β → σ → Prop} {program : Program Op Res ε β}
    {s : σ} (h : D.Safe sys i Q program s)
    (hpost : ∀ result s, D.inv s → Q result s → Q' result s) : D.Safe sys i Q' program s := by
  induction program generalizing s with
  | pure value => exact fun t ht hinv => hpost _ t hinv (h t ht hinv)
  | throw error => exact fun t ht hinv => hpost _ t hinv (h t ht hinv)
  | perform op next ih =>
    intro t ht hinv choice answer u hperform
    obtain ⟨hguar, hnext⟩ := h t ht hinv choice answer u hperform
    exact ⟨hguar, ih answer hnext⟩

/-- A returned value satisfies any postcondition that is stable where the program stands. -/
theorem Safe.pure {β : Type} {Q : Except ε β → σ → Prop} {value : β} {s : σ}
    (h : ∀ s', D.rely i s s' → D.inv s' → Q (.ok value) s') :
    D.Safe sys i Q (Pure.pure value) s := h

/-- A thread may wait for interference before it is verified. -/
theorem Safe.intro {β : Type} {Q : Except ε β → σ → Prop} {program : Program Op Res ε β} {s : σ}
    (h : ∀ s', D.rely i s s' → D.inv s' → D.Safe sys i Q program s') :
    D.Safe sys i Q program s := by
  cases program with
  | pure value => exact fun t ht hinv => h t ht hinv t (D.rely_refl i t) hinv
  | throw error => exact fun t ht hinv => h t ht hinv t (D.rely_refl i t) hinv
  | perform op next => exact fun t ht hinv => h t ht hinv t (D.rely_refl i t) hinv

/-- Sequencing: the continuation starts in any state the first program may end in. -/
theorem Safe.bind {β γ : Type} {Q : Except ε β → σ → Prop} {Q' : Except ε γ → σ → Prop}
    {program : Program Op Res ε β} {f : β → Program Op Res ε γ} {s : σ}
    (h : D.Safe sys i Q program s)
    (hok : ∀ value s, D.inv s → Q (.ok value) s → D.Safe sys i Q' (f value) s)
    (herror : ∀ error s, D.inv s → Q (.error error) s → Q' (.error error) s) :
    D.Safe sys i Q' (program >>= f) s := by
  induction program generalizing s with
  | pure value => exact Safe.intro fun t ht hinv => hok value t hinv (h t ht hinv)
  | throw error => exact fun t ht hinv => herror error t hinv (h t ht hinv)
  | perform op next ih =>
    intro t ht hinv choice answer u hperform
    obtain ⟨hguar, hnext⟩ := h t ht hinv choice answer u hperform
    exact ⟨hguar, ih answer hnext⟩

/-- A handler starts in any state in which the error may be thrown. -/
theorem Safe.tryCatch {β : Type} {Q Q' : Except ε β → σ → Prop}
    {program : Program Op Res ε β} {handler : ε → Program Op Res ε β} {s : σ}
    (h : D.Safe sys i Q program s)
    (hok : ∀ value s, D.inv s → Q (.ok value) s → Q' (.ok value) s)
    (herror : ∀ error s, D.inv s → Q (.error error) s → D.Safe sys i Q' (handler error) s) :
    D.Safe sys i Q' (tryCatch program handler) s := by
  induction program generalizing s with
  | pure value => exact fun t ht hinv => hok value t hinv (h t ht hinv)
  | throw error => exact Safe.intro fun t ht hinv => herror error t hinv (h t ht hinv)
  | perform op next ih =>
    intro t ht hinv choice answer u hperform
    obtain ⟨hguar, hnext⟩ := h t ht hinv choice answer u hperform
    exact ⟨hguar, ih answer hnext⟩

/-- The cleanup starts in any state in which the program returns or throws. -/
theorem Safe.finally_ {β : Type} {Q Q' : Except ε β → σ → Prop}
    {program : Program Op Res ε β} {cleanup : Program Op Res ε Unit} {s : σ}
    (h : D.Safe sys i Q program s)
    (hcleanup : ∀ result s, D.inv s → Q result s → D.Safe sys i
      (fun final s => match final with | .ok () => Q' result s | .error e => Q' (.error e) s)
      cleanup s)
    (hstable : ∀ result s s', Q' result s → D.rely i s s' → D.inv s' → Q' result s') :
    D.Safe sys i Q' (program.finally_ cleanup) s := by
  induction program generalizing s with
  | pure value =>
    exact Safe.intro fun t ht hinv => (hcleanup _ t hinv (h t ht hinv)).bind
      (fun _ _ _ hQ _ hrely hinv' => hstable _ _ _ hQ hrely hinv') (fun _ _ _ hQ => hQ)
  | throw error =>
    exact Safe.intro fun t ht hinv => (hcleanup _ t hinv (h t ht hinv)).bind
      (fun _ _ _ hQ _ hrely hinv' => hstable _ _ _ hQ hrely hinv') (fun _ _ _ hQ => hQ)
  | perform op next ih =>
    intro t ht hinv choice answer u hperform
    obtain ⟨hguar, hnext⟩ := h t ht hinv choice answer u hperform
    exact ⟨hguar, ih answer hnext⟩

/-- A loop over a list keeps what its body keeps. -/
theorem Safe.forEach {γ : Type} {P : σ → Prop} {Q : Except ε Unit → σ → Prop}
    {body : γ → Program Op Res ε Unit} {list : List γ} {s : σ} (hstart : P s)
    (hstable : ∀ s s', P s → D.rely i s s' → D.inv s' → P s')
    (hbody : ∀ x ∈ list, ∀ s, D.inv s → P s → D.Safe sys i
      (fun result s => match result with | .ok _ => P s | .error e => Q (.error e) s) (body x) s)
    (hdone : ∀ s, D.inv s → P s → Q (.ok ()) s) :
    D.Safe sys i Q (Program.forEach body list) s := by
  induction list generalizing s with
  | nil => exact fun t ht hinv => hdone t hinv (hstable s t hstart ht hinv)
  | cons x rest ih =>
    refine Safe.intro fun t ht hinv => ?_
    have hx := hbody x List.mem_cons_self t hinv (hstable s t hstart ht hinv)
    exact hx.bind (fun _ u _ hP => ih hP fun y hy => hbody y (List.mem_cons_of_mem _ hy))
      (fun _ _ _ hQ => hQ)

/-- Two postconditions hold together. -/
theorem Safe.and {β : Type} {Q Q' : Except ε β → σ → Prop} {program : Program Op Res ε β} {s : σ}
    (h : D.Safe sys i Q program s) (h' : D.Safe sys i Q' program s) :
    D.Safe sys i (fun result s => Q result s ∧ Q' result s) program s := by
  induction program generalizing s with
  | pure value => exact fun t ht hinv => ⟨h t ht hinv, h' t ht hinv⟩
  | throw error => exact fun t ht hinv => ⟨h t ht hinv, h' t ht hinv⟩
  | perform o next ih =>
    intro t ht hinv choice answer u hu
    obtain ⟨hguar, hnext⟩ := h t ht hinv choice answer u hu
    exact ⟨hguar, ih answer hnext (h' t ht hinv choice answer u hu).2⟩

/-- A program is safe where its operations are performed as those of another system. -/
theorem Safe.lift {Op' Choice' Event' β : Type} {Res' : Op' → Type}
    {sys' : System Op' Res' ε α Tid Choice' Event' Call σ} {f : Op → Op'}
    {convert : ∀ o, Res' (f o) → Res o} {Q : Except ε β → σ → Prop}
    (hperform : ∀ o choice s answer s', sys'.perform i (f o) choice s = some (answer, s') →
      ∃ choice', sys.perform i o choice' s = some (convert o answer, s'))
    {program : Program Op Res ε β} {s : σ} (h : D.Safe sys i Q program s) :
    D.Safe sys' i Q (program.lift f convert) s := by
  induction program generalizing s with
  | pure value => exact h
  | throw error => exact h
  | perform o next ih =>
    intro t ht hinv choice answer u hu
    obtain ⟨choice', hu'⟩ := hperform o choice t answer u hu
    obtain ⟨hguar, hnext⟩ := h t ht hinv choice' (convert o answer) u hu'
    exact ⟨hguar, ih (convert o answer) hnext⟩

variable (D sys) in
/-- The obligations that make a discipline valid for a system. -/
structure Valid : Prop where
  entry : ∀ i call program s, sys.program i call = some program → D.inv s →
    D.Safe sys i (D.post i call) program (sys.stop i s)
  stop : ∀ i s, D.inv s → D.Guarantee i s (sys.stop i s)
  env : ∀ event s s', sys.env event s = some s' → D.inv s →
    D.inv s' ∧ D.evolves s s' ∧ ∀ i, D.rely i s s'
  reset : ∀ s s', sys.reset s = some s' → D.inv s → D.inv s' ∧ D.evolves s s'

variable (D sys) in
/-- The invariant holds and every thread in use is safe from here. -/
structure Good (c : Config Op Res ε α Tid Call σ) : Prop where
  inv : D.inv c.shared
  safe : ∀ i call program, c.thread i = some (call, program) →
    D.Safe sys i (D.post i call) program c.shared

/-- The initial configuration of a shared state that satisfies the invariant is good. -/
theorem good_init {s : σ} (h : D.inv s) :
    D.Good sys (System.init s : Config Op Res ε α Tid Call σ) where
  inv := h
  safe _ _ _ hthread := by simp [System.init] at hthread

/-- A call that has ended satisfies its postcondition. -/
theorem Good.ended {c : Config Op Res ε α Tid Call σ} (hgood : D.Good sys c) {call : Call} :
    (∀ value, c.thread i = some (call, .pure value) → D.post i call (.ok value) c.shared) ∧
      ∀ error, c.thread i = some (call, .throw error) → D.post i call (.error error) c.shared :=
  ⟨fun _ hthread => hgood.safe i call _ hthread c.shared (D.rely_refl i _) hgood.inv,
    fun _ hthread => hgood.safe i call _ hthread c.shared (D.rely_refl i _) hgood.inv⟩

variable [DecidableEq Tid]

/-- Threads other than the one that steps keep their proofs. -/
private theorem good_update {c : Config Op Res ε α Tid Call σ} {j : Tid} {s : σ}
    {entry : Option (Call × Program Op Res ε α)} (hgood : D.Good sys c)
    (hguar : D.Guarantee j c.shared s)
    (hentry : ∀ call program, entry = some (call, program) →
      D.Safe sys j (D.post j call) program s) :
    D.Good sys { shared := s, thread := Function.update c.thread j entry } where
  inv := hguar.inv
  safe k call program hthread := by
    by_cases hk : k = j
    · subst hk
      exact hentry call program (by simpa using hthread)
    · have hthread' : c.thread k = some (call, program) := by simpa [hk] using hthread
      exact (hgood.safe k call program hthread').stable (hguar.rely k hk)

/-- One step of a valid system keeps the configuration good and evolves the shared state. -/
theorem Valid.step (hvalid : D.Valid sys) {label : Label Tid Choice Event Call}
    {c c' : Config Op Res ε α Tid Call σ} (hgood : D.Good sys c)
    (hstep : sys.step label c = some c') :
    D.Good sys c' ∧ D.evolves c.shared c'.shared := by
  cases label with
  | perform i choice =>
    obtain ⟨call, op, next, answer, s, hthread, hperform, rfl⟩ := sys.step_perform hstep
    obtain ⟨hguar, hnext⟩ := hgood.safe i call _ hthread c.shared (D.rely_refl i _) hgood.inv
      choice answer s hperform
    refine ⟨good_update hgood hguar ?_, hguar.evolves⟩
    intro call' program' heq
    obtain ⟨rfl, rfl⟩ := Prod.mk.inj (Option.some.inj heq)
    exact hnext
  | spawn i call =>
    obtain ⟨program, hprogram, rfl⟩ := sys.step_spawn hstep
    have hguar := hvalid.stop i c.shared hgood.inv
    refine ⟨good_update hgood hguar ?_, hguar.evolves⟩
    intro call' program' heq
    obtain ⟨rfl, rfl⟩ := Prod.mk.inj (Option.some.inj heq)
    exact hvalid.entry i call program c.shared hprogram hgood.inv
  | kill i =>
    obtain rfl := Option.some.inj hstep
    have hguar := hvalid.stop i c.shared hgood.inv
    exact ⟨good_update hgood hguar fun _ _ heq => by contradiction, hguar.evolves⟩
  | reset =>
    obtain ⟨s, hs, rfl⟩ := Option.map_eq_some_iff.mp hstep
    obtain ⟨hinv, hevolves⟩ := hvalid.reset c.shared s hs hgood.inv
    exact ⟨⟨hinv, fun _ _ _ hthread => by contradiction⟩, hevolves⟩
  | env event =>
    obtain ⟨s, hs, rfl⟩ := Option.map_eq_some_iff.mp hstep
    obtain ⟨hinv, hevolves, hrely⟩ := hvalid.env event c.shared s hs hgood.inv
    exact ⟨⟨hinv, fun i call program hthread =>
      (hgood.safe i call program hthread).stable (hrely i)⟩, hevolves⟩

/-- Every run of a valid system keeps the configuration good and evolves the shared state. -/
theorem Valid.run (hvalid : D.Valid sys) {labels : List (Label Tid Choice Event Call)}
    {c c' : Config Op Res ε α Tid Call σ} (hgood : D.Good sys c)
    (hrun : sys.run labels c = some c') :
    D.Good sys c' ∧ D.evolves c.shared c'.shared := by
  induction labels generalizing c with
  | nil =>
    obtain rfl := Option.some.inj hrun
    exact ⟨hgood, D.evolves_refl _⟩
  | cons label rest ih =>
    obtain ⟨mid, hstep, hrest⟩ := Option.bind_eq_some_iff.mp hrun
    obtain ⟨hmid, hfirst⟩ := hvalid.step hgood hstep
    obtain ⟨hlast, hsecond⟩ := ih hmid hrest
    exact ⟨hlast, D.evolves_trans hfirst hsecond⟩

end Discipline

end Interaction
