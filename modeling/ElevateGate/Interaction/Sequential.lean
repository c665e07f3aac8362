import ElevateGate.Interaction.System
import Mathlib.Logic.Relation

/-!
# Programs that run alone

A thread that nobody interferes with can be verified by backward reasoning: `Ensures` says that its
program is never stuck, and that however its operations are answered, it ends in a result and a state
that satisfy a postcondition. Between its operations the shared state may drift, as a clock does.
-/

namespace Interaction

open Relation

variable {Op : Type} {Res : Op → Type} {ε α β γ Tid Choice Event Call σ : Type}

namespace Program

/-- The result of a program that has ended. -/
def result : Program Op Res ε α → Option (Except ε α)
  | .pure value => some (.ok value)
  | .throw error => some (.error error)
  | .perform _ _ => none

/-- The program is never stuck and ends in a result and a state that satisfy the postcondition. -/
def Ensures (perform : (op : Op) → Choice → σ → Option (Res op × σ)) (drift : σ → σ → Prop)
    (Q : Except ε α → σ → Prop) : Program Op Res ε α → σ → Prop
  | .pure value, s => ∀ s', ReflTransGen drift s s' → Q (.ok value) s'
  | .throw error, s => ∀ s', ReflTransGen drift s s' → Q (.error error) s'
  | .perform op next, s => ∀ s', ReflTransGen drift s s' →
      (∃ choice, (perform op choice s').isSome = true) ∧
        ∀ choice answer s'', perform op choice s' = some (answer, s'') →
          (next answer).Ensures perform drift Q s''

namespace Ensures

variable {perform : (op : Op) → Choice → σ → Option (Res op × σ)} {drift : σ → σ → Prop}
  {Q : Except ε α → σ → Prop} {s s' : σ}

/-- Drifting does not invalidate the proof of a program. -/
theorem drifted {program : Program Op Res ε α} (h : program.Ensures perform drift Q s)
    (hdrift : ReflTransGen drift s s') : program.Ensures perform drift Q s' := by
  cases program with
  | pure value => exact fun t ht => h t (hdrift.trans ht)
  | throw error => exact fun t ht => h t (hdrift.trans ht)
  | perform op next => exact fun t ht => h t (hdrift.trans ht)

/-- Return. -/
theorem pure {value : α} (h : ∀ s', ReflTransGen drift s s' → Q (.ok value) s') :
    (Pure.pure value : Program Op Res ε α).Ensures perform drift Q s := h

/-- Throw. -/
theorem throw {error : ε} (h : ∀ s', ReflTransGen drift s s' → Q (.error error) s') :
    (Program.throw error : Program Op Res ε α).Ensures perform drift Q s := h

/-- Perform an operation and go on. -/
theorem op_bind {o : Op} {f : Res o → Program Op Res ε α}
    (h : ∀ s', ReflTransGen drift s s' → (∃ choice, (perform o choice s').isSome = true) ∧
      ∀ choice answer s'', perform o choice s' = some (answer, s'') →
        (f answer).Ensures perform drift Q s'') :
    (Program.op o >>= f).Ensures perform drift Q s := h

/-- Weaken the postcondition. -/
theorem mono {Q' : Except ε α → σ → Prop} {program : Program Op Res ε α}
    (h : program.Ensures perform drift Q s) (hpost : ∀ result s, Q result s → Q' result s) :
    program.Ensures perform drift Q' s := by
  induction program generalizing s with
  | pure value => exact fun t ht => hpost _ _ (h t ht)
  | throw error => exact fun t ht => hpost _ _ (h t ht)
  | perform op next ih =>
    intro t ht
    obtain ⟨hstuck, hnext⟩ := h t ht
    exact ⟨hstuck, fun choice answer u hperform => ih answer (hnext choice answer u hperform)⟩

/-- Sequencing. -/
theorem bind {Q' : Except ε β → σ → Prop} {program : Program Op Res ε α}
    {f : α → Program Op Res ε β} (h : program.Ensures perform drift Q s)
    (hok : ∀ value s, (∀ s', ReflTransGen drift s s' → Q (.ok value) s') →
      (f value).Ensures perform drift Q' s)
    (herror : ∀ error s, Q (.error error) s → Q' (.error error) s) :
    (program >>= f).Ensures perform drift Q' s := by
  induction program generalizing s with
  | pure value => exact hok value s h
  | throw error => exact fun t ht => herror _ _ (h t ht)
  | perform op next ih =>
    intro t ht
    obtain ⟨hstuck, hnext⟩ := h t ht
    exact ⟨hstuck, fun choice answer u hperform => ih answer (hnext choice answer u hperform)⟩

/-- Converting the value. -/
theorem map {Q' : Except ε β → σ → Prop} {program : Program Op Res ε α} {f : α → β}
    (h : program.Ensures perform drift Q s)
    (hok : ∀ value s, Q (.ok value) s → Q' (.ok (f value)) s)
    (herror : ∀ error s, Q (.error error) s → Q' (.error error) s) :
    (f <$> program).Ensures perform drift Q' s := by
  rw [map_eq_pure_bind]
  exact h.bind (fun value s hQ => .pure fun s' hs' => hok value s' (hQ s' hs')) herror

/-- The cleanup runs in the state in which the program ends. -/
theorem finally_ {Q' : Except ε α → σ → Prop} {program : Program Op Res ε α}
    {cleanup : Program Op Res ε Unit} (h : program.Ensures perform drift Q s)
    (hcleanup : ∀ result s, Q result s → cleanup.Ensures perform drift
      (fun final s => match final with | .ok () => Q' result s | .error e => Q' (.error e) s) s) :
    (program.finally_ cleanup).Ensures perform drift Q' s := by
  induction program generalizing s with
  | pure value =>
    exact (hcleanup _ s (h s .refl)).bind (fun _ _ hQ => .pure hQ) fun _ _ hQ => hQ
  | throw error =>
    exact (hcleanup _ s (h s .refl)).bind (fun _ _ hQ => .throw hQ) fun _ _ hQ => hQ
  | perform op next ih =>
    intro t ht
    obtain ⟨hstuck, hnext⟩ := h t ht
    exact ⟨hstuck, fun choice answer u hperform => ih answer (hnext choice answer u hperform)⟩

/-- A program that has ended satisfies its postcondition. -/
theorem ended {program : Program Op Res ε α} {result : Except ε α}
    (h : program.Ensures perform drift Q s) (hended : program.result = some result) :
    Q result s := by
  cases program with
  | pure value =>
    obtain rfl := Option.some.inj hended
    exact h s .refl
  | throw error =>
    obtain rfl := Option.some.inj hended
    exact h s .refl
  | perform op next => contradiction

end Ensures

end Program

section Runs

variable [DecidableEq Tid] {sys : System Op Res ε α Tid Choice Event Call σ} {i : Tid} {call : Call}
  {program : Program Op Res ε α} {Q : Except ε α → σ → Prop} {c c' : Config Op Res ε α Tid Call σ}
  {drift : σ → σ → Prop} {quiet : Event → Prop}

/-- A step of one thread, or an event of a quiet kind. -/
def Solo (i : Tid) (quiet : Event → Prop) : Label Tid Choice Event Call → Prop
  | .perform j _ => j = i
  | .env event => quiet event
  | _ => False

/-- While a thread runs alone, its program keeps ensuring its postcondition. -/
theorem ensures_run {labels : List (Label Tid Choice Event Call)}
    (hquiet : ∀ event s s', quiet event → sys.env event s = some s' → drift s s')
    (hsolo : ∀ label ∈ labels, Solo i quiet label) (hthread : c.thread i = some (call, program))
    (hensures : program.Ensures (sys.perform i) drift Q c.shared)
    (hrun : sys.run labels c = some c') :
    ∃ program', c'.thread i = some (call, program') ∧
      program'.Ensures (sys.perform i) drift Q c'.shared := by
  induction labels generalizing c program with
  | nil =>
    obtain rfl := Option.some.inj hrun
    exact ⟨program, hthread, hensures⟩
  | cons label rest ih =>
    obtain ⟨mid, hstep, hrest⟩ := Option.bind_eq_some_iff.mp hrun
    have hrestSolo : ∀ label ∈ rest, Solo i quiet label := fun l hl =>
      hsolo l (List.mem_cons_of_mem _ hl)
    have hlabel := hsolo label List.mem_cons_self
    cases label with
    | perform j choice =>
      obtain rfl : j = i := hlabel
      obtain ⟨call', op, next, answer, s, hthread', hperform, rfl⟩ := sys.step_perform hstep
      obtain ⟨rfl, rfl⟩ := Prod.mk.inj (Option.some.inj (hthread'.symm.trans hthread))
      exact ih hrestSolo (by simp) ((hensures _ .refl).2 choice answer s hperform) hrest
    | env event =>
      obtain ⟨s, henv, rfl⟩ := Option.map_eq_some_iff.mp hstep
      have hdrift := ReflTransGen.single (hquiet event _ _ hlabel henv)
      exact ih (c := { c with shared := s }) hrestSolo hthread (hensures.drifted hdrift) hrest
    | spawn | kill | reset => exact hlabel.elim

/-- A thread that runs alone can run to its end. -/
theorem ensures_progress (hthread : c.thread i = some (call, program))
    (hensures : program.Ensures (sys.perform i) drift Q c.shared) :
    ∃ labels c' program', (∀ label ∈ labels, Solo i quiet label) ∧ sys.run labels c = some c' ∧
      c'.thread i = some (call, program') ∧ program'.result ≠ none := by
  induction program generalizing c with
  | pure value => exact ⟨[], c, _, by simp, rfl, hthread, by simp [Program.result]⟩
  | throw error => exact ⟨[], c, _, by simp, rfl, hthread, by simp [Program.result]⟩
  | perform op next ih =>
    obtain ⟨⟨choice, hsome⟩, hnext⟩ := hensures _ .refl
    obtain ⟨⟨answer, s⟩, hperform⟩ := Option.isSome_iff_exists.mp hsome
    obtain ⟨labels, c', program', hsolo, hrun, hrest⟩ :=
      ih answer (c := ⟨s, Function.update c.thread i (some (call, next answer))⟩) (by simp)
        (hnext choice answer s hperform)
    refine ⟨.perform i choice :: labels, c', program', ?_, ?_, hrest⟩
    · rintro label (_ | ⟨_, hlabel⟩)
      · rfl
      · exact hsolo label hlabel
    · simp only [System.run, System.step, hthread, hperform, Option.map_some, Option.bind_some]
      exact hrun

end Runs

end Interaction
