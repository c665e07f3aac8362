import Mathlib.Tactic.Common

/-!
# Programs that interact with an environment

A program performs operations one at a time and continues with whatever the environment
answers. It may return a value or throw an error. Nothing here fixes what an operation
does: the meaning is supplied by a machine, so one program text is used for every
interleaving, every failure and every deterministic replay.
-/

namespace Interaction

/-- A program over operations `Op`, where `Res op` is the type of the answer to `op`. -/
inductive Program (Op : Type) (Res : Op → Type) (ε α : Type) : Type
  | pure (value : α)
  | throw (error : ε)
  | perform (op : Op) (next : Res op → Program Op Res ε α)

namespace Program

variable {Op : Type} {Res : Op → Type} {ε α β : Type}

/-- Sequential composition. An error skips the continuation. -/
protected def bind : Program Op Res ε α → (α → Program Op Res ε β) → Program Op Res ε β
  | .pure value, f => f value
  | .throw error, _ => .throw error
  | .perform op next, f => .perform op fun answer => (next answer).bind f

/-- Run a handler in place of the error that ends a program, if one does. -/
protected def tryCatch : Program Op Res ε α → (ε → Program Op Res ε α) → Program Op Res ε α
  | .pure value, _ => .pure value
  | .throw error, handler => handler error
  | .perform op next, handler => .perform op fun answer => (next answer).tryCatch handler

/-- The operation that a program is about to perform, if it has not ended. -/
def pending : Program Op Res ε α → Option Op
  | .perform op _ => some op
  | _ => none

instance : Monad (Program Op Res ε) where
  pure := .pure
  bind := Program.bind

instance : MonadExceptOf ε (Program Op Res ε) where
  throw := .throw
  tryCatch := Program.tryCatch

/-- Perform one operation and return its answer. -/
def op (o : Op) : Program Op Res ε (Res o) :=
  .perform o .pure

/-- Turn an answer that may be an error into the program that returns or throws it. -/
def liftExcept : Except ε α → Program Op Res ε α
  | .ok value => .pure value
  | .error error => .throw error

/-- Run `cleanup` after a program, whether it returned or threw. -/
def finally_ (program : Program Op Res ε α) (cleanup : Program Op Res ε Unit) :
    Program Op Res ε α :=
  match program with
  | .pure value => cleanup.bind fun _ => .pure value
  | .throw error => cleanup.bind fun _ => .throw error
  | .perform op next => .perform op fun answer => (next answer).finally_ cleanup

/-- Perform the body once for each element, in order. -/
def forEach {γ : Type} (body : γ → Program Op Res ε Unit) : List γ → Program Op Res ε Unit
  | [] => .pure ()
  | x :: rest => (body x).bind fun _ => forEach body rest

/-- Perform the operations of a program as operations of another kind. -/
def lift {Op' : Type} {Res' : Op' → Type} (f : Op → Op') (answer : ∀ o, Res' (f o) → Res o) :
    Program Op Res ε α → Program Op' Res' ε α
  | .pure value => .pure value
  | .throw error => .throw error
  | .perform o next => .perform (f o) fun a => (next (answer o a)).lift f answer

/-- What a program comes to if its environment answers every operation as an oracle does. -/
def eval (oracle : (o : Op) → Res o) : Program Op Res ε α → Except ε α
  | .pure value => .ok value
  | .throw error => .error error
  | .perform o next => (next (oracle o)).eval oracle

/-- Run a program to its end on a state that nothing else changes, or `none` where an operation cannot
take place. -/
def execute {σ : Type} (perform : (o : Op) → σ → Option (Res o × σ)) :
    Program Op Res ε α → σ → Option (Except ε α × σ)
  | .pure value, s => some (.ok value, s)
  | .throw error, s => some (.error error, s)
  | .perform o next, s => (perform o s).bind fun answer => (next answer.1).execute perform answer.2

/-- A program that is about to perform an operation goes on with its answer. -/
theorem pending_eq_some {program : Program Op Res ε α} {o : Op} :
    program.pending = some o ↔ ∃ next, program = .perform o next := by
  constructor
  · intro h
    cases program with
    | perform op next =>
      obtain rfl := Option.some.inj h
      exact ⟨next, rfl⟩
    | _ => contradiction
  · rintro ⟨next, rfl⟩
    rfl

@[simp] theorem pure_bind (value : α) (f : α → Program Op Res ε β) :
    ((Pure.pure value : Program Op Res ε α) >>= f) = f value := rfl

@[simp] theorem throw_bind (error : ε) (f : α → Program Op Res ε β) :
    ((Program.throw error : Program Op Res ε α) >>= f) = Program.throw error := rfl

@[simp] theorem perform_bind (o : Op) (next : Res o → Program Op Res ε α)
    (f : α → Program Op Res ε β) :
    (Program.perform o next >>= f) = Program.perform o fun answer => next answer >>= f := rfl

@[simp] theorem op_bind (o : Op) (f : Res o → Program Op Res ε β) :
    (Program.op o >>= f) = Program.perform o f := rfl

/-- An operation is answered by the oracle. -/
@[simp] theorem eval_op_bind (oracle : (o : Op) → Res o) (o : Op) (f : Res o → Program Op Res ε β) :
    (Program.op o >>= f).eval oracle = (f (oracle o)).eval oracle := rfl

/-- A program that performs an operation goes on from the state that the operation leaves. -/
theorem execute_op_bind {σ : Type} {perform : (o : Op) → σ → Option (Res o × σ)} {o : Op} {s s' : σ}
    {answer : Res o} (h : perform o s = some (answer, s')) (f : Res o → Program Op Res ε β) :
    (Program.op o >>= f).execute perform s = (f answer).execute perform s' := by
  change (perform o s).bind _ = _
  rw [h]
  rfl

/-- A sequence runs its second program where the first has returned. -/
theorem execute_bind {σ : Type} (perform : (o : Op) → σ → Option (Res o × σ))
    (program : Program Op Res ε α) (f : α → Program Op Res ε β) (s : σ) :
    (program >>= f).execute perform s = (program.execute perform s).bind fun outcome =>
      match outcome.1 with
      | .ok value => (f value).execute perform outcome.2
      | .error error => some (.error error, outcome.2) := by
  induction program generalizing s with
  | pure value => rfl
  | throw error => rfl
  | perform o next ih =>
    change (perform o s).bind _ = ((perform o s).bind _).bind _
    rw [Option.bind_assoc]
    exact congrArg _ (funext fun answer => ih answer.1 answer.2)

/-- A handler runs where the program has thrown. -/
theorem execute_tryCatch {σ : Type} (perform : (o : Op) → σ → Option (Res o × σ))
    (program : Program Op Res ε α) (handler : ε → Program Op Res ε α) (s : σ) :
    (MonadExceptOf.tryCatch program handler).execute perform s =
      (program.execute perform s).bind fun outcome =>
        match outcome.1 with
        | .ok value => some (.ok value, outcome.2)
        | .error error => (handler error).execute perform outcome.2 := by
  induction program generalizing s with
  | pure value => rfl
  | throw error => rfl
  | perform o next ih =>
    change (perform o s).bind _ = ((perform o s).bind _).bind _
    rw [Option.bind_assoc]
    exact congrArg _ (funext fun answer => ih answer.1 answer.2)

/-- The cleanup runs where the program has ended, and a program whose cleanup throws throws. -/
theorem execute_finally {σ : Type} (perform : (o : Op) → σ → Option (Res o × σ))
    (program : Program Op Res ε α) (cleanup : Program Op Res ε Unit) (s : σ) :
    (program.finally_ cleanup).execute perform s =
      (program.execute perform s).bind fun outcome =>
        (cleanup.execute perform outcome.2).map fun final =>
          (match final.1 with
            | .ok () => outcome.1
            | .error error => .error error, final.2) := by
  induction program generalizing s with
  | pure value =>
    apply (execute_bind perform cleanup (fun _ => .pure value) s).trans
    change _ = (cleanup.execute perform s).map _
    rcases cleanup.execute perform s with _ | ⟨_ | _, s'⟩ <;> rfl
  | throw error =>
    apply (execute_bind perform cleanup (fun _ => .throw error) s).trans
    change _ = (cleanup.execute perform s).map _
    rcases cleanup.execute perform s with _ | ⟨_ | _, s'⟩ <;> rfl
  | perform o next ih =>
    change (perform o s).bind _ = ((perform o s).bind _).bind _
    rw [Option.bind_assoc]
    exact congrArg _ (funext fun answer => ih answer.1 answer.2)

/-- Where the other operations do the same to a part of a larger state, so does the program. -/
theorem execute_lift {Op' : Type} {Res' : Op' → Type} {σ τ : Type}
    {perform : (o : Op) → σ → Option (Res o × σ)} {perform' : (o : Op') → τ → Option (Res' o × τ)}
    {f : Op → Op'} {answer : ∀ o, Res' (f o) → Res o} (get : τ → σ) (put : σ → τ → τ)
    (hperform : ∀ o t, (perform' (f o) t).map (fun outcome => (answer o outcome.1, outcome.2)) =
      (perform o (get t)).map fun outcome => (outcome.1, put outcome.2 t))
    (hget : ∀ s t, get (put s t) = s) (hput : ∀ s s' t, put s (put s' t) = put s t)
    (hsame : ∀ t, put (get t) t = t) (program : Program Op Res ε α) (t : τ) :
    (program.lift f answer).execute perform' t =
      (program.execute perform (get t)).map fun outcome => (outcome.1, put outcome.2 t) := by
  induction program generalizing t with
  | pure value =>
    change some (Except.ok value, t) = some (Except.ok value, put (get t) t)
    rw [hsame]
  | throw error =>
    change some (Except.error error, t) = some (Except.error error, put (get t) t)
    rw [hsame]
  | perform o next ih =>
    change (perform' (f o) t).bind ((fun outcome => ((next outcome.1).lift f answer).execute perform'
      outcome.2) ∘ fun outcome => (answer o outcome.1, outcome.2)) =
        ((perform o (get t)).bind fun outcome => (next outcome.1).execute perform outcome.2).map _
    rw [← Option.bind_map, hperform, Option.bind_map, Option.map_bind]
    apply congrArg
    funext outcome
    change ((next outcome.1).lift f answer).execute perform' (put outcome.2 t) = _
    rw [ih, hget]
    simp only [hput, Function.comp]

/-- Sequencing is associative, so a function may be verified before it is used in a longer one. -/
theorem bind_assoc {γ : Type} (program : Program Op Res ε α) (f : α → Program Op Res ε β)
    (g : β → Program Op Res ε γ) :
    ((program >>= f) >>= g) = (program >>= fun value => f value >>= g) := by
  induction program with
  | pure value => rfl
  | throw error => rfl
  | perform o next ih =>
    change Program.perform o _ = Program.perform o _
    exact congrArg _ (funext fun answer => ih answer)

/-- Returning is a right identity of sequencing. -/
theorem bind_pure (program : Program Op Res ε α) :
    (program >>= fun value => Pure.pure value) = program := by
  induction program with
  | pure value => rfl
  | throw error => rfl
  | perform o next ih =>
    change Program.perform o _ = Program.perform o _
    exact congrArg _ (funext fun answer => ih answer)

instance : LawfulMonad (Program Op Res ε) :=
  LawfulMonad.mk' _ (fun program => bind_pure program) (fun _ _ => rfl)
    (fun program f g => bind_assoc program f g)

/-- Every operation that a program may come to perform satisfies a predicate. -/
inductive Within (S : Op → Prop) : Program Op Res ε α → Prop
  | pure {value : α} : Within S (.pure value)
  | throw {error : ε} : Within S (.throw error)
  | perform {o : Op} {next : Res o → Program Op Res ε α} (allowed : S o)
      (rest : ∀ answer, Within S (next answer)) : Within S (.perform o next)

/-- A value that a program may come to return. -/
inductive Returns (value : α) : Program Op Res ε α → Prop
  | pure : Returns value (.pure value)
  | perform {o : Op} {next : Res o → Program Op Res ε α} (answer : Res o)
      (rest : Returns value (next answer)) : Returns value (.perform o next)

theorem Returns.eq_of_pure {value value' : α}
    (h : (Program.pure value' : Program Op Res ε α).Returns value) : value' = value := by
  cases h
  rfl

namespace Within

variable {S : Op → Prop}

theorem op {o : Op} (h : S o) : (Program.op o : Program Op Res ε (Res o)).Within S :=
  .perform h fun _ => .pure

theorem liftExcept {result : Except ε α} :
    (Program.liftExcept result : Program Op Res ε α).Within S := by
  cases result with
  | ok value => exact .pure
  | error error => exact .throw

theorem mono {T : Op → Prop} {program : Program Op Res ε α} (h : program.Within S)
    (hST : ∀ o, S o → T o) : program.Within T := by
  induction h with
  | pure => exact .pure
  | throw => exact .throw
  | perform allowed _ ih => exact .perform (hST _ allowed) ih

theorem bind {program : Program Op Res ε α} {f : α → Program Op Res ε β} (h : program.Within S)
    (hf : ∀ value, (f value).Within S) : (program >>= f).Within S := by
  induction h with
  | pure => exact hf _
  | throw => exact .throw
  | perform allowed _ ih => exact .perform allowed ih

/-- The continuation matters only for the values that the first program may return. -/
theorem bind_returns {program : Program Op Res ε α} {f : α → Program Op Res ε β}
    (h : program.Within S) (hf : ∀ value, program.Returns value → (f value).Within S) :
    (program >>= f).Within S := by
  induction h with
  | pure => exact hf _ .pure
  | throw => exact .throw
  | perform allowed _ ih =>
    exact .perform allowed fun answer => ih answer fun value hvalue => hf value (.perform answer hvalue)

theorem ite {c : Prop} [Decidable c] {program program' : Program Op Res ε α}
    (h : c → program.Within S) (h' : ¬ c → program'.Within S) :
    (if c then program else program').Within S := by
  by_cases hc : c
  · rw [if_pos hc]
    exact h hc
  · rw [if_neg hc]
    exact h' hc

theorem map {program : Program Op Res ε α} {f : α → β} (h : program.Within S) :
    (f <$> program).Within S := by
  rw [map_eq_pure_bind]
  exact h.bind fun _ => .pure

theorem tryCatch {program : Program Op Res ε α} {handler : ε → Program Op Res ε α}
    (h : program.Within S) (hhandler : ∀ error, (handler error).Within S) :
    (MonadExceptOf.tryCatch program handler).Within S := by
  induction h with
  | pure => exact .pure
  | throw => exact hhandler _
  | perform allowed _ ih => exact .perform allowed ih

theorem finally_ {program : Program Op Res ε α} {cleanup : Program Op Res ε Unit}
    (h : program.Within S) (hcleanup : cleanup.Within S) :
    (program.finally_ cleanup).Within S := by
  induction h with
  | pure => exact hcleanup.bind fun _ => .pure
  | throw => exact hcleanup.bind fun _ => .throw
  | perform allowed _ ih => exact .perform allowed ih

theorem forEach {γ : Type} {body : γ → Program Op Res ε Unit} {list : List γ}
    (h : ∀ x ∈ list, (body x).Within S) : (Program.forEach body list).Within S := by
  induction list with
  | nil => exact .pure
  | cons x rest ih =>
    exact (h x List.mem_cons_self).bind fun _ => ih fun y hy => h y (List.mem_cons_of_mem _ hy)

end Within

end Program

end Interaction
