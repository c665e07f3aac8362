import ElevateGate.Agent.Credentials
import ElevateGate.Encoding.JsonObject

/-!
# Recovery of the device's credential

One caller at a time is under the lock, so there is at most one enrollment at a time. A start that
finds the whole text of a credential, or no file, gets an issued credential. A text that breaks off is
left only by a process or a write that ends between the creation of the file and the end of the text.
-/

namespace ElevateGate.Agent.Enrollment

open Interaction Text Time

section Positions

variable {libraries : Libraries} {i j : Tid} {s s' : Store} {c c' : Configuration}

/-- What happens under the lock: neither waiting nor releasing, and only whole texts are written. -/
def Locked (libraries : Libraries) : Op → Prop
  | .wait => False
  | .release => False
  | .write text => ∃ stored, text = libraries.write stored
  | _ => True

/-- Where a caller stands, and whether it holds the lock there. -/
inductive Position (libraries : Libraries) : Bool → Caller DeviceCredential → Prop
  | start : Position libraries false (getOrCreateAsync libraries)
  | waiting : Position libraries false
      (attempt (op .wait) >>= fun _ => (getOrCreateLocked libraries).finally_ (op .release))
  | inside {inner : Caller DeviceCredential} (h : inner.Within (Locked libraries)) :
      Position libraries true (inner.finally_ (op .release))
  | returned {credential : DeviceCredential} : Position libraries false (.pure credential)
  | threw {error : EnrollmentError} : Position libraries false (.throw error)

/-- Attempting an allowed operation is allowed. -/
private theorem within_attempt {α : Type} {result : Caller (Throws α)} {S : Op → Prop}
    (h : result.Within S) : (attempt result).Within S :=
  h.bind fun _ => .liftExcept

/-- Everything under the lock is allowed there. -/
theorem within_getOrCreateLocked (libraries : Libraries) :
    (getOrCreateLocked libraries).Within (Locked libraries) := by
  have hsave : ∀ credential, (saveToDisk libraries credential).Within (Locked libraries) :=
    fun credential => (within_attempt (.op trivial)).bind fun protectedToken =>
      (within_attempt (.op trivial)).bind fun _ => within_attempt (.op ⟨_, rfl⟩)
  have henroll : (enrollAsync libraries).Within (Locked libraries) :=
    (within_attempt (.op trivial)).bind fun _ => (Program.Within.op trivial).bind fun guid =>
      (within_attempt (.op trivial)).bind fun bearerToken => (hsave _).bind fun _ =>
        (Program.Within.op trivial).bind fun now => (within_attempt (.op trivial)).bind fun _ => .pure
  have hload : (loadFromDisk libraries).Within (Locked libraries) :=
    (within_attempt (.op trivial)).bind fun json => .liftExcept
  have hremember : ∀ credential : DeviceCredential, (op (.writeCached credential) >>= fun _ =>
      (pure credential : Caller DeviceCredential)).Within (Locked libraries) := fun credential =>
    (Program.Within.op trivial).bind fun _ => .pure
  refine (Program.Within.op trivial).bind fun (cached : Option DeviceCredential) => ?_
  cases cached with
  | some credential => exact .pure
  | none =>
    refine (Program.Within.op trivial).bind fun (exists_ : Bool) => ?_
    cases exists_ with
    | true => exact hload.bind hremember
    | false => exact henroll.bind hremember

/-- An operation that neither waits nor releases leaves the lock. -/
theorem perform_holder {o : Op} (ho : Locked libraries o) {choice : Choice} {answer : Res o}
    (h : perform libraries i o choice s = some (answer, s')) : s'.holder = s.holder := by
  cases o with
  | wait => exact absurd ho id
  | release => exact absurd ho id
  | write text =>
    cases choice with
    | proceed =>
      obtain ⟨-, rfl⟩ := Prod.mk.inj (Option.some.inj h)
      rfl
    | partly n =>
      simp only [perform] at h
      split at h
      · obtain ⟨-, rfl⟩ := Prod.mk.inj (Option.some.inj h)
        rfl
      · contradiction
    | _ => contradiction
  | writeCached credential | enroll request | create =>
    cases choice <;> first
      | contradiction
      | (obtain ⟨-, rfl⟩ := Prod.mk.inj (Option.some.inj h); rfl)
  | _ => rw [perform_quiet rfl h]

/-- What a caller does with what it has read from the cache. -/
private theorem position_cached (cached : Option DeviceCredential) :
    Position libraries false (match cached with
      | some credential => pure credential
      | none => attempt (op .wait) >>= fun _ =>
        (getOrCreateLocked libraries).finally_ (op .release)) := by
  cases cached with
  | some credential => exact .returned
  | none => exact .waiting

/-- Whoever releases the lock leaves it to the others. -/
private theorem released {choice : Choice} {answer : Unit} (hheld : s.holder = some i)
    (h : perform libraries i .release choice s = some (answer, s')) :
    s'.holder = none ∧ ∀ j, j ≠ i → (s'.holder = some j ↔ s.holder = some j) := by
  cases choice with
  | proceed =>
    obtain ⟨-, rfl⟩ := Prod.mk.inj (Option.some.inj h)
    refine ⟨rfl, fun j hj => ⟨fun h => by contradiction, fun h => ?_⟩⟩
    exact absurd (Option.some.inj (h.symm.trans hheld)) hj
  | _ => contradiction

/-- A caller's step leads from position to position, and only waiting and releasing touch the lock. -/
theorem Position.perform {held : Bool} {o : Op} {next : Res o → Caller DeviceCredential}
    (h : Position libraries held (.perform o next)) (hheld : held = decide (s.holder = some i))
    {choice : Choice} {answer : Res o}
    (hperform : Enrollment.perform libraries i o choice s = some (answer, s')) :
    Position libraries (decide (s'.holder = some i)) (next answer) ∧
      ∀ j, j ≠ i → (s'.holder = some j ↔ s.holder = some j) := by
  generalize hprogram : (Program.perform o next : Caller DeviceCredential) = program at h
  cases h with
  | start =>
    obtain ⟨rfl, hnext⟩ := Program.perform.inj hprogram
    obtain rfl := eq_of_heq hnext
    obtain rfl := perform_quiet rfl hperform
    rw [← hheld]
    exact ⟨position_cached answer, fun _ _ => Iff.rfl⟩
  | waiting =>
    obtain ⟨rfl, hnext⟩ := Program.perform.inj hprogram
    obtain rfl := eq_of_heq hnext
    cases choice with
    | proceed =>
      simp only [Enrollment.perform] at hperform
      split at hperform
      · next hfree =>
        obtain ⟨rfl, rfl⟩ := Prod.mk.inj (Option.some.inj hperform)
        rw [decide_eq_true rfl]
        refine ⟨.inside (within_getOrCreateLocked libraries), fun j hj => ?_⟩
        rw [hfree]
        simp [Ne.symm hj]
      · contradiction
    | fail =>
      obtain ⟨rfl, rfl⟩ := Prod.mk.inj (Option.some.inj hperform)
      rw [← hheld]
      exact ⟨.threw, fun _ _ => Iff.rfl⟩
    | _ => contradiction
  | @inside inner hwithin =>
    have hholder : s.holder = some i := of_decide_eq_true hheld.symm
    cases hwithin with
    | pure =>
      obtain ⟨rfl, hnext⟩ := Program.perform.inj hprogram
      obtain rfl := eq_of_heq hnext
      obtain ⟨hnone, hother⟩ := released hholder hperform
      rw [hnone]
      exact ⟨.returned, fun j hj => by rw [← hother j hj, hnone]⟩
    | throw =>
      obtain ⟨rfl, hnext⟩ := Program.perform.inj hprogram
      obtain rfl := eq_of_heq hnext
      obtain ⟨hnone, hother⟩ := released hholder hperform
      rw [hnone]
      exact ⟨.threw, fun j hj => by rw [← hother j hj, hnone]⟩
    | perform hallowed hrest =>
      obtain ⟨rfl, hnext⟩ := Program.perform.inj hprogram
      obtain rfl := eq_of_heq hnext
      have hsame := perform_holder hallowed hperform
      rw [hsame, ← hheld]
      exact ⟨.inside (hrest answer), fun _ _ => Iff.rfl⟩
  | returned => contradiction
  | threw => contradiction

/-- Every caller stands somewhere, and who does not call holds no lock. -/
structure Placed (libraries : Libraries) (c : Configuration) : Prop where
  idle : ∀ i, c.thread i = none → c.shared.holder ≠ some i
  placed : ∀ i call program, c.thread i = some (call, program) →
    Position libraries (decide (c.shared.holder = some i)) program

/-- A change of one caller keeps the others where they stand. -/
private theorem Placed.update (h : Placed libraries c) {s : Store}
    {entry : Option (Unit × Caller DeviceCredential)}
    (hother : ∀ j, j ≠ i → (s.holder = some j ↔ c.shared.holder = some j))
    (hidle : entry = none → s.holder ≠ some i)
    (hplaced : ∀ call program, entry = some (call, program) →
      Position libraries (decide (s.holder = some i)) program) :
    Placed libraries { shared := s, thread := Function.update c.thread i entry } where
  idle j hj := by
    by_cases hji : j = i
    · subst hji
      exact hidle (by simpa using hj)
    · rw [ne_eq, hother j hji]
      exact h.idle j (by simpa [hji] using hj)
  placed j call program hj := by
    by_cases hji : j = i
    · subst hji
      exact hplaced call program (by simpa using hj)
    · have hposition := h.placed j call program (by simpa [hji] using hj)
      simpa only [hother j hji] using hposition

/-- What a caller leaves behind when it stops. -/
private theorem stop_holder (i : Tid) (s : Store) :
    (s.stop i).holder ≠ some i ∧ ∀ j, j ≠ i → ((s.stop i).holder = some j ↔ s.holder = some j) := by
  by_cases hheld : s.holder = some i
  · have hnone : (s.stop i).holder = none := if_pos hheld
    refine ⟨by rw [hnone]; simp, fun j hj => ?_⟩
    rw [hnone, hheld]
    simp [Ne.symm hj]
  · have hsame : (s.stop i).holder = s.holder := if_neg hheld
    rw [hsame]
    exact ⟨hheld, fun _ _ => Iff.rfl⟩

/-- Every step keeps the callers placed. -/
theorem Placed.step (h : Placed libraries c) {label : Step}
    (hstep : (system libraries).step label c = some c') : Placed libraries c' := by
  cases label with
  | perform i choice =>
    obtain ⟨call, o, next, answer, s, hthread, hperform, rfl⟩ := (system libraries).step_perform hstep
    obtain ⟨hposition, hother⟩ := (h.placed i call _ hthread).perform rfl hperform
    refine h.update hother (fun h => by contradiction) fun call' program' heq => ?_
    obtain ⟨-, rfl⟩ := Prod.mk.inj (Option.some.inj heq)
    exact hposition
  | spawn i call =>
    obtain ⟨program, hprogram, rfl⟩ := (system libraries).step_spawn hstep
    obtain rfl := Option.some.inj hprogram
    obtain ⟨hself, hother⟩ := stop_holder i c.shared
    refine h.update hother (fun h => by contradiction) fun call' program' heq => ?_
    obtain ⟨-, rfl⟩ := Prod.mk.inj (Option.some.inj heq)
    change Position libraries (decide ((c.shared.stop i).holder = some i)) _
    rw [decide_eq_false hself]
    exact .start
  | kill i =>
    obtain rfl := Option.some.inj hstep
    obtain ⟨hself, hother⟩ := stop_holder i c.shared
    exact h.update hother (fun _ => hself) fun _ _ heq => by contradiction
  | reset =>
    obtain rfl := Option.some.inj hstep
    exact ⟨fun _ _ h => by contradiction, fun _ _ _ h => by contradiction⟩
  | env event => exact event.elim

end Positions

section Files

variable {libraries : Libraries} {i j : Tid} {s s' : Store} {c c' : Configuration}

/-- What a caller is about to perform. -/
theorem Position.locked {held : Bool} {o : Op} {next : Res o → Caller DeviceCredential}
    (h : Position libraries held (.perform o next)) :
    o = .wait ∨ o = .release ∨ Locked libraries o ∧ (held = true ∨ o = .readCached) := by
  generalize hprogram : (Program.perform o next : Caller DeviceCredential) = program at h
  cases h with
  | start =>
    obtain ⟨rfl, -⟩ := Program.perform.inj hprogram
    exact .inr (.inr ⟨trivial, .inr rfl⟩)
  | waiting =>
    obtain ⟨rfl, -⟩ := Program.perform.inj hprogram
    exact .inl rfl
  | @inside inner hwithin =>
    cases hwithin with
    | pure =>
      obtain ⟨rfl, -⟩ := Program.perform.inj hprogram
      exact .inr (.inl rfl)
    | throw =>
      obtain ⟨rfl, -⟩ := Program.perform.inj hprogram
      exact .inr (.inl rfl)
    | perform hallowed _ =>
      obtain ⟨rfl, -⟩ := Program.perform.inj hprogram
      exact .inr (.inr ⟨hallowed, .inl rfl⟩)
  | returned => contradiction
  | threw => contradiction

/-- Unless somebody is writing the file, it is missing or can be read. -/
def Sound (libraries : Libraries) (s : Store) : Prop :=
  s.writer = none → ∀ text, s.file = some text → libraries.read text ≠ none

/-- A step that ends the process, the writer or the write between the creation of the file and the
end of its text. -/
def Interrupts (c : Configuration) : Step → Prop
  | .perform i choice => choice.clean = false ∧
      ∃ call program text, c.thread i = some (call, program) ∧ program.pending = some (.write text)
  | .kill i => c.shared.writer = some i
  | .reset => c.shared.writer ≠ none
  | _ => False

/-- An operation keeps the file sound, unless it is a write that fails. -/
private theorem Sound.perform {o : Op} (ho : Locked libraries o ∨ o = .wait ∨ o = .release)
    {choice : Choice} {answer : Res o} (h : Sound libraries s)
    (hclean : ∀ text, o = .write text → choice.clean = true)
    (hperform : Enrollment.perform libraries i o choice s = some (answer, s')) :
    Sound libraries s' := by
  cases o with
  | write text =>
    cases choice with
    | proceed =>
      obtain ⟨-, rfl⟩ := Prod.mk.inj (Option.some.inj hperform)
      obtain ⟨stored, rfl⟩ : ∃ stored, text = libraries.write stored := by
        rcases ho with ho | ho | ho
        · exact ho
        · contradiction
        · contradiction
      intro _ text htext
      obtain rfl := Option.some.inj htext
      rw [libraries.read_write]
      exact Option.some_ne_none _
    | partly n => exact absurd (hclean text rfl) Bool.false_ne_true
    | _ => contradiction
  | create =>
    cases choice with
    | proceed =>
      obtain ⟨-, rfl⟩ := Prod.mk.inj (Option.some.inj hperform)
      exact fun h => by contradiction
    | fail =>
      obtain ⟨-, rfl⟩ := Prod.mk.inj (Option.some.inj hperform)
      exact h
    | _ => contradiction
  | wait =>
    cases choice with
    | proceed =>
      simp only [Enrollment.perform] at hperform
      split at hperform
      · obtain ⟨-, rfl⟩ := Prod.mk.inj (Option.some.inj hperform)
        exact h
      · contradiction
    | fail =>
      obtain ⟨-, rfl⟩ := Prod.mk.inj (Option.some.inj hperform)
      exact h
    | _ => contradiction
  | writeCached credential | enroll request | release =>
    cases choice <;> first
      | contradiction
      | (obtain ⟨-, rfl⟩ := Prod.mk.inj (Option.some.inj hperform); exact h)
  | _ =>
    rw [perform_quiet rfl hperform]
    exact h

/-- A caller that stops without having the file open leaves it as it is. -/
private theorem Sound.stop (h : Sound libraries s) (hwriter : s.writer ≠ some i) :
    Sound libraries (s.stop i) := by
  intro hnone
  have hsame : (s.stop i).writer = s.writer := if_neg hwriter
  exact h (hsame.symm.trans hnone)

/-- A step that interrupts no write keeps the file sound. -/
theorem Sound.step (h : Sound libraries c.shared) (hplaced : Placed libraries c)
    (hinv : Inv libraries c.shared) {label : Step} (hlabel : ¬ Interrupts c label)
    (hstep : (system libraries).step label c = some c') : Sound libraries c'.shared := by
  cases label with
  | perform i choice =>
    obtain ⟨call, o, next, answer, s, hthread, hperform, rfl⟩ := (system libraries).step_perform hstep
    refine h.perform ?_ (fun text ho => ?_) hperform
    · rcases (hplaced.placed i call _ hthread).locked with ho | ho | ⟨ho, -⟩
      · exact .inr (.inl ho)
      · exact .inr (.inr ho)
      · exact .inl ho
    · by_contra hclean
      subst ho
      exact hlabel ⟨by simpa using hclean, call, _, text, hthread, rfl⟩
  | spawn i call =>
    have hidle : c.thread i = none := (system libraries).free_of_spawn hstep
    obtain ⟨program, -, rfl⟩ := (system libraries).step_spawn hstep
    exact h.stop fun hwriter => hplaced.idle i hidle (hinv.writer i hwriter)
  | kill i =>
    obtain rfl := Option.some.inj hstep
    exact h.stop hlabel
  | reset =>
    obtain rfl := Option.some.inj hstep
    exact fun _ => h (by simpa [Interrupts] using hlabel)
  | env event => exact nomatch event

/-- What holds in every state of a run, whatever is interrupted. -/
structure Orderly (libraries : Libraries) (c : Configuration) : Prop where
  good : (discipline libraries).Good (system libraries) c
  placed : Placed libraries c

/-- Before the first enrollment all is in order. -/
theorem orderly_init (libraries : Libraries) :
    Orderly libraries (System.init .initial) where
  good := Discipline.good_init (inv_initial libraries)
  placed := ⟨fun _ _ h => by contradiction, fun _ _ _ h => by contradiction⟩

/-- Every step keeps order. -/
theorem Orderly.step (h : Orderly libraries c) {label : Step}
    (hstep : (system libraries).step label c = some c') : Orderly libraries c' :=
  ⟨((valid libraries).step h.good hstep).1, h.placed.step hstep⟩

/-- So does every run. -/
theorem Orderly.run {labels : List Step} (h : Orderly libraries c)
    (hrun : (system libraries).run labels c = some c') : Orderly libraries c' := by
  induction labels generalizing c with
  | nil =>
    obtain rfl := Option.some.inj hrun
    exact h
  | cons label rest ih =>
    obtain ⟨mid, hstep, hrest⟩ := Option.bind_eq_some_iff.mp hrun
    exact ih (h.step hstep) hrest

/-- A run in which no write of the file is interrupted keeps the file sound. -/
theorem Sound.run {labels : List Step} (hsound : Sound libraries c.shared) (h : Orderly libraries c)
    (hundisturbed : ∀ first label rest b, labels = first ++ label :: rest →
      (system libraries).run first c = some b → ¬ Interrupts b label)
    (hrun : (system libraries).run labels c = some c') : Sound libraries c'.shared := by
  induction labels generalizing c with
  | nil =>
    obtain rfl := Option.some.inj hrun
    exact hsound
  | cons label rest ih =>
    obtain ⟨mid, hstep, hrest⟩ := Option.bind_eq_some_iff.mp hrun
    have hlabel : ¬ Interrupts c label := hundisturbed [] label rest c rfl rfl
    refine ih (hsound.step h.placed h.good.inv hlabel hstep) (h.step hstep)
      (fun first label' rest' b hsplit hfirst => ?_) hrest
    exact hundisturbed (label :: first) label' rest' b (by rw [hsplit]; rfl)
      (System.run_cons _ hstep hfirst)

end Files

section Starts

variable {libraries : Libraries} {i : Tid} {s s' : Store} {α : Type}

/-- An operation in which nothing fails. -/
def cleanly (libraries : Libraries) (i : Tid) (o : Op) (choice : Choice) (s : Store) :
    Option (Res o × Store) :=
  if choice.clean then perform libraries i o choice s else none

/-- The process starts again, and a caller runs alone. -/
def Starts (perform : (o : Op) → Choice → Store → Option (Res o × Store)) (libraries : Libraries)
    (Q : Throws DeviceCredential → Store → Prop) (s : Store) : Prop :=
  (getOrCreateAsync libraries).Ensures perform (fun _ _ => False) Q s.restart

/-- Where nothing fails, a start gets a credential that the backend has issued. -/
def Recovers (libraries : Libraries) (i : Tid) (s : Store) : Prop :=
  Starts (cleanly libraries i) libraries (fun result s' => ∃ c ∈ s'.issued, result = .ok c) s

/-- Whatever happens, a start fails and leaves to the next one what it has found. -/
def Fails (libraries : Libraries) (i : Tid) (s : Store) : Prop :=
  Starts (perform libraries i) libraries
    (fun result s' => (∃ error, result = .error error) ∧ s'.restart = s.restart) s

/-- The steps of a caller that runs alone. -/
abbrev Cleanly (libraries : Libraries) (i : Tid) (Q : Except EnrollmentError α → Store → Prop)
    (program : Caller α) (s : Store) : Prop :=
  program.Ensures (cleanly libraries i) (fun _ _ => False) Q s

variable {Q : Except EnrollmentError α → Store → Prop}

/-- Nothing drifts. -/
private theorem alone (h : Relation.ReflTransGen (fun _ _ : Store => False) s s') : s' = s := by
  cases h with
  | refl => rfl
  | tail _ h => exact h.elim

/-- Perform an operation that has an outcome. -/
private theorem alone_op {performs : (o : Op) → Choice → Store → Option (Res o × Store)} {o : Op}
    {f : Res o → Caller α} {outcome : Res o × Store} (choice : Choice)
    (hpossible : performs o choice s = some outcome)
    (h : ∀ choice answer s', performs o choice s = some (answer, s') →
      (f answer).Ensures performs (fun _ _ => False) Q s') :
    (op o >>= f).Ensures performs (fun _ _ => False) Q s := by
  intro s₁ hdrift
  obtain rfl := alone hdrift
  exact ⟨⟨choice, by rw [hpossible]; rfl⟩, h⟩

/-- End. -/
private theorem alone_pure {performs : (o : Op) → Choice → Store → Option (Res o × Store)}
    {r : Except EnrollmentError α} (h : Q r s) :
    (Program.liftExcept r : Caller α).Ensures performs (fun _ _ => False) Q s := by
  cases r <;>
  · intro s₁ hdrift
    obtain rfl := alone hdrift
    exact h

/-- Perform an operation that leaves the store and does not ask for a choice. -/
private theorem cleanly_proceed {o : Op} {f : Res o → Caller α} {a : Res o} {t : Store}
    (hperform : perform libraries i o .proceed s = some (a, t))
    (honly : ∀ choice, choice.clean = true → perform libraries i o choice s ≠ none →
      choice = .proceed)
    (h : Cleanly libraries i Q (f a) t) : Cleanly libraries i Q (op o >>= f) s := by
  refine alone_op .proceed hperform fun choice answer s' hclean => ?_
  unfold cleanly at hclean
  split at hclean
  · next hchoice =>
    obtain rfl := honly choice hchoice (by rw [hclean]; exact Option.some_ne_none _)
    obtain ⟨rfl, rfl⟩ := Prod.mk.inj (Option.some.inj (hperform.symm.trans hclean))
    exact h
  · contradiction

/-- What the operations without a choice of their own need. -/
private theorem only_proceed {o : Op} (ho : match o with
      | .newGuid => False | .enroll _ => False | .protect _ => False | .utcNow => False | _ => True)
    (choice : Choice) (hclean : choice.clean = true) (h : perform libraries i o choice s ≠ none) :
    choice = .proceed := by
  cases o <;> cases choice <;> first | rfl | contradiction

/-- Loading gets the credential whose text the file holds. -/
private theorem cleanly_loadFromDisk {c : DeviceCredential} {random : List UInt8}
    (hfile : s.file = some (textOf libraries c random)) :
    Cleanly libraries i (fun result s' => result = .ok c ∧ s' = s) (loadFromDisk libraries) s := by
  refine cleanly_proceed (o := .readAllText)
    (f := fun result : Throws (List Char) => Program.liftExcept result >>= _)
    (a := .ok (textOf libraries c random)) (t := s) ?_ (only_proceed trivial) ?_
  · simp only [perform, hfile]
  · have hread := deserialize_take libraries c random (textOf libraries c random).length
    rw [List.take_length, if_neg (Nat.lt_irrefl _)] at hread
    change Cleanly libraries i _ (Program.liftExcept (deserialize libraries _)) s
    rw [hread]
    exact alone_pure ⟨rfl, rfl⟩

/-- Saving keeps what was issued. -/
private theorem cleanly_saveToDisk (credential : DeviceCredential) :
    Cleanly libraries i (fun result s' => (∃ value, result = .ok value) ∧ s'.issued = s.issued)
      (saveToDisk libraries credential) s := by
  refine alone_op (o := .protect _)
    (f := fun result : Throws (List UInt8) => Program.liftExcept result >>= _)
    (.random []) rfl fun choice answer s₁ hprotect => ?_
  cases choice with
  | random bytes =>
    obtain ⟨rfl, rfl⟩ := Prod.mk.inj (Option.some.inj hprotect)
    refine cleanly_proceed (o := .create)
      (f := fun result : Throws Unit => Program.liftExcept result >>= _)
      rfl (only_proceed trivial) ?_
    refine cleanly_proceed (o := .write _)
      (f := fun result : Throws Unit => Program.liftExcept result)
      rfl (only_proceed trivial) ?_
    exact alone_pure ⟨⟨(), rfl⟩, rfl⟩
  | _ => contradiction

/-- Enrolling gets what the backend issues. -/
private theorem cleanly_enrollAsync :
    Cleanly libraries i (fun result s' => ∃ c ∈ s'.issued, result = .ok c)
      (enrollAsync libraries) s := by
  refine cleanly_proceed (o := .createDirectory)
    (f := fun result : Throws Unit => Program.liftExcept result >>= _)
    rfl (only_proceed trivial) ?_
  refine alone_op (o := .newGuid) (.guid ⟨List.replicate 32 0, List.length_replicate⟩) rfl
    fun choice guid s₁ _ => ?_
  refine alone_op (o := .enroll _)
    (f := fun result : Throws String => Program.liftExcept result >>= _)
    (.enrolled "") rfl fun choice answer s₂ henroll => ?_
  cases choice with
  | enrolled bearerToken =>
    obtain ⟨rfl, rfl⟩ := Prod.mk.inj (Option.some.inj henroll)
    change Cleanly libraries i _ (saveToDisk libraries ⟨Uuid.textD guid, bearerToken⟩ >>= _) _
    refine (cleanly_saveToDisk _).bind (fun _ s₃ hsaved => ?_) fun error _ hsaved => ?_
    · have hissued := (hsaved s₃ .refl).2
      refine alone_op (o := .utcNow) 
        (.time ⟨0, 0, by decide, by decide, by decide, by decide⟩) rfl fun choice now s₄ hnow => ?_
      cases choice with
      | time t =>
        obtain ⟨rfl, rfl⟩ := Prod.mk.inj (Option.some.inj hnow)
        refine cleanly_proceed (o := .record _)
          (f := fun result : Throws Unit => Program.liftExcept result >>= _)
          rfl (only_proceed trivial) ?_
        exact alone_pure (r := .ok _) ⟨_, by rw [hissued]; exact List.mem_cons_self, rfl⟩
      | _ => contradiction
    · obtain ⟨⟨_, hok⟩, -⟩ := hsaved
      contradiction
  | _ => contradiction

/-- What was found is cached and returned. -/
private theorem cleanly_remember {program : Caller DeviceCredential}
    (h : Cleanly libraries i (fun result s' => ∃ c ∈ s'.issued, result = .ok c) program s) :
    Cleanly libraries i (fun result s' => ∃ c ∈ s'.issued, result = .ok c)
      (program >>= fun c => op (.writeCached c) >>= fun _ => pure c) s := by
  refine h.bind (fun c s₁ hfound => ?_) fun error s₁ hfound => ?_
  · obtain ⟨c', hc', hok⟩ := hfound s₁ .refl
    obtain rfl := Except.ok.inj hok
    exact cleanly_proceed (o := .writeCached c) rfl (only_proceed trivial)
      (alone_pure (r := .ok c) ⟨c, hc', rfl⟩)
  · obtain ⟨_, -, hok⟩ := hfound
    contradiction

/-- A start recovers where the file is missing or holds the text of an issued credential. -/
theorem recovers_of_whole
    (hwhole : ∀ text, s.file = some text →
      ∃ c ∈ s.issued, ∃ random, text = textOf libraries c random) : Recovers libraries i s := by
  refine cleanly_proceed (o := .readCached) rfl (only_proceed trivial) ?_
  change Cleanly libraries i _ (attempt (op .wait) >>= _) _
  refine cleanly_proceed (o := .wait)
    (f := fun result : Throws Unit => Program.liftExcept result >>= _)
    (a := .ok ()) rfl (only_proceed trivial) ?_
  change Cleanly libraries i _ ((getOrCreateLocked libraries).finally_ (op .release)) _
  refine Program.Ensures.finally_
    (Q := fun result s' => ∃ c ∈ s'.issued, result = .ok c) ?_ fun result s₁ hfound => ?_
  · refine cleanly_proceed (o := .readCached) rfl (only_proceed trivial) ?_
    refine cleanly_proceed (o := .fileExists) rfl (only_proceed trivial) ?_
    cases hfile : s.file with
    | none =>
      change Cleanly libraries i _ (if s.file.isSome then _ else _) _
      rw [hfile]
      exact cleanly_remember cleanly_enrollAsync
    | some text =>
      obtain ⟨c, hc, random, rfl⟩ := hwhole text hfile
      change Cleanly libraries i _ (if s.file.isSome then _ else _) _
      rw [hfile]
      have hheld : ({ s.restart with holder := some i } : Store).file =
          some (textOf libraries c random) := hfile
      refine cleanly_remember ((cleanly_loadFromDisk hheld).mono fun result s' hloaded => ?_)
      obtain ⟨rfl, rfl⟩ := hloaded
      exact ⟨c, hc, rfl⟩
  · exact cleanly_proceed (o := .release) rfl (only_proceed trivial)
      (alone_pure (r := .ok ()) hfound)

/-- A text that breaks off is not loaded. -/
private theorem fails_loadFromDisk {text : List Char} (hfile : s.file = some text)
    (hbroken : libraries.read text = none) :
    (loadFromDisk libraries).Ensures (perform libraries i) (fun _ _ => False)
      (fun result s' => (∃ error, result = .error error) ∧ s' = s) s := by
  have hproceed : perform libraries i .readAllText .proceed s = some (.ok text, s) := by
    simp only [perform, hfile]
  refine alone_op (o := .readAllText)
    (f := fun result : Throws (List Char) => Program.liftExcept result >>= _) .proceed hproceed
    fun choice answer s₁ hread => ?_
  cases choice with
  | proceed =>
    obtain ⟨rfl, rfl⟩ := Prod.mk.inj (Option.some.inj (hproceed.symm.trans hread))
    change Program.Ensures _ _ _ (Program.liftExcept (deserialize libraries text)) s
    rw [deserialize, hbroken]
    exact alone_pure (r := .error _) ⟨⟨_, rfl⟩, rfl⟩
  | fail =>
    obtain ⟨rfl, rfl⟩ := Prod.mk.inj (Option.some.inj hread)
    exact alone_pure (r := .error _) ⟨⟨_, rfl⟩, rfl⟩
  | _ => contradiction

/-- Where the text of the file breaks off, no start recovers, and each leaves it to the next. -/
theorem fails_of_broken {text : List Char} (hfile : s.file = some text)
    (hbroken : libraries.read text = none) : Fails libraries i s := by
  refine alone_op (o := .readCached) .proceed rfl fun choice answer s₁ hcached => ?_
  obtain rfl := perform_quiet rfl hcached
  obtain rfl := cached_of_perform hcached
  change Program.Ensures _ _ _ (attempt (op .wait) >>= _) _
  refine alone_op (o := .wait)
    (f := fun result : Throws Unit => Program.liftExcept result >>= _) .proceed rfl
    fun choice answer s₁ hwait => ?_
  cases choice with
  | fail =>
    obtain ⟨rfl, rfl⟩ := Prod.mk.inj (Option.some.inj hwait)
    exact alone_pure (r := .error _) ⟨⟨_, rfl⟩, rfl⟩
  | proceed =>
    obtain ⟨rfl, rfl⟩ := Prod.mk.inj (Option.some.inj hwait)
    change Program.Ensures _ _ _ ((getOrCreateLocked libraries).finally_ (op .release)) _
    refine Program.Ensures.finally_ (Q := fun result s' => (∃ error, result = .error error) ∧
      s'.restart = s.restart) ?_ fun result s₁ hfailed => ?_
    · refine alone_op (o := .readCached) .proceed rfl fun choice answer s₁ hcached => ?_
      obtain rfl := perform_quiet rfl hcached
      obtain rfl := cached_of_perform hcached
      refine alone_op (o := .fileExists) .proceed rfl fun choice (exists_ : Bool) s₁ hexists => ?_
      obtain ⟨rfl, rfl⟩ : exists_ = s.file.isSome ∧ s₁ = { s.restart with holder := some i } := by
        cases choice with
        | proceed =>
          obtain ⟨rfl, rfl⟩ := Prod.mk.inj (Option.some.inj hexists)
          exact ⟨rfl, rfl⟩
        | _ => contradiction
      rw [hfile]
      change Program.Ensures _ _ _ (loadFromDisk libraries >>= _) _
      have hheld : ({ s.restart with holder := some i } : Store).file = some text := hfile
      refine (fails_loadFromDisk hheld hbroken).bind (fun c s₁ hfound => ?_) fun _ _ hfailed => ?_
      · obtain ⟨⟨_, herror⟩, -⟩ := hfound s₁ .refl
        contradiction
      · obtain ⟨herror, rfl⟩ := hfailed
        exact ⟨herror, rfl⟩
    · refine alone_op (o := .release) .proceed rfl fun choice answer s₂ hrelease => ?_
      cases choice with
      | proceed =>
        obtain ⟨rfl, rfl⟩ := Prod.mk.inj (Option.some.inj hrelease)
        exact alone_pure (r := .ok ()) hfailed
      | _ => contradiction
  | _ => contradiction

/-- Two postconditions of a caller that runs alone meet where nothing fails. -/
private theorem meet {Q' : Except EnrollmentError α → Store → Prop} {program : Caller α}
    (h : Cleanly libraries i Q program s)
    (h' : program.Ensures (perform libraries i) (fun _ _ => False) Q' s) :
    ∃ result s', Q result s' ∧ Q' result s' := by
  induction program generalizing s with
  | pure value => exact ⟨_, s, h s .refl, h' s .refl⟩
  | throw error => exact ⟨_, s, h s .refl, h' s .refl⟩
  | perform o next ih =>
    obtain ⟨⟨choice, hsome⟩, hnext⟩ := h s .refl
    obtain ⟨⟨answer, s₁⟩, hclean⟩ := Option.isSome_iff_exists.mp hsome
    have hperform : perform libraries i o choice s = some (answer, s₁) := by
      unfold cleanly at hclean
      split at hclean
      · exact hclean
      · contradiction
    exact ih answer (hnext choice answer s₁ hclean) ((h' s .refl).2 choice answer s₁ hperform)

/-- A start cannot both recover and fail. -/
theorem Fails.not_recovers (h : Fails libraries i s) : ¬ Recovers libraries i s := by
  intro hrecovers
  obtain ⟨result, s', ⟨c, -, rfl⟩, ⟨_, herror⟩, -⟩ := meet hrecovers h
  contradiction

end Starts

section Main

variable {libraries : Libraries} {c : Configuration}

/-- Whether an operation is one of `EnrollAsync`. -/
def Op.enrolls : Op → Bool
  | .createDirectory | .newGuid | .enroll _ | .protect _ | .create | .write _ | .utcNow | .record _ => true
  | _ => false

/-- A caller is in `EnrollAsync`. -/
def Enrolls (c : Configuration) (i : Tid) : Prop :=
  ∃ call program o, c.thread i = some (call, program) ∧ program.pending = some o ∧ o.enrolls = true

/-- At most one caller at a time is in `EnrollAsync`. -/
def OneEnrolls (c : Configuration) : Prop :=
  ∀ i j, Enrolls c i → Enrolls c j → i = j

/-- All callers of a process that have returned have returned the same credential. -/
def OneCredential (c : Configuration) : Prop :=
  ∀ i j credential credential', c.thread i = some ((), .pure credential) →
    c.thread j = some ((), .pure credential') → credential = credential'

/-- Whoever is in `EnrollAsync` holds the lock. -/
theorem Placed.holder (h : Placed libraries c) {i : Tid} (henrolls : Enrolls c i) :
    c.shared.holder = some i := by
  obtain ⟨call, program, o, hthread, hpending, ho⟩ := henrolls
  obtain ⟨next, rfl⟩ := Program.pending_eq_some.mp hpending
  rcases (h.placed i call _ hthread).locked with rfl | rfl | ⟨-, hheld | rfl⟩
  · contradiction
  · contradiction
  · exact of_decide_eq_true hheld
  · contradiction

/-- At most one caller holds the lock. -/
theorem Placed.oneEnrolls (h : Placed libraries c) : OneEnrolls c := by
  intro i j hi hj
  exact Option.some.inj ((h.holder hi).symm.trans (h.holder hj))

/-- What callers return is cached. -/
theorem Orderly.oneCredential (h : Orderly libraries c) : OneCredential c := by
  intro i j credential credential' hi hj
  have hcached := h.good.ended.1 credential hi credential rfl
  have hcached' := h.good.ended.1 credential' hj credential' rfl
  exact Option.some.inj (hcached.symm.trans hcached')

/-- Where nobody is writing a sound file, it is missing or holds a whole text. -/
theorem Orderly.recovers (h : Orderly libraries c) (hsound : Sound libraries c.shared)
    (hreset : ¬ Interrupts c .reset) (i : Tid) : Recovers libraries i c.shared := by
  refine recovers_of_whole fun text htext => ?_
  obtain ⟨credential, hissued, random, n, rfl⟩ := h.good.inv.filed text htext
  have hread := hsound (by simpa [Interrupts] using hreset) _ htext
  refine ⟨credential, hissued, random, List.take_of_length_le ?_⟩
  by_contra hn
  exact hread (libraries.read_take _ _ (Nat.lt_of_not_le hn))

/-- In every run at most one caller at a time enrolls, and all get the same credential. If neither the end
of the process nor a failure comes between the creation of the file and the end of its text, then after
the run, which ends so as well, each start recovers. -/
theorem enrollment_recovers {labels : List Step}
    (hrun : (system libraries).run labels (System.init .initial) = some c) :
    OneEnrolls c ∧ OneCredential c ∧
      ((∀ first label rest b, labels = first ++ label :: rest →
          (system libraries).run first (System.init .initial) = some b → ¬ Interrupts b label) →
        ¬ Interrupts c .reset → ∀ i, Recovers libraries i c.shared) := by
  have horderly := (orderly_init libraries).run hrun
  refine ⟨horderly.placed.oneEnrolls, horderly.oneCredential, fun hundisturbed hreset i => ?_⟩
  have hinitial : Sound libraries Store.initial := fun _ _ h => by contradiction
  exact horderly.recovers (hinitial.run (orderly_init libraries) hundisturbed hrun) hreset i

end Main

namespace Sample

/-- The text of a stored credential. -/
def write (stored : StoredCredential) : List Char :=
  JsonObject.write "DeviceId".toList "ProtectedBearerTokenBase64".toList
    (stored.deviceId.toList, stored.protectedBearerTokenBase64.toList)

/-- The credential that a text stores. -/
def read (json : List Char) : Option (Option StoredCredential) :=
  (JsonObject.read "DeviceId".toList "ProtectedBearerTokenBase64".toList json).map fun values =>
    some ⟨String.ofList values.1, String.ofList values.2⟩

/-- The text that bytes encode. -/
def getString (bytes : List UInt8) : String :=
  (String.fromUTF8? bytes.toByteArray).getD ""

theorem getString_utf8 (s : String) : getString (utf8 s) = s := by
  have hbytes : (utf8 s).toByteArray = s.toByteArray := by
    rw [← String.utf8Encode_toList]
    rfl
  unfold getString String.fromUTF8?
  rw [dif_pos (by rw [hbytes]; exact s.isValidUTF8)]
  exact String.toByteArray_inj.mp hbytes

/-- Libraries whose protection changes nothing. -/
def libraries : Libraries where
  machineName := "PC"
  operatingSystemVersion := "Microsoft Windows NT 10.0.22631.0"
  write := write
  read := read
  protect _ plaintext := plaintext
  unprotect := some
  getString := getString
  read_write stored := by
    rw [read, write, JsonObject.read_write]
    simp
  read_take stored n hn := by
    rw [read, write, JsonObject.read_take hn]
    rfl
  unprotect_protect _ _ := rfl
  getString_utf8 := getString_utf8

/-- The identifier that the device draws. -/
def guid : Uuid := .repeated 11

/-- A moment of the first enrollment. -/
def moment : DateTimeOffset := .minValue

/-- A caller comes to create the file. -/
def creating : List Step :=
  [.spawn 0 (), .perform 0 .proceed, .perform 0 .proceed, .perform 0 .proceed, .perform 0 .proceed,
    .perform 0 .proceed, .perform 0 (.guid guid), .perform 0 (.enrolled "token"),
    .perform 0 (.random []), .perform 0 .proceed]

/-- The process ends before the text is written. -/
def cut : List Step := creating ++ [.reset]

/-- The text is written, and a second caller comes while the first records the enrollment. -/
def enrolled : List Step :=
  creating ++ [.perform 0 .proceed, .spawn 1 (), .perform 1 .proceed, .perform 0 (.time moment),
    .perform 0 .proceed, .perform 0 .proceed, .perform 0 .proceed, .perform 1 .proceed,
    .perform 1 .proceed, .perform 1 .proceed]

end Sample

/-- The steps of callers in which nothing fails. -/
private def untroubled : Step → Bool
  | .perform _ choice => choice.clean
  | .spawn _ _ => true
  | _ => false

/-- They interrupt nothing. -/
private theorem not_interrupts {label : Step} {c : Configuration} (hlabel : untroubled label = true) :
    ¬ Interrupts c label := by
  intro hinterrupts
  cases label with
  | perform i choice => exact Bool.false_ne_true (hinterrupts.1.symm.trans hlabel)
  | spawn i call => exact hinterrupts
  | _ => contradiction

/-- Two callers at the first start. -/
theorem enrollment_recovers_sample :
    ∃ c, (system Sample.libraries).run Sample.enrolled (System.init .initial) = some c ∧
      OneEnrolls c ∧ OneCredential c ∧ ∀ i, Recovers Sample.libraries i c.shared := by
  have hrun : ((system Sample.libraries).run Sample.enrolled (System.init .initial)).map
      (fun c => c.shared.writer) = some none := rfl
  obtain ⟨c, hc, hwriter⟩ := Option.map_eq_some_iff.mp hrun
  have hclean : Sample.enrolled.all untroubled = true := rfl
  obtain ⟨henrolls, hcredential, hrecovers⟩ := enrollment_recovers hc
  refine ⟨c, hc, henrolls, hcredential, hrecovers (fun first label rest b hsplit _ =>
    not_interrupts (List.all_eq_true.mp hclean label ?_)) fun hinterrupts => ?_⟩
  · rw [hsplit]
    simp
  · exact hinterrupts hwriter

/-- Every start fails after the process has ended between the creation and the writing. -/
theorem cut_fails : ∃ c,
    (system Sample.libraries).run Sample.cut (System.init .initial) = some c ∧
    ∀ i, ¬ Recovers Sample.libraries i c.shared ∧ Fails Sample.libraries i c.shared := by
  have hrun : ((system Sample.libraries).run Sample.cut (System.init .initial)).map
      (fun c => c.shared.file) = some (some []) := rfl
  obtain ⟨c, hc, hfile⟩ := Option.map_eq_some_iff.mp hrun
  refine ⟨c, hc, fun i => ?_⟩
  have hfails : Fails Sample.libraries i c.shared := fails_of_broken hfile rfl
  exact ⟨hfails.not_recovers, hfails⟩

end ElevateGate.Agent.Enrollment
