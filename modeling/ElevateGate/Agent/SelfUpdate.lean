import ElevateGate.Interaction.Program

/-!
# Self-update

`SelfUpdateApplier` stages a release and swaps the service's and the tray's executable, one after the
other: it deletes what an earlier update left behind, renames the installed executable and copies the
new one into its place. Any of these operations may fail.
-/

namespace ElevateGate.Agent.SelfUpdate

open Interaction

/-- The executables of an installation. -/
inductive Executable
  /-- `ElevateGate.Service.exe`. -/
  | service
  /-- `ElevateGate.Tray.exe`. -/
  | tray
  deriving DecidableEq

/-- The files that an update reads or writes: the unpacked release, the installation, and what was
renamed out of the way. -/
inductive Path
  | extracted (exe : Executable)
  | installed (exe : Executable)
  | backup (exe : Executable)
  deriving DecidableEq

/-- The exceptions that the swap distinguishes. -/
inductive UpdateError
  | ioException
  | other
  deriving DecidableEq

/-- An operation on files. -/
inductive FileOp
  | delete (path : Path)
  | move (source target : Path)
  | copy (source target : Path)
  deriving DecidableEq

/-- How an operation fails. A copy may have written the first bytes of its target. -/
structure Fault where
  error : UpdateError
  written : Option Nat

/-- The files, which of them are locked against deletion, and the operations on files so far with
whether they succeeded, the latest first. -/
structure Host where
  file : Path → Option (List UInt8)
  locked : Path → Bool
  performed : List (FileOp × Bool)

/-- What an update meets: the content of the release, whether it can be downloaded and unpacked, which
operations on files fail, and whether the tray and the helper that restarts the service can be
reached. -/
structure Conditions where
  package : Executable → Option (List UInt8)
  stage : Except UpdateError Unit
  fault : FileOp → Option Fault
  signal : Except UpdateError Unit
  start : Except UpdateError Unit

/-- The operations of an update. -/
inductive Op
  /-- Download the release and unpack it into an empty directory. -/
  | stage
  | fileExists (path : Path)
  | file (op : FileOp)
  /-- Write the restart sentinel to the tray's pipe. -/
  | signal
  /-- Start the helper that restarts the service. -/
  | start

/-- The answer to an operation. -/
def Res : Op → Type
  | .fileExists _ => Bool
  | _ => Except UpdateError Unit

/-- Store a file. -/
def Host.write (s : Host) (path : Path) (content : Option (List UInt8)) : Host :=
  { s with file := Function.update s.file path content }

/-- Record an operation on files. -/
def Host.record (s : Host) (op : FileOp) (success : Bool) : Host :=
  { s with performed := (op, success) :: s.performed }

/-- Carry out an operation on files. Deleting fails on a locked file, and renaming where the target
exists. -/
def Host.carryOut (s : Host) (fault : FileOp → Option Fault) (op : FileOp) :
    Except UpdateError Unit × Host :=
  match op, fault op with
  | .delete path, none =>
    if s.locked path then (.error .ioException, s.record op false)
    else (.ok (), (s.write path none).record op true)
  | .move source target, none =>
    if (s.file target).isSome then (.error .ioException, s.record op false)
    else (.ok (), ((s.write target (s.file source)).write source none).record op true)
  | .copy source target, none => (.ok (), (s.write target (s.file source)).record op true)
  | .copy source target, some fault =>
    (.error fault.error,
      (match fault.written with
        | none => s
        | some n => s.write target ((s.file source).map (List.take n))).record op false)
  | _, some fault => (.error fault.error, s.record op false)

/-- Perform an operation. -/
def perform (conditions : Conditions) : (op : Op) → Host → Option (Res op × Host)
  | .stage, s =>
    match conditions.stage with
    | .ok () => some (.ok (),
        { s with file := fun
            | .extracted exe => conditions.package exe
            | path => s.file path })
    | .error error => some (.error error, s)
  | .fileExists path, s => some ((s.file path).isSome, s)
  | .file op, s => some (s.carryOut conditions.fault op)
  | .signal, s => some (conditions.signal, s)
  | .start, s => some (conditions.start, s)

/-- The program of an update or of a part of it. -/
abbrev Updater (α : Type) := Program Op Res UpdateError α

/-- Perform an operation. -/
def op (o : Op) : Updater (Res o) := Program.op o

/-- Perform an operation that may fail. -/
def attempt (result : Updater (Except UpdateError Unit)) : Updater Unit := do
  let result ← result
  Program.liftExcept result

/-- `File.Exists`. -/
def fileExists (path : Path) : Updater Bool := op (.fileExists path)

/-- `File.Delete`, `File.Move` or `File.Copy`. -/
def file (fileOp : FileOp) : Updater Unit := attempt (op (.file fileOp))

/-- Delete what an earlier update has left. A leftover that is still locked is skipped. -/
def deleteBackup (exe : Executable) : Updater Unit := do
  let leftover ← fileExists (.backup exe)
  if leftover then
    tryCatch (file (.delete (.backup exe))) fun
      | .ioException => pure ()
      | error => throw error
  else return

/-- Rename the installed executable. -/
def renameInstalled (exe : Executable) : Updater Unit := do
  let installed ← fileExists (.installed exe)
  if installed then file (.move (.installed exe) (.backup exe))
  else return

/-- `SwapExecutable`. Where the release does not contain the executable, the current build is left in
place. -/
def swapExecutable (exe : Executable) : Updater Unit := do
  let contained ← fileExists (.extracted exe)
  if contained then
    deleteBackup exe
    renameInstalled exe
    file (.copy (.extracted exe) (.installed exe))
  else return

/-- `TrySignalTrayRestart`: best effort. -/
def trySignalTrayRestart : Updater Unit :=
  tryCatch (attempt (op .signal)) fun _ => pure ()

/-- `ScheduleServiceRestart`. -/
def scheduleServiceRestart : Updater Unit := attempt (op .start)

/-- `ApplyAsync`. -/
def applyAsync : Updater Unit := do
  attempt (op .stage)
  swapExecutable .service
  swapExecutable .tray
  trySignalTrayRestart
  scheduleServiceRestart

/-- Whether an executable was renamed away. -/
def renamed (performed : List (FileOp × Bool)) : Bool :=
  performed.any fun
    | (.move _ _, success) => success
    | _ => false

/-- Whether an operation on files failed after an executable had been renamed away. -/
def interrupted : List (FileOp × Bool) → Bool
  | [] => false
  | (_, success) :: older => (!success && renamed older) || interrupted older

/-- What the swap of one executable comes to. -/
inductive Swapped (exe : Executable) (s s' : Host) : Except UpdateError Unit → Prop
  /-- The release does not contain it. -/
  | skipped (hmissing : s.file (.extracted exe) = none) (hsame : s' = s) : Swapped exe s s' (.ok ())
  /-- The new one is installed. -/
  | swapped {content : List UInt8} (hcontained : s.file (.extracted exe) = some content)
      (hnew : s'.file (.installed exe) = some content) (hrenamed : renamed s'.performed = true) :
      Swapped exe s s' (.ok ())
  /-- The old one is still installed. -/
  | kept {error : UpdateError} (hold : s'.file (.installed exe) = s.file (.installed exe))
      (hfailed : renamed s.performed = true → interrupted s'.performed = true) :
      Swapped exe s s' (.error error)
  /-- An operation failed after the old one had been renamed away. -/
  | broken {error : UpdateError} (hfailed : interrupted s'.performed = true) :
      Swapped exe s s' (.error error)

section Steps

variable {conditions : Conditions} {s : Host} {path : Path} {exe : Executable}

/-- Asking whether a file exists changes nothing. -/
theorem execute_fileExists {β : Type} (f : Bool → Updater β) :
    (fileExists path >>= f).execute (perform conditions) s =
      (f (s.file path).isSome).execute (perform conditions) s := rfl

/-- An operation on files is carried out. -/
theorem execute_file (fileOp : FileOp) :
    (file fileOp).execute (perform conditions) s = some (s.carryOut conditions.fault fileOp) := by
  change ((Program.liftExcept (s.carryOut conditions.fault fileOp).1 : Updater Unit).execute
    (perform conditions) (s.carryOut conditions.fault fileOp).2) = _
  cases h : s.carryOut conditions.fault fileOp with
  | mk result s' => cases result <;> rfl

/-- Deleting a file leaves the others, and is recorded. -/
theorem carryOut_delete (s : Host) (fault : FileOp → Option Fault) (path : Path) :
    (∀ p, p ≠ path → (s.carryOut fault (.delete path)).2.file p = s.file p) ∧
      ((s.carryOut fault (.delete path)).1 = .ok () ∧
        (s.carryOut fault (.delete path)).2.performed = (.delete path, true) :: s.performed ∨
      (∃ error, (s.carryOut fault (.delete path)).1 = .error error) ∧
        (s.carryOut fault (.delete path)).2.performed = (.delete path, false) :: s.performed) := by
  unfold Host.carryOut
  cases fault (.delete path) with
  | none =>
    by_cases hlocked : s.locked path = true
    · simp only [if_pos hlocked]
      exact ⟨fun _ _ => rfl, Or.inr ⟨⟨_, rfl⟩, rfl⟩⟩
    · simp only [if_neg hlocked]
      exact ⟨fun p hp => Function.update_of_ne hp _ _, Or.inl ⟨trivial, rfl⟩⟩
  | some fault => exact ⟨fun _ _ => rfl, Or.inr ⟨⟨_, rfl⟩, rfl⟩⟩

/-- Renaming a file moves it and leaves the others, or fails and leaves them all; it is recorded. -/
theorem carryOut_move (s : Host) (fault : FileOp → Option Fault) (source target : Path) :
    ((s.carryOut fault (.move source target)).1 = .ok () ∧
      (∀ p, p ≠ source → p ≠ target →
        (s.carryOut fault (.move source target)).2.file p = s.file p) ∧
      (s.carryOut fault (.move source target)).2.performed =
        (.move source target, true) :: s.performed) ∨
    ((∃ error, (s.carryOut fault (.move source target)).1 = .error error) ∧
      (∀ p, (s.carryOut fault (.move source target)).2.file p = s.file p) ∧
      (s.carryOut fault (.move source target)).2.performed =
        (.move source target, false) :: s.performed) := by
  unfold Host.carryOut
  cases fault (.move source target) with
  | none =>
    by_cases hexists : (s.file target).isSome = true
    · simp only [if_pos hexists]
      exact Or.inr ⟨⟨_, rfl⟩, fun _ => rfl, rfl⟩
    · simp only [if_neg hexists]
      refine Or.inl ⟨trivial, fun p hsource htarget => ?_, rfl⟩
      exact (Function.update_of_ne hsource _ _).trans (Function.update_of_ne htarget _ _)
  | some fault => exact Or.inr ⟨⟨_, rfl⟩, fun _ => rfl, rfl⟩

/-- Copying a file leaves the others; it completes its target, or fails. It is recorded. -/
theorem carryOut_copy (s : Host) (fault : FileOp → Option Fault) (source target : Path) :
    (∀ p, p ≠ target → (s.carryOut fault (.copy source target)).2.file p = s.file p) ∧
      ((s.carryOut fault (.copy source target)).1 = .ok () ∧
        (s.carryOut fault (.copy source target)).2.file target = s.file source ∧
        (s.carryOut fault (.copy source target)).2.performed =
          (.copy source target, true) :: s.performed ∨
      (∃ error, (s.carryOut fault (.copy source target)).1 = .error error) ∧
        (s.carryOut fault (.copy source target)).2.performed =
          (.copy source target, false) :: s.performed) := by
  unfold Host.carryOut
  cases fault (.copy source target) with
  | none =>
    exact ⟨fun p hp => Function.update_of_ne hp _ _,
      Or.inl ⟨rfl, Function.update_self target _ _, rfl⟩⟩
  | some fault =>
    obtain ⟨error, written⟩ := fault
    cases written with
    | none => exact ⟨fun _ _ => rfl, Or.inr ⟨⟨_, rfl⟩, rfl⟩⟩
    | some n => exact ⟨fun p hp => Function.update_of_ne hp _ _, Or.inr ⟨⟨_, rfl⟩, rfl⟩⟩

/-- Deleting the leftover touches nothing else, and where it is given up, an operation has failed. -/
theorem deleteBackup_spec (conditions : Conditions) (s : Host) (exe : Executable) :
    ∃ result s', (deleteBackup exe).execute (perform conditions) s = some (result, s') ∧
      (∀ p, p ≠ .backup exe → s'.file p = s.file p) ∧
      renamed s'.performed = renamed s.performed ∧
      (∀ error, result = .error error → renamed s.performed = true →
        interrupted s'.performed = true) := by
  rw [deleteBackup, execute_fileExists]
  by_cases hleftover : (s.file (.backup exe)).isSome = true
  · rw [if_pos hleftover]
    obtain ⟨hfile, hresult⟩ := carryOut_delete s conditions.fault (.backup exe)
    have hexecute := Program.execute_tryCatch (perform conditions) (file (.delete (.backup exe)))
      (fun
        | .ioException => pure ()
        | error => throw error) s
    rw [execute_file, Option.bind_some] at hexecute
    generalize s.carryOut conditions.fault (.delete (.backup exe)) = outcome at *
    obtain ⟨result, s'⟩ := outcome
    rcases hresult with ⟨rfl, hperformed⟩ | ⟨⟨error, rfl⟩, hperformed⟩
    · exact ⟨_, s', hexecute, hfile, by rw [hperformed]; rfl, fun _ h => by contradiction⟩
    · have hrenamed : renamed s'.performed = renamed s.performed := by rw [hperformed]; rfl
      cases error with
      | ioException => exact ⟨_, s', hexecute, hfile, hrenamed, fun _ h => by contradiction⟩
      | other =>
        refine ⟨_, s', hexecute, hfile, hrenamed, fun _ _ hbefore => ?_⟩
        rw [hperformed, interrupted, hbefore]
        rfl
  · rw [if_neg hleftover]
    exact ⟨_, s, rfl, fun _ _ => rfl, rfl, fun _ h => by contradiction⟩

/-- Swapping an executable touches only it and its backup, and comes to one of four ends. -/
theorem swapExecutable_spec (conditions : Conditions) {s : Host} (exe : Executable)
    (hinstalled : (s.file (.installed exe)).isSome = true) :
    ∃ result s', (swapExecutable exe).execute (perform conditions) s = some (result, s') ∧
      (∀ p, p ≠ .installed exe → p ≠ .backup exe → s'.file p = s.file p) ∧
      Swapped exe s s' result := by
  rw [swapExecutable, execute_fileExists]
  cases hcontained : s.file (.extracted exe) with
  | none => exact ⟨_, s, rfl, fun _ _ _ => rfl, .skipped hcontained rfl⟩
  | some content =>
    obtain ⟨result₁, s₁, hdelete, hfile₁, hrenamed₁, hfailed₁⟩ := deleteBackup_spec conditions s exe
    have hinstalled₁ : s₁.file (.installed exe) = s.file (.installed exe) := hfile₁ _ (by simp)
    rw [Option.isSome_some, if_pos rfl, Program.execute_bind, hdelete, Option.bind_some]
    cases result₁ with
    | error error =>
      exact ⟨_, s₁, rfl, fun p _ hp => hfile₁ p hp, .kept hinstalled₁ (hfailed₁ error rfl)⟩
    | ok _ =>
      change ∃ result s', (renameInstalled exe >>= _).execute _ s₁ = some (result, s') ∧ _
      have hpresent : (s₁.file (.installed exe)).isSome = true := by rw [hinstalled₁, hinstalled]
      have hrename : (renameInstalled exe).execute (perform conditions) s₁ =
          some (s₁.carryOut conditions.fault (.move (.installed exe) (.backup exe))) := by
        rw [renameInstalled, execute_fileExists, if_pos hpresent, execute_file]
      rw [Program.execute_bind, hrename, Option.bind_some]
      have hmove := carryOut_move s₁ conditions.fault (.installed exe) (.backup exe)
      generalize s₁.carryOut conditions.fault (.move (.installed exe) (.backup exe)) = outcome at *
      obtain ⟨result₂, s₂⟩ := outcome
      rcases hmove with ⟨rfl, hfile₂, hperformed₂⟩ | ⟨⟨error, rfl⟩, hfile₂, hperformed₂⟩
      · have hrenamed₂ : renamed s₂.performed = true := by rw [hperformed₂]; rfl
        have hcontent : s₂.file (.extracted exe) = some content := by
          rw [hfile₂ _ (by simp) (by simp), hfile₁ _ (by simp), hcontained]
        obtain ⟨hfile₃, hcopy⟩ := carryOut_copy s₂ conditions.fault (.extracted exe)
          (.installed exe)
        change ∃ result s', (file _).execute _ s₂ = some (result, s') ∧ _
        rw [execute_file]
        generalize s₂.carryOut conditions.fault (.copy (.extracted exe) (.installed exe)) = outcome
          at *
        obtain ⟨result₃, s₃⟩ := outcome
        have hother : ∀ p, p ≠ .installed exe → p ≠ .backup exe → s₃.file p = s.file p :=
          fun p hp hp' => by rw [hfile₃ p hp, hfile₂ p hp hp', hfile₁ p hp']
        rcases hcopy with ⟨rfl, hnew, hperformed₃⟩ | ⟨⟨error, rfl⟩, hperformed₃⟩
        · refine ⟨_, s₃, rfl, hother, .swapped hcontained (hnew.trans hcontent) ?_⟩
          rw [hperformed₃]
          exact hrenamed₂
        · refine ⟨_, s₃, rfl, hother, .broken ?_⟩
          rw [hperformed₃, interrupted, hrenamed₂]
          rfl
      · refine ⟨_, s₂, rfl, fun p _ hp' => (hfile₂ p).trans (hfile₁ p hp'),
          .kept ((hfile₂ _).trans hinstalled₁) fun hbefore => ?_⟩
        rw [hperformed₂, interrupted, hrenamed₁, hbefore]
        rfl

/-- Renaming the installed executable, if there is one, leaves the other files. -/
private theorem renameInstalled_spec (conditions : Conditions) (s : Host) (exe : Executable) :
    ∃ result s', (renameInstalled exe).execute (perform conditions) s = some (result, s') ∧
      ∀ p, p ≠ .installed exe → p ≠ .backup exe → s'.file p = s.file p := by
  rw [renameInstalled, execute_fileExists]
  by_cases hpresent : (s.file (.installed exe)).isSome = true
  · rw [if_pos hpresent, execute_file]
    refine ⟨_, _, rfl, fun p hp hp' => ?_⟩
    rcases carryOut_move s conditions.fault (.installed exe) (.backup exe) with
      ⟨-, hfile, -⟩ | ⟨-, hfile, -⟩
    · exact hfile p hp hp'
    · exact hfile p
  · rw [if_neg hpresent]
    exact ⟨_, s, rfl, fun _ _ _ => rfl⟩

/-- A swap that returns has installed what the release contains, whether anything was installed before or
not. -/
theorem swapExecutable_installs (conditions : Conditions) (s : Host) (exe : Executable) :
    ∃ result s', (swapExecutable exe).execute (perform conditions) s = some (result, s') ∧
      (∀ p, p ≠ .installed exe → p ≠ .backup exe → s'.file p = s.file p) ∧
      ∀ content, s.file (.extracted exe) = some content → result = .ok () →
        s'.file (.installed exe) = some content := by
  rw [swapExecutable, execute_fileExists]
  cases hcontained : s.file (.extracted exe) with
  | none => exact ⟨_, s, rfl, fun _ _ _ => rfl, fun _ h => by contradiction⟩
  | some content =>
    obtain ⟨result₁, s₁, hdelete, hfile₁, -⟩ := deleteBackup_spec conditions s exe
    rw [Option.isSome_some, if_pos rfl, Program.execute_bind, hdelete, Option.bind_some]
    cases result₁ with
    | error error => exact ⟨_, s₁, rfl, fun p _ hp => hfile₁ p hp, fun _ _ h => by contradiction⟩
    | ok _ =>
      obtain ⟨result₂, s₂, hrename, hfile₂⟩ := renameInstalled_spec conditions s₁ exe
      change ∃ result s', (renameInstalled exe >>= _).execute _ s₁ = some (result, s') ∧ _
      rw [Program.execute_bind, hrename, Option.bind_some]
      cases result₂ with
      | error error =>
        exact ⟨_, s₂, rfl, fun p hp hp' => (hfile₂ p hp hp').trans (hfile₁ p hp'),
          fun _ _ h => by contradiction⟩
      | ok _ =>
        have hcontent : s₂.file (.extracted exe) = some content := by
          rw [hfile₂ _ (by simp) (by simp), hfile₁ _ (by simp), hcontained]
        obtain ⟨hfile₃, hcopy⟩ := carryOut_copy s₂ conditions.fault (.extracted exe)
          (.installed exe)
        change ∃ result s', (file _).execute _ s₂ = some (result, s') ∧ _
        rw [execute_file]
        generalize s₂.carryOut conditions.fault (.copy (.extracted exe) (.installed exe)) = outcome
          at *
        obtain ⟨result₃, s₃⟩ := outcome
        refine ⟨result₃, s₃, rfl, fun p hp hp' => ?_, fun content' heq hok => ?_⟩
        · rw [hfile₃ p hp, hfile₂ p hp hp', hfile₁ p hp']
        · rcases hcopy with ⟨-, hnew, -⟩ | ⟨⟨error, herror⟩, -⟩
          · exact hnew.trans (hcontent.trans heq)
          · rw [hok] at herror
            contradiction

end Steps

section Updates

variable {conditions : Conditions} {s s' : Host} {result : Except UpdateError Unit}

/-- What a release leaves installed over the old executables. -/
def Conditions.updated (conditions : Conditions) (old : Executable → List UInt8) (exe : Executable) :
    List UInt8 :=
  (conditions.package exe).getD (old exe)

/-- The installed executables are the old ones, or those of the release. -/
def AllOrNothing (conditions : Conditions) (old : Executable → List UInt8) (s : Host) : Prop :=
  (∀ exe, s.file (.installed exe) = some (old exe)) ∨
    ∀ exe, ∃ content, conditions.package exe = some content ∧
      s.file (.installed exe) = some content

/-- A release that contains both executables leaves nothing of the old ones. -/
theorem AllOrNothing.of_complete {old : Executable → List UInt8}
    (hcomplete : ∀ exe, (conditions.package exe).isSome = true)
    (h : (∀ exe, s.file (.installed exe) = some (old exe)) ∨
      ∀ exe, s.file (.installed exe) = some (conditions.updated old exe)) :
    AllOrNothing conditions old s := by
  refine h.imp_right fun hupdated exe => ?_
  obtain ⟨content, hcontent⟩ := Option.isSome_iff_exists.mp (hcomplete exe)
  refine ⟨content, hcontent, ?_⟩
  rw [hupdated exe, Conditions.updated, hcontent]
  rfl

/-- The tray and the restart leave the files alone. -/
private theorem execute_restart (conditions : Conditions) (s : Host) :
    ∃ result, (trySignalTrayRestart >>= fun _ => scheduleServiceRestart).execute
      (perform conditions) s = some (result, s) := by
  have hsignal : trySignalTrayRestart.execute (perform conditions) s = some (.ok (), s) := by
    refine (Program.execute_tryCatch (perform conditions) (attempt (op .signal))
      (fun _ => pure ()) s).trans ?_
    change (((Program.liftExcept conditions.signal : Updater Unit).execute (perform conditions)
      s).bind _) = _
    cases conditions.signal <;> rfl
  rw [Program.execute_bind, hsignal, Option.bind_some]
  refine ⟨conditions.start, ?_⟩
  change (Program.liftExcept conditions.start : Updater Unit).execute (perform conditions) s = _
  cases conditions.start <;> rfl

/-- A swap that succeeds installs what the release contains. -/
private theorem Swapped.updated {exe : Executable} {old : Executable → List UInt8}
    (h : Swapped exe s s' (.ok ())) (hold : s.file (.installed exe) = some (old exe))
    (hpackage : s.file (.extracted exe) = conditions.package exe) :
    s'.file (.installed exe) = some (conditions.updated old exe) := by
  rw [Conditions.updated, ← hpackage]
  cases h with
  | skipped hmissing hsame => rw [hsame, hmissing, hold]; rfl
  | swapped hcontained hnew => rw [hnew, hcontained]; rfl

/-- What the executables are after the release was unpacked. -/
private theorem execute_swaps (conditions : Conditions) {old : Executable → List UInt8}
    (hold : ∀ exe, s.file (.installed exe) = some (old exe))
    (hpackage : ∀ exe, s.file (.extracted exe) = conditions.package exe) :
    ∃ result s', (swapExecutable .service >>= fun _ => swapExecutable .tray >>= fun _ =>
        trySignalTrayRestart >>= fun _ => scheduleServiceRestart).execute (perform conditions) s =
          some (result, s') ∧
      (result = .ok () → ∀ exe, s'.file (.installed exe) = some (conditions.updated old exe)) ∧
      (interrupted s'.performed = false →
        (∀ exe, s'.file (.installed exe) = some (old exe)) ∨
          ∀ exe, s'.file (.installed exe) = some (conditions.updated old exe)) := by
  obtain ⟨result₁, s₁, hservice, hother₁, hswapped₁⟩ :=
    swapExecutable_spec conditions .service (by rw [hold]; rfl)
  have htray₁ : s₁.file (.installed .tray) = some (old .tray) :=
    (hother₁ _ (by simp) (by simp)).trans (hold .tray)
  rw [Program.execute_bind, hservice, Option.bind_some]
  cases result₁ with
  | error error =>
    refine ⟨_, s₁, rfl, fun h => by contradiction, fun hwhole => ?_⟩
    cases hswapped₁ with
    | kept hkept =>
      refine Or.inl fun exe => ?_
      cases exe with
      | service => exact hkept.trans (hold .service)
      | tray => exact htray₁
    | broken hfailed =>
      rw [hfailed] at hwhole
      contradiction
  | ok _ =>
    have hnew₁ := hswapped₁.updated (hold .service) (hpackage .service)
    obtain ⟨result₂, s₂, htray, hother₂, hswapped₂⟩ :=
      swapExecutable_spec conditions .tray (by rw [htray₁]; rfl)
    have hservice₂ : s₂.file (.installed .service) = s₁.file (.installed .service) :=
      hother₂ _ (by simp) (by simp)
    change ∃ result s', (swapExecutable .tray >>= _).execute _ s₁ = some (result, s') ∧ _
    rw [Program.execute_bind, htray, Option.bind_some]
    cases result₂ with
    | error error =>
      refine ⟨_, s₂, rfl, fun h => by contradiction, fun hwhole => ?_⟩
      cases hswapped₂ with
      | kept hkept hfailed =>
        cases hswapped₁ with
        | skipped hmissing hsame =>
          subst hsame
          refine Or.inl fun exe => ?_
          cases exe with
          | service => exact hservice₂.trans (hold .service)
          | tray => exact hkept.trans (hold .tray)
        | swapped _ _ hrenamed =>
          rw [hfailed hrenamed] at hwhole
          contradiction
      | broken hfailed =>
        rw [hfailed] at hwhole
        contradiction
    | ok _ =>
      have hpackage₁ : s₁.file (.extracted .tray) = conditions.package .tray :=
        (hother₁ _ (by simp) (by simp)).trans (hpackage .tray)
      have hupdated : ∀ exe, s₂.file (.installed exe) = some (conditions.updated old exe) := by
        intro exe
        cases exe with
        | service => exact hservice₂.trans hnew₁
        | tray => exact hswapped₂.updated htray₁ hpackage₁
      obtain ⟨result, hrestart⟩ := execute_restart conditions s₂
      exact ⟨result, s₂, hrestart, fun _ => hupdated, fun _ => Or.inr hupdated⟩

/-- When an update returns, each executable is the one that the release contains, or the old one where
it contains none. When it throws, and no operation has failed after an executable was renamed away,
this or both are the old ones. -/
theorem applyAsync_spec (conditions : Conditions) {file : Path → Option (List UInt8)}
    {old : Executable → List UInt8} (hold : ∀ exe, file (.installed exe) = some (old exe))
    (locked : Path → Bool) :
    ∃ result s', applyAsync.execute (perform conditions) ⟨file, locked, []⟩ = some (result, s') ∧
      (result = .ok () → ∀ exe, s'.file (.installed exe) = some (conditions.updated old exe)) ∧
      (interrupted s'.performed = false →
        (∀ exe, s'.file (.installed exe) = some (old exe)) ∨
          ∀ exe, s'.file (.installed exe) = some (conditions.updated old exe)) := by
  rw [applyAsync, Program.execute_bind]
  cases hstage : conditions.stage with
  | error error =>
    have hfailed : (attempt (op .stage)).execute (perform conditions) ⟨file, locked, []⟩ =
        some (.error error, ⟨file, locked, []⟩) := by
      change (Option.bind (perform conditions .stage _) _) = _
      rw [perform, hstage]
      rfl
    rw [hfailed]
    exact ⟨_, _, rfl, fun h => by contradiction, fun _ => Or.inl hold⟩
  | ok staged =>
    let s₀ : Host := ⟨fun
      | .extracted exe => conditions.package exe
      | path => file path, locked, []⟩
    have hstaged : (attempt (op .stage)).execute (perform conditions) ⟨file, locked, []⟩ =
        some (.ok (), s₀) := by
      change (Option.bind (perform conditions .stage _) _) = _
      rw [perform, hstage]
      rfl
    rw [hstaged, Option.bind_some]
    exact execute_swaps (s := s₀) conditions hold fun _ => rfl

/-- An update that returns has installed the service that the release contains. -/
theorem applyAsync_installs (conditions : Conditions) (s : Host) :
    ∃ result s', applyAsync.execute (perform conditions) s = some (result, s') ∧
      ∀ content, conditions.package .service = some content → result = .ok () →
        s'.file (.installed .service) = some content := by
  rw [applyAsync, Program.execute_bind]
  cases hstage : conditions.stage with
  | error error =>
    have hfailed : (attempt (op .stage)).execute (perform conditions) s = some (.error error, s) := by
      change (Option.bind (perform conditions .stage _) _) = _
      rw [perform, hstage]
      rfl
    rw [hfailed]
    exact ⟨_, s, rfl, fun _ _ h => by contradiction⟩
  | ok staged =>
    let s₀ : Host := { s with file := fun
      | .extracted exe => conditions.package exe
      | path => s.file path }
    have hstaged : (attempt (op .stage)).execute (perform conditions) s = some (.ok (), s₀) := by
      change (Option.bind (perform conditions .stage _) _) = _
      rw [perform, hstage]
      rfl
    obtain ⟨result₁, s₁, hservice, -, hinstalled⟩ := swapExecutable_installs conditions s₀ .service
    rw [hstaged, Option.bind_some]
    change ∃ result s', (swapExecutable .service >>= _).execute _ s₀ = some (result, s') ∧ _
    rw [Program.execute_bind, hservice, Option.bind_some]
    cases result₁ with
    | error error => exact ⟨_, s₁, rfl, fun _ _ h => by contradiction⟩
    | ok _ =>
      obtain ⟨result₂, s₂, htray, hother, -⟩ := swapExecutable_installs conditions s₁ .tray
      have hkept : ∀ content, conditions.package .service = some content →
          s₂.file (.installed .service) = some content := fun content hcontent =>
        (hother _ (by simp) (by simp)).trans (hinstalled content hcontent rfl)
      change ∃ result s', (swapExecutable .tray >>= _).execute _ s₁ = some (result, s') ∧ _
      rw [Program.execute_bind, htray, Option.bind_some]
      cases result₂ with
      | error error => exact ⟨_, s₂, rfl, fun _ _ h => by contradiction⟩
      | ok _ =>
        obtain ⟨result, hrestart⟩ := execute_restart conditions s₂
        exact ⟨result, s₂, hrestart, fun content hcontent _ => hkept content hcontent⟩

end Updates

namespace Sample

/-- The executables before the update. -/
def old : Executable → List UInt8
  | .service => [1]
  | .tray => [2]

/-- An installation without leftovers. -/
def file : Path → Option (List UInt8)
  | .installed exe => some (old exe)
  | _ => none

/-- A release without the tray, which nothing keeps from being installed. -/
def serviceOnly : Conditions where
  package
    | .service => some [3]
    | .tray => none
  stage := .ok ()
  fault _ := none
  signal := .ok ()
  start := .ok ()

/-- A release with both. -/
def release : Conditions :=
  { serviceOnly with package := fun
      | .service => some [3]
      | .tray => some [4] }

/-- An installation in which the service's leftover of an earlier update is still locked. -/
def leftover : Host where
  file path := if path = .backup .service then some [0] else file path
  locked path := decide (path = .backup .service)
  performed := []

end Sample

/-- An update over a leftover that cannot be deleted fails and leaves both executables as they were. -/
theorem applyAsync_spec_sample :
    ∃ s', applyAsync.execute (perform Sample.release) Sample.leftover =
        some (.error .ioException, s') ∧
      s'.performed = [(.move (.installed .service) (.backup .service), false),
        (.delete (.backup .service), false)] ∧
      ∀ exe, s'.file (.installed exe) = some (Sample.old exe) := by
  have hfailed : (applyAsync.execute (perform Sample.release) Sample.leftover).map
      (fun r => (r.1, r.2.performed, r.2.file (.installed .service))) =
      some (.error .ioException, [(.move (.installed .service) (.backup .service), false),
        (.delete (.backup .service), false)], some [1]) := rfl
  have hold : ∀ exe, Sample.leftover.file (.installed exe) = some (Sample.old exe) := fun _ => rfl
  obtain ⟨result, s', hrun, -, hspec⟩ := applyAsync_spec Sample.release hold Sample.leftover.locked
  change applyAsync.execute _ Sample.leftover = _ at hrun
  rw [hrun] at hfailed
  obtain ⟨rfl, hrest⟩ := Prod.mk.inj (Option.some.inj hfailed)
  obtain ⟨hperformed, hservice⟩ := Prod.mk.inj hrest
  refine ⟨s', hrun, hperformed, (hspec (by rw [hperformed]; rfl)).resolve_right fun hnew => ?_⟩
  exact absurd (hservice.symm.trans (hnew .service)) (by decide)

/-- A release that contains only the service leaves the old tray beside the new service. -/
theorem service_only_mixes :
    ∃ s', applyAsync.execute (perform Sample.serviceOnly) ⟨Sample.file, fun _ => false, []⟩ =
        some (.ok (), s') ∧
      ¬ AllOrNothing Sample.serviceOnly Sample.old s' := by
  refine ⟨_, rfl, ?_⟩
  rintro (hold | hnew)
  · exact absurd (hold .service) (by decide)
  · obtain ⟨content, hcontent, -⟩ := hnew .tray
    contradiction

end ElevateGate.Agent.SelfUpdate
