import ElevateGate.Agent.Enrollment

/-!
# Callers of the credential store

Whatever happens to the callers of the store and to its process, the file holds the text of an issued
credential or the start of one, only issued credentials are cached, and what a caller returns is
cached. Each caller relies on the lock: nobody touches what its holder works on.
-/

namespace ElevateGate.Agent.Enrollment

open Interaction Text

section Texts

variable (libraries : Libraries)

/-- The text that stores a credential. -/
def textOf (credential : DeviceCredential) (random : List UInt8) : List Char :=
  libraries.write (store credential (libraries.protect random (utf8 credential.bearerToken)))

/-- The start of such a text is not read, unless it is the whole. -/
theorem deserialize_take (credential : DeviceCredential) (random : List UInt8) (n : Nat) :
    deserialize libraries ((textOf libraries credential random).take n) =
      if n < (textOf libraries credential random).length then .error .jsonException
      else .ok credential := by
  by_cases hn : n < (textOf libraries credential random).length
  · rw [if_pos hn, deserialize, textOf, libraries.read_take _ _ hn]
    rfl
  · rw [if_neg hn, List.take_of_length_le (Nat.le_of_not_lt hn), deserialize, textOf,
      libraries.read_write]
    change (orThrow .formatException (Base64.decode .standard
      (String.ofList (Base64.encode .standard _)).toList) >>= _) = _
    rw [String.toList_ofList, Base64.decode_encode]
    change (orThrow .cryptographicException (libraries.unprotect (libraries.protect random _)) >>= _) = _
    rw [libraries.unprotect_protect]
    change Except.ok (DeviceCredential.mk _ (libraries.getString (utf8 _))) = _
    rw [libraries.getString_utf8]
    rfl

end Texts

section Discipline

variable (libraries : Libraries)

/-- What holds between the operations of the callers. -/
structure Inv (s : Store) : Prop where
  writer : ∀ i, s.writer = some i → s.holder = some i
  cached : ∀ c, s.cached = some c → c ∈ s.issued
  filed : ∀ text, s.file = some text →
    ∃ c ∈ s.issued, ∃ random n, text = (textOf libraries c random).take n

/-- What a caller relies on: the cache is filled once, and nobody touches what the holder of the lock
works on. -/
structure Rely (i : Tid) (s s' : Store) : Prop where
  cached : ∀ c, s.cached = some c → s'.cached = some c
  issued : ∀ c ∈ s.issued, c ∈ s'.issued
  held : s.holder = some i → s'.holder = some i ∧ s'.file = s.file ∧ s'.cached = s.cached ∧
    s'.writer = s.writer

/-- Every caller returns what is cached. -/
def discipline : Discipline Tid Unit EnrollmentError DeviceCredential Store where
  inv := Inv libraries
  rely := Rely
  evolves s s' := ∀ c ∈ s.issued, c ∈ s'.issued
  post _ _ result s := ∀ c, result = .ok c → s.cached = some c
  rely_refl _ _ := ⟨fun _ h => h, fun _ h => h, fun h => ⟨h, rfl, rfl, rfl⟩⟩
  rely_trans h h' :=
    { cached := fun c hc => h'.cached c (h.cached c hc)
      issued := fun c hc => h'.issued c (h.issued c hc)
      held := fun hheld => by
        obtain ⟨hholder, hfile, hcached, hwriter⟩ := h.held hheld
        obtain ⟨hholder', hfile', hcached', hwriter'⟩ := h'.held hholder
        exact ⟨hholder', hfile'.trans hfile, hcached'.trans hcached, hwriter'.trans hwriter⟩ }
  evolves_refl _ _ h := h
  evolves_trans h h' c hc := h' c (h c hc)

/-- A program of a caller is safe. -/
abbrev Safe {α : Type} (i : Tid) (Q : Except EnrollmentError α → Store → Prop) (program : Caller α)
    (s : Store) : Prop :=
  (discipline libraries).Safe (system libraries) i Q program s

end Discipline

section Rules

variable {libraries : Libraries} {i : Tid} {s s' : Store} {α : Type}
  {Q : Except EnrollmentError α → Store → Prop}

/-- The holder of the lock may do what keeps the invariant and the cache. -/
theorem guarantee_of_held (hheld : s.holder = some i) (hinv : Inv libraries s')
    (hissued : ∀ c ∈ s.issued, c ∈ s'.issued)
    (hcached : ∀ c, s.cached = some c → s'.cached = some c) :
    (discipline libraries).Guarantee i s s' where
  inv := hinv
  evolves := hissued
  rely _ hj :=
    { cached := hcached
      issued := hissued
      held := fun hother => absurd (Option.some.inj (hother.symm.trans hheld)) hj }

/-- Doing nothing is always allowed. -/
theorem guarantee_refl (hinv : Inv libraries s) : (discipline libraries).Guarantee i s s where
  inv := hinv
  evolves _ h := h
  rely j _ := (discipline libraries).rely_refl j s

/-- Whether an operation leaves the store. -/
def Op.quiet : Op → Bool
  | .writeCached _ => false
  | .wait => false
  | .release => false
  | .enroll _ => false
  | .create => false
  | .write _ => false
  | _ => true

/-- What a quiet operation leaves. -/
theorem perform_quiet {o : Op} (ho : o.quiet = true) {choice : Choice} {answer : Res o}
    (h : perform libraries i o choice s = some (answer, s')) : s' = s := by
  cases o with
  | readAllText =>
    cases choice with
    | proceed =>
      simp only [perform] at h
      split at h <;> exact ((Prod.mk.inj (Option.some.inj h)).2).symm
    | fail => exact ((Prod.mk.inj (Option.some.inj h)).2).symm
    | _ => contradiction
  | readCached | fileExists | createDirectory | newGuid | protect _ | utcNow | record _ =>
    cases choice <;> first | contradiction | exact ((Prod.mk.inj (Option.some.inj h)).2).symm
  | _ => contradiction

/-- Perform an operation that leaves the store. -/
theorem safe_quiet {o : Op} {f : Res o → Caller α} (ho : o.quiet = true)
    (h : ∀ s', Rely i s s' → Inv libraries s' → ∀ choice answer,
      perform libraries i o choice s' = some (answer, s') → Safe libraries i Q (f answer) s') :
    Safe libraries i Q (op o >>= f) s := by
  intro s' hrely hinv choice answer s'' hperform
  obtain rfl := perform_quiet ho hperform
  exact ⟨guarantee_refl hinv, h s'' hrely hinv choice answer hperform⟩

/-- Return or throw. -/
theorem safe_liftExcept {β : Type} {result : Throws β} {f : β → Caller α}
    (hok : ∀ value, result = .ok value → Safe libraries i Q (f value) s)
    (herror : ∀ error, result = .error error → ∀ s', Rely i s s' → Inv libraries s' →
      Q (.error error) s') : Safe libraries i Q (Program.liftExcept result >>= f) s := by
  cases result with
  | ok value => exact hok value rfl
  | error error => exact herror error rfl

end Rules

section Callers

variable {libraries : Libraries} {i : Tid} {s s' : Store} {credential : DeviceCredential}

/-- A caller holds the lock, nothing is cached and the file is closed. -/
structure Holds (i : Tid) (s : Store) : Prop where
  holder : s.holder = some i
  writer : s.writer = none
  cached : s.cached = none

theorem Holds.stable (h : Holds i s) (hrely : Rely i s s') : Holds i s' := by
  obtain ⟨hholder, -, hcached, hwriter⟩ := hrely.held h.holder
  exact ⟨hholder, hwriter.trans h.writer, hcached.trans h.cached⟩

/-- A caller holds the lock and has found an issued credential, or has thrown. -/
def Found (i : Tid) (result : Throws DeviceCredential) (s : Store) : Prop :=
  Holds i s ∧ ∀ c, result = .ok c → c ∈ s.issued

theorem Found.stable {result : Throws DeviceCredential} (h : Found i result s)
    (hrely : Rely i s s') : Found i result s' :=
  ⟨h.1.stable hrely, fun c hc => hrely.issued c (h.2 c hc)⟩

/-- What has thrown has found nothing. -/
theorem Holds.threw (h : Holds i s) (error : EnrollmentError) (hrely : Rely i s s') :
    Found i (.error error) s' :=
  ⟨h.stable hrely, fun _ h => by contradiction⟩

/-- What is loaded was issued. -/
theorem safe_loadFromDisk (h : Holds i s) :
    Safe libraries i (Found i) (loadFromDisk libraries) s := by
  refine safe_quiet (o := .readAllText)
    (f := fun result : Throws (List Char) => Program.liftExcept result >>= _) rfl
    fun s' hrely hinv choice answer hperform => ?_
  have hholds := h.stable hrely
  refine safe_liftExcept (fun text htext => ?_) fun error _ s'' hrely' _ => hholds.threw error hrely'
  have hfile : s'.file = some text := by
    cases choice with
    | proceed =>
      simp only [perform] at hperform
      split at hperform
      · next text' hfile =>
        obtain ⟨rfl, -⟩ := Prod.mk.inj (Option.some.inj hperform)
        rw [hfile, Except.ok.inj htext]
      · obtain ⟨rfl, -⟩ := Prod.mk.inj (Option.some.inj hperform)
        contradiction
    | fail =>
      obtain ⟨rfl, -⟩ := Prod.mk.inj (Option.some.inj hperform)
      contradiction
    | _ => contradiction
  obtain ⟨c, hc, random, n, rfl⟩ := hinv.filed text hfile
  rw [deserialize_take]
  split
  · exact fun s'' hrely' _ => hholds.threw _ hrely'
  · exact fun s'' hrely' _ =>
      ⟨hholds.stable hrely', fun c' hc' => Except.ok.inj hc' ▸ hrely'.issued c hc⟩

/-- The file may take the start of an issued credential's text. -/
theorem inv_filed (hinv : Inv libraries s) (hheld : s.holder = some i)
    (hc : credential ∈ s.issued) (random : List UInt8) (n : Nat) {writer : Option Tid}
    (hwriter : ∀ j, writer = some j → j = i) :
    Inv libraries { s with
      file := some ((textOf libraries credential random).take n)
      writer := writer } where
  writer j hj := by rw [hwriter j hj]; exact hheld
  cached := hinv.cached
  filed text htext := ⟨credential, hc, random, n, (Option.some.inj htext).symm⟩

/-- Saving writes the text of the credential, or the start of it. -/
theorem safe_saveToDisk (h : Holds i s) (hc : credential ∈ s.issued) :
    Safe libraries i (fun _ s => Holds i s ∧ credential ∈ s.issued)
      (saveToDisk libraries credential) s := by
  refine safe_quiet (o := .protect (utf8 credential.bearerToken))
    (f := fun result : Throws (List UInt8) => Program.liftExcept result >>= _) rfl
    fun s₁ hrely₁ hinv₁ choice₁ answer₁ hperform₁ => ?_
  have hholds₁ := h.stable hrely₁
  have hc₁ := hrely₁.issued _ hc
  refine safe_liftExcept (fun bytes hbytes => ?_) fun error _ s₂ hrely₂ _ =>
    ⟨hholds₁.stable hrely₂, hrely₂.issued _ hc₁⟩
  obtain ⟨random, rfl⟩ : ∃ random, bytes = libraries.protect random (utf8 credential.bearerToken) := by
    cases choice₁ with
    | random drawn =>
      obtain ⟨rfl, -⟩ := Prod.mk.inj (Option.some.inj hperform₁)
      exact ⟨drawn, (Except.ok.inj hbytes).symm⟩
    | fail =>
      obtain ⟨rfl, -⟩ := Prod.mk.inj (Option.some.inj hperform₁)
      contradiction
    | _ => contradiction
  intro s₂ hrely₂ hinv₂ choice₂ answer₂ s₃ hperform₂
  have hholds₂ := hholds₁.stable hrely₂
  have hc₂ := hrely₂.issued _ hc₁
  cases choice₂ with
  | fail =>
    obtain ⟨rfl, rfl⟩ := Prod.mk.inj (Option.some.inj hperform₂)
    exact ⟨guarantee_refl hinv₂, fun s₄ hrely₄ _ =>
      ⟨hholds₂.stable hrely₄, hrely₄.issued _ hc₂⟩⟩
  | proceed =>
    obtain ⟨rfl, rfl⟩ := Prod.mk.inj (Option.some.inj hperform₂)
    refine ⟨guarantee_of_held hholds₂.holder (inv_filed hinv₂ hholds₂.holder hc₂ random 0
      fun j hj => (Option.some.inj hj).symm) (fun _ h => h) fun _ h => h, ?_⟩
    intro s₄ hrely₄ hinv₄ choice₄ answer₄ s₅ hperform₄
    obtain ⟨hholder₄, -, hcached₄, -⟩ := hrely₄.held hholds₂.holder
    have hc₄ := hrely₄.issued _ hc₂
    -- the whole text is written, or the start of it
    obtain ⟨n, rfl⟩ : ∃ n, s₅ = { s₄ with
        file := some ((textOf libraries credential random).take n)
        writer := none } := by
      cases choice₄ with
      | proceed =>
        obtain ⟨-, rfl⟩ := Prod.mk.inj (Option.some.inj hperform₄)
        refine ⟨(textOf libraries credential random).length, ?_⟩
        rw [List.take_length]
        rfl
      | partly n =>
        change (if n < (textOf libraries credential random).length then _ else _) = _ at hperform₄
        split at hperform₄
        · obtain ⟨-, rfl⟩ := Prod.mk.inj (Option.some.inj hperform₄)
          exact ⟨n, rfl⟩
        · contradiction
      | _ => contradiction
    refine ⟨guarantee_of_held hholder₄ (inv_filed hinv₄ hholder₄ hc₄ random n
      fun j hj => by contradiction) (fun _ h => h) fun _ h => h, ?_⟩
    have hholds₅ : Holds i { s₄ with
        file := some ((textOf libraries credential random).take n)
        writer := none } := ⟨hholder₄, rfl, hcached₄.trans hholds₂.cached⟩
    have hpost : ∀ s₆, Rely i _ s₆ → Holds i s₆ ∧ credential ∈ s₆.issued := fun s₆ hrely₆ =>
      ⟨hholds₅.stable hrely₆, hrely₆.issued _ hc₄⟩
    cases answer₄ with
    | ok _ => exact fun s₆ hrely₆ _ => hpost s₆ hrely₆
    | error _ => exact fun s₆ hrely₆ _ => hpost s₆ hrely₆
  | _ => contradiction

/-- Enrolling returns what the backend has issued. -/
theorem safe_enrollAsync (h : Holds i s) :
    Safe libraries i (Found i) (enrollAsync libraries) s := by
  refine safe_quiet (o := .createDirectory)
    (f := fun result : Throws Unit => Program.liftExcept result >>= _) rfl
    fun s₁ hrely₁ _ _ _ _ => ?_
  have hholds₁ := h.stable hrely₁
  refine safe_liftExcept (fun _ _ => ?_) fun error _ _ hrely _ => hholds₁.threw error hrely
  refine safe_quiet (o := .newGuid) rfl fun s₂ hrely₂ _ _ guid _ => ?_
  have hholds₂ := hholds₁.stable hrely₂
  intro s₃ hrely₃ hinv₃ choice answer s₄ hperform
  have hholds₃ := hholds₂.stable hrely₃
  have hissued : ∀ bearerToken, Inv libraries
      { s₃ with issued := ⟨Uuid.textD guid, bearerToken⟩ :: s₃.issued } := fun bearerToken =>
    { writer := hinv₃.writer
      cached := fun c hc => List.mem_cons_of_mem _ (hinv₃.cached c hc)
      filed := fun text htext => by
        obtain ⟨c, hc, hrest⟩ := hinv₃.filed text htext
        exact ⟨c, List.mem_cons_of_mem _ hc, hrest⟩ }
  cases choice with
  | fail =>
    obtain ⟨rfl, rfl⟩ := Prod.mk.inj (Option.some.inj hperform)
    exact ⟨guarantee_refl hinv₃, fun _ hrely _ => hholds₃.threw _ hrely⟩
  | lost bearerToken =>
    obtain ⟨rfl, rfl⟩ := Prod.mk.inj (Option.some.inj hperform)
    refine ⟨guarantee_of_held hholds₃.holder (hissued bearerToken)
      (fun _ h => List.mem_cons_of_mem _ h) fun _ h => h, ?_⟩
    have hholds₄ : Holds i { s₃ with issued := ⟨Uuid.textD guid, bearerToken⟩ :: s₃.issued } :=
      ⟨hholds₃.holder, hholds₃.writer, hholds₃.cached⟩
    exact fun _ hrely _ => hholds₄.threw _ hrely
  | enrolled bearerToken =>
    obtain ⟨rfl, rfl⟩ := Prod.mk.inj (Option.some.inj hperform)
    refine ⟨guarantee_of_held hholds₃.holder (hissued bearerToken)
      (fun _ h => List.mem_cons_of_mem _ h) fun _ h => h, ?_⟩
    have hholds₄ : Holds i { s₃ with issued := ⟨Uuid.textD guid, bearerToken⟩ :: s₃.issued } :=
      ⟨hholds₃.holder, hholds₃.writer, hholds₃.cached⟩
    refine (safe_saveToDisk hholds₄ List.mem_cons_self).bind (fun _ s₅ _ hsaved => ?_)
      fun error s₅ _ hsaved => ⟨hsaved.1, fun _ h => by contradiction⟩
    obtain ⟨hholds₅, hc₅⟩ := hsaved
    refine safe_quiet (o := .utcNow) rfl fun s₆ hrely₆ _ _ now _ => ?_
    refine safe_quiet (o := .record _)
      (f := fun result : Throws Unit => Program.liftExcept result >>= _) rfl
      fun s₇ hrely₇ _ _ _ _ => ?_
    have hholds₇ := (hholds₅.stable hrely₆).stable hrely₇
    have hc₇ := hrely₇.issued _ (hrely₆.issued _ hc₅)
    refine safe_liftExcept (fun _ _ => ?_) fun error _ _ hrely _ => hholds₇.threw error hrely
    exact fun s₈ hrely₈ _ =>
      ⟨hholds₇.stable hrely₈, fun c hc => Except.ok.inj hc ▸ hrely₈.issued _ hc₇⟩
  | _ => contradiction

/-- A caller holds the lock and the file is closed, and what it returns is cached. -/
structure Settled (i : Tid) (result : Throws DeviceCredential) (s : Store) : Prop where
  holder : s.holder = some i
  writer : s.writer = none
  cached : ∀ c, result = .ok c → s.cached = some c

theorem Settled.stable {result : Throws DeviceCredential} (h : Settled i result s)
    (hrely : Rely i s s') : Settled i result s' := by
  obtain ⟨hholder, -, -, hwriter⟩ := hrely.held h.holder
  exact ⟨hholder, hwriter.trans h.writer, fun c hc => hrely.cached c (h.cached c hc)⟩

/-- What was found is cached and returned. -/
private theorem safe_remember {program : Caller DeviceCredential}
    (h : Safe libraries i (Found i) program s) :
    Safe libraries i (Settled i)
      (program >>= fun c => op (.writeCached c) >>= fun _ => pure c) s := by
  refine h.bind (fun c s₁ _ hfound => ?_) fun error s₁ _ hfound =>
    ⟨hfound.1.holder, hfound.1.writer, fun _ h => by contradiction⟩
  intro s₂ hrely hinv choice answer s₃ hperform
  obtain ⟨hholds, hissued⟩ := hfound.stable hrely
  cases choice with
  | proceed =>
    obtain ⟨-, rfl⟩ := Prod.mk.inj (Option.some.inj hperform)
    have hinv' : Inv libraries { s₂ with cached := some c } :=
      { writer := hinv.writer
        cached := fun c' hc' => Option.some.inj hc' ▸ hissued c rfl
        filed := hinv.filed }
    have hnone : ∀ c', s₂.cached = some c' → some c = some c' := fun c' hc' => by
      rw [hholds.cached] at hc'
      contradiction
    refine ⟨guarantee_of_held hholds.holder hinv' (fun _ h => h) hnone, fun s₄ hrely₄ _ => ?_⟩
    have hsettled : Settled i (.ok c) { s₂ with cached := some c } :=
      ⟨hholds.holder, hholds.writer, fun c' hc' => congrArg some (Except.ok.inj hc')⟩
    exact hsettled.stable hrely₄
  | _ => contradiction

/-- A cached credential is answered as it is. -/
theorem cached_of_perform {choice : Choice} {answer : Option DeviceCredential}
    (h : perform libraries i .readCached choice s = some (answer, s')) : answer = s.cached := by
  cases choice with
  | proceed => exact ((Prod.mk.inj (Option.some.inj h)).1).symm
  | _ => contradiction

/-- What happens under the lock. -/
theorem safe_getOrCreateLocked (hholder : s.holder = some i) (hwriter : s.writer = none) :
    Safe libraries i (Settled i) (getOrCreateLocked libraries) s := by
  refine safe_quiet (o := .readCached) rfl fun s₁ hrely₁ _ choice answer hperform => ?_
  obtain ⟨hholder₁, -, -, hwriter₁⟩ := hrely₁.held hholder
  obtain rfl := cached_of_perform hperform
  cases hcached : s₁.cached with
  | some c =>
    have hsettled : Settled i (.ok c) s₁ :=
      ⟨hholder₁, hwriter₁.trans hwriter, fun c' hc' => Except.ok.inj hc' ▸ hcached⟩
    exact fun s₂ hrely₂ _ => hsettled.stable hrely₂
  | none =>
    have hholds₁ : Holds i s₁ := ⟨hholder₁, hwriter₁.trans hwriter, hcached⟩
    refine safe_quiet (o := .fileExists) rfl fun s₂ hrely₂ _ _ (exists_ : Bool) _ => ?_
    have hholds₂ := hholds₁.stable hrely₂
    cases exists_ with
    | true => exact safe_remember (safe_loadFromDisk hholds₂)
    | false => exact safe_remember (safe_enrollAsync hholds₂)

/-- The lock is released in the end. -/
theorem safe_release {result : Throws DeviceCredential} (h : Settled i result s) :
    Safe libraries i (fun final s =>
      match final with
      | .ok () => ∀ c, result = .ok c → s.cached = some c
      | .error e => ∀ c, Except.error e = .ok c → s.cached = some c) (op .release) s := by
  intro s₁ hrely hinv choice answer s₂ hperform
  have hsettled := h.stable hrely
  cases choice with
  | proceed =>
    obtain ⟨rfl, rfl⟩ := Prod.mk.inj (Option.some.inj hperform)
    have hinv' : Inv libraries { s₁ with holder := none } :=
      { writer := fun j hj => by
          have hwriter : s₁.writer = some j := hj
          rw [hsettled.writer] at hwriter
          contradiction
        cached := hinv.cached
        filed := hinv.filed }
    exact ⟨guarantee_of_held hsettled.holder hinv' (fun _ h => h) fun _ h => h,
      fun s₃ hrely₃ _ c hc => hrely₃.cached c (hsettled.cached c hc)⟩
  | _ => contradiction

/-- Every caller is safe. -/
theorem safe_getOrCreateAsync (s : Store) :
    Safe libraries i (fun result s => ∀ c, result = .ok c → s.cached = some c)
      (getOrCreateAsync libraries) s := by
  refine safe_quiet (o := .readCached) rfl fun s₁ _ _ choice answer hperform => ?_
  obtain rfl := cached_of_perform hperform
  cases hcached : s₁.cached with
  | some c =>
    exact fun s₂ hrely₂ _ c' hc' => hrely₂.cached c' (Except.ok.inj hc' ▸ hcached)
  | none =>
    intro s₂ _ hinv₂ choice answer s₃ hperform₂
    cases choice with
    | fail =>
      obtain ⟨rfl, rfl⟩ := Prod.mk.inj (Option.some.inj hperform₂)
      exact ⟨guarantee_refl hinv₂, fun _ _ _ _ h => by contradiction⟩
    | proceed =>
      change (if s₂.holder = none then _ else _) = _ at hperform₂
      split at hperform₂
      · next hfree =>
        obtain ⟨rfl, rfl⟩ := Prod.mk.inj (Option.some.inj hperform₂)
        have hwriter : s₂.writer = none := by
          refine Option.eq_none_iff_forall_ne_some.mpr fun j hj => ?_
          rw [hinv₂.writer j hj] at hfree
          contradiction
        have hinv₃ : Inv libraries { s₂ with holder := some i } :=
          { writer := fun j hj => by
              rw [show s₂.writer = some j from hj] at hwriter
              contradiction
            cached := hinv₂.cached
            filed := hinv₂.filed }
        refine ⟨⟨hinv₃, fun _ h => h, fun j _ => ⟨fun _ h => h, fun _ h => h, fun hheld => ?_⟩⟩, ?_⟩
        · rw [hfree] at hheld
          contradiction
        · exact (safe_getOrCreateLocked (s := { s₂ with holder := some i }) rfl hwriter).finally_
            (fun result _ _ hsettled => safe_release hsettled)
            fun result s s' h hrely _ c hc => hrely.cached c (h c hc)
      · contradiction
    | _ => contradiction

end Callers

section Runs

variable {libraries : Libraries} {s : Store} {i : Tid}

/-- What a caller leaves behind when it stops. -/
theorem guarantee_stop (hinv : Inv libraries s) :
    (discipline libraries).Guarantee i s (s.stop i) where
  inv :=
    { writer := fun j hj => by
        simp only [Store.stop] at hj ⊢
        by_cases hwriter : s.writer = some i
        · rw [if_pos hwriter] at hj
          contradiction
        · rw [if_neg hwriter] at hj
          have hheld := hinv.writer j hj
          have hne : s.holder ≠ some i := by
            intro heq
            obtain rfl := Option.some.inj (hheld.symm.trans heq)
            exact hwriter hj
          rw [if_neg hne]
          exact hheld
      cached := hinv.cached
      filed := hinv.filed }
  evolves _ h := h
  rely j hj :=
    { cached := fun _ h => h
      issued := fun _ h => h
      held := fun hheld => by
        have hne : s.holder ≠ some i := fun heq => hj (Option.some.inj (hheld.symm.trans heq))
        have hwriter : s.writer ≠ some i := fun heq => hne (hinv.writer i heq)
        exact ⟨(if_neg hne).trans hheld, rfl, rfl, if_neg hwriter⟩ }

/-- The discipline is valid: no interleaving, failure or restart breaks it. -/
theorem valid (libraries : Libraries) : (discipline libraries).Valid (system libraries) where
  entry i _ program s hprogram _ := by
    obtain rfl := Option.some.inj hprogram
    exact safe_getOrCreateAsync _
  stop i s hinv := guarantee_stop hinv
  env event := nomatch event
  reset s s' hreset hinv := by
    obtain rfl := Option.some.inj hreset
    exact ⟨⟨fun _ h => by contradiction, fun _ h => by contradiction, hinv.filed⟩, fun _ h => h⟩

/-- Before the first enrollment there is nothing to keep. -/
theorem inv_initial (libraries : Libraries) : Inv libraries .initial where
  writer _ h := by contradiction
  cached _ h := by contradiction
  filed _ h := by contradiction

end Runs

end ElevateGate.Agent.Enrollment
