import ElevateGate.Agent.Effects
import ElevateGate.Agent.Evidence

/-!
# The nonce ledger over whole runs

The ledger survives restarts and only grows, so a nonce is inserted at most once in any run; and a
thread that starts a process has inserted the nonce itself, right before.
-/

namespace ElevateGate.Agent

open Interaction Time Text

/-- The record of a run. -/
abbrev Log := List (Moment Op Res Tid Event State)

/-- Whether a deed has inserted a nonce. -/
def isInserted (nonce : String) : Deed → Bool
  | ⟨_, .insertNonce n, .ok rows⟩ => decide (n = nonce) && decide (rows = 1)
  | _ => false

/-- Whether a deed is a valid outcome for a nonce. -/
def isValid (nonce : String) : Deed → Bool
  | ⟨_, .note (.valid n), _⟩ => decide (n = some nonce)
  | _ => false

/-- Whether a deed is the start of a process for a nonce. -/
def isStart (nonce : String) : Deed → Bool
  | ⟨_, .startProcess _ authority, _⟩ => decide (authority.token.nonce = some nonce)
  | _ => false

/-- Whether a deed is the start of a process for a request. -/
def isStartFor (requestId : String) : Deed → Bool
  | ⟨_, .startProcess _ authority, _⟩ => decide (authority.expectedRequestId = requestId)
  | _ => false

/-- What the log of a run says about the ledger and about the processes that were started. -/
structure Recounted (host : Host) (r : Recorded Op Res Tid Event State) : Prop where
  genuine : ∀ i deed, .performed i deed ∈ r.log →
    ∃ choice after, perform host i deed.op choice deed.before = some (deed.answer, after)
  grows : ∀ i deed, .performed i deed ∈ r.log → deed.before.ledger ⊆ r.state.ledger
  ordered : ∀ i, (mine i r.log).Pairwise fun later earlier =>
    earlier.before.ledger ⊆ later.before.ledger
  inserted : ∀ nonce, r.log.countP (Moment.isDeed (isInserted nonce)) ≤
    if nonce ∈ r.state.ledger then 1 else 0
  valid : ∀ nonce, Ahead (isInserted nonce) (isValid nonce) r.log
  started : ∀ nonce, Ahead (isValid nonce) (isStart nonce) r.log
  evidence : ∀ i before info authority answer,
    .performed i ⟨before, .startProcess info authority, answer⟩ ∈ r.log →
    ∃ (e : Evidence) (done : List Deed), e.Supports host authority done

variable {host : Host} {accepts : Tid → Call → Bool}

/-- Before the first step nothing has been recorded. -/
theorem recounted_nil (s : State) : Recounted host ⟨s, []⟩ where
  genuine _ _ h := by contradiction
  grows _ _ h := by contradiction
  ordered _ := .nil
  inserted _ := Nat.zero_le _
  valid _ := .nil
  started _ := .nil
  evidence _ _ _ _ _ h := by contradiction

section Steps

variable {i : Tid} {call : Call} {op : Op} {choice : Choice} {answer : Res op} {s s' : State}
  {log : Log}

/-- Noting a valid outcome follows the insertion of its nonce. -/
private theorem inserted_of_valid {nonce : String} (hjustified : Justified host call (mine i log) op)
    (h : isValid nonce ⟨s, op, answer⟩ = true) : (mine i log).head?.any (isInserted nonce) = true := by
  cases op with
  | note n =>
    cases n with
    | valid n =>
      obtain ⟨s0, n', before, rfl, hmine⟩ := hjustified
      obtain rfl : n' = nonce := by simpa [isValid] using h
      rw [hmine]
      simp [isInserted]
    | sinceUtc t => simp [isValid] at h
  | _ => simp [isValid] at h

/-- Starting a process follows the valid outcome for its nonce. -/
private theorem valid_of_start {nonce : String} (hjustified : Justified host call (mine i log) op)
    (h : isStart nonce ⟨s, op, answer⟩ = true) : (mine i log).head?.any (isValid nonce) = true := by
  cases op with
  | startProcess info authority =>
    obtain ⟨-, ⟨e, hdeeds, hchecked⟩, -⟩ := hjustified
    have hnonce : authority.token.nonce = some nonce := by simpa [isStart] using h
    rw [hchecked.nonce] at hnonce
    rw [hdeeds]
    simpa [Evidence.deeds, validation, isValid] using hnonce
  | _ => simp [isStart] at h

/-- An insertion adds its nonce to the ledger, where it was not. -/
private theorem inserted_step {nonce : String}
    (h : log.countP (Moment.isDeed (isInserted nonce)) ≤ if nonce ∈ s.ledger then 1 else 0)
    (hperform : perform host i op choice s = some (answer, s')) :
    (Moment.performed i ⟨s, op, answer⟩ :: log).countP (Moment.isDeed (isInserted nonce)) ≤
      if nonce ∈ s'.ledger then 1 else 0 := by
  have heffect := perform_effect hperform
  rw [countP_performed]
  cases hnew : isInserted nonce ⟨s, op, answer⟩ with
  | true =>
    cases op with
    | insertNonce n =>
      cases answer with
      | error error => simp [isInserted] at hnew
      | ok rows =>
        obtain ⟨rfl, rfl⟩ : n = nonce ∧ rows = 1 := by simpa [isInserted] using hnew
        obtain ⟨hfresh, hmem⟩ := perform_insertNonce hperform
        rw [if_neg hfresh] at h
        rw [if_pos hmem]
        simpa using h
    | _ => simp [isInserted] at hnew
  | false =>
    refine Nat.le_trans h ?_
    split
    · next hmem => rw [if_pos (heffect.ledger hmem)]
    · exact Nat.zero_le _

end Steps

/-- A step that is no deed and leaves the ledger changes nothing in the account. -/
private theorem Recounted.quiet {s s' : State} {log : Log}
    {moment : Moment Op Res Tid Event State} (h : Recounted host ⟨s, log⟩)
    (hmoment : ∀ i deed, moment ≠ .performed i deed) (hledger : s'.ledger = s.ledger) :
    Recounted host ⟨s', moment :: log⟩ where
  genuine i deed hmem := h.genuine i deed ((List.mem_cons.mp hmem).resolve_left (hmoment i deed).symm)
  grows i deed hmem := by
    rw [hledger]
    exact h.grows i deed ((List.mem_cons.mp hmem).resolve_left (hmoment i deed).symm)
  ordered k := by
    rcases (mine_quiet hmoment : mine k (_ :: log) = mine k log ∨ _) with hmine | hmine
    · rw [hmine]
      exact h.ordered k
    · rw [hmine]
      exact .nil
  inserted nonce := by
    have hnone : Moment.isDeed (isInserted nonce) moment = false := by
      cases moment with
      | performed i deed => exact absurd rfl (hmoment i deed)
      | _ => rfl
    simp only [List.countP_cons, hnone, hledger]
    exact h.inserted nonce
  valid nonce := (h.valid nonce).quiet hmoment
  started nonce := (h.started nonce).quiet hmoment
  evidence i _ _ _ _ hmem :=
    h.evidence i _ _ _ _ ((List.mem_cons.mp hmem).resolve_left (hmoment i _).symm)

/-- Every step keeps the account. -/
theorem preserved_recounted :
    Preserved (system host accepts) .free (Justified host) (Recounted host) where
  perform i call op choice answer s s' log h hjustified _ hperform :=
    { genuine := by
        rintro k deed hmem
        rcases List.mem_cons.mp hmem with heq | hmem
        · obtain ⟨rfl, rfl⟩ := Moment.performed.inj heq
          exact ⟨choice, s', hperform⟩
        · exact h.genuine k deed hmem
      grows := by
        rintro k deed hmem
        rcases List.mem_cons.mp hmem with heq | hmem
        · obtain ⟨rfl, rfl⟩ := Moment.performed.inj heq
          exact (perform_effect hperform).ledger
        · exact List.Subset.trans (h.grows k deed hmem) (perform_effect hperform).ledger
      ordered := by
        intro k
        by_cases hk : i = k
        · subst hk
          rw [mine_performed_self]
          refine .cons (fun deed hmem => ?_) (h.ordered i)
          exact h.grows i deed (mem_log_of_mem_mine hmem)
        · rw [mine_performed_ne hk]
          exact h.ordered k
      inserted := fun nonce => inserted_step (h.inserted nonce) hperform
      valid := fun nonce => (h.valid nonce).performed (inserted_of_valid hjustified)
      started := fun nonce => (h.started nonce).performed (valid_of_start hjustified)
      evidence := by
        rintro k before info authority ans hmem
        rcases List.mem_cons.mp hmem with heq | hmem
        · obtain ⟨rfl, hdeed⟩ := Moment.performed.inj heq
          cases hdeed
          obtain ⟨-, ⟨e, he⟩, -⟩ := hjustified
          exact ⟨e, _, he⟩
        · exact h.evidence k before info authority ans hmem }
  stop i s log h := h.quiet (by simp) rfl
  reset s s' log h hreset := by
    obtain rfl := Option.some.inj hreset
    exact h.quiet (by simp) rfl
  env event s s' log h _ henv := h.quiet (by simp) (env_ledger henv)

/-- The account is true of every run, and every thread in use obeys the protocol. -/
theorem recounted_run {s : State} {labels : List (Label Tid Choice Event Call)}
    {c : Config Op Res ClrException Answer Tid Call (Recorded Op Res Tid Event State)}
    (hrun : ((system host accepts).recorded .free).run labels (System.init ⟨s, []⟩) = some c) :
    Obedient (Justified host) c ∧ Recounted host c.shared :=
  recorded_run (follows_justified host accepts) preserved_recounted (obedient_init _)
    (recounted_nil s) hrun

end ElevateGate.Agent
