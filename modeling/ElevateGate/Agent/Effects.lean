import ElevateGate.Agent.Service

/-!
# What an operation may change

The effect of every operation on the machine, and what the answers of the operations that read say
about it.
-/

namespace ElevateGate.Agent

open Interaction Time

/-- What an operation may do to the machine. -/
inductive Effect (s : State) : Op → State → Prop
  | unchanged {op : Op} : Effect s op s
  | handles {op : Op} (handles : List (Tid × String)) : Effect s op { s with handles := handles }
  | audit {op : Op} (audit : List AuditEvent) : Effect s op { s with audit := audit }
  | insertNonce (nonce : String) : Effect s (.insertNonce nonce) (s.insertNonce nonce)
  | setItem (requestId : String) (request : TrackedRequest) :
      Effect s (.setItem requestId request) (s.setRequest requestId request)
  | addOrUpdate {requestId : String} {existing : TrackedRequest} (status : RequestStatus)
      (h : s.requests requestId = some existing) :
      Effect s (.addOrUpdate requestId status)
        (s.setRequest requestId { existing with status := status })
  | newGuid (guid : Uuid) (h : guid ∉ s.drawn) :
      Effect s .newGuid { s with drawn := guid :: s.drawn }

variable {host : Host} {i : Tid} {choice : Choice} {s s' : State}

/-- Every operation has one of these effects. -/
theorem perform_effect {op : Op} {answer : Res op}
    (h : perform host i op choice s = some (answer, s')) : Effect s op s' := by
  unfold perform at h
  split at h <;> try contradiction
  -- operations whose effect does not depend on the state
  all_goals try (obtain ⟨-, rfl⟩ := Prod.mk.inj (Option.some.inj h); constructor)
  -- opening a file, updating an entry and drawing a GUID look at the state first
  all_goals try (split at h)
  all_goals try contradiction
  all_goals try (obtain ⟨-, rfl⟩ := Prod.mk.inj (Option.some.inj h); constructor; try assumption)

/-- The clock is read as it stands. -/
theorem perform_utcNow {now : DateTimeOffset}
    (h : perform host i .utcNow choice s = some (now, s')) : now = s.clock := by
  cases choice <;> first | exact (Prod.mk.inj (Option.some.inj h)).1.symm | contradiction

/-- A lookup answers with the entry. -/
theorem perform_getValueOrDefault {requestId : String} {answer : Option TrackedRequest}
    (h : perform host i (.getValueOrDefault requestId) choice s = some (answer, s')) :
    s.requests requestId = answer := by
  cases choice <;> first | exact (Prod.mk.inj (Option.some.inj h)).1 | contradiction

/-- A fact that is read off a file is true of its content. -/
theorem inspect_eq_ok {α : Type} {path : String} {fact : List UInt8 → Option α} {value : α} :
    s.inspect path fact = .ok value ↔ ∃ content, s.files path = some content ∧
      fact content = some value := by
  unfold State.inspect
  cases hfile : s.files path with
  | none => simp
  | some content => cases hfact : fact content <;> simp [hfact]

/-- A file is read as it stands. -/
theorem perform_readAll {path : String} {content : List UInt8}
    (h : perform host i (.readAll path) choice s = some (.ok content, s')) :
    s.files path = some content := by
  cases choice with
  | unit =>
    obtain ⟨content', hfile, heq⟩ :=
      inspect_eq_ok.mp (Prod.mk.inj (Option.some.inj h)).1
    rwa [Option.some.inj heq] at hfile
  | fail error => exact absurd (Prod.mk.inj (Option.some.inj h)).1 (by simp)
  | _ => contradiction

/-- The ledger holds what it held and the inserted nonce. -/
theorem mem_insertNonce {nonce n : String} :
    n ∈ (s.insertNonce nonce).ledger ↔ n = nonce ∨ n ∈ s.ledger := by
  unfold State.insertNonce
  split
  · next h =>
    constructor
    · exact Or.inr
    · rintro (rfl | hn)
      · exact h
      · exact hn
  · simp

/-- A nonce is inserted only where it is not in the ledger, and then it is. -/
theorem perform_insertNonce {nonce : String}
    (h : perform host i (.insertNonce nonce) choice s = some (.ok 1, s')) :
    nonce ∉ s.ledger ∧ nonce ∈ s'.ledger := by
  cases choice with
  | unit =>
    obtain ⟨hrows, rfl⟩ := Prod.mk.inj (Option.some.inj h)
    refine ⟨fun hmem => ?_, mem_insertNonce.mpr (Or.inl rfl)⟩
    rw [if_pos hmem] at hrows
    exact absurd (Except.ok.inj hrows) (by decide)
  | fail error => exact absurd (Prod.mk.inj (Option.some.inj h)).1 (by simp)
  | failAfter error => exact absurd (Prod.mk.inj (Option.some.inj h)).1 (by simp)
  | _ => contradiction

/-- No operation takes a nonce out of the ledger. -/
theorem Effect.ledger {op : Op} (h : Effect s op s') : s.ledger ⊆ s'.ledger := by
  cases h with
  | insertNonce nonce => exact fun n hn => mem_insertNonce.mpr (Or.inr hn)
  | _ => exact fun _ hn => hn

/-- Nor does anything beside the service touch the ledger. -/
theorem env_ledger {event : Event} (h : env event s = some s') : s'.ledger = s.ledger := by
  cases event with
  | setClock t => rw [← Option.some.inj h]
  | write path content =>
    simp only [env] at h
    split at h
    · contradiction
    · rw [← Option.some.inj h]

/-- An operation keeps the requests. -/
theorem Effect.requests_isSome {op : Op} (h : Effect s op s') {id : String} {t : TrackedRequest}
    (ht : s.requests id = some t) : ∃ t', s'.requests id = some t' := by
  have hset : ∀ id' t'', ∃ t', (s.setRequest id' t'').requests id = some t' := by
    intro id' t''
    by_cases hid : id = id'
    · subst hid
      exact ⟨t'', Function.update_self _ _ _⟩
    · exact ⟨t, (Function.update_of_ne hid _ _).trans ht⟩
  cases h with
  | setItem requestId request => exact hset _ _
  | addOrUpdate status hexisting => exact hset _ _
  | insertNonce nonce =>
    rw [State.insertNonce]
    split <;> exact ⟨t, ht⟩
  | _ => exact ⟨t, ht⟩

/-- Nor does anything beside the service touch its memory. -/
theorem env_requests {event : Event} (h : env event s = some s') : s'.requests = s.requests := by
  cases event with
  | setClock t => rw [← Option.some.inj h]
  | write path content =>
    simp only [env] at h
    split at h
    · contradiction
    · rw [← Option.some.inj h]

/-- Nor does anything beside the service draw a GUID. -/
theorem env_drawn {event : Event} (h : env event s = some s') : s'.drawn = s.drawn := by
  cases event with
  | setClock t => rw [← Option.some.inj h]
  | write path content =>
    simp only [env] at h
    split at h
    · contradiction
    · rw [← Option.some.inj h]

/-- Updating an entry replaces its status, or throws where there is none. -/
theorem perform_addOrUpdate {requestId : String} {status : RequestStatus} {answer : Throws Unit}
    (h : perform host i (.addOrUpdate requestId status) choice s = some (answer, s')) :
    (∃ t, s.requests requestId = some t ∧ answer = .ok () ∧
        s' = s.setRequest requestId { t with status := status }) ∨
      (s.requests requestId = none ∧ s' = s ∧ ∃ error, answer = .error error) := by
  cases choice with
  | unit =>
    simp only [perform] at h
    cases hexisting : s.requests requestId with
    | none =>
      rw [hexisting] at h
      obtain ⟨rfl, rfl⟩ := Prod.mk.inj (Option.some.inj h)
      exact Or.inr ⟨rfl, rfl, _, rfl⟩
    | some t =>
      rw [hexisting] at h
      obtain ⟨rfl, rfl⟩ := Prod.mk.inj (Option.some.inj h)
      exact Or.inl ⟨t, rfl, rfl, rfl⟩
  | _ => contradiction

/-- A GUID that is drawn is new. -/
theorem perform_newGuid {guid : Uuid}
    (h : perform host i .newGuid choice s = some (guid, s')) :
    guid ∉ s.drawn ∧ s' = { s with drawn := guid :: s.drawn } := by
  cases choice with
  | guid random =>
    simp only [perform] at h
    split at h
    · contradiction
    · next hfresh =>
      obtain ⟨rfl, rfl⟩ := Prod.mk.inj (Option.some.inj h)
      exact ⟨hfresh, rfl⟩
  | _ => contradiction

/-- Setting an entry sets it. -/
theorem perform_setItem {requestId : String} {request : TrackedRequest} {answer : Unit}
    (h : perform host i (.setItem requestId request) choice s = some (answer, s')) :
    s' = s.setRequest requestId request := by
  cases choice with
  | unit => exact (Prod.mk.inj (Option.some.inj h)).2.symm
  | _ => contradiction

/-- No operation writes a file. -/
theorem Effect.files {op : Op} (h : Effect s op s') : s'.files = s.files := by
  cases h with
  | insertNonce nonce =>
    unfold State.insertNonce
    split <;> rfl
  | _ => rfl

end ElevateGate.Agent
