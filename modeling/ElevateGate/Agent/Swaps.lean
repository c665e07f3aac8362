import ElevateGate.Agent.Ledger

/-!
# Files that change under the service

The service opens a file by its path each time it reads something about it, and a user may write or
replace the file whenever it is not open. What a later operation finds is then the content that was
read before, or what the last write since then has left.
-/

namespace ElevateGate.Agent

open Interaction Time Text

/-- What a deed has read from the file at a path. -/
def readOf (path : String) : Deed → Option (Throws (List UInt8))
  | ⟨_, .readAll p, answer⟩ => if p = path then some answer else none
  | _ => none

/-- Whether a deed has read the file at a path. -/
def isRead (path : String) (deed : Deed) : Bool :=
  (readOf path deed).isSome

/-- What a step has written to a path. -/
def writeTo (path : String) : Moment Op Res Tid Event State → Option Content
  | .happened (.write p content) => if p = path then some content else none
  | _ => none

/-- Only a write of the path has written to it. -/
theorem eq_of_writeTo {path : String} {moment : Moment Op Res Tid Event State} {content : Content}
    (h : writeTo path moment = some content) : moment = .happened (.write path content) := by
  cases moment with
  | happened event =>
    cases event with
    | write p written =>
      simp only [writeTo] at h
      split at h
      · next hp => rw [hp, Option.some.inj h]
      · contradiction
    | setClock t => contradiction
  | _ => contradiction

/-- What the last write to a path has left, if there was one. -/
def lastWrite (path : String) (log : Log) : Option Content :=
  log.findSome? (writeTo path)

/-- Every file that a thread has read has the content that was read, unless it was written since. -/
def Current (r : Recorded Op Res Tid Event State) : Prop :=
  ∀ i path content, (mine i r.log).findSome? (readOf path) = some (.ok content) →
    r.state.files path = (lastWrite path (since i (isRead path) r.log)).getD (some content)

section Steps

variable {host : Host} {accepts : Tid → Call → Bool} {path : String}

/-- A step that is no write leaves the last write. -/
private theorem lastWrite_cons {moment : Moment Op Res Tid Event State} {log : Log}
    (h : writeTo path moment = none) : lastWrite path (moment :: log) = lastWrite path log := by
  simp [lastWrite, h]

/-- A step that is no deed and writes nothing to the path. -/
private theorem current_quiet {i : Tid} {log : Log} {content : List UInt8}
    {moment : Moment Op Res Tid Event State} (hmoment : ∀ i deed, moment ≠ .performed i deed)
    (hread : (mine i (moment :: log)).findSome? (readOf path) = some (.ok content)) :
    (mine i log).findSome? (readOf path) = some (.ok content) ∧
      since i (isRead path) (moment :: log) = moment :: since i (isRead path) log := by
  constructor
  · rcases (mine_quiet hmoment : mine i (_ :: log) = mine i log ∨ _) with hmine | hmine
    · rwa [hmine] at hread
    · rw [hmine] at hread
      contradiction
  · refine since_cons ?_
    cases moment with
    | performed j deed => exact absurd rfl (hmoment j deed)
    | _ => rfl

/-- A deed that has read the file found the content that it returned. -/
private theorem files_of_readOf {i : Tid} {op : Op} {choice : Choice} {answer : Res op}
    {s s' : State} {content : List UInt8}
    (hperform : perform host i op choice s = some (answer, s'))
    (hread : readOf path ⟨s, op, answer⟩ = some (.ok content)) : s.files path = some content := by
  cases op with
  | readAll p =>
    simp only [readOf] at hread
    split at hread
    · next hp =>
      subst hp
      rw [Option.some.inj hread] at hperform
      exact perform_readAll hperform
    · contradiction
  | _ => simp [readOf] at hread

/-- Every step keeps the account of the files. -/
theorem preserved_current {P : Call → List Deed → Op → Prop} :
    Preserved (system host accepts) .free P Current where
  perform i call op choice answer s s' log h _ _ hperform := by
    intro k path content hread
    have hfiles : s'.files = s.files := (perform_effect hperform).files
    by_cases hk : i = k
    · subst hk
      rw [mine_performed_self, List.findSome?_cons] at hread
      cases hdeed : readOf path ⟨s, op, answer⟩ with
      | some result =>
        rw [hdeed] at hread
        have hcontent := files_of_readOf hperform (hdeed.trans hread)
        have hsince : since i (isRead path) (.performed i ⟨s, op, answer⟩ :: log) = [] :=
          since_deed (by simp [isRead, hdeed])
        change s'.files path = (lastWrite path (since i (isRead path) (_ :: log))).getD _
        rw [hsince, hfiles, hcontent]
        rfl
      | none =>
        rw [hdeed] at hread
        have hsince : since i (isRead path) (.performed i ⟨s, op, answer⟩ :: log) =
            .performed i ⟨s, op, answer⟩ :: since i (isRead path) log :=
          since_cons (by simp [Moment.isDeedOf, isRead, hdeed])
        change s'.files path = (lastWrite path (since i (isRead path) (_ :: log))).getD _
        rw [hsince, lastWrite_cons rfl, hfiles]
        exact h i path content hread
    · rw [mine_performed_ne hk] at hread
      have hsince : since k (isRead path) (.performed i ⟨s, op, answer⟩ :: log) =
          .performed i ⟨s, op, answer⟩ :: since k (isRead path) log :=
        since_cons (by simp [Moment.isDeedOf, hk])
      change s'.files path = (lastWrite path (since k (isRead path) (_ :: log))).getD _
      rw [hsince, lastWrite_cons rfl, hfiles]
      exact h k path content hread
  stop i s log h := by
    intro k path content hread
    obtain ⟨hread, hsince⟩ := current_quiet (by simp) hread
    change s.files path = (lastWrite path (since k (isRead path) (_ :: log))).getD _
    rw [hsince, lastWrite_cons rfl]
    exact h k path content hread
  reset s s' log h hreset := by
    obtain rfl := Option.some.inj hreset
    intro k path content hread
    obtain ⟨hread, hsince⟩ := current_quiet (by simp) hread
    change s.files path = (lastWrite path (since k (isRead path) (_ :: log))).getD _
    rw [hsince, lastWrite_cons rfl]
    exact h k path content hread
  env event s s' log h _ henv := by
    intro k path content hread
    obtain ⟨hread, hsince⟩ := current_quiet (by simp) hread
    change s'.files path = (lastWrite path (since k (isRead path) (_ :: log))).getD _
    rw [hsince]
    cases event with
    | setClock t =>
      obtain rfl := Option.some.inj henv
      rw [lastWrite_cons rfl]
      exact h k path content hread
    | write p written =>
      simp only [system, env] at henv
      split at henv
      · contradiction
      · obtain rfl := Option.some.inj henv
        by_cases hp : p = path
        · subst hp
          simp [lastWrite, writeTo]
        · rw [lastWrite_cons (by simp [writeTo, hp])]
          simpa [Function.update_of_ne (Ne.symm hp)] using h k path content hread

end Steps

end ElevateGate.Agent
