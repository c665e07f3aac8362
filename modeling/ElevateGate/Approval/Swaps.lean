import ElevateGate.Agent.Swaps
import ElevateGate.Approval.Authority

/-!
# What is started is what was approved

Between the hash of a file and the start of its process the file is closed, and the token is
validated. A user who replaces the file meanwhile decides what is started.
-/

namespace ElevateGate.Agent

open Interaction Time Text

/-- Whether a file has the digest that a token names. -/
def hasHash (casing : Casing) (sha256Hex : Option String) (content : Content) : Bool :=
  content.any fun bytes => sha256Hex.any (equalsOrdinalIgnoreCase casing · (hashText casing bytes))

section Start

variable {host : Host} {accepts : Tid → Call → Bool}

/-- The file that is about to be started has the digest that the token names exactly if what the
last write since the file was hashed has left, if there was one, has it. -/
theorem started_file_approved_iff {s : State} {labels : List (Label Tid Choice Event Call)}
    {c : Config Op Res ClrException Answer Tid Call (Recorded Op Res Tid Event State)}
    {i : Tid} {call : Call} {startInfo : ProcessStartInfo} {authority : Authority}
    {next : Res (.startProcess startInfo authority) → Service Answer}
    (hrun : ((system host accepts).recorded .free).run labels (System.init ⟨s, []⟩) = some c)
    (hthread : c.thread i = some (call, .perform (.startProcess startInfo authority) next)) :
    hasHash host.casing authority.token.sha256Hex (c.shared.state.files authority.canonicalPath) =
        true ↔
      ∀ content, lastWrite authority.canonicalPath
          (since i (isRead authority.canonicalPath) c.shared.log) = some content →
        hasHash host.casing authority.token.sha256Hex content = true := by
  have hstart : Current ⟨s, []⟩ := fun _ _ _ hread => by contradiction
  obtain ⟨hobedient, hcurrent⟩ :=
    recorded_run (follows_justified host accepts) preserved_current (obedient_init _) hstart hrun
  obtain ⟨-, ⟨e, hdeeds, hchecked⟩, -⟩ :
      Justified host call (mine i c.shared.log) (.startProcess startInfo authority) := by
    cases hobedient i call _ hthread with
    | perform allowed rest => exact allowed
  have hread : (mine i c.shared.log).findSome? (readOf authority.canonicalPath) =
      some (.ok e.content) := by
    rw [hdeeds]
    simp [Evidence.deeds, validation, hashing, readOf, List.findSome?_cons]
  -- the content that was hashed passed the check
  have hhashed : hasHash host.casing authority.token.sha256Hex (some e.content) = true := by
    obtain ⟨sha256Hex, htoken, hequals⟩ := hchecked.sha256Hex
    simpa [hasHash, htoken] using hequals
  rw [hcurrent i _ _ hread]
  cases lastWrite authority.canonicalPath
    (since i (isRead authority.canonicalPath) c.shared.log) with
  | none => simpa using hhashed
  | some content => simp

end Start

/-! ## A swap -/

namespace Sample

/-- The user writes the file after it was hashed. -/
def swap (content : Content) : List (Label Tid Choice Event Call) :=
  execution ++ [.env (.write path content)]

/-- What is about to be performed in the end, what the last write since the hash has left, and what the
file holds. -/
def started (labels : List (Label Tid Choice Event Call)) : Option (Op × Option Content × Content) :=
  (((system host anyCall).recorded .free).run labels (System.init ⟨state, []⟩)).bind fun c =>
    (c.thread 1).bind fun entry => entry.2.pending.map fun o =>
      (o, lastWrite authority.canonicalPath (since 1 (isRead authority.canonicalPath) c.shared.log),
        c.shared.state.files authority.canonicalPath)

/-- A process that is about to be started. -/
theorem run_started {labels : List (Label Tid Choice Event Call)} {written : Option Content}
    {content : Content}
    (h : started labels = some (.startProcess startInfo authority, written, content)) :
    ∃ c call, ∃ next : Res (.startProcess startInfo authority) → Service Answer,
      ((system host anyCall).recorded .free).run labels (System.init ⟨state, []⟩) = some c ∧
        c.thread 1 = some (call, .perform (.startProcess startInfo authority) next) ∧
        lastWrite authority.canonicalPath
          (since 1 (isRead authority.canonicalPath) c.shared.log) = written ∧
        c.shared.state.files authority.canonicalPath = content := by
  obtain ⟨c, hc, hentry⟩ := Option.bind_eq_some_iff.mp h
  obtain ⟨⟨call, program⟩, hthread, hpending⟩ := Option.bind_eq_some_iff.mp hentry
  obtain ⟨o, ho, heq⟩ := Option.map_eq_some_iff.mp hpending
  obtain ⟨rfl, hrest⟩ := Prod.mk.inj heq
  obtain ⟨hwritten, hcontent⟩ := Prod.mk.inj hrest
  obtain ⟨next, rfl⟩ := Program.pending_eq_some.mp ho
  exact ⟨c, call, next, hc, hthread, hwritten, hcontent⟩

end Sample

/-- A process is about to be started from a file that was written with the approved content after it was
hashed. -/
theorem started_file_approved_iff_sample :
    ∃ c call, ∃ next : Res (.startProcess Sample.startInfo Sample.authority) → Service Answer,
      ((system Sample.host anyCall).recorded .free).run (Sample.swap (some []))
        (System.init ⟨Sample.state, []⟩) = some c ∧
      c.thread 1 = some (call, .perform (.startProcess Sample.startInfo Sample.authority) next) ∧
      lastWrite Sample.authority.canonicalPath
        (since 1 (isRead Sample.authority.canonicalPath) c.shared.log) = some (some []) ∧
      hasHash Sample.host.casing Sample.authority.token.sha256Hex
        (c.shared.state.files Sample.authority.canonicalPath) = true := by
  obtain ⟨c, call, next, hrun, hthread, hwritten, -⟩ :=
    Sample.run_started (show Sample.started (Sample.swap (some [])) =
      some (_, some (some []), some []) by decide +kernel)
  refine ⟨c, call, next, hrun, hthread, hwritten,
    (started_file_approved_iff hrun hthread).mpr fun content hcontent => ?_⟩
  obtain rfl : some [] = content := Option.some.inj (hwritten.symm.trans hcontent)
  decide +kernel

/-- A process is about to be started from a file that was swapped after it was hashed. -/
theorem swapped_file_started :
    ∃ c call, ∃ next : Res (.startProcess Sample.startInfo Sample.authority) → Service Answer,
      ((system Sample.host anyCall).recorded .free).run (Sample.swap (some [77, 90]))
        (System.init ⟨Sample.state, []⟩) = some c ∧
      c.thread 1 = some (call, .perform (.startProcess Sample.startInfo Sample.authority) next) ∧
      hasHash Sample.host.casing Sample.authority.token.sha256Hex
        (c.shared.state.files Sample.authority.canonicalPath) = false := by
  obtain ⟨c, call, next, hrun, hthread, -, hcontent⟩ :=
    Sample.run_started (show Sample.started (Sample.swap (some [77, 90])) =
      some (_, some (some [77, 90]), some [77, 90]) by decide +kernel)
  refine ⟨c, call, next, hrun, hthread, ?_⟩
  rw [hcontent]
  decide +kernel

end ElevateGate.Agent
