import ElevateGate.Agent.Effects
import ElevateGate.Agent.Evidence

/-!
# What a submission has read before it is sent

A submission reads the facts about its file one after the other, each time through the path. What
it sends is made of the answers.
-/

namespace ElevateGate.Agent

open Interaction Time Text

/-- The trust status that the answer of `WinVerifyTrust` is reported as. -/
def trustOf : Throws Int → SignatureTrustStatus
  | .ok result => WindowsAuthenticodeInspector.trustStatus result
  | .error _ => .unknown

/-- The signature that is reported. The signer is not asked for where the file is unsigned. -/
def signatureOf (trust : Throws Int) (signer : Option (Throws (String × String))) :
    SignatureInfo where
  trustStatus := trustOf trust
  publisherCommonName := (signer.bind Except.toOption).map Prod.fst
  certificateThumbprint := (signer.bind Except.toOption).map Prod.snd

/-- The deed that has asked for the signer, if it was asked for. -/
def signerDeeds (path : String) (s : State) (signer : Option (Throws (String × String))) :
    List Deed :=
  signer.toList.map fun answer => ⟨s, .signerCertificate path, answer⟩

/-- What a submission has read about a file: the content that was hashed and the answers to the
other questions, with the states in which the file was asked about. -/
structure Reading where
  content : List UInt8
  fileVersion : Throws (Option String)
  trust : Throws Int
  signer : Option (Throws (String × String))
  length : Nat
  atOpen : State
  atRead : State
  atClose : State
  atVersion : State
  atTrust : State
  atSigner : State
  atLength : State

namespace Reading

variable (r : Reading)

/-- The deeds between the hash and the length, the latest first. -/
def questions (path : String) : List Deed :=
  signerDeeds path r.atSigner r.signer ++
    [⟨r.atTrust, .winVerifyTrust path, r.trust⟩, ⟨r.atVersion, .fileVersion path, r.fileVersion⟩]

/-- The deeds of the thread, the latest first. -/
def deeds (path : String) : List Deed :=
  ⟨r.atLength, .fileLength path, .ok r.length⟩ ::
    (r.questions path ++ hashing path r.content r.atOpen r.atRead r.atClose)

/-- The metadata that are reported. -/
def metadata (casing : Casing) (path : String) : FileMetadata where
  fileName := fileName path
  fullPath := path
  sizeBytes := r.length
  fileVersion := r.fileVersion.toOption.join
  sha256Hex := hashText casing r.content

end Reading

/-- The protocol of the submissions: what is sent about a file was read right before, and a request
that is sent has the identifier that was drawn for it. -/
def Reported (casing : Casing) (done : List Deed) : Op → Prop
  | .sendRequest _ request => ∃ (r : Reading) (path : String) (new before : List Deed),
    done = new ++ (r.deeds path ++ before) ∧ (∀ deed ∈ new, ¬ deed.op.Reads) ∧
      request.file = r.metadata casing path ∧ request.signature = signatureOf r.trust r.signer
  | _ => True

section Rules

variable {host : Host} {P : List Deed → Op → Prop} {done : List Deed} {path : String}

/-- The version is the one that was read, or null where reading it threw. -/
private theorem obeys_tryGetFileVersion (hallowed : P done (.fileVersion path)) :
    Obeys P (fun result after => ∃ s answer,
        after = ⟨s, .fileVersion path, answer⟩ :: done ∧ result = .ok answer.toOption.join)
      done (RequestCoordinator.tryGetFileVersion path) := by
  refine .perform hallowed fun s answer => ?_
  cases answer with
  | error error => exact .pure ⟨s, .error error, rfl, rfl⟩
  | ok version => exact .pure ⟨s, .ok version, rfl, rfl⟩

/-- The trust status is the one of the answer. -/
private theorem obeys_verifyTrust (hallowed : P done (.winVerifyTrust path)) :
    Obeys P (fun result after => ∃ s answer,
        after = ⟨s, .winVerifyTrust path, answer⟩ :: done ∧ result = .ok (trustOf answer))
      done (WindowsAuthenticodeInspector.verifyTrust path) := by
  refine .perform hallowed fun s answer => ?_
  cases answer with
  | error error => exact .pure ⟨s, .error error, rfl, rfl⟩
  | ok result => exact .pure ⟨s, .ok result, rfl, rfl⟩

/-- The signer is the one that was read, or null where reading it threw. -/
private theorem obeys_readSigner (hallowed : P done (.signerCertificate path)) :
    Obeys P (fun result after => ∃ s answer,
        after = ⟨s, .signerCertificate path, answer⟩ :: done ∧ result = .ok answer.toOption)
      done (WindowsAuthenticodeInspector.readSigner path) := by
  refine .perform hallowed fun s answer => ?_
  cases answer with
  | error error => exact .pure ⟨s, .error error, rfl, rfl⟩
  | ok signer => exact .pure ⟨s, .ok signer, rfl, rfl⟩

/-- The signature is made of the answers of the one or two reads. -/
private theorem obeys_inspect (hallowed : ∀ done o, o.Reads → P done o) :
    Obeys P (fun result after => ∃ trust signer s s',
        after = signerDeeds path s' signer ++ ⟨s, .winVerifyTrust path, trust⟩ :: done ∧
          result = .ok (signatureOf trust signer))
      done (WindowsAuthenticodeInspector.inspect path) := by
  refine (obeys_verifyTrust (hallowed _ _ trivial)).bind ?_ ?_
  · rintro trustStatus _ ⟨s, trust, rfl, heq⟩
    obtain rfl := Except.ok.inj heq
    refine .ite (fun hunsigned => .pure ?_) fun _ => ?_
    · exact ⟨trust, none, s, s, rfl, by rw [signatureOf, hunsigned]; rfl⟩
    · refine (obeys_readSigner (hallowed _ _ trivial)).bind ?_ ?_
      · rintro signer _ ⟨s', answer, rfl, heq⟩
        obtain rfl := Except.ok.inj heq
        exact .pure ⟨trust, some answer, s, s', rfl, rfl⟩
      · rintro error _ ⟨s', answer, rfl, heq⟩
        contradiction
  · rintro error _ ⟨s, trust, rfl, heq⟩
    contradiction

/-- What is returned about a file was read from it. -/
theorem obeys_readFile (hallowed : ∀ done o, o.Reads → P done o) :
    Obeys P (fun result after => ∀ metadata signature, result = .ok (metadata, signature) →
        ∃ r : Reading, after = r.deeds path ++ done ∧ metadata = r.metadata host.casing path ∧
          signature = signatureOf r.trust r.signer)
      done (RequestCoordinator.readFile host path) := by
  refine (obeys_computeHexAsync ?_).bind ?_ fun _ _ _ _ _ heq => by contradiction
  · rintro done o (rfl | rfl | rfl) <;> exact hallowed _ _ trivial
  · intro hash after hhash
    obtain ⟨content, s1, s2, s3, rfl, rfl⟩ := hhash hash rfl
    refine (obeys_tryGetFileVersion (hallowed _ _ trivial)).bind ?_ ?_
    · rintro version _ ⟨s4, fileVersion, rfl, heq⟩
      obtain rfl := Except.ok.inj heq
      refine (obeys_inspect hallowed).bind ?_ ?_
      · rintro signature _ ⟨trust, signer, s5, s6, rfl, heq⟩
        obtain rfl := Except.ok.inj heq
        refine .perform (hallowed _ _ trivial) fun s7 answer => ?_
        cases answer with
        | error error => exact .throw fun _ _ heq => by contradiction
        | ok length =>
          refine .pure fun metadata signature heq => ?_
          obtain ⟨rfl, rfl⟩ := Prod.mk.inj (Except.ok.inj heq)
          exact ⟨⟨content, fileVersion, trust, signer, length, s1, s2, s3, s4, s5, s6, s7⟩,
            by simp [Reading.deeds, Reading.questions], rfl, rfl⟩
      · rintro error _ ⟨_, _, _, _, _, heq⟩
        contradiction
    · rintro error _ ⟨_, _, _, heq⟩
      contradiction

/-- What is sent was read from the file. -/
private theorem abides_submitFile {reason : String} :
    Abides (Reported host.casing) (RequestCoordinator.submitFile host path reason) := by
  have hreads : ∀ done o, o.Reads → Reported host.casing done o := by
    intro done o ho
    cases o <;> first | exact True.intro | exact ho.elim
  refine fun done => .perform trivial fun s0 received => ?_
  cases received with
  | error error => exact .throw trivial
  | ok credential =>
    refine (obeys_readFile hreads).bind ?_ fun _ _ _ => trivial
    rintro ⟨metadata, signature⟩ after hread
    obtain ⟨r, rfl, rfl, rfl⟩ := hread _ _ rfl
    refine .op_bind trivial fun s1 guid => .op_bind trivial fun s2 now => ?_
    refine .op_bind trivial fun s3 _ => ?_
    refine Obeys.bind (Q := fun _ _ => True) ?_ ?_ fun _ _ _ => trivial
    · refine Obeys.tryCatch (Q := fun _ _ => True) ?_ ?_ ?_
      · refine .perform ?_ fun s4 _ => .perform trivial fun s5 submitted => ?_
        · refine ⟨r, path, [_, _, _], _, rfl, ?_, rfl, rfl⟩
          intro deed hdeed
          simp only [List.mem_cons, List.not_mem_nil, or_false] at hdeed
          rcases hdeed with rfl | rfl | rfl <;> exact id
        · cases submitted with
          | error error => exact .throw trivial
          | ok _ => exact .pure trivial
      · exact fun _ _ _ => trivial
      · intro error after _
        refine .perform trivial fun s4 updated => ?_
        cases updated with
        | error error => exact .throw trivial
        | ok _ => exact .pure trivial
    · intro submitted after _
      refine Obeys.ite (fun _ => .pure trivial) fun _ => ?_
      refine .perform trivial fun s4 now => .perform trivial fun s5 recorded => ?_
      cases recorded with
      | error error => exact .throw trivial
      | ok _ => exact .pure trivial

/-- Every call reports what it has read. -/
theorem follows_reported {accepts : Tid → Call → Bool} :
    (system host accepts).Follows fun _ => Reported host.casing := by
  refine follows_of_submits (fun rawFilePath reason => ?_) ?_ ?_
  · refine fun done => .ite (fun _ => .pure trivial) fun _ => .ite (fun _ => .pure trivial) fun _ => ?_
    refine (obeys_validate fun _ => trivial).bind ?_ fun _ _ _ => trivial
    intro outcome after _
    cases outcome with
    | invalid rejection =>
      refine .perform trivial fun s now => .perform trivial fun s' recorded => ?_
      cases recorded with
      | error error => exact .throw trivial
      | ok _ => exact .pure trivial
    | valid canonicalPath =>
      dsimp only
      refine .ite (fun _ => .pure trivial) fun _ => .perform trivial fun s found => ?_
      exact .ite (fun _ => .pure trivial) fun _ => abides_submitFile _
  · intro done o ho
    cases o <;> first | exact True.intro | exact ho.elim
  · intro token requestId deviceId done o ho
    cases o <;> first | exact True.intro | exact ho.elim

end Rules

end ElevateGate.Agent
