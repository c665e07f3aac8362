import ElevateGate.Agent.Submission
import ElevateGate.Agent.Swaps
import ElevateGate.Approval.Lookup

/-!
# A submission describes one file

A submission asks about its file four or five times. If nobody changes the file between the first
and the last time, the answers are facts about one content. If the user swaps it, the hash may be
the hash of one file and the signature that of another.
-/

namespace ElevateGate.Agent

open Interaction Time Text

/-- What a request says about a file is what reading one content of it may yield: a version or a
signer that cannot be read is null, and a trust status that cannot be determined is unknown. -/
structure Describes (host : Host) (content : List UInt8) (metadata : FileMetadata)
    (signature : SignatureInfo) : Prop where
  sha256Hex : metadata.sha256Hex = hashText host.casing content
  sizeBytes : metadata.sizeBytes = content.length
  fileVersion : metadata.fileVersion = host.fileVersion content ∨ metadata.fileVersion = none
  trustStatus : signature.trustStatus =
      WindowsAuthenticodeInspector.trustStatus (host.winVerifyTrust content) ∨
    signature.trustStatus = .unknown
  signer : (signature.publisherCommonName = none ∧ signature.certificateThumbprint = none) ∨
    ∃ signer, host.signer content = some signer ∧
      signature.publisherCommonName = some signer.1 ∧
      signature.certificateThumbprint = some signer.2

/-- Whether a deed has asked for the length of the file at a path. -/
def isLength (path : String) : Deed → Bool
  | ⟨_, .fileLength p, _⟩ => decide (p = path)
  | _ => false

/-- The steps between the hash of a file and the question for its length. -/
def inspection (i : Tid) (path : String) (log : Log) : Log :=
  since i (isRead path) (before i (isLength path) log)

/-- During the inspection of a file every write leaves the content that was hashed. -/
def Undisturbed (i : Tid) (path : String) (log : Log) : Prop :=
  ∀ content written, (mine i log).findSome? (readOf path) = some (.ok content) →
    .happened (.write path written) ∈ inspection i path log → written = some content

section Answers

variable {host : Host} {i : Tid} {choice : Choice} {s s' : State} {path : String}
  {content : List UInt8}

/-- A file's length is the length of its content. -/
private theorem length_of_files {length : Nat} (hfile : s.files path = some content)
    (h : perform host i (.fileLength path) choice s = some (.ok length, s')) :
    length = content.length := by
  cases choice with
  | unit =>
    have hinspect := (Prod.mk.inj (Option.some.inj h)).1
    obtain ⟨content', hfile', heq⟩ := inspect_eq_ok.mp hinspect
    obtain rfl : content = content' := Option.some.inj (hfile.symm.trans hfile')
    exact (Option.some.inj heq).symm
  | fail error => exact absurd (Prod.mk.inj (Option.some.inj h)).1 (by simp)
  | _ => contradiction

/-- The version that is reported is the version of the content, or null. -/
private theorem version_of_files {answer : Throws (Option String)}
    (hfile : s.files path = some content)
    (h : perform host i (.fileVersion path) choice s = some (answer, s')) :
    answer.toOption.join = host.fileVersion content ∨ answer.toOption.join = none := by
  cases choice with
  | unit =>
    rw [← (Prod.mk.inj (Option.some.inj h)).1]
    exact Or.inl (by simp [State.inspect, hfile, Except.toOption])
  | fail error =>
    rw [← (Prod.mk.inj (Option.some.inj h)).1]
    exact Or.inr rfl
  | _ => contradiction

/-- The trust status that is reported is that of the content, or unknown. -/
private theorem trust_of_files {answer : Throws Int} (hfile : s.files path = some content)
    (h : perform host i (.winVerifyTrust path) choice s = some (answer, s')) :
    trustOf answer = WindowsAuthenticodeInspector.trustStatus (host.winVerifyTrust content) ∨
      trustOf answer = .unknown := by
  cases choice with
  | unit =>
    rw [← (Prod.mk.inj (Option.some.inj h)).1]
    exact Or.inl (by simp [State.inspect, hfile, trustOf])
  | fail error =>
    rw [← (Prod.mk.inj (Option.some.inj h)).1]
    exact Or.inr rfl
  | _ => contradiction

/-- The signer that is reported is the signer of the content, or none. -/
private theorem signer_of_files {answer : Throws (String × String)}
    (hfile : s.files path = some content)
    (h : perform host i (.signerCertificate path) choice s = some (answer, s')) :
    answer.toOption = none ∨ ∃ signer, host.signer content = some signer ∧
      answer.toOption = some signer := by
  cases choice with
  | unit =>
    rw [← (Prod.mk.inj (Option.some.inj h)).1]
    cases hsigner : host.signer content with
    | none => exact Or.inl (by simp [State.inspect, hfile, hsigner, Except.toOption])
    | some signer =>
      exact Or.inr ⟨signer, rfl, by simp [State.inspect, hfile, hsigner, Except.toOption]⟩
  | fail error =>
    rw [← (Prod.mk.inj (Option.some.inj h)).1]
    exact Or.inl rfl
  | _ => contradiction

end Answers

section Submissions

variable {host : Host} {accepts : Tid → Call → Bool}

/-- Where every write since a thread has read a file leaves the content that was read, the file has
that content. -/
private theorem files_of_current {s : State} {log : Log} {i : Tid} {path : String}
    {content : List UInt8} (hcurrent : Current ⟨s, log⟩)
    (hread : (mine i log).findSome? (readOf path) = some (.ok content))
    (hwrites : ∀ written, .happened (.write path written) ∈ since i (isRead path) log →
      written = some content) : s.files path = some content := by
  rw [hcurrent i path content hread]
  cases hwrite : lastWrite path (since i (isRead path) log) with
  | none => rfl
  | some written =>
    obtain ⟨moment, hmem, hmoment⟩ := List.exists_of_findSome?_eq_some hwrite
    exact hwrites written (eq_of_writeTo hmoment ▸ hmem)

/-- So it has at every later deed of the thread. -/
private theorem files_of_deed {r : Recorded Op Res Tid Event State}
    {P : Call → List Deed → Op → Prop} {i : Tid} {path : String} {content : List UInt8}
    {log : Log} {deed : Deed} {new rest : List Deed} (hthroughout : Throughout P Current r)
    (hlog : log <:+ r.log)
    (hwrites : ∀ written, .happened (.write path written) ∈ since i (isRead path) log →
      written = some content)
    (hmine : mine i log = new ++ deed :: rest)
    (hnew : ∀ d ∈ new ++ [deed], isRead path d = false)
    (hread : rest.findSome? (readOf path) = some (.ok content)) :
    deed.before.files path = some content := by
  obtain ⟨older, hsuffix, hrest, hsubset⟩ := since_of_mine hmine hnew
  exact files_of_current (hthroughout i deed older (hsuffix.trans hlog)).1 (hrest ▸ hread)
    fun written hwritten => hwrites written (hsubset hwritten)

/-- What is not among the questions about a file does not read it. -/
private theorem not_isRead_of_not_reads {path : String} {deed : Deed} (h : ¬ deed.op.Reads) :
    isRead path deed = false ∧ isLength path deed = false := by
  obtain ⟨before, op, answer⟩ := deed
  cases op <;> first | exact ⟨rfl, rfl⟩ | exact absurd trivial h

/-- Nor do the questions after the hash. -/
private theorem not_isRead_of_questions {r : Reading} {path : String} :
    ∀ deed ∈ r.questions path, isRead path deed = false := by
  intro deed hdeed
  rcases List.mem_append.mp hdeed with hsigner | hrest
  · obtain ⟨answer, -, rfl⟩ := List.mem_map.mp hsigner
    rfl
  · simp only [List.mem_cons, List.not_mem_nil, or_false] at hrest
    rcases hrest with rfl | rfl <;> rfl

/-- Deeds that do not read a file do not change what was read last. -/
private theorem findSome_readOf {path : String} {new rest : List Deed}
    (hnew : ∀ deed ∈ new, isRead path deed = false) :
    (new ++ rest).findSome? (readOf path) = rest.findSome? (readOf path) := by
  have hnone : new.findSome? (readOf path) = none :=
    List.findSome?_eq_none_iff.mpr fun d hd => by simpa [isRead] using hnew d hd
  rw [List.findSome?_append, hnone, Option.none_or]

/-- In an undisturbed inspection every answer is about the content that was hashed. -/
private theorem files_of_reading {recorded : Recorded Op Res Tid Event State}
    {P : Call → List Deed → Op → Prop} {i : Tid} {path : String} {r : Reading}
    {new older : List Deed} (hthroughout : Throughout P Current recorded)
    (hdeeds : mine i recorded.log = new ++ (r.deeds path ++ older))
    (hnew : ∀ deed ∈ new, ¬ deed.op.Reads) (hundisturbed : Undisturbed i path recorded.log) :
    r.atLength.files path = some r.content ∧
      ∀ deed ∈ r.questions path, deed.before.files path = some r.content := by
  have hhash : (hashing path r.content r.atOpen r.atRead r.atClose ++ older).findSome?
      (readOf path) = some (.ok r.content) := by
    simp [hashing, readOf, List.findSome?_cons]
  have hmine : mine i recorded.log = new ++ ⟨r.atLength, .fileLength path, .ok r.length⟩ ::
      (r.questions path ++ (hashing path r.content r.atOpen r.atRead r.atClose ++ older)) := by
    rw [hdeeds]
    simp [Reading.deeds]
  have hquestions : (r.questions path ++ (hashing path r.content r.atOpen r.atRead r.atClose ++
      older)).findSome? (readOf path) = some (.ok r.content) := by
    rw [findSome_readOf not_isRead_of_questions, hhash]
  have hwrites : ∀ written, .happened (.write path written) ∈ inspection i path recorded.log →
      written = some r.content := by
    refine fun written => hundisturbed r.content written ?_
    rw [hmine, findSome_readOf fun d hd => (not_isRead_of_not_reads (hnew d hd)).1,
      List.findSome?_cons_of_isNone (by rfl), hquestions]
  obtain ⟨hsuffix, hinspected⟩ := before_of_mine hmine (p := isLength path) (by simp [isLength])
    fun d hd => (not_isRead_of_not_reads (hnew d hd)).2
  refine ⟨?_, fun deed hdeed => ?_⟩
  · exact files_of_current (hthroughout i _ _ hsuffix).1 (by rw [hinspected, hquestions]) hwrites
  · obtain ⟨later, earlier, hsplit⟩ := List.append_of_mem hdeed
    rw [hsplit, List.append_assoc, List.cons_append] at hinspected
    have hpart : ∀ d ∈ later ++ [deed] ++ earlier, isRead path d = false := fun d hd =>
      not_isRead_of_questions (r := r) d (by simpa [hsplit] using hd)
    refine files_of_deed hthroughout ((List.suffix_cons _ _).trans hsuffix) hwrites hinspected
      (fun d hd => hpart d (List.mem_append_left _ hd)) ?_
    rw [findSome_readOf fun d hd => hpart d (List.mem_append_right _ hd), hhash]

/-- A request that is about to be sent describes one content of its file, if the file was not
disturbed while it was inspected. -/
theorem request_describes_file {s : State} {labels : List (Label Tid Choice Event Call)}
    {c : Config Op Res ClrException Answer Tid Call (Recorded Op Res Tid Event State)}
    {i : Tid} {call : Call} {bearerToken : String} {request : ApprovalRequest}
    {next : Res (.sendRequest bearerToken request) → Service Answer}
    (hrun : ((system host accepts).recorded .free).run labels (System.init ⟨s, []⟩) = some c)
    (hthread : c.thread i = some (call, .perform (.sendRequest bearerToken request) next))
    (hundisturbed : Undisturbed i request.file.fullPath c.shared.log) :
    ∃ content, Describes host content request.file request.signature := by
  have hstart : Current ⟨s, []⟩ := fun _ _ _ hread => by contradiction
  obtain ⟨hobedient, -, hthroughout⟩ := recorded_run follows_reported
    preserved_current.throughout (obedient_init _) ⟨hstart, throughout_nil s⟩ hrun
  obtain ⟨-, hrecounted⟩ := recounted_run hrun
  obtain ⟨r, path, new, older, hdeeds, hnew, hfile, hsignature⟩ :
      Reported host.casing (mine i c.shared.log) (.sendRequest bearerToken request) := by
    cases hobedient i call _ hthread with
    | perform allowed rest => exact allowed
  rw [hfile] at hundisturbed ⊢
  rw [hsignature]
  obtain ⟨hlength, hquestions⟩ := files_of_reading hthroughout hdeeds hnew hundisturbed
  -- the deeds are genuine, so their answers speak about the content that they found
  have hgenuine : ∀ deed ∈ r.deeds path, ∃ choice after,
      perform host i deed.op choice deed.before = some (deed.answer, after) := fun deed hdeed =>
    hrecounted.genuine i deed (mem_log_of_mem_mine (by simp [hdeeds, hdeed]))
  obtain ⟨_, _, hlength'⟩ := hgenuine ⟨r.atLength, .fileLength path, .ok r.length⟩
    (by simp [Reading.deeds])
  have hquestion : ∀ deed ∈ r.questions path, deed.before.files path = some r.content ∧
      ∃ choice after, perform host i deed.op choice deed.before = some (deed.answer, after) :=
    fun deed hdeed => ⟨hquestions deed hdeed, hgenuine deed (by simp [Reading.deeds, hdeed])⟩
  obtain ⟨hversion, _, _, hversion'⟩ :=
    hquestion ⟨r.atVersion, .fileVersion path, r.fileVersion⟩ (by simp [Reading.questions])
  obtain ⟨htrust, _, _, htrust'⟩ :=
    hquestion ⟨r.atTrust, .winVerifyTrust path, r.trust⟩ (by simp [Reading.questions])
  refine ⟨r.content, rfl, length_of_files hlength hlength', version_of_files hversion hversion',
    trust_of_files htrust htrust', ?_⟩
  cases hanswer : r.signer with
  | none => exact Or.inl ⟨rfl, rfl⟩
  | some answer =>
    obtain ⟨hsigner, _, _, hsigner'⟩ := hquestion ⟨r.atSigner, .signerCertificate path, answer⟩
      (by simp [Reading.questions, signerDeeds, hanswer])
    rcases signer_of_files hsigner hsigner' with hnone | ⟨signer, hsome, hread⟩
    · exact Or.inl (by simp [signatureOf, hnone])
    · exact Or.inr ⟨signer, hsome, by simp [signatureOf, hread], by simp [signatureOf, hread]⟩

end Submissions

/-! ## A swap -/

namespace Sample

open Backend.Sample (requestUuid)

/-- A host on which one file is trusted and every other unsigned. -/
def signingHost : Host :=
  { host with
    winVerifyTrust := fun content => if content = [77, 90] then 0 else 0x800B0100 - 2 ^ 32
    signer := fun content => if content = [77, 90] then some ("Contoso", "AB") else none }

/-- The request that is sent for an unsigned file that is swapped for the trusted one after it was
hashed. -/
def mixedRequest : ApprovalRequest :=
  { request with
    file := { request.file with sizeBytes := 2 }
    signature := ⟨.trusted, some "Contoso", some "AB"⟩ }

/-- The request that is sent for the unsigned file. -/
def unsignedRequest : ApprovalRequest :=
  { request with signature := ⟨.unsigned, none, none⟩ }

/-- The steps of a submission up to the hash of the file. -/
def hashed : List (Label Tid Choice Event Call) :=
  [.spawn 2 (.submit path "installation"), .perform 2 (.drive .fixed)] ++
    List.replicate 5 (.perform 2 .unit)

/-- The other questions, of which an unsigned file is asked one less, and the steps up to the
sending of the request. -/
def asked (questions : Nat) : List (Label Tid Choice Event Call) :=
  List.replicate questions (.perform 2 .unit) ++ [.perform 2 (.guid requestUuid)] ++
    List.replicate 2 (.perform 2 .unit)

/-- The submission inspects a file while the user writes it. -/
def disturbed (written : Content) (questions : Nat) : List (Label Tid Choice Event Call) :=
  hashed ++ .env (.write path written) :: asked questions

/-- What the submission is about to perform, what it has read from the file, and what the user has
written to the file during the inspection. -/
def sending (labels : List (Label Tid Choice Event Call)) :
    Option (Op × Option (List UInt8) × List Content) :=
  (((system signingHost anyCall).recorded .free).run labels (System.init ⟨state, []⟩)).bind
    fun c => (c.thread 2).bind fun entry => entry.2.pending.map fun o =>
      (o, ((mine 2 c.shared.log).findSome? (readOf path)).bind Except.toOption,
        (inspection 2 path c.shared.log).filterMap (writeTo path))

/-- A submission that is about to send its request. -/
theorem run_sending {labels : List (Label Tid Choice Event Call)} {request' : ApprovalRequest}
    {read : Option (List UInt8)} {written : List Content}
    (h : sending labels = some (.sendRequest state.credential.bearerToken request', read, written)) :
    ∃ c call, ∃ next : Res (.sendRequest state.credential.bearerToken request') → Service Answer,
      ((system signingHost anyCall).recorded .free).run labels (System.init ⟨state, []⟩) = some c ∧
        c.thread 2 = some (call,
          .perform (.sendRequest state.credential.bearerToken request') next) ∧
        ((mine 2 c.shared.log).findSome? (readOf path)).bind Except.toOption = read ∧
        (inspection 2 path c.shared.log).filterMap (writeTo path) = written := by
  obtain ⟨c, hc, hentry⟩ := Option.bind_eq_some_iff.mp h
  obtain ⟨⟨call, program⟩, hthread, hpending⟩ := Option.bind_eq_some_iff.mp hentry
  obtain ⟨o, ho, heq⟩ := Option.map_eq_some_iff.mp hpending
  obtain ⟨rfl, hrest⟩ := Prod.mk.inj heq
  obtain ⟨hread, hwritten⟩ := Prod.mk.inj hrest
  obtain ⟨next, rfl⟩ := Program.pending_eq_some.mp ho
  exact ⟨c, call, next, hc, hthread, hread, hwritten⟩

end Sample

/-- A submission of a file that is written with its own content while it is inspected. -/
theorem request_describes_file_sample :
    ∃ c call, ∃ next : Res (.sendRequest Sample.state.credential.bearerToken
        Sample.unsignedRequest) → Service Answer,
      ((system Sample.signingHost anyCall).recorded .free).run (Sample.disturbed (some []) 3)
        (System.init ⟨Sample.state, []⟩) = some c ∧
      c.thread 2 = some (call,
        .perform (.sendRequest Sample.state.credential.bearerToken Sample.unsignedRequest) next) ∧
      .happened (.write Sample.path (some [])) ∈ inspection 2 Sample.path c.shared.log ∧
      ∃ content, Describes Sample.signingHost content Sample.unsignedRequest.file
        Sample.unsignedRequest.signature := by
  obtain ⟨c, call, next, hrun, hthread, hread, hwritten⟩ :=
    Sample.run_sending (show Sample.sending (Sample.disturbed (some []) 3) =
      some (.sendRequest _ Sample.unsignedRequest, some [], [some []]) by decide +kernel)
  refine ⟨c, call, next, hrun, hthread, ?_,
    request_describes_file hrun hthread fun content written hcontent hmem => ?_⟩
  · have hmem : some [] ∈ (inspection 2 Sample.path c.shared.log).filterMap
        (writeTo Sample.path) := hwritten ▸ List.mem_singleton_self _
    obtain ⟨moment, hmoment, hwrites⟩ := List.mem_filterMap.mp hmem
    exact eq_of_writeTo hwrites ▸ hmoment
  · have hfile : (mine 2 c.shared.log).findSome? (readOf Sample.path) = some (.ok content) := hcontent
    rw [hfile] at hread
    obtain rfl : content = [] := Option.some.inj hread
    have hwrites : writeTo Sample.path (.happened (.write Sample.path written)) = some written := by
      simp [writeTo]
    have hall : written ∈ (inspection 2 Sample.path c.shared.log).filterMap
        (writeTo Sample.path) := List.mem_filterMap.mpr ⟨_, hmem, hwrites⟩
    rw [hwritten] at hall
    exact List.mem_singleton.mp hall

/-- A submission reports the hash of an unsigned file together with the signature of a trusted one:
there is no file that its request describes. -/
theorem mixed_request_sent :
    ∃ c call, ∃ next : Res (.sendRequest Sample.state.credential.bearerToken
        Sample.mixedRequest) → Service Answer,
      ((system Sample.signingHost anyCall).recorded .free).run
        (Sample.disturbed (some [77, 90]) 4) (System.init ⟨Sample.state, []⟩) = some c ∧
      c.thread 2 = some (call,
        .perform (.sendRequest Sample.state.credential.bearerToken Sample.mixedRequest) next) ∧
      ∀ content, ¬ Describes Sample.signingHost content Sample.mixedRequest.file
        Sample.mixedRequest.signature := by
  obtain ⟨c, call, next, hrun, hthread, -⟩ :=
    Sample.run_sending (show Sample.sending (Sample.disturbed (some [77, 90]) 4) =
      some (.sendRequest _ Sample.mixedRequest, some [], [some [77, 90]]) by decide +kernel)
  refine ⟨c, call, next, hrun, hthread, fun content hdescribes => ?_⟩
  -- only one file is trusted, and its hash is another
  have htrusted : content = [77, 90] := by
    by_contra hother
    rcases hdescribes.trustStatus with htrust | htrust
    · simp [Sample.mixedRequest, Sample.signingHost, hother,
        WindowsAuthenticodeInspector.trustStatus] at htrust
    · simp [Sample.mixedRequest] at htrust
  have hhash := hdescribes.sha256Hex
  rw [htrusted] at hhash
  exact absurd hhash (by decide +kernel)

end ElevateGate.Agent
