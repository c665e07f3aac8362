import ElevateGate.Agent.Ledger
import ElevateGate.Backend.Consistency

/-!
# The authority behind an execution

The agent starts a process only for a token whose payload the backend signed. Since a payload
determines the fields that it was built from, the token says what the backend approved.
-/

namespace ElevateGate

open Interaction Time Text

variable {casing casing' : Casing}

/-- What the agent and the backend wrote into one payload is the same. -/
theorem fields_of_payload {deviceId requestId sha256Hex nonce : Option String}
    {expiresAtUtc : DateTimeOffset} {deviceUuid requestUuid sha256 nonce' : String}
    {expiresAt : Datetime} {payload : List UInt8}
    (hagent : CanonicalApprovalPayload.build casing deviceId requestId sha256Hex expiresAtUtc nonce
      = .ok payload)
    (hbackend : Signing.buildCanonicalPayload casing' deviceUuid requestUuid sha256 expiresAt nonce'
      = .ok payload) :
    deviceId = some deviceUuid ∧ requestId = some requestUuid ∧ nonce = some nonce' ∧
      expiresAtUtc.utcTicks = 10 * expiresAt.micros ∧
      ∃ text, sha256Hex = some text ∧ toLowerInvariant casing text = casing'.lower sha256 := by
  obtain ⟨d, r, s, n, rfl, rfl, rfl, rfl, hencode⟩ := build_eq_ok.mp hagent
  have hfields := PayloadFields.encode_injective hencode (buildCanonicalPayload_eq_ok.mp hbackend)
  simp only [agentFields, backendFields, PayloadFields.mk.injEq] at hfields
  obtain ⟨rfl, rfl, hsha256, hexpires, rfl⟩ := hfields
  exact ⟨rfl, rfl, rfl, utcTicks_of_format_eq hexpires.symm, s, rfl, hsha256⟩

/-- The text of a digest is hexadecimal. -/
theorem Agent.isHex_hashText (content : List UInt8) :
    isHex (Agent.hashText casing content) = true := by
  rw [Agent.hashText, toLowerInvariant_eq_lower (isHex_toHexString _)]
  exact isHex_lower (isHex_toHexString _)

/-- A digest whose lower-cased text the token carries equals, ignoring case, whatever the token's
digest equals. -/
theorem equals_of_lower_eq {text hash : String} {digest : Sha256Hex}
    (hlower : toLowerInvariant casing text = casing'.lower digest.text)
    (hhash : isHex hash = true) (h : equalsOrdinalIgnoreCase casing text hash = true) :
    equalsOrdinalIgnoreCase casing digest.text hash = true := by
  have htext := isHex_of_equals hhash h
  rw [equals_iff_toLowerInvariant_eq digest.isHex_text hhash,
    ← (equals_iff_toLowerInvariant_eq htext hhash).mp h, hlower,
    toLowerInvariant_eq_lower digest.isHex_text, lower_congr digest.isHex_text]

namespace Agent

/-- An issuance of the backend authorizes an execution for which there is evidence: it is for the
request and the device of the execution, for the digest of the content that was read, with the
nonce and the expiry of the token; when the token was checked it had not expired; and up to the
insertion of the nonce the thread has not met the nonce in the ledger. -/
structure Authorized (host : Host) (issuance : Backend.Issuance) (authority : Authority)
    (e : Evidence) : Prop where
  request : issuance.elevationRequest.requestUuid.textD = authority.expectedRequestId
  device : issuance.device.deviceUuid.textD = authority.deviceId
  read : e.atRead.files authority.canonicalPath = some e.content
  sha256 : equalsOrdinalIgnoreCase host.casing issuance.elevationRequest.sha256.text
    (hashText host.casing e.content) = true
  nonce : authority.token.nonce = some issuance.nonce
  expiry : authority.token.expiresAtUtc.utcTicks = 10 * issuance.expiresAt.micros
  unexpired : e.atClock.clock < authority.token.expiresAtUtc
  fresh : ∀ deed ∈ (e.deeds authority.canonicalPath).drop 1, issuance.nonce ∉ deed.before.ledger

section Execution

variable {host : Host} {accepts : Tid → Call → Bool}

/-- Along a thread's deeds the ledger only grows, so a nonce that is inserted was in no earlier
state. -/
private theorem fresh_of_inserted {log : Log} {s : State} {i : Tid} (latest : Deed)
    {older : List Deed} {before : State} {nonce : String} (h : Recounted host ⟨s, log⟩)
    (hmine : mine i log = latest :: ⟨before, .insertNonce nonce, .ok 1⟩ :: older) :
    ∀ deed ∈ (⟨before, .insertNonce nonce, .ok 1⟩ :: older : List Deed),
      nonce ∉ deed.before.ledger := by
  have hmem : (⟨before, .insertNonce nonce, .ok 1⟩ : Deed) ∈ mine i log := by simp [hmine]
  obtain ⟨choice, after, hperform⟩ := h.genuine i _ (mem_log_of_mem_mine hmem)
  have hfresh := (perform_insertNonce hperform).1
  have hordered := h.ordered i
  rw [hmine, List.pairwise_cons, List.pairwise_cons] at hordered
  rintro deed hdeed hin
  rcases List.mem_cons.mp hdeed with rfl | hdeed
  · exact hfresh hin
  · exact hfresh (hordered.2.1 deed hdeed hin)

/-- Execution authority: a thread that is about to start a process does so for a request, a device
and a file that the backend approved, with a token that was neither expired nor used. -/
theorem execution_authority {s : State} {labels : List (Label Tid Choice Event Call)}
    {c : Config Op Res ClrException Answer Tid Call (Recorded Op Res Tid Event State)}
    {i : Tid} {call : Call} {startInfo : ProcessStartInfo} {authority : Authority}
    {next : Res (.startProcess startInfo authority) → Service Answer}
    {deployment : Backend.Deployment} {database : Backend.State}
    {backendLabels : List (Label Backend.Sid Backend.Choice Backend.Event Backend.Call)}
    {backend : Config Backend.Op Backend.Res PyError Backend.Answer Backend.Sid Backend.Call
      Backend.State}
    (hrun : ((system host accepts).recorded .free).run labels (System.init ⟨s, []⟩) = some c)
    (hthread : c.thread i = some (call, .perform (.startProcess startInfo authority) next))
    (hinitial : database.Initial)
    (hbackend : (Backend.system deployment).run backendLabels (System.init database) = some backend)
    (hunforgeable : ∀ message signature, host.verify message signature = true →
      ∃ issuance, (issuance, message) ∈ backend.shared.signed) :
    authority.OfCall call ∧ ∃ issuance payload e, (issuance, payload) ∈ backend.shared.signed ∧
      mine i c.shared.log = e.deeds authority.canonicalPath ∧
      Authorized host issuance authority e := by
  obtain ⟨hobedient, hrecounted⟩ := recounted_run hrun
  obtain ⟨hcall, ⟨e, hdeeds, hchecked⟩, -⟩ :
      Justified host call (mine i c.shared.log) (.startProcess startInfo authority) := by
    cases hobedient i call _ hthread with
    | perform allowed rest => exact allowed
  obtain ⟨payload, hbuild, hverify⟩ := hchecked.signature
  obtain ⟨issuance, hissued⟩ := hunforgeable payload _ hverify
  have hinv := (Backend.reachable_inv hinitial hbackend
    (show (Backend.system deployment).run [] _ = _ from rfl)).1
  obtain ⟨hdevice, hrequest, hnonce, hexpiry, text, htext, hlower⟩ :=
    fields_of_payload hbuild (hinv.signed issuance payload hissued)
  obtain ⟨text', htext', hequals⟩ := hchecked.sha256Hex
  obtain rfl : text' = text := Option.some.inj (htext'.symm.trans htext)
  -- the deeds are genuine, so their answers speak about the states that they found
  have hgenuine : ∀ deed ∈ e.deeds authority.canonicalPath, ∃ choice after,
      perform host i deed.op choice deed.before = some (deed.answer, after) := fun deed hdeed =>
    hrecounted.genuine i deed (mem_log_of_mem_mine (hdeeds ▸ hdeed))
  obtain ⟨_, _, hread⟩ := hgenuine ⟨e.atRead, .readAll authority.canonicalPath, .ok e.content⟩
    (by simp [Evidence.deeds, validation, hashing])
  obtain ⟨_, _, hclock⟩ := hgenuine ⟨e.atClock, .utcNow, e.now⟩
    (by simp [Evidence.deeds, validation])
  have hsame : e.nonce = issuance.nonce := Option.some.inj (hchecked.nonce.symm.trans hnonce)
  have hfresh : ∀ deed ∈ (e.deeds authority.canonicalPath).drop 1,
      e.nonce ∉ deed.before.ledger :=
    fresh_of_inserted ⟨e.atValid, .note (.valid (some e.nonce)), ()⟩ hrecounted hdeeds
  refine ⟨hcall, issuance, payload, e, hissued, hdeeds, ?_⟩
  exact
    { request := Option.some.inj (hrequest.symm.trans hchecked.requestId)
      device := Option.some.inj (hdevice.symm.trans hchecked.deviceId)
      read := perform_readAll hread
      sha256 := equals_of_lower_eq hlower (isHex_hashText _) hequals
      nonce := hnonce
      expiry := hexpiry
      unexpired := perform_utcNow hclock ▸ hchecked.unexpired
      fresh := hsame ▸ hfresh }

end Execution

/-! ## A run

The backend has approved a request, and the agent executes the token of the approval. -/

namespace Sample

open Backend.Sample (noon deviceUuid requestUuid emptyDigest)

/-- When the approval expires. -/
def expiresAt : Datetime := ⟨noon.micros + 300000000, by decide⟩

/-- The nonce of the approval. -/
def nonce : String := String.ofList (Base64.encode .urlSafe (List.replicate 24 7))

/-- The payload that the backend signs. -/
def payload : List UInt8 :=
  (Signing.buildCanonicalPayload .ascii deviceUuid.textD requestUuid.textD emptyDigest.text
    expiresAt nonce).toOption.getD []

/-- The signature of the payload. -/
def signature : List UInt8 := Backend.Sample.deployment.sign payload

/-- A host that has pinned the backend's key. -/
def host : Host where
  casing := .ascii
  serverPublicKey := List.replicate 32 1
  verifySignature _ message signature' := decide (message = payload) && signature' == signature
  fileVersion _ := none
  winVerifyTrust _ := 0
  signer _ := none

/-- The path of the file, which is empty. -/
def path : String := "C:\\Downloads\\setup.exe"

/-- The token of the approval. -/
def token : ApprovalToken where
  deviceId := deviceUuid.textD
  requestId := requestUuid.textD
  sha256Hex := emptyDigest.text
  expiresAtUtc := .utc (10 * expiresAt.micros) (by decide)
  nonce := nonce
  signature := signature

/-- The agent at noon. -/
def state : State where
  clock := .utc (10 * noon.micros) (by decide)
  files p := if p = path then some [] else none
  handles := []
  ledger := []
  requests _ := none
  drawn := []
  credential := ⟨deviceUuid.textD, deviceUuid.textD ++ ".secret"⟩
  audit := []

/-- What the execution is called with. -/
def authority : Authority := ⟨token, requestUuid.textD, path, deviceUuid.textD⟩

/-- What is started. -/
def startInfo : ProcessStartInfo := ⟨path, [], false⟩

/-- The steps of an execution of the token up to the start of the process. -/
def execution : List (Label Tid Choice Event Call) :=
  [.spawn 1 (.execute token requestUuid.textD path deviceUuid.textD),
    .perform 1 (.drive .fixed)] ++ List.replicate 7 (.perform 1 .unit)

/-- The execution is about to start the process. -/
theorem run_execution :
    ∃ c call, ∃ next : Res (.startProcess startInfo authority) → Service Answer,
      ((system host anyCall).recorded .free).run execution (System.init ⟨state, []⟩) = some c ∧
        c.thread 1 = some (call, .perform (.startProcess startInfo authority) next) := by
  have hrun : (((system host anyCall).recorded .free).run execution
      (System.init ⟨state, []⟩)).bind (fun c => (c.thread 1).bind fun entry => entry.2.pending) =
        some (.startProcess startInfo authority) := by
    decide +kernel
  obtain ⟨c, hc, hpending⟩ := Option.bind_eq_some_iff.mp hrun
  obtain ⟨⟨call, program⟩, hthread, hprogram⟩ := Option.bind_eq_some_iff.mp hpending
  obtain ⟨next, rfl⟩ := Program.pending_eq_some.mp hprogram
  exact ⟨c, call, next, hc, hthread⟩

/-- The backend has signed the payload, and the host accepts no other. -/
theorem run_signed :
    ∃ backend, (Backend.system Backend.Sample.deployment).run
        (Backend.Sample.submission ++ Backend.Sample.approval)
        (System.init Backend.Sample.database) = some backend ∧
      ∀ message signature', host.verify message signature' = true →
        ∃ issuance, (issuance, message) ∈ backend.shared.signed := by
  have hrun : ((Backend.system Backend.Sample.deployment).run
      (Backend.Sample.submission ++ Backend.Sample.approval)
      (System.init Backend.Sample.database)).map (fun c => c.shared.signed.map Prod.snd) =
        some [payload] := by
    decide +kernel
  obtain ⟨backend, hbackend, hsigned⟩ := Option.map_eq_some_iff.mp hrun
  refine ⟨backend, hbackend, fun message signature' hverify => ?_⟩
  obtain rfl : message = payload := by
    simp only [Host.verify, host, Bool.and_eq_true, decide_eq_true_eq] at hverify
    exact hverify.2.1
  obtain ⟨⟨issuance, _⟩, hmem, rfl⟩ := List.mem_map.mp (hsigned ▸ List.mem_singleton_self payload)
  exact ⟨issuance, hmem⟩

end Sample

/-- Such a run is the approval of a request and the execution of its token. -/
theorem execution_authority_sample :
    ∃ issuance e, Authorized Sample.host issuance Sample.authority e := by
  obtain ⟨c, call, next, hrun, hthread⟩ := Sample.run_execution
  obtain ⟨backend, hbackend, hunforgeable⟩ := Sample.run_signed
  obtain ⟨-, issuance, payload, e, -, -, hauthorized⟩ := execution_authority hrun hthread
    Backend.Sample.database_initial hbackend hunforgeable
  exact ⟨issuance, e, hauthorized⟩

end Agent

end ElevateGate
