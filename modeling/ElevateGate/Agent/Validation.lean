import ElevateGate.Agent.Execution

/-!
# Validating tokens one after another

What a call of `ValidateAsync` comes to on its own, and what any sequence of calls leaves in the
nonce ledger. A nonce is burned by the first token that carries it and passes the four checks before
the ledger, and by nothing else. A token that is not complete is not rejected: it makes the call
throw.
-/

namespace ElevateGate.Agent

open Interaction Time Text

/-- A call of `ValidateAsync`, and what the clock shows when the call reads it. -/
structure Presentation where
  token : ApprovalToken
  expectedDeviceId : String
  expectedRequestId : String
  currentFileSha256Hex : String
  now : DateTimeOffset

namespace Presentation

variable (host : Host) (p : Presentation)

/-- The bytes that the signature of the token is verified over. -/
def payload : Except ClrException (List UInt8) :=
  CanonicalApprovalPayload.build host.casing p.token.deviceId p.token.requestId p.token.sha256Hex
    p.token.expiresAtUtc p.token.nonce

/-- The texts of the token are there, and none is too long for its length prefix. -/
def Complete : Prop :=
  ∃ deviceId requestId sha256Hex nonce, p.token.deviceId = some deviceId ∧
    p.token.requestId = some requestId ∧ p.token.sha256Hex = some sha256Hex ∧
    p.token.nonce = some nonce ∧
    ∀ text ∈ (agentFields host.casing deviceId requestId sha256Hex p.token.expiresAtUtc nonce).texts,
      (utf8 text).length ≤ 65535

/-- The signature, the device, the request and the expiry are right. -/
structure Passes : Prop where
  signature : ∃ payload, p.payload host = .ok payload ∧ host.verify payload p.token.signature = true
  deviceId : p.token.deviceId = some p.expectedDeviceId
  requestId : p.token.requestId = some p.expectedRequestId
  expiry : ¬ p.token.expiresAtUtc ≤ p.now

/-- The hash of the token is the one of the file, ignoring case. -/
def Matches : Prop :=
  p.token.sha256Hex.any (equalsOrdinalIgnoreCase host.casing · p.currentFileSha256Hex) = true

/-- Carry out a call on its own. -/
def validate (s : State) : Option (Except ClrException ApprovalValidationOutcome × State) :=
  (validateAsync host p.token p.expectedDeviceId p.expectedRequestId p.currentFileSha256Hex).execute
    (fun o s => perform host 0 o .unit s) { s with clock := p.now }

end Presentation

/-- Carry out calls one after the other. -/
def present (host : Host) :
    List Presentation → State → Option (List (Except ClrException ApprovalValidationOutcome) × State)
  | [], s => some ([], s)
  | p :: rest, s => do
    let (result, s) ← p.validate host s
    let (results, s) ← present host rest s
    return (result :: results, s)

section Single

variable {host : Host} {p : Presentation} {s : State}

/-- A token has a payload exactly if it is complete. -/
theorem Presentation.exists_payload_iff :
    (∃ payload, p.payload host = .ok payload) ↔ p.Complete host := by
  constructor
  · rintro ⟨payload, hpayload⟩
    obtain ⟨d, r, h, n, hd, hr, hh, hn, hencode⟩ := build_eq_ok.mp hpayload
    refine ⟨d, r, h, n, hd, hr, hh, hn, fun text htext => ?_⟩
    by_contra hlong
    have hnone := PayloadFields.encode_eq_none.mpr ⟨text, htext, not_le.mp hlong⟩
    rw [hencode] at hnone
    contradiction
  · rintro ⟨d, r, h, n, hd, hr, hh, hn, hshort⟩
    cases hencode : (agentFields host.casing d r h p.token.expiresAtUtc n).encode with
    | none =>
      obtain ⟨text, htext, hlong⟩ := PayloadFields.encode_eq_none.mp hencode
      exact absurd (hshort text htext) (not_le.mpr hlong)
    | some payload => exact ⟨payload, build_eq_ok.mpr ⟨d, r, h, n, hd, hr, hh, hn, hencode⟩⟩

/-- A token that has no payload makes the call throw. -/
theorem Presentation.validate_error {error : ClrException} (h : p.payload host = .error error) :
    p.validate host s = some (.error error, { s with clock := p.now }) := by
  rw [Presentation.payload] at h
  rw [Presentation.validate, validateAsync, h]
  rfl

/-- A token that fails one of the four checks is rejected, and burns nothing. -/
theorem Presentation.validate_rejected {payload : List UInt8} (h : p.payload host = .ok payload)
    (hfails : ¬ p.Passes host) :
    ∃ reason, p.validate host s = some (.ok (.invalid reason), { s with clock := p.now }) := by
  rw [Presentation.payload] at h
  rw [Presentation.validate, validateAsync, h]
  change ∃ reason, Program.execute _ (ite _ _ _) _ = _
  by_cases hsignature : host.verify payload p.token.signature = true
  · rw [if_neg (by simp [hsignature])]
    by_cases hdevice : p.token.deviceId = some p.expectedDeviceId
    · rw [if_neg (not_not.mpr hdevice)]
      by_cases hrequest : p.token.requestId = some p.expectedRequestId
      · rw [if_neg (not_not.mpr hrequest)]
        have hexpired : p.token.expiresAtUtc ≤ p.now := by
          by_contra hfresh
          exact hfails ⟨⟨payload, h, hsignature⟩, hdevice, hrequest, hfresh⟩
        refine ⟨.expired, ?_⟩
        rw [op, Program.execute_op_bind rfl, if_pos hexpired]
        rfl
      · exact ⟨.requestIdMismatch, by rw [if_pos hrequest]; rfl⟩
    · exact ⟨.deviceMismatch, by rw [if_pos hdevice]; rfl⟩
  · exact ⟨.invalidSignature, by rw [if_pos (by simpa using hsignature)]; rfl⟩

/-- What remains of a call after the four checks. -/
private theorem Presentation.validate_passes (h : p.Passes host) :
    p.validate host s = (do
      let nonceWasFresh ← SqliteNonceStore.tryConsumeAsync p.token.nonce
      if !nonceWasFresh then return .invalid .nonceReused
      else if !p.token.sha256Hex.any (equalsOrdinalIgnoreCase host.casing · p.currentFileSha256Hex) then
        return .invalid .hashMismatch
      else
        op (.note (.valid p.token.nonce))
        return .valid : Service ApprovalValidationOutcome).execute
          (fun o s => perform host 0 o .unit s) { s with clock := p.now } := by
  obtain ⟨⟨payload, hpayload, hsignature⟩, hdevice, hrequest, hfresh⟩ := h
  rw [Presentation.payload] at hpayload
  rw [Presentation.validate, validateAsync, hpayload]
  change Program.execute _ (ite _ _ _) _ = _
  rw [if_neg (by simp [hsignature]), if_neg (not_not.mpr hdevice), if_neg (not_not.mpr hrequest), op,
    Program.execute_op_bind rfl, if_neg hfresh]

/-- An empty nonce that passes makes the call throw. -/
theorem Presentation.validate_empty (h : p.Passes host) (hnonce : p.token.nonce = some "") :
    p.validate host s = some (.error (.argument "nonce"), { s with clock := p.now }) := by
  rw [Presentation.validate_passes h, hnonce]
  rfl

/-- Any other nonce that passes is burned, and the call returns whether it was new and the hash is
right. -/
theorem Presentation.validate_consumed (h : p.Passes host) {nonce : String}
    (hnonce : p.token.nonce = some nonce) (hempty : nonce ≠ "") :
    ∃ outcome, p.validate host s =
        some (.ok outcome, ({ s with clock := p.now } : State).insertNonce nonce) ∧
      (outcome = .valid ↔ nonce ∉ s.ledger ∧ p.Matches host) := by
  have hinsert : ∀ f : Throws Nat → Service ApprovalValidationOutcome,
      (op (.insertNonce nonce) >>= f).execute (fun o s => perform host 0 o .unit s)
        { s with clock := p.now } =
      (f (.ok (if nonce ∈ s.ledger then 0 else 1))).execute (fun o s => perform host 0 o .unit s)
        (({ s with clock := p.now } : State).insertNonce nonce) :=
    fun _ => rfl
  rw [Presentation.validate_passes h, hnonce, SqliteNonceStore.tryConsumeAsync, if_neg hempty]
  simp only [orThrow, Program.bind_assoc, hinsert]
  by_cases hused : nonce ∈ s.ledger
  · rw [if_pos hused]
    exact ⟨.invalid .nonceReused, rfl, by simp [hused]⟩
  · rw [if_neg hused]
    by_cases hmatches : p.Matches host
    · refine ⟨.valid, ?_, by simp [hused, hmatches]⟩
      have hany := hmatches
      rw [Presentation.Matches] at hany
      change Program.execute _ (ite _ _ _) _ = _
      rw [if_neg (by simp [hany])]
      rfl
    · refine ⟨.invalid .hashMismatch, ?_, by simp [hmatches]⟩
      have hany := hmatches
      rw [Presentation.Matches] at hany
      change Program.execute _ (ite _ _ _) _ = _
      rw [if_pos (by simpa using hany)]
      rfl

/-- A call returns an outcome exactly if the token is complete and, where it gets as far as the ledger,
its nonce is not empty. -/
theorem Presentation.validate_returns_iff :
    (∃ outcome s', p.validate host s = some (.ok outcome, s')) ↔
      p.Complete host ∧ (p.Passes host → p.token.nonce ≠ some "") := by
  rw [← Presentation.exists_payload_iff]
  cases hpayload : p.payload host with
  | error error =>
    rw [Presentation.validate_error hpayload]
    simp
  | ok payload =>
    by_cases hpasses : p.Passes host
    · obtain ⟨-, -, -, nonce, -, -, -, hnonce, -⟩ :=
        Presentation.exists_payload_iff.mp ⟨payload, hpayload⟩
      by_cases hempty : nonce = ""
      · subst hempty
        rw [Presentation.validate_empty hpasses hnonce]
        simp [hpasses, hnonce]
      · obtain ⟨outcome, hvalidate, -⟩ := Presentation.validate_consumed (s := s) hpasses hnonce hempty
        rw [hvalidate]
        simp [hnonce, hempty]
    · obtain ⟨reason, hvalidate⟩ := Presentation.validate_rejected (s := s) hpayload hpasses
      rw [hvalidate]
      simp [hpasses]

end Single

section Sequences

variable {host : Host} {p : Presentation} {s s' : State} {calls : List Presentation}

/-- The nonce of a token is not in a ledger. -/
def Presentation.Unused (p : Presentation) (ledger : List String) : Prop :=
  ∀ nonce, p.token.nonce = some nonce → nonce ∉ ledger

/-- What one call does to the ledger, and when it returns that the token is valid. -/
theorem Presentation.exists_validate (hnonce : p.token.nonce ≠ some "") (s : State) :
    ∃ result s', p.validate host s = some (result, s') ∧
      (∀ nonce, nonce ∈ s'.ledger ↔ nonce ∈ s.ledger ∨ p.Passes host ∧ p.token.nonce = some nonce) ∧
      (result = .ok .valid ↔ p.Passes host ∧ p.Unused s.ledger ∧ p.Matches host) := by
  by_cases hpasses : p.Passes host
  · obtain ⟨payload, hpayload, -⟩ := hpasses.signature
    obtain ⟨-, -, -, nonce, -, -, -, hsome, -⟩ :=
      Presentation.exists_payload_iff.mp ⟨payload, hpayload⟩
    have hempty : nonce ≠ "" := fun heq => hnonce (heq ▸ hsome)
    obtain ⟨outcome, hvalidate, hvalid⟩ := Presentation.validate_consumed (s := s) hpasses hsome hempty
    refine ⟨.ok outcome, _, hvalidate, fun n => ?_, ?_⟩
    · have hledger : (({ s with clock := p.now } : State).insertNonce nonce).ledger =
          if nonce ∈ s.ledger then s.ledger else nonce :: s.ledger := by
        simp only [State.insertNonce]
        split <;> rfl
      rw [hledger]
      simp only [hpasses, hsome, true_and, Option.some.injEq]
      split
      · next hused =>
        constructor
        · exact Or.inl
        · rintro (hn | rfl)
          · exact hn
          · exact hused
      · rw [List.mem_cons, or_comm, eq_comm]
    · rw [Except.ok.injEq, hvalid]
      simp [hpasses, Presentation.Unused, hsome]
  · have hsame : ∀ n, n ∈ ({ s with clock := p.now } : State).ledger ↔
        n ∈ s.ledger ∨ p.Passes host ∧ p.token.nonce = some n := by simp [hpasses]
    cases hpayload : p.payload host with
    | error error => exact ⟨_, _, Presentation.validate_error hpayload, hsame, by simp [hpasses]⟩
    | ok payload =>
      obtain ⟨reason, hvalidate⟩ := Presentation.validate_rejected (s := s) hpayload hpasses
      exact ⟨_, _, hvalidate, hsame, by simp [hpasses]⟩

/-- The ledger after any sequence of calls is the one before with the nonces of the tokens that passed
the four checks, and a token is valid exactly if it passes them, its nonce was not in the ledger and no
earlier token that passed carried it, and its hash is right. -/
theorem ledger_exact (hnonce : ∀ p ∈ calls, p.token.nonce ≠ some "") (s : State) :
    ∃ results s', present host calls s = some (results, s') ∧
      (∀ nonce, nonce ∈ s'.ledger ↔
        nonce ∈ s.ledger ∨ ∃ p ∈ calls, p.Passes host ∧ p.token.nonce = some nonce) ∧
      ∀ before p after, calls = before ++ p :: after →
        ∃ result, results[before.length]? = some result ∧
          (result = .ok .valid ↔ p.Passes host ∧ p.Unused s.ledger ∧
            (∀ q ∈ before, q.Passes host → q.token.nonce ≠ p.token.nonce) ∧ p.Matches host) := by
  induction calls generalizing s with
  | nil => exact ⟨[], s, rfl, by simp, by simp⟩
  | cons p rest ih =>
    obtain ⟨result, s₁, hvalidate, hledger, hvalid⟩ :=
      @Presentation.exists_validate host _ (hnonce p List.mem_cons_self) s
    obtain ⟨results, s₂, hpresent, hledger', hvalid'⟩ :=
      ih (fun q hq => hnonce q (List.mem_cons_of_mem _ hq)) s₁
    refine ⟨result :: results, s₂, ?_, fun nonce => ?_, fun before q after hsplit => ?_⟩
    · rw [present, hvalidate]
      change (present host rest s₁).bind _ = _
      rw [hpresent]
      rfl
    · rw [hledger', hledger, List.exists_mem_cons_iff, or_assoc]
    · cases before with
      | nil =>
        obtain ⟨rfl, -⟩ := List.cons.inj hsplit
        exact ⟨result, rfl, by simpa using hvalid⟩
      | cons first before =>
        obtain ⟨rfl, hrest⟩ := List.cons.inj hsplit
        obtain ⟨result', hresult', hiff⟩ := hvalid' before q after hrest
        refine ⟨result', hresult', hiff.trans (and_congr_right fun hpasses => ?_)⟩
        -- the first call has burned the nonce exactly if it passed with the same one
        obtain ⟨payload, hpayload, -⟩ := hpasses.signature
        obtain ⟨-, -, -, nonce, -, -, -, hsome, -⟩ :=
          Presentation.exists_payload_iff.mp ⟨payload, hpayload⟩
        simp only [Presentation.Unused, hsome, Option.some.injEq, forall_eq', hledger,
          List.forall_mem_cons, not_or, not_and]
        tauto

end Sequences

namespace Sample

/-- A host that accepts one signature. -/
def verifier : Host where
  casing := .ascii
  serverPublicKey := List.replicate 32 1
  verifySignature _ _ signature := signature == List.replicate 64 2
  fileVersion _ := none
  winVerifyTrust _ := 0
  signer _ := none

/-- A token for the present device and request. -/
def genuine : Presentation where
  token := ⟨some "device", some "request", some "AB", .utc 10 (by decide), some "nonce",
    some (List.replicate 64 2)⟩
  expectedDeviceId := "device"
  expectedRequestId := "request"
  currentFileSha256Hex := "ab"
  now := .utc 9 (by decide)

/-- The same token with another signature. -/
def forged : Presentation := { genuine with token := { genuine.token with signature := none } }

/-- The same token without its nonce. -/
def nonceless : Presentation := { genuine with token := { genuine.token with nonce := none } }

/-- A service that has consumed nothing. -/
def fresh : State where
  clock := .minValue
  files _ := none
  handles := []
  ledger := []
  requests _ := none
  drawn := []
  credential := ⟨"device", "token"⟩
  audit := []

/-- The token passes the four checks. -/
theorem genuine_passes : genuine.Passes verifier where
  signature := ⟨_, rfl, by decide⟩
  deviceId := rfl
  requestId := rfl
  expiry := by decide

/-- The forged one does not. -/
theorem forged_fails : ¬ forged.Passes verifier := by
  rintro ⟨⟨payload, -, hverify⟩, -⟩
  simp [Host.verify, forged] at hverify

end Sample

/-- A forged token does not spoil the genuine one, which is valid once. -/
theorem ledger_exact_sample :
    ∃ results s', present Sample.verifier [Sample.forged, Sample.genuine, Sample.genuine] Sample.fresh =
        some (results, s') ∧ "nonce" ∈ s'.ledger ∧ results[1]? = some (.ok .valid) ∧
      results[2]? ≠ some (.ok .valid) := by
  obtain ⟨results, s', hpresent, hledger, hvalid⟩ := @ledger_exact Sample.verifier
    [Sample.forged, Sample.genuine, Sample.genuine]
    (by simp [Sample.forged, Sample.genuine]) Sample.fresh
  obtain ⟨second, hsecond, hsecondValid⟩ := hvalid [Sample.forged] Sample.genuine _ rfl
  obtain ⟨third, hthird, hthirdValid⟩ := hvalid [Sample.forged, Sample.genuine] Sample.genuine [] rfl
  refine ⟨results, s', hpresent, ?_, ?_, ?_⟩
  · exact (hledger "nonce").mpr (Or.inr ⟨_, by simp, Sample.genuine_passes, rfl⟩)
  · rw [show results[1]? = some second from hsecond, hsecondValid.mpr ⟨Sample.genuine_passes, ?_, ?_, ?_⟩]
    · simp [Presentation.Unused, Sample.fresh]
    · intro q hq hpasses
      obtain rfl := List.mem_singleton.mp hq
      exact absurd hpasses Sample.forged_fails
    · rfl
  · rw [show results[2]? = some third from hthird, Ne, Option.some.injEq, hthirdValid]
    rintro ⟨-, -, hbefore, -⟩
    exact hbefore Sample.genuine (by simp) Sample.genuine_passes rfl

/-- A token without a nonce makes the call throw. -/
theorem nonceless_token_throws :
    ¬ ∃ outcome s', Sample.nonceless.validate Sample.verifier Sample.fresh = some (.ok outcome, s') := by
  rintro ⟨outcome, s', hvalidate⟩
  have hthrows : Sample.nonceless.validate Sample.verifier Sample.fresh =
      some (.error (.argumentNull "nonce"), { Sample.fresh with clock := Sample.nonceless.now }) := rfl
  rw [hthrows] at hvalidate
  cases hvalidate

end ElevateGate.Agent
