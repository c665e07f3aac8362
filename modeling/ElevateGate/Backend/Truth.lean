import ElevateGate.Backend.Consistency
import ElevateGate.Backend.Races
import ElevateGate.Interaction.Sequential

/-!
# Responses and audit trail

What the sessions have committed, read off the log of a run, is what the database says: each commit
moment that decided a request or consumed an approval is the only one, its rows are final, and the
audit trail has one row about it. What a call answers follows from the commits that it made.
-/

namespace ElevateGate.Backend

open Interaction Time Text

/-- Requests keep the columns that no decision writes. -/
def Steady (s s' : State) : Prop :=
  ∀ id r, s.request id = some r → ∃ r', s'.request id = some r' ∧ Redecides r r'

/-- The committed requests, approvals and audit rows stay as they are. -/
def Untouched (s s' : State) : Prop :=
  ∀ t, t = .elevationRequests ∨ t = .approvals ∨ t = .auditLogs → ∀ id, s'.com t id = s.com t id

/-- What the log says was committed is what the committed rows say. -/
structure Backed (deployment : Deployment) (r : Record) : Prop where
  kept : Kept deployment r
  audited : r.state.Audited
  settled : ∀ i b older, (.performed i ⟨b, .commit, ()⟩ :: older) <:+ r.log →
    ∀ (m : Matter) row, latest m.table m.id (changes (mine i older)) = some row → m.IsDone row →
      ∃ row', r.state.com m.table m.id = some row' ∧ m.Same row row'
  logged : ∀ i b older, (.performed i ⟨b, .commit, ()⟩ :: older) <:+ r.log →
    ∀ aid log, latestLog aid (changes (mine i older)) = some log →
      r.state.com .auditLogs aid = some log
  steady : ∀ i deed, .performed i deed ∈ r.log → Steady deed.before r.state

section Steps

variable {deployment : Deployment} {s s' s'' : State} {i : Sid}
  {log : List (Moment Op Res Sid Event State)}

theorem Redecides.refl (r : ElevationRequest) : Redecides r r := rfl

theorem Redecides.trans {r r' r'' : ElevationRequest} (h : Redecides r r') (h' : Redecides r' r'') :
    Redecides r r'' := by
  rw [Redecides] at h h' ⊢
  rw [h] at h'
  exact h'

theorem Steady.refl (s : State) : Steady s s := fun _ r hr => ⟨r, hr, .refl r⟩

theorem Steady.trans (h : Steady s s') (h' : Steady s' s'') : Steady s s'' := by
  intro id r hr
  obtain ⟨r', hr', hredecides⟩ := h id r hr
  obtain ⟨r'', hr'', hredecides'⟩ := h' id r' hr'
  exact ⟨r'', hr'', hredecides.trans hredecides'⟩

theorem Untouched.steady (h : Untouched s s') : Steady s s' := by
  intro id r hr
  refine ⟨r, ?_, .refl r⟩
  rw [State.request, h _ (Or.inl rfl)]
  exact hr

theorem Matter.Same.trans {m : Matter} {r r' r'' : m.table.Record} (h : m.Same r r')
    (h' : m.Same r' r'') : m.Same r r'' := by
  cases m with
  | decision elevationRequestId =>
    exact ⟨h'.1.trans h.1, h'.2.1.trans h.2.1, h'.2.2.trans h.2.2⟩
  | consumption approvalId => exact ⟨h'.1.trans h.1, h'.2.trans h.2⟩

theorem Matter.Same.refl {m : Matter} (r : m.table.Record) : m.Same r r := by
  cases m with
  | decision elevationRequestId => exact ⟨rfl, rfl, rfl⟩
  | consumption approvalId => exact ⟨rfl, rfl⟩

theorem Matter.Same.symm {m : Matter} {r r' : m.table.Record} (h : m.Same r r') : m.Same r' r := by
  cases m with
  | decision elevationRequestId => exact ⟨h.1.symm, h.2.1.symm, h.2.2.symm⟩
  | consumption approvalId => exact ⟨h.1.symm, h.2.symm⟩

/-- The row of a matter and the audit rows about it stay as they are. -/
private theorem Untouched.matter (h : Untouched s s') (m : Matter) :
    s'.com m.table m.id = s.com m.table m.id := by
  cases m with
  | decision elevationRequestId => exact h _ (Or.inl rfl) _
  | consumption approvalId => exact h _ (Or.inr (Or.inl rfl)) _

theorem State.Audited.untouched (h : s.Audited) (hsame : Untouched s s') : s'.Audited := by
  have hlogs : ∀ aid, s'.com .auditLogs aid = s.com .auditLogs aid := hsame _ (Or.inr (Or.inr rfl))
  constructor
  · intro m r hr hdone
    rw [hsame.matter] at hr
    simp only [hlogs]
    exact h.told m r hr hdone
  · intro m aid log hlog habout
    rw [hlogs] at hlog
    rw [hsame.matter]
    exact h.true_ m aid log hlog habout

theorem Untouched.of_committed (h : s'.db.committed = s.db.committed) : Untouched s s' :=
  fun t _ id => com_congr h t id

/-- Maintenance concerns other tables. -/
private theorem Untouched.maintain {k : Key} {version : Option (Row k)}
    (h : maintainable s k version = true) : Untouched s (s.maintain k version) := by
  intro t ht id
  refine com_maintain ?_
  rintro rfl
  rcases ht with rfl | rfl | rfl <;> simp [maintainable] at h

/-- A step that commits nothing. -/
private theorem Backed.quiet {moment : Moment Op Res Sid Event State}
    (h : Backed deployment ⟨s, log⟩) (hkept : Kept deployment ⟨s', moment :: log⟩)
    (huntouched : Untouched s s')
    (hmoment : ∀ j deed, moment = .performed j deed → deed.before = s ∧ deed.op ≠ .commit) :
    Backed deployment ⟨s', moment :: log⟩ where
  kept := hkept
  audited := h.audited.untouched huntouched
  settled j b older hsuffix m row hlatest hdone := by
    rcases List.suffix_cons_iff.mp hsuffix with heq | hsuffix
    · exact absurd rfl (hmoment j _ (List.cons.inj heq).1.symm).2
    · obtain ⟨row', hrow', hsame⟩ := h.settled j b older hsuffix m row hlatest hdone
      exact ⟨row', (huntouched.matter m).trans hrow', hsame⟩
  logged j b older hsuffix aid log hlatest := by
    rcases List.suffix_cons_iff.mp hsuffix with heq | hsuffix
    · exact absurd rfl (hmoment j _ (List.cons.inj heq).1.symm).2
    · rw [huntouched _ (Or.inr (Or.inr rfl))]
      exact h.logged j b older hsuffix aid log hlatest
  steady j deed hmem := by
    rcases List.mem_cons.mp hmem with heq | hmem
    · rw [(hmoment j deed heq.symm).1]
      exact huntouched.steady
    · exact (h.steady j deed hmem).trans huntouched.steady

/-- Committing a transaction leaves the columns that no decision writes. -/
private theorem steady_commit (hinv : Inv deployment s) {done : List Deed}
    (hreflects : Reflects i s done) (htransaction : Transaction (changes done)) :
    Steady s (s.commit i) := by
  intro id r hr
  have hcom : (s.commit i).request id = (latestRequest id (changes done)).or (some r) := by
    rw [State.request, com_commit hinv, hreflects.own, ← hr]
    rfl
  cases hlatest : latestRequest id (changes done) with
  | none => exact ⟨r, by rw [hcom, hlatest]; rfl, .refl r⟩
  | some r' =>
    refine ⟨r', by rw [hcom, hlatest]; rfl, ?_⟩
    obtain ⟨old, hmem⟩ := exists_of_latest hlatest
    have hold : s.com .elevationRequests r'.id = old := hreflects.old _ hmem
    have hid : r'.id = id := id_of_latest hlatest
    rw [hid] at hold
    obtain rfl : old = some r := hold.symm.trans hr
    exact htransaction.redecides hmem

/-- A step that commits a transaction. -/
private theorem Backed.commit (h : Backed deployment ⟨s, log⟩) (hinv : Inv deployment s)
    (hevolves : Evolves s (s.commit i)) (htransaction : Transaction (changes (mine i log)))
    (hkept : Kept deployment ⟨s.commit i, .performed i ⟨s, .commit, ()⟩ :: log⟩) :
    Backed deployment ⟨s.commit i, .performed i ⟨s, .commit, ()⟩ :: log⟩ := by
  have hreflects : Reflects i s (mine i log) := h.kept.reflects i
  have hsteady := steady_commit hinv hreflects htransaction
  have haccounts := htransaction.accounts
  refine ⟨hkept, h.audited.commit hinv hevolves hreflects haccounts, ?_, ?_, ?_⟩
  · intro j b older hsuffix m row hlatest hdone
    rcases List.suffix_cons_iff.mp hsuffix with heq | hsuffix
    · obtain ⟨hmoment, rfl⟩ := List.cons.inj heq
      obtain ⟨rfl, -⟩ := Moment.performed.inj hmoment
      refine ⟨row, ?_, .refl row⟩
      rw [com_commit hinv, hreflects.own, hlatest]
      rfl
    · obtain ⟨row', hrow', hsame⟩ := h.settled j b older hsuffix m row hlatest hdone
      obtain ⟨row'', hrow'', hsame'⟩ := hevolves.done hrow' (hsame.isDone hdone)
      exact ⟨row'', hrow'', hsame.trans hsame'⟩
  · intro j b older hsuffix aid log hlatest
    rw [auditLogs_commit hinv hreflects haccounts.fresh]
    rcases List.suffix_cons_iff.mp hsuffix with heq | hsuffix
    · obtain ⟨hmoment, rfl⟩ := List.cons.inj heq
      obtain ⟨rfl, -⟩ := Moment.performed.inj hmoment
      exact Or.inl hlatest
    · exact Or.inr (h.logged j b older hsuffix aid log hlatest)
  · intro j deed hmem
    rcases List.mem_cons.mp hmem with heq | hmem
    · obtain ⟨-, rfl⟩ := Moment.performed.inj heq
      exact hsteady
    · exact (h.steady j deed hmem).trans hsteady

/-- Where a transaction may be committed, it is one of those of the endpoints. -/
private theorem Committing.transaction {call : Call} {done : List Deed}
    (h : Committing deployment call done .commit) (hfaithful : Faithful deployment i done) :
    Transaction (changes done) := by
  rcases h rfl i hfaithful with ⟨htransaction, -⟩ | hnothing
  · exact htransaction
  · rw [hnothing]
    exact .expiry (by simp)

/-- Every step keeps the log backed by the committed rows. -/
theorem preserved_backed (deployment : Deployment) :
    PreservedUnder (system deployment) .free (Committing deployment)
      (discipline deployment).Advances (Backed deployment) := by
  have hpreserved : PreservedUnder (system deployment) .free (Committing deployment)
      (discipline deployment).Advances (Kept deployment) := preserved_kept
  constructor
  · intro i call op choice answer s s' log hadvances h hallowed hguard hperform
    have hkept := hpreserved.perform i call op choice answer s s' log hadvances h.kept hallowed hguard
      hperform
    obtain ⟨hinv, -, hevolves⟩ := hadvances
    have heffect := perform_effect hperform
    by_cases hop : op = .commit
    · subst hop
      cases heffect with
      | commit => exact h.commit hinv hevolves (hallowed.transaction (h.kept.faithful i)) hkept
    · refine h.quiet hkept (.of_committed (heffect.committed hop)) fun j deed heq => ?_
      obtain ⟨-, rfl⟩ := Moment.performed.inj heq
      exact ⟨rfl, hop⟩
  · intro i s log hadvances h
    have hkept := hpreserved.stop i s log hadvances h.kept
    exact h.quiet hkept (.of_committed rfl) fun j deed heq => by contradiction
  · intro s s' log hadvances h hreset
    have hkept := hpreserved.reset s s' log hadvances h.kept hreset
    obtain rfl := Option.some.inj hreset
    exact h.quiet hkept (.of_committed rfl) fun j deed heq => by contradiction
  · intro event s s' log hadvances h hguard henv
    have hkept := hpreserved.env event s s' log hadvances h.kept hguard henv
    refine h.quiet hkept ?_ fun j deed heq => by contradiction
    cases event with
    | advance clock =>
      simp only [system, env] at henv
      split at henv
      · obtain rfl := Option.some.inj henv
        exact .of_committed rfl
      · contradiction
    | maintain key version =>
      simp only [system, env] at henv
      split at henv
      · next hmaintainable =>
        obtain rfl := Option.some.inj henv
        exact .maintain hmaintainable
      · contradiction
    | transact rows =>
      exact transact_induction (R := Untouched) (fun _ _ _ _ => rfl)
        (fun h h' t ht id => (h' t ht id).trans (h t ht id))
        (fun _ _ _ hmaintainable => .maintain hmaintainable) henv

end Steps

/-- What every configuration that a recorded run reaches satisfies. -/
structure Sound (deployment : Deployment)
    (c : Config Op Res PyError Answer Sid Call Record) : Prop where
  honoring : Honoring (Committing deployment) (Answers deployment) c
  lawful : Lawful (Committing deployment) c
  backed : Backed deployment c.shared
  throughout : Throughout (Committing deployment) (Backed deployment) c.shared

/-- No audit row is about a matter of the tables. -/
def State.Silent (s : State) : Prop :=
  ∀ (m : Matter) aid log, s.com .auditLogs aid = some log → ¬ m.IsAbout log

section Runs

variable {deployment : Deployment} {s : State} {i j : Sid} {call : Call}
  {c c' : Config Op Res PyError Answer Sid Call Record}
  {log : List (Moment Op Res Sid Event State)}

/-- Before the first request no matter has a row. -/
private theorem State.Initial.unset (h : s.Initial) (m : Matter) : s.com m.table m.id = none := by
  cases m with
  | decision elevationRequestId => exact congrArg (Option.map _) (h.requests elevationRequestId)
  | consumption approvalId => exact congrArg (Option.map _) (h.approvals approvalId)

/-- The backend before its first request. -/
theorem State.Initial.backed (h : s.Initial) (hsilent : s.Silent) : Backed deployment ⟨s, []⟩ where
  kept :=
    { reflects := fun i => reflects_nil (fun t id => by simp [State.own, h.dirty]) rfl
      evolved := by simp
      faithful := fun i => trivial }
  audited :=
    { told := fun m r hr => absurd ((h.unset m).symm.trans hr) (by simp)
      true_ := fun m aid log hlog habout => absurd habout (hsilent m aid log hlog) }
  settled i b older hsuffix := absurd (List.suffix_nil.mp hsuffix) (by simp)
  logged i b older hsuffix := absurd (List.suffix_nil.mp hsuffix) (by simp)
  steady := by simp

/-- Every recorded run from there is sound at both ends, and at any point between. -/
theorem sound_run {labels labels' : List (Label Sid Choice Event Call)} (hinit : s.Initial)
    (hsilent : s.Silent)
    (hrun : ((system deployment).recorded .free).run labels (System.init ⟨s, []⟩) = some c)
    (hrun' : ((system deployment).recorded .free).run labels' c = some c') :
    Sound deployment c ∧ Sound deployment c' := by
  have hpreserved := (preserved_backed deployment).throughout
  obtain ⟨hgood, -, hhonoring, hlawful, hbacked, hthroughout⟩ :=
    honoring_run (valid deployment) (system_honors deployment) hpreserved
      (Discipline.good_init hinit.inv) (honoring_init _) (lawful_init _)
      ⟨hinit.backed hsilent, throughout_nil s⟩ hrun
  obtain ⟨-, -, hhonoring', hlawful', hbacked', hthroughout'⟩ :=
    honoring_run (valid deployment) (system_honors deployment) hpreserved hgood hhonoring hlawful
      ⟨hbacked, hthroughout⟩ hrun'
  exact ⟨⟨hhonoring, hlawful, hbacked, hthroughout⟩, ⟨hhonoring', hlawful', hbacked', hthroughout'⟩⟩

/-- No later commit finishes a matter again. -/
private theorem not_recommitted {r : Record} {b b' : State}
    {older older' : List (Moment Op Res Sid Event State)} {m : Matter} {row row' : m.table.Record}
    (h : Throughout (Committing deployment) (Backed deployment) r)
    (hlater : (.performed j ⟨b', .commit, ()⟩ :: older') <:+ r.log)
    (hearlier : (.performed i ⟨b, .commit, ()⟩ :: older) <:+ older')
    (hlatest : latest m.table m.id (changes (mine i older)) = some row) (hdone : m.IsDone row)
    (hlatest' : latest m.table m.id (changes (mine j older')) = some row') (hdone' : m.IsDone row') :
    False := by
  obtain ⟨hbacked, call, hallowed⟩ := h j _ older' hlater
  obtain ⟨seen, hseen, hsame⟩ := hbacked.settled i b older hearlier m row hlatest hdone
  have htransaction := hallowed.transaction (hbacked.kept.faithful j)
  rcases htransaction.accounts.each m with ⟨_, _, _, -, -, -, -, -, -, old, new, hmem, hid, hold⟩ |
    ⟨hnot, -⟩
  · -- the row under the later commit is the one that the earlier commit has left
    have hcom := (hbacked.kept.reflects j).old _ hmem
    rw [show Change.id ⟨m.table, old, new⟩ = m.id from hid] at hcom
    exact hold seen (hcom.symm.trans hseen) (hsame.isDone hdone)
  · exact hnot row' hlatest' hdone'

/-- One commit finishes a matter. -/
theorem commit_unique {r : Record} {b b' : State}
    {older older' : List (Moment Op Res Sid Event State)} {m : Matter} {row row' : m.table.Record}
    (h : Throughout (Committing deployment) (Backed deployment) r)
    (hcommit : (.performed i ⟨b, .commit, ()⟩ :: older) <:+ r.log)
    (hcommit' : (.performed j ⟨b', .commit, ()⟩ :: older') <:+ r.log)
    (hlatest : latest m.table m.id (changes (mine i older)) = some row) (hdone : m.IsDone row)
    (hlatest' : latest m.table m.id (changes (mine j older')) = some row') (hdone' : m.IsDone row') :
    (.performed i ⟨b, .commit, ()⟩ :: older : List (Moment Op Res Sid Event State)) =
      .performed j ⟨b', .commit, ()⟩ :: older' := by
  rcases List.suffix_or_suffix_of_suffix hcommit hcommit' with hsuffix | hsuffix
  · rcases List.suffix_cons_iff.mp hsuffix with heq | hearlier
    · exact heq
    · exact (not_recommitted h hcommit' hearlier hlatest hdone hlatest' hdone').elim
  · rcases List.suffix_cons_iff.mp hsuffix with heq | hearlier
    · exact heq.symm
    · exact (not_recommitted h hcommit hearlier hlatest' hdone' hlatest hdone).elim

end Runs

/-- The matter that a call finishes which is answered with success. -/
def Call.matter : Call → Option Matter
  | .approveElevationRequest elevationRequestId _ => some (.decision elevationRequestId)
  | .denyElevationRequest elevationRequestId _ _ => some (.decision elevationRequestId)
  | .markApprovalConsumed approvalId _ _ => some (.consumption approvalId)
  | _ => none

/-- The request that a reviewer decides, how, and with which credentials. -/
def Call.verdict : Call → Option (Nat × ElevationRequestStatus × Option String)
  | .approveElevationRequest elevationRequestId credentials =>
    some (elevationRequestId, .approved, credentials)
  | .denyElevationRequest elevationRequestId _ credentials =>
    some (elevationRequestId, .denied, credentials)
  | _ => none

/-- One audit row is about a matter, and it satisfies a predicate. -/
def State.HasOneRow (s : State) (m : Matter) (P : AuditLog → Prop) : Prop :=
  ∃ aid log, s.com .auditLogs aid = some log ∧ m.IsAbout log ∧ P log ∧
    ∀ aid' log', s.com .auditLogs aid' = some log' → m.IsAbout log' → aid' = aid

/-- The actor and the action of the audit row of a call that decides a request: the administrator
that its own token names, or the entry that its automatic approval rests on. -/
def Names (deployment : Deployment) (done : List Deed) (r : ElevationRequest) (log : AuditLog) :
    Call → Prop
  | .approveElevationRequest elevationRequestId credentials =>
    r.id = elevationRequestId ∧ log.action = "elevation_request.approved" ∧
      log.actorType = .admin ∧
      ∃ adminId, Reviewer deployment credentials (some adminId) ∧ log.actorId = toString adminId
  | .denyElevationRequest elevationRequestId _ credentials =>
    r.id = elevationRequestId ∧ log.action = "elevation_request.denied" ∧
      log.actorType = .admin ∧
      ∃ adminId, Reviewer deployment credentials (some adminId) ∧ log.actorId = toString adminId
  | .agentSubmitRequest _ _ _ => log.action = "elevation_request.auto_approved" ∧
      log.actorType = .system ∧
      ∃ entry, Grounds done r entry ∧ log.actorId = s!"app_allowlist_entry:{entry.id}"
  | _ => False

/-- What an operation of a call that is refused leaves: everything, or everything but one pending
request that is past its review window by the clock that the session has read, which expires. -/
def Leaves (done : List Deed) (s s' : State) : Prop :=
  (∀ t id, s'.com t id = s.com t id) ∨
    ∃ (r : ElevationRequest) (time : Datetime), (∃ before, ⟨before, .now, time⟩ ∈ done) ∧
      s.request r.id = some r ∧ r.status = .pending ∧ r.expiresAt ≤ time ∧
      s'.request r.id = some (ElevationRequestRepository.decided .expired none time r) ∧
      ∀ t id, t ≠ .elevationRequests ∨ id ≠ r.id → s'.com t id = s.com t id

/-- Responses and audit trail tell the truth: what the calls of a configuration have been answered
and have committed is so in every later configuration. -/
structure Truthful (deployment : Deployment)
    (c c' : Config Op Res PyError Answer Sid Call Record) : Prop where
  /-- Two calls that were answered with success and finish one matter are one call. -/
  once : ∀ i j call call' answer answer' m, c.thread i = some (call, .pure answer) →
    call.matter = some m → c'.thread j = some (call', .pure answer') → call'.matter = some m →
    i = j ∧ c'.thread i = c.thread i ∧
      ∃ newer, c'.shared.log = newer ++ c.shared.log ∧ Uninterrupted i newer
  /-- A reviewer who was answered with success has decided. -/
  final : ∀ i call answer elevationRequestId status credentials,
    c.thread i = some (call, .pure answer) →
    call.verdict = some (elevationRequestId, status, credentials) →
    ∃ r, c'.shared.state.request elevationRequestId = some r ∧ r.status = status ∧
      Reviewer deployment credentials r.reviewedBy
  /-- The audit trail accounts for all that is decided and consumed. -/
  audited : c'.shared.state.Audited
  /-- A decision that a call has committed has one audit row, which is its own. -/
  decided : ∀ i call program b older elevationRequestId r, c.thread i = some (call, program) →
    (⟨b, .commit, ()⟩ :: older) <:+ mine i c.shared.log →
    latestRequest elevationRequestId (changes older) = some r →
    r.status = .approved ∨ r.status = .denied →
    c'.shared.state.HasOneRow (.decision elevationRequestId) fun log =>
      Names deployment older r log call
  /-- A consumption that was answered with success came from the device of the approval, and has one
  audit row. -/
  consumed : ∀ i approvalId credentials admitted answer,
    c.thread i = some (.markApprovalConsumed approvalId credentials admitted, .pure answer) →
    ∃ a device, c'.shared.state.approval approvalId = some a ∧ a.consumedAt ≠ none ∧
      a.deviceUuid = device.deviceUuid ∧ Presented deployment credentials device ∧
      (∃ before snapshot, ⟨before, .query, snapshot⟩ ∈ mine i c.shared.log ∧
        device ∈ snapshot.rows .devices) ∧
      c'.shared.state.HasOneRow (.consumption approvalId) fun log =>
        log.actorType = .device ∧ log.actorId = a.deviceUuid.textD
  /-- A call that was answered 404 or 409 has left everything as it was, but for a stale request. -/
  refused : ∀ i call error, c.thread i = some (call, .throw error) → Refusal error →
    (∀ t id, c.shared.state.own i t id = none) ∧
    ∀ deed older, (deed :: older) <:+ mine i c.shared.log → ∀ choice s',
      perform deployment.sign i deed.op choice deed.before = some (deed.answer, s') →
      Leaves older deed.before s'

section Results

variable {deployment : Deployment} {i j : Sid} {call call' : Call} {m : Matter}
  {c c' : Config Op Res PyError Answer Sid Call Record} {done : List Deed}

/-- A success has committed the end of its matter. -/
private theorem Succeeded.commits (h : Succeeded deployment call done) (hmatter : call.matter = some m) :
    Commits deployment (fun list => ∃ row, latest m.table m.id list = some row ∧ m.IsDone row)
      done := by
  cases call with
  | approveElevationRequest elevationRequestId credentials =>
    obtain rfl := Option.some.inj hmatter
    obtain ⟨token, time, adminId, -, -, b, older, hsuffix, hK⟩ := h
    refine ⟨b, older, hsuffix, fun i hfaithful => ?_⟩
    obtain ⟨r, hr, hstatus, -⟩ := hK i hfaithful
    exact ⟨r, hr, Or.inl hstatus⟩
  | denyElevationRequest elevationRequestId reason credentials =>
    obtain rfl := Option.some.inj hmatter
    obtain ⟨token, time, adminId, -, -, b, older, hsuffix, hK⟩ := h
    refine ⟨b, older, hsuffix, fun i hfaithful => ?_⟩
    obtain ⟨r, hr, hstatus, -⟩ := hK i hfaithful
    exact ⟨r, hr, Or.inr hstatus⟩
  | markApprovalConsumed approvalId credentials admitted =>
    obtain rfl := Option.some.inj hmatter
    obtain ⟨device, -, -, b, older, hsuffix, hK⟩ := h
    refine ⟨b, older, hsuffix, fun i hfaithful => ?_⟩
    obtain ⟨a, ha, hconsumed, -⟩ := hK i hfaithful
    exact ⟨a, ha, hconsumed⟩
  | _ => contradiction

/-- Where a session has committed rows of some kind, the log shows the commit. -/
private theorem Sound.commits (h : Sound deployment c) {K : List Change → Prop}
    (hcommits : Commits deployment K (mine i c.shared.log)) :
    ∃ b newer older, c.shared.log = newer ++ .performed i ⟨b, .commit, ()⟩ :: older ∧
      Uninterrupted i newer ∧ K (changes (mine i older)) := by
  obtain ⟨b, done, hsuffix, hK⟩ := hcommits
  have hfaithful := ((h.backed.kept.faithful i).suffix hsuffix).tail
  obtain ⟨new, hnew⟩ := hsuffix
  obtain ⟨newer, older, hlog, rfl, -, huninterrupted⟩ := exists_of_mine hnew.symm
  exact ⟨b, newer, older, hlog, huninterrupted, hK i hfaithful⟩

/-- A call that was answered with success has succeeded. -/
private theorem Sound.succeeded (h : Sound deployment c) {answer : Answer}
    (hthread : c.thread i = some (call, .pure answer)) :
    Succeeded deployment call (mine i c.shared.log) := by
  cases h.honoring i call _ hthread with
  | pure post => exact post.1

/-- What a commit has finished has one audit row. -/
private theorem Sound.hasOneRow (h : Sound deployment c) {b : State}
    {older : List (Moment Op Res Sid Event State)}
    (hcommit : (.performed i ⟨b, .commit, ()⟩ :: older) <:+ c.shared.log) {row : m.table.Record}
    (hlatest : latest m.table m.id (changes (mine i older)) = some row) (hdone : m.IsDone row) :
    ∃ row', c.shared.state.com m.table m.id = some row' ∧ m.Same row row' ∧
      c.shared.state.HasOneRow m (m.Tells row) := by
  obtain ⟨row', hrow', hsame⟩ := h.backed.settled i b older hcommit m row hlatest hdone
  obtain ⟨aid, ⟨log, hlog, habout⟩, hunique⟩ :=
    h.backed.audited.told m row' hrow' (hsame.isDone hdone)
  refine ⟨row', hrow', hsame, aid, log, hlog, habout, ?_,
    fun aid' log' hlog' habout' => hunique aid' ⟨log', hlog', habout'⟩⟩
  obtain ⟨row'', hrow'', -, htells⟩ := h.backed.audited.true_ m aid log hlog habout
  obtain rfl := Option.some.inj (hrow''.symm.trans hrow')
  exact hsame.symm.tells htells

/-- Successes on one matter are one call. -/
private theorem Sound.once (h : Sound deployment c) (h' : Sound deployment c')
    {labels : List (Label Sid Choice Event Call)} {answer answer' : Answer}
    (hrun : ((system deployment).recorded .free).run labels c = some c')
    (hthread : c.thread i = some (call, .pure answer)) (hmatter : call.matter = some m)
    (hthread' : c'.thread j = some (call', .pure answer')) (hmatter' : call'.matter = some m) :
    i = j ∧ c'.thread i = c.thread i ∧
      ∃ newer, c'.shared.log = newer ++ c.shared.log ∧ Uninterrupted i newer := by
  obtain ⟨b, newer1, older, hlog, -, row, hlatest, hdone⟩ :=
    h.commits ((h.succeeded hthread).commits hmatter)
  obtain ⟨b', newer2, older', hlog', ⟨hstopped, hrestarted⟩, row', hlatest', hdone'⟩ :=
    h'.commits ((h'.succeeded hthread').commits hmatter')
  obtain ⟨between, hbetween⟩ := log_suffix_run hrun
  have hearlier : c'.shared.log = (between ++ newer1) ++ .performed i ⟨b, .commit, ()⟩ :: older := by
    rw [← hbetween, hlog, List.append_assoc]
  have heq := commit_unique h'.throughout ⟨_, hearlier.symm⟩ ⟨_, hlog'.symm⟩ hlatest hdone hlatest'
    hdone'
  obtain ⟨rfl, -⟩ := Moment.performed.inj (List.cons.inj heq).1
  have hnewer : between ++ newer1 = newer2 := by
    refine List.append_cancel_right (hearlier.symm.trans ?_)
    rw [hlog', heq]
  subst hnewer
  have huninterrupted : Uninterrupted i between :=
    ⟨fun h => hstopped (List.mem_append_left _ h), fun h => hrestarted (List.mem_append_left _ h)⟩
  refine ⟨rfl, ?_, between, hbetween.symm, huninterrupted⟩
  rw [thread_of_uninterrupted hthread rfl hrun hbetween.symm huninterrupted, hthread]

/-- What a commit of an earlier configuration has finished has one audit row. -/
private theorem Sound.later (h' : Sound deployment c')
    {labels : List (Label Sid Choice Event Call)}
    (hrun : ((system deployment).recorded .free).run labels c = some c') {b : State}
    {newer older : List (Moment Op Res Sid Event State)}
    (hlog : c.shared.log = newer ++ .performed i ⟨b, .commit, ()⟩ :: older) {row : m.table.Record}
    (hlatest : latest m.table m.id (changes (mine i older)) = some row) (hdone : m.IsDone row) :
    ∃ row', c'.shared.state.com m.table m.id = some row' ∧ m.Same row row' ∧
      c'.shared.state.HasOneRow m (m.Tells row) := by
  have hsuffix : (.performed i ⟨b, .commit, ()⟩ :: older) <:+ c.shared.log := ⟨newer, hlog.symm⟩
  exact h'.hasOneRow (hsuffix.trans (log_suffix_run hrun)) hlatest hdone

/-- A reviewer who was answered with success has decided. -/
private theorem Sound.final (h : Sound deployment c) (h' : Sound deployment c')
    {labels : List (Label Sid Choice Event Call)} {answer : Answer} {elevationRequestId : Nat}
    {status : ElevationRequestStatus} {credentials : Option String}
    (hrun : ((system deployment).recorded .free).run labels c = some c')
    (hthread : c.thread i = some (call, .pure answer))
    (hverdict : call.verdict = some (elevationRequestId, status, credentials)) :
    ∃ r, c'.shared.state.request elevationRequestId = some r ∧ r.status = status ∧
      Reviewer deployment credentials r.reviewedBy := by
  have hdecided : Decided deployment elevationRequestId status credentials (mine i c.shared.log) ∧
      (status = .approved ∨ status = .denied) := by
    have hsucceeded := h.succeeded hthread
    cases call with
    | approveElevationRequest elevationRequestId credentials =>
      obtain ⟨rfl, rfl, rfl⟩ : _ ∧ _ ∧ _ := by simpa [Call.verdict] using hverdict
      exact ⟨hsucceeded, Or.inl rfl⟩
    | denyElevationRequest elevationRequestId reason credentials =>
      obtain ⟨rfl, rfl, rfl⟩ : _ ∧ _ ∧ _ := by simpa [Call.verdict] using hverdict
      exact ⟨hsucceeded, Or.inr rfl⟩
    | _ => contradiction
  obtain ⟨⟨token, time, adminId, hcredentials, hsubject, hcommits⟩, hstatus⟩ := hdecided
  obtain ⟨b, newer, older, hlog, -, r, hlatest, rfl, hby⟩ := h.commits hcommits
  obtain ⟨r', hr', hsame, -⟩ :=
    h'.later (m := .decision elevationRequestId) hrun hlog hlatest hstatus
  exact ⟨r', hr', hsame.1, token, time, adminId, hcredentials, hsubject, hsame.2.1.trans hby⟩

/-- A consumption that was answered with success came from the device of the approval. -/
private theorem Sound.consumed (h : Sound deployment c) (h' : Sound deployment c')
    {labels : List (Label Sid Choice Event Call)} {answer : Answer} {approvalId : Nat}
    {credentials : Option BasicCredentials} {admitted : Bool}
    (hrun : ((system deployment).recorded .free).run labels c = some c')
    (hthread : c.thread i = some (.markApprovalConsumed approvalId credentials admitted, .pure answer)) :
    ∃ a device, c'.shared.state.approval approvalId = some a ∧ a.consumedAt ≠ none ∧
      a.deviceUuid = device.deviceUuid ∧ Presented deployment credentials device ∧
      (∃ before snapshot, ⟨before, .query, snapshot⟩ ∈ mine i c.shared.log ∧
        device ∈ snapshot.rows .devices) ∧
      c'.shared.state.HasOneRow (.consumption approvalId) fun log =>
        log.actorType = .device ∧ log.actorId = a.deviceUuid.textD := by
  obtain ⟨device, hpresented, hread, hcommits⟩ := h.succeeded hthread
  obtain ⟨b, newer, older, hlog, -, a, hlatest, hdone, huuid⟩ := h.commits hcommits
  obtain ⟨a', ha', hsame, hrow⟩ :=
    h'.later (m := .consumption approvalId) hrun hlog hlatest hdone
  refine ⟨a', device, ha', hsame.isDone hdone, hsame.2.trans huuid, hpresented, hread, ?_⟩
  rw [show a'.deviceUuid = a.deviceUuid from hsame.2]
  exact hrow

/-- The row that tells of a decision names who the call must name. -/
private theorem Authored.names {list : List Change} {r : ElevationRequest} {log : AuditLog}
    (h : Authored deployment done list r call) (htells : r.Tells log)
    (hlog : ∀ log', latestLog log'.id list = some log' → (Matter.decision r.id).IsAbout log' →
      log' = log) : Names deployment done r log call := by
  rcases htells with ⟨adminId, hby, hactor, hactorId, hverdict⟩ |
    ⟨hby, hstatus, hactor, -, haction⟩
  · cases call with
    | approveElevationRequest elevationRequestId credentials =>
      obtain ⟨hid, hstatus, hreviewer⟩ := h
      rcases hverdict with ⟨-, haction⟩ | ⟨hdenied, -⟩
      · exact ⟨hid, haction, hactor, adminId, hby ▸ hreviewer, hactorId⟩
      · rw [hstatus] at hdenied
        contradiction
    | denyElevationRequest elevationRequestId reason credentials =>
      obtain ⟨hid, hstatus, hreviewer⟩ := h
      rcases hverdict with ⟨happroved, -⟩ | ⟨-, haction⟩
      · rw [hstatus] at happroved
        contradiction
      · exact ⟨hid, haction, hactor, adminId, hby ▸ hreviewer, hactorId⟩
    | agentSubmitRequest credentials body admitted =>
      obtain ⟨-, hnone, -⟩ := h
      rw [hnone] at hby
      contradiction
    | _ => exact h.elim
  · cases call with
    | approveElevationRequest elevationRequestId credentials =>
      obtain ⟨-, -, token, time, adminId, -, -, hsome⟩ := h
      rw [hby] at hsome
      contradiction
    | denyElevationRequest elevationRequestId reason credentials =>
      obtain ⟨-, -, token, time, adminId, -, -, hsome⟩ := h
      rw [hby] at hsome
      contradiction
    | agentSubmitRequest credentials body admitted =>
      obtain ⟨-, -, entry, log', hrests, hlog', habout, hactorId⟩ := h
      exact ⟨haction, hactor, entry, hrests.grounds, hlog log' hlog' habout ▸ hactorId⟩
    | _ => exact h.elim

/-- A decision that a call has committed has one audit row. -/
private theorem Sound.decided (h : Sound deployment c) (h' : Sound deployment c')
    {labels : List (Label Sid Choice Event Call)} {program : Handler Answer} {b : State}
    {elevationRequestId : Nat} {r : ElevationRequest}
    (hrun : ((system deployment).recorded .free).run labels c = some c')
    (hthread : c.thread i = some (call, program))
    (hsuffix : (⟨b, .commit, ()⟩ :: done) <:+ mine i c.shared.log)
    (hlatest : latestRequest elevationRequestId (changes done) = some r)
    (hdone : r.status = .approved ∨ r.status = .denied) :
    c'.shared.state.HasOneRow (.decision elevationRequestId) fun log =>
      Names deployment done r log call := by
  have hfaithful := ((h.backed.kept.faithful i).suffix hsuffix).tail
  have hid : r.id = elevationRequestId := id_of_latest hlatest
  obtain ⟨old, hmem⟩ := exists_of_latest hlatest
  have hauthored : Authored deployment done (changes done) r call := by
    rcases h.lawful i call program hthread _ _ hsuffix rfl i hfaithful with ⟨-, hattributed⟩ | hnil
    · exact hattributed old r hmem hdone
    · rw [hnil] at hmem
      contradiction
  obtain ⟨new, hnew⟩ := hsuffix
  obtain ⟨newer, older, hlog, rfl, -, -⟩ := exists_of_mine hnew.symm
  obtain ⟨r', hr', hsame, aid, log, hcom, habout, htells, hunique⟩ :=
    h'.later (m := .decision elevationRequestId) hrun hlog hlatest hdone
  refine ⟨aid, log, hcom, habout, hauthored.names htells fun log' hlog' habout' => ?_, hunique⟩
  -- the row that the transaction wrote is still there
  have hcommit : (.performed i ⟨b, .commit, ()⟩ :: older) <:+ c'.shared.log :=
    List.IsSuffix.trans ⟨newer, hlog.symm⟩ (log_suffix_run hrun)
  have hcom' := h'.backed.logged i b older hcommit log'.id log' hlog'
  rw [hid] at habout'
  rw [hunique _ log' hcom' habout', hcom] at hcom'
  exact (Option.some.inj hcom').symm

/-- A request that a session has seen was committed. -/
private theorem Saw.committed {r : ElevationRequest} (h : Saw deployment done r)
    (hfaithful : Faithful deployment i done) :
    ∃ deed ∈ done, deed.before.request r.id = some r := by
  obtain ⟨before, snapshot, older, hsuffix, hnothing, hr⟩ := h
  obtain ⟨⟨s', heffect⟩, -, hreflects, -, hrest⟩ := hfaithful.suffix hsuffix
  change Effect deployment.sign i before .query snapshot s' at heffect
  change Reflects i before older at hreflects
  have hrow : snapshot.row = before.db.view i := by
    cases heffect
    rfl
  refine ⟨_, hsuffix.subset List.mem_cons_self, ?_⟩
  rcases visible_of_mem_rows hrow hr with hown | ⟨-, hcom⟩
  · rw [hreflects.own, hnothing i hrest] at hown
    contradiction
  · exact hcom

/-- A call that was answered 404 or 409 commits nothing but the expiry of a stale request. -/
private theorem Sound.refused_commit (h : Sound deployment c) {b : State}
    (hsuffix : (⟨b, .commit, ()⟩ :: done) <:+ mine i c.shared.log)
    (hspares : Spares deployment (mine i c.shared.log)) : Leaves done b (b.commit i) := by
  obtain ⟨-, hinv, hreflects, -, hfaithful⟩ := (h.backed.kept.faithful i).suffix hsuffix
  change Inv deployment b at hinv
  change Reflects i b done at hreflects
  have hcom : ∀ t id, (b.commit i).com t id = (latest t id (changes done)).or (b.com t id) :=
    fun t id => by rw [com_commit hinv, hreflects.own]
  rcases hspares b done hsuffix i hfaithful with hnil | ⟨r, seen, time, hlist, hpending, htime, hsaw,
    hsame, hstale⟩
  · refine Or.inl fun t id => ?_
    rw [hcom, hnil]
    rfl
  · have hr : b.request r.id = some r :=
      hreflects.old (.request (some r) (ElevationRequestRepository.decided .expired none time r))
        (by simp [hlist])
    have hexpires : r.expiresAt = seen.expiresAt := by
      obtain ⟨deed, hdeed, hseen⟩ := hsaw.committed hfaithful
      obtain ⟨new, hnew⟩ := hsuffix
      obtain ⟨newer, older, hlog, rfl, -, -⟩ := exists_of_mine hnew.symm
      obtain ⟨hbacked, -⟩ := h.throughout i _ older ⟨newer, hlog.symm⟩
      obtain ⟨r', hr', hredecides⟩ :=
        hbacked.steady i deed (mem_log_of_mem_mine hdeed) seen.id seen hseen
      change b.request seen.id = some r' at hr'
      rw [hsame, hr] at hr'
      obtain rfl := Option.some.inj hr'
      rw [hredecides]
    refine Or.inr ⟨r, time, htime, hr, hpending, hexpires ▸ hstale, ?_, fun t id hother => ?_⟩
    · have hlatest : latest .elevationRequests r.id (changes done) =
          some (ElevationRequestRepository.decided .expired none time r) := by
        rw [hlist]
        exact latest_cons_self.trans (if_pos rfl)
      rw [State.request, hcom, hlatest]
      rfl
    · have hlatest : latest t id (changes done) = none := by
        rw [hlist]
        rcases eq_or_ne t .elevationRequests with rfl | ht
        · exact latest_cons_self.trans (if_neg (hother.resolve_left (by simp)).symm)
        · exact latest_cons_ne ht.symm
      rw [hcom, hlatest]
      rfl

/-- A call that was answered 404 or 409 has left everything as it was, but for a stale request. -/
private theorem Sound.refused (h : Sound deployment c) {error : PyError}
    (hthread : c.thread i = some (call, .throw error)) (hrefusal : Refusal error) :
    (∀ t id, c.shared.state.own i t id = none) ∧
    ∀ deed older, (deed :: older) <:+ mine i c.shared.log → ∀ choice s',
      perform deployment.sign i deed.op choice deed.before = some (deed.answer, s') →
      Leaves older deed.before s' := by
  obtain ⟨hspares, hnothing⟩ : (Refusal error → Spares deployment (mine i c.shared.log)) ∧
      changes (mine i c.shared.log) = [] := by
    cases h.honoring i call _ hthread with
    | throw post => exact post
  refine ⟨fun t id => ?_, fun deed older hsuffix choice s' hperform => ?_⟩
  · rw [(h.backed.kept.reflects i).own, hnothing]
    rfl
  · obtain ⟨before, o, answer⟩ := deed
    have heffect : Effect deployment.sign i before o answer s' := perform_effect hperform
    by_cases ho : o = .commit
    · subst ho
      change Effect deployment.sign i before .commit () s' at heffect
      cases heffect
      exact h.refused_commit hsuffix (hspares hrefusal)
    · exact Or.inl fun t id => com_congr (heffect.committed ho) t id

/-- In every interleaving of any number of calls, from a database in which no elevation request was
ever made, responses and audit trail tell the truth. -/
theorem responses_truthful {s : State} {labels labels' : List (Label Sid Choice Event Call)}
    (hinit : s.Initial) (hsilent : s.Silent)
    (hrun : ((system deployment).recorded .free).run labels (System.init ⟨s, []⟩) = some c)
    (hrun' : ((system deployment).recorded .free).run labels' c = some c') :
    Truthful deployment c c' := by
  obtain ⟨h, h'⟩ := sound_run hinit hsilent hrun hrun'
  exact
    { once := fun i j call call' answer answer' m hthread hmatter hthread' hmatter' =>
        h.once h' hrun' hthread hmatter hthread' hmatter'
      final := fun i call answer elevationRequestId status credentials hthread hverdict =>
        h.final h' hrun' hthread hverdict
      audited := h'.backed.audited
      decided := fun i call program b older elevationRequestId r hthread hsuffix hlatest hdone =>
        h.decided h' hrun' hthread hsuffix hlatest hdone
      consumed := fun i approvalId credentials admitted answer hthread => h.consumed h' hrun' hthread
      refused := fun i call error hthread hrefusal => h.refused hthread hrefusal }

end Results

namespace Sample

/-- No audit row was written before the first request. -/
theorem database_silent : database.Silent := by
  intro m aid log hlog
  contradiction

/-- Two reviewers have found the request pending before either decides it. -/
def rivalry : List (Label Sid Choice Event Call) :=
  [.spawn 2 (.denyElevationRequest 0 none (some "token")), .perform 2 .unit,
    .perform 2 (order 1 0 1), .perform 2 (order 1 0 1), .perform 2 .unit, .perform 2 .unit] ++
    approval ++ [.perform 2 .unit, .perform 2 .unit]

/-- The error that a result is. -/
def failure : Except PyError Answer → Option PyError
  | .ok _ => none
  | .error error => some error

/-- What a thread that has ended was to decide, and the error if it has failed. -/
structure Trial where
  verdict : Option (Nat × ElevationRequestStatus × Option String)
  error : Option PyError
deriving DecidableEq

/-- How a thread has ended. -/
def trial (thread : Option (Call × Handler Answer)) : Option Trial :=
  thread.bind fun t => t.2.result.map fun result => ⟨t.1.verdict, failure result⟩

/-- The answer to the reviewer who is late. -/
def decidedByAnother : PyError :=
  .httpException 409 "Elevation request was already decided by another reviewer."

/-- The approval is answered with success, and the denial is refused. -/
theorem run_rivalry :
    (((system deployment).recorded .free).run (submission ++ rivalry)
      (System.init ⟨database, []⟩)).map (fun c =>
        (trial (c.thread 1), trial (c.thread 2))) =
      some (some ⟨some (0, .approved, some "token"), none⟩,
        some ⟨some (0, .denied, some "token"), some decidedByAnother⟩) := by
  decide +kernel

/-- A thread that has ended so. -/
theorem exists_of_trial {thread : Option (Call × Handler Answer)}
    {verdict : Nat × ElevationRequestStatus × Option String} {error : Option PyError}
    (h : trial thread = some ⟨some verdict, error⟩) :
    ∃ call program, thread = some (call, program) ∧ call.verdict = some verdict ∧
      (error = none → ∃ answer, program = .pure answer) ∧
      ∀ e, error = some e → program = .throw e := by
  obtain ⟨⟨call, program⟩, rfl, hresult⟩ := Option.bind_eq_some_iff.mp h
  obtain ⟨result, hprogram, heq⟩ := Option.map_eq_some_iff.mp hresult
  obtain ⟨hverdict, rfl⟩ := Trial.mk.inj heq
  refine ⟨call, program, rfl, hverdict, ?_⟩
  cases program with
  | pure answer =>
    obtain rfl := Option.some.inj hprogram
    exact ⟨fun _ => ⟨answer, rfl⟩, fun _ herror => by contradiction⟩
  | throw e =>
    obtain rfl := Option.some.inj hprogram
    exact ⟨fun hnone => by contradiction, fun _ herror => by rw [Option.some.inj herror]⟩
  | perform op next => contradiction

end Sample

/-- An approval and a denial of one request, of which the approval comes first: it is answered with
success, the denial is told so. -/
theorem responses_truthful_sample :
    ∃ c, ((system Sample.deployment).recorded .free).run (Sample.submission ++ Sample.rivalry)
        (System.init ⟨Sample.database, []⟩) = some c ∧
      (∃ call answer, c.thread 1 = some (call, .pure answer) ∧
        call.verdict = some (0, .approved, some "token")) ∧
      (∃ call, c.thread 2 = some (call, .throw Sample.decidedByAnother) ∧
        call.verdict = some (0, .denied, some "token")) ∧
      Truthful Sample.deployment c c := by
  obtain ⟨c, hrun, hendings⟩ := Option.map_eq_some_iff.mp Sample.run_rivalry
  obtain ⟨happroval, hdenial⟩ := Prod.mk.inj hendings
  obtain ⟨call, program, hthread, hverdict, hanswer, -⟩ := Sample.exists_of_trial happroval
  obtain ⟨call', program', hthread', hverdict', -, herror⟩ := Sample.exists_of_trial hdenial
  obtain ⟨answer, rfl⟩ := hanswer rfl
  obtain rfl := herror _ rfl
  exact ⟨c, hrun, ⟨call, answer, hthread, hverdict⟩, ⟨call', hthread', hverdict'⟩,
    responses_truthful Sample.database_initial Sample.database_silent hrun
      (show ((system Sample.deployment).recorded .free).run [] c = some c from rfl)⟩

end ElevateGate.Backend
