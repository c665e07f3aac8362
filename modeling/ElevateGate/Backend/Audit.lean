import ElevateGate.Backend.Transactions
import Std.Data.String.ToNat

/-!
# The audit trail

An audit row of a decision is written in the transaction that decides, and one of a consumption in
the transaction that consumes. The committed audit rows and the committed decisions therefore tell
the same story: each decision has exactly one row, which names who made it.
-/

namespace ElevateGate.Backend

open Interaction Time Text

/-- What an audit row may be about: the decision of a request or the consumption of an approval. -/
inductive Matter
  | decision (elevationRequestId : Nat)
  | consumption (approvalId : Nat)

namespace Matter

/-- The table of the row that the matter is about. -/
def table : Matter → Table
  | .decision _ => .elevationRequests
  | .consumption _ => .approvals

/-- The primary key of that row. -/
def id : Matter → Nat
  | .decision elevationRequestId => elevationRequestId
  | .consumption approvalId => approvalId

/-- Whether the row has been decided by a reviewer or an allowlist entry, or consumed. -/
def IsDone : (m : Matter) → m.table.Record → Prop
  | .decision _, r => ElevationRequest.status r = .approved ∨ ElevationRequest.status r = .denied
  | .consumption _, a => Approval.consumedAt a ≠ none

/-- Whether a row that is done still says the same. -/
def Same : (m : Matter) → m.table.Record → m.table.Record → Prop
  | .decision _, r, r' => ElevationRequest.status r' = ElevationRequest.status r ∧
    ElevationRequest.reviewedBy r' = ElevationRequest.reviewedBy r ∧
    ElevationRequest.reviewedAt r' = ElevationRequest.reviewedAt r
  | .consumption _, a, a' => Approval.consumedAt a' = Approval.consumedAt a ∧
    Approval.deviceUuid a' = Approval.deviceUuid a

/-- The action and the target of the audit rows on the matter. -/
def IsAbout : Matter → AuditLog → Prop
  | .decision elevationRequestId, log =>
    log.targetType = "elevation_request" ∧ log.targetId = toString elevationRequestId ∧
      log.action ∈ ["elevation_request.approved", "elevation_request.denied",
        "elevation_request.auto_approved"]
  | .consumption approvalId, log =>
    log.targetType = "approval" ∧ log.targetId = toString approvalId ∧
      log.action = "approval.consumed"

end Matter

/-- The audit row of a decision names the administrator who made it and what it was, or the
allowlist entry. -/
def ElevationRequest.Tells (r : ElevationRequest) (log : AuditLog) : Prop :=
  (∃ adminId, r.reviewedBy = some adminId ∧ log.actorType = .admin ∧
      log.actorId = toString adminId ∧
      ((r.status = .approved ∧ log.action = "elevation_request.approved") ∨
        (r.status = .denied ∧ log.action = "elevation_request.denied"))) ∨
    (r.reviewedBy = none ∧ r.status = .approved ∧ log.actorType = .system ∧
      (∃ entryId : Nat, log.actorId = s!"app_allowlist_entry:{entryId}") ∧
      log.action = "elevation_request.auto_approved")

/-- The audit row of a matter names who acted. -/
def Matter.Tells : (m : Matter) → m.table.Record → AuditLog → Prop
  | .decision _, r, log => ElevationRequest.Tells r log
  | .consumption _, a, log => log.actorType = .device ∧ log.actorId = (Approval.deviceUuid a).textD

/-- A matter that is done has one audit row, and the audit rows of a matter tell the truth. -/
structure State.Audited (s : State) : Prop where
  told : ∀ (m : Matter) r, s.com m.table m.id = some r → m.IsDone r →
    ∃! aid, ∃ log, s.com .auditLogs aid = some log ∧ m.IsAbout log
  true_ : ∀ (m : Matter) aid log, s.com .auditLogs aid = some log → m.IsAbout log →
    ∃ r, s.com m.table m.id = some r ∧ m.IsDone r ∧ m.Tells r log

/-- The rows of a transaction that finishes a matter: its row was not done before, and one audit row
tells of it. -/
def Finishes (list : List Change) (m : Matter) : Prop :=
  ∃ r aid log, latest m.table m.id list = some r ∧ m.IsDone r ∧
    latest .auditLogs aid list = some log ∧ m.IsAbout log ∧ m.Tells r log ∧
    (∀ aid' log', latest .auditLogs aid' list = some log' → m.IsAbout log' → aid' = aid) ∧
    ∃ old new, (⟨m.table, old, new⟩ : Change) ∈ list ∧ m.table.id new = m.id ∧
      ∀ r', old = some r' → ¬ m.IsDone r'

/-- The rows of a transaction that has nothing to do with a matter. -/
def Ignores (list : List Change) (m : Matter) : Prop :=
  (∀ r, latest m.table m.id list = some r → ¬ m.IsDone r) ∧
    ∀ aid log, latest .auditLogs aid list = some log → ¬ m.IsAbout log

/-- An audit row is written once. -/
def Change.Fresh (c : Change) : Prop := c.table = .auditLogs → c.old = none

/-- The rows of a transaction that keeps the audit trail. -/
structure Accounts (list : List Change) : Prop where
  fresh : ∀ c ∈ list, c.Fresh
  each : ∀ m, Finishes list m ∨ Ignores list m

section Preservation

variable {deployment : Deployment} {s s' : State} {i : Sid} {m : Matter}

/-- What is done is still done if what matters stays the same. -/
theorem Matter.Same.isDone {r r' : m.table.Record} (h : m.Same r r') (hdone : m.IsDone r) :
    m.IsDone r' := by
  cases m with
  | decision elevationRequestId =>
    rcases hdone with hdone | hdone
    · exact Or.inl (h.1.trans hdone)
    · exact Or.inr (h.1.trans hdone)
  | consumption approvalId => exact fun hnone => hdone (h.1.symm.trans hnone)

/-- And what tells of it keeps telling. -/
theorem Matter.Same.tells {r r' : m.table.Record} (h : m.Same r r') {log : AuditLog}
    (htells : m.Tells r log) : m.Tells r' log := by
  cases m with
  | decision elevationRequestId =>
    simp only [Matter.Tells, ElevationRequest.Tells, h.1, h.2.1] at htells ⊢
    exact htells
  | consumption approvalId =>
    simp only [Matter.Tells, h.2] at htells ⊢
    exact htells

/-- What is done stays the same. -/
theorem Evolves.done (h : Evolves s s') {r : m.table.Record} (hr : s.com m.table m.id = some r)
    (hdone : m.IsDone r) : ∃ r', s'.com m.table m.id = some r' ∧ m.Same r r' := by
  cases m with
  | decision elevationRequestId =>
    obtain ⟨r', hr', hdecides⟩ := h.request _ r hr
    have hdecided : ElevationRequest.status r ≠ .pending := by
      rcases hdone with h | h <;> rw [h] <;> simp
    exact ⟨r', hr', hdecides.final hdecided⟩
  | consumption approvalId =>
    obtain ⟨a', ha', hconsumes⟩ := h.approval _ r hr
    refine ⟨a', ha', hconsumes.once (Option.isSome_iff_ne_none.mpr hdone), ?_⟩
    rw [hconsumes.columns]

/-- A commit whose rows of a table are all new adds them to those that were there. -/
private theorem com_commit_fresh (hinv : Inv deployment s) {done : List Deed}
    (hreflects : Reflects i s done) {t : Table}
    (hfresh : ∀ old new, (⟨t, old, new⟩ : Change) ∈ changes done → old = none) (id : Nat)
    (r : t.Record) : (s.commit i).com t id = some r ↔
      latest t id (changes done) = some r ∨ s.com t id = some r := by
  rw [com_commit hinv, hreflects.own, Option.or_eq_some_iff]
  constructor
  · exact fun h => h.imp (fun h => h) And.right
  · rintro (h | h)
    · exact Or.inl h
    · refine Or.inr ⟨Option.eq_none_iff_forall_ne_some.mpr fun r' hr' => ?_, h⟩
      obtain ⟨old, hmem⟩ := exists_of_latest hr'
      have hold := hreflects.old _ hmem
      rw [show Change.id ⟨t, old, r'⟩ = id from id_of_latest hr', hfresh _ _ hmem] at hold
      exact absurd (hold.symm.trans h) (by simp)

/-- A commit adds its audit rows to those that were there. -/
theorem auditLogs_commit (hinv : Inv deployment s) {done : List Deed}
    (hreflects : Reflects i s done) (hfresh : ∀ c ∈ changes done, c.Fresh) (aid : Nat)
    (log : AuditLog) : (s.commit i).com .auditLogs aid = some log ↔
      latest .auditLogs aid (changes done) = some log ∨ s.com .auditLogs aid = some log :=
  com_commit_fresh hinv hreflects (fun _ _ hmem => hfresh _ hmem rfl) aid log

/-- A commit whose rows keep the audit trail keeps it. -/
theorem State.Audited.commit (h : s.Audited) (hinv : Inv deployment s)
    (hevolves : Evolves s (s.commit i)) {done : List Deed} (hreflects : Reflects i s done)
    (haccounts : Accounts (changes done)) : (s.commit i).Audited := by
  have hcom : ∀ t id, (s.commit i).com t id = (latest t id (changes done)).or (s.com t id) :=
    fun t id => by rw [com_commit hinv, hreflects.own]
  have hlogs := auditLogs_commit hinv hreflects haccounts.fresh
  constructor
  · intro m r hr hdone
    rcases haccounts.each m with ⟨r', aid, log, hlatest, -, hlog, habout, -, hunique, old, new, hmem,
      hid, hold⟩ | ⟨hnot, hnone⟩
    · refine ⟨aid, ⟨log, (hlogs aid log).mpr (Or.inl hlog), habout⟩, ?_⟩
      rintro aid' ⟨log', hlog', habout'⟩
      rcases (hlogs aid' log').mp hlog' with hlog' | hlog'
      · exact hunique aid' log' hlog' habout'
      · -- an older row would be about a matter that was not done
        obtain ⟨r0, hr0, hdone0, -⟩ := h.true_ m aid' log' hlog' habout'
        have hsame := hreflects.old _ hmem
        rw [show Change.id ⟨m.table, old, new⟩ = m.id from hid] at hsame
        exact absurd hdone0 (hold r0 (hsame.symm.trans hr0))
    · rw [hcom, Option.or_eq_some_iff] at hr
      rcases hr with hr | ⟨-, hr⟩
      · exact absurd hdone (hnot r hr)
      · obtain ⟨aid, ⟨log, hlog, habout⟩, hunique⟩ := h.told m r hr hdone
        refine ⟨aid, ⟨log, (hlogs aid log).mpr (Or.inr hlog), habout⟩, ?_⟩
        rintro aid' ⟨log', hlog', habout'⟩
        rcases (hlogs aid' log').mp hlog' with hlog' | hlog'
        · exact absurd habout' (hnone aid' log' hlog')
        · exact hunique aid' ⟨log', hlog', habout'⟩
  · intro m aid log hlog habout
    rcases (hlogs aid log).mp hlog with hlog | hlog
    · rcases haccounts.each m with ⟨r, aid', log', hlatest, hdone, hlog', -, htells, hunique, -⟩ |
        ⟨-, hnone⟩
      · obtain rfl := hunique aid log hlog habout
        obtain rfl := Option.some.inj (hlog.symm.trans hlog')
        exact ⟨r, by rw [hcom, hlatest]; rfl, hdone, htells⟩
      · exact absurd habout (hnone aid log hlog)
    · obtain ⟨r, hr, hdone, htells⟩ := h.true_ m aid log hlog habout
      obtain ⟨r', hr', hsame⟩ := hevolves.done hr hdone
      exact ⟨r', hr', hsame.isDone hdone, hsame.tells htells⟩

end Preservation

/-- The columns of a request that a decision writes. -/
def Redecides (r r' : ElevationRequest) : Prop :=
  r' = { r with status := r'.status, reviewedBy := r'.reviewedBy, reviewedAt := r'.reviewedAt }

/-- A request that was pending and has expired. -/
def Expires (c : Change) : Prop :=
  ∃ r r' : ElevationRequest, c = .request (some r) r' ∧ r.status = .pending ∧
    r'.status = .expired ∧ Redecides r r'

/-- The rows of the transactions that the endpoints commit. -/
inductive Transaction : List Change → Prop
  | submission {r : ElevationRequest} {log : AuditLog} (hpending : r.status = .pending)
      (haction : log.action = "elevation_request.submitted") :
      Transaction [.log none log, .request none r]
  | autoApproval {r r' : ElevationRequest} {a : Approval} {log log' : AuditLog}
      (hpending : r.status = .pending) (haction : log.action = "elevation_request.submitted")
      (hid : r'.id = r.id) (hstatus : r'.status = .approved) (hconsumed : a.consumedAt = none)
      (habout : (Matter.decision r'.id).IsAbout log') (htells : r'.Tells log') :
      Transaction [.log none log', .approval none a, .request none r', .log none log,
        .request none r]
  | approval {r r' : ElevationRequest} {a : Approval} {log : AuditLog}
      (hpending : r.status = .pending) (hredecides : Redecides r r') (hstatus : r'.status = .approved)
      (hconsumed : a.consumedAt = none) (habout : (Matter.decision r'.id).IsAbout log)
      (htells : r'.Tells log) :
      Transaction [.log none log, .approval none a, .request (some r) r']
  | denial {r r' : ElevationRequest} {log : AuditLog} (hpending : r.status = .pending)
      (hredecides : Redecides r r') (hstatus : r'.status = .denied)
      (habout : (Matter.decision r'.id).IsAbout log) (htells : r'.Tells log) :
      Transaction [.log none log, .request (some r) r']
  | consumption {a a' : Approval} {log : AuditLog} (hconsumed : a.consumedAt = none)
      (hid : a'.id = a.id) (hdone : a'.consumedAt ≠ none)
      (habout : (Matter.consumption a'.id).IsAbout log)
      (htells : (Matter.consumption a'.id).Tells a' log) :
      Transaction [.log none log, .approval (some a) a']
  | expiry {list : List Change} (h : ∀ c ∈ list, Expires c) : Transaction list

section Shapes

variable {list : List Change} {m m' : Matter} {log : AuditLog}

@[simp] theorem fresh_log : (Change.log none log).Fresh := fun _ => rfl

@[simp] theorem fresh_request {old : Option ElevationRequest} {r : ElevationRequest} :
    (Change.request old r).Fresh := fun h => absurd h (by simp [Change.request])

@[simp] theorem fresh_approval {old : Option Approval} {a : Approval} :
    (Change.approval old a).Fresh := fun h => absurd h (by simp [Change.approval])

/-- The first of two rows with a given key, taken apart. -/
private theorem ite_some_eq_some {α : Type} {p : Prop} [Decidable p] {x y : α} {o : Option α} :
    (if p then some x else o) = some y ↔ (p ∧ x = y) ∨ (¬ p ∧ o = some y) := by
  by_cases h : p <;> simp [h]

/-- An audit row is about one matter. -/
theorem Matter.IsAbout.unique (h : m.IsAbout log) (h' : m'.IsAbout log) : m = m' := by
  cases m with
  | decision id =>
    cases m' with
    | decision id' => rw [Nat.repr_inj.mp (h.2.1.symm.trans h'.2.1)]
    | consumption id' => exact absurd (h.1.symm.trans h'.1) (by simp)
  | consumption id =>
    cases m' with
    | decision id' => exact absurd (h.1.symm.trans h'.1) (by simp)
    | consumption id' => rw [Nat.repr_inj.mp (h.2.1.symm.trans h'.2.1)]

/-- A row about a submission is about no matter. -/
theorem not_isAbout_of_submitted (h : log.action = "elevation_request.submitted") :
    ¬ m.IsAbout log := by
  intro habout
  cases m with
  | decision id =>
    have hmem := habout.2.2
    rw [h] at hmem
    exact absurd hmem (by decide)
  | consumption id => exact absurd (h.symm.trans habout.2.2) (by simp)

/-- A transaction ignores the matters that its rows are not about, unless it writes a decided request
or a consumed approval. -/
private theorem ignores_of
    (hrequest : ∀ id r, m = .decision id → latestRequest id list = some r →
      r.status ≠ .approved ∧ r.status ≠ .denied)
    (happroval : ∀ id a, m = .consumption id → latestApproval id list = some a →
      a.consumedAt = none)
    (hlog : ∀ aid log, latestLog aid list = some log → ¬ m.IsAbout log) : Ignores list m := by
  refine ⟨?_, hlog⟩
  cases m with
  | decision id =>
    intro r hr hdone
    obtain ⟨happroved, hdenied⟩ := hrequest id r rfl hr
    exact hdone.elim happroved hdenied
  | consumption id =>
    intro a ha hdone
    exact hdone (happroval id a rfl ha)

/-- A transaction that decides a pending request and tells of it. -/
private theorem finishes_decision {r : ElevationRequest} (old : Option ElevationRequest)
    (new : ElevationRequest) (aid : Nat) (hlatest : latestRequest r.id list = some r)
    (hdecided : r.status = .approved ∨ r.status = .denied) (hlog : latestLog aid list = some log)
    (habout : (Matter.decision r.id).IsAbout log) (htells : r.Tells log)
    (hunique : ∀ aid' log', latestLog aid' list = some log' →
      (Matter.decision r.id).IsAbout log' → aid' = aid)
    (hmem : .request old new ∈ list) (hid : new.id = r.id)
    (hold : ∀ r', old = some r' → r'.status = .pending) : Finishes list (.decision r.id) := by
  refine ⟨r, aid, log, hlatest, hdecided, hlog, habout, htells, hunique, old, new, hmem, hid, ?_⟩
  intro r' hr' hdone
  have hpending := hold r' hr'
  rcases hdone with h | h <;> rw [hpending] at h <;> contradiction

/-- A transaction that consumes an approval and tells of it. -/
private theorem finishes_consumption {a : Approval} (old : Option Approval) (new : Approval)
    (aid : Nat) (hlatest : latestApproval a.id list = some a) (hdone : a.consumedAt ≠ none)
    (hlog : latestLog aid list = some log) (habout : (Matter.consumption a.id).IsAbout log)
    (htells : (Matter.consumption a.id).Tells a log)
    (hunique : ∀ aid' log', latestLog aid' list = some log' →
      (Matter.consumption a.id).IsAbout log' → aid' = aid)
    (hmem : .approval old new ∈ list) (hid : new.id = a.id)
    (hold : ∀ a', old = some a' → a'.consumedAt = none) : Finishes list (.consumption a.id) :=
  ⟨a, aid, log, hlatest, hdone, hlog, habout, htells, hunique, old, new, hmem, hid,
    fun a' ha' hdone' => hdone' (hold a' ha')⟩

/-- A transaction that finishes one matter and ignores the others keeps the audit trail. -/
private theorem accounts_of_finishes (hfresh : ∀ c ∈ list, c.Fresh)
    (hfinishes : Finishes list m) (hothers : ∀ m', m' ≠ m → Ignores list m') : Accounts list where
  fresh := hfresh
  each m' := by
    by_cases hm : m' = m
    · exact Or.inl (hm ▸ hfinishes)
    · exact Or.inr (hothers m' hm)

/-- So does one that only expires requests. -/
private theorem accounts_of_expires (h : ∀ c ∈ list, Expires c) : Accounts list where
  fresh c hc htable := by
    obtain ⟨r, r', rfl, -⟩ := h c hc
    contradiction
  each m := by
    refine Or.inr (ignores_of (fun id r _ hr => ?_) (fun id a _ ha => ?_) fun aid log hlog => ?_)
    · obtain ⟨old, hmem⟩ := exists_of_latest hr
      obtain ⟨r1, r2, heq, -, hexpired, -⟩ := h _ hmem
      obtain ⟨-, -, hnew⟩ := Change.mk.inj heq
      obtain rfl : r = r2 := eq_of_heq hnew
      simp [hexpired]
    · obtain ⟨old, hmem⟩ := exists_of_latest ha
      obtain ⟨r1, r2, heq, -⟩ := h _ hmem
      exact absurd (Change.mk.inj heq).1 (by simp)
    · obtain ⟨old, hmem⟩ := exists_of_latest hlog
      obtain ⟨r1, r2, heq, -⟩ := h _ hmem
      exact absurd (Change.mk.inj heq).1 (by simp)

/-- A transaction replaces a request by one with the same columns but those of a decision. -/
theorem Transaction.redecides (h : Transaction list) {r r' : ElevationRequest}
    (hmem : .request (some r) r' ∈ list) : Redecides r r' := by
  cases h with
  | submission => simp at hmem
  | autoApproval => simp at hmem
  | approval _ hredecides =>
    obtain ⟨rfl, rfl⟩ : r = _ ∧ r' = _ := by simpa using hmem
    exact hredecides
  | denial _ hredecides =>
    obtain ⟨rfl, rfl⟩ : r = _ ∧ r' = _ := by simpa using hmem
    exact hredecides
  | consumption => simp at hmem
  | expiry h =>
    obtain ⟨r1, r2, heq, -, -, hredecides⟩ := h _ hmem
    obtain ⟨hold, rfl⟩ := Change.request_inj.mp heq
    obtain rfl := Option.some.inj hold
    exact hredecides

/-- The transactions of the endpoints keep the audit trail. -/
theorem Transaction.accounts (h : Transaction list) : Accounts list := by
  cases h with
  | @submission r log hpending haction =>
    refine ⟨by simp, fun m => Or.inr (ignores_of (fun id r' _ hr' => ?_) (fun id a _ ha => ?_)
      fun aid log' hlog' => ?_)⟩
    · simp at hr'
      simp [← hr'.2, hpending]
    · simp at ha
    · simp at hlog'
      exact hlog'.2 ▸ not_isAbout_of_submitted haction
  | @autoApproval r r' a log log' hpending haction hid hstatus hconsumed habout htells =>
    refine accounts_of_finishes (m := .decision r'.id) (by simp) ?_ fun m hm => ?_
    · refine finishes_decision none r log'.id (by simp) (Or.inl hstatus)
        (by simp) habout htells (fun aid log'' hlog'' habout'' => ?_) (by simp) hid.symm (by simp)
      simp only [latestLog_log, latestLog_approval, latestLog_request, latestLog_nil,
        ite_some_eq_some] at hlog''
      rcases hlog'' with ⟨haid, -⟩ | ⟨-, ⟨-, rfl⟩ | ⟨-, hnone⟩⟩
      · exact haid.symm
      · exact absurd habout'' (not_isAbout_of_submitted haction)
      · contradiction
    · refine ignores_of (fun id r'' hdecision hr'' => ?_) (fun id a' _ ha' => ?_)
        fun aid log'' hlog'' habout'' => ?_
      · have hne : r'.id ≠ id := fun heq => hm (hdecision.trans (heq ▸ rfl))
        simp [← hid, hne] at hr''
      · simp at ha'
        exact ha'.2 ▸ hconsumed
      · simp only [latestLog_log, latestLog_approval, latestLog_request, latestLog_nil,
          ite_some_eq_some] at hlog''
        rcases hlog'' with ⟨-, rfl⟩ | ⟨-, ⟨-, rfl⟩ | ⟨-, hnone⟩⟩
        · exact hm (habout''.unique habout)
        · exact not_isAbout_of_submitted haction habout''
        · contradiction
  | @approval r r' a log hpending hredecides hstatus hconsumed habout htells =>
    refine accounts_of_finishes (m := .decision r'.id) (by simp) ?_ fun m hm => ?_
    · refine finishes_decision (some r) r' log.id (by simp) (Or.inl hstatus)
        (by simp) habout htells (fun aid log' hlog' _ => ?_) (by simp) rfl (by simp [hpending])
      simp at hlog'
      exact hlog'.1.symm
    · refine ignores_of (fun id r'' hdecision hr'' => ?_) (fun id a' _ ha' => ?_)
        fun aid log' hlog' habout' => ?_
      · have hne : r'.id ≠ id := fun heq => hm (hdecision.trans (heq ▸ rfl))
        simp [hne] at hr''
      · simp at ha'
        exact ha'.2 ▸ hconsumed
      · simp at hlog'
        exact hm ((hlog'.2 ▸ habout').unique habout)
  | @denial r r' log hpending hredecides hstatus habout htells =>
    refine accounts_of_finishes (m := .decision r'.id) (by simp) ?_ fun m hm => ?_
    · refine finishes_decision (some r) r' log.id (by simp) (Or.inr hstatus)
        (by simp) habout htells (fun aid log' hlog' _ => ?_) (by simp) rfl (by simp [hpending])
      simp at hlog'
      exact hlog'.1.symm
    · refine ignores_of (fun id r'' hdecision hr'' => ?_) (fun id a' _ ha' => ?_)
        fun aid log' hlog' habout' => ?_
      · have hne : r'.id ≠ id := fun heq => hm (hdecision.trans (heq ▸ rfl))
        simp [hne] at hr''
      · simp at ha'
      · simp at hlog'
        exact hm ((hlog'.2 ▸ habout').unique habout)
  | @consumption a a' log hconsumed hid hdone habout htells =>
    refine accounts_of_finishes (m := .consumption a'.id) (by simp) ?_ fun m hm => ?_
    · refine finishes_consumption (some a) a' log.id (by simp) hdone
        (by simp) habout htells (fun aid log' hlog' _ => ?_) (by simp) rfl (by simp [hconsumed])
      simp at hlog'
      exact hlog'.1.symm
    · refine ignores_of (fun id r _ hr => ?_) (fun id a'' hmatter ha'' => ?_)
        fun aid log' hlog' habout' => ?_
      · simp at hr
      · have hne : a'.id ≠ id := fun heq => hm (hmatter.trans (heq ▸ rfl))
        simp [hne] at ha''
      · simp at hlog'
        exact hm ((hlog'.2 ▸ habout').unique habout)
  | expiry h => exact accounts_of_expires h

end Shapes

end ElevateGate.Backend
