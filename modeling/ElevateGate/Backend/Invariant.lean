import ElevateGate.Backend.Machine

/-!
# The approval invariant

What holds of the committed requests and approvals in every reachable state, and how committed
rows may evolve. A session's uncommitted versions are described by `Local`: everything that a
commit needs, except for the approval of a request that the session has just moved to APPROVED,
the `hole` that `issueApproval` fills. `Local` speaks only of rows that the session has locked, so
no other session can invalidate it.
-/

namespace ElevateGate.Backend

open Interaction Time Text

/-- The committed row of a table with a given primary key. -/
def State.com (s : State) (t : Table) (id : Nat) : Option t.Record :=
  (s.db.committed ⟨t, id⟩).map Row.record

/-- The uncommitted version of a row that a session has written. -/
def State.own (s : State) (i : Sid) (t : Table) (id : Nat) : Option t.Record :=
  match s.db.dirty ⟨t, id⟩ with
  | some (j, version) => if j = i then version.map Row.record else none
  | none => none

/-- A committed request. -/
abbrev State.request (s : State) (id : Nat) : Option ElevationRequest := s.com .elevationRequests id

/-- A committed approval. -/
abbrev State.approval (s : State) (id : Nat) : Option Approval := s.com .approvals id

/-- A committed device. -/
abbrev State.device (s : State) (id : Nat) : Option Device := s.com .devices id

/-- A request that a session has written and not committed. -/
abbrev State.ownRequest (s : State) (i : Sid) (id : Nat) : Option ElevationRequest :=
  s.own i .elevationRequests id

/-- An approval that a session has written and not committed. -/
abbrev State.ownApproval (s : State) (i : Sid) (id : Nat) : Option Approval :=
  s.own i .approvals id

/-- `reviewed_at` is set exactly when the request has been decided. -/
def Reviewed (r : ElevationRequest) : Prop :=
  r.reviewedAt.isSome = true ↔ r.status ≠ .pending

/-- How a request may change: what it asks for never does, and a decision is final. -/
structure Decides (r r' : ElevationRequest) : Prop where
  id : r'.id = r.id
  requestUuid : r'.requestUuid = r.requestUuid
  deviceId : r'.deviceId = r.deviceId
  sha256 : r'.sha256 = r.sha256
  final : r.status ≠ .pending →
    r'.status = r.status ∧ r'.reviewedBy = r.reviewedBy ∧ r'.reviewedAt = r.reviewedAt

/-- How an approval may change: only `consumed_at` does, once. -/
structure Consumes (a a' : Approval) : Prop where
  columns : a' = { a with consumedAt := a'.consumedAt }
  once : a.consumedAt.isSome = true → a'.consumedAt = a.consumedAt

/-- How the committed rows may change. -/
structure Evolves (s s' : State) : Prop where
  device : ∀ id d, s.device id = some d → ∃ d', s'.device id = some d' ∧ d'.deviceUuid = d.deviceUuid
  request : ∀ id r, s.request id = some r → ∃ r', s'.request id = some r' ∧ Decides r r'
  approval : ∀ id a, s.approval id = some a → ∃ a', s'.approval id = some a' ∧ Consumes a a'
  signed : ∀ entry ∈ s.signed, entry ∈ s'.signed

/-- The signature of an approval is over what it binds. -/
def SignedFor (deployment : Deployment) (r : ElevationRequest) (a : Approval) : Prop :=
  ∃ payload, Signing.buildCanonicalPayload deployment.casing a.deviceUuid.textD r.requestUuid.textD
    a.sha256.text a.expiresAt a.nonce = .ok payload ∧ a.signature = deployment.sign payload

/-- An approval binds the device and the digest of its request. -/
structure Binds (deployment : Deployment) (s : State) (r : ElevationRequest) (a : Approval) :
    Prop where
  device : ∃ d, s.device r.deviceId = some d ∧ d.deviceUuid = a.deviceUuid
  sha256 : a.sha256 = r.sha256
  signature : SignedFor deployment r a

/-- Some version of a row, committed or not. -/
def State.Version (s : State) (t : Table) (id : Nat) (r : t.Record) : Prop :=
  s.com t id = some r ∨ ∃ j, s.own j t id = some r

/-- Whether two rows of a table agree on its unique indexes. -/
def SameIndex (t : Table) (r r' : t.Record) : Prop :=
  ∀ x, t.clash x r = t.clash x r' ∧ t.clash r x = t.clash r' x

/-- What holds of the committed requests and approvals. -/
structure Linked (deployment : Deployment) (s : State) : Prop where
  reviewed : ∀ id r, s.request id = some r → Reviewed r
  approved : ∀ id r, s.request id = some r → r.status = .approved →
    ∃ aid a, s.approval aid = some a ∧ a.elevationRequestId = id
  binds : ∀ aid a, s.approval aid = some a →
    ∃ r, s.request a.elevationRequestId = some r ∧ r.status = .approved ∧ Binds deployment s r a
  unique : ∀ aid aid' a a', s.approval aid = some a → s.approval aid' = some a' →
    a.elevationRequestId = a'.elevationRequestId → aid = aid'

/-- The invariant of the shared state. -/
structure Inv (deployment : Deployment) (s : State) : Prop where
  kept : ∀ k j, s.db.dirty k ≠ some (j, none)
  fresh : ∀ k, s.nextId k.table ≤ k.id → s.db.committed k = none ∧ s.db.dirty k = none
  distinct : ∀ t, t = .elevationRequests ∨ t = .approvals → ∀ id id' r r', id ≠ id' →
    s.Version t id r → s.Version t id' r' → t.clash r r' = false
  indexed : ∀ t, t = .elevationRequests ∨ t = .approvals → ∀ id j r r',
    s.com t id = some r → s.own j t id = some r' → SameIndex t r r'
  linked : Linked deployment s
  signed : ∀ issuance payload, (issuance, payload) ∈ s.signed →
    Signing.buildCanonicalPayload deployment.casing issuance.device.deviceUuid.textD
      issuance.elevationRequest.requestUuid.textD issuance.elevationRequest.sha256.text
      issuance.expiresAt issuance.nonce = .ok payload

/-- What holds of the rows that a session has written. The hole is the request, if any, that the
session has moved to APPROVED and not yet issued the approval for. -/
structure Local (deployment : Deployment) (s : State) (i : Sid) (hole : Option Nat) : Prop where
  device : ∀ id, s.own i .devices id = none
  request : ∀ id r, s.ownRequest i id = some r →
    Reviewed r ∧ ∀ old, s.request id = some old → Decides old r
  approved : ∀ id r, s.ownRequest i id = some r → r.status = .approved → hole ≠ some id →
    (∀ old, s.request id = some old → old.status = .pending) →
    ∃ aid a, s.ownApproval i aid = some a ∧ s.approval aid = none ∧ a.elevationRequestId = id
  approval : ∀ aid a, s.ownApproval i aid = some a →
    (∃ old, s.approval aid = some old ∧ Consumes old a) ∨
      (s.approval aid = none ∧ hole ≠ some a.elevationRequestId ∧
        ∃ r, s.ownRequest i a.elevationRequestId = some r ∧ r.status = .approved ∧
          (∀ old, s.request a.elevationRequestId = some old → old.status = .pending) ∧
          Binds deployment s r a)
  unique : ∀ aid aid' a a', s.ownApproval i aid = some a → s.ownApproval i aid' = some a' →
    s.approval aid = none → s.approval aid' = none →
    a.elevationRequestId = a'.elevationRequestId → aid = aid'

/-- What a session relies on: its own versions and the rows under them stay, and the committed rows
evolve. -/
structure Rely (i : Sid) (s s' : State) : Prop where
  frame : Database.Frame i s.db s'.db
  evolves : Evolves s s'

section Relations

theorem Decides.refl (r : ElevationRequest) : Decides r r :=
  ⟨rfl, rfl, rfl, rfl, fun _ => ⟨rfl, rfl, rfl⟩⟩

theorem Decides.trans {r r' r'' : ElevationRequest} (h : Decides r r') (h' : Decides r' r'') :
    Decides r r'' where
  id := h'.id.trans h.id
  requestUuid := h'.requestUuid.trans h.requestUuid
  deviceId := h'.deviceId.trans h.deviceId
  sha256 := h'.sha256.trans h.sha256
  final hstatus := by
    obtain ⟨hs, hby, hat⟩ := h.final hstatus
    obtain ⟨hs', hby', hat'⟩ := h'.final (hs ▸ hstatus)
    exact ⟨hs'.trans hs, hby'.trans hby, hat'.trans hat⟩

theorem Consumes.refl (a : Approval) : Consumes a a := ⟨rfl, fun _ => rfl⟩

theorem Consumes.trans {a a' a'' : Approval} (h : Consumes a a') (h' : Consumes a' a'') :
    Consumes a a'' where
  columns := by
    have hcolumns := h.columns
    have hcolumns' := h'.columns
    rw [hcolumns] at hcolumns'
    exact hcolumns'
  once hsome := by
    have heq := h.once hsome
    exact (h'.once (heq ▸ hsome)).trans heq

theorem Evolves.refl (s : State) : Evolves s s where
  device _ d h := ⟨d, h, rfl⟩
  request _ r h := ⟨r, h, Decides.refl r⟩
  approval _ a h := ⟨a, h, Consumes.refl a⟩
  signed _ h := h

theorem Evolves.trans {s s' s'' : State} (h : Evolves s s') (h' : Evolves s' s'') :
    Evolves s s'' where
  device id d hd := by
    obtain ⟨d', hd', heq⟩ := h.device id d hd
    obtain ⟨d'', hd'', heq'⟩ := h'.device id d' hd'
    exact ⟨d'', hd'', heq'.trans heq⟩
  request id r hr := by
    obtain ⟨r', hr', hdecides⟩ := h.request id r hr
    obtain ⟨r'', hr'', hdecides'⟩ := h'.request id r' hr'
    exact ⟨r'', hr'', hdecides.trans hdecides'⟩
  approval id a ha := by
    obtain ⟨a', ha', hconsumes⟩ := h.approval id a ha
    obtain ⟨a'', ha'', hconsumes'⟩ := h'.approval id a' ha'
    exact ⟨a'', ha'', hconsumes.trans hconsumes'⟩
  signed entry hentry := h'.signed entry (h.signed entry hentry)

theorem Rely.refl (i : Sid) (s : State) : Rely i s s := ⟨.refl i s.db, .refl s⟩

theorem Rely.trans {i : Sid} {s s' s'' : State} (h : Rely i s s') (h' : Rely i s' s'') :
    Rely i s s'' :=
  ⟨h.frame.trans h'.frame, h.evolves.trans h'.evolves⟩

end Relations

section Versions

variable {s s' : State} {i j : Sid} {t : Table} {id : Nat}

/-- A session's version of a row, taken apart. -/
theorem State.own_eq_some {r : t.Record} :
    s.own i t id = some r ↔
      ∃ row : Row ⟨t, id⟩, s.db.dirty ⟨t, id⟩ = some (i, some row) ∧ row.record = r := by
  unfold State.own
  split
  · next j version hdirty =>
    rw [hdirty]
    by_cases hj : j = i
    · subst hj
      simp
    · simp [hj]
  · next hdirty => simp [hdirty]

/-- A session that nobody disturbs keeps its own versions. -/
theorem own_of_frame (h : Database.Frame i s.db s'.db) (t : Table) (id : Nat) :
    s'.own i t id = s.own i t id := by
  refine Option.ext fun r => ?_
  rw [State.own_eq_some, State.own_eq_some]
  constructor
  · rintro ⟨row, hdirty, rfl⟩
    exact ⟨row, (h.dirty _ _).mp hdirty, rfl⟩
  · rintro ⟨row, hdirty, rfl⟩
    exact ⟨row, (h.dirty _ _).mpr hdirty, rfl⟩

/-- A session's own versions do not change while others run. -/
theorem Rely.own (h : Rely i s s') (t : Table) (id : Nat) : s'.own i t id = s.own i t id :=
  own_of_frame h.frame t id

/-- Nor do the committed rows under them. -/
theorem Rely.com (h : Rely i s s') {r : t.Record} (hown : s.own i t id = some r) :
    s'.com t id = s.com t id := by
  obtain ⟨row, hdirty, -⟩ := State.own_eq_some.mp hown
  rw [State.com, State.com, h.frame.committed _ _ hdirty]

/-- A device stays known. -/
theorem Binds.stable {deployment : Deployment} {r : ElevationRequest} {a : Approval}
    (h : Binds deployment s r a) (hevolves : Evolves s s') : Binds deployment s' r a where
  device := by
    obtain ⟨d, hd, huuid⟩ := h.device
    obtain ⟨d', hd', heq⟩ := hevolves.device _ d hd
    exact ⟨d', hd', heq.trans huuid⟩
  sha256 := h.sha256
  signature := h.signature

/-- What holds of a session's rows depends on these rows, the committed rows under them and the
devices. Audit rows do not matter. -/
theorem Local.transfer {deployment : Deployment} {hole : Option Nat}
    (h : Local deployment s i hole)
    (hown : ∀ t id, t ≠ .auditLogs → s'.own i t id = s.own i t id)
    (hcom : ∀ t id r, t ≠ .auditLogs → s.own i t id = some r → s'.com t id = s.com t id)
    (hevolves : Evolves s s') : Local deployment s' i hole where
  device id := (hown _ _ (by decide)).trans (h.device id)
  request id r hr := by
    rw [State.ownRequest, hown _ _ (by decide)] at hr
    obtain ⟨hreviewed, hdecides⟩ := h.request id r hr
    refine ⟨hreviewed, fun old hold => hdecides old ?_⟩
    rwa [State.request, hcom _ _ _ (by decide) hr] at hold
  approved id r hr hstatus hhole hpending := by
    rw [State.ownRequest, hown _ _ (by decide)] at hr
    obtain ⟨aid, a, ha, hnew, heq⟩ := h.approved id r hr hstatus hhole fun old hold =>
      hpending old (by rwa [State.request, hcom _ _ _ (by decide) hr])
    refine ⟨aid, a, ?_, ?_, heq⟩
    · rwa [State.ownApproval, hown _ _ (by decide)]
    · rwa [State.approval, hcom _ _ _ (by decide) ha]
  approval aid a ha := by
    rw [State.ownApproval, hown _ _ (by decide)] at ha
    rcases h.approval aid a ha with ⟨old, hold, hconsumes⟩ | ⟨hnew, hhole, r, hr, hrest⟩
    · exact Or.inl ⟨old, by rwa [State.approval, hcom _ _ _ (by decide) ha], hconsumes⟩
    · obtain ⟨hstatus, hpending, hbinds⟩ := hrest
      refine Or.inr ⟨by rwa [State.approval, hcom _ _ _ (by decide) ha], hhole, r, ?_, hstatus, ?_,
        hbinds.stable hevolves⟩
      · rwa [State.ownRequest, hown _ _ (by decide)]
      · intro old hold
        rw [State.request, hcom _ _ _ (by decide) hr] at hold
        exact hpending old hold
  unique aid aid' a a' ha ha' hnew hnew' heq := by
    rw [State.ownApproval, hown _ _ (by decide)] at ha ha'
    rw [State.approval, hcom _ _ _ (by decide) ha] at hnew
    rw [State.approval, hcom _ _ _ (by decide) ha'] at hnew'
    exact h.unique aid aid' a a' ha ha' hnew hnew' heq

/-- What holds of a session's rows keeps holding while others run. -/
theorem Local.stable {deployment : Deployment} {hole : Option Nat} (h : Local deployment s i hole)
    (hrely : Rely i s s') : Local deployment s' i hole :=
  h.transfer (fun t id _ => hrely.own t id) (fun _ _ _ _ hown => hrely.com hown) hrely.evolves

/-- A session that has written nothing may commit. -/
theorem Local.of_clean {deployment : Deployment} (h : ∀ t id, s.own i t id = none) :
    Local deployment s i none where
  device id := h _ id
  request id r hr := by rw [State.ownRequest, h] at hr; contradiction
  approved id r hr := by rw [State.ownRequest, h] at hr; contradiction
  approval aid a ha := by rw [State.ownApproval, h] at ha; contradiction
  unique aid _ a _ ha := by rw [State.ownApproval, h] at ha; contradiction

end Versions

end ElevateGate.Backend
