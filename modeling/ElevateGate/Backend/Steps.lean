import ElevateGate.Backend.Invariant

/-!
# What one operation may do

The effect of every kind of step on the committed rows and on a session's own versions, and that
each keeps the invariant and what the other sessions rely on. Only a commit needs to know what the
session has written.
-/

namespace ElevateGate.Backend

open Interaction Time Text

variable {deployment : Deployment} {s s' : State} {i j : Sid} {t : Table} {id : Nat}

/-- The discipline that the endpoints keep. -/
def discipline (deployment : Deployment) : Discipline Sid Call PyError Answer State where
  inv := Inv deployment
  rely := Rely
  evolves := Evolves
  post _ _ _ _ := True
  rely_refl := Rely.refl
  rely_trans := Rely.trans
  evolves_refl := Evolves.refl
  evolves_trans := Evolves.trans

/-- What session `i` owes to the others. -/
abbrev Guar (deployment : Deployment) (i : Sid) (s s' : State) : Prop :=
  (discipline deployment).Guarantee i s s'

/-- The committed rows are a function of the committed part of the database. -/
theorem com_congr (hcommitted : s'.db.committed = s.db.committed) (t : Table) (id : Nat) :
    s'.com t id = s.com t id := by
  rw [State.com, State.com, hcommitted]

/-- A state with the same committed rows has evolved. -/
theorem Evolves.of_committed (hcommitted : s'.db.committed = s.db.committed)
    (hsigned : ∀ entry ∈ s.signed, entry ∈ s'.signed) : Evolves s s' where
  device _ d h := ⟨d, (com_congr hcommitted _ _).trans h, rfl⟩
  request _ r h := ⟨r, (com_congr hcommitted _ _).trans h, Decides.refl r⟩
  approval _ a h := ⟨a, (com_congr hcommitted _ _).trans h, Consumes.refl a⟩
  signed := hsigned

/-- The links between committed requests and approvals depend on these rows alone, once devices
are kept. -/
theorem Linked.of_com (h : Linked deployment s) (hevolves : Evolves s s')
    (hrequest : ∀ id, s'.request id = s.request id)
    (happroval : ∀ id, s'.approval id = s.approval id) : Linked deployment s' where
  reviewed id r hr := h.reviewed id r (by rwa [← hrequest])
  approved id r hr hstatus := by
    rw [hrequest] at hr
    obtain ⟨aid, a, ha, heq⟩ := h.approved id r hr hstatus
    exact ⟨aid, a, by rwa [happroval], heq⟩
  binds aid a ha := by
    rw [happroval] at ha
    obtain ⟨r, hr, hstatus, hbinds⟩ := h.binds aid a ha
    exact ⟨r, by rwa [hrequest], hstatus, hbinds.stable hevolves⟩
  unique aid aid' a a' ha ha' heq := by
    rw [happroval] at ha ha'
    exact h.unique aid aid' a a' ha ha' heq

/-- A step that touches no row keeps the invariant, whatever it signs. -/
theorem Inv.of_db (h : Inv deployment s) (hdb : s'.db = s.db)
    (hnextId : ∀ t, s.nextId t ≤ s'.nextId t)
    (hsigned : ∀ entry ∈ s.signed, entry ∈ s'.signed)
    (hpayload : ∀ issuance payload, (issuance, payload) ∈ s'.signed →
      (issuance, payload) ∈ s.signed ∨ Signing.buildCanonicalPayload deployment.casing
        issuance.device.deviceUuid.textD issuance.elevationRequest.requestUuid.textD
        issuance.elevationRequest.sha256.text issuance.expiresAt issuance.nonce = .ok payload) :
    Inv deployment s' where
  kept k j := by rw [hdb]; exact h.kept k j
  fresh k hk := by rw [hdb]; exact h.fresh k (Nat.le_trans (hnextId _) hk)
  distinct t ht id id' r r' hne hr hr' := by
    have hversion : ∀ id r, s'.Version t id r → s.Version t id r := fun id r hv => by
      simpa only [State.Version, State.com, State.own, hdb] using hv
    exact h.distinct t ht id id' r r' hne (hversion id r hr) (hversion id' r' hr')
  indexed t ht id j r r' hr hr' := by
    simp only [State.com, State.own, hdb] at hr hr'
    exact h.indexed t ht id j r r' hr hr'
  linked := h.linked.of_com (.of_committed (by rw [hdb]) hsigned)
    (fun id => com_congr (by rw [hdb]) _ id) (fun id => com_congr (by rw [hdb]) _ id)
  signed issuance payload hmem := (hpayload issuance payload hmem).elim (h.signed _ _) fun h => h

/-- A step that touches no row is one that everybody, the session itself included, tolerates. -/
theorem Rely.of_db (hdb : s'.db = s.db) (hsigned : ∀ entry ∈ s.signed, entry ∈ s'.signed) :
    Rely i s s' where
  frame := by rw [hdb]; exact .refl i s.db
  evolves := .of_committed (by rw [hdb]) hsigned

/-- A step that touches no row keeps the guarantee. -/
theorem guar_of_db (h : Inv deployment s) (hdb : s'.db = s.db) (hnextId : s'.nextId = s.nextId)
    (hsigned : s'.signed = s.signed) : Guar deployment i s s' where
  inv := h.of_db hdb (fun t => by rw [hnextId]) (fun _ => by rw [hsigned]; exact fun h => h)
    fun _ _ hmem => Or.inl (by rwa [← hsigned])
  evolves := .of_committed (by rw [hdb]) fun _ => by rw [hsigned]; exact fun h => h
  rely _ _ := .of_db hdb fun _ => by rw [hsigned]; exact fun h => h

section Writing

/-- A visible row is the session's own version or a committed one. -/
theorem view_eq_some {row : Row ⟨t, id⟩} (h : s.db.view i ⟨t, id⟩ = some row) :
    s.own i t id = some row.record ∨ (s.own i t id = none ∧ s.com t id = some row.record) := by
  rcases s.db.view_cases i ⟨t, id⟩ with hown | ⟨hnone, hcommitted⟩
  · rw [h] at hown
    exact Or.inl (State.own_eq_some.mpr ⟨row, hown, rfl⟩)
  · refine Or.inr ⟨?_, ?_⟩
    · rw [Option.eq_none_iff_forall_ne_some]
      intro r hr
      obtain ⟨row', hdirty, -⟩ := State.own_eq_some.mp hr
      exact hnone _ hdirty
    · rw [State.com, ← hcommitted, h]
      rfl

/-- A visible row is a version of the row. -/
theorem version_of_view {row : Row ⟨t, id⟩} (h : s.db.view i ⟨t, id⟩ = some row) :
    s.Version t id row.record :=
  (view_eq_some h).elim (fun hown => Or.inr ⟨i, hown⟩) fun hcom => Or.inl hcom.2

/-- The state after a session has written a row. -/
def State.written (s : State) (i : Sid) (t : Table) (id : Nat) (row : Row ⟨t, id⟩)
    (nextId : Table → Nat) : State :=
  { s.begin_ i with db := s.db.write i ⟨t, id⟩ (some row), nextId := nextId }

variable {row : Row ⟨t, id⟩} {nextId : Table → Nat}

/-- Writing a row makes it the session's own version. -/
theorem own_written_self : (s.written i t id row nextId).own i t id = some row.record := by
  simp [State.own, State.written]

/-- Writing a row leaves the versions of other rows. -/
theorem own_written_ne {t' : Table} {id' : Nat} (h : (⟨t', id'⟩ : Key) ≠ ⟨t, id⟩) :
    (s.written i t id row nextId).own j t' id' = s.own j t' id' := by
  simp only [State.own, State.written]
  rw [Database.write_dirty_ne _ h]

/-- Writing a row leaves the committed rows. -/
theorem com_written {t' : Table} {id' : Nat} :
    (s.written i t id row nextId).com t' id' = s.com t' id' := rfl

/-- A version after a write is the written row or was a version before. -/
theorem version_written {t' : Table} {id' : Nat} {r : t'.Record}
    (h : (s.written i t id row nextId).Version t' id' r) :
    s.Version t' id' r ∨ ∃ (ht : t' = t), id' = id ∧ ht ▸ r = row.record := by
  rcases h with hcom | ⟨j, hown⟩
  · exact Or.inl (Or.inl hcom)
  · by_cases hkey : (⟨t', id'⟩ : Key) = ⟨t, id⟩
    · obtain ⟨rfl, rfl⟩ := Key.mk.inj hkey
      refine Or.inr ⟨rfl, rfl, ?_⟩
      obtain ⟨row', hdirty, rfl⟩ := State.own_eq_some.mp hown
      simp only [State.written, Database.write_dirty_self, Option.some.injEq,
        Prod.mk.injEq] at hdirty
      rw [hdirty.2]
    · rw [own_written_ne hkey] at hown
      exact Or.inl (Or.inr ⟨j, hown⟩)

/-- Writing a free row that agrees with the committed one on the unique indexes, and that no
version of another row clashes with, keeps the guarantee. -/
theorem guar_written (hinv : Inv deployment s) (hfree : s.db.free i ⟨t, id⟩ = true)
    (hnextId : ∀ t', s.nextId t' ≤ nextId t') (hid : id < nextId t)
    (hclash : t = .elevationRequests ∨ t = .approvals → ∀ id' r', id' ≠ id →
      s.Version t id' r' → t.clash row.record r' = false ∧ t.clash r' row.record = false)
    (hindex : t = .elevationRequests ∨ t = .approvals → ∀ r, s.com t id = some r →
      SameIndex t r row.record) :
    Guar deployment i s (s.written i t id row nextId) := by
  have hevolves : Evolves s (s.written i t id row nextId) := .of_committed rfl fun _ h => h
  refine ⟨⟨?_, ?_, ?_, ?_, ?_, hinv.signed⟩, hevolves, fun j hj => ⟨?_, hevolves⟩⟩
  · intro k j hdeleted
    by_cases hk : k = ⟨t, id⟩
    · subst hk
      simp [State.written] at hdeleted
    · rw [State.written, Database.write_dirty_ne _ hk] at hdeleted
      exact hinv.kept k j hdeleted
  · intro k hk
    have hne : k ≠ ⟨t, id⟩ := by
      rintro rfl
      exact absurd hk (Nat.not_le_of_lt hid)
    obtain ⟨hcommitted, hdirty⟩ := hinv.fresh k (Nat.le_trans (hnextId _) hk)
    refine ⟨hcommitted, ?_⟩
    rw [State.written, Database.write_dirty_ne _ hne]
    exact hdirty
  · intro t' ht' id1 id2 r1 r2 hne h1 h2
    rcases version_written h1 with hv1 | ⟨rfl, rfl, hr1⟩
    · rcases version_written h2 with hv2 | ⟨rfl, rfl, hr2⟩
      · exact hinv.distinct t' ht' id1 id2 r1 r2 hne hv1 hv2
      · obtain rfl : r2 = row.record := hr2
        exact (hclash ht' id1 r1 hne hv1).2
    · obtain rfl : r1 = row.record := hr1
      rcases version_written h2 with hv2 | ⟨-, rfl, -⟩
      · exact (hclash ht' id2 r2 hne.symm hv2).1
      · exact absurd rfl hne
  · intro t' ht' id' j r r' hr hr'
    by_cases hkey : (⟨t', id'⟩ : Key) = ⟨t, id⟩
    · obtain ⟨rfl, rfl⟩ := Key.mk.inj hkey
      obtain ⟨row', hdirty, rfl⟩ := State.own_eq_some.mp hr'
      simp only [State.written, Database.write_dirty_self, Option.some.injEq,
        Prod.mk.injEq] at hdirty
      rw [← hdirty.2]
      exact hindex ht' r hr
    · rw [own_written_ne hkey] at hr'
      exact hinv.indexed t' ht' id' j r r' hr hr'
  · exact hinv.linked.of_com hevolves (fun _ => rfl) fun _ => rfl
  · exact Database.write_frame hj.symm hfree (some row)

end Writing

section Ending

/-- After a session has ended it has no versions left. -/
theorem own_dropDirty {db : Database Key Row Sid} (hdirty : s'.db.dirty = db.dropDirty i) :
    s'.own i t id = none := by
  rw [Option.eq_none_iff_forall_ne_some]
  intro r hr
  obtain ⟨row, hrow, -⟩ := State.own_eq_some.mp hr
  rw [hdirty] at hrow
  exact Database.dropDirty_self _ _ hrow

/-- A version that is left after a session has ended was there before. -/
theorem own_of_dropDirty (hdirty : s'.db.dirty = s.db.dropDirty i) {r : t.Record}
    (h : s'.own j t id = some r) : s.own j t id = some r := by
  obtain ⟨row, hrow, rfl⟩ := State.own_eq_some.mp h
  rw [hdirty] at hrow
  exact State.own_eq_some.mpr ⟨row, (Database.dropDirty_eq_some.mp hrow).1, rfl⟩

/-- Dropping versions keeps the invariant. -/
theorem Inv.of_dropped (hinv : Inv deployment s) (hcommitted : s'.db.committed = s.db.committed)
    (hdirty : ∀ k version, s'.db.dirty k = some version → s.db.dirty k = some version)
    (hnextId : s'.nextId = s.nextId) (hsigned : s'.signed = s.signed) : Inv deployment s' where
  kept k j hdeleted := hinv.kept k j (hdirty k _ hdeleted)
  fresh k hk := by
    rw [hnextId] at hk
    obtain ⟨hcom, hnone⟩ := hinv.fresh k hk
    refine ⟨by rw [hcommitted, hcom], Option.eq_none_iff_forall_ne_some.mpr fun version h => ?_⟩
    rw [hdirty k version h] at hnone
    contradiction
  distinct t ht id id' r r' hne hr hr' := by
    have hversion : ∀ id r, s'.Version t id r → s.Version t id r := by
      rintro id r (hcom | ⟨j, hown⟩)
      · exact Or.inl (by rwa [← com_congr hcommitted])
      · obtain ⟨row, hrow, rfl⟩ := State.own_eq_some.mp hown
        exact Or.inr ⟨j, State.own_eq_some.mpr ⟨row, hdirty _ _ hrow, rfl⟩⟩
    exact hinv.distinct t ht id id' r r' hne (hversion id r hr) (hversion id' r' hr')
  indexed t ht id j r r' hr hr' := by
    obtain ⟨row, hrow, rfl⟩ := State.own_eq_some.mp hr'
    exact hinv.indexed t ht id j r _ (by rwa [← com_congr hcommitted])
      (State.own_eq_some.mpr ⟨row, hdirty _ _ hrow, rfl⟩)
  linked := hinv.linked.of_com (.of_committed hcommitted fun _ h => by rwa [hsigned])
    (com_congr hcommitted _) (com_congr hcommitted _)
  signed issuance payload h := hinv.signed issuance payload (by rwa [← hsigned])

/-- Rolling back keeps the guarantee. -/
theorem guar_rollback (hinv : Inv deployment s) : Guar deployment i s (s.rollback i) where
  inv := hinv.of_dropped rfl (fun _ _ => Database.dirty_of_dropDirty) rfl rfl
  evolves := .of_committed rfl fun _ h => h
  rely _ hj := ⟨Database.rollback_frame hj.symm, .of_committed rfl fun _ h => h⟩

/-- A crash keeps the invariant. -/
theorem inv_crash (hinv : Inv deployment s) : Inv deployment s.crash :=
  hinv.of_dropped rfl (fun _ _ h => by simp [State.crash, Database.crash] at h) rfl rfl

/-- A committed row after a commit is the session's version, if it had one and deleted nothing. -/
theorem com_commit_of_kept (hkept : ∀ k j, s.db.dirty k ≠ some (j, none)) (t : Table) (id : Nat) :
    (s.commit i).com t id = (s.own i t id).or (s.com t id) := by
  rw [State.com, State.commit, Database.commit_committed]
  rcases s.db.view_cases i ⟨t, id⟩ with hown | ⟨hnone, hcommitted⟩
  · cases hview : s.db.view i ⟨t, id⟩ with
    | none =>
      rw [hview] at hown
      exact absurd hown (hkept _ _)
    | some row =>
      rw [hview] at hown
      rw [State.own_eq_some.mpr ⟨row, hown, rfl⟩]
      rfl
  · have hnoown : s.own i t id = none := by
      rw [Option.eq_none_iff_forall_ne_some]
      intro r hr
      obtain ⟨row, hdirty, -⟩ := State.own_eq_some.mp hr
      exact hnone _ hdirty
    rw [hnoown, hcommitted, Option.none_or]
    rfl

/-- No session deletes. -/
theorem com_commit (hinv : Inv deployment s) (t : Table) (id : Nat) :
    (s.commit i).com t id = (s.own i t id).or (s.com t id) :=
  com_commit_of_kept hinv.kept t id

/-- What a commit publishes is an evolution of the committed rows. -/
theorem evolves_commit {hole : Option Nat} (hinv : Inv deployment s)
    (hlocal : Local deployment s i hole) : Evolves s (s.commit i) where
  device id d hd := by
    refine ⟨d, ?_, rfl⟩
    rw [State.device, com_commit hinv, hlocal.device, Option.none_or]
    exact hd
  request id r hr := by
    rw [State.request, com_commit hinv]
    cases hown : s.own i .elevationRequests id with
    | none => exact ⟨r, by rwa [Option.none_or], Decides.refl r⟩
    | some r' => exact ⟨r', rfl, (hlocal.request id r' hown).2 r hr⟩
  approval aid a ha := by
    rw [State.approval, com_commit hinv]
    cases hown : s.own i .approvals aid with
    | none => exact ⟨a, by rwa [Option.none_or], Consumes.refl a⟩
    | some a' =>
      refine ⟨a', rfl, ?_⟩
      rcases hlocal.approval aid a' hown with ⟨old, hold, hconsumes⟩ | ⟨hnew, -⟩
      · rw [ha] at hold
        rwa [Option.some.inj hold]
      · rw [ha] at hnew
        contradiction
  signed _ h := h

/-- A committed row after a commit is the session's own or was committed before and not
replaced. -/
theorem com_commit_cases (hinv : Inv deployment s) {r : t.Record}
    (h : (s.commit i).com t id = some r) :
    s.own i t id = some r ∨ (s.own i t id = none ∧ s.com t id = some r) := by
  rw [com_commit hinv] at h
  cases hown : s.own i t id with
  | none => exact Or.inr ⟨rfl, by rwa [hown, Option.none_or] at h⟩
  | some r' => exact Or.inl (by rwa [hown] at h)

/-- The session's own version is committed by its commit. -/
theorem com_commit_of_own (hinv : Inv deployment s) {r : t.Record} (h : s.own i t id = some r) :
    (s.commit i).com t id = some r := by
  rw [com_commit hinv, h]
  rfl

/-- A committed request that was approved stays so. -/
private theorem approved_commit (hinv : Inv deployment s) (hlocal : Local deployment s i none)
    {r : ElevationRequest} (hr : s.request id = some r) (hstatus : r.status = .approved) :
    ∃ r', (s.commit i).request id = some r' ∧ r'.status = .approved ∧ Decides r r' := by
  obtain ⟨r', hr', hdecides⟩ := (evolves_commit hinv hlocal).request id r hr
  have hfinal := hdecides.final (by rw [hstatus]; decide)
  exact ⟨r', hr', hfinal.1.trans hstatus, hdecides⟩

/-- What an approval binds does not change with its request or with its consumption. -/
theorem Binds.evolve {r r' : ElevationRequest} {a a' : Approval}
    (h : Binds deployment s r a) (hr : Decides r r') (ha : Consumes a a') :
    Binds deployment s r' a' := by
  obtain ⟨hdevice, hsha256, payload, hpayload, hsignature⟩ := h
  have hcolumns := ha.columns
  rw [hcolumns]
  refine ⟨by rwa [hr.deviceId], by rw [hr.sha256]; exact hsha256, payload, ?_, hsignature⟩
  rwa [hr.requestUuid]

/-- A commit keeps requests and approvals linked. -/
theorem linked_commit (hinv : Inv deployment s) (hlocal : Local deployment s i none) :
    Linked deployment (s.commit i) := by
  have hevolves := evolves_commit hinv hlocal
  -- an approval is old, perhaps consumed just now, or was inserted by this transaction
  have hcases : ∀ aid a, (s.commit i).approval aid = some a →
      (∃ old, s.approval aid = some old ∧ Consumes old a) ∨
        (s.ownApproval i aid = some a ∧ s.approval aid = none) := by
    intro aid a ha
    rcases com_commit_cases hinv ha with hown | ⟨-, hcom⟩
    · rcases hlocal.approval aid a hown with hold | ⟨hnew, -⟩
      · exact Or.inl hold
      · exact Or.inr ⟨hown, hnew⟩
    · exact Or.inl ⟨a, hcom, Consumes.refl a⟩
  -- the request of an inserted approval was pending before, so it has no old approval
  have hfresh : ∀ aid a aid' old, s.ownApproval i aid = some a → s.approval aid = none →
      s.approval aid' = some old → old.elevationRequestId ≠ a.elevationRequestId := by
    intro aid a aid' old hown hnew hold heq
    obtain ⟨r, hr, hstatus, -⟩ := hinv.linked.binds aid' old hold
    rcases hlocal.approval aid a hown with ⟨old', hold', -⟩ | ⟨-, -, _, _, _, hpending, _⟩
    · rw [hnew] at hold'
      contradiction
    · rw [heq] at hr
      rw [hpending r hr] at hstatus
      contradiction
  refine ⟨?_, ?_, ?_, ?_⟩
  · intro id r hr
    rcases com_commit_cases hinv hr with hown | ⟨-, hcom⟩
    · exact (hlocal.request id r hown).1
    · exact hinv.linked.reviewed id r hcom
  · intro id r hr hstatus
    rcases com_commit_cases hinv hr with hown | ⟨-, hcom⟩
    · by_cases hpending : ∀ old, s.request id = some old → old.status = .pending
      · obtain ⟨aid, a, ha, -, heq⟩ := hlocal.approved id r hown hstatus (by simp) hpending
        exact ⟨aid, a, com_commit_of_own hinv ha, heq⟩
      · push Not at hpending
        obtain ⟨old, hold, hdecided⟩ := hpending
        have hfinal := ((hlocal.request id r hown).2 old hold).final hdecided
        obtain ⟨aid, a, ha, heq⟩ := hinv.linked.approved id old hold (hfinal.1 ▸ hstatus)
        obtain ⟨a', ha', hconsumes⟩ := hevolves.approval aid a ha
        exact ⟨aid, a', ha', by rw [hconsumes.columns]; exact heq⟩
    · obtain ⟨aid, a, ha, heq⟩ := hinv.linked.approved id r hcom hstatus
      obtain ⟨a', ha', hconsumes⟩ := hevolves.approval aid a ha
      exact ⟨aid, a', ha', by rw [hconsumes.columns]; exact heq⟩
  · intro aid a ha
    rcases hcases aid a ha with ⟨old, hold, hconsumes⟩ | ⟨hown, hnew⟩
    · obtain ⟨r, hr, hstatus, hbinds⟩ := hinv.linked.binds aid old hold
      obtain ⟨r', hr', hstatus', hdecides⟩ := approved_commit hinv hlocal hr hstatus
      have hid : a.elevationRequestId = old.elevationRequestId := by rw [hconsumes.columns]
      exact ⟨r', hid ▸ hr', hstatus', (hbinds.evolve hdecides hconsumes).stable hevolves⟩
    · rcases hlocal.approval aid a hown with ⟨old, hold, -⟩ | ⟨-, -, r, hr, hstatus, -, hbinds⟩
      · rw [hnew] at hold
        contradiction
      · exact ⟨r, com_commit_of_own hinv hr, hstatus, hbinds.stable hevolves⟩
  · intro aid aid' a a' ha ha' heq
    rcases hcases aid a ha with ⟨old, hold, hconsumes⟩ | ⟨hown, hnew⟩
    · have hid : old.elevationRequestId = a.elevationRequestId := by rw [hconsumes.columns]
      rcases hcases aid' a' ha' with ⟨old', hold', hconsumes'⟩ | ⟨hown', hnew'⟩
      · have hid' : old'.elevationRequestId = a'.elevationRequestId := by rw [hconsumes'.columns]
        exact hinv.linked.unique aid aid' old old' hold hold' (by rw [hid, hid', heq])
      · exact absurd (hid.trans heq) (hfresh aid' a' aid old hown' hnew' hold)
    · rcases hcases aid' a' ha' with ⟨old', hold', hconsumes'⟩ | ⟨hown', hnew'⟩
      · have hid' : old'.elevationRequestId = a'.elevationRequestId := by rw [hconsumes'.columns]
        exact absurd (hid'.trans heq.symm) (hfresh aid a aid' old' hown hnew hold')
      · exact hlocal.unique aid aid' a a' hown hown' hnew hnew' heq

/-- A session whose rows are in order may commit. -/
theorem guar_commit (hinv : Inv deployment s) (hlocal : Local deployment s i none) :
    Guar deployment i s (s.commit i) where
  inv :=
    { kept := fun k j h => hinv.kept k j (Database.dropDirty_eq_some.mp h).1
      fresh := fun k hk => by
        obtain ⟨hcom, hnone⟩ := hinv.fresh k hk
        have hview : s.db.view i k = s.db.committed k :=
          Database.view_of_not_dirty fun _ h => by rw [hnone] at h; contradiction
        refine ⟨by rw [State.commit, Database.commit_committed, hview, hcom], ?_⟩
        refine Option.eq_none_iff_forall_ne_some.mpr fun ⟨_, _⟩ h => ?_
        have hdirty := (Database.dropDirty_eq_some.mp h).1
        rw [hnone] at hdirty
        contradiction
      distinct := fun t ht id id' r r' hne hr hr' => by
        have hversion : ∀ id r, (s.commit i).Version t id r → s.Version t id r := by
          rintro id r (hcom | ⟨j, hown⟩)
          · exact (com_commit_cases hinv hcom).elim (fun h => Or.inr ⟨i, h⟩) fun h => Or.inl h.2
          · exact Or.inr ⟨j, own_of_dropDirty rfl hown⟩
        exact hinv.distinct t ht id id' r r' hne (hversion id r hr) (hversion id' r' hr')
      indexed := fun t ht id j r r' hr hr' => by
        have hown' := own_of_dropDirty (s := s) rfl hr'
        rcases com_commit_cases hinv hr with hown | ⟨-, hcom⟩
        · obtain ⟨row, hrow, rfl⟩ := State.own_eq_some.mp hown
          obtain ⟨row', hrow', rfl⟩ := State.own_eq_some.mp hown'
          rw [hrow] at hrow'
          obtain ⟨-, hsame⟩ := Prod.mk.inj (Option.some.inj hrow')
          rw [Option.some.inj hsame]
          exact fun _ => ⟨rfl, rfl⟩
        · exact hinv.indexed t ht id j r r' hcom hown'
      linked := linked_commit hinv hlocal
      signed := hinv.signed }
  evolves := evolves_commit hinv hlocal
  rely _ hj := ⟨Database.commit_frame hj.symm, evolves_commit hinv hlocal⟩

end Ending

section Environment

/-- Time passing changes no row. -/
theorem env_advance (hinv : Inv deployment s) (clock : Datetime) :
    Inv deployment { s with clock := clock } ∧ Evolves s { s with clock := clock } ∧
      ∀ i, Rely i s { s with clock := clock } :=
  ⟨hinv.of_db rfl (fun _ => Nat.le_refl _) (fun _ h => h) fun _ _ h => Or.inl h,
    .of_committed rfl fun _ h => h, fun _ => .of_db rfl fun _ h => h⟩

/-- Another transaction changes no request, no approval and no row that a session has locked. -/
theorem maintainable_spec {k : Key} {version : Option (Row k)}
    (h : maintainable s k version = true) :
    s.db.dirty k = none ∧ k.table ≠ .elevationRequests ∧ k.table ≠ .approvals := by
  obtain ⟨table, id⟩ := k
  cases table <;> simp_all [maintainable]

/-- A device that another transaction changes keeps its UUID. -/
theorem maintainable_device {version : Option (Row ⟨.devices, id⟩)}
    (h : maintainable s ⟨.devices, id⟩ version = true) {d : Device} (hd : s.device id = some d) :
    ∃ row, version = some row ∧ Device.deviceUuid row.record = d.deviceUuid := by
  obtain ⟨old, hold, rfl⟩ := Option.map_eq_some_iff.mp hd
  simp only [maintainable, hold, Option.all_some, Bool.and_eq_true, Option.any_eq_true,
    decide_eq_true_eq] at h
  obtain ⟨-, row, hrow, huuid⟩ := h
  exact ⟨row, hrow, huuid⟩

/-- The committed rows after a maintenance transaction. -/
theorem com_maintain {k : Key} {version : Option (Row k)} (h : (⟨t, id⟩ : Key) ≠ k) :
    (s.maintain k version).com t id = s.com t id := by
  rw [State.com, State.maintain]
  simp [Function.update_of_ne h, State.com]

/-- A key that is unused after a maintenance transaction was unused before, and is another one. -/
theorem fresh_of_maintain {k k' : Key} {version : Option (Row k)}
    (h : (s.maintain k version).nextId k'.table ≤ k'.id) : k' ≠ k ∧ s.nextId k'.table ≤ k'.id := by
  refine ⟨?_, Nat.le_trans ?_ h⟩
  · rintro rfl
    simp only [State.maintain, Function.update_self] at h
    omega
  · by_cases ht : k'.table = k.table
    · simp [State.maintain, ht]
    · simp [State.maintain, Function.update_of_ne ht]

/-- Maintenance keeps the invariant and what every session relies on. -/
theorem env_maintain (hinv : Inv deployment s) {k : Key} {version : Option (Row k)}
    (h : maintainable s k version = true) :
    Inv deployment (s.maintain k version) ∧ Evolves s (s.maintain k version) ∧
      ∀ i, Rely i s (s.maintain k version) := by
  obtain ⟨hdirty, hrequests, happrovals⟩ := maintainable_spec h
  have hcom : ∀ t id, t = .elevationRequests ∨ t = .approvals →
      (s.maintain k version).com t id = s.com t id := by
    rintro t id ht
    refine com_maintain fun heq => ?_
    subst heq
    exact ht.elim hrequests happrovals
  have hevolves : Evolves s (s.maintain k version) := by
    refine ⟨fun id d hd => ?_, fun id r hr => ⟨r, ?_, Decides.refl r⟩,
      fun id a ha => ⟨a, ?_, Consumes.refl a⟩, fun _ h => h⟩
    · by_cases hk : (⟨.devices, id⟩ : Key) = k
      · subst hk
        obtain ⟨row, rfl, huuid⟩ := maintainable_device h hd
        refine ⟨row.record, ?_, huuid⟩
        simp only [State.device, State.com, State.maintain, Function.update_self]
        rfl
      · exact ⟨d, (com_maintain hk).trans hd, rfl⟩
    · exact (hcom _ _ (Or.inl rfl)).trans hr
    · exact (hcom _ _ (Or.inr rfl)).trans ha
  refine ⟨⟨hinv.kept, ?_, ?_, ?_, ?_, hinv.signed⟩, hevolves, fun i => ⟨⟨fun _ _ => Iff.rfl, ?_⟩,
    hevolves⟩⟩
  · intro k' hk'
    obtain ⟨hne, hbound⟩ := fresh_of_maintain hk'
    obtain ⟨hcommitted, hnone⟩ := hinv.fresh k' hbound
    exact ⟨by simpa [State.maintain, Function.update_of_ne hne] using hcommitted, hnone⟩
  · intro t ht id id' r r' hne hr hr'
    have hversion : ∀ id r, (s.maintain k version).Version t id r → s.Version t id r :=
      fun id r hv => hv.imp (fun hc => (hcom t id ht) ▸ hc) fun hown => hown
    exact hinv.distinct t ht id id' r r' hne (hversion id r hr) (hversion id' r' hr')
  · intro t ht id j r r' hr hr'
    rw [hcom t id ht] at hr
    exact hinv.indexed t ht id j r r' hr hr'
  · exact hinv.linked.of_com hevolves (fun id => hcom _ id (Or.inl rfl))
      fun id => hcom _ id (Or.inr rfl)
  · intro k' version' hown
    have hne : k' ≠ k := by
      rintro rfl
      rw [hdirty] at hown
      contradiction
    simp [State.maintain, Function.update_of_ne hne]

/-- What every single change does, a transaction of several does. -/
theorem transact_induction {R : State → State → Prop} (hrefl : ∀ s, R s s)
    (htrans : ∀ {s s' s''}, R s s' → R s' s'' → R s s'')
    (hstep : ∀ s k (version : Option (Row k)), maintainable s k version = true →
      R s (s.maintain k version))
    {rows : List (Σ k : Key, Option (Row k))} (h : s.transact rows = some s') : R s s' := by
  induction rows generalizing s with
  | nil => exact Option.some.inj h ▸ hrefl s
  | cons row rest ih =>
    simp only [State.transact] at h
    split at h
    · next hmaintainable => exact htrans (hstep s _ _ hmaintainable) (ih h)
    · contradiction

/-- A transaction of several changes keeps the invariant and what every session relies on. -/
theorem env_transact (hinv : Inv deployment s) {rows : List (Σ k : Key, Option (Row k))}
    (h : s.transact rows = some s') :
    Inv deployment s' ∧ Evolves s s' ∧ ∀ i, Rely i s s' := by
  have hall : Inv deployment s → Inv deployment s' ∧ Evolves s s' ∧ ∀ i, Rely i s s' := by
    refine transact_induction (R := fun s s' => Inv deployment s →
      Inv deployment s' ∧ Evolves s s' ∧ ∀ i, Rely i s s') ?_ ?_ ?_ h
    · exact fun s hinv => ⟨hinv, .refl s, fun i => .refl i s⟩
    · intro s s' s'' hfirst hsecond hinv
      obtain ⟨hinv', hevolves, hrely⟩ := hfirst hinv
      obtain ⟨hinv'', hevolves', hrely'⟩ := hsecond hinv'
      exact ⟨hinv'', hevolves.trans hevolves', fun i => (hrely i).trans (hrely' i)⟩
    · exact fun s k version hmaintainable hinv => env_maintain hinv hmaintainable
  exact hall hinv

end Environment

end ElevateGate.Backend
