import ElevateGate.Backend.Consistency
import ElevateGate.Ordering.Pages

/-!
# Paging through a table

The three functions that list a table page by page, each for a dashboard screen: a count, and then one
page of the rows in the order of a timestamp, the latest first. The statement leaves the order of rows
with one timestamp to the database, which may choose another for every page.
-/

namespace ElevateGate.Backend

open Interaction Time Handler

/-- The count of the rows that satisfy a condition, and a page of them in descending order of a
column. -/
def listPaginated (t : Table) (condition : t.Record → Bool) (column : t.Record → Datetime)
    (limit offset : Nat) : Handler (List t.Record × Nat) := do
  let matching ← select t condition
  let found ← select t condition
  let ordered := found.mergeSort fun r r' => decide (column r' ≤ column r)
  return ((ordered.drop offset).take limit, matching.length)

/-- The filters of the audit trail. -/
def AuditLogRepository.filters (actorTypeFilter : Option ActorType)
    (actionFilter targetTypeFilter : Option String) (r : AuditLog) : Bool :=
  actorTypeFilter.all (fun actorType => decide (r.actorType = actorType)) &&
    actionFilter.all (fun action => decide (r.action = action)) &&
    targetTypeFilter.all fun targetType => decide (r.targetType = targetType)

/-- The audit rows of a kind, a page at a time. -/
def AuditLogRepository.listPaginated (actorTypeFilter : Option ActorType)
    (actionFilter targetTypeFilter : Option String) (limit offset : Nat) :
    Handler (List AuditLog × Nat) :=
  Backend.listPaginated .auditLogs (filters actorTypeFilter actionFilter targetTypeFilter)
    AuditLog.timestamp limit offset

/-- The filters of the requests. -/
def ElevationRequestRepository.filters (statusFilter : Option ElevationRequestStatus)
    (deviceId : Option Nat) (r : ElevationRequest) : Bool :=
  statusFilter.all (fun status => decide (r.status = status)) &&
    deviceId.all fun deviceId => decide (r.deviceId = deviceId)

/-- The requests of a kind, a page at a time. -/
def ElevationRequestRepository.listPaginated (statusFilter : Option ElevationRequestStatus)
    (deviceId : Option Nat) (limit offset : Nat) : Handler (List ElevationRequest × Nat) :=
  Backend.listPaginated .elevationRequests (filters statusFilter deviceId)
    ElevationRequest.requestedAt limit offset

/-- The filters of the devices. -/
def DeviceRepository.filters (enrollmentStatusFilter : Option EnrollmentStatus)
    (groupIdFilter : Option Nat) (r : Device) : Bool :=
  enrollmentStatusFilter.all (fun status => decide (r.enrollmentStatus = status)) &&
    groupIdFilter.all fun groupId => decide (r.groupId = some groupId)

/-- The devices of a kind, a page at a time. -/
def DeviceRepository.listPaginated (enrollmentStatusFilter : Option EnrollmentStatus)
    (groupIdFilter : Option Nat) (limit offset : Nat) : Handler (List Device × Nat) :=
  Backend.listPaginated .devices (filters enrollmentStatusFilter groupIdFilter)
    Device.createdAt limit offset

/-- A list with its filter. -/
inductive Listing
  | auditLogs (actorTypeFilter : Option ActorType) (actionFilter targetTypeFilter : Option String)
  | elevationRequests (statusFilter : Option ElevationRequestStatus) (deviceId : Option Nat)
  | devices (enrollmentStatusFilter : Option EnrollmentStatus) (groupIdFilter : Option Nat)

namespace Listing

/-- The table that is listed. -/
def table : Listing → Table
  | .auditLogs _ _ _ => .auditLogs
  | .elevationRequests _ _ => .elevationRequests
  | .devices _ _ => .devices

/-- The rows that match the filter. -/
def condition : (listing : Listing) → listing.table.Record → Bool
  | .auditLogs actorTypeFilter actionFilter targetTypeFilter =>
    AuditLogRepository.filters actorTypeFilter actionFilter targetTypeFilter
  | .elevationRequests statusFilter deviceId => ElevationRequestRepository.filters statusFilter deviceId
  | .devices enrollmentStatusFilter groupIdFilter =>
    DeviceRepository.filters enrollmentStatusFilter groupIdFilter

/-- The column that orders the rows. -/
def column : (listing : Listing) → listing.table.Record → Datetime
  | .auditLogs _ _ _ => AuditLog.timestamp
  | .elevationRequests _ _ => ElevationRequest.requestedAt
  | .devices _ _ => Device.createdAt

/-- The function that reads a page of the list. -/
def listPaginated : (listing : Listing) → Nat → Nat → Handler (List listing.table.Record × Nat)
  | .auditLogs actorTypeFilter actionFilter targetTypeFilter =>
    AuditLogRepository.listPaginated actorTypeFilter actionFilter targetTypeFilter
  | .elevationRequests statusFilter deviceId =>
    ElevationRequestRepository.listPaginated statusFilter deviceId
  | .devices enrollmentStatusFilter groupIdFilter =>
    DeviceRepository.listPaginated enrollmentStatusFilter groupIdFilter

/-- The value that orders a row. -/
def key (listing : Listing) (r : listing.table.Record) : Nat := (listing.column r).micros

/-- The three functions are one. -/
theorem listPaginated_eq (listing : Listing) (limit offset : Nat) :
    listing.listPaginated limit offset =
      Backend.listPaginated listing.table listing.condition listing.column limit offset := by
  cases listing <;> rfl

end Listing

/-- The rows of a table that a session sees in a state. -/
def State.visible (s : State) (i : Sid) (t : Table) (id : Nat) : Option t.Record :=
  (s.db.view i ⟨t, id⟩).map Row.record

/-- A session sees these rows of a table and no others. -/
def State.Shows (s : State) (i : Sid) (t : Table) (rows : List t.Record) : Prop :=
  ((List.range (s.nextId t)).filterMap (s.visible i t)).Perm rows

/-- A value that a program may return which only reads, while a table shows these rows. Each of its
statements may see another state of the rest of the database. -/
inductive Yields (sign : List UInt8 → List UInt8) (t : Table) (rows : List t.Record) {α : Type}
    (value : α) : Handler α → Prop
  | pure : Yields sign t rows value (.pure value)
  | query {i : Sid} {s s' : State} {choice : Choice} {snapshot : Snapshot}
      {next : Snapshot → Handler α} (hshows : s.Shows i t rows)
      (hperform : perform sign i .query choice s = some (snapshot, s'))
      (hnext : Yields sign t rows value (next snapshot)) :
      Yields sign t rows value (.perform .query next)

/-- However the pages at the offsets 0, `n`, 2`n`, ... are read, each of them counts the rows that
match, and together they show each of these rows once. -/
def Listing.Exact (listing : Listing) (sign : List UInt8 → List UInt8)
    (rows : List listing.table.Record) (n : Nat) : Prop :=
  ∀ results : Nat → List listing.table.Record × Nat,
    (∀ k, Yields sign listing.table rows (results k) (listing.listPaginated n (k * n))) →
      (∀ k, (results k).2 = (rows.filter listing.condition).length) ∧
        ((List.range ((rows.filter listing.condition).length / n + 1)).flatMap fun k =>
          (results k).1).Perm (rows.filter listing.condition)

section Reading

variable {sign : List UInt8 → List UInt8} {i : Sid} {s s' : State} {t : Table} {rows : List t.Record}
  {choice : Choice} {snapshot : Snapshot}

/-- The rows of a table differ. -/
theorem State.Shows.nodup (h : s.Shows i t rows) : rows.Nodup := by
  refine h.nodup_iff.mp (List.Nodup.filterMap ?_ List.nodup_range)
  intro id id' r hr hr'
  obtain ⟨row, -, rfl⟩ := Option.map_eq_some_iff.mp (Option.mem_def.mp hr)
  obtain ⟨row', -, hrecord⟩ := Option.map_eq_some_iff.mp (Option.mem_def.mp hr')
  have hid : t.id row.record = id := row.id_eq
  have hid' : t.id row'.record = id' := row'.id_eq
  rw [← hid, ← hid', hrecord]

/-- A statement sees the rows of the table in some order. -/
theorem rows_perm (hshows : s.Shows i t rows)
    (hperform : perform sign i .query choice s = some (snapshot, s')) :
    (snapshot.rows t).Perm rows := by
  cases choice with
  | order ids =>
    simp only [perform] at hperform
    split at hperform
    · next hids =>
      obtain ⟨rfl, -⟩ := Prod.mk.inj (Option.some.inj hperform)
      have hperm : (ids t).Perm (List.range (s.nextId t)) :=
        of_decide_eq_true (List.all_eq_true.mp hids t (by cases t <;> decide))
      exact (hperm.filterMap _).trans hshows
    · contradiction
  | _ => contradiction

/-- The values that a listing may return are the count and a page of some arrangement. -/
theorem arrangement_of_yields (listing : Listing) {rows : List listing.table.Record}
    {limit offset : Nat} {result : List listing.table.Record × Nat}
    (h : Yields sign listing.table rows result (listing.listPaginated limit offset)) :
    result.2 = (rows.filter listing.condition).length ∧
      ∃ l, Pages.Arrangement listing.key (rows.filter listing.condition) l ∧
        result.1 = (l.drop offset).take limit := by
  rw [listing.listPaginated_eq] at h
  cases h with
  | query hshows hperform hnext =>
    cases hnext with
    | @query _ _ _ _ found _ hshows' hperform' hnext' =>
      cases hnext' with
      | pure =>
        have harranged := Pages.arrangement_mergeSort listing.key
          ((found.rows listing.table).filter listing.condition)
        exact ⟨((rows_perm hshows hperform).filter _).length_eq, _,
          ⟨harranged.perm.trans ((rows_perm hshows' hperform').filter _), harranged.sorted⟩, rfl⟩

/-- The rows that a filter leaves can be had in any order, by choosing the order of what is
filtered. -/
private theorem exists_perm_filterMap {α β : Type} {f : α → Option β} {l : List α} {l' : List β}
    (h : l'.Perm (l.filterMap f)) : ∃ ids : List α, ids.Perm l ∧ ids.filterMap f = l' := by
  induction l generalizing l' with
  | nil => exact ⟨[], .nil, h.eq_nil.symm⟩
  | cons a l ih =>
    cases ha : f a with
    | none =>
      rw [List.filterMap_cons_none ha] at h
      obtain ⟨ids, hids, rfl⟩ := ih h
      exact ⟨a :: ids, hids.cons a, List.filterMap_cons_none ha⟩
    | some b =>
      rw [List.filterMap_cons_some ha] at h
      obtain ⟨xs, ys, rfl⟩ := List.append_of_mem (h.symm.subset List.mem_cons_self)
      have hrest : (xs ++ ys).Perm (l.filterMap f) :=
        (List.perm_middle.symm.trans h).cons_inv
      obtain ⟨ids, hids, hmap⟩ := ih hrest
      obtain ⟨first, second, rfl, rfl, rfl⟩ := List.filterMap_eq_append_iff.mp hmap
      refine ⟨first ++ a :: second, List.perm_middle.trans (hids.cons a), ?_⟩
      rw [List.filterMap_append, List.filterMap_cons_some ha]

/-- A statement may return the rows that satisfy its condition in any order. -/
theorem exists_query (f : List UInt8 → List UInt8) (hshows : s.Shows i t rows)
    {condition : t.Record → Bool} {l : List t.Record}
    (h : l.Perm (rows.filter condition)) :
    ∃ choice snapshot s', perform f i .query choice s = some (snapshot, s') ∧
      (snapshot.rows t).filter condition = l := by
  have hfilter : l.Perm ((List.range (s.nextId t)).filterMap fun id =>
      (s.visible i t id).filter condition) := by
    rw [← List.filter_filterMap]
    exact h.trans (hshows.symm.filter _)
  obtain ⟨ids, hids, rfl⟩ := exists_perm_filterMap hfilter
  let order : Table → List Nat := Function.update (fun t' => List.range (s.nextId t')) t ids
  have horder : (Table.all.all fun t' =>
      decide ((order t').Perm (List.range (s.nextId t')))) = true := by
    refine List.all_eq_true.mpr fun t' _ => decide_eq_true ?_
    by_cases ht : t' = t
    · subst ht
      simpa [order] using hids
    · simp [order, ht]
  refine ⟨.order order, ⟨s.db.view i, order⟩, s.begin_ i, if_pos horder, ?_⟩
  have horder_self : order t = ids := by simp [order]
  change ((order t).filterMap (s.visible i t)).filter condition = _
  rw [horder_self, List.filter_filterMap]

/-- Every arrangement of the rows may be the one that a page is cut out of. -/
theorem yields_of_arrangement (listing : Listing) {rows : List listing.table.Record}
    (hshows : s.Shows i listing.table rows) {l : List listing.table.Record}
    (h : Pages.Arrangement listing.key (rows.filter listing.condition) l) (limit offset : Nat) :
    Yields sign listing.table rows
      ((l.drop offset).take limit, (rows.filter listing.condition).length)
      (listing.listPaginated limit offset) := by
  obtain ⟨choice, snapshot, s', hperform, rfl⟩ := exists_query sign hshows h.perm
  have hsorted : ((snapshot.rows listing.table).filter listing.condition).mergeSort
      (fun r r' => decide (listing.column r' ≤ listing.column r)) =
        (snapshot.rows listing.table).filter listing.condition :=
    List.mergeSort_of_pairwise (h.sorted.imp fun hle => decide_eq_true hle)
  rw [listing.listPaginated_eq]
  refine .query hshows hperform (.query hshows hperform ?_)
  change Yields _ _ _ _ (Pure.pure ((((((snapshot.rows listing.table).filter
    listing.condition).mergeSort fun r r' =>
      decide (listing.column r' ≤ listing.column r)).drop offset).take limit), _))
  rw [hsorted, ← h.perm.length_eq]
  exact .pure

/-- Paging through a list shows every row that matches exactly once and counts them, whatever order
the database chooses among rows that the listing leaves tied, if and only if no tie straddles a page
boundary. -/
theorem pages_exact_iff (listing : Listing) {rows : List listing.table.Record}
    (hshows : s.Shows i listing.table rows) {n : Nat} (hn : 0 < n) :
    listing.Exact sign rows n ↔
      ∀ k, ¬ Pages.Straddled listing.key (rows.filter listing.condition) (k * n) := by
  have hnodup : (rows.filter listing.condition).Nodup := hshows.nodup.filter _
  rw [← Pages.pages_perm_iff hn hnodup ⟨_, Pages.arrangement_mergeSort listing.key _⟩]
  constructor
  · intro hpages f hf
    exact (hpages (fun k => (Pages.page n k (f k), (rows.filter listing.condition).length))
      fun k => yields_of_arrangement _ hshows (hf k) n (k * n)).2
  · intro hpages results hresults
    have hfound := fun k => arrangement_of_yields _ (hresults k)
    choose hcount f hf hpage using hfound
    refine ⟨hcount, ?_⟩
    simp only [hpage]
    exact hpages f hf

end Reading

namespace Sample

/-- An entry of the allowlist for every device. -/
def entry : AppAllowlistEntry where
  id := 0
  groupId := none
  publisher := "Contoso"
  filename := "setup.exe"
  description := none
  createdBy := some 0
  createdAt := noon

/-- What the agent submits for a file that the entry covers. -/
def signedBody : AgentApprovalRequest :=
  { body with trustStatus := .trusted, publisherCommonName := some "Contoso" }

/-- A query that finds the entry. -/
def entryOrder (requests approvals audits : Nat) : Choice :=
  .order fun
    | .devices => [0]
    | .elevationRequests => List.range requests
    | .approvals => List.range approvals
    | .auditLogs => List.range audits
    | .appAllowlistEntries => [0]
    | .adminUsers => [0]

/-- The entry is made, and a submission is approved because of it. -/
def autoApproval : List (Label Sid Choice Event Call) :=
  [.env (.maintain ⟨.appAllowlistEntries, 0⟩ (some ⟨entry, rfl⟩)),
    .spawn 0 (.agentSubmitRequest (some (deviceUuid.textD ++ ".secret")) signedBody true),
    .perform 0 (entryOrder 0 0 0), .perform 0 .unit, .perform 0 .unit, .perform 0 .unit,
    .perform 0 (entryOrder 1 0 1), .perform 0 .unit, .perform 0 .unit, .perform 0 .unit,
    .perform 0 (.bytes (List.replicate 24 7)), .perform 0 .unit, .perform 0 .unit,
    .perform 0 .unit, .perform 0 .unit]

/-- It leaves two audit rows of one transaction, and so of one time. -/
theorem run_autoApproval : ∃ c a b, (system deployment).run autoApproval (System.init database) =
      some c ∧ c.shared.Shows 1 .auditLogs [a, b] ∧ AuditLog.action a = "elevation_request.submitted" ∧
      AuditLog.action b = "elevation_request.auto_approved" ∧
      AuditLog.timestamp a = AuditLog.timestamp b := by
  have hrun : (((system deployment).run autoApproval (System.init database)).map fun c =>
      ((List.range (c.shared.nextId .auditLogs)).filterMap (c.shared.visible 1 .auditLogs)).map
        fun r => (AuditLog.action r, AuditLog.timestamp r)) =
      some [("elevation_request.submitted", noon), ("elevation_request.auto_approved", noon)] := by
    decide +kernel
  obtain ⟨c, hc, hrows⟩ := Option.map_eq_some_iff.mp hrun
  obtain ⟨a, rest, hshown, ha, hrest⟩ := List.map_eq_cons_iff.mp hrows
  obtain ⟨b, rest', rfl, hb, hrest'⟩ := List.map_eq_cons_iff.mp hrest
  obtain rfl := List.map_eq_nil_iff.mp hrest'
  obtain ⟨haction, htime⟩ := Prod.mk.inj ha
  obtain ⟨haction', htime'⟩ := Prod.mk.inj hb
  exact ⟨c, a, b, hc, .of_eq hshown, haction, haction', htime.trans htime'.symm⟩

end Sample

/-- The audit trail of an automatically approved submission: its two rows are tied, and on one page. -/
theorem pages_exact_iff_sample : ∃ c a b,
    (system Sample.deployment).run Sample.autoApproval (System.init Sample.database) = some c ∧
    c.shared.Shows 1 .auditLogs [a, b] ∧ AuditLog.timestamp a = AuditLog.timestamp b ∧
    (Listing.auditLogs none none none).Exact Sample.deployment.sign [a, b] 2 := by
  obtain ⟨c, a, b, hrun, hshows, -, -, htime⟩ := Sample.run_autoApproval
  refine ⟨c, a, b, hrun, hshows, htime,
    (pages_exact_iff (.auditLogs none none none) hshows Nat.two_pos).mpr ?_⟩
  rintro k ⟨r, -, habove, hthrough⟩
  have hmatching : ([a, b].filter (Listing.auditLogs none none none).condition).length ≤ 2 :=
    List.length_filter_le _ _
  have hlength := (hthrough.trans_le List.countP_le_length).trans_le hmatching
  omega

/-- Its two pages of one row each may both show the submission. -/
theorem audit_page_repeats : ∃ c rows,
    (system Sample.deployment).run Sample.autoApproval (System.init Sample.database) = some c ∧
    c.shared.Shows 1 .auditLogs rows ∧
    ¬ (Listing.auditLogs none none none).Exact Sample.deployment.sign rows 1 := by
  obtain ⟨c, a, b, hrun, hshows, haction, haction', htime⟩ := Sample.run_autoApproval
  refine ⟨c, [a, b], hrun, hshows, fun hpages => ?_⟩
  have hkey : (Listing.auditLogs none none none).key a = (Listing.auditLogs none none none).key b :=
    congrArg Datetime.micros htime
  obtain ⟨hfirst, hsecond⟩ := Pages.arrangement_pair hkey
  let f : Nat → List AuditLog := fun k => if k = 0 then [a, b] else [b, a]
  have hf : ∀ k, Pages.Arrangement (Listing.auditLogs none none none).key [a, b] (f k) := fun k => by
    cases k with
    | zero => exact hfirst
    | succ k => exact hsecond
  have hperm := (hpages (fun k => (((f k).drop (k * 1)).take 1, 2)) fun k =>
    yields_of_arrangement (.auditLogs none none none) hshows (hf k) 1 (k * 1)).2
  have hall : [a, b].filter (Listing.auditLogs none none none).condition = [a, b] :=
    List.filter_eq_self.mpr fun _ _ => rfl
  rw [hall, Nat.div_one] at hperm
  have hmem : b ∈ [a, a] := hperm.symm.subset (List.mem_cons_of_mem _ List.mem_cons_self)
  have hab : b = a := by simpa using hmem
  rw [hab, haction] at haction'
  exact absurd haction' (by decide)

end ElevateGate.Backend
