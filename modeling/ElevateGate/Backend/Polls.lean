import ElevateGate.Backend.Deadlines
import ElevateGate.Backend.Responses
import ElevateGate.Backend.Serial

/-!
# What a poll tells

A poll expires the stale requests of its device, commits that, and then lists what was decided since a
time. The answer is exactly what is committed when the list is read: every decision of the device since
that time, once, in the order of the reviews, and with its approval just if the request was approved.
No request that had passed its deadline when the poll began is open by then.
-/

namespace ElevateGate.Backend

open Interaction Time Text Handler

/-- What a poll of a device since a time has to tell, given the committed rows. -/
structure State.Tells (s : State) (deviceId : Nat) (since : Datetime)
    (rows : List (ElevationRequest × Option Approval)) : Prop where
  decisions : ∀ r, r ∈ rows.map Prod.fst ↔ s.request r.id = some r ∧ r.deviceId = deviceId ∧
    ∃ time, r.reviewedAt = some time ∧ since ≤ time
  once : (rows.map fun row => row.1.id).Nodup
  ordered : rows.Pairwise fun row row' =>
    ApprovalRepository.reviewedMicros row.1 ≤ ApprovalRepository.reviewedMicros row'.1
  approvals : ∀ r found, (r, found) ∈ rows → ∀ a, found = some a ↔
    s.approval a.id = some a ∧ a.elevationRequestId = r.id
  approved : ∀ r found, (r, found) ∈ rows → (found.isSome = true ↔ r.status = .approved)

/-- The time since which a call polls. -/
def Call.since : Call → Option Datetime
  | .getDecisions since _ _ => some (since.getD epoch)
  | .agentPollDecisions _ since _ _ => some (since.getD epoch)
  | _ => none

/-- The answer that tells some decisions. -/
def Call.report (rows : List (ElevationRequest × Option Approval)) : Call → Option Answer
  | .getDecisions _ _ _ => some (.decisions (rows.map fun row =>
      ⟨row.1.requestUuid, row.1.status, row.2.map ApprovalRead.ofRow⟩))
  | .agentPollDecisions _ _ _ _ => some (.agentDecisions (rows.map AgentApprovalDecision.ofRows))
  | _ => none

/-- The bearer token of a device that is active. -/
def Bears (deployment : Deployment) (credentials : Option String) (device : Device) : Prop :=
  ∃ token, credentials = some token ∧ (partitionDot token).2 ≠ "" ∧
    Uuid.ofPython (partitionDot token).1 = some device.deviceUuid ∧
      deployment.verifySecret (partitionDot token).2 device.deviceSecretHash = true ∧
        device.enrollmentStatus = .active

/-- The device for which a call polls. -/
def Call.IsOf (deployment : Deployment) (device : Device) : Call → Prop
  | .getDecisions _ credentials _ => Presented deployment credentials device
  | .agentPollDecisions deviceId _ credentials _ =>
    deviceId = device.deviceUuid.textD ∧ Bears deployment credentials device
  | _ => False

section Reading

variable {deployment : Deployment} {sign : List UInt8 → List UInt8} {i : Sid} {s s' : State}
  {choice : Choice} {snapshot : Snapshot} {t : Table} {approvals : List Approval}
  {r : ElevationRequest}

/-- A session that has not written a row sees the committed one. -/
private theorem view_of_clean (hinv : Inv deployment s) {k : Key}
    (hclean : s.own i k.table k.id = none) : s.db.view i k = s.db.committed k := by
  apply Database.view_of_not_dirty
  intro version hdirty
  cases version with
  | none => exact hinv.kept k i hdirty
  | some row =>
    have hown : s.own i k.table k.id = some row.record := State.own_eq_some.mpr ⟨row, hdirty, rfl⟩
    rw [hclean] at hown
    contradiction

/-- A session that has written nothing reads each committed row once. -/
private theorem rows_of_clean (hinv : Inv deployment s) (hclean : ∀ t id, s.own i t id = none)
    (hperform : perform sign i .query choice s = some (snapshot, s')) (t : Table) :
    (snapshot.rows t).Nodup ∧ ∀ r, r ∈ snapshot.rows t ↔ s.com t (t.id r) = some r := by
  cases choice with
  | order ids =>
    simp only [perform] at hperform
    split at hperform
    · next hids =>
      obtain ⟨rfl, -⟩ := Prod.mk.inj (Option.some.inj hperform)
      have hmem : t ∈ Table.all := by cases t <;> decide
      have hperm : (ids t).Perm (List.range (s.nextId t)) :=
        of_decide_eq_true (List.all_eq_true.mp hids t hmem)
      refine ⟨Snapshot.nodup_rows (hperm.nodup_iff.mpr List.nodup_range), fun r => ?_⟩
      rw [Snapshot.mem_rows]
      change t.id r ∈ ids t ∧ (s.db.view i ⟨t, t.id r⟩).map Row.record = some r ↔ _
      rw [view_of_clean hinv (hclean _ _), hperm.mem_iff, List.mem_range]
      refine ⟨fun h => h.2, fun hcom => ⟨?_, hcom⟩⟩
      by_contra hid
      have hfresh := (hinv.fresh ⟨t, t.id r⟩ (Nat.le_of_not_lt hid)).1
      rw [State.com, hfresh] at hcom
      contradiction
    · contradiction
  | _ => contradiction

/-- Where each request has one approval at most, it is the one that is found. -/
private theorem find_approval_iff (hunique : ∀ a ∈ approvals, ∀ a' ∈ approvals,
      a.elevationRequestId = a'.elevationRequestId → a = a') {id : Nat} {a : Approval} :
    (approvals.find? fun a : Approval => decide (a.elevationRequestId = id)) = some a ↔
      a ∈ approvals ∧ a.elevationRequestId = id := by
  constructor
  · intro ha
    exact ⟨List.mem_of_find?_eq_some ha, by simpa using List.find?_some ha⟩
  · rintro ⟨ha, hid⟩
    have hsome : (approvals.find? fun a : Approval => decide (a.elevationRequestId = id)).isSome =
        true := List.find?_isSome.mpr ⟨a, ha, decide_eq_true hid⟩
    obtain ⟨a', ha'⟩ := Option.isSome_iff_exists.mp hsome
    have hid' : a'.elevationRequestId = id := by simpa using List.find?_some ha'
    rw [ha', hunique a ha a' (List.mem_of_find?_eq_some ha') (hid.trans hid'.symm)]

/-- Where each request has one approval at most, the join has one row for a request. -/
private theorem outerJoin_eq (hnodup : approvals.Nodup) (hunique : ∀ a ∈ approvals, ∀ a' ∈ approvals,
      a.elevationRequestId = a'.elevationRequestId → a = a') (r : ElevationRequest) :
    ApprovalRepository.outerJoin approvals r =
      [(r, approvals.find? fun a => decide (a.elevationRequestId = r.id))] := by
  have hfind : (approvals.filter fun a => decide (a.elevationRequestId = r.id)).head? =
      approvals.find? fun a => decide (a.elevationRequestId = r.id) := List.head?_filter
  rw [ApprovalRepository.outerJoin, ← hfind]
  cases hmatching : approvals.filter fun a => decide (a.elevationRequestId = r.id) with
  | nil => rfl
  | cons a rest =>
    have hrest : rest = [] := by
      apply List.eq_nil_iff_forall_not_mem.mpr
      intro a' ha'
      have hfilter := hnodup.filter fun a => decide (a.elevationRequestId = r.id)
      have hmem : ∀ b ∈ a :: rest, b ∈ approvals ∧ b.elevationRequestId = r.id := by
        intro b hb
        rw [← hmatching, List.mem_filter] at hb
        exact ⟨hb.1, of_decide_eq_true hb.2⟩
      obtain ⟨ha, hid⟩ := hmem a List.mem_cons_self
      obtain ⟨hb, hid'⟩ := hmem a' (List.mem_cons_of_mem _ ha')
      rw [hmatching] at hfilter
      exact (List.nodup_cons.mp hfilter).1 (hunique a ha a' hb (hid.trans hid'.symm) ▸ ha')
    rw [hrest]
    rfl

/-- A decision since a time, by its columns. -/
private theorem isDecidedSince_iff (hreviewed : Reviewed r) {deviceId : Nat} {since : Datetime} :
    ApprovalRepository.isDecidedSince deviceId since r = true ↔
      r.deviceId = deviceId ∧ ∃ time, r.reviewedAt = some time ∧ since ≤ time := by
  cases hreview : r.reviewedAt with
  | none => simp [ApprovalRepository.isDecidedSince, hreview]
  | some time =>
    have hstatus : r.status ≠ .pending := hreviewed.mp (by rw [hreview]; rfl)
    simp [ApprovalRepository.isDecidedSince, hreview, hstatus]

/-- The list of decisions among the committed rows is what is to be told. -/
private theorem tells_of_rows {requests : List ElevationRequest} (hinv : Inv deployment s)
    (hrequests : requests.Nodup) (hrequest : ∀ r, r ∈ requests ↔ s.request r.id = some r)
    (happrovals : approvals.Nodup) (happroval : ∀ a, a ∈ approvals ↔ s.approval a.id = some a)
    (deviceId : Nat) (since : Datetime) :
    s.Tells deviceId since (((requests.filter
      (ApprovalRepository.isDecidedSince deviceId since)).insertionSort fun r r' =>
        ApprovalRepository.reviewedMicros r ≤ ApprovalRepository.reviewedMicros r').flatMap
          (ApprovalRepository.outerJoin approvals)) := by
  have hunique : ∀ a ∈ approvals, ∀ a' ∈ approvals,
      a.elevationRequestId = a'.elevationRequestId → a = a' := by
    intro a ha a' ha' hid
    have hcom := (happroval a).mp ha
    rw [hinv.linked.unique _ _ a a' hcom ((happroval a').mp ha') hid, (happroval a').mp ha'] at hcom
    exact (Option.some.inj hcom).symm
  have hdecided : ∀ r, r ∈ (requests.filter (ApprovalRepository.isDecidedSince deviceId since)) ↔
      s.request r.id = some r ∧ r.deviceId = deviceId ∧
        ∃ time, r.reviewedAt = some time ∧ since ≤ time := by
    intro r
    rw [List.mem_filter, hrequest]
    exact and_congr_right fun hr => isDecidedSince_iff (hinv.linked.reviewed _ r hr)
  have hnodup := hrequests.filter (ApprovalRepository.isDecidedSince deviceId since)
  generalize requests.filter (ApprovalRepository.isDecidedSince deviceId since) = decided at *
  have hsorted := List.pairwise_insertionSort
    (fun r r' => ApprovalRepository.reviewedMicros r ≤ ApprovalRepository.reviewedMicros r') decided
  have hperm := List.perm_insertionSort
    (fun r r' => ApprovalRepository.reviewedMicros r ≤ ApprovalRepository.reviewedMicros r') decided
  generalize decided.insertionSort (fun r r' =>
    ApprovalRepository.reviewedMicros r ≤ ApprovalRepository.reviewedMicros r') = ordered at *
  rw [funext (outerJoin_eq happrovals hunique), ← List.map_eq_flatMap]
  -- what is found for a request is its approval, of which there is one at most
  have hfound : ∀ r found,
      (r, found) ∈ ordered.map (fun r => (r, approvals.find? fun a : Approval =>
        decide (a.elevationRequestId = r.id))) →
      s.request r.id = some r ∧ ∀ a, found = some a ↔
        s.approval a.id = some a ∧ a.elevationRequestId = r.id := by
    intro r found hmem
    obtain ⟨r', hr', heq⟩ := List.mem_map.mp hmem
    obtain ⟨rfl, rfl⟩ := Prod.mk.inj heq
    refine ⟨((hdecided r').mp (hperm.mem_iff.mp hr')).1, fun a => ?_⟩
    rw [find_approval_iff hunique, happroval]
  constructor
  · intro r
    rw [List.map_map, ← hdecided, ← hperm.mem_iff]
    exact iff_of_eq (congrArg (r ∈ ·) (List.map_id _))
  · rw [List.map_map]
    refine (List.nodup_map_iff_inj_on (hperm.nodup_iff.mpr hnodup)).mpr fun r hr r' hr' hid => ?_
    have hcom := ((hdecided r).mp (hperm.mem_iff.mp hr)).1
    rw [show r.id = r'.id from hid, ((hdecided r').mp (hperm.mem_iff.mp hr')).1] at hcom
    exact (Option.some.inj hcom).symm
  · exact List.pairwise_map.mpr hsorted
  · exact fun r found hmem => (hfound r found hmem).2
  · intro r found hmem
    obtain ⟨hr, happroved⟩ := hfound r found hmem
    constructor
    · intro hsome
      obtain ⟨a, rfl⟩ := Option.isSome_iff_exists.mp hsome
      obtain ⟨ha, hid⟩ := (happroved a).mp rfl
      obtain ⟨r', hr', hstatus, -⟩ := hinv.linked.binds a.id a ha
      rw [hid, hr] at hr'
      exact Option.some.inj hr' ▸ hstatus
    · intro hstatus
      obtain ⟨aid, a, ha, hid⟩ := hinv.linked.approved r.id r hr hstatus
      have hkey : a.id = aid := id_of_com ha
      rw [(happroved a).mpr ⟨hkey ▸ ha, hid⟩]
      rfl

end Reading

/-- The statement that expires one request of a device if it is still stale. -/
def Op.expire (deviceId : Nat) (time : Datetime) (id : Nat) : Op :=
  .update ⟨.elevationRequests, id⟩ fun row =>
    if ElevationRequestRepository.isStale deviceId time row.record then
      some (row.modify (fun r => { r with status := .expired, reviewedAt := some time : ElevationRequest })
        fun _ => rfl)
    else none

/-- The deeds with which a session has polled for a device, after it has authenticated it. -/
inductive Polled (device : Device) (since : Datetime) (rows : List (ElevationRequest × Option Approval)) :
    List Deed → List Deed → Prop
  | intro {before committing scan clocked : State} {snapshot scanned : Snapshot} {time : Datetime}
      {updates done : List Deed}
      (hrows : rows = (((snapshot.rows .elevationRequests).filter
        (ApprovalRepository.isDecidedSince device.id since)).insertionSort fun r r' =>
          ApprovalRepository.reviewedMicros r ≤ ApprovalRepository.reviewedMicros r').flatMap
            (ApprovalRepository.outerJoin (snapshot.rows .approvals)))
      (hupdates : ∀ deed ∈ updates, ∃ id, deed.op = .expire device.id time id)
      (hstale : ∀ r ∈ scanned.rows .elevationRequests,
        ElevationRequestRepository.isStale device.id time r = true →
          ∃ deed ∈ updates, deed.op = .expire device.id time (ElevationRequest.id r)) :
      Polled device since rows done (⟨before, .query, snapshot⟩ :: ⟨committing, .commit, ()⟩ ::
        (updates ++ ⟨scan, .query, scanned⟩ :: ⟨clocked, .now, time⟩ :: done))

section Calls

variable {deployment : Deployment} {done : List Deed} {deviceId : Nat} {time : Datetime} {β : Type}
  {Q : Except PyError β → List Deed → Prop}

/-- What a part of a call has done when it ends. -/
abbrev Done (Q : Except PyError β → List Deed → Prop) (done : List Deed) (program : Handler β) : Prop :=
  Obeys (fun _ _ => True) Q done program

/-- Nothing need be known of what a part has done. -/
private theorem done_any (program : Handler β) : Done (fun _ _ => True) done program := by
  induction program generalizing done with
  | pure => exact .pure trivial
  | throw => exact .throw trivial
  | perform o next ih => exact .perform trivial fun before answer => ih answer

/-- At most one row is expected. -/
private theorem done_scalarOneOrNone {α : Type} {rows : List α} {f : Option α → Handler β}
    (herror : ∀ error, Q (.error error) done) (hnone : Done Q done (f none))
    (hsome : ∀ r ∈ rows, Done Q done (f (some r))) :
    Done Q done (scalarOneOrNone rows >>= f) := by
  cases rows with
  | nil => exact hnone
  | cons r rest =>
    cases rest with
    | nil => exact hsome r List.mem_cons_self
    | cons _ _ => exact .throw (herror _)

/-- Each of the stale requests is visited. -/
private theorem done_forEach (stale : List ElevationRequest) :
    Done (fun _ after => ∃ updates, after = updates ++ done ∧
        (∀ deed ∈ updates, ∃ id, deed.op = .expire deviceId time id) ∧
        ∀ r ∈ stale, ∃ deed ∈ updates, deed.op = .expire deviceId time r.id) done
      (Program.forEach (fun r => do
        let _ ← updateWhere .elevationRequests (ElevationRequest.id r)
          (ElevationRequestRepository.isStale deviceId time)
          (fun r => { r with status := .expired, reviewedAt := some time : ElevationRequest })
          fun _ => rfl) stale) := by
  induction stale generalizing done with
  | nil => exact .pure ⟨[], rfl, by simp, by simp⟩
  | cons r rest ih =>
    refine .perform trivial fun before answer => ih.mono ?_
    rintro _ _ ⟨updates, rfl, hupdates, hrest⟩
    refine ⟨updates ++ [⟨before, .expire deviceId time r.id, answer⟩], by simp; rfl, ?_, ?_⟩
    · intro deed hdeed
      rcases List.mem_append.mp hdeed with hdeed | hdeed
      · exact hupdates deed hdeed
      · exact ⟨r.id, List.mem_singleton.mp hdeed ▸ rfl⟩
    · intro r' hr'
      rcases List.mem_cons.mp hr' with rfl | hr'
      · exact ⟨_, List.mem_append_right _ List.mem_cons_self, rfl⟩
      · obtain ⟨deed, hdeed, hop⟩ := hrest r' hr'
        exact ⟨deed, List.mem_append_left _ hdeed, hop⟩

/-- A poll for a device. -/
private theorem done_pollDecisions {device : Device} {since : Option Datetime} :
    Done (fun result after => ∀ rows, result = .ok rows →
      Polled device (since.getD epoch) rows done after) done (pollDecisions device since) := by
  simp only [pollDecisions, ElevationRequestRepository.expireStalePendingRequestsForDevice, bind_assoc]
  refine .op_bind trivial fun clocked time => .op_bind trivial fun scan scanned => ?_
  refine (done_forEach _).bind (fun _ after h => ?_) fun _ _ _ rows heq => by contradiction
  obtain ⟨updates, rfl, hupdates, hstale⟩ := h
  refine .op_bind trivial fun committing _ => .op_bind trivial fun before snapshot => .pure ?_
  intro rows heq
  obtain rfl := Except.ok.inj heq
  refine .intro rfl hupdates fun r hr hstale' => hstale r ?_
  exact List.mem_filter.mpr ⟨hr, hstale'⟩

/-- Basic authentication reads the device. -/
private theorem done_getCurrentDevice {credentials : Option BasicCredentials} {f : Device → Handler β}
    (herror : ∀ error after, Q (.error error) after) (h : ∀ device first found,
      Presented deployment credentials device → device ∈ found.rows .devices →
      Done Q (⟨first, .query, found⟩ :: done) (f device)) :
    Done Q done (getCurrentDevice deployment credentials >>= f) := by
  cases credentials with
  | none => exact .throw (herror _ _)
  | some credentials =>
    simp only [getCurrentDevice]
    split
    · next deviceUuid huuid =>
      simp only [DeviceRepository.getByUuid, bind_assoc]
      refine .op_bind trivial fun first found => ?_
      refine done_scalarOneOrNone (fun _ => herror _ _) (.throw (herror _ _)) fun device hdevice => ?_
      obtain ⟨hmem, hsame⟩ := List.mem_filter.mp hdevice
      obtain rfl : device.deviceUuid = deviceUuid := of_decide_eq_true hsame
      dsimp only
      split
      · exact .throw (herror _ _)
      · next hsecret =>
        split
        · exact .throw (herror _ _)
        · next hactive =>
          exact h device first found ⟨credentials, rfl, huuid, by simpa using hsecret,
            not_not.mp hactive⟩ hmem
    · exact .throw (herror _ _)

/-- So does the authentication of the agent. -/
private theorem done_getCurrentDeviceBearer {credentials : Option String} {f : Device → Handler β}
    (herror : ∀ error after, Q (.error error) after) (h : ∀ device first found,
      Bears deployment credentials device → device ∈ found.rows .devices →
      Done Q (⟨first, .query, found⟩ :: done) (f device)) :
    Done Q done (getCurrentDeviceBearer deployment credentials >>= f) := by
  cases credentials with
  | none => exact .throw (herror _ _)
  | some token =>
    simp only [getCurrentDeviceBearer]
    split
    · exact .throw (herror _ _)
    · next hsecret =>
      split
      · next deviceUuid huuid =>
        simp only [DeviceRepository.getByUuid, bind_assoc]
        refine .op_bind trivial fun first found => ?_
        refine done_scalarOneOrNone (fun _ => herror _ _) (.throw (herror _ _)) fun device hdevice => ?_
        obtain ⟨hmem, hsame⟩ := List.mem_filter.mp hdevice
        obtain rfl : device.deviceUuid = deviceUuid := of_decide_eq_true hsame
        dsimp only
        split
        · exact .throw (herror _ _)
        · next hverify =>
          split
          · exact .throw (herror _ _)
          · next hactive =>
            exact h device first found ⟨token, rfl, hsecret, huuid, by simpa using hverify,
              not_not.mp hactive⟩ hmem
      · exact .throw (herror _ _)

/-- The rate limiter does nothing. -/
private theorem done_limit {admitted : Bool} {f : Unit → Handler β}
    (herror : ∀ error after, Q (.error error) after) (h : Done Q done (f ())) :
    Done Q done (limit admitted >>= f) := by
  rw [limit_bind]
  split
  · exact h
  · exact .throw (herror _ _)

/-- What a call has done that polls and is answered. -/
def HasPolled (deployment : Deployment) (call : Call) (answer : Answer) (done : List Deed) : Prop :=
  ∀ since, call.since = some since → ∃ device rows first found,
    call.report rows = some answer ∧ call.IsOf deployment device ∧ device ∈ found.rows .devices ∧
      Polled device since rows [⟨first, .query, found⟩] done

/-- Every call that polls has polled when it is answered. -/
private theorem done_endpoint (call : Call) :
    Done (fun result after => ∀ answer, result = .ok answer → HasPolled deployment call answer after)
      [] (endpoint deployment call) := by
  cases call with
  | getDecisions since credentials admitted =>
    rw [endpoint, map_eq_pure_bind, getDecisions, bind_assoc]
    refine done_getCurrentDevice (fun _ _ _ heq => by contradiction) fun device first found hdevice
      hmem => ?_
    rw [bind_assoc]
    refine done_limit (fun _ _ _ heq => by contradiction) ?_
    rw [bind_assoc]
    refine done_pollDecisions.bind (fun rows after hpolled => .pure ?_) fun _ _ _ _ heq => by contradiction
    intro answer heq time hsince
    obtain rfl := Option.some.inj hsince
    exact ⟨device, rows, first, found, congrArg some (Except.ok.inj heq), hdevice, hmem, hpolled rows rfl⟩
  | agentPollDecisions deviceId since credentials admitted =>
    rw [endpoint, map_eq_pure_bind, agentPollDecisions, bind_assoc]
    refine done_getCurrentDeviceBearer (fun _ _ _ heq => by contradiction) fun device first found
      hdevice hmem => ?_
    rw [bind_assoc]
    refine done_limit (fun _ _ _ heq => by contradiction) ?_
    split
    · exact .throw fun _ heq => by contradiction
    · next hself =>
      rw [bind_assoc]
      refine done_pollDecisions.bind (fun rows after hpolled => .pure ?_)
        fun _ _ _ _ heq => by contradiction
      intro answer heq time hsince
      obtain rfl := Option.some.inj hsince
      exact ⟨device, rows, first, found, congrArg some (Except.ok.inj heq),
        ⟨not_not.mp hself, hdevice⟩, hmem, hpolled rows rfl⟩
  | _ => exact (done_any _).mono fun _ _ _ _ _ since heq => by contradiction

/-- A session has polled before it is closed. -/
private theorem system_polls (deployment : Deployment) :
    (system deployment).Honors (fun _ _ _ => True) fun call result after =>
      ∀ answer, result = .ok answer → ∃ closing done,
        after = ⟨closing, .close, ()⟩ :: done ∧ HasPolled deployment call answer done := by
  intro i call program hprogram
  obtain rfl := Option.some.inj hprogram
  refine (done_endpoint call).finally_ fun result done hpolled => ?_
  exact .perform trivial fun closing _ => .pure fun answer heq => ⟨closing, done, rfl, hpolled answer heq⟩

end Calls

/-- Every deed of the log was performed, and the committed rows have evolved from what it left. -/
structure Chronicled (deployment : Deployment) (r : Record) : Prop where
  kept : Kept deployment r
  led : ∀ i deed, .performed i deed ∈ r.log → ∃ choice after,
    perform deployment.sign i deed.op choice deed.before = some (deed.answer, after) ∧
      Evolves after r.state

section Runs

variable {deployment : Deployment} {P : Call → List Deed → Op → Prop} {s s' : State} {i : Sid}
  {log : List (Moment Op Res Sid Event State)} {done : List Deed} {time : Datetime}
  {c : Config Op Res PyError Answer Sid Call Record}

/-- What is no deed leaves the deeds as they are. -/
private theorem led_quiet (h : Chronicled deployment ⟨s, log⟩) (hevolves : Evolves s s')
    {moment : Moment Op Res Sid Event State} (hmoment : ∀ i deed, moment ≠ .performed i deed) :
    ∀ i deed, .performed i deed ∈ moment :: log → ∃ choice after,
      perform deployment.sign i deed.op choice deed.before = some (deed.answer, after) ∧
        Evolves after s' := by
  intro i deed hmem
  rcases List.mem_cons.mp hmem with heq | hmem
  · exact absurd heq.symm (hmoment i deed)
  · obtain ⟨choice, after, hperform, hafter⟩ := h.led i deed hmem
    exact ⟨choice, after, hperform, hafter.trans hevolves⟩

/-- Every step adds what it does to the chronicle. -/
private theorem preserved_chronicled :
    PreservedUnder (system deployment) .free P (discipline deployment).Advances
      (Chronicled deployment) where
  perform i call op choice answer s s' log hadvances h hallowed hguard hperform := by
    refine ⟨preserved_kept.perform i call op choice answer s s' log hadvances h.kept hallowed hguard
      hperform, fun j deed hmem => ?_⟩
    rcases List.mem_cons.mp hmem with heq | hmem
    · obtain ⟨rfl, rfl⟩ := Moment.performed.inj heq
      exact ⟨choice, s', hperform, .refl s'⟩
    · obtain ⟨choice', after, hperform', hafter⟩ := h.led j deed hmem
      exact ⟨choice', after, hperform', hafter.trans hadvances.2.2⟩
  stop i s log hadvances h :=
    ⟨preserved_kept.stop (P := P) i s log hadvances h.kept, led_quiet h hadvances.2.2 (by simp)⟩
  reset s s' log hadvances h hreset :=
    ⟨preserved_kept.reset (P := P) s s' log hadvances h.kept hreset,
      led_quiet h hadvances.2.2 (by simp)⟩
  env event s s' log hadvances h hguard henv :=
    ⟨preserved_kept.env (P := P) event s s' log hadvances h.kept hguard henv,
      led_quiet h hadvances.2.2 (by simp)⟩

/-- A run from the first request on is chronicled throughout, and its sessions poll as they do. -/
theorem State.Initial.chronicled {labels : List (Label Sid Choice Event Call)} (h : s.Initial)
    (hrun : ((system deployment).recorded .free).run labels (System.init ⟨s, []⟩) = some c) :
    Chronicled deployment c.shared ∧
      Throughout (fun (_ : Call) _ _ => True) (Chronicled deployment) c.shared ∧
      ∀ i call answer, c.thread i = some (call, .pure answer) → ∃ closing done,
        mine i c.shared.log = ⟨closing, .close, ()⟩ :: done ∧ HasPolled deployment call answer done := by
  have hstart : Chronicled deployment ⟨s, []⟩ :=
    { kept :=
        { reflects := fun i => reflects_nil (fun t id => by simp [State.own, h.dirty]) rfl
          evolved := by simp
          faithful := fun i => trivial }
      led := by simp }
  obtain ⟨-, -, hhonoring, -, hchronicled, hthroughout⟩ :=
    honoring_run (valid deployment) (system_polls deployment) preserved_chronicled.throughout
      (Discipline.good_init h.inv) (honoring_init _) (lawful_init _) ⟨hstart, throughout_nil s⟩ hrun
  refine ⟨hchronicled, hthroughout, fun i call answer hthread => ?_⟩
  cases hhonoring i call _ hthread with
  | pure post => exact post answer rfl

/-- The rows that some updates have written on top of what was written before. -/
private theorem changes_append {updates : List Deed} (h : ∀ deed ∈ updates, deed.op.ends = false) :
    changes (updates ++ done) = updates.filterMap change ++ changes done := by
  induction updates with
  | nil => rfl
  | cons deed rest ih =>
    have hrest := ih fun d hd => h d (List.mem_cons_of_mem _ hd)
    rw [List.cons_append, changes, h deed List.mem_cons_self, hrest, List.filterMap_cons]
    cases change deed <;> rfl

/-- An update that expires a request either has written it, or has seen that it is not stale. -/
private theorem expire_cases {deed : Deed} {choice : Choice} {after : State} {deviceId id : Nat}
    (hop : deed.op = .expire deviceId time id)
    (hperform : perform deployment.sign i deed.op choice deed.before = some (deed.answer, after)) :
    (∃ old r, change deed = some (.request old r) ∧ r.id = id ∧ r.status = .expired) ∨
      (change deed = none ∧ ∀ row, deed.before.db.view i ⟨.elevationRequests, id⟩ = some row →
        ¬ ElevationRequestRepository.isStale deviceId time row.record = true) := by
  obtain ⟨before, o, answer⟩ := deed
  obtain rfl : o = .expire deviceId time id := hop
  have heffect := perform_effect hperform
  change Effect deployment.sign i before (.update ⟨.elevationRequests, id⟩ _) answer after at heffect
  cases heffect with
  | miss h =>
    refine .inr ⟨rfl, fun row hrow hstale => ?_⟩
    have hassign := h row hrow
    dsimp only at hassign
    rw [if_pos hstale] at hassign
    contradiction
  | @hit t id assign row row' hview hassign hfree =>
    refine .inl ⟨before.com .elevationRequests id, row'.record, rfl, row'.id_eq, ?_⟩
    dsimp only at hassign
    split at hassign
    · obtain rfl := Option.some.inj hassign
      rfl
    · contradiction

/-- The rows that the session of a poll writes are expired requests. -/
private theorem expired_of_changes {updates : List Deed} {deviceId id : Nat} {r : ElevationRequest}
    (hupdates : ∀ deed ∈ updates, ∃ id, deed.op = .expire deviceId time id)
    (hled : ∀ deed ∈ updates, ∃ choice after,
      perform deployment.sign i deed.op choice deed.before = some (deed.answer, after))
    (hlatest : latestRequest id (updates.filterMap change) = some r) : r.status = .expired := by
  obtain ⟨old, hmem⟩ := exists_of_latest hlatest
  obtain ⟨deed, hdeed, hchange⟩ := List.mem_filterMap.mp hmem
  obtain ⟨id', hop⟩ := hupdates deed hdeed
  obtain ⟨choice, after, hperform⟩ := hled deed hdeed
  rcases expire_cases hop hperform with ⟨old', r', hchange', -, hstatus⟩ | ⟨hnone, -⟩
  · rw [hchange'] at hchange
    obtain ⟨-, rfl⟩ := Change.request_inj.mp (Option.some.inj hchange)
    exact hstatus
  · rw [hnone] at hchange
    contradiction

/-- What a session has decided is decided after its commit. -/
private theorem decided_of_written {before committing : State} {rest : List Deed}
    {older : List (Moment Op Res Sid Event State)} {id : Nat} {written : ElevationRequest}
    (h : Chronicled deployment ⟨before, older⟩)
    (hmine : mine i older = ⟨committing, .commit, ()⟩ :: rest)
    (hlatest : latestRequest id (changes rest) = some written) (hdecided : written.status ≠ .pending) :
    ∃ r', before.request id = some r' ∧ r'.status ≠ .pending := by
  have hfaithful := h.kept.faithful i
  change Faithful deployment i (mine i older) at hfaithful
  rw [hmine] at hfaithful
  obtain ⟨-, hinv, hreflects, -⟩ := hfaithful
  have hown : committing.ownRequest i id = some written := by
    rw [State.ownRequest, hreflects.own]
    exact hlatest
  have hmem : (⟨committing, .commit, ()⟩ : Deed) ∈ mine i older := hmine ▸ List.mem_cons_self
  obtain ⟨choice, after, hperform, hafter⟩ := h.led i _ (mem_log_of_mem_mine hmem)
  obtain rfl : after = committing.commit i := by
    have heffect := perform_effect hperform
    change Effect deployment.sign i committing .commit () after at heffect
    cases heffect
    rfl
  obtain ⟨r', hr', hfinal⟩ := hafter.request id written (com_commit_of_own hinv hown)
  exact ⟨r', hr', (hfinal.final hdecided).1 ▸ hdecided⟩

/-- A request that an update has found not to be stale any more is decided. -/
private theorem decided_of_missed {before scan : State} {scanned : Snapshot} {deed : Deed}
    {newer earlier : List Deed} {older : List (Moment Op Res Sid Event State)} {deviceId : Nat}
    {r : ElevationRequest} (h : Chronicled deployment ⟨before, older⟩)
    (hmine : mine i older = newer ++ deed :: earlier)
    (hscan : (⟨scan, .query, scanned⟩ : Deed) ∈ earlier) (hr : scan.request r.id = some r)
    (hclean : latestRequest r.id (changes earlier) = none)
    (hmiss : ∀ row, deed.before.db.view i ⟨.elevationRequests, r.id⟩ = some row →
      ¬ ElevationRequestRepository.isStale deviceId time row.record = true)
    (hdeadline : ∀ r', deed.before.request r.id = some r' → r'.expiresAt = r.expiresAt)
    (hdevice : r.deviceId = deviceId) (hexpires : r.expiresAt ≤ time) :
    ∃ r', before.request r.id = some r' ∧ r'.status ≠ .pending := by
  have hfaithful := h.kept.faithful i
  change Faithful deployment i (mine i older) at hfaithful
  rw [hmine] at hfaithful
  obtain ⟨-, hinv, hreflects, hevolved, -⟩ := hfaithful.suffix (List.suffix_append newer _)
  have hown : deed.before.ownRequest i r.id = none := by
    rw [State.ownRequest, hreflects.own]
    exact hclean
  obtain ⟨now, hnow, hdecides⟩ := (hevolved _ hscan).request r.id r hr
  obtain ⟨row, hrow, hrecord⟩ := Option.map_eq_some_iff.mp hnow
  have hview := (view_of_clean (k := ⟨.elevationRequests, r.id⟩) hinv hown).trans hrow
  have hdecided : now.status ≠ .pending := by
    intro hopen
    apply hmiss row hview
    rw [hrecord]
    apply decide_eq_true
    refine ⟨hdecides.deviceId.trans hdevice, hopen, ?_⟩
    rw [hdeadline now hnow]
    exact hexpires
  have hmem : deed ∈ mine i older := hmine ▸ List.mem_append_right _ List.mem_cons_self
  obtain ⟨r', hr', hfinal⟩ := (h.kept.evolved i deed (mem_log_of_mem_mine hmem)).request r.id now hnow
  exact ⟨r', hr', (hfinal.final hdecided).1 ▸ hdecided⟩

/-- What was overdue when the stale requests were looked for is decided after the commit. -/
private theorem decided_of_overdue {before committing scan : State} {scanned : Snapshot}
    {updates : List Deed} {older : List (Moment Op Res Sid Event State)} {deviceId : Nat}
    (h : Chronicled deployment ⟨before, older⟩)
    (hmine : mine i older =
      ⟨committing, .commit, ()⟩ :: (updates ++ ⟨scan, .query, scanned⟩ :: done))
    (hupdates : ∀ deed ∈ updates, ∃ id, deed.op = .expire deviceId time id)
    (hstale : ∀ r ∈ scanned.rows .elevationRequests,
      ElevationRequestRepository.isStale deviceId time r = true →
        ∃ deed ∈ updates, deed.op = .expire deviceId time (ElevationRequest.id r))
    (hdone : changes done = []) {r : ElevationRequest} (hr : scan.request r.id = some r)
    (hdeadline : ∀ deed ∈ updates, ∀ r', deed.before.request r.id = some r' →
      r'.expiresAt = r.expiresAt)
    (hdevice : r.deviceId = deviceId) (hexpires : r.expiresAt ≤ time) :
    ∃ r', before.request r.id = some r' ∧ r'.status ≠ .pending := by
  have hled : ∀ deed ∈ mine i older, ∃ choice after,
      perform deployment.sign i deed.op choice deed.before = some (deed.answer, after) ∧
        Evolves after before := fun deed hdeed => h.led i deed (mem_log_of_mem_mine hdeed)
  rw [hmine] at hled
  have hperformed : ∀ deed ∈ updates, ∃ choice after,
      perform deployment.sign i deed.op choice deed.before = some (deed.answer, after) := by
    intro deed hdeed
    obtain ⟨choice, after, hperform, -⟩ :=
      hled deed (List.mem_cons_of_mem _ (List.mem_append_left _ hdeed))
    exact ⟨choice, after, hperform⟩
  have hchanges : ∀ written, (∀ deed ∈ written, deed ∈ updates) →
      changes (written ++ ⟨scan, .query, scanned⟩ :: done) = written.filterMap change := by
    intro written hwritten
    have hends : ∀ deed ∈ written, deed.op.ends = false := by
      intro deed hdeed
      obtain ⟨id, hop⟩ := hupdates deed (hwritten deed hdeed)
      rw [hop]
      rfl
    rw [changes_append hends, show changes (⟨scan, .query, scanned⟩ :: done) = changes done from rfl,
      hdone, List.append_nil]
  have hscan : (⟨scan, .query, scanned⟩ : Deed) ∈ mine i older := by
    rw [hmine]
    exact List.mem_cons_of_mem _ (List.mem_append_right _ List.mem_cons_self)
  by_cases hpending : r.status = .pending
  · cases hlatest : latestRequest r.id (updates.filterMap change) with
    | some written =>
      -- the session has expired the request, and the commit has published that
      have hexpired := expired_of_changes hupdates hperformed hlatest
      refine decided_of_written h hmine ?_ (by rw [hexpired]; decide)
      rw [hchanges updates fun _ hdeed => hdeed]
      exact hlatest
    | none =>
      -- the session has found the request decided when it came to it
      obtain ⟨choice, after, hperform, -⟩ := hled _ (hmine ▸ hscan)
      have hfaithful := h.kept.faithful i
      change Faithful deployment i (mine i older) at hfaithful
      rw [hmine] at hfaithful
      obtain ⟨-, hinv, hreflects, -⟩ := hfaithful.suffix
        ((List.suffix_append updates _).trans (List.suffix_cons _ _))
      have hrows := (rows_of_clean hinv (fun t id => by rw [hreflects.own, hdone]; rfl) hperform
        .elevationRequests).2
      have hseen : r ∈ scanned.rows .elevationRequests := (hrows r).mpr hr
      obtain ⟨deed, hdeed, hop⟩ := hstale r hseen (decide_eq_true ⟨hdevice, hpending, hexpires⟩)
      have hunwritten : ∀ d ∈ updates, ∀ old w, change d = some (.request old w) → w.id ≠ r.id := by
        intro d hd old w hchange hid
        obtain ⟨w', hw'⟩ := latest_of_mem (List.mem_filterMap.mpr ⟨d, hd, hchange⟩)
        have hsome : latestRequest r.id (updates.filterMap change) = some w' := hid ▸ hw'
        rw [hlatest] at hsome
        contradiction
      obtain ⟨choice, after, hperform⟩ := hperformed deed hdeed
      rcases expire_cases hop hperform with ⟨old, w, hchange, hid, -⟩ | ⟨-, hmiss⟩
      · exact absurd hid (hunwritten deed hdeed old w hchange)
      · obtain ⟨newer, earlier, rfl⟩ := List.append_of_mem hdeed
        have hearlier : ∀ d ∈ earlier, d ∈ newer ++ deed :: earlier := fun d hd =>
          List.mem_append_right _ (List.mem_cons_of_mem _ hd)
        have hmine' : mine i older = (⟨committing, .commit, ()⟩ :: newer) ++ deed ::
            (earlier ++ ⟨scan, .query, scanned⟩ :: done) := by
          rw [hmine]
          simp
        refine decided_of_missed h hmine' (List.mem_append_right _ List.mem_cons_self) hr ?_ hmiss
          (hdeadline deed hdeed) hdevice hexpires
        rw [hchanges earlier hearlier]
        refine Option.eq_none_iff_forall_ne_some.mpr fun w hw => ?_
        obtain ⟨old, hmem⟩ := exists_of_latest hw
        obtain ⟨d, hd, hchange⟩ := List.mem_filterMap.mp hmem
        exact hunwritten d (hearlier d hd) old w hchange (id_of_latest hw)
  · obtain ⟨r', hr', hdecides⟩ :=
      (h.kept.evolved i _ (mem_log_of_mem_mine hscan)).request r.id r hr
    exact ⟨r', hr', (hdecides.final hpending).1 ▸ hpending⟩

/-- A deed of a session found the invariant. -/
theorem Faithful.inv (h : Faithful deployment i done) {deed : Deed} (hdeed : deed ∈ done) :
    Inv deployment deed.before := by
  obtain ⟨newer, older, rfl⟩ := List.append_of_mem hdeed
  exact (h.suffix (List.suffix_append newer _)).2.1

/-- A row that the first statement of a session returns was committed. -/
private theorem com_of_first {first : State} {found : Snapshot} {t : Table} {r : t.Record}
    (hfaithful : Faithful deployment i [⟨first, .query, found⟩]) (hr : r ∈ found.rows t) :
    first.com t (t.id r) = some r := by
  obtain ⟨⟨s', heffect⟩, -, hreflects, -⟩ := hfaithful
  change Effect deployment.sign i first .query found s' at heffect
  have hrow : found.row = first.db.view i := by
    cases heffect
    rfl
  rcases visible_of_mem_rows hrow hr with hown | ⟨-, hcom⟩
  · rw [hreflects.own] at hown
    contradiction
  · exact hcom

/-- Updates read nothing. -/
private theorem reads_updates {updates : List Deed} {deviceId : Nat}
    (hupdates : ∀ deed ∈ updates, ∃ id, deed.op = .expire deviceId time id) :
    reads (updates ++ done) = reads done := by
  induction updates with
  | nil => rfl
  | cons deed rest ih =>
    obtain ⟨id, hop⟩ := hupdates deed List.mem_cons_self
    have hquery : deed.op ≠ .query := by
      rw [hop]
      exact fun h => Op.noConfusion h
    rw [List.cons_append, reads_cons_ne hquery]
    exact ih fun d hd => hupdates d (List.mem_cons_of_mem _ hd)

/-- A poll begins after what was done before. -/
private theorem Polled.suffix {device : Device} {since : Datetime}
    {rows : List (ElevationRequest × Option Approval)} {after : List Deed}
    (h : Polled device since rows done after) : done <:+ after := by
  cases h with
  | @intro before committing scan clocked snapshot scanned time updates _ hrows hupdates hstale =>
    exact ⟨⟨before, .query, snapshot⟩ :: ⟨committing, .commit, ()⟩ ::
      (updates ++ [⟨scan, .query, scanned⟩, ⟨clocked, .now, time⟩]), by simp⟩

/-- The states in which a poll has read. -/
private theorem reads_polled {closing before committing scan clocked first : State}
    {snapshot scanned found : Snapshot} {updates : List Deed} {deviceId : Nat}
    (hmine : mine i c.shared.log = ⟨closing, .close, ()⟩ :: ⟨before, .query, snapshot⟩ ::
      ⟨committing, .commit, ()⟩ :: (updates ++ ⟨scan, .query, scanned⟩ :: ⟨clocked, .now, time⟩ ::
        [⟨first, .query, found⟩]))
    (hupdates : ∀ deed ∈ updates, ∃ id, deed.op = .expire deviceId time id) :
    reads (mine i c.shared.log) = [before, scan, first] := by
  have hreads : reads (updates ++ ⟨scan, .query, scanned⟩ :: ⟨clocked, .now, time⟩ ::
      [⟨first, .query, found⟩]) = [scan, first] := reads_updates hupdates
  rw [hmine]
  exact congrArg (before :: ·) hreads

/-- What the last statement of a poll has read is committed. -/
private theorem tells_polled {closing before committing : State} {snapshot : Snapshot}
    {rest : List Deed} (h : Chronicled deployment c.shared)
    (hmine : mine i c.shared.log = ⟨closing, .close, ()⟩ :: ⟨before, .query, snapshot⟩ ::
      ⟨committing, .commit, ()⟩ :: rest) (deviceId : Nat) (since : Datetime) :
    before.Tells deviceId since (((snapshot.rows .elevationRequests).filter
      (ApprovalRepository.isDecidedSince deviceId since)).insertionSort (fun r r' =>
        ApprovalRepository.reviewedMicros r ≤ ApprovalRepository.reviewedMicros r') |>.flatMap
          (ApprovalRepository.outerJoin (snapshot.rows .approvals))) := by
  have hmem : (⟨before, .query, snapshot⟩ : Deed) ∈ mine i c.shared.log := by
    rw [hmine]
    exact List.mem_cons_of_mem _ List.mem_cons_self
  obtain ⟨choice, after, hperform, -⟩ := h.led i _ (mem_log_of_mem_mine hmem)
  have hfaithful : Faithful deployment i (mine i c.shared.log) := h.kept.faithful i
  rw [hmine] at hfaithful
  obtain ⟨-, hinv, hreflects, -⟩ := hfaithful.tail
  have hrows := rows_of_clean hinv (fun t id => hreflects.own t id) hperform
  exact tells_of_rows hinv (hrows .elevationRequests).1 (hrows .elevationRequests).2
    (hrows .approvals).1 (hrows .approvals).2 deviceId since

/-- What a call that polls is answered is what was committed when its last statement read. -/
theorem answer_tells {labels : List (Label Sid Choice Event Call)} {call : Call} {answer : Answer}
    {since : Datetime} (hinit : s.Initial)
    (hrun : ((system deployment).recorded .free).run labels (System.init ⟨s, []⟩) = some c)
    (hthread : c.thread i = some (call, .pure answer)) (hsince : call.since = some since) :
    ∃ device rows first scan before, reads (mine i c.shared.log) = [before, scan, first] ∧
      call.IsOf deployment device ∧ first.device device.id = some device ∧
      call.report rows = some answer ∧ before.Tells device.id since rows := by
  obtain ⟨hchronicled, -, hpolls⟩ := hinit.chronicled hrun
  obtain ⟨closing, done, hmine, hpolled⟩ := hpolls i call answer hthread
  obtain ⟨device, rows, first, found, hreport, hdevice, hmem, hpolled⟩ := hpolled since hsince
  have hfirst := hpolled.suffix.trans (hmine ▸ List.suffix_cons _ _)
  have hcom := com_of_first ((hchronicled.kept.faithful i).suffix hfirst) hmem
  cases hpolled with
  | @intro before committing scan clocked snapshot scanned time updates _ hrows hupdates hstale =>
    exact ⟨device, rows, first, scan, before, reads_polled hmine hupdates, hdevice, hcom, hreport,
      hrows ▸ tells_polled hchronicled hmine device.id since⟩

/-- A call that polls reads three times: its device, the stale requests, and what it tells. What it is
answered is what the committed rows have to tell in the last of these states, in which no request is
pending that had passed its deadline, by the clock of the call, when the stale ones were read. -/
theorem polls_tell_committed {labels : List (Label Sid Choice Event Call)} {call : Call}
    {answer : Answer} {since : Datetime} (hinit : s.Initial)
    (hrun : ((system deployment).recorded .free).run labels (System.init ⟨s, []⟩) = some c)
    (hthread : c.thread i = some (call, .pure answer)) (hsince : call.since = some since) :
    ∃ device rows first scan before clocked time,
      reads (mine i c.shared.log) = [before, scan, first] ∧
      ⟨clocked, .now, time⟩ ∈ mine i c.shared.log ∧
      call.IsOf deployment device ∧ first.device device.id = some device ∧
      call.report rows = some answer ∧ before.Tells device.id since rows ∧
      ∀ r, scan.request r.id = some r → r.deviceId = device.id → r.expiresAt ≤ time →
        ∃ r', before.request r.id = some r' ∧ r'.status ≠ .pending := by
  obtain ⟨hchronicled, hthroughout, hpolls⟩ := hinit.chronicled hrun
  obtain ⟨closing, done, hmine, hpolled⟩ := hpolls i call answer hthread
  obtain ⟨device, rows, first, found, hreport, hdevice, hmem, hpolled⟩ := hpolled since hsince
  have hfaithful : Faithful deployment i (mine i c.shared.log) := hchronicled.kept.faithful i
  have hcom := com_of_first (hfaithful.suffix (hpolled.suffix.trans (hmine ▸ List.suffix_cons _ _))) hmem
  cases hpolled with
  | @intro before committing scan clocked snapshot scanned time updates _ hrows hupdates hstale =>
    have hdated : Dated deployment False c := hinit.dated.run (fun h => h.elim) hrun
    have hmem_scan : (⟨scan, .query, scanned⟩ : Deed) ∈ mine i c.shared.log := by simp [hmine]
    have hmem_clock : (⟨clocked, .now, time⟩ : Deed) ∈ mine i c.shared.log := by simp [hmine]
    have hmem_update : ∀ deed ∈ updates, deed ∈ mine i c.shared.log := by
      intro deed hdeed
      simp [hmine, hdeed]
    -- the deadline of a request is what it was when the stale ones were read
    have hdeadline : ∀ r, scan.request r.id = some r → ∀ deed ∈ updates, ∀ r',
        deed.before.request r.id = some r' → r'.expiresAt = r.expiresAt := by
      intro r hr deed hdeed r' hr'
      obtain ⟨last, hlast, -⟩ :=
        (hchronicled.kept.evolved i _ (mem_log_of_mem_mine hmem_scan)).request r.id r hr
      have hscan := (hdated.fixed.carried i _ (mem_log_of_mem_mine hmem_scan)).expiresAt
        (hfaithful.inv hmem_scan) (.inl hr) (.inl hlast)
      have hupdate := (hdated.fixed.carried i _ (mem_log_of_mem_mine (hmem_update deed hdeed))).expiresAt
        (hfaithful.inv (hmem_update deed hdeed)) (.inl hr') (.inl hlast)
      exact hupdate.symm.trans hscan
    obtain ⟨newer, older, hlog, hmine', -⟩ := exists_of_mine
      (show mine i c.shared.log = [⟨closing, .close, ()⟩] ++ ⟨before, .query, snapshot⟩ :: _ from hmine)
    obtain ⟨hbefore, -⟩ := hthroughout i _ older ⟨newer, hlog.symm⟩
    refine ⟨device, rows, first, scan, before, clocked, time, reads_polled hmine hupdates, hmem_clock,
      hdevice, hcom, hreport, hrows ▸ tells_polled hchronicled hmine device.id since, ?_⟩
    intro r hr hsame hexpires
    exact decided_of_overdue hbefore hmine' hupdates hstale rfl hr (hdeadline r hr) hsame hexpires

end Runs

namespace Sample

/-- A second request of the device. -/
def neglected : List (Label Sid Choice Event Call) :=
  [.spawn 3 (.agentSubmitRequest (some (deviceUuid.textD ++ ".secret"))
      { body with requestId := .repeated 12 } true),
    .perform 3 (order 1 1 2), .perform 3 .unit, .perform 3 .unit, .perform 3 .unit,
    .perform 3 .unit, .perform 3 .unit]

/-- A poll of the device, which finds two requests. -/
def poll : List (Label Sid Choice Event Call) :=
  [.spawn 2 (.agentPollDecisions deviceUuid.textD none (some (deviceUuid.textD ++ ".secret")) true),
    .perform 2 (order 2 1 3), .perform 2 .unit, .perform 2 (order 2 1 3), .perform 2 .unit,
    .perform 2 .unit, .perform 2 (order 2 1 3), .perform 2 .unit]

/-- The first request is approved, and nobody reviews the second. -/
def polled : List (Label Sid Choice Event Call) :=
  submission ++ approval ++ neglected ++ .env (.advance deadline) :: poll

/-- What a decision says of a request, and whether it carries a token. -/
def told (decision : AgentApprovalDecision) : Uuid × ElevationRequestStatus × Bool :=
  (decision.requestId, decision.status, decision.token.isSome)

/-- An agent's poll and what it was told. -/
structure Exchange where
  deviceId : String
  since : Option Datetime
  credentials : Option String
  admitted : Bool
  decisions : List (Uuid × ElevationRequestStatus × Bool)
  deriving DecidableEq

/-- The exchange of a thread that was answered. -/
def exchange : Call × Handler Answer → Option Exchange
  | (.agentPollDecisions deviceId since credentials admitted, .pure (.agentDecisions list)) =>
    some ⟨deviceId, since, credentials, admitted, list.map told⟩
  | _ => none

/-- A thread that has polled and was answered. -/
theorem thread_of_exchange {thread : Call × Handler Answer} {e : Exchange}
    (h : exchange thread = some e) :
    ∃ list, thread = (.agentPollDecisions e.deviceId e.since e.credentials e.admitted,
      .pure (.agentDecisions list)) ∧ list.map told = e.decisions := by
  unfold exchange at h
  split at h
  · next list =>
    obtain rfl := Option.some.inj h
    exact ⟨list, rfl, rfl⟩
  · contradiction

end Sample

/-- A poll is told of an approval, with its token, and of a request that it has itself expired. -/
theorem polls_tell_committed_sample : ∃ c list device rows before,
    ((system Sample.deployment).recorded .free).run Sample.polled
      (System.init ⟨Sample.database, []⟩) = some c ∧
    c.thread 2 = some (.agentPollDecisions Sample.deviceUuid.textD none
      (some (Sample.deviceUuid.textD ++ ".secret")) true, .pure (.agentDecisions list)) ∧
    list.map Sample.told = [(Sample.requestUuid, .approved, true), (.repeated 12, .expired, false)] ∧
    list = rows.map AgentApprovalDecision.ofRows ∧ before ∈ reads (mine 2 c.shared.log) ∧
    before.Tells (Device.id device) epoch rows := by
  have hrun : (((system Sample.deployment).recorded .free).run Sample.polled
      (System.init ⟨Sample.database, []⟩)).bind (fun c => (c.thread 2).bind Sample.exchange) =
      some ⟨Sample.deviceUuid.textD, none, some (Sample.deviceUuid.textD ++ ".secret"), true,
        [(Sample.requestUuid, .approved, true), (.repeated 12, .expired, false)]⟩ := by
    decide +kernel
  obtain ⟨c, hc, hanswered⟩ := Option.bind_eq_some_iff.mp hrun
  obtain ⟨thread, hthread, hanswered⟩ := Option.bind_eq_some_iff.mp hanswered
  obtain ⟨list, rfl, htold⟩ := Sample.thread_of_exchange hanswered
  obtain ⟨device, rows, first, scan, before, clocked, time, hreads, -, -, -, hreport, htells, -⟩ :=
    polls_tell_committed Sample.database_initial hc hthread rfl
  obtain rfl := Answer.agentDecisions.inj (Option.some.inj hreport)
  exact ⟨c, _, device, rows, before, hc, hthread, htold, rfl, by simp [hreads], htells⟩

end ElevateGate.Backend
