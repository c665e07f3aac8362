import ElevateGate.Backend.Approvals
import ElevateGate.Interaction.Recording

/-!
# What a session has written

The rows that a session has written since its last commit can be read off its own deeds, and so can
the committed rows that they replace: nobody else can change a row that a session has written. A
commit therefore publishes what the deeds before it have written.
-/

namespace ElevateGate.Backend

open Interaction Time Text

/-- A deed of a session. -/
abbrev Deed := Interaction.Deed Op Res State

/-- A state of the backend with the steps that led to it. -/
abbrev Record := Recorded Op Res Sid Event State

/-- A row that a session has written, and the committed row that it replaces, if there is one. -/
structure Change where
  table : Table
  old : Option table.Record
  new : table.Record

/-- The primary key of the row. -/
def Change.id (c : Change) : Nat := c.table.id c.new

/-- The row, if it belongs to a table. -/
def Change.row (t : Table) (c : Change) : Option t.Record :=
  if h : c.table = t then some (h ▸ c.new) else none

@[simp] theorem Change.row_self {t : Table} {old : Option t.Record} {new : t.Record} :
    Change.row t ⟨t, old, new⟩ = some new := by
  simp [Change.row]

theorem Change.row_ne {t t' : Table} {old : Option t'.Record} {new : t'.Record} (h : t' ≠ t) :
    Change.row t ⟨t', old, new⟩ = none := by
  simp [Change.row, h]

/-- Whether an operation ends the transaction of its session. -/
def Op.ends : Op → Bool
  | .commit => true
  | .close => true
  | _ => false

/-- The row that a deed has written. -/
def change : Deed → Option Change
  | ⟨before, .update k _, some row⟩ => some ⟨k.table, before.com k.table k.id, row.record⟩
  | ⟨before, .insert t _, .ok record⟩ => some ⟨t, before.com t (t.id record), record⟩
  | _ => none

/-- The rows that a session has written since its last commit, the latest first. -/
def changes : List Deed → List Change
  | [] => []
  | deed :: older => if deed.op.ends then [] else (change deed).toList ++ changes older

/-- The latest row with a given primary key. -/
def latest (t : Table) (id : Nat) (list : List Change) : Option t.Record :=
  (list.filterMap (Change.row t)).find? fun r => decide (t.id r = id)

namespace Change

/-- A written request. -/
def request (old : Option ElevationRequest) (new : ElevationRequest) : Change :=
  ⟨.elevationRequests, old, new⟩

/-- A written approval. -/
def approval (old : Option Approval) (new : Approval) : Change := ⟨.approvals, old, new⟩

/-- A written audit row. -/
def log (old : Option AuditLog) (new : AuditLog) : Change := ⟨.auditLogs, old, new⟩

end Change

section Kinds

variable {r r' : ElevationRequest} {a : Approval} {l : AuditLog} {old old' : Option ElevationRequest}
  {oldApproval : Option Approval} {oldLog : Option AuditLog}

@[simp] theorem Change.request_inj :
    Change.request old r = Change.request old' r' ↔ old = old' ∧ r = r' := by
  constructor
  · intro h
    obtain ⟨-, hold, hnew⟩ := Change.mk.inj h
    exact ⟨eq_of_heq hold, eq_of_heq hnew⟩
  · rintro ⟨rfl, rfl⟩
    rfl

@[simp] theorem Change.log_inj {l' : AuditLog} {oldLog' : Option AuditLog} :
    Change.log oldLog l = Change.log oldLog' l' ↔ oldLog = oldLog' ∧ l = l' := by
  constructor
  · intro h
    obtain ⟨-, hold, hnew⟩ := Change.mk.inj h
    exact ⟨eq_of_heq hold, eq_of_heq hnew⟩
  · rintro ⟨rfl, rfl⟩
    rfl

@[simp] theorem Change.request_ne_approval :
    Change.request old r ≠ Change.approval oldApproval a := fun h =>
  absurd (show Table.elevationRequests = Table.approvals from congrArg Change.table h) (by decide)

@[simp] theorem Change.request_ne_log : Change.request old r ≠ Change.log oldLog l := fun h =>
  absurd (show Table.elevationRequests = Table.auditLogs from congrArg Change.table h) (by decide)

end Kinds

/-- The latest request with a given primary key. -/
def latestRequest (id : Nat) (list : List Change) : Option ElevationRequest :=
  latest .elevationRequests id list

/-- The latest approval with a given primary key. -/
def latestApproval (id : Nat) (list : List Change) : Option Approval := latest .approvals id list

/-- The latest audit row with a given primary key. -/
def latestLog (id : Nat) (list : List Change) : Option AuditLog := latest .auditLogs id list

section Lists

variable {t : Table} {id : Nat} {list : List Change}

@[simp] theorem latest_nil : latest t id [] = none := rfl

@[simp] theorem latest_cons_self {old : Option t.Record} {new : t.Record} :
    latest t id (⟨t, old, new⟩ :: list) = if t.id new = id then some new else latest t id list := by
  by_cases h : t.id new = id <;> simp [latest, h]

theorem latest_cons_ne {t' : Table} {old : Option t'.Record} {new : t'.Record} (h : t' ≠ t) :
    latest t id (⟨t', old, new⟩ :: list) = latest t id list := by
  simp [latest, Change.row_ne h]

section Typed

variable {r r' : ElevationRequest} {a a' : Approval} {l l' : AuditLog}
  {oldRequest : Option ElevationRequest} {oldApproval : Option Approval} {oldLog : Option AuditLog}

@[simp] theorem latestRequest_nil : latestRequest id [] = none := rfl

@[simp] theorem latestApproval_nil : latestApproval id [] = none := rfl

@[simp] theorem latestLog_nil : latestLog id [] = none := rfl

@[simp] theorem latestRequest_request : latestRequest id (.request oldRequest r :: list) =
    if r.id = id then some r else latestRequest id list := latest_cons_self

@[simp] theorem latestRequest_approval : latestRequest id (.approval oldApproval a :: list) =
    latestRequest id list := latest_cons_ne (by decide)

@[simp] theorem latestRequest_log : latestRequest id (.log oldLog l :: list) =
    latestRequest id list := latest_cons_ne (by decide)

@[simp] theorem latestApproval_request : latestApproval id (.request oldRequest r :: list) =
    latestApproval id list := latest_cons_ne (by decide)

@[simp] theorem latestApproval_approval : latestApproval id (.approval oldApproval a :: list) =
    if a.id = id then some a else latestApproval id list := latest_cons_self

@[simp] theorem latestApproval_log : latestApproval id (.log oldLog l :: list) =
    latestApproval id list := latest_cons_ne (by decide)

@[simp] theorem latestLog_request : latestLog id (.request oldRequest r :: list) =
    latestLog id list := latest_cons_ne (by decide)

@[simp] theorem latestLog_approval : latestLog id (.approval oldApproval a :: list) =
    latestLog id list := latest_cons_ne (by decide)

@[simp] theorem latestLog_log : latestLog id (.log oldLog l :: list) =
    if l.id = id then some l else latestLog id list := latest_cons_self

end Typed

/-- A latest row has the key that it was looked up under. -/
theorem id_of_latest {r : t.Record} (h : latest t id list = some r) : t.id r = id :=
  of_decide_eq_true (List.find?_some (p := fun r => decide (t.id r = id)) h)

/-- A latest row was written. -/
theorem exists_of_latest {r : t.Record} (h : latest t id list = some r) :
    ∃ old, (⟨t, old, r⟩ : Change) ∈ list := by
  obtain ⟨⟨t', old, new⟩, hmem, hrow⟩ := List.mem_filterMap.mp (List.mem_of_find?_eq_some h)
  by_cases ht : t' = t
  · subst ht
    rw [Change.row_self] at hrow
    obtain rfl := Option.some.inj hrow
    exact ⟨old, hmem⟩
  · rw [Change.row_ne ht] at hrow
    contradiction

/-- A key that was written has a latest row. -/
theorem latest_of_mem {old : Option t.Record} {new : t.Record}
    (h : (⟨t, old, new⟩ : Change) ∈ list) : ∃ r, latest t (t.id new) list = some r := by
  refine Option.isSome_iff_exists.mp (List.find?_isSome.mpr ⟨new, ?_, by simp⟩)
  exact List.mem_filterMap.mpr ⟨_, h, Change.row_self⟩

end Lists

/-- What an operation answers and does. -/
inductive Effect (sign : List UInt8 → List UInt8) (i : Sid) (s : State) :
    (op : Op) → Res op → State → Prop
  | query (ids : Table → List Nat) : Effect sign i s .query ⟨s.db.view i, ids⟩ (s.begin_ i)
  | miss {k : Key} {assign : Row k → Option (Row k)}
      (h : ∀ row, s.db.view i k = some row → assign row = none) :
      Effect sign i s (.update k assign) none (s.begin_ i)
  | hit {t : Table} {id : Nat} {assign : Row ⟨t, id⟩ → Option (Row ⟨t, id⟩)} {row row' : Row ⟨t, id⟩}
      (hview : s.db.view i ⟨t, id⟩ = some row) (hassign : assign row = some row')
      (hfree : s.db.free i ⟨t, id⟩ = true) :
      Effect sign i s (.update ⟨t, id⟩ assign) (some row') (s.written i t id row' s.nextId)
  | violation {t : Table} {make : (id : Nat) → Datetime → Row ⟨t, id⟩} :
      Effect sign i s (.insert t make) (.error .integrityError)
        { s.begin_ i with nextId := Function.update s.nextId t (s.nextId t + 1) }
  | inserted {t : Table} {make : (id : Nat) → Datetime → Row ⟨t, id⟩}
      (hviolates : ¬ s.violates i t (make (s.nextId t) (s.txNow i)).record = true) :
      Effect sign i s (.insert t make) (.ok (make (s.nextId t) (s.txNow i)).record)
        (s.written i t (s.nextId t) (make (s.nextId t) (s.txNow i))
          (Function.update s.nextId t (s.nextId t + 1)))
  | commit : Effect sign i s .commit () (s.commit i)
  | close : Effect sign i s .close () (s.rollback i)
  | now : Effect sign i s .now s.clock s
  | tokenUrlsafe {nbytes : Nat} {random : List UInt8} :
      Effect sign i s (.tokenUrlsafe nbytes) (urlsafeText random) s
  | uuid4 {random : Uuid} : Effect sign i s .uuid4 random s
  | signPayload {issuance : Issuance} {payload : List UInt8} :
      Effect sign i s (.signPayload issuance payload) (sign payload)
        { s with signed := (issuance, payload) :: s.signed }

section Effects

variable {sign : List UInt8 → List UInt8} {i j : Sid} {s s' : State} {op : Op} {answer : Res op}

/-- Every operation has such an effect. -/
theorem perform_effect {choice : Choice} (h : perform sign i op choice s = some (answer, s')) :
    Effect sign i s op answer s' := by
  cases op with
  | query =>
    cases choice with
    | order ids =>
      simp only [perform] at h
      split at h
      · obtain ⟨rfl, rfl⟩ := Prod.mk.inj (Option.some.inj h)
        exact .query ids
      · contradiction
    | _ => contradiction
  | update k assign =>
    obtain ⟨t, id⟩ := k
    simp only [perform] at h
    split at h
    · next hview =>
      obtain ⟨rfl, rfl⟩ := Prod.mk.inj (Option.some.inj h)
      exact .miss fun row hrow => by rw [hview] at hrow; contradiction
    · next row hview =>
      split at h
      · next hassign =>
        obtain ⟨rfl, rfl⟩ := Prod.mk.inj (Option.some.inj h)
        refine .miss fun row' hrow => ?_
        rw [hview] at hrow
        rwa [← Option.some.inj hrow]
      · next row' hassign =>
        split at h
        · next hfree =>
          obtain ⟨rfl, rfl⟩ := Prod.mk.inj (Option.some.inj h)
          exact .hit hview hassign hfree
        · contradiction
  | insert t make =>
    simp only [perform] at h
    split at h
    · contradiction
    · split at h
      · obtain ⟨rfl, rfl⟩ := Prod.mk.inj (Option.some.inj h)
        exact .violation
      · next hviolates =>
        obtain ⟨rfl, rfl⟩ := Prod.mk.inj (Option.some.inj h)
        exact .inserted hviolates
  | tokenUrlsafe nbytes =>
    cases choice with
    | bytes random =>
      simp only [perform] at h
      split at h
      · obtain ⟨rfl, rfl⟩ := Prod.mk.inj (Option.some.inj h)
        exact .tokenUrlsafe
      · contradiction
    | _ => contradiction
  | uuid4 =>
    cases choice with
    | uuid random =>
      obtain ⟨rfl, rfl⟩ := Prod.mk.inj (Option.some.inj h)
      exact .uuid4
    | _ => contradiction
  | commit =>
    obtain ⟨rfl, rfl⟩ : () = answer ∧ s.commit i = s' := by
      cases choice <;> exact Prod.mk.inj (Option.some.inj h)
    exact .commit
  | close =>
    obtain ⟨rfl, rfl⟩ : () = answer ∧ s.rollback i = s' := by
      cases choice <;> exact Prod.mk.inj (Option.some.inj h)
    exact .close
  | now =>
    obtain ⟨rfl, rfl⟩ : s.clock = answer ∧ s = s' := by
      cases choice <;> exact Prod.mk.inj (Option.some.inj h)
    exact .now
  | signPayload issuance payload =>
    obtain ⟨rfl, rfl⟩ : sign payload = answer ∧
        { s with signed := (issuance, payload) :: s.signed } = s' := by
      cases choice <;> exact Prod.mk.inj (Option.some.inj h)
    exact .signPayload

/-- Primary keys only grow. -/
theorem Effect.nextId_le (h : Effect sign i s op answer s') (t : Table) : s.nextId t ≤ s'.nextId t := by
  have hnext : ∀ t', s.nextId t ≤ Function.update s.nextId t' (s.nextId t' + 1) t := fun t' => by
    by_cases ht : t = t'
    · subst ht
      simp
    · simp [Function.update_of_ne ht]
  cases h with
  | violation => exact hnext _
  | inserted => exact hnext _
  | _ => exact Nat.le_refl _

/-- Operations other than a commit leave the committed rows. -/
theorem Effect.committed (h : Effect sign i s op answer s') (hop : op ≠ .commit) :
    s'.db.committed = s.db.committed := by
  cases h with
  | commit => exact absurd rfl hop
  | _ => rfl

/-- A row has one writer. -/
theorem own_unique {t : Table} {id : Nat} {r r' : t.Record} (h : s.own i t id = some r)
    (h' : s.own j t id = some r') : i = j := by
  obtain ⟨row, hrow, -⟩ := State.own_eq_some.mp h
  obtain ⟨row', hrow', -⟩ := State.own_eq_some.mp h'
  rw [hrow] at hrow'
  exact (Prod.mk.inj (Option.some.inj hrow')).1

/-- Writing a row that is free leaves the versions of the other sessions. -/
theorem own_written_other {t t' : Table} {id id' : Nat} {row : Row ⟨t, id⟩}
    {nextId : Table → Nat} (hji : j ≠ i) (hfree : s.db.free i ⟨t, id⟩ = true) :
    (s.written i t id row nextId).own j t' id' = s.own j t' id' := by
  by_cases hkey : (⟨t', id'⟩ : Key) = ⟨t, id⟩
  · obtain ⟨rfl, rfl⟩ := Key.mk.inj hkey
    have hnew : (s.written i t' id' row nextId).own j t' id' = none := by
      simp [State.own, State.written, hji.symm]
    have hold : s.own j t' id' = none := by
      refine Option.eq_none_iff_forall_ne_some.mpr fun r hr => ?_
      obtain ⟨row', hdirty, -⟩ := State.own_eq_some.mp hr
      exact hji (Database.free_iff.mp hfree j _ hdirty)
    rw [hnew, hold]
  · exact own_written_ne hkey

end Effects

/-- The versions of a session and the committed rows under them are what its deeds say. -/
structure Reflects (i : Sid) (s : State) (done : List Deed) : Prop where
  own : ∀ t id, s.own i t id = latest t id (changes done)
  old : ∀ c ∈ changes done, s.com c.table c.id = c.old

/-- The deeds of a session had their effects, on states that satisfy the invariant, that have evolved
from the states before them, and that the deeds before them reflect. -/
def Faithful (deployment : Deployment) (i : Sid) : List Deed → Prop
  | [] => True
  | deed :: older => (∃ s', Effect deployment.sign i deed.before deed.op deed.answer s') ∧
      Inv deployment deed.before ∧ Reflects i deed.before older ∧
      (∀ d ∈ older, Evolves d.before deed.before) ∧ Faithful deployment i older

/-- What the deeds of the sessions say is true. -/
structure Kept (deployment : Deployment) (r : Record) : Prop where
  reflects : ∀ i, Reflects i r.state (mine i r.log)
  evolved : ∀ i deed, .performed i deed ∈ r.log → Evolves deed.before r.state
  faithful : ∀ i, Faithful deployment i (mine i r.log)

section Reflecting

variable {deployment : Deployment} {sign : List UInt8 → List UInt8} {i j : Sid} {s s' : State}
  {op : Op} {answer : Res op} {done : List Deed}

/-- A session that has written nothing has no writes to reflect. -/
theorem reflects_nil (h : ∀ t id, s.own i t id = none) (hchanges : changes done = []) :
    Reflects i s done where
  own t id := by rw [hchanges]; exact h t id
  old c hc := by rw [hchanges] at hc; contradiction

/-- A row that a session has written is its own. -/
theorem Reflects.exists_own (h : Reflects i s done) {c : Change} (hc : c ∈ changes done) :
    ∃ r, s.own i c.table c.id = some r := by
  obtain ⟨t, old, new⟩ := c
  obtain ⟨r, hr⟩ := latest_of_mem hc
  exact ⟨r, (h.own t _).trans hr⟩

/-- Where the rows of a session stay, so does what reflects them. -/
theorem Reflects.of_same (h : Reflects i s done) (hown : ∀ t id, s'.own i t id = s.own i t id)
    (hcom : ∀ t id r, s.own i t id = some r → s'.com t id = s.com t id) : Reflects i s' done where
  own t id := (hown t id).trans (h.own t id)
  old c hc := by
    obtain ⟨r, hr⟩ := h.exists_own hc
    rw [hcom _ _ r hr]
    exact h.old c hc

/-- A deed that touches no row adds nothing. -/
theorem Reflects.silent {done' : List Deed} (h : Reflects i s done) (hdb : s'.db = s.db)
    (hchanges : changes done' = changes done) : Reflects i s' done' where
  own t id := by
    rw [hchanges, ← h.own t id]
    simp only [State.own, hdb]
  old c hc := by
    rw [com_congr (show s'.db.committed = s.db.committed by rw [hdb])]
    exact h.old c (by rwa [← hchanges])

/-- A write becomes the latest of its key. -/
private theorem Reflects.written {t : Table} {id : Nat} {row : Row ⟨t, id⟩} {nextId : Table → Nat}
    (h : Reflects i s done) {deed : Deed} (hends : deed.op.ends = false)
    (hchange : change deed = some ⟨t, s.com t id, row.record⟩) :
    Reflects i (s.written i t id row nextId) (deed :: done) := by
  have hkey : t.id row.record = id := row.id_eq
  have hchanges : changes (deed :: done) = ⟨t, s.com t id, row.record⟩ :: changes done := by
    simp [changes, hends, hchange]
  constructor
  · intro t' id'
    rw [hchanges]
    by_cases ht : t = t'
    · subst ht
      rw [latest_cons_self, hkey]
      split
      · next hid =>
        subst hid
        exact own_written_self
      · next hid => exact (own_written_ne (by simp [Ne.symm hid])).trans (h.own t id')
    · rw [latest_cons_ne ht]
      exact (own_written_ne (by simp [Ne.symm ht])).trans (h.own t' id')
  · intro c hc
    rw [hchanges] at hc
    rcases List.mem_cons.mp hc with rfl | hc
    · change s.com t (t.id row.record) = s.com t id
      rw [hkey]
    · exact h.old c hc

/-- What a session does is reflected. -/
theorem Reflects.performed (h : Reflects i s done) (heffect : Effect sign i s op answer s') :
    Reflects i s' (⟨s, op, answer⟩ :: done) := by
  cases heffect with
  | hit hview hassign hfree => exact h.written rfl rfl
  | @inserted t make hviolates =>
    refine h.written rfl ?_
    rw [change, (make (s.nextId t) (s.txNow i)).id_eq]
  | commit =>
    have hdirty : (s.commit i).db.dirty = s.db.dropDirty i := rfl
    exact reflects_nil (fun t id => own_dropDirty hdirty) rfl
  | close =>
    have hdirty : (s.rollback i).db.dirty = s.db.dropDirty i := rfl
    exact reflects_nil (fun t id => own_dropDirty hdirty) rfl
  | _ => exact h.silent rfl rfl

/-- What the others do leaves what reflects a session. -/
theorem Reflects.other (h : Reflects j s done) (hinv : Inv deployment s) (hji : j ≠ i)
    (heffect : Effect sign i s op answer s') : Reflects j s' done := by
  cases heffect with
  | hit hview hassign hfree =>
    exact h.of_same (fun _ _ => own_written_other hji hfree) fun _ _ _ _ => com_written
  | @inserted t make hviolates =>
    have hfree : s.db.free i ⟨t, s.nextId t⟩ = true := by
      simp [Database.free, (hinv.fresh ⟨t, s.nextId t⟩ (Nat.le_refl _)).2]
    exact h.of_same (fun _ _ => own_written_other hji hfree) fun _ _ _ _ => com_written
  | commit =>
    have hrely : Database.Frame j s.db (s.db.commit i) := Database.commit_frame hji.symm
    refine h.of_same (fun t id => Option.ext fun r => ?_) fun t id r hr => ?_
    · rw [State.own_eq_some, State.own_eq_some]
      exact exists_congr fun row => and_congr (hrely.dirty _ _) Iff.rfl
    · obtain ⟨row, hrow, -⟩ := State.own_eq_some.mp hr
      exact congrArg (Option.map Row.record) (hrely.committed _ _ hrow)
  | close =>
    have hrely : Database.Frame j s.db (s.db.rollback i) := Database.rollback_frame hji.symm
    refine h.of_same (fun t id => Option.ext fun r => ?_) fun _ _ _ _ => rfl
    rw [State.own_eq_some, State.own_eq_some]
    exact exists_congr fun row => and_congr (hrely.dirty _ _) Iff.rfl
  | _ => exact h.of_same (fun _ _ => rfl) fun _ _ _ _ => rfl

/-- Maintenance leaves what reflects a session. -/
theorem Reflects.maintain (h : Reflects i s done) {k : Key} {version : Option (Row k)}
    (hmaintainable : maintainable s k version = true) : Reflects i (s.maintain k version) done := by
  refine h.of_same (fun _ _ => rfl) fun t id r hr => com_maintain ?_
  rintro rfl
  obtain ⟨row, hrow, -⟩ := State.own_eq_some.mp hr
  rw [(maintainable_spec hmaintainable).1] at hrow
  contradiction

/-- So do several changes at once. -/
theorem Reflects.transact (h : Reflects i s done) {rows : List (Σ k : Key, Option (Row k))}
    (htransact : s.transact rows = some s') : Reflects i s' done :=
  transact_induction (R := fun s s' => Reflects i s done → Reflects i s' done) (fun _ h => h)
    (fun h h' hs => h' (h hs)) (fun _ _ _ hmaintainable h => h.maintain hmaintainable) htransact h

end Reflecting

section Keeping

variable {deployment : Deployment} {P : Call → List Deed → Op → Prop}

/-- The deeds before a deed are faithful too. -/
theorem Faithful.tail {i : Sid} {deed : Deed} {older : List Deed}
    (h : Faithful deployment i (deed :: older)) : Faithful deployment i older := h.2.2.2.2

/-- So are the deeds before any of them. -/
theorem Faithful.suffix {i : Sid} {done older : List Deed} (h : Faithful deployment i done)
    (hsuffix : older <:+ done) : Faithful deployment i older := by
  induction done with
  | nil => exact List.suffix_nil.mp hsuffix ▸ h
  | cons deed rest ih =>
    rcases List.suffix_cons_iff.mp hsuffix with rfl | hsuffix
    · exact h
    · exact ih h.tail hsuffix

/-- A thread that stops has no rows left. -/
private theorem Kept.quiet {s s' : State} {log : List (Moment Op Res Sid Event State)}
    {moment : Moment Op Res Sid Event State} (h : Kept deployment ⟨s, log⟩) (hevolves : Evolves s s')
    (hmoment : ∀ i deed, moment ≠ .performed i deed)
    (hsame : ∀ k, mine k (moment :: log) = mine k log → Reflects k s' (mine k log))
    (hstopped : ∀ k, mine k (moment :: log) = [] → ∀ t id, s'.own k t id = none) :
    Kept deployment ⟨s', moment :: log⟩ where
  reflects k := by
    change Reflects k s' (mine k (moment :: log))
    rcases (mine_quiet hmoment : mine k (_ :: log) = mine k log ∨ _) with hmine | hmine
    · rw [hmine]
      exact hsame k hmine
    · rw [hmine]
      exact reflects_nil (hstopped k hmine) rfl
  evolved k deed hmem := by
    rcases List.mem_cons.mp hmem with heq | hmem
    · exact absurd heq.symm (hmoment k deed)
    · exact (h.evolved k deed hmem).trans hevolves
  faithful k := by
    change Faithful deployment k (mine k (moment :: log))
    rcases (mine_quiet hmoment : mine k (_ :: log) = mine k log ∨ _) with hmine | hmine
    · rw [hmine]
      exact h.faithful k
    · rw [hmine]
      trivial

/-- What the deeds of the sessions say stays true. -/
theorem preserved_kept :
    PreservedUnder (system deployment) .free P (discipline deployment).Advances
      (Kept deployment) where
  perform i call op choice answer s s' log hadvances h _ _ hperform := by
    obtain ⟨hinv, -, hevolves⟩ := hadvances
    have heffect := perform_effect hperform
    refine ⟨?_, ?_, ?_⟩
    · intro k
      change Reflects k s' (mine k (.performed i ⟨s, op, answer⟩ :: log))
      by_cases hki : k = i
      · subst hki
        rw [mine_performed_self]
        exact (h.reflects k).performed heffect
      · rw [mine_performed_ne (Ne.symm hki)]
        exact (h.reflects k).other hinv hki heffect
    · intro k deed hmem
      rcases List.mem_cons.mp hmem with heq | hmem
      · obtain ⟨-, rfl⟩ := Moment.performed.inj heq
        exact hevolves
      · exact (h.evolved k deed hmem).trans hevolves
    · intro k
      change Faithful deployment k (mine k (.performed i ⟨s, op, answer⟩ :: log))
      by_cases hki : k = i
      · subst hki
        rw [mine_performed_self]
        exact ⟨⟨s', heffect⟩, hinv, h.reflects k,
          fun d hd => h.evolved k d (mem_log_of_mem_mine hd), h.faithful k⟩
      · rw [mine_performed_ne (Ne.symm hki)]
        exact h.faithful k
  stop i s log hadvances h := by
    have hdirty : ∀ k, (s.rollback k).db.dirty = s.db.dropDirty k := fun _ => rfl
    refine h.quiet hadvances.2.2 (by simp) (fun k hmine => ?_) fun k hmine t id => ?_
    · by_cases hki : k = i
      · subst hki
        rw [mine_stopped_self] at hmine
        rw [← hmine]
        exact reflects_nil (fun t id => own_dropDirty (hdirty k)) rfl
      · have heffect : Effect deployment.sign i s .close () (s.rollback i) := .close
        exact (h.reflects k).other hadvances.1 hki heffect
    · by_cases hki : k = i
      · subst hki
        exact own_dropDirty (hdirty k)
      · rw [mine_stopped_ne (Ne.symm hki)] at hmine
        have hreflects := h.reflects k
        rw [show (Recorded.mk s log : Record).log = log from rfl, hmine] at hreflects
        have hnone : s.own k t id = none := hreflects.own t id
        refine Option.eq_none_iff_forall_ne_some.mpr fun r hr => ?_
        rw [own_of_dropDirty (s := s) rfl hr] at hnone
        contradiction
  reset s s' log hadvances h hreset := by
    obtain rfl := Option.some.inj hreset
    have hnone : ∀ k t id, s.crash.own k t id = none := fun _ _ _ => rfl
    refine h.quiet hadvances.2.2 (by simp) (fun k hmine => ?_) fun k _ => hnone k
    rw [mine_restarted] at hmine
    rw [← hmine]
    exact reflects_nil (hnone k) rfl
  env event s s' log hadvances h _ henv := by
    refine h.quiet hadvances.2.2 (by simp) (fun k _ => ?_) fun k hmine t id => ?_
    · cases event with
      | advance clock =>
        simp only [system, env] at henv
        split at henv
        · obtain rfl := Option.some.inj henv
          exact (h.reflects k).silent rfl rfl
        · contradiction
      | maintain key version =>
        simp only [system, env] at henv
        split at henv
        · next hmaintainable =>
          obtain rfl := Option.some.inj henv
          exact (h.reflects k).maintain hmaintainable
        · contradiction
      | transact rows => exact (h.reflects k).transact henv
    · have hnone : s.own k t id = none := by
        have hreflects := h.reflects k
        rw [mine_happened] at hmine
        rw [show (Recorded.mk s log : Record).log = log from rfl, hmine] at hreflects
        exact hreflects.own t id
      cases event with
      | advance clock =>
        simp only [system, env] at henv
        split at henv
        · obtain rfl := Option.some.inj henv
          exact hnone
        · contradiction
      | maintain key version =>
        simp only [system, env] at henv
        split at henv
        · obtain rfl := Option.some.inj henv
          exact hnone
        · contradiction
      | transact rows =>
        refine transact_induction (R := fun s s' => s.own k t id = none → s'.own k t id = none)
          (fun _ h => h) (fun h h' hs => h' (h hs)) (fun _ _ _ _ h => h) henv hnone

end Keeping

end ElevateGate.Backend
