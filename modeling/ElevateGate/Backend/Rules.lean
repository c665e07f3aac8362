import ElevateGate.Backend.Steps

/-!
# Rules for the endpoints

One rule for each operation and each repository function: what may be assumed of the state in
which the rest of the program continues. An endpoint keeps the discipline if every operation it
performs does; a raised exception ends the obligation, because closing the session rolls back.
-/

namespace ElevateGate.Backend

open Interaction Time Text Handler

variable {deployment : Deployment} {s : State} {i : Sid} {α β : Type} {Q : β → State → Prop}

/-- Every operation that remains keeps what the other sessions rely on, and a returned value
satisfies the postcondition. -/
def Keeps (deployment : Deployment) (i : Sid) (Q : β → State → Prop) (program : Handler β)
    (s : State) : Prop :=
  (discipline deployment).Safe (system deployment) i
    (fun result s => match result with
      | .ok value => Q value s
      | .error _ => True) program s

/-- Returning a value needs a postcondition that others do not invalidate. -/
theorem keeps_pure {value : β}
    (h : ∀ s', Inv deployment s' → Rely i s s' → Q value s') :
    Keeps deployment i Q (pure value) s := fun s' hrely hinv => h s' hinv hrely

/-- A program that raises has nothing left to keep. -/
theorem keeps_raise (error : PyError) : Keeps deployment i Q (raise error : Handler β) s :=
  fun _ _ _ => trivial

/-- Nor has one that answers with an HTTP error. -/
theorem keeps_httpError (statusCode : Nat) (detail : String) :
    Keeps deployment i Q (httpError statusCode detail : Handler β) s :=
  fun _ _ _ => trivial

/-- An exception skips what follows. -/
theorem keeps_httpError_bind (statusCode : Nat) (detail : String) (f : α → Handler β) :
    Keeps deployment i Q (httpError statusCode detail >>= f) s :=
  fun _ _ _ => trivial

/-- One operation: it keeps the guarantee, and so does the rest after any answer. -/
theorem keeps_op {o : Op} {f : Res o → Handler β}
    (h : ∀ s', Inv deployment s' → Rely i s s' → ∀ choice answer s'',
      perform deployment.sign i o choice s' = some (answer, s'') →
        Guar deployment i s' s'' ∧ Keeps deployment i Q (f answer) s'') :
    Keeps deployment i Q (op o >>= f) s :=
  fun s' hrely hinv choice answer s'' hperform => h s' hinv hrely choice answer s'' hperform

/-- An operation that touches no row. -/
private theorem keeps_silent {o : Op} {f : Res o → Handler β}
    (hsilent : ∀ s choice answer s', perform deployment.sign i o choice s = some (answer, s') →
      s'.db = s.db ∧ s'.nextId = s.nextId ∧ s'.signed = s.signed)
    (h : ∀ s' choice answer s'', Inv deployment s'' → Rely i s s'' →
      perform deployment.sign i o choice s' = some (answer, s'') →
        Keeps deployment i Q (f answer) s'') :
    Keeps deployment i Q (op o >>= f) s := by
  refine keeps_op fun s' hinv hrely choice answer s'' hperform => ?_
  obtain ⟨hdb, hnextId, hsigned⟩ := hsilent s' choice answer s'' hperform
  have hguar := guar_of_db (i := i) hinv hdb hnextId hsigned
  exact ⟨hguar, h s' choice answer s'' hguar.inv
    (hrely.trans (.of_db hdb fun _ => by rw [hsigned]; exact fun h => h)) hperform⟩

/-- A statement that reads sees the session's view of every row there is, in some order. -/
theorem perform_query {sign : List UInt8 → List UInt8} {s' : State} {choice : Choice}
    {snapshot : Snapshot} (h : perform sign i .query choice s = some (snapshot, s')) :
    snapshot.row = s.db.view i ∧ (∀ t, (snapshot.ids t).Perm (List.range (s.nextId t))) ∧
      s' = s.begin_ i := by
  cases choice with
  | order ids =>
    simp only [perform] at h
    split at h
    · next hperm =>
      obtain ⟨rfl, rfl⟩ := Prod.mk.inj (Option.some.inj h)
      exact ⟨rfl, fun t => of_decide_eq_true (List.all_eq_true.mp hperm t
        (by cases t <;> simp [Table.all])), rfl⟩
    · contradiction
  | _ => contradiction

/-- An insert that need not wait either violates a unique index or writes a row under a fresh key. -/
theorem perform_insert {sign : List UInt8 → List UInt8} {s' : State} {choice : Choice} {t : Table}
    {make : (id : Nat) → Datetime → Row ⟨t, id⟩} {result : Except PyError t.Record}
    (h : perform sign i (.insert t make) choice s = some (result, s')) :
    ¬ s.blocked i t (make (s.nextId t) (s.txNow i)).record = true ∧
      (s.violates i t (make (s.nextId t) (s.txNow i)).record = true ∧ result = .error .integrityError ∧
          s' = { s.begin_ i with nextId := Function.update s.nextId t (s.nextId t + 1) } ∨
        ¬ s.violates i t (make (s.nextId t) (s.txNow i)).record = true ∧
          result = .ok (make (s.nextId t) (s.txNow i)).record ∧
          s' = s.written i t (s.nextId t) (make (s.nextId t) (s.txNow i))
            (Function.update s.nextId t (s.nextId t + 1))) := by
  simp only [perform] at h
  split at h
  · contradiction
  · next hblocked =>
    refine ⟨hblocked, ?_⟩
    split at h
    · next hviolates =>
      obtain ⟨rfl, rfl⟩ := Prod.mk.inj (Option.some.inj h)
      exact .inl ⟨hviolates, rfl, rfl⟩
    · next hviolates =>
      obtain ⟨rfl, rfl⟩ := Prod.mk.inj (Option.some.inj h)
      exact .inr ⟨hviolates, rfl, rfl⟩

/-- A row violates a unique index together with a visible row. -/
theorem exists_of_violates {t : Table} {record : t.Record} (h : s.violates i t record = true) :
    ∃ id row, s.db.view i ⟨t, id⟩ = some row ∧ t.clash record row.record = true := by
  obtain ⟨id, -, hany⟩ := List.any_eq_true.mp h
  obtain ⟨row, hrow, hclash⟩ := (Option.any_eq_true _ _).mp hany
  exact ⟨id, row, hrow, hclash⟩

/-- A statement sees the session's view of the database. -/
theorem keeps_query {f : Snapshot → Handler β}
    (h : ∀ snapshot s', Inv deployment s' → Rely i s s' → snapshot.row = s'.db.view i →
      Keeps deployment i Q (f snapshot) s') :
    Keeps deployment i Q (query >>= f) s := by
  refine keeps_silent (fun s choice answer s' hperform => ?_) fun s' choice snapshot s'' hinv hrely
    hperform => h snapshot s'' hinv hrely ?_
  · obtain ⟨-, -, rfl⟩ := perform_query hperform
    exact ⟨rfl, rfl, rfl⟩
  · obtain ⟨hrow, -, rfl⟩ := perform_query hperform
    exact hrow

/-- A snapshot holds the rows that stand under its identifiers. -/
theorem Snapshot.mem_rows {snapshot : Snapshot} {t : Table} {r : t.Record} :
    r ∈ snapshot.rows t ↔
      t.id r ∈ snapshot.ids t ∧ (snapshot.row ⟨t, t.id r⟩).map Row.record = some r := by
  rw [Snapshot.rows, List.mem_filterMap]
  constructor
  · rintro ⟨id, hid, hr⟩
    obtain ⟨row, hrow, rfl⟩ := Option.map_eq_some_iff.mp hr
    have hkey : t.id row.record = id := row.id_eq
    rw [hkey]
    exact ⟨hid, hr⟩
  · exact fun ⟨hid, hr⟩ => ⟨t.id r, hid, hr⟩

/-- It holds each of them once. -/
theorem Snapshot.nodup_rows {snapshot : Snapshot} {t : Table} (hids : (snapshot.ids t).Nodup) :
    (snapshot.rows t).Nodup := by
  refine hids.filterMap fun id id' r hr hr' => ?_
  obtain ⟨row, -, rfl⟩ := Option.map_eq_some_iff.mp hr
  obtain ⟨row', -, heq⟩ := Option.map_eq_some_iff.mp hr'
  have hid : t.id row.record = id := row.id_eq
  have hid' : t.id row'.record = id' := row'.id_eq
  rw [← hid, ← hid', heq]

/-- The rows of a snapshot are visible rows. -/
theorem visible_of_mem_rows {snapshot : Snapshot} (hrow : snapshot.row = s.db.view i) {t : Table}
    {r : t.Record} (h : r ∈ snapshot.rows t) :
    s.own i t (t.id r) = some r ∨ (s.own i t (t.id r) = none ∧ s.com t (t.id r) = some r) := by
  obtain ⟨row, hview, heq⟩ := Option.map_eq_some_iff.mp (Snapshot.mem_rows.mp h).2
  rw [hrow] at hview
  have hvisible := view_eq_some hview
  rwa [heq] at hvisible

/-- A `SELECT` returns visible rows that satisfy its condition. -/
theorem keeps_select {t : Table} {condition : t.Record → Bool} {f : List t.Record → Handler β}
    (h : ∀ rows s', Inv deployment s' → Rely i s s' → (∀ r ∈ rows, condition r = true ∧
      (s'.own i t (t.id r) = some r ∨ (s'.own i t (t.id r) = none ∧ s'.com t (t.id r) = some r))) →
        Keeps deployment i Q (f rows) s') :
    Keeps deployment i Q (select t condition >>= f) s := by
  refine keeps_query fun snapshot s' hinv hrely hrow => h _ s' hinv hrely fun r hr => ?_
  obtain ⟨hmem, hcondition⟩ := List.mem_filter.mp hr
  exact ⟨hcondition, visible_of_mem_rows hrow hmem⟩

/-- At most one row is expected. -/
theorem keeps_scalarOneOrNone {rows : List α} {f : Option α → Handler β}
    (hnone : Keeps deployment i Q (f none) s)
    (hsome : ∀ r ∈ rows, Keeps deployment i Q (f (some r)) s) :
    Keeps deployment i Q (scalarOneOrNone rows >>= f) s := by
  cases rows with
  | nil => exact hnone
  | cons r rest =>
    cases rest with
    | nil => exact hsome r List.mem_cons_self
    | cons _ _ => exact keeps_raise _

/-- The clock may show anything. -/
theorem keeps_now {f : Datetime → Handler β}
    (h : ∀ time s', Inv deployment s' → Rely i s s' → Keeps deployment i Q (f time) s') :
    Keeps deployment i Q (now >>= f) s := by
  have hnow : ∀ s choice (time : Datetime) s',
      perform deployment.sign i .now choice s = some (time, s') → s' = s := by
    intro s choice time s' hperform
    cases choice <;> exact (Prod.mk.inj (Option.some.inj hperform)).2.symm
  refine keeps_silent (fun s choice answer s' hperform => ?_) fun s' choice time s'' hinv hrely _ =>
    h time s'' hinv hrely
  obtain rfl := hnow s choice answer s' hperform
  exact ⟨rfl, rfl, rfl⟩

/-- A deadline either fits the calendar or the program raises. -/
theorem keeps_addSeconds {dt : Datetime} {seconds : Int} {f : Datetime → Handler β}
    (h : ∀ later, Keeps deployment i Q (f later) s) :
    Keeps deployment i Q (addSeconds dt seconds >>= f) s := by
  unfold addSeconds
  split
  · exact h _
  · exact keeps_raise _

/-- Random bytes may be anything. -/
theorem keeps_tokenUrlsafe {nbytes : Nat} {f : String → Handler β}
    (h : ∀ token s', Inv deployment s' → Rely i s s' → Keeps deployment i Q (f token) s') :
    Keeps deployment i Q (tokenUrlsafe nbytes >>= f) s := by
  refine keeps_silent (fun s choice answer s' hperform => ?_)
    fun s' choice token s'' hinv hrely _ => h token s'' hinv hrely
  cases choice with
  | bytes random =>
    simp only [perform] at hperform
    split at hperform
    · obtain ⟨-, rfl⟩ := Prod.mk.inj (Option.some.inj hperform)
      exact ⟨rfl, rfl, rfl⟩
    · contradiction
  | unit => contradiction
  | order ids => contradiction
  | uuid random => contradiction

/-- So may a random UUID. -/
theorem keeps_uuid4 {f : Uuid → Handler β}
    (h : ∀ uuid s', Inv deployment s' → Rely i s s' → Keeps deployment i Q (f uuid) s') :
    Keeps deployment i Q (uuid4 >>= f) s := by
  refine keeps_silent (fun s choice answer s' hperform => ?_)
    fun s' choice uuid s'' hinv hrely _ => h uuid s'' hinv hrely
  cases choice with
  | uuid random =>
    obtain ⟨-, rfl⟩ := Prod.mk.inj (Option.some.inj hperform)
    exact ⟨rfl, rfl, rfl⟩
  | unit => contradiction
  | order ids => contradiction
  | bytes random => contradiction

/-- Only payloads that an issuance is about are signed. -/
theorem keeps_signPayload {issuance : Issuance} {payload : List UInt8}
    {f : List UInt8 → Handler β}
    (hpayload : Signing.buildCanonicalPayload deployment.casing issuance.device.deviceUuid.textD
      issuance.elevationRequest.requestUuid.textD issuance.elevationRequest.sha256.text
      issuance.expiresAt issuance.nonce = .ok payload)
    (h : ∀ s', Inv deployment s' → Rely i s s' →
      Keeps deployment i Q (f (deployment.sign payload)) s') :
    Keeps deployment i Q (signPayload issuance payload >>= f) s := by
  refine keeps_op fun s' hinv hrely choice answer s'' hperform => ?_
  have hanswer : answer = deployment.sign payload ∧
      s'' = { s' with signed := (issuance, payload) :: s'.signed } := by
    cases choice <;>
    · obtain ⟨rfl, rfl⟩ := Prod.mk.inj (Option.some.inj hperform)
      exact ⟨rfl, rfl⟩
  obtain ⟨rfl, rfl⟩ := hanswer
  have hmore : ∀ entry ∈ s'.signed, entry ∈ (issuance, payload) :: s'.signed :=
    fun _ h => List.mem_cons_of_mem _ h
  have hinv' : Inv deployment { s' with signed := (issuance, payload) :: s'.signed } := by
    refine hinv.of_db rfl (fun _ => Nat.le_refl _) hmore fun issuance' payload' hmem => ?_
    rcases List.mem_cons.mp hmem with heq | hmem
    · obtain ⟨rfl, rfl⟩ := Prod.mk.inj heq
      exact Or.inr hpayload
    · exact Or.inl hmem
  exact ⟨⟨hinv', .of_committed rfl hmore, fun _ _ => .of_db rfl hmore⟩,
    h _ hinv' (hrely.trans (.of_db rfl hmore))⟩

/-- A conditional update either finds no row that satisfies its condition or writes one. -/
theorem keeps_updateWhere {t : Table} {id : Nat} {condition : t.Record → Bool}
    {values : t.Record → t.Record} {hid : ∀ r, t.id (values r) = t.id r}
    {f : Option t.Record → Handler β}
    (hindex : t = .elevationRequests ∨ t = .approvals → ∀ r, SameIndex t r (values r))
    (hmiss : ∀ s', Inv deployment s' → Rely i s s' → Keeps deployment i Q (f none) s')
    (hhit : ∀ s' (row : Row ⟨t, id⟩), Inv deployment s' → Rely i s s' →
      s'.db.view i ⟨t, id⟩ = some row → condition row.record = true →
        Inv deployment (s'.written i t id (row.modify values hid) s'.nextId) →
        Keeps deployment i Q (f (some (values row.record)))
          (s'.written i t id (row.modify values hid) s'.nextId)) :
    Keeps deployment i Q (updateWhere t id condition values hid >>= f) s := by
  refine keeps_op fun s' hinv hrely choice answer s'' hperform => ?_
  have hmiss' : s'' = s'.begin_ i → answer = none → Guar deployment i s' s'' ∧
      Keeps deployment i Q (f (answer.map Row.record)) s'' := by
    rintro rfl rfl
    have hguar : Guar deployment i s' (s'.begin_ i) := guar_of_db hinv rfl rfl rfl
    exact ⟨hguar, hmiss _ hguar.inv (hrely.trans (.of_db rfl fun _ h => h))⟩
  simp only [perform] at hperform
  split at hperform
  · obtain ⟨hanswer, hs⟩ := Prod.mk.inj (Option.some.inj hperform)
    exact hmiss' hs.symm hanswer.symm
  · next row hview =>
    split at hperform
    · obtain ⟨hanswer, hs⟩ := Prod.mk.inj (Option.some.inj hperform)
      exact hmiss' hs.symm hanswer.symm
    · next row' hassign =>
      split at hassign
      · next hcondition =>
        obtain rfl := Option.some.inj hassign
        split at hperform
        · next hfree =>
          obtain ⟨rfl, rfl⟩ := Prod.mk.inj (Option.some.inj hperform)
          have hkey : id < s'.nextId t := by
            by_contra hle
            obtain ⟨hcom, hdirty⟩ := hinv.fresh ⟨t, id⟩ (Nat.le_of_not_lt hle)
            rw [Database.view_of_not_dirty (by rw [hdirty]; simp), hcom] at hview
            contradiction
          have hguar : Guar deployment i s'
              (s'.written i t id (row.modify values hid) s'.nextId) := by
            refine guar_written hinv hfree (fun _ => Nat.le_refl _) hkey ?_ ?_
            · intro ht id' r' hne hr'
              have hold := hindex ht row.record r'
              have hversion := version_of_view hview
              exact ⟨hold.2 ▸ hinv.distinct t ht id id' _ _ hne.symm hversion hr',
                hold.1 ▸ hinv.distinct t ht id' id _ _ hne hr' hversion⟩
            · intro ht r hr x
              have hold := hindex ht row.record x
              rcases view_eq_some hview with hown | ⟨-, hcom⟩
              · have hsame := hinv.indexed t ht id i r row.record hr hown x
                exact ⟨hsame.1.trans hold.1, hsame.2.trans hold.2⟩
              · rw [hr] at hcom
                obtain rfl := Option.some.inj hcom
                exact hold
          exact ⟨hguar, hhit s' row hinv hrely hview hcondition hguar.inv⟩
        · contradiction
      · contradiction

/-- A row that may be inserted clashes with no version of another row, where versions of one row agree
on the unique indexes. -/
theorem not_clash_of_unblocked {t : Table} {record r' : t.Record} {id' : Nat}
    (hkept : ∀ k j, s.db.dirty k ≠ some (j, none))
    (hfresh : ∀ k, s.nextId k.table ≤ k.id → s.db.committed k = none ∧ s.db.dirty k = none)
    (hindexed : ∀ id j r r', s.com t id = some r → s.own j t id = some r' → SameIndex t r r')
    (hblocked : ¬s.blocked i t record = true) (hviolates : ¬s.violates i t record = true)
    (h : s.Version t id' r') : t.clash record r' = false ∧ t.clash r' record = false := by
  have hid : id' ∈ List.range (s.nextId t) := by
    rw [List.mem_range]
    by_contra hle
    obtain ⟨hcom, hdirty⟩ := hfresh ⟨t, id'⟩ (Nat.le_of_not_lt hle)
    rcases h with hc | ⟨j, hown⟩
    · rw [State.com, hcom] at hc
      contradiction
    · obtain ⟨row, hrow, -⟩ := State.own_eq_some.mp hown
      rw [hdirty] at hrow
      contradiction
  have hview : ∀ row, s.db.view i ⟨t, id'⟩ = some row → t.clash record row.record = false := by
    intro row hrow
    rw [Bool.eq_false_iff]
    intro hclash
    exact hviolates (List.any_eq_true.mpr ⟨id', hid, by rw [hrow]; exact hclash⟩)
  have hfalse : t.clash record r' = false := by
    cases hdirty : s.db.dirty ⟨t, id'⟩ with
    | none =>
      rcases h with hc | ⟨j, hown⟩
      · obtain ⟨row, hrow, rfl⟩ := Option.map_eq_some_iff.mp hc
        refine hview row ?_
        rw [Database.view_of_not_dirty (by rw [hdirty]; simp), hrow]
      · obtain ⟨row, hrow, -⟩ := State.own_eq_some.mp hown
        rw [hdirty] at hrow
        contradiction
    | some entry =>
      obtain ⟨j, version⟩ := entry
      by_cases hj : j = i
      · subst hj
        cases version with
        | none => exact absurd hdirty (hkept _ _)
        | some row =>
          have hrow := hview row (Database.view_of_dirty hdirty)
          have hown : s.own j t id' = some row.record := State.own_eq_some.mpr ⟨row, hdirty, rfl⟩
          rcases h with hc | ⟨j', hown'⟩
          · rw [(hindexed id' j r' row.record hc hown record).1]
            exact hrow
          · obtain ⟨row', hrow', rfl⟩ := State.own_eq_some.mp hown'
            rw [hdirty] at hrow'
            obtain ⟨-, hsame⟩ := Prod.mk.inj (Option.some.inj hrow')
            rwa [← Option.some.inj hsame]
      · have hnone : ¬((version.any (fun row => t.clash record row.record) ||
            (s.db.committed ⟨t, id'⟩).any fun row => t.clash record row.record) = true) := by
          intro hany
          refine hblocked (List.any_eq_true.mpr ⟨id', hid, ?_⟩)
          simp only [hdirty, Bool.and_eq_true, bne_iff_ne, ne_eq, hj, not_false_eq_true, true_and]
          exact hany
        rw [Bool.or_eq_true, not_or] at hnone
        rw [Bool.eq_false_iff]
        intro hclash
        rcases h with hc | ⟨j', hown'⟩
        · obtain ⟨row, hrow, rfl⟩ := Option.map_eq_some_iff.mp hc
          exact hnone.2 (by rw [hrow]; exact hclash)
        · obtain ⟨row, hrow, rfl⟩ := State.own_eq_some.mp hown'
          rw [hdirty] at hrow
          obtain ⟨-, rfl⟩ := Prod.mk.inj (Option.some.inj hrow)
          exact hnone.1 hclash
  exact ⟨hfalse, by rw [Table.clash_comm]; exact hfalse⟩

/-- An insert either violates an index or writes a row under a fresh key. -/
theorem keeps_insert {t : Table} {make : (id : Nat) → Datetime → Row ⟨t, id⟩}
    {f : t.Record → Handler β}
    (h : ∀ s' row nextId time, row = make (s'.nextId t) time → Inv deployment s' → Rely i s s' →
      s'.com t (s'.nextId t) = none → (∀ j, s'.own j t (s'.nextId t) = none) →
        Inv deployment (s'.written i t (s'.nextId t) row nextId) →
        Keeps deployment i Q (f row.record) (s'.written i t (s'.nextId t) row nextId)) :
    Keeps deployment i Q (insert t make >>= f) s := by
  refine keeps_op fun s' hinv hrely choice answer s'' hperform => ?_
  have hbump : ∀ t', s'.nextId t' ≤ Function.update s'.nextId t (s'.nextId t + 1) t' := by
    intro t'
    by_cases ht : t' = t
    · subst ht
      simp
    · simp [Function.update_of_ne ht]
  obtain ⟨hblocked, ⟨-, rfl, rfl⟩ | ⟨hviolates, rfl, rfl⟩⟩ := perform_insert hperform
  · have hinv' : Inv deployment { s'.begin_ i with
        nextId := Function.update s'.nextId t (s'.nextId t + 1) } :=
      hinv.of_db rfl hbump (fun _ h => h) fun _ _ h => Or.inl h
    exact ⟨⟨hinv', .of_committed rfl fun _ h => h, fun _ _ => .of_db rfl fun _ h => h⟩,
      keeps_raise _⟩
  · obtain ⟨hcom, hdirty⟩ := hinv.fresh ⟨t, s'.nextId t⟩ (Nat.le_refl _)
    have hnocom : s'.com t (s'.nextId t) = none := by rw [State.com, hcom]; rfl
    have hnoown : ∀ j, s'.own j t (s'.nextId t) = none := fun j => by
      simp only [State.own, hdirty]
    have hguar : Guar deployment i s' (s'.written i t (s'.nextId t)
        (make (s'.nextId t) (s'.txNow i))
        (Function.update s'.nextId t (s'.nextId t + 1))) := by
      refine guar_written hinv (by simp [Database.free, hdirty]) hbump (by simp) ?_ ?_
      · intro ht id' r' _ hr'
        exact not_clash_of_unblocked hinv.kept hinv.fresh (hinv.indexed t ht) hblocked hviolates hr'
      · intro _ r hr
        rw [hnocom] at hr
        contradiction
    exact ⟨hguar, h s' _ _ _ rfl hinv hrely hnocom hnoown hguar.inv⟩

/-- A session whose rows are in order may commit, and then has written nothing. -/
theorem keeps_commit {f : Unit → Handler β} (hlocal : Local deployment s i none)
    (h : ∀ s', Inv deployment s' → Evolves s s' → (∀ t id, s'.own i t id = none) →
      Keeps deployment i Q (f ()) s') :
    Keeps deployment i Q (commit >>= f) s := by
  refine keeps_op fun s' hinv hrely choice answer s'' hperform => ?_
  obtain rfl : s'' = s'.commit i := by
    cases choice <;> exact (Prod.mk.inj (Option.some.inj hperform)).2.symm
  have hguar := guar_commit hinv (hlocal.stable hrely)
  exact ⟨hguar, h _ hguar.inv (hrely.evolves.trans hguar.evolves) fun t id =>
    own_dropDirty (show (s'.commit i).db.dirty = s'.db.dropDirty i from rfl)⟩

end ElevateGate.Backend
