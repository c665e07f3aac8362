import ElevateGate.Backend.Transactions
import ElevateGate.Interaction.Sequential

/-!
# Calls without interleaving

What the operations of a session do while no other session has a transaction open: the session sees
its own rows over the committed ones that it started from, and nothing makes it wait.
-/

namespace ElevateGate.Backend

open Interaction Time Text Handler Relation

/-- A session that has written some rows, the latest first, since it started from a state in which
no transaction was open. -/
structure Alone (i : Sid) (start : State) (list : List Change) (s : State) : Prop where
  committed : s.db.committed = start.db.committed
  own : ∀ t id, s.own i t id = latest t id list
  alone : ∀ k j version, s.db.dirty k = some (j, version) → j = i ∧ version ≠ none
  fresh : ∀ k, s.nextId k.table ≤ k.id → s.db.committed k = none ∧ s.db.dirty k = none
  clock : start.clock ≤ s.clock

/-- The row that such a session sees. -/
def seen (start : State) (list : List Change) (t : Table) (id : Nat) : Option t.Record :=
  (latest t id list).or (start.com t id)

/-- No transaction is open. -/
structure State.Idle (s : State) : Prop where
  clean : ∀ k, s.db.dirty k = none
  fresh : ∀ k, s.nextId k.table ≤ k.id → s.db.committed k = none

/-- Time passes. -/
def Ticks (s s' : State) : Prop := ∃ clock, s.clock ≤ clock ∧ s' = { s with clock := clock }

/-- The program of a session that runs alone ends as it should. -/
abbrev Does {α : Type} (deployment : Deployment) (i : Sid) (Q : Except PyError α → State → Prop)
    (program : Handler α) (s : State) : Prop :=
  program.Ensures (perform deployment.sign i) Ticks Q s

/-- Passing time changes nothing but the clock. -/
theorem eq_of_ticks {s s' : State} (h : ReflTransGen Ticks s s') :
    s.clock ≤ s'.clock ∧ s' = { s with clock := s'.clock } := by
  induction h with
  | refl => exact ⟨Nat.le_refl _, rfl⟩
  | tail _ htick ih =>
    obtain ⟨clock, hle, rfl⟩ := htick
    obtain ⟨hle', heq⟩ := ih
    exact ⟨Nat.le_trans hle' hle, by rw [heq]⟩

section Visible

variable {i : Sid} {start s : State} {list : List Change} {t : Table} {id : Nat}

/-- A committed row has the key that it is stored under. -/
theorem id_of_com {r : t.Record} (hr : s.com t id = some r) : t.id r = id := by
  obtain ⟨row, -, rfl⟩ := Option.map_eq_some_iff.mp hr
  exact row.id_eq

/-- A session that starts where no transaction is open has written nothing. -/
theorem State.Idle.alone (h : s.Idle) (i : Sid) : Alone i s [] (s.rollback i) where
  committed := rfl
  own t id := by simp [State.own, State.rollback, Database.dropDirty, h.clean]
  alone k j version hdirty := by
    obtain ⟨hdirty', -⟩ := Database.dropDirty_eq_some.mp hdirty
    rw [h.clean] at hdirty'
    contradiction
  fresh k hk := ⟨h.fresh k hk, by simp [State.rollback, Database.dropDirty, h.clean]⟩
  clock := Nat.le_refl s.clock.micros

/-- So has a session after its commit. -/
theorem State.Idle.resting (h : s.Idle) (i : Sid) : Alone i s [] s where
  committed := rfl
  own t id := by simp [State.own, h.clean]
  alone k j version hdirty := by
    rw [h.clean] at hdirty
    contradiction
  fresh k hk := ⟨h.fresh k hk, h.clean k⟩
  clock := Nat.le_refl s.clock.micros

theorem Alone.com (h : Alone i start list s) : s.com t id = start.com t id :=
  com_congr h.committed t id

/-- What a session sees. -/
theorem Alone.view (h : Alone i start list s) :
    (s.db.view i ⟨t, id⟩).map Row.record = seen start list t id := by
  rw [seen, ← h.own]
  rcases s.db.view_cases i ⟨t, id⟩ with hown | ⟨hnone, hcommitted⟩
  · obtain ⟨row, hrow⟩ := Option.ne_none_iff_exists'.mp (h.alone _ _ _ hown).2
    rw [hrow] at hown ⊢
    rw [State.own_eq_some.mpr ⟨row, hown, rfl⟩]
    rfl
  · have hown : s.own i t id = none := Option.eq_none_iff_forall_ne_some.mpr fun r hr => by
      obtain ⟨row, hdirty, -⟩ := State.own_eq_some.mp hr
      exact hnone _ hdirty
    rw [hown, hcommitted, ← h.com]
    rfl

/-- Nothing is seen beyond the identifiers that were given out. -/
theorem Alone.unseen (h : Alone i start list s) (hid : s.nextId t ≤ id) :
    seen start list t id = none := by
  obtain ⟨hcommitted, hdirty⟩ := h.fresh ⟨t, id⟩ hid
  rw [← h.view, Database.view_of_not_dirty (by simp [hdirty]), hcommitted]
  rfl

/-- A row that is seen has the key that it is seen under. -/
theorem Alone.id_of_seen (h : Alone i start list s) {r : t.Record}
    (hr : seen start list t id = some r) : t.id r = id := by
  rw [← h.view] at hr
  obtain ⟨row, -, rfl⟩ := Option.map_eq_some_iff.mp hr
  exact row.id_eq

/-- A snapshot holds the rows that are seen. -/
theorem Alone.mem_rows (h : Alone i start list s) {ids : Table → List Nat}
    (hids : (ids t).Perm (List.range (s.nextId t))) {r : t.Record} :
    r ∈ (⟨s.db.view i, ids⟩ : Snapshot).rows t ↔ seen start list t (t.id r) = some r := by
  rw [Snapshot.mem_rows]
  change t.id r ∈ ids t ∧ (s.db.view i ⟨t, t.id r⟩).map Row.record = some r ↔ _
  rw [h.view]
  refine ⟨fun hr => hr.2, fun hr => ⟨hids.mem_iff.mpr (List.mem_range.mpr ?_), hr⟩⟩
  by_contra hle
  rw [h.unseen (Nat.le_of_not_lt hle)] at hr
  contradiction

end Visible

section Lists

variable {α : Type}

/-- Where at most one element satisfies a condition, at most one is selected. -/
theorem filter_eq_of_unique {rows : List α} {condition : α → Bool} (hnodup : rows.Nodup)
    (hunique : ∀ r ∈ rows, ∀ r' ∈ rows, condition r = true → condition r' = true → r = r') :
    rows.filter condition = [] ∨ ∃ r, rows.filter condition = [r] := by
  rcases hfilter : rows.filter condition with _ | ⟨r, _ | ⟨r', rest⟩⟩
  · exact Or.inl rfl
  · exact Or.inr ⟨r, rfl⟩
  · have hmem : ∀ x ∈ r :: r' :: rest, x ∈ rows ∧ condition x = true := fun x hx =>
      List.mem_filter.mp (hfilter ▸ hx)
    obtain ⟨hr, hcondition⟩ := hmem r (by simp)
    obtain ⟨hr', hcondition'⟩ := hmem r' (by simp)
    obtain rfl := hunique r hr r' hr' hcondition hcondition'
    have hsub := hnodup.filter condition
    rw [hfilter] at hsub
    simp at hsub

end Lists

section Rules

variable {deployment : Deployment} {i : Sid} {start s s' : State} {list : List Change} {α β : Type}
  {Q : Except PyError β → State → Prop}

/-- Steps that touch no row change nothing for the session. -/
private theorem Alone.of_db (h : Alone i start list s) (hdb : s'.db = s.db)
    (hclock : s.clock ≤ s'.clock) (hnextId : ∀ t, s.nextId t ≤ s'.nextId t) :
    Alone i start list s' where
  committed := by rw [hdb, h.committed]
  own t id := by
    rw [← h.own]
    simp only [State.own, hdb]
  alone k j version hdirty := by
    rw [hdb] at hdirty
    exact h.alone k j version hdirty
  fresh k hk := by
    rw [hdb]
    exact h.fresh k (Nat.le_trans (hnextId _) hk)
  clock := Nat.le_trans h.clock hclock

/-- A write becomes the latest row of its key. -/
private theorem Alone.written {t : Table} {id : Nat} {row : Row ⟨t, id⟩} {nextId : Table → Nat}
    (h : Alone i start list s) (hnextId : ∀ t, s.nextId t ≤ nextId t) (hid : id < nextId t) :
    Alone i start (⟨t, start.com t id, row.record⟩ :: list) (s.written i t id row nextId) := by
  have hkey : t.id row.record = id := row.id_eq
  refine ⟨h.committed, fun t' id' => ?_, fun k j version hdirty => ?_, fun k hk => ?_, h.clock⟩
  · by_cases ht : t = t'
    · subst ht
      rw [latest_cons_self, hkey]
      split
      · next hid' =>
        subst hid'
        exact own_written_self
      · next hid' => exact (own_written_ne (by simp [Ne.symm hid'])).trans (h.own t id')
    · rw [latest_cons_ne ht]
      exact (own_written_ne (by simp [Ne.symm ht])).trans (h.own t' id')
  · by_cases hk : k = ⟨t, id⟩
    · subst hk
      simp only [State.written, Database.write_dirty_self, Option.some.injEq, Prod.mk.injEq] at hdirty
      obtain ⟨rfl, rfl⟩ := hdirty
      exact ⟨rfl, by simp⟩
    · rw [State.written, Database.write_dirty_ne _ hk] at hdirty
      exact h.alone k j version hdirty
  · have hne : k ≠ ⟨t, id⟩ := by
      rintro rfl
      exact absurd hk (Nat.not_le_of_lt hid)
    obtain ⟨hcommitted, hdirty⟩ := h.fresh k (Nat.le_trans (hnextId _) hk)
    refine ⟨hcommitted, ?_⟩
    rw [State.written, Database.write_dirty_ne _ hne]
    exact hdirty

/-- A session that runs alone may write any row. -/
private theorem Alone.free (h : Alone i start list s) (k : Key) : s.db.free i k = true :=
  Database.free_iff.mpr fun j version hdirty => (h.alone k j version hdirty).1

/-- When it ends, no transaction is open. -/
private theorem Alone.dropped (h : Alone i start list s) (k : Key) : s.db.dropDirty i k = none := by
  refine Option.eq_none_iff_forall_ne_some.mpr fun ⟨j, version⟩ hdropped => ?_
  obtain ⟨hdirty, hj⟩ := Database.dropDirty_eq_some.mp hdropped
  exact hj (h.alone k j version hdirty).1

/-- Nor does it wait to insert one. -/
private theorem Alone.not_blocked (h : Alone i start list s) (t : Table) (record : t.Record) :
    s.blocked i t record = false := by
  rw [State.blocked, List.any_eq_false]
  intro id _
  split
  · next j version hdirty => simp [(h.alone _ _ _ hdirty).1]
  · simp

/-- Time does not matter to it. -/
theorem Alone.ticks (h : Alone i start list s) (hticks : ReflTransGen Ticks s s') :
    Alone i start list s' := by
  obtain ⟨hclock, heq⟩ := eq_of_ticks hticks
  rw [heq]
  exact h.of_db rfl hclock fun _ => Nat.le_refl _

/-- Perform an operation. -/
private theorem does_op {o : Op} {f : Res o → Handler β} (h : Alone i start list s)
    (hnext : ∀ s, Alone i start list s →
      (∃ choice, (perform deployment.sign i o choice s).isSome = true) ∧
        ∀ choice answer s', perform deployment.sign i o choice s = some (answer, s') →
          Does deployment i Q (f answer) s') : Does deployment i Q (op o >>= f) s :=
  .op_bind fun s' hticks => hnext s' (h.ticks hticks)

/-- The clock. -/
theorem does_now {f : Datetime → Handler β} (h : Alone i start list s)
    (hnext : ∀ time s', Alone i start list s' → start.clock ≤ time → time ≤ s'.clock →
      Does deployment i Q (f time) s') : Does deployment i Q (now >>= f) s := by
  refine does_op h fun s1 h1 => ⟨⟨.unit, rfl⟩, fun choice answer s' hperform => ?_⟩
  cases perform_effect hperform
  exact hnext _ _ h1 h1.clock (Nat.le_refl s1.clock.micros)

/-- Random text. -/
theorem does_tokenUrlsafe {nbytes : Nat} {f : String → Handler β} (h : Alone i start list s)
    (hnext : ∀ random s', random.length = nbytes → Alone i start list s' →
      Does deployment i Q (f (urlsafeText random)) s') :
    Does deployment i Q (tokenUrlsafe nbytes >>= f) s := by
  refine does_op h fun s1 h1 =>
    ⟨⟨.bytes (List.replicate nbytes 0), by simp [perform]⟩, fun choice answer s' hperform => ?_⟩
  cases choice with
  | bytes random =>
    simp only [perform] at hperform
    split at hperform
    · next hlength =>
      obtain ⟨rfl, rfl⟩ := Prod.mk.inj (Option.some.inj hperform)
      exact hnext random _ hlength h1
    · contradiction
  | _ => contradiction

/-- A signature. -/
theorem does_signPayload {issuance : Issuance} {payload : List UInt8} {f : List UInt8 → Handler β}
    (h : Alone i start list s)
    (hnext : ∀ signature s', Alone i start list s' → Does deployment i Q (f signature) s') :
    Does deployment i Q (signPayload issuance payload >>= f) s := by
  refine does_op h fun s1 h1 => ⟨⟨.unit, rfl⟩, fun choice answer s' hperform => ?_⟩
  cases perform_effect hperform
  exact hnext _ _ (h1.of_db rfl (Nat.le_refl s1.clock.micros) fun _ => Nat.le_refl _)

/-- A statement that reads returns the rows that are seen, each once. -/
theorem does_query {f : Snapshot → Handler β} (h : Alone i start list s)
    (hnext : ∀ snapshot s', Alone i start list s' →
      (∀ t r, r ∈ snapshot.rows t ↔ seen start list t (t.id r) = some r) →
      (∀ t, (snapshot.rows t).Nodup) → Does deployment i Q (f snapshot) s') :
    Does deployment i Q (query >>= f) s := by
  refine does_op h fun s1 h1 => ⟨⟨.order fun t => List.range (s1.nextId t), by simp [perform]⟩, ?_⟩
  intro choice (snapshot : Snapshot) s' hperform
  obtain ⟨hrow, hids, rfl⟩ := perform_query hperform
  obtain ⟨row, ids⟩ := snapshot
  obtain rfl : row = s1.db.view i := hrow
  exact hnext _ _ (h1.of_db rfl (Nat.le_refl s1.clock.micros) fun _ => Nat.le_refl _)
    (fun t r => h1.mem_rows (hids t))
    fun t => Snapshot.nodup_rows ((hids t).nodup_iff.mpr List.nodup_range)

/-- A `SELECT` that at most one row satisfies. -/
theorem does_select_unique {t : Table} {condition : t.Record → Bool}
    {f : Option t.Record → Handler β} (h : Alone i start list s)
    (hunique : ∀ id id' r r', seen start list t id = some r → seen start list t id' = some r' →
      condition r = true → condition r' = true → r = r')
    (hnone : ∀ s', Alone i start list s' →
      (∀ id r, seen start list t id = some r → condition r = false) → Does deployment i Q (f none) s')
    (hsome : ∀ r s', Alone i start list s' → seen start list t (t.id r) = some r →
      condition r = true → Does deployment i Q (f (some r)) s') :
    Does deployment i Q (select t condition >>= fun rows => scalarOneOrNone rows >>= f) s := by
  rw [select, bind_assoc]
  refine does_query h fun snapshot s' halone hrows hnodup => ?_
  have hcases : (snapshot.rows t).filter condition = [] ∨
      ∃ r, (snapshot.rows t).filter condition = [r] :=
    filter_eq_of_unique (hnodup t) fun r hr r' hr' =>
      hunique _ _ r r' ((hrows t r).mp hr) ((hrows t r').mp hr')
  rcases hcases with hfilter | ⟨r, hfilter⟩
  · simp only [pure_bind, hfilter]
    refine hnone s' halone fun id r hr => ?_
    have hmem : r ∈ snapshot.rows t := (hrows t r).mpr (by rwa [halone.id_of_seen hr])
    have hnot := List.filter_eq_nil_iff.mp hfilter r hmem
    simpa using hnot
  · simp only [pure_bind, hfilter]
    have hmem : r ∈ (snapshot.rows t).filter condition := by simp [hfilter]
    obtain ⟨hr, hcondition⟩ := List.mem_filter.mp hmem
    exact hsome r s' halone ((hrows t r).mp hr) hcondition

/-- An insert either violates a unique index or adds the row under a new key. -/
theorem does_insert {t : Table} {make : (id : Nat) → Datetime → Row ⟨t, id⟩}
    {f : t.Record → Handler β} (h : Alone i start list s)
    (herror : ∀ id time id' r s', Alone i start list s' → seen start list t id' = some r →
      t.clash (make id time).record r = true → Q (.error .integrityError) s')
    (hok : ∀ id time s', seen start list t id = none →
      Alone i start (⟨t, none, (make id time).record⟩ :: list) s' →
      Does deployment i Q (f (make id time).record) s') :
    Does deployment i Q (insert t make >>= f) s := by
  simp only [Handler.insert, bind_assoc]
  refine does_op h fun s h => ?_
  have hblocked := h.not_blocked t (make (s.nextId t) (s.txNow i)).record
  have hunseen : seen start list t (s.nextId t) = none := h.unseen (Nat.le_refl _)
  refine ⟨⟨.unit, ?_⟩, fun choice answer s' hperform => ?_⟩
  · simp only [perform, hblocked, Bool.false_eq_true, if_false]
    split <;> rfl
  · have hgrows : ∀ t', s.nextId t' ≤ Function.update s.nextId t (s.nextId t + 1) t' := by
      intro t'
      rcases eq_or_ne t' t with rfl | ht
      · simp
      · simp [Function.update_of_ne ht]
    obtain ⟨-, ⟨hviolates, rfl, rfl⟩ | ⟨-, rfl, rfl⟩⟩ := perform_insert hperform
    · obtain ⟨id, row, hrow, hclash⟩ := exists_of_violates hviolates
      refine .throw fun s' hticks =>
        herror (s.nextId t) (s.txNow i) id row.record s' (Alone.ticks ?_ hticks) ?_ hclash
      · exact h.of_db rfl (Nat.le_refl s.clock.micros) hgrows
      · rw [← h.view, hrow]
        rfl
    · have hcom : start.com t (s.nextId t) = none := (Option.or_eq_none_iff.mp hunseen).2
      refine hok (s.nextId t) (s.txNow i) _ hunseen ?_
      rw [← hcom]
      exact h.written hgrows (by simp)

/-- A conditional update finds the row that is seen. -/
theorem does_updateWhere {t : Table} {id : Nat} {condition : t.Record → Bool}
    {values : t.Record → t.Record} {hid : ∀ r, t.id (values r) = t.id r}
    {f : Option t.Record → Handler β} (h : Alone i start list s)
    (hmiss : ∀ s', (∀ r, seen start list t id = some r → condition r = false) →
      Alone i start list s' → Does deployment i Q (f none) s')
    (hhit : ∀ r s', seen start list t id = some r → condition r = true →
      Alone i start (⟨t, start.com t id, values r⟩ :: list) s' →
      Does deployment i Q (f (some (values r))) s') :
    Does deployment i Q (updateWhere t id condition values hid >>= f) s := by
  rw [updateWhere, bind_assoc]
  refine does_op h fun s h => ?_
  have hview : (s.db.view i ⟨t, id⟩).map Row.record = seen start list t id := h.view
  refine ⟨⟨.unit, ?_⟩, fun choice answer s' hperform => ?_⟩
  · simp only [perform, h.free]
    split
    · rfl
    · split <;> rfl
  · cases perform_effect hperform with
    | miss hnone =>
      refine hmiss _ (fun r hr => ?_) (h.of_db rfl (Nat.le_refl s.clock.micros) fun _ => Nat.le_refl _)
      rw [← hview] at hr
      obtain ⟨row, hrow, rfl⟩ := Option.map_eq_some_iff.mp hr
      simpa using hnone row hrow
    | @hit _ _ _ row row' hrow hassign hfree =>
      have hr : seen start list t id = some row.record := by
        rw [← hview, hrow]
        rfl
      dsimp only at hassign
      split at hassign
      · next hcondition =>
        obtain rfl := Option.some.inj hassign
        have hlt : id < s.nextId t := by
          by_contra hle
          rw [h.unseen (Nat.le_of_not_lt hle)] at hr
          contradiction
        have hwritten (row : Row ⟨t, id⟩) : Alone i start (⟨t, start.com t id, row.record⟩ :: list)
            (s.written i t id row s.nextId) := h.written (fun _ => Nat.le_refl _) hlt
        exact hhit row.record _ hr hcondition (hwritten (row.modify values hid))
      · contradiction

/-- A commit publishes what the session sees. -/
theorem does_commit {f : Unit → Handler β} (h : Alone i start list s)
    (hnext : ∀ s', s'.Idle → (∀ t id, s'.com t id = seen start list t id) →
      Does deployment i Q (f ()) s') : Does deployment i Q (commit >>= f) s := by
  refine does_op h fun s h => ⟨⟨.unit, rfl⟩, fun choice answer s' hperform => ?_⟩
  cases perform_effect hperform with
  | commit =>
    refine hnext _ ⟨fun k => ?_, fun k hk => ?_⟩ fun t id => h.view
    · exact h.dropped k
    · have hview : (s.db.view i k).map Row.record = seen start list k.table k.id := h.view
      rw [h.unseen hk] at hview
      exact Option.map_eq_none_iff.mp hview

/-- Closing the session drops what it has not committed. -/
theorem does_close {Q : Except PyError Unit → State → Prop} (h : Alone i start list s)
    (hnext : ∀ s', s'.Idle → s'.db.committed = start.db.committed → s.clock ≤ s'.clock →
      Q (.ok ()) s') :
    Does deployment i Q close s := by
  refine Program.Ensures.op_bind fun s1 hticks =>
    ⟨⟨.unit, rfl⟩, fun choice answer s' hperform => .pure fun s'' hticks' => ?_⟩
  obtain ⟨hclock, -⟩ := eq_of_ticks hticks
  obtain ⟨hclock', heq⟩ := eq_of_ticks hticks'
  have h1 := h.ticks hticks
  rw [heq]
  cases perform_effect hperform with
  | close =>
    exact hnext _ ⟨h1.dropped, fun k hk => (h1.fresh k hk).1⟩ h1.committed
      (Nat.le_trans hclock hclock')

end Rules

end ElevateGate.Backend
