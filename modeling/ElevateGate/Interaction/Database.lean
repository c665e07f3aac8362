import Mathlib.Logic.Function.Basic
import Mathlib.Tactic.Common

/-!
# Rows under READ COMMITTED

Committed rows, and for each key at most one uncommitted version together with the session
that wrote it. Keeping the writer with the version makes the row lock part of the data: two
sessions cannot hold uncommitted versions of one row. A session reads its own version where
it has one and the committed row otherwise.
-/

namespace Interaction

/-- The committed rows of a database and the uncommitted versions on top of them.

An uncommitted version `none` is a deletion that has not been committed. -/
structure Database (Key : Type) (Row : Key → Type) (Sid : Type) where
  committed : (k : Key) → Option (Row k)
  dirty : (k : Key) → Option (Sid × Option (Row k))

namespace Database

variable {Key : Type} {Row : Key → Type} {Sid : Type}

/-- What a session can rely on while others run: its own versions stay, no other versions become
its own, and the committed rows under its own versions do not change. -/
structure Frame (i : Sid) (d d' : Database Key Row Sid) : Prop where
  dirty : ∀ k version, d'.dirty k = some (i, version) ↔ d.dirty k = some (i, version)
  committed : ∀ k version, d.dirty k = some (i, version) → d'.committed k = d.committed k

variable {d d' d'' : Database Key Row Sid} {i j : Sid} {k : Key}

theorem Frame.refl (i : Sid) (d : Database Key Row Sid) : Frame i d d :=
  ⟨fun _ _ => Iff.rfl, fun _ _ _ => rfl⟩

theorem Frame.trans (h : Frame i d d') (h' : Frame i d' d'') : Frame i d d'' where
  dirty k version := (h'.dirty k version).trans (h.dirty k version)
  committed k version hdirty :=
    (h'.committed k version ((h.dirty k version).mpr hdirty)).trans (h.committed k version hdirty)

section Sessions

variable [DecidableEq Sid]

/-- The version of a row that a session sees. -/
def view (d : Database Key Row Sid) (i : Sid) (k : Key) : Option (Row k) :=
  match d.dirty k with
  | some (j, version) => if j = i then version else d.committed k
  | none => d.committed k

/-- Whether a session may write a row without waiting for another session to end. -/
def free (d : Database Key Row Sid) (i : Sid) (k : Key) : Bool :=
  match d.dirty k with
  | some (j, _) => decide (j = i)
  | none => true

/-- The uncommitted versions of every session but one. -/
def dropDirty (d : Database Key Row Sid) (i : Sid) (k : Key) : Option (Sid × Option (Row k)) :=
  match d.dirty k with
  | some (j, version) => if j = i then none else some (j, version)
  | none => none

/-- Make a session's versions the committed ones. -/
def commit (d : Database Key Row Sid) (i : Sid) : Database Key Row Sid where
  committed := d.view i
  dirty := d.dropDirty i

/-- Forget a session's versions. -/
def rollback (d : Database Key Row Sid) (i : Sid) : Database Key Row Sid where
  committed := d.committed
  dirty := d.dropDirty i

/-- Forget every uncommitted version. -/
def crash (d : Database Key Row Sid) : Database Key Row Sid where
  committed := d.committed
  dirty _ := none

/-- A session reads its own version. -/
theorem view_of_dirty {version : Option (Row k)} (h : d.dirty k = some (i, version)) :
    d.view i k = version := by
  simp [view, h]

/-- Without a version of its own a session reads the committed row. -/
theorem view_of_not_dirty (h : ∀ version, d.dirty k ≠ some (i, version)) :
    d.view i k = d.committed k := by
  unfold view
  split
  · next j version hdirty =>
    have hj : j ≠ i := fun heq => h version (heq ▸ hdirty)
    simp [hj]
  · rfl

/-- A visible row is the session's own version or a committed row. -/
theorem view_cases (d : Database Key Row Sid) (i : Sid) (k : Key) :
    d.dirty k = some (i, d.view i k) ∨
      (∀ version, d.dirty k ≠ some (i, version)) ∧ d.view i k = d.committed k := by
  by_cases h : ∃ version, d.dirty k = some (i, version)
  · obtain ⟨version, hdirty⟩ := h
    exact Or.inl (by rw [view_of_dirty hdirty, hdirty])
  · push Not at h
    exact Or.inr ⟨h, view_of_not_dirty h⟩

/-- A free row carries no version of another session. -/
theorem free_iff : d.free i k = true ↔ ∀ j version, d.dirty k = some (j, version) → j = i := by
  unfold free
  split
  · next j version hdirty =>
    rw [hdirty]
    simp only [decide_eq_true_eq, Option.some.injEq, Prod.mk.injEq]
    constructor
    · rintro rfl j' version' ⟨rfl, -⟩
      rfl
    · intro h
      exact h j version ⟨rfl, rfl⟩
  · next hdirty => simp [hdirty]

theorem dropDirty_eq_some {j : Sid} {version : Option (Row k)} :
    d.dropDirty i k = some (j, version) ↔ d.dirty k = some (j, version) ∧ j ≠ i := by
  unfold dropDirty
  split
  · next j' version' hdirty =>
    rw [hdirty]
    by_cases hj : j' = i
    · subst hj
      simp only [if_true, Option.some.injEq, Prod.mk.injEq, reduceCtorEq, false_iff, not_and, not_not]
      rintro ⟨rfl, -⟩
      rfl
    · simp only [if_neg hj, Option.some.injEq, Prod.mk.injEq]
      constructor
      · rintro ⟨rfl, h⟩
        exact ⟨⟨rfl, h⟩, hj⟩
      · exact fun h => h.1
  · next hdirty => simp [hdirty]

/-- A version that is left by a dropped transaction was there. -/
theorem dirty_of_dropDirty {entry : Sid × Option (Row k)} (h : d.dropDirty i k = some entry) :
    d.dirty k = some entry :=
  (dropDirty_eq_some.mp h).1

@[simp] theorem commit_committed : (d.commit i).committed = d.view i := rfl

@[simp] theorem commit_dirty : (d.commit i).dirty = d.dropDirty i := rfl

@[simp] theorem rollback_committed : (d.rollback i).committed = d.committed := rfl

@[simp] theorem rollback_dirty : (d.rollback i).dirty = d.dropDirty i := rfl

/-- A session that ends does not disturb another session's versions. -/
private theorem dropDirty_frame (hij : j ≠ i) (k : Key) (version : Option (Row k)) :
    d.dropDirty j k = some (i, version) ↔ d.dirty k = some (i, version) := by
  rw [dropDirty_eq_some]
  exact ⟨fun h => h.1, fun h => ⟨h, hij.symm⟩⟩

/-- Committing does not disturb another session. -/
theorem commit_frame (hij : j ≠ i) : Frame i d (d.commit j) where
  dirty := dropDirty_frame hij
  committed k version hdirty := by
    refine view_of_not_dirty fun version' h => hij ?_
    rw [hdirty] at h
    exact (Prod.mk.inj (Option.some.inj h)).1.symm

/-- Rolling back does not disturb another session. -/
theorem rollback_frame (hij : j ≠ i) : Frame i d (d.rollback j) where
  dirty := dropDirty_frame hij
  committed _ _ _ := rfl

/-- After it commits or rolls back a session has no versions left. -/
theorem dropDirty_self (k : Key) (version : Option (Row k)) :
    d.dropDirty i k ≠ some (i, version) := by
  rw [Ne, dropDirty_eq_some]
  exact fun h => h.2 rfl

end Sessions

section Writes

variable [DecidableEq Key]

/-- Record a session's uncommitted version of a row. -/
def write (d : Database Key Row Sid) (i : Sid) (k : Key) (version : Option (Row k)) :
    Database Key Row Sid :=
  { d with dirty := Function.update d.dirty k (some (i, version)) }

@[simp] theorem write_committed (version : Option (Row k)) :
    (d.write i k version).committed = d.committed := rfl

@[simp] theorem write_dirty_self (version : Option (Row k)) :
    (d.write i k version).dirty k = some (i, version) := by
  simp [write]

theorem write_dirty_ne (version : Option (Row k)) {k' : Key} (h : k' ≠ k) :
    (d.write i k version).dirty k' = d.dirty k' := by
  simp [write, h]

variable [DecidableEq Sid]

/-- Writing a free row does not disturb another session. -/
theorem write_frame (hij : j ≠ i) (hfree : d.free j k = true) (version : Option (Row k)) :
    Frame i d (d.write j k version) where
  dirty k' version' := by
    by_cases hk : k' = k
    · subst hk
      simp only [write_dirty_self, Option.some.injEq, Prod.mk.injEq, hij, false_and, false_iff]
      exact fun h => hij (free_iff.mp hfree i version' h).symm
    · rw [write_dirty_ne version hk]
  committed _ _ _ := rfl

end Writes

end Database

end Interaction
