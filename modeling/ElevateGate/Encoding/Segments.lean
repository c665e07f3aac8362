import Mathlib.Tactic.Common

/-!
# Splitting into segments

A list is split at the elements that satisfy a predicate, and empty segments are dropped. Joining
clean segments and splitting again gives the segments back.
-/

namespace Segments

variable {α : Type} {p : α → Bool}

/-- The segments between the separators, without the empty ones. -/
def split [DecidableEq α] (p : α → Bool) (xs : List α) : List (List α) :=
  (xs.splitOnP p).filter (· ≠ [])

/-- A segment that splitting may give: it is not empty and contains no separator. -/
def Clean (p : α → Bool) (segment : List α) : Prop :=
  segment ≠ [] ∧ ∀ x ∈ segment, p x = false

/-- The parts of a split list consist of its elements that are no separators. -/
private theorem of_mem_splitOnP (xs : List α) :
    ∀ segment ∈ xs.splitOnP p, ∀ x ∈ segment, x ∈ xs ∧ p x = false := by
  induction xs with
  | nil => simp
  | cons x rest ih =>
    have htail : ∀ segment ∈ rest.splitOnP p, ∀ y ∈ segment, y ∈ x :: rest ∧ p y = false :=
      fun segment hsegment y hy =>
        ⟨List.mem_cons_of_mem _ (ih segment hsegment y hy).1, (ih segment hsegment y hy).2⟩
    intro segment hsegment y hy
    rw [List.splitOnP_cons_eq_if_modifyHead] at hsegment
    cases hx : p x with
    | true =>
      rw [if_pos hx] at hsegment
      rcases List.mem_cons.mp hsegment with rfl | hsegment
      · contradiction
      · exact htail segment hsegment y hy
    | false =>
      rw [if_neg (by simp [hx])] at hsegment
      cases hparts : rest.splitOnP p with
      | nil => exact absurd hparts (List.splitOnP_ne_nil p rest)
      | cons first others =>
        rw [hparts, List.modifyHead_cons] at hsegment
        rw [hparts] at htail
        rcases List.mem_cons.mp hsegment with rfl | hother
        · rcases List.mem_cons.mp hy with rfl | hy
          · exact ⟨List.mem_cons_self, hx⟩
          · exact htail first List.mem_cons_self y hy
        · exact htail segment (List.mem_cons_of_mem _ hother) y hy

variable [DecidableEq α]

/-- A segment consists of elements of the list. -/
theorem mem_of_mem_split {xs segment : List α} (h : segment ∈ split p xs) {x : α}
    (hx : x ∈ segment) : x ∈ xs :=
  (of_mem_splitOnP xs segment (List.mem_filter.mp h).1 x hx).1

/-- The segments are clean. -/
theorem clean_of_mem_split {xs segment : List α} (h : segment ∈ split p xs) : Clean p segment := by
  obtain ⟨hmem, hne⟩ := List.mem_filter.mp h
  exact ⟨of_decide_eq_true hne, fun x hx => (of_mem_splitOnP xs segment hmem x hx).2⟩

@[simp] theorem split_nil : split p ([] : List α) = [] := by
  simp [split]

/-- A separator separates. -/
theorem split_append_cons {sep : α} (hsep : p sep = true) (xs ys : List α) :
    split p (xs ++ sep :: ys) = split p xs ++ split p ys := by
  rw [split, List.splitOnP_append_cons xs ys hsep, List.filter_append, split, split]

/-- A clean segment is its own only segment. -/
theorem split_clean {segment : List α} (h : Clean p segment) : split p segment = [segment] := by
  rw [split, List.splitOnP_eq_singleton h.2]
  simp [h.1]

/-- Splitting undoes joining. -/
theorem split_intercalate {sep : α} (hsep : p sep = true) {segments : List (List α)}
    (h : ∀ segment ∈ segments, Clean p segment) :
    split p (List.intercalate [sep] segments) = segments := by
  induction segments with
  | nil => simp
  | cons first rest ih =>
    have hfirst := h first List.mem_cons_self
    have hrest := ih fun segment hsegment => h segment (List.mem_cons_of_mem _ hsegment)
    cases rest with
    | nil => simpa using split_clean hfirst
    | cons second rest =>
      rw [List.intercalate_cons_cons, List.append_assoc, List.singleton_append,
        split_append_cons hsep, split_clean hfirst, hrest, List.singleton_append]

end Segments
