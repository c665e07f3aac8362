import Mathlib.Data.List.Lex
import Mathlib.Order.Lattice

/-!
# Padding in the lexicographic order

A short list is padded before it is compared with a longer one. If nothing in the longer list lies
below the padding, padding never decides the comparison in favour of the short one, so any two such
paddings decide alike.
-/

namespace Padding

variable {α : Type} [LinearOrder α] {b z : α}

/-- A list in which nothing lies below the padding is not less than the padding alone. -/
theorem not_lt_replicate {l : List α} (h : ∀ x ∈ l, z ≤ x) :
    ¬ l < List.replicate l.length z := by
  induction l with
  | nil => exact List.not_lt_nil _
  | cons x rest ih =>
    intro hlt
    rw [List.length_cons, List.replicate_succ, List.cons_lt_cons_iff] at hlt
    rcases hlt with hx | ⟨-, hrest⟩
    · exact absurd (h x List.mem_cons_self) (not_le_of_gt hx)
    · exact ih (fun y hy => h y (List.mem_cons_of_mem _ hy)) hrest

/-- Any two paddings below which nothing lies decide alike. -/
theorem lt_rightpad_iff {l m : List α} (hlength : m.length ≤ l.length) (hb : ∀ x ∈ l, b ≤ x)
    (hz : ∀ x ∈ l, z ≤ x) : l < m.rightpad l.length b ↔ l < m.rightpad l.length z := by
  induction m generalizing l with
  | nil => exact iff_of_false (not_lt_replicate hb) (not_lt_replicate hz)
  | cons y rest ih =>
    cases l with
    | nil => contradiction
    | cons x l =>
      have hrest := ih (Nat.le_of_succ_le_succ hlength)
        (fun w hw => hb w (List.mem_cons_of_mem _ hw)) fun w hw => hz w (List.mem_cons_of_mem _ hw)
      have hcons : ∀ c, (y :: rest).rightpad (x :: l).length c = y :: rest.rightpad l.length c := by
        intro c
        simp [List.rightpad]
      rw [hcons, hcons, List.cons_lt_cons_iff, List.cons_lt_cons_iff, hrest]

end Padding
