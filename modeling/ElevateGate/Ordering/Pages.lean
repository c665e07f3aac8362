import Mathlib.Data.List.Nodup
import Mathlib.Data.List.Sort
import Mathlib.Order.Basic

/-!
# Pages of an order that is not total

Rows are ordered by a key, greatest first, and rows of one key come in any order. Each page is cut out
of an arrangement of its own. The pages together show every row once, whatever the arrangements are,
exactly if no rows of one key lie on both sides of a page boundary.
-/

namespace Pages

variable {α κ : Type} [LinearOrder κ] {key : α → κ} {n : Nat} {rows l l' : List α}

/-- Some rows in the order of their keys, the greatest first. -/
structure Arrangement (key : α → κ) (rows l : List α) : Prop where
  perm : l.Perm rows
  sorted : l.Pairwise fun a b => key b ≤ key a

/-- The rows of a page. -/
def page (n k : Nat) (l : List α) : List α := (l.drop (k * n)).take n

/-- How many rows must come before the rows of a key. -/
def above (key : α → κ) (rows : List α) (a : α) : Nat := rows.countP fun b => key a < key b

/-- How many rows must have come when the rows of a key have. -/
def through (key : α → κ) (rows : List α) (a : α) : Nat := rows.countP fun b => key a ≤ key b

/-- A boundary has rows of one key on both sides. -/
def Straddled (key : α → κ) (rows : List α) (boundary : Nat) : Prop :=
  ∃ a ∈ rows, above key rows a < boundary ∧ boundary < through key rows a

/-- Sorting arranges. -/
theorem arrangement_mergeSort (key : α → κ) (rows : List α) :
    Arrangement key rows (rows.mergeSort fun a b => decide (key b ≤ key a)) where
  perm := List.mergeSort_perm _ _
  sorted := by
    have hsorted := @List.pairwise_mergeSort _ (fun a b => decide (key b ≤ key a))
      (fun a b c hab hbc => decide_eq_true
        ((of_decide_eq_true hbc).trans (of_decide_eq_true hab)))
      (fun a b => by simpa using le_total (key b) (key a)) rows
    exact hsorted.imp fun h => of_decide_eq_true h

/-- Two rows of one key may come in either order. -/
theorem arrangement_pair {a b : α} (h : key a = key b) :
    Arrangement key [a, b] [a, b] ∧ Arrangement key [a, b] [b, a] :=
  ⟨⟨.refl _, List.pairwise_pair.mpr h.ge⟩, ⟨.swap a b [], List.pairwise_pair.mpr h.le⟩⟩

/-- Where a row may stand. -/
theorem Arrangement.position {xs ys : List α} {a : α} (h : Arrangement key rows (xs ++ a :: ys)) :
    above key rows a ≤ xs.length ∧ xs.length < through key rows a := by
  obtain ⟨-, hsuffix, hbefore⟩ := List.pairwise_append.mp h.sorted
  obtain ⟨hafter, -⟩ := List.pairwise_cons.mp hsuffix
  have habove : above key rows a = xs.countP (fun b => key a < key b) := by
    have hnone : (a :: ys).countP (fun b => key a < key b) = 0 := by
      refine List.countP_eq_zero.mpr fun b hb => ?_
      rcases List.mem_cons.mp hb with rfl | hb
      · simp
      · simpa using hafter b hb
    rw [above, ← h.perm.countP_eq, List.countP_append, hnone, Nat.add_zero]
  have hthrough : xs.countP (fun b => key a ≤ key b) + 1 ≤ through key rows a := by
    rw [through, ← h.perm.countP_eq, List.countP_append, List.countP_cons_of_pos (by simp)]
    omega
  have hall : xs.countP (fun b => key a ≤ key b) = xs.length :=
    List.countP_eq_length.mpr fun b hb => by simpa using hbefore b hb a List.mem_cons_self
  constructor
  · rw [habove]
    exact List.countP_le_length
  · omega

/-- Before a boundary that is not straddled stand the rows that must. -/
theorem Arrangement.mem_take {boundary : Nat} (h : Arrangement key rows l)
    (hboundary : ¬ Straddled key rows boundary) (a : α) :
    a ∈ l.take boundary ↔ a ∈ rows ∧ above key rows a < boundary := by
  constructor
  · intro ha
    obtain ⟨xs, ys, htake⟩ := List.append_of_mem ha
    have hl : l = xs ++ a :: (ys ++ l.drop boundary) := by
      conv_lhs => rw [← List.take_append_drop boundary l, htake]
      simp
    have hlength : xs.length < boundary := by
      have hle := List.length_take_le boundary l
      rw [htake, List.length_append, List.length_cons] at hle
      omega
    rw [hl] at h
    have hposition := h.position.1
    exact ⟨h.perm.subset (by simp), by omega⟩
  · rintro ⟨ha, habove⟩
    obtain ⟨xs, ys, rfl⟩ := List.append_of_mem (h.perm.symm.subset ha)
    have hthrough : through key rows a ≤ boundary := by
      by_contra hlate
      exact hboundary ⟨a, ha, habove, not_le.mp hlate⟩
    have hposition := h.position.2
    rw [List.take_append]
    refine List.mem_append_right _ ?_
    obtain ⟨rest, hrest⟩ : ∃ rest, boundary - xs.length = rest + 1 :=
      ⟨boundary - xs.length - 1, by omega⟩
    rw [hrest, List.take_succ_cons]
    exact List.mem_cons_self

/-- So every arrangement has the same rows before it. -/
theorem Arrangement.take_perm {boundary : Nat} (h : Arrangement key rows l)
    (h' : Arrangement key rows l') (hnodup : rows.Nodup)
    (hboundary : ¬ Straddled key rows boundary) : (l.take boundary).Perm (l'.take boundary) := by
  have htake : ∀ {l : List α}, Arrangement key rows l → (l.take boundary).Nodup := fun h =>
    (h.perm.nodup_iff.mpr hnodup).sublist (List.take_sublist _ _)
  refine (List.perm_ext_iff_of_nodup (htake h) (htake h')).mpr fun a => ?_
  rw [h.mem_take hboundary, h'.mem_take hboundary]

/-- The first pages show what stands before the last of their boundaries. -/
theorem flatMap_page_perm {f : Nat → List α} (hf : ∀ k, Arrangement key rows (f k))
    (hnodup : rows.Nodup) (hboundary : ∀ k, ¬ Straddled key rows (k * n)) (k : Nat) :
    ((List.range k).flatMap fun j => page n j (f j)).Perm ((f 0).take (k * n)) := by
  induction k with
  | zero => simp
  | succ k ih =>
    rw [List.range_succ, List.flatMap_append, List.flatMap_singleton]
    have hsplit : (f k).take ((k + 1) * n) = (f k).take (k * n) ++ page n k (f k) := by
      rw [Nat.succ_mul, List.take_add, page]
    have hbefore : ((f 0).take (k * n)).Perm ((f k).take (k * n)) :=
      (hf 0).take_perm (hf k) hnodup (hboundary k)
    refine (ih.append_right _).trans ((hbefore.append_right _).trans ?_)
    rw [← hsplit]
    exact (hf k).take_perm (hf 0) hnodup (hboundary (k + 1))

/-- A row is on the page of its position. -/
theorem mem_page {xs ys : List α} {a : α} {k : Nat} (hlow : k * n ≤ xs.length)
    (hhigh : xs.length < (k + 1) * n) : a ∈ page n k (xs ++ a :: ys) := by
  obtain ⟨rest, hrest⟩ : ∃ rest, n - (xs.length - k * n) = rest + 1 :=
    ⟨n - (xs.length - k * n) - 1, by rw [Nat.succ_mul] at hhigh; omega⟩
  have hzero : k * n - xs.length = 0 := by omega
  rw [page, List.drop_append, hzero, List.drop_zero, List.take_append, List.length_drop, hrest,
    List.take_succ_cons]
  exact List.mem_append_right _ List.mem_cons_self

/-- Rows on both sides of a straddled boundary can change places. -/
theorem Arrangement.swap {boundary : Nat} (h : Arrangement key rows l)
    (hstraddled : Straddled key rows boundary) :
    ∃ xs a b ys, l = xs ++ a :: b :: ys ∧ xs.length + 1 = boundary ∧
      Arrangement key rows (xs ++ b :: a :: ys) := by
  obtain ⟨c, -, habove, hthrough⟩ := hstraddled
  have hlength : boundary < l.length := by
    have hle : through key rows c ≤ rows.length := List.countP_le_length
    rw [← h.perm.length_eq] at hle
    omega
  obtain ⟨xs, rest, rfl, hxs⟩ : ∃ xs rest, l = xs ++ rest ∧ xs.length + 1 = boundary :=
    ⟨l.take (boundary - 1), l.drop (boundary - 1), by simp, by rw [List.length_take]; omega⟩
  match rest, hlength with
  | [], hlength => simp at hlength; omega
  | [a], hlength => simp at hlength; omega
  | a :: b :: ys, hlength =>
    obtain ⟨hstart, hsuffix, hbefore⟩ := List.pairwise_append.mp h.sorted
    obtain ⟨ha, hrest⟩ := List.pairwise_cons.mp hsuffix
    obtain ⟨hb, hys⟩ := List.pairwise_cons.mp hrest
    -- the row before the boundary is not above, and the row after it is not below
    have hle : key a ≤ key c := by
      by_contra hgt
      have hall : (xs ++ [a]).countP (fun d => key c < key d) = (xs ++ [a]).length := by
        refine List.countP_eq_length.mpr fun d hd => ?_
        rcases List.mem_append.mp hd with hd | hd
        · simpa using lt_of_lt_of_le (not_le.mp hgt) (hbefore d hd a List.mem_cons_self)
        · simpa [List.mem_singleton.mp hd] using hgt
      have hcount : (xs ++ [a]).countP (fun d => key c < key d) ≤ above key rows c := by
        rw [above, ← h.perm.countP_eq, show xs ++ a :: b :: ys = (xs ++ [a]) ++ b :: ys by simp]
        exact (List.sublist_append_left _ _).countP_le
      rw [hall, List.length_append, List.length_singleton] at hcount
      omega
    have hge : key c ≤ key b := by
      by_contra hlt
      have hnone : (b :: ys).countP (fun d => key c ≤ key d) = 0 := by
        refine List.countP_eq_zero.mpr fun d hd => ?_
        rcases List.mem_cons.mp hd with rfl | hd
        · simpa using hlt
        · simpa using lt_of_le_of_lt (hb d hd) (not_le.mp hlt)
      have hcount : through key rows c ≤ (xs ++ [a]).length := by
        rw [through, ← h.perm.countP_eq, show xs ++ a :: b :: ys = (xs ++ [a]) ++ b :: ys by simp,
          List.countP_append, hnone, Nat.add_zero]
        exact List.countP_le_length
      rw [List.length_append, List.length_singleton] at hcount
      omega
    have hkey : key b = key a :=
      le_antisymm (ha b List.mem_cons_self) (hle.trans hge)
    refine ⟨xs, a, b, ys, rfl, hxs, ?_, ?_⟩
    · exact ((List.Perm.swap a b ys).append_left xs).trans h.perm
    · refine List.pairwise_append.mpr ⟨hstart, ?_, fun d hd e he => hbefore d hd e ?_⟩
      · refine List.pairwise_cons.mpr ⟨fun d hd => ?_, List.pairwise_cons.mpr ⟨fun d hd => ?_, hys⟩⟩
        · rcases List.mem_cons.mp hd with rfl | hd
          · exact hkey.ge
          · exact hb d hd
        · exact ha d (List.mem_cons_of_mem _ hd)
      · simp only [List.mem_cons] at he ⊢
        tauto

/-- Pages show every row exactly once, however each of them is arranged, if and only if no boundary
between two of them is straddled. -/
theorem pages_perm_iff (hn : 0 < n) (hnodup : rows.Nodup) (harranged : ∃ l, Arrangement key rows l) :
    (∀ f : Nat → List α, (∀ k, Arrangement key rows (f k)) →
      ((List.range (rows.length / n + 1)).flatMap fun k => page n k (f k)).Perm rows) ↔
    ∀ k, ¬ Straddled key rows (k * n) := by
  constructor
  · intro hpages k hstraddled
    obtain ⟨l, hl⟩ := harranged
    obtain ⟨xs, a, b, ys, rfl, hxs, hswapped⟩ := hl.swap hstraddled
    obtain ⟨j, rfl⟩ : ∃ j, k = j + 1 := by
      cases k with
      | zero => omega
      | succ j => exact ⟨j, rfl⟩
    let f : Nat → List α := fun i => if i = j then xs ++ a :: b :: ys else xs ++ b :: a :: ys
    have hf : ∀ i, Arrangement key rows (f i) := fun i => by
      by_cases hi : i = j
      · simpa only [f, if_pos hi] using hl
      · simpa only [f, if_neg hi] using hswapped
    have hmul : (j + 1) * n = j * n + n := Nat.succ_mul j n
    -- the row before the boundary is shown on both pages
    have hfirst : a ∈ page n j (f j) := by
      simp only [f, if_true]
      exact mem_page (by omega) (by omega)
    have hsecond : a ∈ page n (j + 1) (f (j + 1)) := by
      have hne : ¬ j + 1 = j := by omega
      simp only [f, if_neg hne]
      rw [show xs ++ b :: a :: ys = (xs ++ [b]) ++ a :: ys by simp]
      have hmul' : (j + 1 + 1) * n = (j + 1) * n + n := Nat.succ_mul (j + 1) n
      exact mem_page (by rw [List.length_append, List.length_singleton]; omega)
        (by rw [List.length_append, List.length_singleton]; omega)
    have hlast : j + 1 ≤ rows.length / n := by
      refine (Nat.le_div_iff_mul_le hn).mpr ?_
      have hlength := hl.perm.length_eq
      simp only [List.length_append, List.length_cons] at hlength
      omega
    have hdisjoint := (List.nodup_flatMap.mp ((hpages f hf).nodup_iff.mpr hnodup)).2
    have hpair := List.pairwise_iff_getElem.mp hdisjoint j (j + 1) (by rw [List.length_range]; omega)
      (by rw [List.length_range]; omega) (Nat.lt_succ_self j)
    rw [List.getElem_range, List.getElem_range] at hpair
    exact hpair hfirst hsecond
  · intro hboundary f hf
    refine (flatMap_page_perm hf hnodup hboundary _).trans ?_
    have hlength : rows.length ≤ (rows.length / n + 1) * n := by
      have hmod := Nat.mod_lt rows.length hn
      have hdiv := Nat.div_add_mod' rows.length n
      rw [Nat.succ_mul]
      omega
    rw [List.take_of_length_le ((hf 0).perm.length_eq ▸ hlength)]
    exact (hf 0).perm

end Pages
