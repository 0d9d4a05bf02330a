import Mathlib

/-! # Sorted lists: separated halves, runs and boundaries

Sorting commutes with cutting a list in two, as long as every element of the first half lies
strictly below every element of the second. The cut is given by a Boolean predicate `p` (true on the
first half), so that the halves of an *unsorted* list are its two filters:

* **`insertionSort_eq_append_filter`** — a stable sort is the sort of the two halves, one after the
  other;
* **`splitBy_map`** — splitting a list into runs commutes with a map that respects the run relation;
* **`lastWhile`**, **`firstFrom`** — the elements on either side of the boundary a binary search
  finds, which in a sorted list are the greatest element below and the least one above it. -/

namespace SentryUsb.Library

variable {α β : Type*}

/-! ## One half suffices -/

/-- A witness excluded from the second half lies in the first. -/
theorem exists_mem_append_iff_left {l m : List α} {P : α → Prop} (h : ∀ a ∈ m, ¬ P a) :
    (∃ a ∈ l ++ m, P a) ↔ ∃ a ∈ l, P a := by
  constructor
  · rintro ⟨a, ha, hP⟩
    rcases List.mem_append.mp ha with ha | ha
    · exact ⟨a, ha, hP⟩
    · exact absurd hP (h a ha)
  · rintro ⟨a, ha, hP⟩
    exact ⟨a, List.mem_append_left m ha, hP⟩

/-- A witness excluded from the first half lies in the second. -/
theorem exists_mem_append_iff_right {l m : List α} {P : α → Prop} (h : ∀ a ∈ l, ¬ P a) :
    (∃ a ∈ l ++ m, P a) ↔ ∃ a ∈ m, P a := by
  constructor
  · rintro ⟨a, ha, hP⟩
    rcases List.mem_append.mp ha with ha | ha
    · exact absurd hP (h a ha)
    · exact ⟨a, ha, hP⟩
  · rintro ⟨a, ha, hP⟩
    exact ⟨a, List.mem_append_right l ha, hP⟩

/-- The halves of a list that lies in the first half. -/
theorem filter_halves_of_forall_true {p : α → Bool} {l : List α} (h : ∀ a ∈ l, p a = true) :
    l.filter p = l ∧ (l.filter fun a => !p a) = [] :=
  ⟨List.filter_eq_self.mpr h, List.filter_eq_nil_iff.mpr fun a ha => by simp [h a ha]⟩

/-- The halves of a list that lies in the second half. -/
theorem filter_halves_of_forall_false {p : α → Bool} {l : List α} (h : ∀ a ∈ l, p a = false) :
    l.filter p = [] ∧ (l.filter fun a => !p a) = l :=
  ⟨List.filter_eq_nil_iff.mpr fun a ha => by simp [h a ha],
    List.filter_eq_self.mpr fun a ha => by simp [h a ha]⟩

/-! ## Stable sorting -/

section StableSort

variable (r : α → α → Prop) [DecidableRel r]

/-- An element below everything in the second half is inserted within the first half. -/
theorem orderedInsert_append_of_forall_rel (a : α) (xs ys : List α) (h : ∀ y ∈ ys, r a y) :
    (xs ++ ys).orderedInsert r a = xs.orderedInsert r a ++ ys := by
  induction xs with
  | nil =>
    cases ys with
    | nil => rfl
    | cons y ys => simp [List.orderedInsert_cons_of_le r ys (h y (by simp))]
  | cons x xs ih =>
    by_cases hx : r a x
    · simp [hx]
    · simp [hx, ih]

/-- An element above everything in the first half is inserted within the second half. -/
theorem orderedInsert_append_of_forall_not_rel (a : α) (xs ys : List α) (h : ∀ x ∈ xs, ¬ r a x) :
    (xs ++ ys).orderedInsert r a = xs ++ ys.orderedInsert r a := by
  induction xs with
  | nil => rfl
  | cons x xs ih =>
    have hx : ¬ r a x := h x (by simp)
    rw [List.cons_append, List.orderedInsert_of_not_le r _ hx,
      ih fun y hy => h y (List.mem_cons_of_mem x hy), List.cons_append]

/-- **A stable sort of two separated halves** is the sorted first half followed by the sorted second
half. -/
theorem insertionSort_eq_append_filter (p : α → Bool) (l : List α)
    (h : ∀ a ∈ l, ∀ b ∈ l, p a = true → p b = false → r a b ∧ ¬ r b a) :
    l.insertionSort r
      = (l.filter p).insertionSort r ++ (l.filter fun a => !p a).insertionSort r := by
  induction l with
  | nil => rfl
  | cons a l ih =>
    have ih' := ih fun x hx y hy => h x (List.mem_cons_of_mem a hx) y (List.mem_cons_of_mem a hy)
    rw [List.insertionSort_cons, ih']
    cases hp : p a with
    | true =>
      rw [orderedInsert_append_of_forall_rel]
      · simp [hp]
      · intro y hy
        simp only [List.mem_insertionSort, List.mem_filter, Bool.not_eq_true'] at hy
        exact (h a (by simp) y (by simp [hy.1]) hp hy.2).1
    | false =>
      rw [orderedInsert_append_of_forall_not_rel]
      · simp [hp]
      · intro x hx
        simp only [List.mem_insertionSort, List.mem_filter] at hx
        exact (h x (by simp [hx.1]) a (by simp) hx.2 hp).2

end StableSort

/-! ## Runs -/

/-- Splitting into runs commutes with a map that respects the run relation. -/
theorem splitBy_map (f : α → β) (r : β → β → Bool) (l : List α) :
    (l.map f).splitBy r = (l.splitBy fun a b => r (f a) (f b)).map (List.map f) := by
  cases l with
  | nil => rfl
  | cons a l =>
    have loop : ∀ (l : List α) (a : α) (g : List α) (gs : List (List α)),
        List.splitBy.loop r (l.map f) (f a) (g.map f) (gs.map (List.map f))
          = (List.splitBy.loop (fun a b => r (f a) (f b)) l a g gs).map (List.map f) := by
      intro l
      induction l with
      | nil => intro a g gs; simp [List.splitBy.loop]
      | cons b l ih =>
        intro a g gs
        simp only [List.map_cons, List.splitBy.loop]
        cases r (f a) (f b) with
        | true => exact ih b (a :: g) gs
        | false =>
          have h := ih b [] ((a :: g).reverse :: gs)
          simpa using h
    exact loop l a [] []

/-! ## Binary-search boundaries -/

/-- The last element before the boundary a binary search finds in a list partitioned by `p`
(`l[l.partition_point(p) - 1]`, if the boundary is not the start). -/
def lastWhile (p : α → Bool) (l : List α) : Option α := (l.takeWhile p).getLast?

/-- The first element from that boundary on (`l[l.partition_point(p)]`, if there is one). -/
def firstFrom (p : α → Bool) (l : List α) : Option α := (l.dropWhile p).head?

section Boundary

variable {r : α → α → Prop} {p : α → Bool} {l : List α}

/-- The element before the boundary belongs to the list and satisfies the predicate. -/
theorem mem_of_lastWhile_eq_some {a : α} (h : lastWhile p l = some a) : a ∈ l ∧ p a = true := by
  have hmem : a ∈ l.takeWhile p := List.mem_of_getLast? h
  exact ⟨List.takeWhile_subset p hmem, List.mem_takeWhile_imp hmem⟩

/-- The element from the boundary on belongs to the list and fails the predicate. -/
theorem mem_of_firstFrom_eq_some {a : α} (h : firstFrom p l = some a) : a ∈ l ∧ p a = false := by
  unfold firstFrom at h
  refine ⟨(List.dropWhile_sublist p).subset (List.mem_of_head? h), ?_⟩
  cases hl : l.dropWhile p with
  | nil => simp [hl] at h
  | cons b m =>
    have hb : b = a := by simpa [hl] using h
    have hnot := List.head_dropWhile_not p (l := l) (by simp [hl])
    simpa [hl, hb] using hnot

/-- In a sorted list the element before the boundary is the greatest one satisfying the
predicate. -/
theorem exists_lastWhile (hl : l.Pairwise r) (hp : ∀ a ∈ l, ∀ b ∈ l, r a b → p b = true → p a = true)
    {a : α} (ha : a ∈ l) (hpa : p a = true) : ∃ b, lastWhile p l = some b ∧ (a = b ∨ r a b) := by
  induction l with
  | nil => simp at ha
  | cons x l ih =>
    rw [List.pairwise_cons] at hl
    have hpx : p x = true := by
      rcases List.mem_cons.mp ha with rfl | hal
      · exact hpa
      · exact hp x (by simp) a ha (hl.1 a hal) hpa
    have htake : lastWhile p (x :: l) = some ((lastWhile p l).getD x) := by
      simp [lastWhile, hpx, List.getLast?_cons]
    have hp' : ∀ a ∈ l, ∀ b ∈ l, r a b → p b = true → p a = true := fun a ha b hb =>
      hp a (List.mem_cons_of_mem x ha) b (List.mem_cons_of_mem x hb)
    rw [htake]
    refine ⟨_, rfl, ?_⟩
    rcases List.mem_cons.mp ha with rfl | hal
    · cases hlast : lastWhile p l with
      | none => exact Or.inl rfl
      | some b => exact Or.inr (hl.1 b (mem_of_lastWhile_eq_some hlast).1)
    · obtain ⟨b, hb, hab⟩ := ih hl.2 hp' hal
      simpa [hb] using hab

/-- In a sorted list the element from the boundary on is the least one failing the predicate. -/
theorem exists_firstFrom (hl : l.Pairwise r) {a : α} (ha : a ∈ l) (hpa : p a = false) :
    ∃ b, firstFrom p l = some b ∧ (b = a ∨ r b a) := by
  induction l with
  | nil => simp at ha
  | cons x l ih =>
    rw [List.pairwise_cons] at hl
    cases hpx : p x with
    | false =>
      refine ⟨x, by simp [firstFrom, hpx], ?_⟩
      rcases List.mem_cons.mp ha with rfl | hal
      · exact Or.inl rfl
      · exact Or.inr (hl.1 a hal)
    | true =>
      rcases List.mem_cons.mp ha with rfl | hal
      · simp [hpx] at hpa
      · obtain ⟨b, hb, hab⟩ := ih hl.2 hal
        exact ⟨b, by simpa [firstFrom, hpx] using hb, hab⟩

end Boundary

end SentryUsb.Library
