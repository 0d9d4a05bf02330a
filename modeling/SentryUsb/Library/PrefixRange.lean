import SentryUsb.Library.SortedMap

/-! # The keys with a given beginning

In a map sorted by keys that are lists, the keys that begin with a given list stand together: they are found by going
to the first key that is not below it and on while the keys begin with it.

* **`prefixRange`** — this range of a map;
* **`mem_prefixRange`** — it holds exactly the entries whose keys begin with the list. -/

namespace SentryUsb.Library

variable {κ α : Type*} [LinearOrder κ]

/-- The entries from a key on, while the keys begin with it. -/
def prefixRange (start : List κ) (m : SortedMap (List κ) α) : List (List κ × α) :=
  (m.entries.dropWhile fun e => decide (e.1 < start)).takeWhile fun e => start.isPrefixOf e.1

/-- What begins with a list is not below it. -/
theorem not_lt_of_isPrefixOf {start p : List κ} (h : start.isPrefixOf p = true) : ¬ p < start := by
  induction start generalizing p with
  | nil => exact List.not_lt_nil p
  | cons c start ih =>
    cases p with
    | nil => exact absurd h (by simp)
    | cons d p =>
      obtain ⟨hcd, hrest⟩ := Bool.and_eq_true_iff.mp h
      obtain rfl : c = d := beq_iff_eq.mp hcd
      intro hlt
      rcases List.cons_lt_cons_iff.mp hlt with hlt | ⟨-, hlt⟩
      · exact absurd hlt (lt_irrefl c)
      · exact ih hrest hlt

/-- **No gap in the range**: between a list and one that begins with it, all begin with it. -/
theorem isPrefixOf_of_between {start a b : List κ} (hle : ¬ a < start) (hlt : a < b) (hb : start.isPrefixOf b = true) :
    start.isPrefixOf a = true := by
  induction start generalizing a b with
  | nil => rfl
  | cons c start ih =>
    cases b with
    | nil => exact absurd hb (by simp)
    | cons d b =>
      obtain ⟨hcd, hrest⟩ := Bool.and_eq_true_iff.mp hb
      obtain rfl : c = d := beq_iff_eq.mp hcd
      cases a with
      | nil => exact absurd (List.nil_lt_cons c start) hle
      | cons e a =>
        rcases List.cons_lt_cons_iff.mp hlt with hlow | ⟨rfl, hlt'⟩
        · exact absurd (List.cons_lt_cons_iff.mpr (.inl hlow)) hle
        · have hle' : ¬ a < start := fun h => hle (List.cons_lt_cons_iff.mpr (.inr ⟨rfl, h⟩))
          exact Bool.and_eq_true_iff.mpr ⟨beq_self_eq_true e, ih hle' hlt' hrest⟩

/-- **The range holds the entries whose keys begin with the list.** -/
theorem mem_prefixRange {start : List κ} {m : SortedMap (List κ) α} {e : List κ × α} :
    e ∈ prefixRange start m ↔ e ∈ m.entries ∧ start.isPrefixOf e.1 = true := by
  have hgeneral : ∀ l : List (List κ × α), l.Pairwise (fun a b => a.1 < b.1) →
      (e ∈ (l.dropWhile fun e => decide (e.1 < start)).takeWhile (fun e => start.isPrefixOf e.1) ↔
        e ∈ l ∧ start.isPrefixOf e.1 = true) := by
    intro l
    induction l with
    | nil => simp
    | cons a l ih =>
      intro hsorted
      obtain ⟨hfirst, hrest⟩ := List.pairwise_cons.mp hsorted
      by_cases hlow : a.1 < start
      · -- `a` comes before the range
        rw [List.dropWhile_cons_of_pos (by simpa using hlow), ih hrest]
        refine ⟨fun h => ⟨List.mem_cons_of_mem _ h.1, h.2⟩, fun h => ⟨?_, h.2⟩⟩
        rcases List.mem_cons.mp h.1 with rfl | hmem
        · exact absurd hlow (not_lt_of_isPrefixOf h.2)
        · exact hmem
      · rw [List.dropWhile_cons_of_neg (by simpa using hlow), List.takeWhile_cons]
        by_cases hpre : start.isPrefixOf a.1 = true
        · have hall : l.dropWhile (fun e => decide (e.1 < start)) = l := by
            cases l with
            | nil => rfl
            | cons b l =>
              have hlt : ¬ b.1 < start := fun h => hlow (lt_trans (hfirst b List.mem_cons_self) h)
              exact List.dropWhile_cons_of_neg (by simpa using hlt)
          have hih := ih hrest
          rw [hall] at hih
          rw [hpre, List.mem_cons]
          show e ∈ a :: l.takeWhile _ ↔ _
          rw [List.mem_cons, hih]
          constructor
          · rintro (rfl | h)
            · exact ⟨.inl rfl, hpre⟩
            · exact ⟨.inr h.1, h.2⟩
          · rintro ⟨rfl | h, hp⟩
            · exact .inl rfl
            · exact .inr ⟨h, hp⟩
        · rw [Bool.eq_false_of_not_eq_true hpre]
          refine ⟨fun h => absurd h List.not_mem_nil, fun h => ?_⟩
          rcases List.mem_cons.mp h.1 with rfl | hmem
          · exact absurd h.2 hpre
          · exact absurd (isPrefixOf_of_between hlow (hfirst e hmem) h.2) hpre
  exact hgeneral m.entries m.sorted

end SentryUsb.Library
