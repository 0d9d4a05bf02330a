import Mathlib

/-! # Looking a point up among intervals

Half-open intervals are sorted by where they start. A point is looked up in the last one that starts at or before it.

* **`holdingAt`** — the lookup;
* **`Holds`** — an interval holds a point;
* **`holdingAt_of_spaced`** — the lookup finds the interval where each ends before the next one starts;
* **`exists_missed`** — and misses one otherwise, even of disjoint intervals: an empty one stands inside another. -/

namespace SentryUsb.Library

variable {α β : Type*} [LinearOrder β] {start stop : α → β}

/-- The interval of `a` holds a point. -/
def Holds (start stop : α → β) (a : α) (q : β) : Prop := start a ≤ q ∧ q < stop a

/-- The last interval that starts at or before a point, if it holds the point. -/
def holdingAt (start stop : α → β) (l : List α) (q : β) : Option α :=
  (l.takeWhile fun a => decide (start a ≤ q)).getLast?.filter fun a => decide (q < stop a)

/-- Each interval ends before the ones after it start. -/
def Spaced (start stop : α → β) (l : List α) : Prop := l.Pairwise fun a b => stop a ≤ start b

/-- No point is in two of the intervals. -/
def Apart (start stop : α → β) (l : List α) : Prop :=
  l.Pairwise fun a b => ∀ q, Holds start stop a q → ¬ Holds start stop b q

theorem mem_of_getLast?_takeWhile {l : List α} {p : α → Bool} {a : α} (h : a ∈ (l.takeWhile p).getLast?) :
    a ∈ l ∧ p a = true := by
  have hmem : a ∈ l.takeWhile p := List.mem_of_getLast? h
  exact ⟨(List.takeWhile_sublist p).subset hmem, List.mem_takeWhile_imp hmem⟩

/-- What is found holds the point. -/
theorem holds_of_holdingAt {l : List α} {q : β} {a : α} (h : holdingAt start stop l q = some a) :
    a ∈ l ∧ Holds start stop a q := by
  obtain ⟨hlast, hstop⟩ := Option.filter_eq_some_iff.mp h
  obtain ⟨hmem, hstart⟩ := mem_of_getLast?_takeWhile hlast
  exact ⟨hmem, of_decide_eq_true hstart, of_decide_eq_true hstop⟩

theorem holdingAt_eq_none {l : List α} {q : β} (h : ∀ a ∈ l, ¬ Holds start stop a q) :
    holdingAt start stop l q = none := by
  cases hfound : holdingAt start stop l q with
  | none => rfl
  | some a =>
    obtain ⟨hmem, hholds⟩ := holds_of_holdingAt hfound
    exact absurd hholds (h a hmem)

/-- **The lookup finds the interval** that holds the point. -/
theorem holdingAt_of_spaced {l : List α} {q : β} {a : α} (hsorted : l.Pairwise fun a b => start a ≤ start b)
    (hspaced : Spaced start stop l) (hmem : a ∈ l) (hholds : Holds start stop a q) :
    holdingAt start stop l q = some a := by
  obtain ⟨before, after, rfl⟩ := List.append_of_mem hmem
  -- all up to the interval start in time, and none after it does
  have hbefore : ∀ b ∈ before, decide (start b ≤ q) = true := fun b hb =>
    decide_eq_true ((((List.pairwise_append.mp hsorted).2.2 b hb a) List.mem_cons_self).trans hholds.1)
  have hafter : after.takeWhile (fun b => decide (start b ≤ q)) = [] := by
    cases after with
    | nil => rfl
    | cons b after =>
      have hnext : stop a ≤ start b :=
        (List.pairwise_cons.mp (List.pairwise_append.mp hspaced).2.1).1 b List.mem_cons_self
      have hlate : ¬ start b ≤ q := not_le.mpr (hholds.2.trans_le hnext)
      rw [List.takeWhile_cons, if_neg (by rwa [decide_eq_true_eq])]
  have htaken : (before ++ a :: after).takeWhile (fun b => decide (start b ≤ q)) = before ++ [a] := by
    rw [List.takeWhile_append_of_pos hbefore, List.takeWhile_cons, if_pos (decide_eq_true hholds.1), hafter]
  rw [holdingAt, htaken, List.getLast?_concat, Option.filter_some, if_pos (decide_eq_true hholds.2)]

/-- **An interval that reaches over the start of a later one is missed** there. -/
theorem exists_missed {l : List α} (hsorted : l.Pairwise fun a b => start a ≤ start b) (hapart : Apart start stop l)
    (hspaced : ¬ Spaced start stop l) :
    ∃ a ∈ l, ∃ b ∈ l, Holds start stop a (start b) ∧ holdingAt start stop l (start b) = none := by
  induction l with
  | nil => exact absurd List.Pairwise.nil hspaced
  | cons x l ih =>
    obtain ⟨hfirst, hsorted⟩ := List.pairwise_cons.mp hsorted
    obtain ⟨halone, hapart⟩ := List.pairwise_cons.mp hapart
    -- the last that starts in time is not the first one, where a later one does
    have hlast : ∀ b ∈ l, (List.takeWhile (fun a => decide (start a ≤ start b)) (x :: l)).getLast?
        = (l.takeWhile fun a => decide (start a ≤ start b)).getLast? := fun b hb => by
      rw [List.takeWhile_cons, if_pos (decide_eq_true (hfirst b hb))]
      cases l with
      | nil => exact absurd hb List.not_mem_nil
      | cons y l =>
        have hy : start y ≤ start b := by
          rcases List.mem_cons.mp hb with rfl | hb
          · exact le_rfl
          · exact (List.pairwise_cons.mp hsorted).1 b hb
        rw [List.takeWhile_cons, if_pos (decide_eq_true hy)]
        rfl
    by_cases hrest : Spaced start stop l
    · -- the first one reaches over a start
      have hover : ∃ b ∈ l, ¬ stop x ≤ start b := by
        by_contra hnone
        exact hspaced (List.pairwise_cons.mpr ⟨fun b hb => by_contra fun h => hnone ⟨b, hb, h⟩, hrest⟩)
      obtain ⟨b, hb, hover⟩ := hover
      have hx : Holds start stop x (start b) := ⟨hfirst b hb, not_le.mp hover⟩
      refine ⟨x, List.mem_cons_self, b, List.mem_cons_of_mem x hb, hx, ?_⟩
      rw [holdingAt, hlast b hb]
      exact holdingAt_eq_none fun y hy => halone y hy (start b) hx
    · obtain ⟨a, ha, b, hb, hholds, hnone⟩ := ih hsorted hapart hrest
      refine ⟨a, List.mem_cons_of_mem x ha, b, List.mem_cons_of_mem x hb, hholds, ?_⟩
      rw [holdingAt, hlast b hb]
      exact hnone

end SentryUsb.Library
