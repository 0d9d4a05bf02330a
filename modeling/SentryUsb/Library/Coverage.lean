import Mathlib

/-! # How often windows cover a number

A window is a half-open range. The numbers two windows share are counted pair by pair; what such a sum says about
covering is the subject here.

* **`sum_overlap`** — shared numbers, summed over windows, count for each number the windows that hold it;
* **`sum_sub_sum_eq_zero_iff`** — a sum of bounded shares is full exactly when each share is;
* **`countP_flatMap_of_key`** — windows of one origin among those of many. -/

namespace SentryUsb.Library

variable {α β κ : Type*}

/-- How many numbers two windows share. -/
def overlap (a b : Nat × Nat) : Nat := min a.2 b.2 - max a.1 b.1

/-- Whether a window holds a number. -/
def holds (w : Nat × Nat) (f : Nat) : Bool := decide (w.1 ≤ f) && decide (f < w.2)

theorem holds_iff {w : Nat × Nat} {f : Nat} : holds w f = true ↔ w.1 ≤ f ∧ f < w.2 := by
  unfold holds
  rw [Bool.and_eq_true, decide_eq_true_eq, decide_eq_true_eq]

/-- The shared numbers are those of the one window that the other holds. -/
theorem overlap_eq_sum (a b : Nat × Nat) :
    overlap a b = ∑ f ∈ Finset.Ico a.1 a.2, if holds b f = true then 1 else 0 := by
  have hcommon : (Finset.Ico a.1 a.2).filter (fun f => holds b f = true)
      = Finset.Ico (max a.1 b.1) (min a.2 b.2) := by
    ext f
    rw [Finset.mem_filter, Finset.mem_Ico, Finset.mem_Ico, holds_iff]
    omega
  rw [← Finset.card_filter, hcommon, Nat.card_Ico]
  rfl

/-- **Double counting.** The numbers a window shares with the windows of a list, summed, count for each number the
windows that hold it. -/
theorem sum_overlap (a : Nat × Nat) (window : α → Nat × Nat) (p : α → Bool) (l : List α) :
    (l.map fun x => if p x = true then overlap a (window x) else 0).sum
      = ∑ f ∈ Finset.Ico a.1 a.2, l.countP fun x => p x && holds (window x) f := by
  induction l with
  | nil => simp
  | cons x l ih =>
    have hstep : ∀ f, (x :: l).countP (fun x => p x && holds (window x) f)
        = (l.countP fun x => p x && holds (window x) f)
          + if p x = true then (if holds (window x) f = true then 1 else 0) else 0 := by
      intro f
      rw [List.countP_cons]
      cases p x <;> simp
    rw [List.map_cons, List.sum_cons, ih, Finset.sum_congr rfl fun f _ => hstep f, Finset.sum_add_distrib, Nat.add_comm]
    by_cases hp : p x = true
    · simp only [hp, if_true, overlap_eq_sum]
    · simp only [hp, if_false, Finset.sum_const_zero, Bool.false_eq_true]

/-- Numbers covered at most once each are all covered exactly when the count is the length of the window. -/
theorem sum_eq_length_iff {a : Nat × Nat} {hits : Nat → Nat} (h : ∀ f, a.1 ≤ f → f < a.2 → hits f ≤ 1) :
    (∑ f ∈ Finset.Ico a.1 a.2, hits f) = a.2 - a.1 ↔ ∀ f, a.1 ≤ f → f < a.2 → hits f = 1 := by
  have hle : ∀ f ∈ Finset.Ico a.1 a.2, hits f ≤ 1 := by
    intro f hf
    rw [Finset.mem_Ico] at hf
    exact h f hf.1 hf.2
  have hlength : (∑ _f ∈ Finset.Ico a.1 a.2, 1) = a.2 - a.1 := by simp
  rw [← hlength, Finset.sum_eq_sum_iff_of_le hle]
  constructor
  · intro hall f hlow hhigh
    exact hall f (Finset.mem_Ico.mpr ⟨hlow, hhigh⟩)
  · intro hall f hf
    rw [Finset.mem_Ico] at hf
    exact hall f hf.1 hf.2

/-- A sum of bounded shares is full exactly when each share is. -/
theorem sum_sub_sum_eq_zero_iff {l : List α} {whole share : α → Nat} (h : ∀ x ∈ l, share x ≤ whole x) :
    (l.map whole).sum - (l.map share).sum = 0 ↔ ∀ x ∈ l, share x = whole x := by
  induction l with
  | nil => simp
  | cons x l ih =>
    have hx := h x List.mem_cons_self
    have hl : ∀ y ∈ l, share y ≤ whole y := fun y hy => h y (List.mem_cons_of_mem _ hy)
    have hsum : (l.map share).sum ≤ (l.map whole).sum := List.sum_le_sum hl
    have ih := ih hl
    rw [List.map_cons, List.map_cons, List.sum_cons, List.sum_cons, List.forall_mem_cons, ← ih]
    omega

/-- Among the items of many origins, those of one key come from the origin of that key. -/
theorem filter_flatMap_of_key {l : List α} {items : α → List β} {key : α → κ} {p : β → Bool}
    (hnodup : (l.map key).Nodup) {x : α} (hx : x ∈ l)
    (hp : ∀ y ∈ l, ∀ b ∈ items y, p b = true → key y = key x) :
    (l.flatMap items).filter p = (items x).filter p := by
  induction l with
  | nil => simp at hx
  | cons y l ih =>
    rw [List.map_cons, List.nodup_cons] at hnodup
    have hp' : ∀ z ∈ l, ∀ b ∈ items z, p b = true → key z = key x :=
      fun z hz => hp z (List.mem_cons_of_mem _ hz)
    rw [List.flatMap_cons, List.filter_append]
    rcases List.mem_cons.mp hx with rfl | hlater
    · -- no later origin has this key
      have hnone : (l.flatMap items).filter p = [] := by
        rw [List.filter_eq_nil_iff]
        intro b hb hpb
        obtain ⟨z, hz, hb⟩ := List.mem_flatMap.mp hb
        exact hnodup.1 (List.mem_map.mpr ⟨z, hz, hp' z hz b hb hpb⟩)
      rw [hnone, List.append_nil]
    · have hnone : (items y).filter p = [] := by
        rw [List.filter_eq_nil_iff]
        intro b hb hpb
        have hkey := hp y List.mem_cons_self b hb hpb
        exact hnodup.1 (hkey ▸ List.mem_map.mpr ⟨x, hlater, rfl⟩)
      rw [hnone, List.nil_append, ih hnodup.2 hlater hp']

/-- And so does their number. -/
theorem countP_flatMap_of_key {l : List α} {items : α → List β} {key : α → κ} {p : β → Bool}
    (hnodup : (l.map key).Nodup) {x : α} (hx : x ∈ l)
    (hp : ∀ y ∈ l, ∀ b ∈ items y, p b = true → key y = key x) :
    (l.flatMap items).countP p = (items x).countP p := by
  rw [List.countP_eq_length_filter, List.countP_eq_length_filter, filter_flatMap_of_key hnodup hx hp]

end SentryUsb.Library
