import Mathlib

/-! # Thinning a sorted list of numbers

A sorted list is gone through once, and a number is taken unless it is within a gap of the last one taken. What is taken
is determined by what may be taken: a number is, exactly if everything taken below it is further away than the gap.

* **`Spacing`** — this relation between what may be taken and what is;
* **`spacing_takeSpaced`** — the loop meets it;
* **`Spacing.agree`** — two thinnings agree wherever they may take the same, as far as the gap reaches. -/

namespace SentryUsb.Library

/-- What may be taken is taken, unless something taken is within the gap below. -/
def Spacing (gap : Int) (May Taken : Int → Prop) : Prop :=
  ∀ t, Taken t ↔ May t ∧ ∀ u, Taken u → u < t → gap < t - u

/-- The loop over a list, comparing with the last one taken. -/
def takeSpaced (gap : Int) (l : List Int) : List Int :=
  l.foldl (fun taken t => if taken.getLast?.any fun u => decide (t - u ≤ gap) then taken else taken ++ [t]) []

variable {gap : Int}

/-- **One number more**, not below those before it. -/
theorem Spacing.step {l taken : List Int} {t : Int} (hgap : 0 ≤ gap) (hincreasing : taken.Pairwise (· < ·))
    (hsub : ∀ u ∈ taken, u ∈ l) (hlast : ∀ u ∈ l, u ≤ t) (h : Spacing gap (· ∈ l) (· ∈ taken)) :
    (if taken.getLast?.any fun u => decide (t - u ≤ gap) then taken else taken ++ [t]).Pairwise (· < ·)
      ∧ Spacing gap (· ∈ l ++ [t])
        (· ∈ if taken.getLast?.any fun u => decide (t - u ≤ gap) then taken else taken ++ [t]) := by
  -- the last one taken is the greatest
  have hnear : taken.getLast?.any (fun u => decide (t - u ≤ gap)) = true ↔ ∃ u ∈ taken, t - u ≤ gap := by
    rcases List.eq_nil_or_concat taken with rfl | ⟨front, last, rfl⟩
    · simp
    · rw [List.concat_eq_append] at hincreasing ⊢
      rw [List.getLast?_concat, Option.any_some, decide_eq_true_eq]
      constructor
      · exact fun hle => ⟨last, by simp, hle⟩
      · rintro ⟨u, hu, hle⟩
        rcases List.mem_append.mp hu with hu | hu
        · have := (List.pairwise_append.mp hincreasing).2.2 u hu last (by simp)
          omega
        · rw [List.mem_singleton.mp hu] at hle
          exact hle
  by_cases hskip : taken.getLast?.any (fun u => decide (t - u ≤ gap)) = true
  · rw [if_pos hskip]
    refine ⟨hincreasing, fun s => ?_⟩
    obtain ⟨u, hu, hle⟩ := hnear.mp hskip
    have hut := hlast u (hsub u hu)
    constructor
    · exact fun hs => ⟨List.mem_append_left _ (hsub s hs), ((h s).mp hs).2⟩
    · rintro ⟨hs, hfar⟩
      rcases List.mem_append.mp hs with hs | hs
      · exact (h s).mpr ⟨hs, hfar⟩
      · -- the number itself: it is the one taken within the gap
        obtain rfl := List.mem_singleton.mp hs
        rcases lt_or_eq_of_le hut with hlt | rfl
        · have := hfar u hu hlt
          omega
        · exact hu
  · rw [if_neg hskip]
    have hfar : ∀ u ∈ taken, gap < t - u := fun u hu => by
      by_contra hle
      exact hskip (hnear.mpr ⟨u, hu, by omega⟩)
    refine ⟨?_, fun s => ?_⟩
    · refine List.pairwise_append.mpr ⟨hincreasing, List.pairwise_singleton _ _, fun u hu s hs => ?_⟩
      have := hfar u hu
      rw [List.mem_singleton.mp hs]
      omega
    · constructor
      · intro hs
        rcases List.mem_append.mp hs with hs | hs
        · refine ⟨List.mem_append_left _ (hsub s hs), fun u hu hlt => ?_⟩
          rcases List.mem_append.mp hu with hu | hu
          · exact ((h s).mp hs).2 u hu hlt
          · have := hlast s (hsub s hs)
            rw [List.mem_singleton.mp hu] at hlt
            omega
        · refine ⟨List.mem_append_right _ hs, fun u hu hlt => ?_⟩
          obtain rfl := List.mem_singleton.mp hs
          rcases List.mem_append.mp hu with hu | hu
          · exact hfar u hu
          · rw [List.mem_singleton.mp hu] at hlt
            exact absurd hlt (lt_irrefl _)
      · rintro ⟨hs, hall⟩
        rcases List.mem_append.mp hs with hs | hs
        · exact List.mem_append_left _ ((h s).mpr ⟨hs, fun u hu => hall u (List.mem_append_left _ hu)⟩)
        · exact List.mem_append_right _ hs

/-- **The loop thins a sorted list**, and what it takes is in order. -/
theorem spacing_takeSpaced (hgap : 0 ≤ gap) {l : List Int} (hl : l.Pairwise (· ≤ ·)) :
    (takeSpaced gap l).Pairwise (· < ·) ∧ Spacing gap (· ∈ l) (· ∈ takeSpaced gap l) := by
  induction l using List.reverseRecOn with
  | nil => exact ⟨List.Pairwise.nil, fun t => by simp [takeSpaced]⟩
  | append_singleton l t ih =>
    obtain ⟨hfront, -, hcross⟩ := List.pairwise_append.mp hl
    obtain ⟨hincreasing, hspacing⟩ := ih hfront
    have hsub : ∀ u ∈ takeSpaced gap l, u ∈ l := fun u hu => ((hspacing u).mp hu).1
    have hstep := Spacing.step hgap hincreasing hsub (fun u hu => hcross u hu t (by simp)) hspacing
    rw [takeSpaced, List.foldl_append]
    exact hstep

/-- **Two thinnings agree where they may take the same**: on a set of numbers that holds whatever either takes within the
gap below one of its numbers. -/
theorem Spacing.agree {May Taken May' Taken' In : Int → Prop} (h : Spacing gap May Taken) (h' : Spacing gap May' Taken')
    (hmay : ∀ t, In t → (May t ↔ May' t))
    (hbelow : ∀ t u, In t → May t → u < t → t - u ≤ gap → Taken u ∨ Taken' u → In u)
    {least : Int} (hleast : ∀ t, May t → least ≤ t) : ∀ t, In t → (Taken t ↔ Taken' t) := by
  -- by induction on the distance from the least number
  have hgeneral : ∀ (n : Nat) (t : Int), (t - least).toNat < n → In t → (Taken t ↔ Taken' t) := by
    intro n
    induction n with
    | zero => exact fun t hlt => absurd hlt (Nat.not_lt_zero _)
    | succ n ih =>
      intro t hlt hin
      rw [h t, h' t, ← hmay t hin]
      refine and_congr_right fun hmayt => ?_
      have hboth : ∀ u, u < t → t - u ≤ gap → Taken u ∨ Taken' u → (Taken u ↔ Taken' u) := by
        intro u hu hle htaken
        have hinu := hbelow t u hin hmayt hu hle htaken
        have hmayu : May u := htaken.elim (fun hu => ((h u).mp hu).1) fun hu => (hmay u hinu).mpr ((h' u).mp hu).1
        have := hleast u hmayu
        exact ih u (by omega) hinu
      constructor
      · intro hfar u hu hlt
        by_contra hle
        exact hle (hfar u ((hboth u hlt (by omega) (.inr hu)).mpr hu) hlt)
      · intro hfar u hu hlt
        by_contra hle
        exact hle (hfar u ((hboth u hlt (by omega) (.inl hu)).mp hu) hlt)
  exact fun t hin => hgeneral _ t (Nat.lt_succ_self _) hin

end SentryUsb.Library
