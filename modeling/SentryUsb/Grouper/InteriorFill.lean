import SentryUsb.Grouper.GapFillSuperset
import SentryUsb.Library.Spacing

/-! # Event clips for playback

Playback shows the event clips that lie strictly inside a fillable hole of the recent timeline, parked or not.

* **`selectInteriorFill`** — the selection (`grouper.rs`, `select_interior_fill`);
* **`spacing_keptTimes`** — the times the thinning keeps are a thinning of the times that are not occupied;
* **`mem_times_selectInteriorFill`** — the times selected. -/

namespace SentryUsb

open Library

/-- Event clips strictly inside a hole, without the driving gate (`select_interior_fill`). -/
def selectInteriorFill (recents : List Int) (clips : List (Int × Text)) : List (GapFillCandidate Unit) :=
  if recents.isEmpty || clips.isEmpty then []
  else
    let holes := fillableHoles recents
    if holes.isEmpty then []
    else (dedupCandidates recents (withoutTelemetry clips)).filter fun c => inHoles holes c.ts

/-- The times the thinning keeps. -/
def keptTimes (recents : List Int) (clips : List (Int × Text)) : List Int :=
  (dedupCandidates recents (withoutTelemetry clips)).map GapFillCandidate.ts

variable {recents : List Int} {clips : List (Int × Text)}

/-- Nothing is in a hole where there is none, so the shortcuts change nothing. -/
theorem selectInteriorFill_eq (recents : List Int) (clips : List (Int × Text)) :
    selectInteriorFill recents clips
      = (dedupCandidates recents (withoutTelemetry clips)).filter fun c => inHoles (fillableHoles recents) c.ts := by
  have hnone : ∀ l : List (GapFillCandidate Unit), l.filter (fun c => inHoles [] c.ts) = [] := fun l =>
    List.filter_eq_nil_iff.mpr fun _ _ => by simp [inHoles, lastWhile]
  unfold selectInteriorFill
  split
  · rename_i hempty
    rcases Bool.or_eq_true_iff.mp hempty with hempty | hempty
    · rw [List.isEmpty_iff.mp hempty]
      exact (hnone _).symm
    · rw [List.isEmpty_iff.mp hempty]
      rfl
  · dsimp only
    split
    · rename_i hempty
      rw [List.isEmpty_iff.mp hempty]
      exact (hnone _).symm
    · rfl

/-- Keeping candidates by their times. -/
theorem map_ts_keepSpaced {ρ : Type*} (taken : List Int) (l : List (GapFillCandidate ρ)) :
    (l.map GapFillCandidate.ts).foldl (fun taken t =>
        if taken.getLast?.any fun u => decide (t - u ≤ gapFillDupMs) then taken else taken ++ [t]) taken
      = taken ++ (keepSpaced taken.getLast? l).map GapFillCandidate.ts := by
  induction l generalizing taken with
  | nil => simp [keepSpaced]
  | cons c cs ih =>
    rw [List.map_cons, List.foldl_cons, ih, keepSpaced]
    split
    · rfl
    · rw [List.getLast?_concat, List.map_cons, List.append_assoc]
      rfl

/-- **The times kept are a thinning** of the times that are not occupied. -/
theorem spacing_keptTimes (hrecents : recents.Pairwise (· ≤ ·)) (clips : List (Int × Text)) :
    Spacing gapFillDupMs (fun t => t ∈ clips.map Prod.fst ∧ ¬ Occupied recents t) (· ∈ keptTimes recents clips) := by
  have hsorted := pairwise_ts_insertionSort ((withoutTelemetry clips).filter fun c => !dupOfRecent recents c.ts)
  have hspacing := (@spacing_takeSpaced gapFillDupMs (by decide) _ (List.pairwise_map.mpr hsorted)).2
  have hkept : keptTimes recents clips = takeSpaced gapFillDupMs
      ((((withoutTelemetry clips).filter fun c => !dupOfRecent recents c.ts).insertionSort GapFillCandidate.le).map
        GapFillCandidate.ts) := (map_ts_keepSpaced [] _).symm
  have hmay : ∀ t, t ∈ (((withoutTelemetry clips).filter fun c => !dupOfRecent recents c.ts).insertionSort
      GapFillCandidate.le).map GapFillCandidate.ts ↔ t ∈ clips.map Prod.fst ∧ ¬ Occupied recents t := by
    intro t
    have hdup : dupOfRecent recents t = true ↔ Occupied recents t := dupOfRecent_iff hrecents t
    rw [List.mem_map, List.mem_map]
    constructor
    · rintro ⟨c, hc, rfl⟩
      obtain ⟨hc, hnot⟩ := List.mem_filter.mp ((List.mem_insertionSort _).mp hc)
      obtain ⟨p, hp, rfl⟩ := List.mem_map.mp hc
      refine ⟨⟨p, hp, rfl⟩, fun hoccupied => ?_⟩
      rw [hdup.mpr hoccupied] at hnot
      exact absurd hnot (by simp)
    · rintro ⟨⟨p, hp, rfl⟩, hfree⟩
      refine ⟨⟨(), p.1, p.2, none, false⟩, (List.mem_insertionSort _).mpr (List.mem_filter.mpr ⟨?_, ?_⟩), rfl⟩
      · exact List.mem_map.mpr ⟨p, hp, rfl⟩
      · rw [Bool.not_eq_true', Bool.eq_false_iff]
        exact fun hd => hfree (hdup.mp hd)
  intro t
  rw [hkept]
  exact (hspacing t).trans (and_congr_left fun _ => hmay t)

/-- **The times selected** are those kept that lie in a hole. -/
theorem mem_times_selectInteriorFill (hrecents : recents.Pairwise (· ≤ ·)) {t : Int} :
    (∃ c ∈ selectInteriorFill recents clips, c.ts = t) ↔ t ∈ keptTimes recents clips ∧ InHole recents t := by
  rw [selectInteriorFill_eq, keptTimes, List.mem_map]
  constructor
  · rintro ⟨c, hc, rfl⟩
    obtain ⟨hc, hhole⟩ := List.mem_filter.mp hc
    exact ⟨⟨c, hc, rfl⟩, (inHoles_iff hrecents).mp hhole⟩
  · rintro ⟨⟨c, hc, rfl⟩, hhole⟩
    exact ⟨c, List.mem_filter.mpr ⟨hc, (inHoles_iff hrecents).mpr hhole⟩, rfl⟩

end SentryUsb
