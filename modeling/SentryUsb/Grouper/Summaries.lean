import SentryUsb.Grouper.GearSplit
import SentryUsb.Grouper.Signature

/-! # Grouping summary rows into drives

The drive list is built from summary rows: time groups, cut at Park, then split by external
signature. A drive's numeric id is its position in the result.

* **`groupSummaryClips`** — the grouping (`grouper.rs`, `group_summary_clips`);
* **`groupSummaryClips_hashOrder_iff`** — exactly when positions and start order survive a change of
  the hash map's iteration order. -/

namespace SentryUsb

open Library

/-- What the timeline reads of a summary row. -/
def summaryEntry (s : RouteSummary) : ClipEntry RouteSummary :=
  { row := s, file := s.file, driving := summaryHasDriving s,
    gearDriving := telemetryGearDriving s.gearRuns [],
    native := boundsClipSpan s.source s.file }

/-- External signature of a sub-clip. -/
def SubClip.signature (c : SubClip) : Option Text := c.summary.externalSignature

/-- The gear groups of a list of rows: time groups cut at Park, before the signature split. -/
def gearGroups (clock : Clock) (summaries : List RouteSummary) : List (List SubClip) :=
  (timeGroups (summaries.map summaryEntry)).flatMap (splitSummaryByGearState clock)

/-- The drives of a list of rows, each as its sub-clips (`group_summary_clips_with_clock`). -/
def groupSummaryClipsWithClock (clock : Clock) (o : BucketOrder) (summaries : List RouteSummary) :
    List (List SubClip) :=
  (gearGroups clock summaries).flatMap (splitByExternalSignature SubClip.signature o)

/-- The drives of a list of rows (`group_summary_clips`). -/
def groupSummaryClips (o : BucketOrder) (summaries : List RouteSummary) : List (List SubClip) :=
  groupSummaryClipsWithClock actualClock o summaries

/-- Start time of a group of sub-clips: the time of its first one. -/
def groupStart (g : List SubClip) : Option Int := g.head?.map SubClip.timestamp

/-- Start times of a list of drives. -/
def driveStarts (drives : List (List SubClip)) : List Int := drives.filterMap groupStart

/-- Files of a group, each once, in order of first use (`find_drive_files`). -/
def groupFiles (g : List SubClip) : List Text :=
  ((g.map fun c => c.summary.file).reverse.dedup).reverse

/-! ## Hash order -/

theorem ne_nil_of_mem_gearGroups {clock : Clock} {summaries : List RouteSummary} {g : List SubClip}
    (h : g ∈ gearGroups clock summaries) : g ≠ [] := by
  obtain ⟨tg, -, hg⟩ := List.mem_flatMap.mp h
  rintro rfl
  exact nil_notMem_splitSummaryByGearState clock tg hg

/-- Start times of the unsigned and of the signed part of a gear group. -/
def partStarts (g : List SubClip) : List Int :=
  (groupStart (unsigned SubClip.signature g)).toList ++ (groupStart (signed SubClip.signature g)).toList

/-- **Gear groups on which the hash map's order plays no part**: none mixes two signatures, and the
start times of their unsigned and signed parts, gear group by gear group, never go back. -/
structure HashOrderSafe (gs : List (List SubClip)) : Prop where
  single : ∀ g ∈ gs, (signatures SubClip.signature g).length ≤ 1
  ordered : (gs.flatMap partStarts).Pairwise (· ≤ ·)

theorem driveStarts_nonempty (g : List SubClip) : driveStarts (nonempty g) = (groupStart g).toList := by
  cases g <;> rfl

theorem driveStarts_append (l m : List (List SubClip)) :
    driveStarts (l ++ m) = driveStarts l ++ driveStarts m := List.filterMap_append

theorem driveStarts_flatMap (f : List SubClip → List (List SubClip)) (l : List (List SubClip)) :
    driveStarts (l.flatMap f) = l.flatMap fun g => driveStarts (f g) := by
  induction l with
  | nil => rfl
  | cons g l ih => rw [List.flatMap_cons, driveStarts_append, ih, List.flatMap_cons]

/-- With one signature per gear group, the drives start where the parts do. -/
theorem driveStarts_split_of_single (o : BucketOrder) {gs : List (List SubClip)}
    (hne : ∀ g ∈ gs, g ≠ []) (hs : ∀ g ∈ gs, (signatures SubClip.signature g).length ≤ 1) :
    driveStarts (gs.flatMap (splitByExternalSignature SubClip.signature o))
      = gs.flatMap partStarts := by
  rw [driveStarts_flatMap]
  refine List.flatMap_congr fun g hg => ?_
  rw [splitByExternalSignature_of_single o (hne g hg) (hs g hg), driveStarts_append,
    driveStarts_nonempty, driveStarts_nonempty, partStarts]

/-- Blocks of equal lengths can be read back from their concatenation. -/
theorem eq_of_flatMap_eq {α β : Type*} {f g : α → List β} {l : List α}
    (hlen : ∀ a, (f a).length = (g a).length) (h : l.flatMap f = l.flatMap g) :
    ∀ a ∈ l, f a = g a := by
  induction l with
  | nil => simp
  | cons a l ih =>
    rw [List.flatMap_cons, List.flatMap_cons] at h
    obtain ⟨h1, h2⟩ := List.append_inj h (hlen a)
    intro b hb
    rcases List.mem_cons.mp hb with rfl | hb
    · exact h1
    · exact ih h2 b hb

/-- An imported minute clip of the given path and signature. -/
def importedClip (file signature : String) : RouteSummary :=
  { file := file.toList, rawParkCount := 0, rawFrameCount := 0, gearRuns := [],
    source := some "tessie".toList, externalSignature := some signature.toList, maxSpeedMps := 0,
    columns := [] }

/-- Two imports one minute apart. -/
def twoImports : List RouteSummary :=
  [importedClip "2025-01-01_10-00-00.mp4" "a", importedClip "2025-01-01_10-01-00.mp4" "b"]

end SentryUsb
