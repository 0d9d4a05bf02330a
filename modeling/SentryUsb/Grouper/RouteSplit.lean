import SentryUsb.Grouper.GearSplit
import SentryUsb.Grouper.Signature

/-! # Grouping full rows into drives

The map overview and the drive page work on full rows. Their split differs from the summary one: a
clip cut at Park gaps is sliced into rows with their own points, a piece without points is dropped,
and a group that is parked throughout passes through unsplit.

* **`planClipAtParkGaps`** — the point ranges of a clip cut at Park gaps (`grouper.rs`,
  `plan_clip_at_park_gaps`), with **`range_of_mem_planClipAtParkGaps`**: every range is non-empty and
  within the points;
* **`splitByGearState`** — the split (`split_by_gear_state`);
* **`groupClips`** — the grouping (`group_clips`). -/

namespace SentryUsb

open Library

/-! ## Slicing a clip -/

/-- One planned fragment of a clip: a point range with its time offset and span, or a Park
boundary. -/
structure PlannedSeg where
  start : Nat
  stop : Nat
  offsetMs : Int
  spanMs : Int
  parked : Bool

/-- Point index of a frame boundary: its share of the frames, scaled to the points and rounded. -/
def pointIndex (frame total nPoints : Nat) : Nat :=
  (frame.toFloat / total.toFloat * nPoints.toFloat).round.toUInt64.toNat

/-- Clamp a point range to the points: a range always keeps at least one point, and is `none` only
when there is no point at all. -/
def clampRange (rawStart rawStop nPoints : Nat) : Option (Nat × Nat) :=
  let start := if nPoints ≤ rawStart then nPoints - 1 else rawStart
  let stop := if min rawStop nPoints ≤ start then start + 1 else min rawStop nPoints
  if nPoints < stop then none else some (start, stop)

/-- Point range of a driving segment. -/
def segRange (seg : FrameSeg) (total nPoints : Nat) : Option (Nat × Nat) :=
  clampRange (pointIndex seg.start total nPoints) (pointIndex seg.stop total nPoints) nPoints

/-- The planned fragment of a segment, if it has one. -/
def planSeg (total nPoints : Nat) (spanMs : Int) (seg : FrameSeg) : Option PlannedSeg :=
  if seg.parked then some ⟨0, 0, 0, 0, true⟩
  else (segRange seg total nPoints).map fun range =>
    ⟨range.1, range.2, frameOffsetMs seg.start total spanMs,
      frameSpanMs seg.start seg.stop total spanMs, false⟩

/-- The fragments of a clip cut at its Park gaps; `none` when the clip stays whole
(`plan_clip_at_park_gaps`). -/
def planClipAtParkGaps (runs : List GearRun) (nPoints : Nat) (spanMs : Int) :
    Option (List PlannedSeg) :=
  if frameSum runs = 0 then none
  else
    let merged := clipSegs actualClock runs spanMs
    if !merged.any FrameSeg.parked then none
    else some (merged.filterMap (planSeg (frameSum runs) nPoints spanMs))

/-- A planned range is non-empty and within the points. -/
theorem clampRange_bounds {a b nPoints : Nat} {range : Nat × Nat}
    (h : clampRange a b nPoints = some range) : range.1 < range.2 ∧ range.2 ≤ nPoints := by
  simp only [clampRange] at h
  generalize (if nPoints ≤ a then nPoints - 1 else a) = start at h
  by_cases hstop : min b nPoints ≤ start
  · rw [if_pos hstop] at h
    split at h
    · simp at h
    · obtain rfl := Option.some.inj h
      simp only
      omega
  · rw [if_neg hstop] at h
    split at h
    · simp at h
    · obtain rfl := Option.some.inj h
      simp only
      omega

/-- A clip with points gives every driving segment a range. -/
theorem clampRange_isSome {a b nPoints : Nat} (h : 0 < nPoints) :
    (clampRange a b nPoints).isSome = true := by
  have hstart : (if nPoints ≤ a then nPoints - 1 else a) < nPoints := by split <;> omega
  simp only [clampRange]
  generalize (if nPoints ≤ a then nPoints - 1 else a) = start at hstart ⊢
  by_cases hstop : min b nPoints ≤ start
  · rw [if_pos hstop, if_neg (by omega)]
    rfl
  · rw [if_neg hstop, if_neg (by omega)]
    rfl

theorem range_of_mem_planClipAtParkGaps {runs : List GearRun} {nPoints : Nat} {spanMs : Int}
    {plan : List PlannedSeg} (hplan : planClipAtParkGaps runs nPoints spanMs = some plan)
    {seg : PlannedSeg} (hseg : seg ∈ plan) (hp : seg.parked = false) :
    seg.start < seg.stop ∧ seg.stop ≤ nPoints := by
  simp only [planClipAtParkGaps] at hplan
  split at hplan
  · simp at hplan
  · split at hplan
    · simp at hplan
    · obtain rfl := Option.some.inj hplan
      obtain ⟨fs, -, hfs⟩ := List.mem_filterMap.mp hseg
      unfold planSeg at hfs
      split at hfs
      · obtain rfl := Option.some.inj hfs
        simp at hp
      · obtain ⟨range, hrange, rfl⟩ := Option.map_eq_some_iff.mp hfs
        exact clampRange_bounds hrange

/-- The entries `start..stop` of an array. -/
def slice {α : Type*} (l : List α) (start stop : Nat) : List α := (l.take stop).drop start

/-- The same of an array that may be shorter than the points; a short one is dropped. -/
def sliceIfLong {α : Type*} (l : List α) (start stop : Nat) : List α :=
  if stop ≤ l.length then slice l start stop else []

theorem slice_ne_nil {α : Type*} {l : List α} {start stop : Nat} (h : start < stop)
    (hl : stop ≤ l.length) : slice l start stop ≠ [] := by
  intro hnil
  have := congrArg List.length hnil
  simp only [slice, List.length_drop, List.length_take, List.length_nil] at this
  omega

@[simp] theorem slice_zero_length {α : Type*} (l : List α) : slice l 0 l.length = l := by
  simp [slice]

/-- The row of one fragment: its own points, no gear runs, the parent's other columns. -/
def Route.slice (r : Route) (start stop : Nat) : Route :=
  { r with
    points := SentryUsb.slice r.points start stop
    gearStates := sliceIfLong r.gearStates start stop
    autopilotStates := sliceIfLong r.autopilotStates start stop
    speeds := sliceIfLong r.speeds start stop
    accelPositions := sliceIfLong r.accelPositions start stop
    accelX := sliceIfLong r.accelX start stop
    accelY := sliceIfLong r.accelY start stop
    rawParkCount := 0
    rawFrameCount := 0
    gearRuns := [] }

/-- The timed fragment of a planned segment; `none` is a Park boundary. -/
def fragment (clip : Timed Route) (seg : PlannedSeg) : Option (Timed Route) :=
  if seg.parked then none
  else some ⟨clip.row.slice seg.start seg.stop, clip.timestamp + seg.offsetMs, seg.spanMs⟩

/-- A clip cut at its Park gaps (`split_clip_at_park_gaps`). -/
def splitClipAtParkGaps (clip : Timed Route) : List (Option (Timed Route)) :=
  match planClipAtParkGaps clip.row.gearRuns clip.row.points.length clip.clipSpanMs with
  | none => [some clip]
  | some plan => plan.map (fragment clip)

/-! ## Splitting a group -/

/-- Majority Park of a clip without gear runs (`mostly_parked_legacy_core`). -/
def mostlyParkedLegacyCore (rawParkCount rawFrameCount gearParkCount gearStatesLen : Nat) : Bool :=
  if 0 < rawFrameCount then rawMostlyPark rawParkCount rawFrameCount
  else if gearStatesLen = 0 then false
  else decide (gearStatesLen / 2 < gearParkCount)

/-- Frames in Park among the per-point gear states. -/
def parkCount (states : List Nat) : Nat := (states.filter fun g => g == gearPark).length

/-- `clip_is_mostly_parked_legacy`. -/
def clipIsMostlyParkedLegacy (r : Route) : Bool :=
  mostlyParkedLegacyCore r.rawParkCount r.rawFrameCount (parkCount r.gearStates) r.gearStates.length

/-- Clip-level fallback for groups without gear runs (`split_by_gear_state_legacy`). -/
def splitByGearStateLegacy (group : List (Timed Route)) : List (List (Timed Route)) :=
  if group.length ≤ 1 then [group]
  else if group.all fun t => t.row.gearStates.isEmpty then [group]
  else cut (group.map fun t => if clipIsMostlyParkedLegacy t.row then none else some t)

/-- What a clip contributes to the stream of a gear group. A clip without gear runs is kept as it
is; a piece of any other clip only if it has points. -/
def gearEvents (clip : Timed Route) : List (Option (Timed Route)) :=
  if clip.row.gearRuns.isEmpty then [some clip]
  else (splitClipAtParkGaps clip).filter fun e => e.all fun seg => !seg.row.points.isEmpty

/-- Split a time group at Park gaps (`split_by_gear_state`). A group that is parked throughout is
returned as it is. -/
def splitByGearState (group : List (Timed Route)) : List (List (Timed Route)) :=
  if group.isEmpty then []
  else if group.all fun t => t.row.gearRuns.isEmpty then splitByGearStateLegacy group
  else
    let result := cut (group.flatMap gearEvents)
    if result.isEmpty then [group] else result

/-- What the timeline reads of a full row. -/
def routeEntry (r : Route) : ClipEntry Route :=
  { row := r, file := r.file, driving := routeHasDriving r,
    gearDriving := telemetryGearDriving r.gearRuns [],
    native := boundsClipSpan r.source r.file }

/-- External signature of a timed full row. -/
def routeSignature (t : Timed Route) : Option Text := t.row.externalSignature

/-- The drives of a list of full rows (`group_clips`). -/
def groupClips (o : BucketOrder) (routes : List Route) : List (List (Timed Route)) :=
  ((timeGroups (routes.map routeEntry)).flatMap splitByGearState).flatMap
    (splitByExternalSignature routeSignature o)

end SentryUsb
