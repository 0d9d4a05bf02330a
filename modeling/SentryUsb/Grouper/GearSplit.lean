import SentryUsb.Grouper.Timeline
import SentryUsb.Library.CutList

/-! # Splitting a time group at Park

A clip carries its gear as runs of frames. A Park run of at least two seconds ends the current drive,
inside the clip if need be; a group without gear runs falls back to clip-level majorities. Frame
counts are `u32` sums, so they wrap.

* **`splitSummaryByGearState`** — the split over summary rows (`grouper.rs`,
  `split_summary_by_gear_state_with_clock`), producing `SubClip`s;
* **`Clock`** — how frames are turned into time: `actualClock` uses the real clip span, the
  `legacyClock` kept for old drive ids a nominal minute in floating point;
* **`mem_splitSummaryByGearState`** — every sub-clip is a frame window of a clip of the group;
* **`frameOffsetMs_le_span`** — without overflow a frame boundary stays within its clip. -/

namespace SentryUsb

open Library

/-! ## Frames and time -/

/-- `u32` range. -/
def u32Size : Nat := 4294967296

/-- Total frames of the gear runs (`sum::<u32>()`). -/
def frameSum (runs : List GearRun) : Nat := (runs.map GearRun.frames).sum % u32Size

/-- A frame boundary as milliseconds into a clip of the given span, rounded once
(`frame_offset_ms`). -/
def frameOffsetMs (frame total : Nat) (spanMs : Int) : Int :=
  if total = 0 then 0 else ((frame * spanMs.toNat + total / 2) / total : Nat)

/-- Time between two frame boundaries (`frame_span_ms`). -/
def frameSpanMs (start stop total : Nat) (spanMs : Int) : Int :=
  frameOffsetMs stop total spanMs - frameOffsetMs start total spanMs

/-- Whether a run of frames lasts at least the Park gap (`park_gap_frames`). -/
def parkGapFrames (frames total : Nat) (spanMs : Int) : Bool :=
  decide (parkGapMs * total ≤ frames * spanMs.toNat)

/-- How frames of a clip are turned into time. -/
structure Clock where
  parkGap : (frames total : Nat) → (spanMs : Int) → Bool
  offset : (frame total : Nat) → (spanMs : Int) → Int

/-- The clock of every current reader: integer arithmetic over the real clip span. -/
def actualClock : Clock := ⟨parkGapFrames, frameOffsetMs⟩

/-- The retired clock: a nominal minute per clip, in floating point. -/
def legacyClock : Clock :=
  let spf (total : Nat) : Float := 60000.0 / 1000.0 / total.toFloat
  { parkGap := fun frames total _ => decide (2.0 ≤ frames.toFloat * spf total)
    offset := fun frame total _ => (frame.toFloat * spf total * 1000.0).round.toInt64.toInt }

/-- Without overflow, a frame boundary stays within its clip. -/
theorem frameOffsetMs_le_span {frame total : Nat} {spanMs : Int} (hf : frame ≤ total)
    (hs : 0 ≤ spanMs) : frameOffsetMs frame total spanMs ≤ spanMs := by
  unfold frameOffsetMs
  split
  · exact hs
  · next htotal =>
      have hlt : (frame * spanMs.toNat + total / 2) / total < spanMs.toNat + 1 := by
        rw [Nat.div_lt_iff_lt_mul (Nat.pos_of_ne_zero htotal)]
        have hmul : frame * spanMs.toNat ≤ total * spanMs.toNat := Nat.mul_le_mul_right _ hf
        have hcomm : (spanMs.toNat + 1) * total = total * spanMs.toNat + total := by
          rw [Nat.add_mul, Nat.one_mul, Nat.mul_comm]
        omega
      have hcast : ((spanMs.toNat : Nat) : Int) = spanMs := Int.toNat_of_nonneg hs
      generalize (frame * spanMs.toNat + total / 2) / total = q at hlt ⊢
      omega

theorem frameOffsetMs_nonneg (frame total : Nat) (spanMs : Int) :
    0 ≤ frameOffsetMs frame total spanMs := by
  unfold frameOffsetMs
  split
  · exact le_refl 0
  · exact Int.natCast_nonneg _

/-- Frame boundaries keep their order. -/
theorem frameOffsetMs_mono {a b total : Nat} (h : a ≤ b) (spanMs : Int) :
    frameOffsetMs a total spanMs ≤ frameOffsetMs b total spanMs := by
  unfold frameOffsetMs
  split
  · exact le_refl _
  · have hmul : a * spanMs.toNat ≤ b * spanMs.toNat := Nat.mul_le_mul_right _ h
    exact Int.ofNat_le.mpr (Nat.div_le_div_right (by omega))

@[simp] theorem frameOffsetMs_zero (total : Nat) (spanMs : Int) :
    frameOffsetMs 0 total spanMs = 0 := by
  unfold frameOffsetMs
  split
  · rfl
  · next h => simp [Nat.div_eq_of_lt (show total / 2 < total by omega)]

/-! ## Segments of a clip -/

/-- A frame range of a clip, parked or driving. -/
structure FrameSeg where
  start : Nat
  stop : Nat
  parked : Bool
  deriving DecidableEq, Repr

/-- One segment per gear run; `parked` decides whether a run is a Park gap. -/
def rawSegs (parked : GearRun → Bool) : Nat → List GearRun → List FrameSeg
  | _, [] => []
  | offset, r :: rs =>
    ⟨offset, (offset + r.frames) % u32Size, parked r⟩
      :: rawSegs parked ((offset + r.frames) % u32Size) rs

/-- Merge consecutive driving segments, `last` being the segment under construction: a gear change
does not split a drive. -/
def mergeSegs : FrameSeg → List FrameSeg → List FrameSeg
  | last, [] => [last]
  | last, seg :: segs =>
    if !last.parked && !seg.parked then mergeSegs { last with stop := seg.stop } segs
    else last :: mergeSegs seg segs

/-- The merged segments of a clip: Park gaps and the driving ranges between them. -/
def clipSegs (clock : Clock) (runs : List GearRun) (spanMs : Int) : List FrameSeg :=
  match rawSegs (fun r => decide (r.gear = gearPark)
      && clock.parkGap r.frames (frameSum runs) spanMs) 0 runs with
  | [] => []
  | seg :: segs => mergeSegs seg segs

/-- A property of starts and stops that every raw segment has survives merging. -/
theorem mergeSegs_bounds {P : Nat → Prop} {last : FrameSeg} {segs : List FrameSeg}
    (hlast : P last.start ∧ P last.stop) (hsegs : ∀ s ∈ segs, P s.start ∧ P s.stop) :
    ∀ s ∈ mergeSegs last segs, P s.start ∧ P s.stop := by
  induction segs generalizing last with
  | nil => simpa [mergeSegs] using hlast
  | cons seg segs ih =>
    have hseg := hsegs seg (by simp)
    have hsegs' : ∀ s ∈ segs, P s.start ∧ P s.stop := fun s hs =>
      hsegs s (List.mem_cons_of_mem seg hs)
    unfold mergeSegs
    split
    · exact ih ⟨hlast.1, hseg.2⟩ hsegs'
    · intro s hs
      rcases List.mem_cons.mp hs with rfl | hs
      · exact hlast
      · exact ih hseg hsegs' s hs

/-- Without overflow, every raw segment lies within the frames counted so far and those to come. -/
theorem rawSegs_bounds (parked : GearRun → Bool) (offset : Nat) (runs : List GearRun)
    (h : offset + (runs.map GearRun.frames).sum < u32Size) :
    ∀ s ∈ rawSegs parked offset runs,
      s.start ≤ offset + (runs.map GearRun.frames).sum
        ∧ s.stop ≤ offset + (runs.map GearRun.frames).sum := by
  induction runs generalizing offset with
  | nil => simp [rawSegs]
  | cons r rs ih =>
    simp only [List.map_cons, List.sum_cons] at h ⊢
    have hmod : (offset + r.frames) % u32Size = offset + r.frames := Nat.mod_eq_of_lt (by omega)
    intro s hs
    rw [rawSegs, hmod] at hs
    rcases List.mem_cons.mp hs with rfl | hs
    · exact ⟨Nat.le_add_right _ _, by simp only; omega⟩
    · have := ih (offset + r.frames) (by omega) s hs
      omega

/-- Without overflow, every segment of a clip lies within its frames. -/
theorem clipSegs_bounds (clock : Clock) {runs : List GearRun} (spanMs : Int)
    (h : (runs.map GearRun.frames).sum < u32Size) :
    ∀ s ∈ clipSegs clock runs spanMs, s.start ≤ frameSum runs ∧ s.stop ≤ frameSum runs := by
  have hsum : frameSum runs = (runs.map GearRun.frames).sum := Nat.mod_eq_of_lt h
  have hraw := rawSegs_bounds (fun r => decide (r.gear = gearPark)
    && clock.parkGap r.frames (frameSum runs) spanMs) 0 runs (by omega)
  simp only [Nat.zero_add, ← hsum] at hraw
  unfold clipSegs
  cases hr : rawSegs (fun r => decide (r.gear = gearPark)
      && clock.parkGap r.frames (frameSum runs) spanMs) 0 runs with
  | nil => simp
  | cons seg segs =>
    rw [hr] at hraw
    exact mergeSegs_bounds (P := fun n => n ≤ frameSum runs) (hraw seg (by simp))
      fun s hs => hraw s (List.mem_cons_of_mem seg hs)

/-! ## Sub-clips of summary rows -/

/-- Frame window of a clip, produced when the clip is cut at Park gaps (`SubClipSummary`, whose
`fraction` is the window's share of the frames). -/
structure SubClip where
  summary : RouteSummary
  timestamp : Int
  startFrame : Nat
  endFrame : Nat
  totalFrames : Nat
  clipSpanMs : Int

/-- A whole clip as one sub-clip (`SubClipSummary::whole`). -/
def SubClip.whole (t : Timed RouteSummary) : SubClip :=
  let total := if t.row.gearRuns.isEmpty then 1 else max (frameSum t.row.gearRuns) 1
  ⟨t.row, t.timestamp, 0, total, total, t.clipSpanMs⟩

/-- The sub-clip of a frame window. -/
def SubClip.window (clock : Clock) (t : Timed RouteSummary) (seg : FrameSeg) : SubClip :=
  let total := frameSum t.row.gearRuns
  ⟨t.row, t.timestamp + clock.offset seg.start total t.clipSpanMs, seg.start, seg.stop, total,
    t.clipSpanMs⟩

/-- Majority Park by the stored frame counters; an `f64` ratio of two `u32` is above one half exactly
when it is so as a fraction. -/
def rawMostlyPark (rawParkCount rawFrameCount : Nat) : Bool :=
  decide (0 < rawFrameCount) && decide (rawFrameCount < 2 * rawParkCount)

/-- What a clip contributes to the stream of a gear group: its driving windows, and a marker for
each boundary. -/
def summaryEvents (clock : Clock) (t : Timed RouteSummary) : List (Option SubClip) :=
  let total := frameSum t.row.gearRuns
  if total = 0 then [some (SubClip.whole t)]
  else
    let merged := clipSegs clock t.row.gearRuns t.clipSpanMs
    if merged.all FrameSeg.parked then [none]
    else if !merged.any FrameSeg.parked then
      [some ⟨t.row, t.timestamp, 0, total, total, t.clipSpanMs⟩]
    else merged.map fun seg => if seg.parked then none else some (SubClip.window clock t seg)

/-- Clip-level fallback for groups without gear runs (`split_summary_by_gear_state_legacy`). -/
def splitSummaryByGearStateLegacy (group : List (Timed RouteSummary)) : List (List SubClip) :=
  if group.length ≤ 1 then [group.map SubClip.whole]
  else cut (group.map fun t =>
    if rawMostlyPark t.row.rawParkCount t.row.rawFrameCount then none else some (SubClip.whole t))

/-- Split a time group at Park gaps (`split_summary_by_gear_state_with_clock`). A group that is
parked throughout yields nothing. -/
def splitSummaryByGearState (clock : Clock) (group : List (Timed RouteSummary)) :
    List (List SubClip) :=
  if group.isEmpty then []
  else if group.all fun t => t.row.gearRuns.isEmpty then splitSummaryByGearStateLegacy group
  else cut (group.flatMap (summaryEvents clock))

/-- Where a sub-clip comes from: a clip whole, or a driving segment of one. -/
inductive SubClipOf (clock : Clock) (t : Timed RouteSummary) : SubClip → Prop
  | whole : SubClipOf clock t (SubClip.whole t)
  | full (h : frameSum t.row.gearRuns ≠ 0) : SubClipOf clock t
      ⟨t.row, t.timestamp, 0, frameSum t.row.gearRuns, frameSum t.row.gearRuns, t.clipSpanMs⟩
  | window (seg : FrameSeg) (h : seg ∈ clipSegs clock t.row.gearRuns t.clipSpanMs)
      (hp : seg.parked = false) : SubClipOf clock t (SubClip.window clock t seg)

theorem SubClipOf.row_eq {clock : Clock} {t : Timed RouteSummary} {s : SubClip}
    (h : SubClipOf clock t s) : s.summary = t.row := by
  cases h <;> rfl

theorem SubClipOf.span_eq {clock : Clock} {t : Timed RouteSummary} {s : SubClip}
    (h : SubClipOf clock t s) : s.clipSpanMs = t.clipSpanMs := by
  cases h <;> rfl

/-- The four things a clip can contribute. -/
theorem summaryEvents_cases (clock : Clock) (t : Timed RouteSummary) :
    (frameSum t.row.gearRuns = 0 ∧ summaryEvents clock t = [some (SubClip.whole t)])
      ∨ (frameSum t.row.gearRuns ≠ 0 ∧ summaryEvents clock t = [none])
      ∨ (frameSum t.row.gearRuns ≠ 0
        ∧ (clipSegs clock t.row.gearRuns t.clipSpanMs).any FrameSeg.parked = false
        ∧ summaryEvents clock t = [some ⟨t.row, t.timestamp, 0, frameSum t.row.gearRuns,
          frameSum t.row.gearRuns, t.clipSpanMs⟩])
      ∨ (frameSum t.row.gearRuns ≠ 0
        ∧ (clipSegs clock t.row.gearRuns t.clipSpanMs).any FrameSeg.parked = true
        ∧ summaryEvents clock t = (clipSegs clock t.row.gearRuns t.clipSpanMs).map fun seg =>
          if seg.parked then none else some (SubClip.window clock t seg)) := by
  by_cases hsum : frameSum t.row.gearRuns = 0
  · exact Or.inl ⟨hsum, by simp [summaryEvents, hsum]⟩
  · refine Or.inr ?_
    cases hall : (clipSegs clock t.row.gearRuns t.clipSpanMs).all FrameSeg.parked with
    | true => exact Or.inl ⟨hsum, by simp only [summaryEvents, if_neg hsum, hall, if_true]⟩
    | false =>
      cases hany : (clipSegs clock t.row.gearRuns t.clipSpanMs).any FrameSeg.parked with
      | false =>
        refine Or.inr (Or.inl ⟨hsum, rfl, ?_⟩)
        simp only [summaryEvents, if_neg hsum, hall, hany, Bool.false_eq_true, if_false,
          Bool.not_false, if_true]
      | true =>
        refine Or.inr (Or.inr ⟨hsum, rfl, ?_⟩)
        simp only [summaryEvents, if_neg hsum, hall, hany, Bool.false_eq_true, if_false,
          Bool.not_true]

theorem mem_summaryEvents {clock : Clock} {t : Timed RouteSummary} {s : SubClip}
    (h : some s ∈ summaryEvents clock t) : SubClipOf clock t s := by
  rcases summaryEvents_cases clock t with ⟨-, he⟩ | ⟨-, he⟩ | ⟨hsum, -, he⟩ | ⟨-, -, he⟩
  · obtain rfl : s = SubClip.whole t := by simpa [he] using h
    exact .whole
  · simp [he] at h
  · rw [he] at h
    obtain rfl := Option.some.inj (List.mem_singleton.mp h)
    exact .full hsum
  · rw [he] at h
    obtain ⟨seg, hseg, heq⟩ := List.mem_map.mp h
    cases hp : seg.parked with
    | true => simp [hp] at heq
    | false =>
      obtain rfl : SubClip.window clock t seg = s := by simpa [hp] using heq
      exact .window seg hseg hp

/-- **Every sub-clip of a gear group is a frame window of a clip of the time group.** -/
theorem mem_splitSummaryByGearState {clock : Clock} {group : List (Timed RouteSummary)}
    {g : List SubClip} {s : SubClip} (hg : g ∈ splitSummaryByGearState clock group) (hs : s ∈ g) :
    ∃ t ∈ group, SubClipOf clock t s := by
  unfold splitSummaryByGearState at hg
  split at hg
  · simp at hg
  · split at hg
    · unfold splitSummaryByGearStateLegacy at hg
      split at hg
      · obtain rfl := List.mem_singleton.mp hg
        obtain ⟨t, ht, rfl⟩ := List.mem_map.mp hs
        exact ⟨t, ht, .whole⟩
      · obtain ⟨t, ht, heq⟩ := List.mem_map.mp (mem_of_mem_cut hg hs)
        split at heq
        · simp at heq
        · obtain rfl := Option.some.inj heq
          exact ⟨t, ht, .whole⟩
    · obtain ⟨t, ht, hev⟩ := List.mem_flatMap.mp (mem_of_mem_cut hg hs)
      exact ⟨t, ht, mem_summaryEvents hev⟩

/-- No gear group is empty. -/
theorem nil_notMem_splitSummaryByGearState (clock : Clock) (group : List (Timed RouteSummary)) :
    [] ∉ splitSummaryByGearState clock group := by
  unfold splitSummaryByGearState
  split
  · simp
  · next hne =>
      split
      · unfold splitSummaryByGearStateLegacy
        split
        · simpa using hne
        · exact nil_notMem_cut _
      · exact nil_notMem_cut _

end SentryUsb
