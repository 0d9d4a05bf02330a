import SentryUsb.Library.BinaryFloat
import SentryUsb.Library.RunWindow
import SentryUsb.Store.RouteRow

/-! # Summon detection

A drive whose telemetry shows that nobody drove it (`grouper.rs`, `detect_summon`): slow, without a pedal, and either between
two flashes of the hazard lights or from Park to Park under self-driving. The evidence is in three channels of runs over the
frames of each clip, cut to the segments of the drive.

* **`detectSummon`** — the verdict, with the walks over the runs that it takes;
* **`Driverless`** — what it vouches for, frame by frame;
* **`flagRunsOverlap_iff`** — what the walk over the flag runs finds;
* **`summon_sound`** — a positive verdict holds what it vouches for. -/

namespace SentryUsb.Summon

open Library
open Store (FlagRun StateRun F64)

/-! ## Constants -/

def clipDurationMs : ℕ := 60000

def summonMaxSpeedMps : ℚ := 9 / 2

def summonBookendSeconds : ℕ := 10

def summonMaxDurationMs : ℤ := 10 * 60 * 1000

def summonMaxUncoveredMs : ℕ := clipDurationMs / 2

def gearPark : UInt8 := 0

def autopilotOff : UInt8 := 0

def autopilotFsd : UInt8 := 1

/-- Both blinkers. -/
def hazard : UInt8 := 1 ||| 2

/-- Brake and accelerator. -/
def pedal : UInt8 := 4 ||| 8

/-! ## Evidence -/

/-- What a clip of the drive shows; its segment is `[startFrame, endFrame)`. -/
structure SummonClipEvidence where
  flagRuns : List FlagRun
  apRuns : List StateRun
  gearRuns : List StateRun
  startFrame : UInt32
  endFrame : UInt32
  totalFrames : UInt32

/-- Runs with their numbers of frames. -/
def counted {α : Type} (frames : α → UInt32) (runs : List α) : List (α × ℕ) := runs.map fun r => (r, (frames r).toNat)

def runsSpanFrames (frames : List UInt32) (totalFrames : UInt32) : Bool :=
  totalFrames != 0 && frames.all (· != 0) && !frames.isEmpty && (frames.map UInt32.toNat).sum == totalFrames.toNat

/-- The walk of `gearAtFrame` from a frame on. -/
def gearAtFrameFrom (frame : ℕ) : ℕ → List StateRun → Option UInt8
  | _, [] => none
  | pos, r :: runs =>
    if frame < pos + r.frames.toNat then some r.state else gearAtFrameFrom frame (pos + r.frames.toNat) runs

def gearAtFrame (gearRuns : List StateRun) (frame : ℕ) : Option UInt8 := gearAtFrameFrom frame 0 gearRuns

/-- The car stands in Park on the far side of an end of the segment; at the edge of the clip, at that end. -/
def segmentBoundedByPark (c : SummonClipEvidence) (atEnd : Bool) : Bool :=
  if atEnd then
    match gearAtFrame c.gearRuns c.endFrame.toNat with
    | some after => after == gearPark
    | none => gearAtFrame c.gearRuns (c.endFrame.toNat - 1) == some gearPark
  else if 0 < c.startFrame.toNat then gearAtFrame c.gearRuns (c.startFrame.toNat - 1) == some gearPark
  else gearAtFrame c.gearRuns 0 == some gearPark

/-- Frame counts by autopilot mode. -/
structure SegmentApFrames where
  fsd : ℕ
  other : ℕ
  total : ℕ

/-- One run more. -/
def SegmentApFrames.add (n : SegmentApFrames) (r : StateRun × ℕ) : SegmentApFrames where
  fsd := if r.1.state = autopilotFsd then n.fsd + r.2 else n.fsd
  other := if r.1.state = autopilotFsd then n.other else if r.1.state = autopilotOff then n.other else n.other + r.2
  total := n.total + r.2

/-- The modes over the segment; the counter has 64 bits and the runs of a clip do not reach them. -/
def segmentApFrames (c : SummonClipEvidence) : Option SegmentApFrames :=
  if c.apRuns.isEmpty then none
  else
    let n := (runWindow 0 (counted StateRun.frames c.apRuns) c.startFrame.toNat c.endFrame.toNat).foldl SegmentApFrames.add
      ⟨0, 0, 0⟩
    if n.total = 0 then none else some n

/-- All bits of a mask, or any. -/
def flagsMeet (mask : UInt8) (requireAll : Bool) (flags : UInt8) : Bool :=
  if requireAll then flags &&& mask == mask else flags &&& mask != 0

/-- A flag run in the window meets the mask; the counter has 32 bits. -/
def flagRunsOverlap (runs : List FlagRun) (fromFrame toFrame : ℕ) (mask : UInt8) (requireAll : Bool) : Bool :=
  (runWindow (2 ^ 32) (counted FlagRun.frames runs) fromFrame toFrame).any fun r => flagsMeet mask requireAll r.1.flags

/-- The greatest of some numbers, from 0 on; nothing when one is missing. -/
def fastest {α : Type} (speed : α → Option ℚ) (l : List α) : Option ℚ :=
  l.foldlM (fun max a => (speed a).map fun m => if max < m then m else max) 0

/-- A finite double as a number. -/
def finite (m : F64) : Option ℚ := binary64.number m.toNat

/-- The top speed of a run, when it has one. -/
def runSpeed (r : FlagRun) : Option ℚ := r.maxMps.bind finite

def segmentMaxSpeed (c : SummonClipEvidence) : Option ℚ :=
  fastest (fun r => runSpeed r.1)
    (runWindow (2 ^ 32) (counted FlagRun.frames c.flagRuns) c.startFrame.toNat c.endFrame.toNat)

/-! ## The verdict -/

/-- The bounds of a segment hold, and its flag runs are over the frames of its clip. -/
def evidenced (c : SummonClipEvidence) : Bool :=
  !c.flagRuns.isEmpty && c.totalFrames != 0 && decide (c.startFrame.toNat < c.endFrame.toNat)
    && decide (c.endFrame.toNat ≤ c.totalFrames.toNat) && runsSpanFrames (c.flagRuns.map FlagRun.frames) c.totalFrames

/-- The time a segment stands for, in doubles. -/
def segmentMs (c : SummonClipEvidence) : ℚ :=
  binary64.rounded (binary64.rounded ((c.endFrame.toNat - c.startFrame.toNat : ℕ) * clipDurationMs) / c.totalFrames.toNat)

def coveredMs (clips : List SummonClipEvidence) : ℚ :=
  (clips.map segmentMs).foldl (fun covered ms => binary64.rounded (covered + ms)) 0

/-- The speed that the gate looks at: that of the frames, else that of the drive. -/
def speedMps (clips : List SummonClipEvidence) (maxSpeedMps : F64) (hasSeiSpeeds : Bool) : Option ℚ :=
  match fastest segmentMaxSpeed clips with
  | some speed => some speed
  | none => if hasSeiSpeeds then finite maxSpeedMps else none

/-- The speed gate; infinite speeds and those that are no numbers do not pass. -/
def slow (clips : List SummonClipEvidence) (maxSpeedMps : F64) (hasSeiSpeeds : Bool) : Bool :=
  match speedMps clips maxSpeedMps hasSeiSpeeds with
  | some speed => decide (0 < speed) && !decide (summonMaxSpeedMps < speed)
  | none => false

def noPedal (c : SummonClipEvidence) : Bool :=
  !flagRunsOverlap c.flagRuns c.startFrame.toNat c.endFrame.toNat pedal false

/-- Ten seconds in frames of the clip, rounded up. -/
def bookendFrames (c : SummonClipEvidence) : ℕ :=
  max ((c.totalFrames.toNat * summonBookendSeconds * 1000 + (clipDurationMs - 1)) / clipDurationMs) 1

def hazardAtStart (c : SummonClipEvidence) : Bool :=
  flagRunsOverlap c.flagRuns (c.startFrame.toNat - bookendFrames c)
    (min c.endFrame.toNat ((c.startFrame.toNat + bookendFrames c) % 2 ^ 32)) hazard true

def hazardAtEnd (c : SummonClipEvidence) : Bool :=
  flagRunsOverlap c.flagRuns (max c.startFrame.toNat (c.endFrame.toNat - bookendFrames c))
    (min c.totalFrames.toNat ((c.endFrame.toNat + bookendFrames c) % 2 ^ 32)) hazard true

/-- Self-driving frames and all frames, with one segment more; another mode ends the count. -/
def addApFrames (n : ℕ × ℕ) (c : SummonClipEvidence) : Option (ℕ × ℕ) :=
  match segmentApFrames c with
  | none => none
  | some ap => if 0 < ap.other then none else some (n.1 + ap.fsd, n.2 + ap.total)

/-- The frames are self-driving by half. -/
def mostlyFsd (clips : List SummonClipEvidence) : Bool :=
  match clips.foldlM addApFrames (0, 0) with
  | none => false
  | some n => decide (0 < n.2) && decide (n.2 ≤ n.1 * 2)

/-- The autopilot and gear runs are over the frames of their clip. -/
def stateEvidenced (c : SummonClipEvidence) : Bool :=
  runsSpanFrames (c.apRuns.map StateRun.frames) c.totalFrames && runsSpanFrames (c.gearRuns.map StateRun.frames) c.totalFrames

/-- The Self Driving signature. -/
def selfDriving (clips : List SummonClipEvidence) (first last : SummonClipEvidence) : Bool :=
  clips.all stateEvidenced && segmentBoundedByPark first false && segmentBoundedByPark last true && mostlyFsd clips

def detectSummon (clips : List SummonClipEvidence) (maxSpeedMps : F64) (durationMs : ℤ) (hasSeiSpeeds : Bool) : Bool :=
  match clips.head?, clips.getLast? with
  | some first, some last =>
    decide (0 < durationMs) && decide (durationMs ≤ summonMaxDurationMs) && clips.all evidenced
      && !decide (summonMaxUncoveredMs < binary64.rounded (durationMs - coveredMs clips))
      && slow clips maxSpeedMps hasSeiSpeeds && clips.all noPedal
      && (hazardAtStart first && hazardAtEnd last || selfDriving clips first last)
  | _, _ => false

/-! ## What the verdict vouches for -/

namespace SummonClipEvidence

variable (c : SummonClipEvidence)

/-- The flag run of each frame. -/
def flagFrames : List FlagRun := expandRuns (counted FlagRun.frames c.flagRuns)

def apFrames : List StateRun := expandRuns (counted StateRun.frames c.apRuns)

def gearFrames : List StateRun := expandRuns (counted StateRun.frames c.gearRuns)

/-- A frame of the segment. -/
def Within (i : ℕ) : Prop := c.startFrame.toNat ≤ i ∧ i < c.endFrame.toNat

def segmentFrames : ℕ := c.endFrame.toNat - c.startFrame.toNat

/-- The self-driving frames of the segment. -/
def fsdFrames : ℕ :=
  ((c.apFrames.take c.endFrame.toNat).drop c.startFrame.toNat).countP fun r => r.state == autopilotFsd

/-- **A segment covered by flag evidence** that shows no pedal on any frame. -/
structure Covered : Prop where
  nonempty : c.startFrame.toNat < c.endFrame.toNat
  inside : c.endFrame.toNat ≤ c.totalFrames.toNat
  evidence : c.flagFrames.length = c.totalFrames.toNat
  noPedal : ∀ i, c.Within i → ∃ r, c.flagFrames[i]? = some r ∧ r.flags &&& pedal = 0

end SummonClipEvidence

/-- The exact time a segment stands for. -/
def exactMs (c : SummonClipEvidence) : ℚ := (c.segmentFrames : ℚ) * clipDurationMs / c.totalFrames.toNat

def exactCoveredMs (clips : List SummonClipEvidence) : ℚ := (clips.map exactMs).sum

/-- How much a double that is rounded gains at most. -/
def roundingGain : ℚ := 1 / 2 ^ 53

/-- Every frame of the segments has a speed, none above the gate, and one shows that the car moves. -/
structure SlowFrames (clips : List SummonClipEvidence) : Prop where
  slow : ∀ c ∈ clips, ∀ i, c.Within i → ∃ r v, c.flagFrames[i]? = some r ∧ runSpeed r = some v ∧ v ≤ summonMaxSpeedMps
  moves : ∃ c ∈ clips, ∃ i r v, c.Within i ∧ c.flagFrames[i]? = some r ∧ runSpeed r = some v ∧ 0 < v

/-- A frame of the segments has no speed, and the drive as a whole passes the gate. -/
structure SlowDrive (clips : List SummonClipEvidence) (maxSpeedMps : F64) (hasSeiSpeeds : Bool) : Prop where
  missing : ∃ c ∈ clips, ∃ i r, c.Within i ∧ c.flagFrames[i]? = some r ∧ runSpeed r = none
  sei : hasSeiSpeeds = true
  slow : ∃ v, finite maxSpeedMps = some v ∧ 0 < v ∧ v ≤ summonMaxSpeedMps

/-- **Hazards at both ends**, within a bookend of where the drive starts and of where it ends. -/
structure Bracketed (first last : SummonClipEvidence) : Prop where
  opens : ∃ i r, first.startFrame.toNat - bookendFrames first ≤ i
    ∧ i < min first.endFrame.toNat (first.startFrame.toNat + bookendFrames first)
    ∧ first.flagFrames[i]? = some r ∧ r.flags &&& hazard = hazard
  closes : ∃ i r, max last.startFrame.toNat (last.endFrame.toNat - bookendFrames last) ≤ i
    ∧ i < min last.totalFrames.toNat (last.endFrame.toNat + bookendFrames last)
    ∧ last.flagFrames[i]? = some r ∧ r.flags &&& hazard = hazard

/-- **From Park to Park under self-driving**: Park stands before the first segment and after the last, or at its edge where
that is the edge of the clip, no frame has another autopilot mode, and half of them are self-driving. -/
structure SelfDriven (clips : List SummonClipEvidence) (first last : SummonClipEvidence) : Prop where
  evidence : ∀ c ∈ clips, c.apFrames.length = c.totalFrames.toNat ∧ c.gearFrames.length = c.totalFrames.toNat
  starts : ∃ r, first.gearFrames[first.startFrame.toNat - 1]? = some r ∧ r.state = gearPark
  ends : ∃ r, last.gearFrames[min last.endFrame.toNat (last.totalFrames.toNat - 1)]? = some r ∧ r.state = gearPark
  noOther : ∀ c ∈ clips, ∀ i, c.Within i → ∃ r, c.apFrames[i]? = some r ∧ (r.state = autopilotFsd ∨ r.state = autopilotOff)
  share : (clips.map SummonClipEvidence.segmentFrames).sum ≤ 2 * (clips.map SummonClipEvidence.fsdFrames).sum

/-- **A drive nobody drove**, as its evidence shows it. -/
structure Driverless (clips : List SummonClipEvidence) (maxSpeedMps : F64) (durationMs : ℤ) (hasSeiSpeeds : Bool) : Prop where
  duration : 0 < durationMs ∧ durationMs ≤ summonMaxDurationMs
  covered : ∀ c ∈ clips, c.Covered
  time : (1 - roundingGain) * (durationMs - (1 + roundingGain) ^ (clips.length + 1) * exactCoveredMs clips)
    ≤ summonMaxUncoveredMs
  speed : SlowFrames clips ∨ SlowDrive clips maxSpeedMps hasSeiSpeeds
  signature : ∃ first last, clips.head? = some first ∧ clips.getLast? = some last
    ∧ (Bracketed first last ∨ SelfDriven clips first last)

/-! ## The walks -/

section Walks

variable {α : Type} {frames : α → UInt32} {runs : List α}

theorem pos_of_mem_counted (hpos : ∀ r ∈ runs, 0 < (frames r).toNat) : ∀ r ∈ counted frames runs, 0 < r.2 := by
  intro r hr
  obtain ⟨a, ha, rfl⟩ := List.mem_map.mp hr
  exact hpos a ha

theorem length_expandRuns_counted :
    (expandRuns (counted frames runs)).length = ((runs.map frames).map UInt32.toNat).sum := by
  rw [length_expandRuns, counted, List.map_map, List.map_map]
  rfl

theorem runsSpanFrames_spec {total : UInt32} (h : runsSpanFrames (runs.map frames) total = true) :
    (∀ r ∈ runs, 0 < (frames r).toNat) ∧ (expandRuns (counted frames runs)).length = total.toNat := by
  rw [runsSpanFrames] at h
  simp only [Bool.and_eq_true, List.all_eq_true, bne_iff_ne, beq_iff_eq] at h
  obtain ⟨⟨⟨-, hpos⟩, -⟩, hsum⟩ := h
  refine ⟨fun r hr => ?_, length_expandRuns_counted.trans hsum⟩
  exact Nat.pos_of_ne_zero fun hzero => hpos _ (List.mem_map_of_mem hr) (UInt32.toNat_inj.mp hzero)

theorem runWindow_eq {start stop : ℕ} (htotal : (expandRuns (counted frames runs)).length < 2 ^ 32) :
    runWindow (2 ^ 32) (counted frames runs) start stop = runWindow 0 (counted frames runs) start stop := by
  rw [length_expandRuns] at htotal
  exact runWindowFrom_mod (by omega)

/-- **The runs of a window** are those of its frames. -/
theorem mem_runWindow_iff {start stop : ℕ} (hlt : start < stop) (hpos : ∀ r ∈ runs, 0 < (frames r).toNat) {a : α} :
    (∃ n, (a, n) ∈ runWindow 0 (counted frames runs) start stop)
      ↔ ∃ i, start ≤ i ∧ i < stop ∧ (expandRuns (counted frames runs))[i]? = some a := by
  rw [runWindow, ← mem_expandRuns (pos_of_mem_runWindowFrom hlt (pos_of_mem_counted hpos)), expandRuns_runWindowFrom,
    Nat.sub_zero, Nat.sub_zero, mem_drop_take]

end Walks

/-- **What the walk over the flag runs finds**, in a window that is not empty and runs none of which is. -/
theorem flagRunsOverlap_eq_true_iff {runs : List FlagRun} {start stop : ℕ} {mask : UInt8} {requireAll : Bool}
    (hpos : ∀ r ∈ runs, 0 < r.frames.toNat) (htotal : (expandRuns (counted FlagRun.frames runs)).length < 2 ^ 32)
    (hlt : start < stop) :
    flagRunsOverlap runs start stop mask requireAll = true
      ↔ ∃ i r, start ≤ i ∧ i < stop ∧ (expandRuns (counted FlagRun.frames runs))[i]? = some r
        ∧ flagsMeet mask requireAll r.flags = true := by
  rw [flagRunsOverlap, runWindow_eq htotal, List.any_eq_true]
  constructor
  · rintro ⟨⟨r, n⟩, hr, hmeet⟩
    obtain ⟨i, hlow, hhigh, hget⟩ := (mem_runWindow_iff hlt hpos).mp ⟨n, hr⟩
    exact ⟨i, r, hlow, hhigh, hget, hmeet⟩
  · rintro ⟨i, r, hlow, hhigh, hget, hmeet⟩
    obtain ⟨n, hr⟩ := (mem_runWindow_iff hlt hpos).mpr ⟨i, hlow, hhigh, hget⟩
    exact ⟨(r, n), hr, hmeet⟩

/-- In any window, what the walk finds stands in it or at its beginning. -/
theorem exists_of_flagRunsOverlap {runs : List FlagRun} {start stop : ℕ} {mask : UInt8} {requireAll : Bool}
    (hpos : ∀ r ∈ runs, 0 < r.frames.toNat) (htotal : (expandRuns (counted FlagRun.frames runs)).length < 2 ^ 32)
    (h : flagRunsOverlap runs start stop mask requireAll = true) :
    ∃ i r, start ≤ i ∧ (i < stop ∨ i = start) ∧ (expandRuns (counted FlagRun.frames runs))[i]? = some r
      ∧ flagsMeet mask requireAll r.flags = true := by
  rw [flagRunsOverlap, runWindow_eq htotal, List.any_eq_true] at h
  obtain ⟨r, hr, hmeet⟩ := h
  obtain ⟨i, hlow, hhigh, hget⟩ := exists_of_mem_runWindowFrom (pos_of_mem_counted hpos) hr
  rw [Nat.zero_add] at hlow hhigh
  exact ⟨i, r.1, hlow, hhigh, hget, hmeet⟩

/-! ## Speeds -/

section Fastest

variable {α : Type} {speed : α → Option ℚ}

/-- The step of `fastest`, from any number on. -/
theorem foldlM_fastest {l : List α} {s m : ℚ}
    (h : l.foldlM (fun max a => (speed a).map fun m => if max < m then m else max) s = some m) :
    s ≤ m ∧ (∀ a ∈ l, ∃ v, speed a = some v ∧ v ≤ m) ∧ (m = s ∨ ∃ a ∈ l, speed a = some m) := by
  induction l generalizing s with
  | nil => exact ⟨(Option.some.inj h).le, List.forall_mem_nil _, .inl (Option.some.inj h).symm⟩
  | cons a l ih =>
    rw [List.foldlM_cons] at h
    obtain ⟨next, hstep, hrest⟩ := Option.bind_eq_some_iff.mp h
    obtain ⟨v, hv, rfl⟩ := Option.map_eq_some_iff.mp hstep
    obtain ⟨hle, hall, hfrom⟩ := ih hrest
    have hboth : s ≤ m ∧ v ≤ m := by
      split at hle
      · exact ⟨by linarith, hle⟩
      · exact ⟨hle, by linarith⟩
    refine ⟨hboth.1, List.forall_mem_cons.mpr ⟨⟨v, hv, hboth.2⟩, hall⟩, ?_⟩
    rcases hfrom with hfrom | ⟨b, hb, hm⟩
    · split at hfrom
      · exact .inr ⟨a, List.mem_cons_self, hfrom ▸ hv⟩
      · exact .inl hfrom
    · exact .inr ⟨b, List.mem_cons_of_mem a hb, hm⟩

/-- **The greatest speed** is one of them when it is not 0. -/
theorem fastest_eq_some {l : List α} {m : ℚ} (h : fastest speed l = some m) :
    (∀ a ∈ l, ∃ v, speed a = some v ∧ v ≤ m) ∧ (0 < m → ∃ a ∈ l, speed a = some m) := by
  obtain ⟨-, hall, hfrom⟩ := foldlM_fastest h
  refine ⟨hall, fun hpos => ?_⟩
  rcases hfrom with rfl | hfrom
  · exact absurd hpos (lt_irrefl 0)
  · exact hfrom

theorem fastest_eq_none {l : List α} (h : fastest speed l = none) : ∃ a ∈ l, speed a = none := by
  rw [fastest] at h
  generalize (0 : ℚ) = s at h
  induction l generalizing s with
  | nil => exact nomatch h
  | cons a l ih =>
    rcases Option.eq_none_or_eq_some (speed a) with hnone | ⟨v, hv⟩
    · exact ⟨a, List.mem_cons_self, hnone⟩
    · rw [List.foldlM_cons, hv] at h
      obtain ⟨b, hb, hnone⟩ := ih _ h
      exact ⟨b, List.mem_cons_of_mem a hb, hnone⟩

end Fastest

/-- **The speeds of a segment** whose flag runs are over the frames of its clip. -/
theorem segmentMaxSpeed_eq_some {c : SummonClipEvidence} {m : ℚ} (hpos : ∀ r ∈ c.flagRuns, 0 < r.frames.toNat)
    (htotal : c.flagFrames.length < 2 ^ 32) (hlt : c.startFrame.toNat < c.endFrame.toNat)
    (h : segmentMaxSpeed c = some m) :
    (∀ i r, c.Within i → c.flagFrames[i]? = some r → ∃ v, runSpeed r = some v ∧ v ≤ m)
      ∧ (0 < m → ∃ i r, c.Within i ∧ c.flagFrames[i]? = some r ∧ runSpeed r = some m) := by
  rw [segmentMaxSpeed, runWindow_eq htotal] at h
  obtain ⟨hall, hfrom⟩ := fastest_eq_some h
  constructor
  · intro i r hi hget
    obtain ⟨n, hr⟩ := (mem_runWindow_iff hlt hpos).mpr ⟨i, hi.1, hi.2, hget⟩
    exact hall (r, n) hr
  · intro hm
    obtain ⟨⟨r, n⟩, hr, hv⟩ := hfrom hm
    obtain ⟨i, hlow, hhigh, hget⟩ := (mem_runWindow_iff hlt hpos).mp ⟨n, hr⟩
    exact ⟨i, r, ⟨hlow, hhigh⟩, hget, hv⟩

theorem segmentMaxSpeed_eq_none {c : SummonClipEvidence} (hpos : ∀ r ∈ c.flagRuns, 0 < r.frames.toNat)
    (htotal : c.flagFrames.length < 2 ^ 32) (hlt : c.startFrame.toNat < c.endFrame.toNat) (h : segmentMaxSpeed c = none) :
    ∃ i r, c.Within i ∧ c.flagFrames[i]? = some r ∧ runSpeed r = none := by
  rw [segmentMaxSpeed, runWindow_eq htotal] at h
  obtain ⟨⟨r, n⟩, hr, hnone⟩ := fastest_eq_none h
  obtain ⟨i, hlow, hhigh, hget⟩ := (mem_runWindow_iff hlt hpos).mp ⟨n, hr⟩
  exact ⟨i, r, ⟨hlow, hhigh⟩, hget, hnone⟩

/-! ## Gears and modes -/

/-- The walk reads the gear of a frame. -/
theorem gearAtFrameFrom_eq {frame pos : ℕ} {runs : List StateRun} (h : pos ≤ frame) :
    gearAtFrameFrom frame pos runs = (expandRuns (counted StateRun.frames runs))[frame - pos]?.map StateRun.state := by
  induction runs generalizing pos with
  | nil => rfl
  | cons r runs ih =>
    have hexpand : expandRuns (counted StateRun.frames (r :: runs))
        = List.replicate r.frames.toNat r ++ expandRuns (counted StateRun.frames runs) := rfl
    rw [gearAtFrameFrom, hexpand]
    by_cases hin : frame < pos + r.frames.toNat
    · rw [if_pos hin, List.getElem?_append_left (by rw [List.length_replicate]; omega), List.getElem?_replicate,
        if_pos (by omega)]
      rfl
    · rw [if_neg hin, ih (by omega), List.getElem?_append_right (by rw [List.length_replicate]; omega),
        List.length_replicate, Nat.sub_add_eq]

theorem gearAtFrame_eq (c : SummonClipEvidence) (frame : ℕ) :
    gearAtFrame c.gearRuns frame = c.gearFrames[frame]?.map StateRun.state := gearAtFrameFrom_eq (Nat.zero_le frame)

theorem exists_of_gearAtFrame {c : SummonClipEvidence} {frame : ℕ} {gear : UInt8}
    (h : gearAtFrame c.gearRuns frame = some gear) : ∃ r, c.gearFrames[frame]? = some r ∧ r.state = gear := by
  rw [gearAtFrame_eq] at h
  exact Option.map_eq_some_iff.mp h

/-- **Park before a segment**, or at its first frame where it starts with its clip. -/
theorem starts_of_segmentBoundedByPark {c : SummonClipEvidence} (h : segmentBoundedByPark c false = true) :
    ∃ r, c.gearFrames[c.startFrame.toNat - 1]? = some r ∧ r.state = gearPark := by
  rw [segmentBoundedByPark, if_neg Bool.false_ne_true] at h
  split at h
  · exact exists_of_gearAtFrame (beq_iff_eq.mp h)
  · have hzero : c.startFrame.toNat - 1 = 0 := by omega
    rw [hzero]
    exact exists_of_gearAtFrame (beq_iff_eq.mp h)

/-- **Park after a segment**, or at its last frame where it ends with its clip. -/
theorem ends_of_segmentBoundedByPark {c : SummonClipEvidence} (hinside : c.endFrame.toNat ≤ c.totalFrames.toNat)
    (hspan : c.gearFrames.length = c.totalFrames.toNat) (h : segmentBoundedByPark c true = true) :
    ∃ r, c.gearFrames[min c.endFrame.toNat (c.totalFrames.toNat - 1)]? = some r ∧ r.state = gearPark := by
  rw [segmentBoundedByPark, if_pos rfl] at h
  split at h
  · next after hafter =>
      obtain ⟨r, hget, hstate⟩ := exists_of_gearAtFrame hafter
      have hlt : c.endFrame.toNat < c.totalFrames.toNat := hspan ▸ (List.getElem?_eq_some_iff.mp hget).1
      rw [show min c.endFrame.toNat (c.totalFrames.toNat - 1) = c.endFrame.toNat by omega]
      exact ⟨r, hget, hstate.trans (beq_iff_eq.mp h)⟩
  · next hnone =>
      rw [gearAtFrame_eq, Option.map_eq_none_iff, List.getElem?_eq_none_iff, hspan] at hnone
      rw [show min c.endFrame.toNat (c.totalFrames.toNat - 1) = c.endFrame.toNat - 1 by omega]
      exact exists_of_gearAtFrame (beq_iff_eq.mp h)

/-- What a count of modes adds up to. -/
theorem foldl_add (runs : List (StateRun × ℕ)) (n : SegmentApFrames) :
    (runs.foldl SegmentApFrames.add n).fsd = n.fsd + (expandRuns runs).countP (fun r => r.state == autopilotFsd)
      ∧ (runs.foldl SegmentApFrames.add n).total = n.total + (expandRuns runs).length
      ∧ (runs.foldl SegmentApFrames.add n).other
        = n.other + (expandRuns runs).countP fun r => !(r.state == autopilotFsd || r.state == autopilotOff) := by
  induction runs generalizing n with
  | nil => exact ⟨rfl, rfl, rfl⟩
  | cons r runs ih =>
    obtain ⟨hfsd, htotal, hother⟩ := ih (n.add r)
    rw [List.foldl_cons, hfsd, htotal, hother, expandRuns_cons, List.countP_append, List.countP_append, List.length_append,
      List.countP_replicate, List.countP_replicate, List.length_replicate]
    refine ⟨?_, Nat.add_assoc _ _ _, ?_⟩
    · by_cases hf : r.1.state = autopilotFsd
      · simp [SegmentApFrames.add, hf, Nat.add_assoc]
      · simp [SegmentApFrames.add, hf]
    · by_cases hf : r.1.state = autopilotFsd
      · simp [SegmentApFrames.add, hf]
      · by_cases ho : r.1.state = autopilotOff
        · simp [SegmentApFrames.add, ho]
        · simp [SegmentApFrames.add, hf, ho, Nat.add_assoc]

/-- **The modes of a segment** whose autopilot runs are over the frames of its clip. -/
theorem segmentApFrames_spec {c : SummonClipEvidence} {n : SegmentApFrames} (hspan : c.apFrames.length = c.totalFrames.toNat)
    (hinside : c.endFrame.toNat ≤ c.totalFrames.toNat) (h : segmentApFrames c = some n) :
    n.fsd = c.fsdFrames ∧ n.total = c.segmentFrames
      ∧ (n.other = 0 → ∀ i, c.Within i →
        ∃ r, c.apFrames[i]? = some r ∧ (r.state = autopilotFsd ∨ r.state = autopilotOff)) := by
  obtain ⟨-, h⟩ := Option.ite_none_left_eq_some.mp h
  obtain ⟨-, h⟩ := Option.ite_none_left_eq_some.mp h
  obtain ⟨hfsd, htotal, hother⟩ := foldl_add
    (runWindow 0 (counted StateRun.frames c.apRuns) c.startFrame.toNat c.endFrame.toNat) ⟨0, 0, 0⟩
  rw [Option.some.inj h, runWindow, expandRuns_runWindowFrom, Nat.sub_zero, Nat.sub_zero, Nat.zero_add] at hfsd htotal hother
  refine ⟨hfsd, ?_, ?_⟩
  · rw [htotal, List.length_drop, List.length_take]
    change min _ c.apFrames.length - _ = _
    rw [hspan, min_eq_left hinside, SummonClipEvidence.segmentFrames]
  · intro hzero i hi
    have hlt : i < c.apFrames.length := by
      have hend := hi.2
      omega
    refine ⟨c.apFrames[i], List.getElem?_eq_getElem hlt, ?_⟩
    have hmem : c.apFrames[i] ∈ (c.apFrames.take c.endFrame.toNat).drop c.startFrame.toNat :=
      mem_drop_take.mpr ⟨i, hi.1, hi.2, List.getElem?_eq_getElem hlt⟩
    have hmode := List.countP_eq_zero.mp (hother.symm.trans hzero) _ hmem
    simpa [or_iff_not_imp_left] using hmode

/-- The count over some segments. -/
theorem foldlM_addApFrames {clips : List SummonClipEvidence} {s n : ℕ × ℕ}
    (hclips : ∀ c ∈ clips, c.apFrames.length = c.totalFrames.toNat ∧ c.endFrame.toNat ≤ c.totalFrames.toNat)
    (h : clips.foldlM addApFrames s = some n) :
    n.1 = s.1 + (clips.map SummonClipEvidence.fsdFrames).sum
      ∧ n.2 = s.2 + (clips.map SummonClipEvidence.segmentFrames).sum
      ∧ ∀ c ∈ clips, ∀ i, c.Within i →
        ∃ r, c.apFrames[i]? = some r ∧ (r.state = autopilotFsd ∨ r.state = autopilotOff) := by
  induction clips generalizing s with
  | nil =>
    rw [← Option.some.inj h]
    exact ⟨rfl, rfl, List.forall_mem_nil _⟩
  | cons c clips ih =>
    obtain ⟨hc, hrest⟩ := List.forall_mem_cons.mp hclips
    rw [List.foldlM_cons] at h
    obtain ⟨next, hstep, h⟩ := Option.bind_eq_some_iff.mp h
    obtain ⟨hfsd, htotal, hmodes⟩ := ih hrest h
    rw [addApFrames] at hstep
    split at hstep
    · exact nomatch hstep
    · next ap hap =>
        obtain ⟨hother, hnext⟩ := Option.ite_none_left_eq_some.mp hstep
        obtain ⟨hapFsd, hapTotal, hapModes⟩ := segmentApFrames_spec hc.1 hc.2 hap
        rw [← Option.some.inj hnext] at hfsd htotal
        rw [hfsd, htotal, List.map_cons, List.map_cons, List.sum_cons, List.sum_cons, hapFsd, hapTotal, Nat.add_assoc,
          Nat.add_assoc]
        exact ⟨rfl, rfl, List.forall_mem_cons.mpr ⟨hapModes (by omega), hmodes⟩⟩

/-! ## Covered time -/

section Time

theorem lowest_binary64 : (2 : ℚ) ^ (1 - binary64.bias : ℤ) ≤ 1 / 2 ^ 33 :=
  calc (2 : ℚ) ^ (1 - binary64.bias : ℤ) ≤ 2 ^ (-33 : ℤ) := zpow_le_zpow_right₀ (by norm_num) (by decide)
    _ = 1 / 2 ^ 33 := by norm_num

/-- They are normal. -/
theorem normal_binary64 {x : ℚ} (hlow : 1 / 2 ^ 32 ≤ x) (hhigh : x < 2 ^ 64) : binary64.Normal x where
  low := le_trans (lowest_binary64.trans (by norm_num)) hlow
  high := lt_of_lt_of_le hhigh (pow_le_pow_right₀ (by norm_num) (by decide))

variable {c : SummonClipEvidence}

/-- A number of frames times a clip's length is exact in doubles. -/
theorem segmentMs_eq (c : SummonClipEvidence) : segmentMs c = binary64.rounded (exactMs c) := by
  have hsmall : c.segmentFrames * clipDurationMs < 2 ^ (binary64.fraction + 1) := by
    have hend := c.endFrame.toNat_lt
    calc c.segmentFrames * clipDurationMs ≤ 2 ^ 32 * clipDurationMs :=
          Nat.mul_le_mul_right _ (by rw [SummonClipEvidence.segmentFrames]; omega)
      _ < 2 ^ (binary64.fraction + 1) := by decide
  have hexact := FloatFormat.rounded_natCast (F := binary64) (by decide) hsmall (by decide)
  rw [Nat.cast_mul] at hexact
  rw [segmentMs, exactMs, ← hexact]
  rfl

theorem exactMs_bounds (hlt : c.startFrame.toNat < c.endFrame.toNat) (hle : c.endFrame.toNat ≤ c.totalFrames.toNat) :
    1 / 2 ^ 32 ≤ exactMs c ∧ exactMs c < 2 ^ 64 := by
  have htotal : (c.totalFrames.toNat : ℚ) < 2 ^ 32 := by exact_mod_cast c.totalFrames.toNat_lt
  have hframes : 1 ≤ c.segmentFrames ∧ c.segmentFrames ≤ c.totalFrames.toNat := by
    rw [SummonClipEvidence.segmentFrames]
    omega
  have hone : (1 : ℚ) ≤ c.segmentFrames := by exact_mod_cast hframes.1
  have hbound : (c.segmentFrames : ℚ) ≤ c.totalFrames.toNat := by exact_mod_cast hframes.2
  have hpos : (0 : ℚ) < c.totalFrames.toNat := by linarith
  have hclip : (clipDurationMs : ℚ) = 60000 := by norm_num [clipDurationMs]
  rw [exactMs, hclip, le_div_iff₀ hpos, div_lt_iff₀ hpos]
  constructor
  · linarith
  · linarith

/-- **How much time a segment gains by rounding.** -/
theorem segmentMs_bounds (hlt : c.startFrame.toNat < c.endFrame.toNat) (hle : c.endFrame.toNat ≤ c.totalFrames.toNat) :
    2 ^ (1 - binary64.bias : ℤ) ≤ segmentMs c ∧ segmentMs c ≤ (1 + roundingGain) * exactMs c := by
  obtain ⟨hlow, hhigh⟩ := exactMs_bounds hlt hle
  have hnormal := normal_binary64 hlow hhigh
  rw [segmentMs_eq]
  refine ⟨?_, FloatFormat.rounded_le (by decide) hnormal.low⟩
  calc (2 : ℚ) ^ (1 - binary64.bias : ℤ) ≤ 1 / 2 ^ 33 := lowest_binary64
    _ ≤ (1 - 1 / 2 ^ (binary64.fraction + 1)) * exactMs c := by
        have hfraction : binary64.fraction + 1 = 53 := rfl
        rw [hfraction]
        linarith
    _ ≤ binary64.rounded (exactMs c) := hnormal.le_rounded (by decide)

variable {clips : List SummonClipEvidence}

/-- **How much time the segments gain by rounding.** -/
theorem coveredMs_bounds
    (hclips : ∀ c ∈ clips, c.startFrame.toNat < c.endFrame.toNat ∧ c.endFrame.toNat ≤ c.totalFrames.toNat) :
    0 ≤ coveredMs clips ∧ coveredMs clips ≤ (1 + roundingGain) ^ (clips.length + 1) * exactCoveredMs clips := by
  have hbounds : ∀ c ∈ clips, 2 ^ (1 - binary64.bias : ℤ) ≤ segmentMs c ∧ segmentMs c ≤ (1 + roundingGain) * exactMs c :=
    fun c hc => segmentMs_bounds (hclips c hc).1 (hclips c hc).2
  have hlow : ∀ x ∈ clips.map segmentMs, 2 ^ (1 - binary64.bias : ℤ) ≤ x := List.forall_mem_map.mpr fun c hc => (hbounds c hc).1
  constructor
  · exact FloatFormat.foldl_rounded_nonneg (fun x hx => le_trans (by positivity) (hlow x hx)) le_rfl
  · calc coveredMs clips ≤ (1 + roundingGain) ^ (clips.map segmentMs).length * (0 + (clips.map segmentMs).sum) :=
          FloatFormat.foldl_rounded_le (by decide) hlow le_rfl
      _ ≤ (1 + roundingGain) ^ clips.length * ((1 + roundingGain) * exactCoveredMs clips) := by
          rw [List.length_map, zero_add]
          apply mul_le_mul_of_nonneg_left _ (by rw [roundingGain]; positivity)
          calc (clips.map segmentMs).sum ≤ (clips.map fun c => (1 + roundingGain) * exactMs c).sum :=
                List.sum_le_sum fun c hc => (hbounds c hc).2
            _ = (1 + roundingGain) * exactCoveredMs clips := List.sum_map_mul_left _ _ _
      _ = (1 + roundingGain) ^ (clips.length + 1) * exactCoveredMs clips := by
          rw [pow_succ]
          ring

/-- **The segments account for the drive**, up to rounding. -/
theorem time_of_rounded {durationMs : ℤ} (hlong : durationMs ≤ summonMaxDurationMs)
    (hclips : ∀ c ∈ clips, c.startFrame.toNat < c.endFrame.toNat ∧ c.endFrame.toNat ≤ c.totalFrames.toNat)
    (h : binary64.rounded (durationMs - coveredMs clips) ≤ summonMaxUncoveredMs) :
    (1 - roundingGain) * (durationMs - (1 + roundingGain) ^ (clips.length + 1) * exactCoveredMs clips)
      ≤ summonMaxUncoveredMs := by
  obtain ⟨hnonneg, hcovered⟩ := coveredMs_bounds hclips
  have hgain : 0 ≤ 1 - roundingGain := by norm_num [roundingGain]
  have hlong : (durationMs : ℚ) ≤ 600000 := by exact_mod_cast hlong
  have huncovered : (summonMaxUncoveredMs : ℚ) = 30000 := by norm_num [summonMaxUncoveredMs, clipDurationMs]
  have hexact : (1 - roundingGain) * (durationMs - (1 + roundingGain) ^ (clips.length + 1) * exactCoveredMs clips)
      ≤ (1 - roundingGain) * (durationMs - coveredMs clips) := mul_le_mul_of_nonneg_left (by linarith) hgain
  rw [huncovered] at h ⊢
  refine hexact.trans ?_
  rcases le_or_gt (durationMs - coveredMs clips) 30000 with hsmall | hlarge
  · calc (1 - roundingGain) * (durationMs - coveredMs clips) ≤ (1 - roundingGain) * 30000 :=
          mul_le_mul_of_nonneg_left hsmall hgain
      _ ≤ 30000 := by norm_num [roundingGain]
  · have hnormal : binary64.Normal (durationMs - coveredMs clips) := normal_binary64 (by linarith) (by linarith)
    exact (hnormal.le_rounded (by decide)).trans h

end Time

/-! ## Soundness -/

section Soundness

/-- What the check of a clip's bounds and flag runs says. -/
theorem evidenced_spec {c : SummonClipEvidence} (h : evidenced c = true) :
    (c.startFrame.toNat < c.endFrame.toNat ∧ c.endFrame.toNat ≤ c.totalFrames.toNat)
      ∧ (∀ r ∈ c.flagRuns, 0 < r.frames.toNat) ∧ c.flagFrames.length = c.totalFrames.toNat := by
  rw [evidenced] at h
  simp only [Bool.and_eq_true, decide_eq_true_eq] at h
  obtain ⟨⟨⟨-, hlt⟩, hle⟩, hspan⟩ := h
  exact ⟨⟨hlt, hle⟩, runsSpanFrames_spec hspan⟩

variable {c : SummonClipEvidence} {clips : List SummonClipEvidence}

theorem length_flagFrames_lt (h : evidenced c = true) : c.flagFrames.length < 2 ^ 32 :=
  (evidenced_spec h).2.2 ▸ c.totalFrames.toNat_lt

/-- A frame of a checked segment has a flag run. -/
theorem exists_flagFrame (h : evidenced c = true) {i : ℕ} (hi : c.Within i) : ∃ r, c.flagFrames[i]? = some r := by
  obtain ⟨⟨-, hle⟩, -, hspan⟩ := evidenced_spec h
  have hlt : i < c.flagFrames.length := by
    have hend := hi.2
    omega
  exact ⟨_, List.getElem?_eq_getElem hlt⟩

theorem flagsMeet_any {mask flags : UInt8} : flagsMeet mask false flags = true ↔ flags &&& mask ≠ 0 := bne_iff_ne

theorem flagsMeet_all {mask flags : UInt8} : flagsMeet mask true flags = true ↔ flags &&& mask = mask := beq_iff_eq

/-- A checked segment without a pedal is covered. -/
theorem covered_of_noPedal (h : evidenced c = true) (hpedal : noPedal c = true) : c.Covered := by
  obtain ⟨⟨hlt, hle⟩, hpos, hspan⟩ := evidenced_spec h
  refine ⟨hlt, hle, hspan, fun i hi => ?_⟩
  obtain ⟨r, hget⟩ := exists_flagFrame h hi
  refine ⟨r, hget, ?_⟩
  by_contra hmeet
  have hfound := (flagRunsOverlap_eq_true_iff hpos (length_flagFrames_lt h) hlt).mpr
    ⟨i, r, hi.1, hi.2, hget, flagsMeet_any.mpr hmeet⟩
  rw [noPedal, hfound] at hpedal
  exact nomatch hpedal

theorem bookendFrames_pos (c : SummonClipEvidence) : 0 < bookendFrames c := Nat.le_max_right _ _

/-- What is found about the hazards stands in the windows that they are meant for, also where the counter of the windows
wraps around: then it stands at their beginning. -/
theorem bracketed_of_hazard {first last : SummonClipEvidence} (hfirst : evidenced first = true) (hlast : evidenced last = true)
    (hstart : hazardAtStart first = true) (hend : hazardAtEnd last = true) : Bracketed first last := by
  constructor
  · obtain ⟨⟨hlt, -⟩, hpos, -⟩ := evidenced_spec hfirst
    obtain ⟨i, r, hlow, hhigh, hget, hmeet⟩ := exists_of_flagRunsOverlap hpos (length_flagFrames_lt hfirst) hstart
    have hbookend := bookendFrames_pos first
    have hmod := Nat.mod_le (first.startFrame.toNat + bookendFrames first) (2 ^ 32)
    exact ⟨i, r, hlow, by omega, hget, flagsMeet_all.mp hmeet⟩
  · obtain ⟨⟨hlt, hle⟩, hpos, -⟩ := evidenced_spec hlast
    obtain ⟨i, r, hlow, hhigh, hget, hmeet⟩ := exists_of_flagRunsOverlap hpos (length_flagFrames_lt hlast) hend
    have hbookend := bookendFrames_pos last
    have hmod := Nat.mod_le (last.endFrame.toNat + bookendFrames last) (2 ^ 32)
    exact ⟨i, r, hlow, by omega, hget, flagsMeet_all.mp hmeet⟩

/-- The speed gate, frame by frame where all frames have speeds. -/
theorem slow_spec {maxSpeedMps : F64} {hasSeiSpeeds : Bool} (hclips : ∀ c ∈ clips, evidenced c = true)
    (h : slow clips maxSpeedMps hasSeiSpeeds = true) : SlowFrames clips ∨ SlowDrive clips maxSpeedMps hasSeiSpeeds := by
  rw [slow] at h
  split at h
  · next speed hspeed =>
      rw [Bool.and_eq_true, Bool.not_eq_true', decide_eq_true_eq, decide_eq_false_iff_not, not_lt] at h
      obtain ⟨hpos, hmax⟩ := h
      rw [speedMps] at hspeed
      split at hspeed
      · next top htop =>
          rw [Option.some.inj hspeed] at htop
          obtain ⟨hall, hfrom⟩ := fastest_eq_some htop
          refine .inl ⟨fun c hc i hi => ?_, ?_⟩
          · obtain ⟨⟨hlt, -⟩, hruns, -⟩ := evidenced_spec (hclips c hc)
            obtain ⟨m, hm, hmle⟩ := hall c hc
            obtain ⟨r, hget⟩ := exists_flagFrame (hclips c hc) hi
            obtain ⟨v, hv, hvle⟩ := (segmentMaxSpeed_eq_some hruns (length_flagFrames_lt (hclips c hc)) hlt hm).1 i r hi hget
            exact ⟨r, v, hget, hv, by linarith⟩
          · obtain ⟨c, hc, hm⟩ := hfrom hpos
            obtain ⟨⟨hlt, -⟩, hruns, -⟩ := evidenced_spec (hclips c hc)
            obtain ⟨i, r, hi, hget, hv⟩ := (segmentMaxSpeed_eq_some hruns (length_flagFrames_lt (hclips c hc)) hlt hm).2 hpos
            exact ⟨c, hc, i, r, speed, hi, hget, hv, hpos⟩
      · next hnone =>
          obtain ⟨hsei, hfinite⟩ := Option.ite_none_right_eq_some.mp hspeed
          obtain ⟨c, hc, hm⟩ := fastest_eq_none hnone
          obtain ⟨⟨hlt, -⟩, hruns, -⟩ := evidenced_spec (hclips c hc)
          exact .inr ⟨⟨c, hc, segmentMaxSpeed_eq_none hruns (length_flagFrames_lt (hclips c hc)) hlt hm⟩, hsei,
            speed, hfinite, hpos, hmax⟩
  · exact nomatch h

/-- The Self Driving signature, frame by frame. -/
theorem selfDriven_of_selfDriving {first last : SummonClipEvidence} (hclips : ∀ c ∈ clips, evidenced c = true)
    (hlast : last ∈ clips) (h : selfDriving clips first last = true) :
    SelfDriven clips first last := by
  rw [selfDriving] at h
  simp only [Bool.and_eq_true, List.all_eq_true] at h
  obtain ⟨⟨⟨hstate, hstart⟩, hend⟩, hfsd⟩ := h
  have hevidence : ∀ c ∈ clips, c.apFrames.length = c.totalFrames.toNat ∧ c.gearFrames.length = c.totalFrames.toNat := by
    intro c hc
    obtain ⟨hap, hgear⟩ := Bool.and_eq_true_iff.mp (hstate c hc)
    exact ⟨(runsSpanFrames_spec hap).2, (runsSpanFrames_spec hgear).2⟩
  rw [mostlyFsd] at hfsd
  split at hfsd
  · exact nomatch hfsd
  · next n hn =>
      obtain ⟨hcount, htotal, hmodes⟩ := foldlM_addApFrames
        (fun c hc => ⟨(hevidence c hc).1, (evidenced_spec (hclips c hc)).1.2⟩) hn
      have hhalf := of_decide_eq_true (Bool.and_eq_true_iff.mp hfsd).2
      exact {
        evidence := hevidence
        starts := starts_of_segmentBoundedByPark hstart
        ends := ends_of_segmentBoundedByPark (evidenced_spec (hclips last hlast)).1.2 (hevidence last hlast).2 hend
        noOther := hmodes
        share := by omega }

/-- **A positive verdict is sound.** -/
theorem driverless_of_detectSummon {maxSpeedMps : F64} {durationMs : ℤ} {hasSeiSpeeds : Bool}
    (h : detectSummon clips maxSpeedMps durationMs hasSeiSpeeds = true) :
    Driverless clips maxSpeedMps durationMs hasSeiSpeeds := by
  rw [detectSummon] at h
  split at h
  · next first last hfirst hlast =>
      simp only [Bool.and_eq_true, Bool.or_eq_true, decide_eq_true_eq, List.all_eq_true, Bool.not_eq_true',
        decide_eq_false_iff_not, not_lt] at h
      obtain ⟨⟨⟨⟨⟨⟨hpos, hlong⟩, hclips⟩, htime⟩, hslow⟩, hpedal⟩, hsignature⟩ := h
      have hfirstMem := List.mem_of_mem_head? (Option.mem_def.mpr hfirst)
      have hlastMem := List.mem_of_mem_getLast? (Option.mem_def.mpr hlast)
      refine {
        duration := ⟨hpos, hlong⟩
        covered := fun c hc => covered_of_noPedal (hclips c hc) (hpedal c hc)
        time := time_of_rounded hlong (fun c hc => (evidenced_spec (hclips c hc)).1) htime
        speed := slow_spec hclips hslow
        signature := ⟨first, last, hfirst, hlast, ?_⟩ }
      rcases hsignature with ⟨hstart, hend⟩ | hself
      · exact .inl (bracketed_of_hazard (hclips first hfirstMem) (hclips last hlastMem) hstart hend)
      · exact .inr (selfDriven_of_selfDriving hclips hlastMem hself)
  · exact nomatch h

end Soundness

/-! ## Frame arithmetic -/

/-- The sums `frame + run.frames` of a walk, without a bound. -/
def frameSumsFrom : ℕ → List FlagRun → List ℕ
  | _, [] => []
  | pos, r :: runs => (pos + r.frames.toNat) :: frameSumsFrom (pos + r.frames.toNat) runs

def frameSums (runs : List FlagRun) : List ℕ := frameSumsFrom 0 runs

theorem le_of_mem_frameSumsFrom {pos s : ℕ} {runs : List FlagRun} (hs : s ∈ frameSumsFrom pos runs) :
    s ≤ pos + (expandRuns (counted FlagRun.frames runs)).length := by
  induction runs generalizing pos with
  | nil => exact nomatch hs
  | cons r runs ih =>
    rw [counted, List.map_cons, expandRuns_cons, List.length_append, List.length_replicate, ← Nat.add_assoc]
    rcases List.mem_cons.mp hs with rfl | hs
    · exact Nat.le_add_right _ _
    · exact ih hs

theorem bookendFrames_le (c : SummonClipEvidence) : bookendFrames c ≤ c.totalFrames.toNat / 6 + 1 := by
  rw [bookendFrames, summonBookendSeconds, clipDurationMs]
  omega

/-- **Summon detection is sound**: a positive verdict vouches for the drive; the walk over the flag runs finds what the
frames of its window show; and the frame counters stay in 32 bits. -/
theorem summon_sound :
    (∀ clips maxSpeedMps durationMs hasSeiSpeeds, detectSummon clips maxSpeedMps durationMs hasSeiSpeeds = true →
        Driverless clips maxSpeedMps durationMs hasSeiSpeeds)
      ∧ (∀ runs start stop mask requireAll, (∀ r ∈ runs, 0 < r.frames.toNat) →
        (expandRuns (counted FlagRun.frames runs)).length < 2 ^ 32 → start < stop →
        (flagRunsOverlap runs start stop mask requireAll = true
          ↔ ∃ i r, start ≤ i ∧ i < stop ∧ (expandRuns (counted FlagRun.frames runs))[i]? = some r
            ∧ flagsMeet mask requireAll r.flags = true))
      ∧ (∀ runs, (expandRuns (counted FlagRun.frames runs)).length < 2 ^ 32 →
        (∀ s ∈ frameSums runs, s < 2 ^ 32)
          ∧ ∀ start stop, runWindow (2 ^ 32) (counted FlagRun.frames runs) start stop
            = runWindow 0 (counted FlagRun.frames runs) start stop)
      ∧ ∀ c : SummonClipEvidence, c.startFrame.toNat < c.endFrame.toNat → c.endFrame.toNat ≤ c.totalFrames.toNat →
        7 * c.totalFrames.toNat ≤ 6 * (2 ^ 32 - 2) →
        c.startFrame.toNat + bookendFrames c < 2 ^ 32 ∧ c.endFrame.toNat + bookendFrames c < 2 ^ 32 := by
  refine ⟨fun _ _ _ _ h => driverless_of_detectSummon h, fun _ _ _ _ _ hpos htotal hlt =>
    flagRunsOverlap_eq_true_iff hpos htotal hlt, fun runs htotal => ⟨fun s hs => ?_, fun _ _ => runWindow_eq htotal⟩,
    fun c hlt hle hsmall => ?_⟩
  · have hle := le_of_mem_frameSumsFrom hs
    omega
  · have hbookend := bookendFrames_le c
    omega

/-- A minute between two flashes. -/
def flashed : SummonClipEvidence where
  flagRuns := [⟨hazard, 2, some 4607182418800017408⟩, ⟨0, 56, some 4607182418800017408⟩, ⟨hazard, 2, none⟩]
  apRuns := []
  gearRuns := []
  startFrame := 0
  endFrame := 58
  totalFrames := 60

/-- It is detected; each part of the result applies to its runs. -/
theorem summon_sound_flashed :
    Driverless [flashed] 0 60000 false
      ∧ (∃ i r, 0 ≤ i ∧ i < 60 ∧ (expandRuns (counted FlagRun.frames flashed.flagRuns))[i]? = some r
        ∧ flagsMeet hazard true r.flags = true)
      ∧ (∀ s ∈ frameSums flashed.flagRuns, s < 2 ^ 32)
      ∧ flashed.endFrame.toNat + bookendFrames flashed < 2 ^ 32 :=
  ⟨summon_sound.1 [flashed] 0 60000 false (by decide +kernel),
    (summon_sound.2.1 flashed.flagRuns 0 60 hazard true (by decide) (by decide) (by decide)).mp (by decide),
    (summon_sound.2.2.1 flashed.flagRuns (by decide)).1,
    (summon_sound.2.2.2 flashed (by decide) (by decide) (by decide)).2⟩

/-- A drive whose first frame is fast and whose second has no speed. -/
def fastFrame : SummonClipEvidence where
  flagRuns := [⟨hazard, 1, some 4621256167635550208⟩, ⟨hazard, 1, none⟩]
  apRuns := []
  gearRuns := []
  startFrame := 0
  endFrame := 2
  totalFrames := 2

/-- A segment of a long clip. One of 1073741824 and one of 3221225468 frames are a minute in all, less a few attoseconds. -/
def longClip (endFrame totalFrames : UInt32) : SummonClipEvidence where
  flagRuns := [⟨hazard, totalFrames, some 4607182418800017408⟩]
  apRuns := []
  gearRuns := []
  startFrame := 0
  endFrame := endFrame
  totalFrames := totalFrames

/-- What the walk finds need not stand in the window; the gate of a drive without all speeds lets a fast frame pass; the
doubles lose a part of the time; and a bookend reaches beyond 32 bits. -/
theorem not_summon_exact :
    (flagRunsOverlap [⟨hazard, 3, none⟩] 1 1 hazard true = true ∧ ¬∃ i, 1 ≤ i ∧ i < 1)
      ∧ (flagRunsOverlap [⟨0, 1, none⟩, ⟨hazard, 0, none⟩, ⟨0, 5, none⟩] 0 3 hazard true = true
        ∧ ∀ r ∈ expandRuns (counted FlagRun.frames [⟨0, 1, none⟩, ⟨hazard, 0, none⟩, ⟨0, 5, none⟩]), r.flags = 0)
      ∧ (detectSummon [fastFrame] 4607182418800017408 60000 true = true
        ∧ ∃ r ∈ fastFrame.flagFrames, runSpeed r = some 9)
      ∧ (detectSummon [longClip 1073741824 4294967295, longClip 3221225468 4294967291] 0 90000 false = true
        ∧ exactCoveredMs [longClip 1073741824 4294967295, longClip 3221225468 4294967291] < 90000 - 30000)
      ∧ 2 ^ 32 ≤ 4000000000 + bookendFrames (longClip 4294967295 4294967295) := by
  refine ⟨⟨by decide, by omega⟩, ⟨by decide, by decide⟩, ⟨by decide +kernel, by decide +kernel⟩, ?_, by decide⟩
  exact ⟨by decide +kernel, by decide +kernel⟩

end SentryUsb.Summon
