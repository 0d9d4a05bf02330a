import SentryUsb.Grouper.Clip
import SentryUsb.Library.RunLength
import SentryUsb.Video.SeiFields

/-! # What is extracted from a clip

The decoded frames of a clip are kept twice: gear, autopilot state and flags as runs over all frames, and everything of
a frame once for each new GPS fix (`extract.rs`).

* **`frameArrays`** — the decoded frames as arrays (`extract_from_mdat`);
* **`assembleExtracted`** — runs over all frames, then the arrays without repeated fixes (`assemble_extracted`);
* **`Coherent`** — what the runs and arrays have to say of the frames;
* **`coherent_assembleExtracted`** — and say, of fewer frames than their 32-bit counters can count. -/

namespace SentryUsb.Video

open Library

/-! ## Frames -/

def flagBlinkerLeft : UInt8 := 1

def flagBlinkerRight : UInt8 := 2

def flagBrake : UInt8 := 4

def flagAccel : UInt8 := 8

def gearParkCode : UInt8 := 0

/-- The flag byte of a frame. -/
def SeiFrame.flags (f : SeiFrame) : UInt8 :=
  (if f.blinkerLeft then flagBlinkerLeft else 0) ||| (if f.blinkerRight then flagBlinkerRight else 0)
    ||| (if f.brake then flagBrake else 0) ||| (if f.accelPos > 0.0 then flagAccel else 0)

/-- The fix of a frame, to six decimals. -/
def SeiFrame.point (f : SeiFrame) : GpsPoint :=
  ⟨(f.lat * 1000000.0).round / 1000000.0, (f.lon * 1000000.0).round / 1000000.0⟩

/-- One array for each channel, an entry for each frame (`RawFrameArrays`). -/
structure FrameArrays where
  points : List GpsPoint
  gears : List UInt8
  apStates : List UInt8
  speeds : List Float32
  accelPositions : List Float32
  flags : List UInt8
  accelX : List Float32
  accelY : List Float32

/-- The arrays of the decoded frames. -/
def frameArrays (frames : List SeiFrame) : FrameArrays where
  points := frames.map SeiFrame.point
  gears := frames.map SeiFrame.gear
  apStates := frames.map SeiFrame.apState
  speeds := frames.map SeiFrame.speed
  accelPositions := frames.map SeiFrame.accelPos
  flags := frames.map SeiFrame.flags
  accelX := frames.map SeiFrame.accelX
  accelY := frames.map SeiFrame.accelY

/-! ## Runs -/

/-- Runs and their counters are 32 bits wide. -/
def u32Modulus : Nat := 2 ^ 32

/-- A run of one gear, or of one autopilot state. -/
structure StateRun where
  state : UInt8
  frames : Nat
  deriving DecidableEq, Repr

structure FlagRun where
  flags : UInt8
  frames : Nat
  maxMps : Option Float

/-- A run as value and count. -/
def StateRun.pair (r : StateRun) : UInt8 × Nat := (r.state, r.frames)

def FlagRun.pair (r : FlagRun) : UInt8 × Nat := (r.flags, r.frames)

/-- The runs of an array of states. -/
def stateRuns (states : List UInt8) : List StateRun := (encodeRuns u32Modulus states).map fun r => ⟨r.1, r.2⟩

/-- `compute_gear_runs` -/
def computeGearRuns (gears : List UInt8) : List StateRun := stateRuns gears

/-- `compute_ap_runs` -/
def computeApRuns (apStates : List UInt8) : List StateRun := stateRuns apStates

/-- A speed to one decimal. -/
def r1 (v : Float) : Float := (v * 10.0).round / 10.0

/-- The magnitude of a frame's speed. -/
def speedAt (speeds : Option (List Float32)) (i : Nat) : Float :=
  ((speeds.bind fun s => s[i]?).map fun v => v.toFloat.abs).getD 0.0

/-- The flag runs of the rest of an array, within a run that has been counted up to frame `i`. -/
def flagRunsFrom (speeds : Option (List Float32)) (cur : UInt8) (count : Nat) (maxAbs : Float) (i : Nat) :
    List UInt8 → List FlagRun
  | [] => [⟨cur, count, speeds.map fun _ => r1 maxAbs⟩]
  | f :: rest =>
    if f = cur then
      let a := speedAt speeds i
      flagRunsFrom speeds cur ((count + 1) % u32Modulus) (if a > maxAbs then a else maxAbs) (i + 1) rest
    else ⟨cur, count, speeds.map fun _ => r1 maxAbs⟩ :: flagRunsFrom speeds f 1 (speedAt speeds i) (i + 1) rest

/-- `compute_flag_runs` -/
def computeFlagRuns (flags : List UInt8) (speeds : Option (List Float32)) : List FlagRun :=
  match flags with
  | [] => []
  | f :: rest => flagRunsFrom speeds f 1 (speedAt speeds 0) 1 rest

/-! ## Repeated fixes -/

/-- Equality of two fixes; what is no number equals nothing. -/
def samePoint (p q : GpsPoint) : Bool := p.lat == q.lat && p.lng == q.lng

/-- `l[write] = l[read]` -/
def copyEntry {α : Type} (l : List α) (write read : Nat) : List α := (l[read]?.map fun a => l.set write a).getD l

/-- Keep the stronger of two samples at `write`. -/
def foldPeak (l : List Float32) (write read : Nat) : List Float32 :=
  match l[read]?, l[write]? with
  | some a, some b => if a.abs > b.abs then l.set write a else l
  | _, _ => l

/-- The arrays that are kept for each fix. -/
structure PointArrays where
  points : List GpsPoint
  gears : List UInt8
  apStates : List UInt8
  speeds : List Float32
  accelPositions : List Float32
  accelX : List Float32
  accelY : List Float32

/-- One entry is read: a new fix is moved up, a repeated one is dropped, but for its samples. -/
def dedupEntry (hasImu : Bool) (state : Nat × PointArrays) (read : Nat) : Nat × PointArrays :=
  let (write, a) := state
  match a.points[read]?, a.points[write]? with
  | some p, some q =>
    if !samePoint p q then
      let write := write + 1
      (write,
        { points := copyEntry a.points write read
          gears := copyEntry a.gears write read
          apStates := copyEntry a.apStates write read
          speeds := copyEntry a.speeds write read
          accelPositions := copyEntry a.accelPositions write read
          accelX := if hasImu then copyEntry a.accelX write read else a.accelX
          accelY := if hasImu then copyEntry a.accelY write read else a.accelY })
    else if hasImu then
      (write, { a with accelX := foldPeak a.accelX write read, accelY := foldPeak a.accelY write read })
    else (write, a)
  | _, _ => (write, a)

/-- Drop the entries of repeated fixes, in place (`dedup_consecutive`). -/
def dedupConsecutive (a : PointArrays) : PointArrays :=
  if a.points.length ≤ 1 then a
  else
    let hasImu := a.accelX.length == a.points.length && a.accelY.length == a.points.length
    let (write, a) := (List.range' 1 (a.points.length - 1)).foldl (dedupEntry hasImu) (0, a)
    { points := a.points.take (write + 1)
      gears := a.gears.take (write + 1)
      apStates := a.apStates.take (write + 1)
      speeds := a.speeds.take (write + 1)
      accelPositions := a.accelPositions.take (write + 1)
      accelX := if hasImu then a.accelX.take (write + 1) else a.accelX
      accelY := if hasImu then a.accelY.take (write + 1) else a.accelY }

/-! ## Assembly -/

/-- What is extracted from a clip (`ExtractedGps`). -/
structure ExtractedGps where
  points : List GpsPoint
  gearStates : List UInt8
  autopilotStates : List UInt8
  speeds : List Float32
  accelPositions : List Float32
  rawParkCount : Nat
  rawFrameCount : Nat
  gearRuns : List StateRun
  flagRuns : List FlagRun
  apRuns : List StateRun
  accelX : List Float32
  accelY : List Float32

/-- Counts and runs of all frames first, then the arrays without repeated fixes (`assemble_extracted`). -/
def assembleExtracted (raw : FrameArrays) : ExtractedGps :=
  let noImu := raw.accelX.all (· == 0.0) && raw.accelY.all (· == 0.0)
  let kept := dedupConsecutive
    { points := raw.points
      gears := raw.gears
      apStates := raw.apStates
      speeds := raw.speeds
      accelPositions := raw.accelPositions
      accelX := if noImu then [] else raw.accelX
      accelY := if noImu then [] else raw.accelY }
  { points := kept.points
    gearStates := kept.gears
    autopilotStates := kept.apStates
    speeds := kept.speeds
    accelPositions := kept.accelPositions
    rawParkCount := (raw.gears.filter (· == gearParkCode)).length % u32Modulus
    rawFrameCount := raw.gears.length % u32Modulus
    gearRuns := computeGearRuns raw.gears
    flagRuns := computeFlagRuns raw.flags (some raw.speeds)
    apRuns := computeApRuns raw.apStates
    accelX := kept.accelX
    accelY := kept.accelY }

/-! ## Entries that are kept -/

theorem length_copyEntry {α : Type} (l : List α) (write read : Nat) : (copyEntry l write read).length = l.length := by
  unfold copyEntry
  cases l[read]? with
  | none => rfl
  | some a => exact List.length_set

theorem length_foldPeak (l : List Float32) (write read : Nat) : (foldPeak l write read).length = l.length := by
  unfold foldPeak
  split
  · split
    · exact List.length_set
    · rfl
  · rfl

/-- **The state of the loop before entry `read`**: every array has its length, and up to `write` no fix repeats the one
before it. -/
structure Deduped (n : Nat) (hasImu : Bool) (read : Nat) (state : Nat × PointArrays) : Prop where
  behind : state.1 < read
  points : state.2.points.length = n
  gears : state.2.gears.length = n
  apStates : state.2.apStates.length = n
  speeds : state.2.speeds.length = n
  accelPositions : state.2.accelPositions.length = n
  imu : hasImu = true → state.2.accelX.length = n ∧ state.2.accelY.length = n
  noImu : hasImu = false → state.2.accelX = [] ∧ state.2.accelY = []
  distinct : ∀ k p q, k < state.1 → state.2.points[k]? = some p → state.2.points[k + 1]? = some q →
    samePoint q p = false

variable {n : Nat} {hasImu : Bool} {read : Nat} {state : Nat × PointArrays}

/-- One entry keeps it. -/
theorem Deduped.entry (h : Deduped n hasImu read state) : Deduped n hasImu (read + 1) (dedupEntry hasImu state read) := by
  obtain ⟨write, a⟩ := state
  have hbehind : write < read := h.behind
  have hstay : Deduped n hasImu (read + 1) (write, a) := { h with behind := Nat.lt_succ_of_lt hbehind }
  unfold dedupEntry
  dsimp only
  split
  · rename_i p q hp hq
    split
    · -- a new fix is moved to the place after the last one
      rename_i hnew
      refine ⟨Nat.succ_lt_succ hbehind, ?_, ?_, ?_, ?_, ?_, fun himu => ?_, fun himu => ?_, ?_⟩
      · exact (length_copyEntry _ _ _).trans h.points
      · exact (length_copyEntry _ _ _).trans h.gears
      · exact (length_copyEntry _ _ _).trans h.apStates
      · exact (length_copyEntry _ _ _).trans h.speeds
      · exact (length_copyEntry _ _ _).trans h.accelPositions
      · dsimp only
        rw [if_pos himu, if_pos himu, length_copyEntry, length_copyEntry]
        exact h.imu himu
      · have hoff : ¬ hasImu = true := by simp [himu]
        dsimp only
        rw [if_neg hoff, if_neg hoff]
        exact h.noImu himu
      · intro k p' q' hk hp' hq'
        have hmoved : copyEntry a.points (write + 1) read = a.points.set (write + 1) p := by
          unfold copyEntry
          rw [hp]
          rfl
        dsimp only at hk hp' hq'
        rw [hmoved] at hp' hq'
        rw [List.getElem?_set_ne (by omega)] at hp'
        by_cases hlast : k = write
        · have hroom : write + 1 < a.points.length := by
            have := (List.getElem?_eq_some_iff.mp hp).1
            omega
          rw [hlast, List.getElem?_set_self hroom] at hq'
          rw [hlast, hq] at hp'
          rw [← Option.some.inj hp', ← Option.some.inj hq']
          exact Bool.not_eq_true' _ |>.mp hnew
        · rw [List.getElem?_set_ne (by omega)] at hq'
          exact h.distinct k p' q' (show k < write by omega) hp' hq'
    · split
      · rename_i himu
        refine { hstay with imu := fun _ => ?_, noImu := fun hoff => ?_ }
        · exact ⟨(length_foldPeak _ _ _).trans (h.imu himu).1, (length_foldPeak _ _ _).trans (h.imu himu).2⟩
        · exact absurd himu (by simp [hoff])
      · exact hstay
  · exact hstay

/-- And so does every stretch of entries. -/
theorem Deduped.entries (h : Deduped n hasImu read state) (m : Nat) :
    Deduped n hasImu (read + m) ((List.range' read m).foldl (dedupEntry hasImu) state) := by
  induction m generalizing read state with
  | zero => exact h
  | succ m ih =>
    rw [List.range'_succ, List.foldl_cons]
    have hrest := ih h.entry
    rw [Nat.add_right_comm] at hrest
    exact hrest

/-- **Arrays of one length without repeated fixes**; the samples may be absent as a whole. -/
structure WellKept (a : PointArrays) : Prop where
  gears : a.gears.length = a.points.length
  apStates : a.apStates.length = a.points.length
  speeds : a.speeds.length = a.points.length
  accelPositions : a.accelPositions.length = a.points.length
  imu : (a.accelX.length = a.points.length ∧ a.accelY.length = a.points.length) ∨ (a.accelX = [] ∧ a.accelY = [])
  distinct : ∀ k p q, a.points[k]? = some p → a.points[k + 1]? = some q → samePoint q p = false

/-- Dropping the entries of repeated fixes leaves arrays of one length without them. -/
theorem wellKept_dedupConsecutive {a : PointArrays} (hgears : a.gears.length = a.points.length)
    (hap : a.apStates.length = a.points.length) (hspeeds : a.speeds.length = a.points.length)
    (haccel : a.accelPositions.length = a.points.length)
    (himu : (a.accelX.length = a.points.length ∧ a.accelY.length = a.points.length) ∨ (a.accelX = [] ∧ a.accelY = [])) :
    WellKept (dedupConsecutive a) := by
  unfold dedupConsecutive
  split
  · -- at most one point
    rename_i hone
    refine ⟨hgears, hap, hspeeds, haccel, himu, fun k p q _ hq => ?_⟩
    have := (List.getElem?_eq_some_iff.mp hq).1
    omega
  · rename_i hmany
    dsimp only
    generalize hflag : (a.accelX.length == a.points.length && a.accelY.length == a.points.length) = hasImu
    have hstart : Deduped a.points.length hasImu 1 (0, a) := by
      refine ⟨Nat.one_pos, rfl, hgears, hap, hspeeds, haccel, fun hon => ?_, fun hoff => ?_, fun k _ _ hk => ?_⟩
      · rw [hon, Bool.and_eq_true, beq_iff_eq, beq_iff_eq] at hflag
        exact hflag
      · rcases himu with ⟨hx, hy⟩ | hnone
        · rw [hoff, hx, hy] at hflag
          simp at hflag
        · exact hnone
      · exact absurd hk (Nat.not_lt_zero k)
    have hend := hstart.entries (a.points.length - 1)
    rw [Nat.add_sub_cancel' (by omega)] at hend
    generalize (List.range' 1 (a.points.length - 1)).foldl (dedupEntry hasImu) (0, a) = final at hend
    have hbehind := hend.behind
    refine ⟨?_, ?_, ?_, ?_, ?_, fun k p q hp hq => ?_⟩
    · rw [List.length_take, List.length_take, hend.points, hend.gears]
    · rw [List.length_take, List.length_take, hend.points, hend.apStates]
    · rw [List.length_take, List.length_take, hend.points, hend.speeds]
    · rw [List.length_take, List.length_take, hend.points, hend.accelPositions]
    · dsimp only
      by_cases hon : hasImu = true
      · refine .inl ⟨?_, ?_⟩
        · rw [if_pos hon, List.length_take, List.length_take, hend.points, (hend.imu hon).1]
        · rw [if_pos hon, List.length_take, List.length_take, hend.points, (hend.imu hon).2]
      · refine .inr ⟨?_, ?_⟩
        · rw [if_neg hon, (hend.noImu (Bool.eq_false_iff.mpr hon)).1]
        · rw [if_neg hon, (hend.noImu (Bool.eq_false_iff.mpr hon)).2]
    · have hk := (List.getElem?_eq_some_iff.mp hq).1
      rw [List.length_take] at hk
      rw [List.getElem?_take_of_lt (by omega)] at hp hq
      exact hend.distinct k p q (by omega) hp hq

/-! ## Coherence -/

/-- **What is extracted agrees with the frames**: the runs of each channel stand for it and sum to the frame count, the
arrays have one length and no repeated fix, and the park count is right. -/
structure Coherent (frames : List SeiFrame) (e : ExtractedGps) : Prop where
  gearRuns : Encodes (e.gearRuns.map StateRun.pair) (frames.map SeiFrame.gear)
  apRuns : Encodes (e.apRuns.map StateRun.pair) (frames.map SeiFrame.apState)
  flagRuns : Encodes (e.flagRuns.map FlagRun.pair) (frames.map SeiFrame.flags)
  frameCount : e.rawFrameCount = frames.length
  sums : (e.gearRuns.map StateRun.frames).sum = e.rawFrameCount ∧ (e.apRuns.map StateRun.frames).sum = e.rawFrameCount
    ∧ (e.flagRuns.map FlagRun.frames).sum = e.rawFrameCount
  kept : WellKept ⟨e.points, e.gearStates, e.autopilotStates, e.speeds, e.accelPositions, e.accelX, e.accelY⟩
  parkCount : e.rawParkCount = (frames.filter fun f => f.gear == gearParkCode).length

theorem map_pair_stateRuns (states : List UInt8) : (stateRuns states).map StateRun.pair = encodeRuns u32Modulus states := by
  unfold stateRuns
  rw [List.map_map]
  exact List.map_id _

/-- The flag runs are the runs of the flags; the speeds they carry decide nothing. -/
theorem map_pair_computeFlagRuns (flags : List UInt8) (speeds : Option (List Float32)) :
    (computeFlagRuns flags speeds).map FlagRun.pair = encodeRuns u32Modulus flags := by
  have hfrom : ∀ (l : List UInt8) cur count maxAbs i,
      (flagRunsFrom speeds cur count maxAbs i l).map FlagRun.pair = runsFrom u32Modulus cur count l := by
    intro l
    induction l with
    | nil => exact fun _ _ _ _ => rfl
    | cons f l ih =>
      intro cur count maxAbs i
      rw [flagRunsFrom, runsFrom]
      split
      · exact ih _ _ _ _
      · rw [List.map_cons, ih]
        rfl
  cases flags with
  | nil => rfl
  | cons f rest => exact hfrom rest f 1 _ 1

/-- **The extraction of fewer than 2^32 frames agrees with them.** -/
theorem coherent_assembleExtracted {frames : List SeiFrame} (h : frames.length < 2 ^ 32) :
    Coherent frames (assembleExtracted (frameArrays frames)) := by
  have hstates : ∀ states : List UInt8, states.length = frames.length →
      Encodes ((stateRuns states).map StateRun.pair) states := fun states hlen => by
    rw [map_pair_stateRuns]
    exact encodes_encodeRuns (hlen ▸ h)
  have hflags : Encodes ((computeFlagRuns (frames.map SeiFrame.flags) (some (frames.map SeiFrame.speed))).map FlagRun.pair)
      (frames.map SeiFrame.flags) := by
    rw [map_pair_computeFlagRuns]
    exact encodes_encodeRuns (by rw [List.length_map]; exact h)
  have hgears := hstates (frames.map SeiFrame.gear) (List.length_map _)
  have haps := hstates (frames.map SeiFrame.apState) (List.length_map _)
  have hcount : (frames.map SeiFrame.gear).length % u32Modulus = frames.length := by
    rw [List.length_map]
    exact Nat.mod_eq_of_lt h
  refine ⟨hgears, haps, hflags, hcount, ⟨?_, ?_, ?_⟩, ?_, ?_⟩
  · refine Eq.trans ?_ (hgears.sums.trans ((List.length_map _).trans hcount.symm))
    rw [List.map_map]
    rfl
  · refine Eq.trans ?_ (haps.sums.trans ((List.length_map _).trans hcount.symm))
    rw [List.map_map]
    rfl
  · refine Eq.trans ?_ (hflags.sums.trans ((List.length_map _).trans hcount.symm))
    rw [List.map_map]
    rfl
  · refine wellKept_dedupConsecutive ?_ ?_ ?_ ?_ ?_
    · exact (List.length_map _).trans (List.length_map _).symm
    · exact (List.length_map _).trans (List.length_map _).symm
    · exact (List.length_map _).trans (List.length_map _).symm
    · exact (List.length_map _).trans (List.length_map _).symm
    · dsimp only
      split
      · exact .inr ⟨rfl, rfl⟩
      · exact .inl ⟨(List.length_map _).trans (List.length_map _).symm, (List.length_map _).trans (List.length_map _).symm⟩
  · have hpark : ((frames.map SeiFrame.gear).filter (· == gearParkCode)).length
        = (frames.filter fun f => f.gear == gearParkCode).length := by
      rw [List.filter_map, List.length_map]
      rfl
    exact (Nat.mod_eq_of_lt (lt_of_le_of_lt (List.length_filter_le _ _) ((List.length_map _).trans_lt h))).trans hpark

/-- Two frames, the second of them in Park. -/
theorem coherent_twoFrames :
    Coherent [{ gear := 1 }, { gear := 0 }] (assembleExtracted (frameArrays [{ gear := 1 }, { gear := 0 }])) :=
  coherent_assembleExtracted (by decide)

/-- 2^32 parked frames are one run of no frames. -/
theorem not_coherent_assembleExtracted :
    ¬ ∀ frames : List SeiFrame, Coherent frames (assembleExtracted (frameArrays frames)) := by
  intro h
  obtain ⟨n, hn⟩ : ∃ n, u32Modulus = n + 1 := ⟨2 ^ 32 - 1, rfl⟩
  have hpositive := (h (List.replicate (n + 1) {})).gearRuns.positive (0, 0)
  refine absurd (hpositive ?_) (Nat.lt_irrefl 0)
  change (0, 0) ∈ (stateRuns ((List.replicate (n + 1) ({} : SeiFrame)).map SeiFrame.gear)).map StateRun.pair
  rw [map_pair_stateRuns, List.map_replicate, encodeRuns_replicate (by decide), ← hn, Nat.mod_self]
  exact List.mem_singleton_self _

end SentryUsb.Video
