import Mathlib

/-! # Clips: paths, clip timestamps and the stored rows

The vocabulary the grouper works over. A clip is known by its path, whose last component carries the
recording time (`YYYY-MM-DD_HH-MM-SS`, with an optional camera suffix). Instants are whole
milliseconds counted from `0000-01-01T00:00:00`, the first date a file name can spell, and a path is
its list of characters: UTF-8 keeps code-point order, so comparing paths here is the byte comparison
SQLite and the sort calls of the source make.

* **`parseClipTimestamp`** — the clip time of a path (`grouper.rs`, `parse_clip_timestamp`);
* **`isEventFolderPath`** — whether a path lives under `SavedClips/` or `SentryClips/`;
* **`Route`**, **`RouteSummary`** — a stored clip with its per-point arrays, and without them. -/

namespace SentryUsb

/-- A path or any other stored text, as its characters. -/
abbrev Text := List Char

instance : LawfulBEq Text := List.instLawfulBEq

/-! ## Grouping constants (milliseconds) -/

/-- Time gap that splits clips into separate drives (5 minutes). -/
def driveGapMs : Int := 5 * 60 * 1000

/-- Minimum gap between consecutive continuous clips that counts as a recording hole. -/
def gapFillMinMs : Int := 90 * 1000

/-- Widest hole event clips may fill, and the farthest a chained fill may sit from a clip. -/
def gapFillMaxMs : Int := 30 * 60 * 1000

/-- Chain hop window between neighbouring clips of one cluster. -/
def gapFillAdjMs : Int := 3 * 60 * 1000

/-- Duplicate window after a clip within which an event clip is the same recorder segment. -/
def gapFillDupMs : Int := 30 * 1000

/-- Nominal clip length. -/
def clipDurationMs : Int := 60000

/-- Minimum Park duration that ends the current drive within a clip. -/
def parkGapMs : Nat := 2000

theorem window_values : driveGapMs = 300000 ∧ gapFillMinMs = 90000 ∧ gapFillMaxMs = 1800000
    ∧ gapFillAdjMs = 180000 ∧ gapFillDupMs = 30000 ∧ clipDurationMs = 60000 := by decide

/-! ## Calendar -/

/-- Whether a year has a 29th of February in the proleptic Gregorian calendar. -/
def isLeapYear (y : Nat) : Bool := (y % 4 == 0 && y % 100 != 0) || y % 400 == 0

/-- Days in a month (`1 ≤ m ≤ 12`). -/
def daysInMonth (y m : Nat) : Nat :=
  if m == 2 then (if isLeapYear y then 29 else 28)
  else if m == 4 || m == 6 || m == 9 || m == 11 then 30 else 31

/-- Day number of a civil date, `0` for `0000-01-01`. -/
def dayNumber (y m d : Nat) : Nat :=
  365 * y + (y + 3) / 4 - (y + 99) / 100 + (y + 399) / 400
    + ((List.range (m - 1)).map fun i => daysInMonth y (i + 1)).sum + (d - 1)

/-- The instant of a calendar date and time of day, if the fields are in range. A leap second `:60`
is one second after `:59`. -/
def instantOf (y m d hh mm ss : Nat) : Option Int :=
  if 1 ≤ m ∧ m ≤ 12 ∧ 1 ≤ d ∧ d ≤ daysInMonth y m ∧ hh < 24 ∧ mm < 60 ∧ ss ≤ 60 then
    some ((((dayNumber y m d * 24 + hh) * 60 + mm) * 60 + ss) * 1000 : Nat)
  else none

/-! ## Paths -/

/-- Backslashes of Windows exports read as slashes (`replace('\\', "/")`). -/
def normSlashes (t : Text) : Text := t.map fun c => if c = '\\' then '/' else c

/-- The last component of a path (`rsplit('/').next()`). -/
def baseName (t : Text) : Text := (t.reverse.takeWhile (· ≠ '/')).reverse

/-- Whether `pat` occurs somewhere in `t`. -/
def containsText (pat t : Text) : Bool := t.tails.any pat.isPrefixOf

/-- Decimal value of `n` digits of `t` from position `i`; `none` unless all are digits. -/
def digitsAt (t : Text) (i n : Nat) : Option Nat :=
  let f := (t.drop i).take n
  if f.length = n ∧ f.all Char.isDigit then
    some (f.foldl (fun acc c => acc * 10 + (c.toNat - '0'.toNat)) 0)
  else none

/-- The instant spelled `YYYY-MM-DD_HH-MM-SS` at the start of a text. -/
def stampAt (t : Text) : Option Int :=
  if t[4]? = some '-' ∧ t[7]? = some '-' ∧ t[10]? = some '_' ∧ t[13]? = some '-'
      ∧ t[16]? = some '-' then do
    let y ← digitsAt t 0 4
    let m ← digitsAt t 5 2
    let d ← digitsAt t 8 2
    let hh ← digitsAt t 11 2
    let mm ← digitsAt t 14 2
    let ss ← digitsAt t 17 2
    instantOf y m d hh mm ss
  else none

/-- First timestamp spelled anywhere in a text (`parse_file_timestamp`): a left-to-right scan that
passes over spellings which are not a calendar date. -/
def parseFileTimestamp (t : Text) : Option Int := t.tails.findSome? stampAt

/-- Clip time of a path: the timestamp of its last component, since an event folder's own name
matches the pattern too (`parse_clip_timestamp`). -/
def parseClipTimestamp (file : Text) : Option Int :=
  parseFileTimestamp (baseName (normSlashes file))

/-- Whether a path lives under a Tesla event folder (`is_event_folder_path`). -/
def isEventFolderPath (file : Text) : Bool :=
  "SavedClips/".toList.isPrefixOf (normSlashes file)
    || "SentryClips/".toList.isPrefixOf (normSlashes file)

@[simp] theorem normSlashes_normSlashes (t : Text) : normSlashes (normSlashes t) = normSlashes t := by
  unfold normSlashes
  rw [List.map_map]
  refine List.map_congr_left fun c _ => ?_
  by_cases h : c = '\\' <;> simp [h]

theorem parseClipTimestamp_congr {f g : Text} (h : normSlashes f = normSlashes g) :
    parseClipTimestamp f = parseClipTimestamp g := by
  rw [parseClipTimestamp, parseClipTimestamp, h]

example : parseClipTimestamp "SentryClips/2025-01-02_09-00-00/2025-01-02_08-59-10-front.mp4".toList
    = stampAt "2025-01-02_08-59-10".toList := by decide

/-! ## Stored rows -/

/-- A contiguous run of a single gear state across frames (`gear : u8`, `frames : u32`). -/
structure GearRun where
  gear : Nat
  frames : Nat
  deriving DecidableEq, Repr

/-- Gear code of Park. -/
abbrev gearPark : Nat := 0

/-- A GPS fix: latitude and longitude. -/
structure GpsPoint where
  lat : Float
  lng : Float
  deriving Repr

/-- A stored clip with its per-point arrays. `columns` stands for the remaining columns (date,
autopilot and flag runs, telemetry rollup): the grouper copies them and never branches on them. -/
structure Route where
  file : Text
  points : List GpsPoint
  gearStates : List Nat
  autopilotStates : List Nat
  speeds : List Float32
  accelPositions : List Float32
  accelX : List Float32
  accelY : List Float32
  rawParkCount : Nat
  rawFrameCount : Nat
  gearRuns : List GearRun
  source : Option Text
  externalSignature : Option Text
  columns : List UInt8

/-- A stored clip without its point arrays: metadata plus aggregate columns. `maxSpeedMps` is the
aggregate the gap-fill admission reads; `columns` are the other stored columns, which only the
per-drive statistics read. -/
structure RouteSummary where
  file : Text
  rawParkCount : Nat
  rawFrameCount : Nat
  gearRuns : List GearRun
  source : Option Text
  externalSignature : Option Text
  maxSpeedMps : Float
  columns : List UInt8

/-- Whether a clip can bound another one's span: native footage, not a synthetic gap-fill bridge
(`bounds_clip_span`). -/
def boundsClipSpan (source : Option Text) (file : Text) : Bool :=
  (source.all fun s => s = "sei".toList) && !containsText "-front-bridge.mp4".toList file

/-! ## Evidence of driving -/

/-- Gap-fill driving verdict over reduced facts (`telemetry_has_driving_core`). -/
def telemetryHasDrivingCore (gearRunsNonPark gearRunsEmpty gearStatesNonPark gearStatesEmpty : Bool)
    (rawParkCount rawFrameCount : Nat) (speedsDriving : Bool) : Bool :=
  gearRunsNonPark || gearStatesNonPark
    || (gearRunsEmpty && gearStatesEmpty && decide (0 < rawFrameCount)
      && decide (rawParkCount < rawFrameCount))
    || speedsDriving

/-- Any speed sample above a crawl, in either direction (`speeds_driving`). -/
def speedsDriving (speeds : List Float32) : Bool := speeds.any fun s => decide (0.5 < s.abs)

/-- Any gear run outside Park. -/
def runsNonPark (runs : List GearRun) : Bool := runs.any fun r => r.gear != gearPark

/-- SEI verdict over a clip's telemetry arrays (`telemetry_has_driving`). -/
def telemetryHasDriving (runs : List GearRun) (states : List Nat) (speeds : List Float32)
    (rawParkCount rawFrameCount : Nat) : Bool :=
  telemetryHasDrivingCore (runsNonPark runs) runs.isEmpty (states.any (· != gearPark))
    states.isEmpty rawParkCount rawFrameCount (speedsDriving speeds)

/-- Positive gear evidence only (`telemetry_gear_driving`). -/
def telemetryGearDriving (runs : List GearRun) (states : List Nat) : Bool :=
  runsNonPark runs || states.any (· != gearPark)

/-- `telemetry_has_driving` over a full row. -/
def routeHasDriving (r : Route) : Bool :=
  telemetryHasDriving r.gearRuns r.gearStates r.speeds r.rawParkCount r.rawFrameCount

/-- `telemetry_has_driving` over a stored summary row, with the aggregate top speed standing in for
the samples (`row_has_driving`, `summary_has_driving`). -/
def summaryHasDriving (s : RouteSummary) : Bool :=
  telemetryHasDriving s.gearRuns [] [] s.rawParkCount s.rawFrameCount || decide (0.5 < s.maxSpeedMps)

end SentryUsb
