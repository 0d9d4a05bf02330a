import SentryUsb.Library.FixedStride
import SentryUsb.Library.SortedMap
import SentryUsb.Grouper.Clip

/-! # Rows of the routes table

A clip as the extractor or a backup hands it over, and as the `routes` table keeps it: scalars in columns, the point
channels and the runs as byte strings. Floating-point numbers are their bit patterns, which the byte formats keep.

* **`encodePoints`**, **`encodeF32s`**, **`encodeGearRuns`**, … — the byte formats (`blob.rs`);
* **`RouteRow`** — a row; **`RouteRow.content`** — the channels read back;
* **`insertOrUpdateRoute`**, **`insertImportedRoute`** — the two upserts (`db.rs`, `json_compat.rs`);
* **`content_routeRow`**, **`content_mergedRow`** — what is read back after each. -/

namespace SentryUsb.Store

open Library

/-- The bit pattern of a double. -/
abbrev F64 := UInt64

/-- The bit pattern of a single. -/
abbrev F32 := UInt32

/-- The content of a blob column. -/
abbrev Bytes := List UInt8

/-! ## Clips -/

/-- A GPS fix. -/
structure Point where
  lat : F64
  lng : F64
  deriving DecidableEq

/-- A run of one gear or one autopilot state over frames (`GearRun`, `ApRun`). -/
structure StateRun where
  state : UInt8
  frames : UInt32
  deriving DecidableEq

/-- A run of one flag byte over frames, with the top speed in it (`FlagRun`). -/
structure FlagRun where
  flags : UInt8
  frames : UInt32
  maxMps : Option F64
  deriving DecidableEq

/-- What the vehicle reported over a clip's minute: rollups of the telemetry samples. -/
structure Telemetry where
  batteryPctStart : Option F64
  batteryPctEnd : Option F64
  interiorTempMin : Option F64
  interiorTempMax : Option F64
  exteriorTempAvg : Option F64
  hvacRuntimeS : Option Int
  tireFlPsi : Option F64
  tireFrPsi : Option F64
  tireRlPsi : Option F64
  tireRrPsi : Option F64
  odometerMiStart : Option F64
  odometerMiEnd : Option F64
  locationNameStart : Option Text
  locationNameEnd : Option Text
  deriving DecidableEq

/-- A clip with its channels (`Route`). -/
structure Route where
  file : Text
  date : Text
  points : List Point
  gearStates : List UInt8
  autopilotStates : List UInt8
  speeds : List F32
  accelPositions : List F32
  rawParkCount : UInt32
  rawFrameCount : UInt32
  gearRuns : List StateRun
  flagRuns : List FlagRun
  apRuns : List StateRun
  accelX : List F32
  accelY : List F32
  source : Option Text
  externalSignature : Option Text
  tessieAutopilotPercent : Option F64
  telemetry : Telemetry
  deriving DecidableEq

/-- The folder of the snapshot layout. -/
def recentClips : Text := "RecentClips/".toList

/-- Canonical key of a clip path: forward slashes, less the `RecentClips/` of the snapshot layout unless nothing
follows it (`normalize_path`). -/
def normalizePath (p : Text) : Text :=
  let n := normSlashes p
  if recentClips.isPrefixOf n && !(n.drop recentClips.length).isEmpty then n.drop recentClips.length else n

/-! ## Byte formats -/

/-- Four bytes to a single. -/
def f32Stride : Stride F32 where
  width := 4
  write v := leBytes 4 v.toNat
  read b := UInt32.ofNat (leValue b)
  width_pos := by decide
  length_write v := length_leBytes 4 v.toNat
  read_write v := by rw [leValue_leBytes_of_lt v.toNat_lt, UInt32.ofNat_toNat]

/-- Sixteen bytes to a fix: latitude, then longitude. -/
def pointStride : Stride Point where
  width := 16
  write p := leBytes 8 p.lat.toNat ++ leBytes 8 p.lng.toNat
  read b := ⟨UInt64.ofNat (leValue (b.take 8)), UInt64.ofNat (leValue (b.drop 8))⟩
  width_pos := by decide
  length_write p := by rw [List.length_append, length_leBytes, length_leBytes]
  read_write p := by
    rw [List.take_left' (length_leBytes 8 _), List.drop_left' (length_leBytes 8 _),
      leValue_leBytes_of_lt p.lat.toNat_lt, leValue_leBytes_of_lt p.lng.toNat_lt, UInt64.ofNat_toNat,
      UInt64.ofNat_toNat]

/-- One byte of state and four of frames; the frames are written as a signed word of the same bits. -/
def runStride : Stride StateRun where
  width := 5
  write r := r.state :: leBytes 4 r.frames.toNat
  read b := ⟨b.headD 0, UInt32.ofNat (leValue b.tail)⟩
  width_pos := by decide
  length_write r := by rw [List.length_cons, length_leBytes]
  read_write r := by
    rw [List.headD_cons, List.tail_cons, leValue_leBytes_of_lt r.frames.toNat_lt, UInt32.ofNat_toNat]

/-- A flag run as stored: the top speed is a single, and not a number stands for none. -/
structure StoredFlagRun where
  flags : UInt8
  frames : UInt32
  maxBits : F32
  deriving DecidableEq

/-- One byte of flags, four of frames, four of speed. -/
def flagStride : Stride StoredFlagRun where
  width := 9
  write r := r.flags :: (leBytes 4 r.frames.toNat ++ leBytes 4 r.maxBits.toNat)
  read b := ⟨b.headD 0, UInt32.ofNat (leValue (b.tail.take 4)), UInt32.ofNat (leValue (b.tail.drop 4))⟩
  width_pos := by decide
  length_write r := by rw [List.length_cons, List.length_append, length_leBytes, length_leBytes]
  read_write r := by
    rw [List.headD_cons, List.tail_cons, List.take_left' (length_leBytes 4 _), List.drop_left' (length_leBytes 4 _),
      leValue_leBytes_of_lt r.frames.toNat_lt, leValue_leBytes_of_lt r.maxBits.toNat_lt, UInt32.ofNat_toNat,
      UInt32.ofNat_toNat]

/-- A double narrowed to a single. -/
def narrow (m : F64) : F32 := (Float.ofBits m).toFloat32.toBits

/-- Not a number. -/
def f32Nan : F32 := 0x7fc00000

/-- A single read as a speed with one decimal, if it is finite. -/
def tenths (x : F32) : Option F64 :=
  let f := (Float32.ofBits x).toFloat
  if f.isFinite then some ((f * 10.0).round / 10.0).toBits else none

def FlagRun.stored (r : FlagRun) : StoredFlagRun := ⟨r.flags, r.frames, (r.maxMps.map narrow).getD f32Nan⟩

def StoredFlagRun.run (r : StoredFlagRun) : FlagRun := ⟨r.flags, r.frames, tenths r.maxBits⟩

def encodePoints (l : List Point) : Bytes := pointStride.encode l
def encodeF32s (l : List F32) : Bytes := f32Stride.encode l
def encodeRuns (l : List StateRun) : Bytes := runStride.encode l
def encodeFlagRuns (l : List FlagRun) : Bytes := flagStride.encode (l.map FlagRun.stored)

/-- A blob column read with its format: no blob is the empty list, a blob of the wrong length an error. -/
def decodeWith {α : Type*} (decode : Bytes → Option (List α)) (blob : Option Bytes) : Option (List α) :=
  (blob.map decode).getD (some [])

def decodePoints : Option Bytes → Option (List Point) := decodeWith pointStride.decode
def decodeU8s (blob : Option Bytes) : List UInt8 := blob.getD []
def decodeF32s : Option Bytes → Option (List F32) := decodeWith f32Stride.decode
def decodeRuns : Option Bytes → Option (List StateRun) := decodeWith runStride.decode
def decodeFlagRuns : Option Bytes → Option (List FlagRun) :=
  decodeWith fun b => (flagStride.decode b).map (List.map StoredFlagRun.run)

/-- A channel that is absent when it is empty: nothing is stored for it. -/
def unlessEmpty {α : Type*} (encode : List α → Bytes) (l : List α) : Option Bytes :=
  if l.isEmpty then none else some (encode l)

section Blobs

variable {α : Type*} (s : Stride α)

@[simp] theorem decodeWith_encode (l : List α) : decodeWith s.decode (some (s.encode l)) = some l := s.decode_encode l

@[simp] theorem decodeWith_unlessEmpty (l : List α) : decodeWith s.decode (unlessEmpty s.encode l) = some l := by
  unfold unlessEmpty
  cases l with
  | nil => rfl
  | cons a l => exact s.decode_encode (a :: l)

theorem unlessEmpty_eq_none {encode : List α → Bytes} {l : List α} : unlessEmpty encode l = none ↔ l = [] := by
  unfold unlessEmpty
  cases l with
  | nil => simp
  | cons a l => simp

end Blobs

/-! ## Rows -/

/-- The columns the aggregates of a clip are stored in. -/
inductive AggregateColumn where
  | distanceM | maxSpeedMps | avgSpeedMps | speedSampleCount | validPointCount
  | fsdEngagedMs | autosteerEngagedMs | taccEngagedMs
  | fsdDistanceM | autosteerDistanceM | taccDistanceM | assistedDistanceM
  | fsdDisengagements | fsdAccelPushes
  | startLat | startLon | endLat | endLon
  | fsdPendMsEnd | parkMsStart | fsdAtEnd | fsdAccelPushesEarly | apAtStart
  | seiSpeedAbsMax
  | safetyHardBrakeMs | safetyHardBrakeEvents | safetyAggrTurnMs | safetyAggrTurnEvents
  | safetySpeedingMs | safetyMovingMs | safetyManualMovingMs | safetyBrakeAnyMs | safetyTurnAnyMs
  | apAtEnd | safetyImuMovingMs | safetyNightMs | safetyNightWeightedMs | safetyGraceMsEnd | safetyGracePrefixBlob
  deriving DecidableEq

/-- The aggregate columns of a row; `none` is NULL. -/
abbrev Aggregates (V : Type*) := AggregateColumn → Option V

variable {V : Type*}

/-- A row of `routes`: the columns its writers set, less the cloud bookkeeping they leave alone. -/
structure RouteRow (V : Type*) where
  dateDir : Text
  pointCount : Nat
  rawParkCount : UInt32
  rawFrameCount : UInt32
  firstFix : Option Point
  pointsBlob : Option Bytes
  gearStatesBlob : Option Bytes
  apStatesBlob : Option Bytes
  speedsBlob : Option Bytes
  accelBlob : Option Bytes
  gearRunsBlob : Option Bytes
  flagRunsBlob : Option Bytes
  accelXBlob : Option Bytes
  accelYBlob : Option Bytes
  apRunsBlob : Option Bytes
  updatedAt : Int
  source : Option Text
  externalSignature : Option Text
  tessieAutopilotPercent : Option F64
  telemetry : Telemetry
  aggregates : Aggregates V

/-- The table: rows by canonical path. -/
abbrev Routes (V : Type*) := SortedMap Text (RouteRow V)

/-- The row of a clip. The runs of flags and autopilot states and the two acceleration channels are absent when empty;
the other channels are stored even then. -/
def routeRow (r : Route) (a : Aggregates V) (now : Int) : RouteRow V where
  dateDir := r.date
  pointCount := r.points.length
  rawParkCount := r.rawParkCount
  rawFrameCount := r.rawFrameCount
  firstFix := r.points.head?
  pointsBlob := some (encodePoints r.points)
  gearStatesBlob := some r.gearStates
  apStatesBlob := some r.autopilotStates
  speedsBlob := some (encodeF32s r.speeds)
  accelBlob := some (encodeF32s r.accelPositions)
  gearRunsBlob := some (encodeRuns r.gearRuns)
  flagRunsBlob := unlessEmpty encodeFlagRuns r.flagRuns
  accelXBlob := unlessEmpty encodeF32s r.accelX
  accelYBlob := unlessEmpty encodeF32s r.accelY
  apRunsBlob := unlessEmpty encodeRuns r.apRuns
  updatedAt := now
  source := r.source
  externalSignature := r.externalSignature
  tessieAutopilotPercent := r.tessieAutopilotPercent
  telemetry := r.telemetry
  aggregates := a

/-- Telemetry that is there, else what was there (`COALESCE`). -/
def Telemetry.coalesce (new old : Telemetry) : Telemetry where
  batteryPctStart := new.batteryPctStart.or old.batteryPctStart
  batteryPctEnd := new.batteryPctEnd.or old.batteryPctEnd
  interiorTempMin := new.interiorTempMin.or old.interiorTempMin
  interiorTempMax := new.interiorTempMax.or old.interiorTempMax
  exteriorTempAvg := new.exteriorTempAvg.or old.exteriorTempAvg
  hvacRuntimeS := new.hvacRuntimeS.or old.hvacRuntimeS
  tireFlPsi := new.tireFlPsi.or old.tireFlPsi
  tireFrPsi := new.tireFrPsi.or old.tireFrPsi
  tireRlPsi := new.tireRlPsi.or old.tireRlPsi
  tireRrPsi := new.tireRrPsi.or old.tireRrPsi
  odometerMiStart := new.odometerMiStart.or old.odometerMiStart
  odometerMiEnd := new.odometerMiEnd.or old.odometerMiEnd
  locationNameStart := new.locationNameStart.or old.locationNameStart
  locationNameEnd := new.locationNameEnd.or old.locationNameEnd

/-- A row over one that is there already: telemetry, the acceleration channels and the autopilot runs stay where the new
row has none; everything else is the new row's. -/
def mergedRow (new old : RouteRow V) : RouteRow V :=
  { new with
    telemetry := new.telemetry.coalesce old.telemetry
    accelXBlob := new.accelXBlob.or old.accelXBlob
    accelYBlob := new.accelYBlob.or old.accelYBlob
    apRunsBlob := new.apRunsBlob.or old.apRunsBlob }

/-- The upsert of the device's own ingest: every column is the new one (`insert_or_update_route`). -/
def insertOrUpdateRoute (routes : Routes V) (normFile : Text) (r : Route) (a : Aggregates V) (now : Int) : Routes V :=
  routes.insert normFile (routeRow r a now)

/-- The upsert of a backup import (`insert_imported_route`). -/
def insertImportedRoute (routes : Routes V) (r : Route) (a : Aggregates V) (now : Int) : Routes V :=
  let norm := normalizePath r.file
  let row := routeRow r a now
  routes.insert norm (((routes.get norm).map (mergedRow row)).getD row)

/-! ## Reading back -/

/-- What the aggregates of a clip are computed from (`aggregate.rs`, `safety.rs`): the name of its file, which carries
the local start, the point channels, and the runs of gears and of flags without their speeds. -/
structure ClipContent where
  name : Text
  points : List Point
  gearStates : List UInt8
  autopilotStates : List UInt8
  speeds : List F32
  accelPositions : List F32
  gearRuns : List StateRun
  flagRuns : List (UInt8 × UInt32)
  accelX : List F32
  accelY : List F32
  deriving DecidableEq

/-- The last component of a path, by either slash. -/
def clipName (file : Text) : Text := baseName (normSlashes file)

def FlagRun.shape (r : FlagRun) : UInt8 × UInt32 := (r.flags, r.frames)

/-- The content of a clip at hand. -/
def Route.content (r : Route) : ClipContent :=
  ⟨clipName r.file, r.points, r.gearStates, r.autopilotStates, r.speeds, r.accelPositions, r.gearRuns,
    r.flagRuns.map FlagRun.shape, r.accelX, r.accelY⟩

/-- The content of a stored row; nothing if a blob has a wrong length. -/
def RouteRow.content (file : Text) (row : RouteRow V) : Option ClipContent := do
  let points ← decodePoints row.pointsBlob
  let speeds ← decodeF32s row.speedsBlob
  let accelPositions ← decodeF32s row.accelBlob
  let gearRuns ← decodeRuns row.gearRunsBlob
  let flagRuns ← decodeFlagRuns row.flagRunsBlob
  let accelX ← decodeF32s row.accelXBlob
  let accelY ← decodeF32s row.accelYBlob
  return ⟨clipName file, points, decodeU8s row.gearStatesBlob, decodeU8s row.apStatesBlob, speeds, accelPositions,
    gearRuns, flagRuns.map FlagRun.shape, accelX, accelY⟩

theorem normSlashes_drop (p : Text) (n : Nat) : normSlashes ((normSlashes p).drop n) = (normSlashes p).drop n := by
  rw [normSlashes, List.map_drop]
  exact congrArg (List.drop n) (normSlashes_normSlashes p)

/-- The last component does not depend on what stands before a slash. -/
theorem baseName_append_slash (dir rest : Text) : baseName (dir ++ '/' :: rest) = baseName rest := by
  unfold baseName
  rw [List.reverse_append, List.reverse_cons, List.append_assoc, List.takeWhile_append]
  split
  · rename_i hall
    have hself := (List.takeWhile_prefix (fun c => decide (c ≠ '/')) (l := rest.reverse)).eq_of_length hall
    rw [List.singleton_append, List.takeWhile_cons_of_neg (by simp), List.append_nil, hself]
  · rfl

/-- Stripping the snapshot folder keeps the last component. -/
theorem clipName_normalizePath (p : Text) : clipName (normalizePath p) = clipName p := by
  unfold clipName normalizePath
  dsimp only
  split
  · rename_i h
    obtain ⟨hstarts, -⟩ := Bool.and_eq_true_iff.mp h
    obtain ⟨rest, hrest⟩ := List.isPrefixOf_iff_prefix.mp hstarts
    rw [normSlashes_drop, ← hrest, List.drop_left]
    exact (baseName_append_slash "RecentClips".toList rest).symm
  · rw [normSlashes_normSlashes]

/-- Flags and frames come back; only the speeds of flag runs are rounded. -/
theorem shape_decodeFlagRuns (l : List FlagRun) :
    (decodeFlagRuns (unlessEmpty encodeFlagRuns l)).map (List.map FlagRun.shape) = some (l.map FlagRun.shape) := by
  cases l with
  | nil => rfl
  | cons r l =>
    show ((flagStride.decode (flagStride.encode ((r :: l).map FlagRun.stored))).map
      (List.map StoredFlagRun.run)).map (List.map FlagRun.shape) = _
    rw [flagStride.decode_encode, Option.map_some, Option.map_some, List.map_map, List.map_map]
    rfl

/-- **A row just written reads back as the clip.** -/
theorem content_routeRow (r : Route) (a : Aggregates V) (now : Int) :
    (routeRow r a now).content (normalizePath r.file) = some r.content := by
  have hpoints : decodePoints (some (encodePoints r.points)) = some r.points := pointStride.decode_encode _
  have hspeeds : decodeF32s (some (encodeF32s r.speeds)) = some r.speeds := f32Stride.decode_encode _
  have haccel : decodeF32s (some (encodeF32s r.accelPositions)) = some r.accelPositions := f32Stride.decode_encode _
  have hgears : decodeRuns (some (encodeRuns r.gearRuns)) = some r.gearRuns := runStride.decode_encode _
  have hx : decodeF32s (unlessEmpty encodeF32s r.accelX) = some r.accelX := decodeWith_unlessEmpty f32Stride _
  have hy : decodeF32s (unlessEmpty encodeF32s r.accelY) = some r.accelY := decodeWith_unlessEmpty f32Stride _
  obtain ⟨flags, hflags, hshape⟩ := Option.map_eq_some_iff.mp (shape_decodeFlagRuns r.flagRuns)
  unfold RouteRow.content routeRow Route.content
  rw [hpoints, hspeeds, haccel, hgears, hflags, hx, hy, clipName_normalizePath]
  simp only [Option.pure_def, Option.bind_eq_bind, Option.bind_some, hshape]
  rfl

/-- A merge that keeps no acceleration channel of the old row keeps the content of the new one. -/
theorem content_mergedRow {new old : RouteRow V} (hx : new.accelXBlob.or old.accelXBlob = new.accelXBlob)
    (hy : new.accelYBlob.or old.accelYBlob = new.accelYBlob) (file : Text) :
    (mergedRow new old).content file = new.content file := by
  unfold RouteRow.content mergedRow
  dsimp only
  rw [hx, hy]

end SentryUsb.Store
