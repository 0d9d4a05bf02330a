import SentryUsb.Grouper.DriveIndex

/-! # Building the overviews of drives

The map shows every drive as a trail of points. The drives are planned from metadata, then the points of the planned
fragments are read in batches of consecutive drives, cleaned of outliers and thinned out (`db.rs`, `grouper.rs`, `calc.rs`).

* **`overviewFromFragments`** — one drive as an overview (`overview_from_fragments`);
* **`buildOverviewsOn`** — the overviews of all drives (`build_overviews_on`);
* **`buildOverviewsOn_eq`** — however the points are batched, each drive is drawn from its own rows. -/

namespace SentryUsb

open Library Resolver

/-! ## Distances -/

/-- WGS-84 semi-major axis in metres. -/
def wgs84A : Float := 6378137.0

/-- WGS-84 flattening. -/
def wgs84F : Float := 1.0 / 298.257223563

/-- The larger of two numbers, and of a number and no number the number (`f64::max`). -/
def floatMax (a b : Float) : Float := if a.isNaN then b else if b.isNaN then a else if a ≤ b then b else a

/-- Distance of two fixes on the ellipsoid in metres (`geodesic_m`). -/
def geodesicM (lat1 lon1 lat2 lon2 : Float) : Float :=
  if lat1 == lat2 && lon1 == lon2 then 0.0
  else
    let toRad := 3.141592653589793 / 180.0
    let b1 := ((1.0 - wgs84F) * (lat1 * toRad).tan).atan
    let b2 := ((1.0 - wgs84F) * (lat2 * toRad).tan).atan
    let p := (b1 + b2) / 2.0
    let q := (b2 - b1) / 2.0
    let sinHalfDlon := ((lon2 - lon1) * toRad / 2.0).sin
    let sinQ := q.sin
    let h := sinQ * sinQ + b1.cos * b2.cos * sinHalfDlon * sinHalfDlon
    let sigma := 2.0 * Float.atan2 h.sqrt (floatMax (1.0 - h) 0.0).sqrt
    if sigma == 0.0 then 0.0
    else
      let sinSigma := sigma.sin
      let cos2Half := floatMax (1.0 - h) 1e-12
      let sin2Half := floatMax h 1e-12
      let x := (sigma - sinSigma) * (p.sin * p.sin) * (q.cos * q.cos) / cos2Half
      let y := (sigma + sinSigma) * (p.cos * p.cos) * sinQ * sinQ / sin2Half
      wgs84A * (sigma - (wgs84F / 2.0) * (x + y))

def maxFromMedianM : Float := 1000000.0

def maxJumpM : Float := 5000.0

/-! ## Points of a trail -/

/-- A fix near the origin is no fix. -/
def GpsPoint.isNull (p : GpsPoint) : Bool := decide (p.lat.abs < 1.0) && decide (p.lng.abs < 1.0)

/-- Points near the middle of a trail. -/
def nearMedian (points : List GpsPoint) : List GpsPoint :=
  if 2 < points.length then
    let q1 := points.length / 4
    let q3 := points.length * 3 / 4
    let middle := slice points q1 (q3 + 1)
    let count := (q3 - q1 + 1).toFloat
    let lat := middle.foldl (fun sum p => sum + p.lat) 0.0 / count
    let lng := middle.foldl (fun sum p => sum + p.lng) 0.0 / count
    points.filter fun p => decide (geodesicM p.lat p.lng lat lng ≤ maxFromMedianM)
  else points

/-- Whether two neighbours are a jump apart. -/
def farApart (a b : GpsPoint) : Bool := decide (maxJumpM < geodesicM a.lat a.lng b.lat b.lng)

/-- Whether a point is a jump away from both its neighbours, or from the one it has. -/
def jumpsAway (points : List GpsPoint) (p : GpsPoint) (i : Nat) : Bool :=
  match (if 0 < i then points[i - 1]? else none), points[i + 1]? with
  | some before, some after => farApart before p && farApart p after
  | none, some after => farApart p after
  | some before, none => farApart before p
  | none, none => false

/-- Drop what is far from the middle, then what jumps (`overview_filter_points`). -/
def overviewFilterPoints (points : List GpsPoint) : List GpsPoint :=
  let points := nearMedian points
  if 2 < points.length then (points.zipIdx.filter fun e => !jumpsAway points e.1 e.2).map Prod.fst else points

/-- Thin out a trail; its last point stays (`downsample`). -/
def downsample (points : List GpsPoint) (maxPoints : Nat) : List GpsPoint :=
  if points.length ≤ maxPoints then points
  else
    let stride := points.length.toFloat / maxPoints.toFloat
    ((List.range maxPoints).filterMap fun i => points[(i.toFloat * stride).toUInt64.toNat]?) ++ points.getLast?.toList

/-! ## Overviews -/

/-- A drive on the map (`RouteOverview`). -/
structure RouteOverview where
  id : Int
  points : List GpsPoint
  source : Option Text
  startTime : Text

/-- A number as an `i32`. -/
def toI32 (n : Nat) : Int := (n : Int).bmod 4294967296

/-- The points of a fragment; a range beyond the points is cut short. -/
def fragmentPoints (all : List GpsPoint) (f : PlannedFragment) : List GpsPoint :=
  let stop := min f.stop all.length
  let start := min f.start stop
  (slice all start stop).filter fun p => !p.isNull

/-- One planned drive as an overview; `pointsFor` reads the points of a row (`overview_from_fragments`). -/
def overviewFromFragments (format : Int → Text) (metas : List OverviewClipMeta) (pointsFor : Nat → List GpsPoint)
    (maxPoints id : Nat) (drive : List PlannedFragment) : RouteOverview where
  id := toI32 id
  points := downsample (overviewFilterPoints (drive.flatMap fun f => fragmentPoints (pointsFor f.metaIdx) f)) maxPoints
  source := drive.head?.bind fun f => (metas[f.metaIdx]?).bind OverviewClipMeta.source
  startTime := (drive.head?.map fun f => format f.timestamp).getD []

/-- The start time of a planned drive. -/
def plannedStart (format : Int → Text) (drive : List PlannedFragment) : Option Text :=
  drive.head?.map fun f => format f.timestamp

/-! ## Reading -/

/-- Whether a file lies in an event folder, in any case of letters (`is_event_folder_route`). -/
def isEventFolderRoute (file : Text) : Bool :=
  ["SavedClips/".toList, "SentryClips/".toList, "SavedClips\\".toList, "SentryClips\\".toList].any fun start =>
    decide ((file.take start.length).map Char.toLower = start.map Char.toLower)

/-- The facts of the rows; speeds are read of event rows only (`select_overview_metas`). -/
def selectOverviewMetas (rows : List Route) : List OverviewClipMeta :=
  rows.map fun r => { OverviewClipMeta.fromRoute r with
    speedsDriving := isEventFolderRoute r.file && SentryUsb.speedsDriving r.speeds }

/-- The points of files, in lookups of 400 (`select_points_by_files`). -/
def selectPointsByFiles (rows : List Route) (files : List Text) : List (Text × List GpsPoint) :=
  (chunks 400 files).flatMap fun chunk =>
    (rows.filter fun r => decide (r.file ∈ chunk)).map fun r => (r.file, r.points)

/-- The points of a row among those that were read; a later entry replaces an earlier one. -/
def pointsFor (metas : List OverviewClipMeta) (points : List (Text × List GpsPoint)) (idx : Nat) : List GpsPoint :=
  ((metas[idx]?).bind fun m => ((points.filter fun e => decide (e.1 = m.file)).getLast?).map Prod.snd).getD []

/-- The files of a planned drive. -/
def driveFiles (metas : List OverviewClipMeta) (drive : List PlannedFragment) : List Text :=
  drive.filterMap fun f => (metas[f.metaIdx]?).map OverviewClipMeta.file

/-- The decoded points a drive costs. -/
def driveCost (metas : List OverviewClipMeta) (drive : List PlannedFragment) : Nat :=
  (drive.filterMap fun f => (metas[f.metaIdx]?).map OverviewClipMeta.nPoints).sum

/-- Batches of consecutive elements, each within the limit or of one element. -/
def batchesFrom {α : Type*} (cost : α → Nat) (limit : Nat) : Nat → List α → List α → List (List α)
  | _, batch, [] => if batch.isEmpty then [] else [batch]
  | spent, batch, a :: l =>
    if !batch.isEmpty && decide (limit < spent + cost a) then batch :: batchesFrom cost limit (cost a) [a] l
    else batchesFrom cost limit (spent + cost a) (batch ++ [a]) l

/-- The overviews of the rows, with points read in batches (`build_overviews_on`). -/
def buildOverviewsOn (o : BucketOrder) (format : Int → Text) (rows : List Route) (maxPoints : Nat) :
    List RouteOverview :=
  let metas := selectOverviewMetas rows
  let plans := planOverviews o metas
  (batchesFrom (fun d => driveCost metas d.1) 1000000 0 [] plans.zipIdx).flatMap fun batch =>
    let points := selectPointsByFiles rows (sortedSet (batch.flatMap fun d => driveFiles metas d.1))
    batch.map fun d => overviewFromFragments format metas (pointsFor metas points) maxPoints d.2 d.1

/-! ## Each drive from its own rows -/

/-- The points of a row. -/
def rowPoints (rows : List Route) (idx : Nat) : List GpsPoint := ((rows[idx]?).map Route.points).getD []

/-- One planned drive, from the points of its rows. -/
def drawn (format : Int → Text) (rows : List Route) (maxPoints : Nat) (d : List PlannedFragment × Nat) :
    RouteOverview :=
  overviewFromFragments format (selectOverviewMetas rows) (rowPoints rows) maxPoints d.2 d.1

theorem flatten_batchesFrom {α : Type*} (cost : α → Nat) (limit spent : Nat) (batch l : List α) :
    (batchesFrom cost limit spent batch l).flatten = batch ++ l := by
  induction l generalizing spent batch with
  | nil =>
    unfold batchesFrom
    split
    · rename_i hempty
      simp [List.isEmpty_iff.mp hempty]
    · simp
  | cons a l ih =>
    unfold batchesFrom
    split
    · rw [List.flatten_cons, ih]
      rfl
    · rw [ih, List.append_assoc]
      rfl

theorem getLast?_filter_eq {α : Type*} {p : α → Bool} {l : List α} {a : α} (ha : a ∈ l) (hp : p a = true)
    (hsame : ∀ b ∈ l.filter p, b = a) : (l.filter p).getLast? = some a := by
  have hne : l.filter p ≠ [] := List.ne_nil_of_mem (List.mem_filter.mpr ⟨ha, hp⟩)
  rw [List.getLast?_eq_some_getLast hne, hsame _ (List.getLast_mem hne)]

theorem getElem?_selectOverviewMetas (rows : List Route) (idx : Nat) :
    (selectOverviewMetas rows)[idx]? = (rows[idx]?).map fun r => { OverviewClipMeta.fromRoute r with
      speedsDriving := isEventFolderRoute r.file && SentryUsb.speedsDriving r.speeds } :=
  List.getElem?_map ..

/-- **A row that was asked for is read**, in whichever lookup. -/
theorem pointsFor_eq {rows : List Route} (hfiles : (rows.map Route.file).Nodup) {files : List Text} {idx : Nat}
    (hread : ∀ m ∈ (selectOverviewMetas rows)[idx]?, m.file ∈ files) :
    pointsFor (selectOverviewMetas rows) (selectPointsByFiles rows files) idx = rowPoints rows idx := by
  unfold pointsFor rowPoints
  rw [getElem?_selectOverviewMetas] at hread ⊢
  cases hrow : rows[idx]? with
  | none => rfl
  | some r =>
    rw [hrow] at hread
    have hmem : r.file ∈ files := hread _ rfl
    have hr : r ∈ rows := List.mem_of_getElem? hrow
    obtain ⟨chunk, hchunk, hin⟩ := exists_chunk_of_mem (n := 400) (by decide) hmem
    have hentry : (r.file, r.points) ∈ selectPointsByFiles rows files :=
      List.mem_flatMap.mpr ⟨chunk, hchunk,
        List.mem_map.mpr ⟨r, List.mem_filter.mpr ⟨hr, decide_eq_true hin⟩, rfl⟩⟩
    -- a file names one row, so every entry of it has the row's points
    have hsame : ∀ e ∈ (selectPointsByFiles rows files).filter (fun e => decide (e.1 = r.file)),
        e = (r.file, r.points) := by
      intro e he
      obtain ⟨he, hfile⟩ := List.mem_filter.mp he
      obtain ⟨chunk', -, he⟩ := List.mem_flatMap.mp he
      obtain ⟨r', hr', rfl⟩ := List.mem_map.mp he
      rw [List.inj_on_of_nodup_map hfiles (List.mem_filter.mp hr').1 hr (of_decide_eq_true hfile)]
    have hlast : ((selectPointsByFiles rows files).filter fun e => decide (e.1 = r.file)).getLast?
        = some (r.file, r.points) :=
      getLast?_filter_eq hentry (decide_eq_true rfl) hsame
    change (((selectPointsByFiles rows files).filter fun e => decide (e.1 = r.file)).getLast?.map Prod.snd).getD []
      = r.points
    rw [hlast]
    rfl

/-- A drive whose files were read is drawn from its own rows. -/
theorem overview_eq_drawn (format : Int → Text) {rows : List Route} (hfiles : (rows.map Route.file).Nodup)
    {files : List Text} (maxPoints : Nat) {d : List PlannedFragment × Nat}
    (hread : ∀ file ∈ driveFiles (selectOverviewMetas rows) d.1, file ∈ files) :
    overviewFromFragments format (selectOverviewMetas rows)
      (pointsFor (selectOverviewMetas rows) (selectPointsByFiles rows files)) maxPoints d.2 d.1
      = drawn format rows maxPoints d := by
  have hpoints : (d.1.flatMap fun f => fragmentPoints
      (pointsFor (selectOverviewMetas rows) (selectPointsByFiles rows files) f.metaIdx) f)
      = d.1.flatMap fun f => fragmentPoints (rowPoints rows f.metaIdx) f := by
    refine List.flatMap_congr fun f hf => ?_
    rw [pointsFor_eq hfiles]
    intro m hm
    exact hread _ (List.mem_filterMap.mpr ⟨f, hf, by rw [hm]; rfl⟩)
  unfold drawn overviewFromFragments
  rw [hpoints]

/-- **However the points are batched, the overviews are the drives in their order, each from its own rows.** -/
theorem buildOverviewsOn_eq (o : BucketOrder) (format : Int → Text) {rows : List Route}
    (hfiles : (rows.map Route.file).Nodup) (maxPoints : Nat) :
    buildOverviewsOn o format rows maxPoints
      = (planOverviews o (selectOverviewMetas rows)).zipIdx.map (drawn format rows maxPoints) := by
  unfold buildOverviewsOn
  dsimp only
  conv_rhs =>
    rw [← List.nil_append (planOverviews o (selectOverviewMetas rows)).zipIdx,
      ← flatten_batchesFrom (fun d => driveCost (selectOverviewMetas rows) d.1) 1000000 0, List.map_flatten,
      ← List.flatMap_def]
  refine List.flatMap_congr fun batch _ => List.map_congr_left fun d hd => ?_
  refine overview_eq_drawn format hfiles maxPoints fun file hfile => ?_
  exact mem_sortedSet.mpr (List.mem_flatMap.mpr ⟨d, hd, hfile⟩)

end SentryUsb
