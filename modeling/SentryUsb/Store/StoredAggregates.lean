import SentryUsb.Library.TransitionSystem
import SentryUsb.Store.RouteRow

/-! # Stored aggregates

The aggregates of a clip are computed once and stored with its row. Four writers fill the columns: the ingest, a
replacement of the whole store, the import of a backup, and the backfill that follows a change of the formula. The
store opens through a gate: under a new formula the columns of every row are nulled, then the formula is stamped, then
the rows are filled again, some at a time.

* **`DriveStore`**, **`step`** — the table with the formula it was filled by, and its writers;
* **`AggregatesMatch`** — every filled row has the aggregates of the row as it is stored;
* **`CarriesAccel`** — an import that never leaves out an acceleration channel its row has;
* **`aggregatesMatch_of_reaches`** — with such imports the aggregates always match;
  **`import_without_accel`** — without, they do not. -/

namespace SentryUsb.Store

open Library

variable {V F : Type*}

/-! ## The store -/

/-- How far the opening of the store has come: no gate yet, the columns nulled, or open. -/
inductive Phase where
  | opened
  | nulled
  | ready
  deriving DecidableEq

/-- The routes with the formula stamped on them (`aggregate_formula_version`), and the process that has them open:
the formula it computes by and how far it is. -/
structure DriveStore (V F : Type*) where
  routes : Routes V
  formula : Option F
  running : F
  phase : Phase

/-- A fresh database. -/
def DriveStore.fresh (running : F) : DriveStore V F := ⟨.empty, none, running, .opened⟩

/-- A row counts as filled by its top speed, which every computation sets (`max_speed_mps IS NOT NULL`). -/
def RouteRow.filled (row : RouteRow V) : Bool := (row.aggregates .maxSpeedMps).isSome

/-- The columns the formula gate sets to NULL. -/
def gateColumns : List AggregateColumn :=
  [.maxSpeedMps, .avgSpeedMps, .assistedDistanceM, .fsdDistanceM, .autosteerDistanceM, .taccDistanceM, .fsdPendMsEnd,
    .parkMsStart, .fsdAtEnd, .fsdAccelPushesEarly, .apAtStart, .safetyHardBrakeMs, .safetyHardBrakeEvents,
    .safetyAggrTurnMs, .safetyAggrTurnEvents, .safetySpeedingMs, .safetyMovingMs, .safetyManualMovingMs,
    .safetyBrakeAnyMs, .safetyTurnAnyMs, .apAtEnd, .safetyImuMovingMs, .safetyNightMs, .safetyNightWeightedMs,
    .safetyGraceMsEnd, .safetyGracePrefixBlob]

/-- A row with the columns of the gate nulled. -/
def RouteRow.nulled (row : RouteRow V) : RouteRow V :=
  { row with aggregates := fun c => if c ∈ gateColumns then none else row.aggregates c }

/-- Rows to a batch of the backfill. -/
def backfillBatchSize : Nat := 200

/-- Store aggregates in the row of a file, if it is there. -/
def setAggregates (routes : Routes V) (file : Text) (a : Aggregates V) : Routes V :=
  match routes.get file with
  | some row => routes.insert file { row with aggregates := a }
  | none => routes

section Writers

variable (compute : F → ClipContent → Aggregates V)

/-- One batch of the backfill: unfilled rows are read, their aggregates computed, and all stored in one transaction; a
row that does not decode fails the batch (`backfill_one_batch`). -/
def backfillOneBatch (v : F) (routes : Routes V) (files : List Text) : Option (Routes V) :=
  (files.mapM fun file => (routes.get file).bind fun row => (row.content file).map fun c => (file, compute v c)).map
    fun decoded => decoded.foldl (fun routes e => setAggregates routes e.1 e.2) routes

/-- Ingest of one clip, with the rollup of the vehicle's samples if that could be had; a clip without points has no row
(`add_route_obj`). -/
def addRouteObj (v : F) (routes : Routes V) (r : Route) (rollup : Option Telemetry) (now : Int) : Routes V :=
  if r.points.isEmpty then routes
  else
    let norm := normalizePath r.file
    let stored := insertOrUpdateRoute routes norm r (compute v r.content) now
    match rollup, stored.get norm with
    | some tele, some row => stored.insert norm { row with telemetry := tele }
    | _, _ => stored

/-- The whole table anew (`replace_data`). -/
def replaceData (v : F) (data : List Route) (now : Int) : Routes V :=
  data.foldl (fun routes r => insertOrUpdateRoute routes (normalizePath r.file) r (compute v r.content) now) .empty

/-- The routes of a backup, one by one over what is there (`import_json`). -/
def importRoutes (v : F) (routes : Routes V) (data : List Route) (now : Int) : Routes V :=
  data.foldl (fun routes r => insertImportedRoute routes r (compute v r.content) now) routes

/-- What can happen to the store. -/
inductive Act (F : Type*) where
  /-- The process starts, under some formula; a crash is a start too. -/
  | start (running : F)
  | nullAggregates
  | stampFormula
  | passGate
  | backfill (files : List Text)
  | addRoute (r : Route) (rollup : Option Telemetry) (now : Int)
  | replaceAll (data : List Route) (now : Int)
  | importJson (data : List Route) (now : Int)

/-- One step, if the store is at a point where it can be taken. The lock of the writer is held from the gate to the end
of the backfill, and only the import of a first start comes before the gate. -/
def step [DecidableEq F] (s : DriveStore V F) : Act F → Option (DriveStore V F)
  | .start v => some { s with running := v, phase := .opened }
  | .nullAggregates =>
    if s.phase = .opened ∧ s.formula ≠ some s.running then
      some { s with routes := s.routes.mapValues RouteRow.nulled, phase := .nulled }
    else none
  | .stampFormula => if s.phase = .nulled then some { s with formula := some s.running, phase := .ready } else none
  | .passGate =>
    if s.phase = .opened ∧ s.formula = some s.running then some { s with phase := .ready } else none
  | .backfill files =>
    if s.phase = .ready ∧ files.length ≤ backfillBatchSize
        ∧ files.all (fun file => (s.routes.get file).any fun row => !row.filled) = true then
      (backfillOneBatch compute s.running s.routes files).map fun routes => { s with routes := routes }
    else none
  | .addRoute r rollup now =>
    if s.phase = .ready then some { s with routes := addRouteObj compute s.running s.routes r rollup now } else none
  | .replaceAll data now =>
    if s.phase = .ready then some { s with routes := replaceData compute s.running data now } else none
  | .importJson data now =>
    if s.phase = .ready ∨ (s.phase = .opened ∧ s.formula = none) then
      some { s with routes := importRoutes compute s.running s.routes data now }
    else none

/-- **Every filled row has the aggregates of the row as it is stored**, by the formula stamped on the store. -/
def AggregatesMatch (s : DriveStore V F) : Prop :=
  ∀ v, s.formula = some v → ∀ file row, s.routes.get file = some row → row.filled = true →
    (row.content file).map (compute v) = some row.aggregates

end Writers

/-! ## One writer at a time -/

section Matching

variable {compute : F → ClipContent → Aggregates V} {v : F}

/-- Whether a row, if filled, has the aggregates of its own content. -/
def RowMatches (compute : F → ClipContent → Aggregates V) (v : F) (file : Text) (row : RouteRow V) : Prop :=
  row.filled = true → (row.content file).map (compute v) = some row.aggregates

/-- The same for every row of a table. -/
def Matching (compute : F → ClipContent → Aggregates V) (v : F) (routes : Routes V) : Prop :=
  ∀ file row, routes.get file = some row → RowMatches compute v file row

theorem matching_empty : Matching compute v (.empty : Routes V) := by
  intro file row h
  rw [SortedMap.get_empty] at h
  exact absurd h (by simp)

theorem Matching.insert {routes : Routes V} (h : Matching compute v routes) {file : Text} {row : RouteRow V}
    (hrow : RowMatches compute v file row) : Matching compute v (routes.insert file row) := by
  intro f r hget
  rw [SortedMap.get_insert] at hget
  by_cases hf : f = file
  · rw [if_pos hf] at hget
    obtain rfl := Option.some.inj hget
    rw [hf]
    exact hrow
  · rw [if_neg hf] at hget
    exact h f r hget

/-- A row with the content of a clip and its aggregates matches. -/
theorem rowMatches_of_content {file : Text} {row : RouteRow V} {c : ClipContent} (hc : row.content file = some c)
    (ha : row.aggregates = compute v c) : RowMatches compute v file row := by
  intro _
  rw [hc, ha]
  rfl

theorem rowMatches_routeRow (r : Route) (now : Int) :
    RowMatches compute v (normalizePath r.file) (routeRow r (compute v r.content) now) :=
  rowMatches_of_content (content_routeRow r _ now) rfl

theorem matching_addRouteObj {routes : Routes V} (h : Matching compute v routes) (r : Route)
    (rollup : Option Telemetry) (now : Int) : Matching compute v (addRouteObj compute v routes r rollup now) := by
  have hstored : Matching compute v (insertOrUpdateRoute routes (normalizePath r.file) r (compute v r.content) now) :=
    h.insert (rowMatches_routeRow r now)
  unfold addRouteObj
  split
  · exact h
  · dsimp only
    split
    · -- the rollup goes into columns the aggregates are not computed from
      rename_i tele row hrow
      have hkept : RowMatches compute v (normalizePath r.file) { row with telemetry := tele } := hstored _ row hrow
      exact hstored.insert hkept
    · exact hstored

theorem matching_replaceData (data : List Route) (now : Int) :
    Matching compute v (replaceData compute v data now : Routes V) := by
  unfold replaceData
  refine List.foldlRecOn data _ matching_empty fun routes hroutes r _ => ?_
  exact hroutes.insert (rowMatches_routeRow r now)

/-- Storing a computation of what a row holds keeps the rows matching. -/
theorem matching_setAggregates {routes : Routes V} (h : Matching compute v routes) {file : Text} {c : ClipContent}
    (hc : ∀ row, routes.get file = some row → row.content file = some c) :
    Matching compute v (setAggregates routes file (compute v c)) := by
  unfold setAggregates
  split
  · rename_i row hrow
    have hfilled : RowMatches compute v file { row with aggregates := compute v c } :=
      rowMatches_of_content (hc row hrow) rfl
    exact h.insert hfilled
  · exact h

/-- What a table reads back is the same after aggregates are stored. -/
theorem content_setAggregates {routes : Routes V} (file : Text) (a : Aggregates V) (f : Text) :
    ((setAggregates routes file a).get f).map (RouteRow.content f) = (routes.get f).map (RouteRow.content f) := by
  unfold setAggregates
  split
  · rename_i row hrow
    rw [SortedMap.get_insert]
    by_cases hf : f = file
    · rw [if_pos hf, hf, hrow]
      rfl
    · rw [if_neg hf]
  · rfl

theorem matching_backfillOneBatch {routes routes' : Routes V} (h : Matching compute v routes) {files : List Text}
    (hbatch : backfillOneBatch compute v routes files = some routes') : Matching compute v routes' := by
  obtain ⟨decoded, hdecoded, rfl⟩ := Option.map_eq_some_iff.mp hbatch
  -- the batch was computed from the table before it; storing part of it changes nothing that is read
  have hread : ∀ e ∈ decoded, ∃ c, e.2 = compute v c
      ∧ (routes.get e.1).map (RouteRow.content e.1) = some (some c) := by
    intro e he
    obtain ⟨file, -, hfile⟩ := exists_of_mem_mapM hdecoded he
    obtain ⟨row, hrow, hpair⟩ := Option.bind_eq_some_iff.mp hfile
    obtain ⟨c, hc, rfl⟩ := Option.map_eq_some_iff.mp hpair
    exact ⟨c, rfl, by rw [hrow, Option.map_some, hc]⟩
  have hgeneral : ∀ (l : List (Text × Aggregates V)) (t : Routes V), (∀ e ∈ l, e ∈ decoded) →
      (∀ f, (t.get f).map (RouteRow.content f) = (routes.get f).map (RouteRow.content f)) → Matching compute v t →
      Matching compute v (l.foldl (fun t e => setAggregates t e.1 e.2) t) := by
    intro l
    induction l with
    | nil => intro t _ _ ht; exact ht
    | cons e l ih =>
      intro t hsub hsame ht
      obtain ⟨c, hc, hget⟩ := hread e (hsub e List.mem_cons_self)
      refine ih _ (fun e' he' => hsub e' (List.mem_cons_of_mem _ he')) (fun f => ?_) ?_
      · rw [content_setAggregates, hsame]
      · show Matching compute v (setAggregates t e.1 e.2)
        rw [hc]
        refine matching_setAggregates ht fun row hrow => ?_
        have hrow' := hsame e.1
        rw [hrow, hget, Option.map_some] at hrow'
        exact Option.some.inj hrow'
  exact hgeneral decoded routes (fun e he => he) (fun f => rfl) h

/-! ## Imports that carry their channels -/

/-- Whether a clip brings every acceleration channel that a row has. -/
def Carries (r : Route) (old : RouteRow V) : Prop :=
  (r.accelX = [] → old.accelXBlob = none) ∧ (r.accelY = [] → old.accelYBlob = none)

/-- **An import that never leaves out an acceleration channel its row has**: neither one of the row in the table, nor
one an earlier clip of the import brought for the same path. -/
structure CarriesAccel (routes : Routes V) (data : List Route) : Prop where
  stored : ∀ r ∈ data, ∀ old, routes.get (normalizePath r.file) = some old → Carries r old
  within : data.Pairwise fun r' r => normalizePath r'.file = normalizePath r.file →
    (r.accelX = [] → r'.accelX = []) ∧ (r.accelY = [] → r'.accelY = [])

/-- A channel that is brought, or that was not there, is the new one. -/
theorem or_unlessEmpty {l : List F32} {old : Option Bytes} (h : l = [] → old = none) :
    (unlessEmpty encodeF32s l).or old = unlessEmpty encodeF32s l := by
  cases l with
  | nil => rw [h rfl, Option.or_none]
  | cons a l => rfl

theorem matching_insertImportedRoute {routes : Routes V} (h : Matching compute v routes) {r : Route} (now : Int)
    (hcarries : ∀ old, routes.get (normalizePath r.file) = some old → Carries r old) :
    Matching compute v (insertImportedRoute routes r (compute v r.content) now) := by
  refine h.insert ?_
  cases hold : routes.get (normalizePath r.file) with
  | none => exact rowMatches_routeRow r now
  | some old =>
    obtain ⟨hx, hy⟩ := hcarries old hold
    refine rowMatches_of_content (c := r.content) ?_ rfl
    show (mergedRow (routeRow r _ now) old).content _ = _
    rw [content_mergedRow (or_unlessEmpty hx) (or_unlessEmpty hy), content_routeRow]

/-- What is left of a careful import is careful about the table its first clip leaves. -/
theorem CarriesAccel.tail {routes : Routes V} {r : Route} {data : List Route} (h : CarriesAccel routes (r :: data))
    (a : Aggregates V) (now : Int) : CarriesAccel (insertImportedRoute routes r a now) data := by
  obtain ⟨hfirst, hrest⟩ := List.pairwise_cons.mp h.within
  refine ⟨fun r' hr' old hold => ?_, hrest⟩
  have hstored := h.stored r' (List.mem_cons_of_mem _ hr')
  unfold insertImportedRoute at hold
  rw [SortedMap.get_insert] at hold
  by_cases hpath : normalizePath r'.file = normalizePath r.file
  · rw [if_pos hpath] at hold
    obtain ⟨hx, hy⟩ := hfirst r' hr' hpath.symm
    -- the row is what the first clip brought, over what was there
    cases hget : routes.get (normalizePath r.file) with
    | none =>
      rw [hget] at hold
      obtain rfl := Option.some.inj hold
      exact ⟨fun hnil => unlessEmpty_eq_none.mpr (hx hnil), fun hnil => unlessEmpty_eq_none.mpr (hy hnil)⟩
    | some before =>
      rw [hget] at hold
      obtain rfl := Option.some.inj hold
      obtain ⟨hbx, hby⟩ := hstored before (by rw [hpath]; exact hget)
      constructor
      · intro hnil
        show (unlessEmpty encodeF32s r.accelX).or before.accelXBlob = none
        rw [hbx hnil, Option.or_none]
        exact unlessEmpty_eq_none.mpr (hx hnil)
      · intro hnil
        show (unlessEmpty encodeF32s r.accelY).or before.accelYBlob = none
        rw [hby hnil, Option.or_none]
        exact unlessEmpty_eq_none.mpr (hy hnil)
  · rw [if_neg hpath] at hold
    exact hstored old hold

theorem matching_importRoutes {routes : Routes V} (h : Matching compute v routes) {data : List Route} (now : Int)
    (hcarries : CarriesAccel routes data) : Matching compute v (importRoutes compute v routes data now) := by
  unfold importRoutes
  induction data generalizing routes with
  | nil => exact h
  | cons r data ih =>
    rw [List.foldl_cons]
    exact ih (matching_insertImportedRoute h now (hcarries.stored r List.mem_cons_self)) (hcarries.tail _ now)

end Matching

/-! ## Runs -/

section Runs

/-- The steps that leave no channel out. -/
def Careful (s : DriveStore V F) : Act F → Prop
  | .importJson data _ => CarriesAccel s.routes data
  | _ => True

/-- What every step keeps: the rows match by the stamped formula, an open store computes by it, and between the nulling
and the stamp no row is filled. -/
structure Sound (compute : F → ClipContent → Aggregates V) (s : DriveStore V F) : Prop where
  matching : ∀ v, s.formula = some v → Matching compute v s.routes
  ready : s.phase = .ready → s.formula = some s.running
  nulled : s.phase = .nulled → ∀ file row, s.routes.get file = some row → row.filled = false

variable {compute : F → ClipContent → Aggregates V}

theorem sound_fresh (running : F) : Sound compute (.fresh running : DriveStore V F) := by
  refine ⟨fun v h => absurd h (by simp [DriveStore.fresh]), fun h => absurd h (by simp [DriveStore.fresh]), ?_⟩
  intro h
  exact absurd h (by simp [DriveStore.fresh])

theorem filled_nulled (row : RouteRow V) : row.nulled.filled = false := rfl

/-- A writer of an open store. -/
theorem Sound.write {s : DriveStore V F} (h : Sound compute s) (hready : s.phase = .ready) {routes : Routes V}
    (hroutes : Matching compute s.running s.routes → Matching compute s.running routes) :
    Sound compute { s with routes := routes } := by
  have hformula := h.ready hready
  refine ⟨fun v hv => ?_, fun _ => hformula, fun hnulled => absurd (hready.symm.trans hnulled) (by decide)⟩
  have hrunning : v = s.running := Option.some.inj (hv.symm.trans hformula)
  rw [hrunning]
  exact hroutes (h.matching _ hformula)

variable [DecidableEq F]

/-- **One step keeps the store sound**, if it leaves no channel out. -/
theorem Sound.step {s t : DriveStore V F} {a : Act F} (h : Sound compute s) (hcareful : Careful s a)
    (hstep : step compute s a = some t) : Sound compute t := by
  cases a with
  | start v =>
    obtain rfl := Option.some.inj hstep
    exact ⟨h.matching, fun hphase => absurd hphase (by simp), fun hphase => absurd hphase (by simp)⟩
  | nullAggregates =>
    obtain ⟨-, hstep⟩ := Option.ite_none_right_eq_some.mp hstep
    obtain rfl := Option.some.inj hstep
    have hnone : ∀ file row, (s.routes.mapValues RouteRow.nulled).get file = some row → row.filled = false := by
      intro file row hrow
      rw [SortedMap.get_mapValues] at hrow
      obtain ⟨old, -, rfl⟩ := Option.map_eq_some_iff.mp hrow
      exact filled_nulled old
    refine ⟨fun v _ file row hrow hfilled => ?_, fun hphase => absurd hphase (by simp), fun _ => hnone⟩
    rw [hnone file row hrow] at hfilled
    exact absurd hfilled (by simp)
  | stampFormula =>
    obtain ⟨hphase, hstep⟩ := Option.ite_none_right_eq_some.mp hstep
    obtain rfl := Option.some.inj hstep
    refine ⟨fun v _ file row hrow hfilled => ?_, fun _ => rfl, fun hphase => absurd hphase (by simp)⟩
    rw [h.nulled hphase file row hrow] at hfilled
    exact absurd hfilled (by simp)
  | passGate =>
    obtain ⟨⟨-, hformula⟩, hstep⟩ := Option.ite_none_right_eq_some.mp hstep
    obtain rfl := Option.some.inj hstep
    exact ⟨h.matching, fun _ => hformula, fun hphase => absurd hphase (by simp)⟩
  | backfill files =>
    obtain ⟨⟨hready, -, -⟩, hstep⟩ := Option.ite_none_right_eq_some.mp hstep
    obtain ⟨routes, hbatch, rfl⟩ := Option.map_eq_some_iff.mp hstep
    exact h.write hready fun hmatch => matching_backfillOneBatch hmatch hbatch
  | addRoute r rollup now =>
    obtain ⟨hready, hstep⟩ := Option.ite_none_right_eq_some.mp hstep
    obtain rfl := Option.some.inj hstep
    exact h.write hready fun hmatch => matching_addRouteObj hmatch r rollup now
  | replaceAll data now =>
    obtain ⟨hready, hstep⟩ := Option.ite_none_right_eq_some.mp hstep
    obtain rfl := Option.some.inj hstep
    exact h.write hready fun _ => matching_replaceData data now
  | importJson data now =>
    obtain ⟨hphase, hstep⟩ := Option.ite_none_right_eq_some.mp hstep
    obtain rfl := Option.some.inj hstep
    rcases hphase with hready | ⟨hopened, hnone⟩
    · exact h.write hready fun hmatch => matching_importRoutes hmatch now hcareful
    · -- the import of a first start: no formula is stamped yet
      refine ⟨fun v hv => absurd (hnone.symm.trans hv) (by simp), fun hready => ?_, fun hnulled => ?_⟩
      · exact absurd (hopened.symm.trans hready) (by decide)
      · exact absurd (hopened.symm.trans hnulled) (by decide)

/-- **Stored aggregates match stored data**: in every run from a fresh database whose imports leave out no acceleration
channel, every filled row has the aggregates of the row as it is stored, and an open store computes by the formula they
were computed by. -/
theorem aggregatesMatch_of_reaches (compute : F → ClipContent → Aggregates V) {running : F} {s : DriveStore V F}
    (h : Reaches (step compute) Careful (.fresh running) s) :
    AggregatesMatch compute s ∧ (s.phase = .ready → s.formula = some s.running) := by
  have hsound : Sound compute s :=
    h.invariant (sound_fresh running) fun t a u ht hcareful htaken => ht.step hcareful htaken
  exact ⟨fun v hv file row hrow hfilled => hsound.matching v hv file row hrow hfilled, hsound.ready⟩

end Runs

/-! ## A channel left out -/

/-- Two of the aggregates of a clip that moves at ten metres a second throughout: its top speed, and the time it moves
with both acceleration channels there, sample for sample. -/
def imuAggregates (_ : Nat) (c : ClipContent) : Aggregates Nat
  | .maxSpeedMps => some 10
  | .safetyImuMovingMs =>
    some (if c.accelX.length = c.points.length ∧ c.accelY.length = c.points.length then 60000 else 0)
  | _ => none

/-- A minute of two fixes, with the given acceleration channels. -/
def movingClip (accelX accelY : List F32) : Route where
  file := "2026-06-07/2026-06-07_10-00-00-front.mp4".toList
  date := "2026-06-07".toList
  points := [⟨0x4042e00000000000, 0xc05e800000000000⟩, ⟨0x4042e08000000000, 0xc05e800000000000⟩]
  gearStates := [4, 4]
  autopilotStates := [0, 0]
  speeds := [0x41200000, 0x41200000]
  accelPositions := [0, 0]
  rawParkCount := 0
  rawFrameCount := 1200
  gearRuns := [⟨4, 1200⟩]
  flagRuns := []
  apRuns := []
  accelX := accelX
  accelY := accelY
  source := none
  externalSignature := none
  tessieAutopilotPercent := none
  telemetry := ⟨none, none, none, none, none, none, none, none, none, none, none, none, none, none⟩

/-- A clip imported again with its channels. -/
theorem aggregatesMatch_imported_again :
    ∃ s : DriveStore Nat Nat, Reaches (step imuAggregates) Careful (.fresh 1) s ∧ s.phase = .ready
      ∧ AggregatesMatch imuAggregates s := by
  have hcareful : ∀ routes : Routes Nat, CarriesAccel routes [movingClip [0, 0] [0, 0]] := by
    intro routes
    refine ⟨fun r hr old _ => ?_, List.pairwise_singleton _ _⟩
    rw [List.mem_singleton.mp hr]
    exact ⟨fun h => absurd h (by decide), fun h => absurd h (by decide)⟩
  have hopen : Reaches (step imuAggregates) Careful (.fresh 1) _ :=
    .tail .stampFormula (.tail .nullAggregates .refl trivial rfl) trivial rfl
  have hreach : Reaches (step imuAggregates) Careful (.fresh 1) _ :=
    .tail (.importJson [movingClip [0, 0] [0, 0]] 2)
      (.tail (.addRoute (movingClip [0, 0] [0, 0]) none 1) hopen trivial rfl) (hcareful _) rfl
  exact ⟨_, hreach, rfl, (aggregatesMatch_of_reaches _ hreach).1⟩

/-- The same clip imported again from a backup without the acceleration channels: the row keeps its channels and gets
the aggregates of a clip that has none. -/
theorem import_without_accel :
    ¬ ∀ s : DriveStore Nat Nat, Reachable (step imuAggregates) (.fresh 1) s → AggregatesMatch imuAggregates s := by
  intro hall
  have hrun : ((run (step imuAggregates) (.fresh 1 : DriveStore Nat Nat)
      [.nullAggregates, .stampFormula, .addRoute (movingClip [0, 0] [0, 0]) none 1,
        .importJson [movingClip [] []] 2]).any fun s => decide (s.formula = some 1)
          && (s.routes.get (normalizePath (movingClip [] []).file)).any fun row => row.filled
            && decide ((row.content (normalizePath (movingClip [] []).file)).map
                (fun c => imuAggregates 1 c .safetyImuMovingMs) ≠ some (row.aggregates .safetyImuMovingMs))) = true := by
    decide +kernel
  obtain ⟨s, hs, hend⟩ := (Option.any_eq_true _ _).mp hrun
  obtain ⟨hformula, hrow⟩ := Bool.and_eq_true_iff.mp hend
  obtain ⟨row, hget, hend⟩ := (Option.any_eq_true _ _).mp hrow
  obtain ⟨hfilled, hdiffer⟩ := Bool.and_eq_true_iff.mp hend
  have hmatch := hall s (reachable_of_run hs) 1 (of_decide_eq_true hformula) _ row hget hfilled
  refine of_decide_eq_true hdiffer ?_
  obtain ⟨c, hc, hagg⟩ := Option.map_eq_some_iff.mp hmatch
  rw [hc, ← hagg]
  rfl

end SentryUsb.Store
