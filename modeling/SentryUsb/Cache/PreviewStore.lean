import SentryUsb.Grouper.OverviewBuild
import SentryUsb.Library.TransitionSystem

/-! # Previews of drives

A page of the drive list asks for the trails of its drives by start time. An answer is kept in a table under start time
and point limit, together with the revision of the route rows it was read at; the plan of all drives is kept in memory,
also with its revision. What is in neither is drawn from the rows (`db.rs`, `schema.rs`).

* **`RouteTable`** — the rows of `routes`, each under its file;
* **`getRoutePreviewsJson`** — one answer (`get_route_previews_json`);
* **`step`** — a transaction on the rows, a request, its late write to the table, a restart. -/

namespace SentryUsb.Preview

open Library

/-! ## Rows -/

/-- The rows of `routes`, each under its file. -/
structure RouteTable where
  byFile : SortedMap Text Route
  keyed : ∀ e ∈ byFile.entries, e.2.file = e.1

namespace RouteTable

/-- No row. -/
def empty : RouteTable := ⟨.empty, fun _ he => absurd he List.not_mem_nil⟩

/-- The rows in the order of their files. -/
def rows (t : RouteTable) : List Route := t.byFile.entries.map Prod.snd

/-- Write the row of a file. -/
def upsert (t : RouteTable) (r : Route) : RouteTable where
  byFile := t.byFile.insert r.file r
  keyed := fun e he => by
    rcases mem_putEntry he with rfl | he
    · rfl
    · exact t.keyed e he

/-- Delete the row of a file. -/
def delete (t : RouteTable) (file : Text) : RouteTable where
  byFile := t.byFile.remove file
  keyed := fun e he => t.keyed e (List.mem_filter.mp he).1

/-- A file names one row. -/
theorem nodup_files (t : RouteTable) : (t.rows.map Route.file).Nodup := by
  have hkeys : t.rows.map Route.file = t.byFile.entries.map Prod.fst := by
    unfold rows
    rw [List.map_map]
    exact List.map_congr_left fun e he => t.keyed e he
  rw [hkeys]
  exact (List.pairwise_map.mpr t.byFile.sorted).imp ne_of_lt

end RouteTable

/-- A change of one row. -/
inductive RouteChange where
  /-- Insert the row, or update the one of its file. -/
  | upsert (r : Route)
  | delete (file : Text)

/-! ## Caches -/

/-- Reading and writing JSON: an overview as a value (`to_value`), a value as text (`to_string`) and a text as a value
(`from_str`). -/
structure Codec (V : Type) where
  toValue : RouteOverview → V
  toBody : V → Text
  ofBody : Text → Option V

/-- A row of `drive_preview_cache`. -/
structure CacheRow where
  startTime : Text
  maxPoints : Nat
  revision : Nat
  body : Text
  usedAt : Int
  version : Nat

/-- The drives as planned at one revision (`RoutePreviewPlanCache`). -/
structure RoutePreviewPlanCache where
  revision : Nat
  metas : List OverviewClipMeta
  plans : List (List PlannedFragment)
  indicesByStart : SortedMap Text (List Nat)

/-- What was built for an answer and still has to be written to the table: start times with bodies. -/
structure PendingWrite where
  revision : Nat
  maxPoints : Nat
  built : List (Text × Text)

/-- The rows, the clock of their revisions, the table, and what lies in memory. -/
structure Store where
  routes : RouteTable
  revision : Nat
  previews : List CacheRow
  plan : Option RoutePreviewPlanCache
  saving : Option PendingWrite

/-- A store that has answered nothing yet. -/
def opened (routes : RouteTable) (revision : Nat) : Store := ⟨routes, revision, [], none, none⟩

/-- One row changes; a trigger advances the clock with every row it fires for. -/
def Store.change (s : Store) : RouteChange → Store
  | .upsert r => { s with routes := s.routes.upsert r, revision := s.revision + 1 }
  | .delete file =>
    if (s.routes.byFile.get file).isSome then { s with routes := s.routes.delete file, revision := s.revision + 1 }
    else s

/-! ## Planning -/

section Planning

variable (o : BucketOrder) (format : Int → Text)

/-- Enter a planned drive under its start time. -/
def enterDrive (m : SortedMap Text (List Nat)) (d : List PlannedFragment × Nat) : SortedMap Text (List Nat) :=
  match plannedStart format d.1 with
  | some start => m.insert start ((m.get start).getD [] ++ [d.2])
  | none => m

/-- Plan the drives of the rows. -/
def freshPlan (routes : RouteTable) (revision : Nat) : RoutePreviewPlanCache :=
  let metas := selectOverviewMetas routes.rows
  let plans := planOverviews o metas
  ⟨revision, metas, plans, plans.zipIdx.foldl (enterDrive format) .empty⟩

/-- The plan in memory where it is of the current revision, and a fresh one otherwise (`route_preview_plan`). -/
def routePreviewPlan (s : Store) : RoutePreviewPlanCache :=
  (s.plan.filter fun p => p.revision == s.revision).getD (freshPlan o format s.routes s.revision)

/-- The indices and starts of the drives that begin at a missing start, in the order of the plan. -/
def requestedDrives (p : RoutePreviewPlanCache) (missing : List Text) : List (Nat × Text) :=
  (missing.flatMap fun start => ((p.indicesByStart.get start).getD []).map fun index => (index, start)).insertionSort
    fun a b => a.1 ≤ b.1

/-- The drive at an index of the plan; only the points of its own files are read. -/
def drawPlanned (p : RoutePreviewPlanCache) (rows : List Route) (maxPoints index : Nat) : RouteOverview :=
  let drive := (p.plans[index]?).getD []
  let points := selectPointsByFiles rows (sortedSet (driveFiles p.metas drive))
  overviewFromFragments format p.metas (pointsFor p.metas points) maxPoints index drive

end Planning

/-! ## Requests -/

section Requests

variable {V : Type} (c : Codec V) (o : BucketOrder) (format : Int → Text)

/-- What the table holds for a start at the current revision, if it can be read. -/
def cached (s : Store) (maxPoints : Nat) (start : Text) : Option V :=
  (s.previews.find? fun row => decide (row.startTime = start) && decide (row.maxPoints = maxPoints)
    && decide (row.revision = s.revision) && decide (row.version = 1)).bind fun row => c.ofBody row.body

/-- The starts the table does not answer, each once. -/
def missing (s : Store) (starts : List Text) (maxPoints : Nat) : List Text :=
  (starts.filter fun start => (cached c s maxPoints start).isNone).dedup

/-- An answer, what has to be written, and the plan left in memory. -/
structure Reading (V : Type) where
  out : List V
  built : List (Text × Text)
  plan : Option RoutePreviewPlanCache

/-- Answer a request from one snapshot of the tables. -/
def readPreviews (s : Store) (starts : List Text) (maxPoints : Nat) : Reading V :=
  let found := starts.filterMap (cached c s maxPoints)
  let missing := missing c s starts maxPoints
  if missing.isEmpty then ⟨found, [], s.plan⟩
  else
    let p := routePreviewPlan o format s
    let values := (requestedDrives p missing).map fun e =>
      (e.2, c.toValue (drawPlanned format p s.routes.rows maxPoints e.1))
    ⟨found ++ values.map Prod.snd, values.map fun e => (e.1, c.toBody e.2), some p⟩

/-- The answer to a request (`get_route_previews_json`). -/
def getRoutePreviewsJson (s : Store) (starts : List Text) (maxPoints : Nat) : Except String (Reading V) :=
  if starts.length ≤ 20 then .ok (readPreviews c o format s starts maxPoints)
  else .error "at most 20 drive previews per request"

/-- Write a row in place of the one of its start and limit; it comes last. -/
def insertOrReplace (rows : List CacheRow) (row : CacheRow) : List CacheRow :=
  (rows.filter fun r => !(decide (r.startTime = row.startTime) && decide (r.maxPoints = row.maxPoints))) ++ [row]

/-- Keep the 200 rows used last, of two used at one time the later row. -/
def prune (rows : List CacheRow) : List CacheRow :=
  let byUse := rows.zipIdx.insertionSort fun a b =>
    b.1.usedAt < a.1.usedAt ∨ (b.1.usedAt = a.1.usedAt ∧ b.2 ≤ a.2)
  let kept := (byUse.take 200).map Prod.snd
  (rows.zipIdx.filter fun e => decide (e.2 ∈ kept)).map Prod.fst

/-- The table after a write; the clock is read for each row. -/
def written (rows : List CacheRow) (w : PendingWrite) (now : Nat → Int) : List CacheRow :=
  prune (w.built.zipIdx.foldl (fun rows e =>
    insertOrReplace rows ⟨e.1.1, w.maxPoints, w.revision, e.1.2, now e.2, 1⟩) rows)

/-- What can happen. -/
inductive Act where
  /-- A transaction on the rows. -/
  | commit (changes : List RouteChange)
  | preview (starts : List Text) (maxPoints : Nat)
  /-- What was built is written, unless the rows have changed. -/
  | save (now : Nat → Int)
  /-- The write fails; the answer stands. -/
  | saveFails
  | restart

/-- One step. A request holds the lock until its write is done, so the next one waits. -/
def step (s : Store) : Act → Option Store
  | .commit changes => some (changes.foldl Store.change s)
  | .preview starts maxPoints =>
    match getRoutePreviewsJson c o format s starts maxPoints with
    | .error _ => some s
    | .ok r =>
      if s.saving.isSome then none
      else some { s with plan := r.plan
                         saving := if r.built.isEmpty then none else some ⟨s.revision, maxPoints, r.built⟩ }
  | .save now => s.saving.map fun w =>
    { s with saving := none
             previews := if s.revision = w.revision then written s.previews w now else s.previews }
  | .saveFails => s.saving.map fun _ => { s with saving := none }
  | .restart => some { s with plan := none, saving := none }

theorem step_preview (s : Store) {starts : List Text} (h : starts.length ≤ 20) (maxPoints : Nat) :
    step c o format s (.preview starts maxPoints) = if s.saving.isSome then none else
      some { s with plan := (readPreviews c o format s starts maxPoints).plan
                    saving := if (readPreviews c o format s starts maxPoints).built.isEmpty then none
                      else some ⟨s.revision, maxPoints, (readPreviews c o format s starts maxPoints).built⟩ } := by
  unfold step getRoutePreviewsJson
  dsimp only
  rw [if_pos h]

theorem step_preview_refused (s : Store) {starts : List Text} (h : ¬ starts.length ≤ 20) (maxPoints : Nat) :
    step c o format s (.preview starts maxPoints) = some s := by
  unfold step getRoutePreviewsJson
  dsimp only
  rw [if_neg h]

end Requests

/-! ## Lookups -/

theorem mem_of_mem_prune {rows : List CacheRow} {row : CacheRow} (h : row ∈ prune rows) : row ∈ rows := by
  obtain ⟨e, he, rfl⟩ := List.mem_map.mp h
  exact List.mem_of_getElem? (List.mem_zipIdx_iff_getElem?.mp (List.mem_filter.mp he).1)

/-- A row of the table after a write was there before, or is one of those written. -/
theorem mem_written {rows : List CacheRow} {w : PendingWrite} {now : Nat → Int} {row : CacheRow}
    (h : row ∈ written rows w now) :
    row ∈ rows ∨ (row.revision = w.revision ∧ row.maxPoints = w.maxPoints ∧ (row.startTime, row.body) ∈ w.built) := by
  have hfold : ∀ (l : List ((Text × Text) × Nat)) (rows : List CacheRow),
      row ∈ l.foldl (fun rows e => insertOrReplace rows ⟨e.1.1, w.maxPoints, w.revision, e.1.2, now e.2, 1⟩) rows →
      row ∈ rows ∨ ∃ e ∈ l, row = ⟨e.1.1, w.maxPoints, w.revision, e.1.2, now e.2, 1⟩ := by
    intro l
    induction l with
    | nil => exact fun _ h => .inl h
    | cons e l ih =>
      intro rows h
      rcases ih _ h with h | ⟨e', he', rfl⟩
      · rcases List.mem_append.mp h with h | h
        · exact .inl (List.mem_filter.mp h).1
        · exact .inr ⟨e, List.mem_cons_self, List.mem_singleton.mp h⟩
      · exact .inr ⟨e', List.mem_cons_of_mem _ he', rfl⟩
  rcases hfold _ _ (mem_of_mem_prune h) with h | ⟨e, he, rfl⟩
  · exact .inl h
  · exact .inr ⟨rfl, rfl, List.mem_of_getElem? (List.mem_zipIdx_iff_getElem?.mp he)⟩

section Plan

variable {o : BucketOrder} {format : Int → Text}

/-- The drives entered under a start are those that begin then, in their order. -/
theorem getD_get_enterDrive (l : List (List PlannedFragment × Nat)) (m : SortedMap Text (List Nat)) (start : Text) :
    ((l.foldl (enterDrive format) m).get start).getD []
      = (m.get start).getD [] ++ (bucket (fun d => plannedStart format d.1) l start).map Prod.snd := by
  induction l generalizing m with
  | nil => simp [bucket]
  | cons d l ih =>
    rw [List.foldl_cons, ih]
    unfold enterDrive bucket
    cases hstart : plannedStart format d.1 with
    | none => simp [hstart]
    | some first =>
      dsimp only
      rw [SortedMap.get_insert]
      by_cases hfirst : first = start
      · simp [hstart, hfirst]
      · simp [hstart, hfirst, Ne.symm hfirst]

/-- No planned drive is empty. -/
theorem nil_notMem_planOverviews (o : BucketOrder) (metas : List OverviewClipMeta) : [] ∉ planOverviews o metas := by
  intro h
  obtain ⟨part, hpart, hdrive⟩ := List.mem_flatMap.mp h
  obtain ⟨group, -, hgear⟩ := List.mem_flatMap.mp hpart
  refine (exists_filter_of_mem_split ?_ hdrive).1 rfl
  -- a part of the gear split is the group, which is not empty, or lies between two parked spans
  unfold planSplitByGear planSplitLegacy at hgear
  by_cases hgroup : group = []
  · rw [hgroup] at hgear
    exact absurd hgear List.not_mem_nil
  · have hwhole : group.map wholeFragment ≠ [] := fun hnil => hgroup (List.map_eq_nil_iff.mp hnil)
    have hsingle : part ∈ [group.map wholeFragment] → part ≠ [] := fun hmem => by
      rw [List.mem_singleton.mp hmem]
      exact hwhole
    have hcut : ∀ es : List (Option PlannedFragment), part ∈ cut es → part ≠ [] := fun es hmem hnil =>
      nil_notMem_cut es (hnil ▸ hmem)
    rw [if_neg (fun hempty => hgroup (List.isEmpty_iff.mp hempty))] at hgear
    split at hgear
    · split at hgear
      · exact hsingle hgear
      · split at hgear
        · exact hsingle hgear
        · exact hcut _ hgear
    · dsimp only at hgear
      split at hgear
      · exact hsingle hgear
      · exact hcut _ hgear

/-- A planned drive starts when its overview says. -/
theorem plannedStart_eq {rows : List Route} {maxPoints : Nat} {d : List PlannedFragment × Nat}
    (hd : d ∈ (planOverviews o (selectOverviewMetas rows)).zipIdx) :
    plannedStart format d.1 = some (drawn format rows maxPoints d).startTime := by
  have hmem := List.mem_of_getElem? (List.mem_zipIdx_iff_getElem?.mp hd)
  unfold drawn overviewFromFragments plannedStart
  cases hdrive : d.1 with
  | nil => exact absurd (hdrive ▸ hmem) (nil_notMem_planOverviews o _)
  | cons f fs => rfl

/-- **A drive of the plan is drawn as in the full build**, though only its own files are read. -/
theorem drawPlanned_freshPlan {routes : RouteTable} {revision : Nat} (maxPoints : Nat)
    {d : List PlannedFragment × Nat} (hd : d ∈ (planOverviews o (selectOverviewMetas routes.rows)).zipIdx) :
    drawPlanned format (freshPlan o format routes revision) routes.rows maxPoints d.2
      = drawn format routes.rows maxPoints d := by
  have hdrive : (((freshPlan o format routes revision).plans[d.2]?).getD []) = d.1 := by
    rw [show (freshPlan o format routes revision).plans = planOverviews o (selectOverviewMetas routes.rows) from rfl,
      List.mem_zipIdx_iff_getElem?.mp hd]
    rfl
  unfold drawPlanned
  rw [hdrive]
  exact overview_eq_drawn format routes.nodup_files maxPoints fun file hfile => mem_sortedSet.mpr hfile

end Plan

end SentryUsb.Preview
