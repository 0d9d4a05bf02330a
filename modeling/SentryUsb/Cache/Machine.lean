import SentryUsb.Cache.AppendRebuild
import SentryUsb.Library.TransitionSystem

/-! # The drive list cache at run time

Edits commit under the connection lock and announce themselves afterwards: a route write raises the
append watermark or the dirty flag, a deletion the dirty flag, a tag edit patches the cached list in
place. Rebuilds consume both flags, read a snapshot, group it without any lock and write it back.

* **`Store`** — tables, persisted cache, flags, the two locks and what committed edits still owe;
* **`step`** — one step of one thread (`db.rs`, `add_route_obj`, `set_drive_tags_inner`,
  `patch_cached_drive_tags`, `rebuild_caches_off_lock`);
* **`Inv`** — a list that is not the grouping of the rows is owed a rebuild or a patch;
* **`cachedList_eq_fullRebuild`** — a settled store serves the grouping of its rows and tags. -/

namespace SentryUsb

open Library

/-! ## Tables -/

/-- One row of `routes`: the columns the grouping reads and the second it was written. -/
structure StoredRow where
  summary : RouteSummary
  updatedAt : Int

/-- Rows of `drive_tags`: drive key and tag. -/
abbrev TagTable := List (Int × Text)

/-- The tags stored under a drive key. -/
def tagMap (tags : TagTable) : TagMap :=
  fun k => (tags.filter fun t => decide (t.1 = k)).map Prod.snd

/-- What the grouping reads of the rows. -/
def summariesOf (rows : List StoredRow) : List RouteSummary := rows.map StoredRow.summary

/-- Insert or replace the row of a file; rows are kept in file order (`insert_or_update_route`). -/
def upsertRow (rows : List StoredRow) (row : StoredRow) : List StoredRow :=
  (rows.filter fun r => decide (r.summary.file ≠ row.summary.file)).orderedInsert
    (fun a b => a.summary.file ≤ b.summary.file) row

/-- Replace the tags of a drive key; empty tags and duplicates are not stored. -/
def replaceTags (tags : TagTable) (key : Int) (new : List Text) : TagTable :=
  tags.filter (fun t => decide (t.1 ≠ key))
    ++ (((new.filter fun t => decide (t ≠ [])).dedup).insertionSort (· ≤ ·)).map fun t => (key, t)

/-- The stored tags and the added ones (`add_only`). -/
def combineTags (before tags : List Text) : List Text :=
  tags.foldl (fun acc t => if t ∈ acc then acc else acc ++ [t]) before

/-! ## Edits -/

/-- A committed transaction of the store. -/
inductive Edit where
  /-- One extracted clip; without points it leaves no route row (`add_route_obj`). -/
  | addRoute (row : StoredRow) (hasPoints : Bool)
  /-- Bulk deletion of files and the tags of drives (`delete_routes_by_files`). -/
  | deleteRoutes (files : List Text) (driveKeys : List Int)
  /-- A tag edit of one drive (`set_drive_tags_inner`). -/
  | setDriveTags (key : Int) (tags : List Text) (addOnly : Bool)
  /-- Tags pulled for several drives in one transaction. -/
  | applyDriveTags (drives : List (Int × List Text))

/-- What a committed edit still has to do. -/
inductive Action where
  /-- Add to the in-memory route counter. -/
  | count (n : Int)
  /-- Lower the append watermark to a clip time. -/
  | append (ts : Int)
  /-- Set the dirty flag. -/
  | dirty
  /-- Patch the tags of a drive into the cached list, or set the dirty flag. -/
  | patch (key : Int)

/-- The tables after an edit. -/
def Edit.apply (rows : List StoredRow) (tags : TagTable) : Edit → List StoredRow × TagTable
  | .addRoute row hasPoints => (if hasPoints then upsertRow rows row else rows, tags)
  | .deleteRoutes files driveKeys =>
    (rows.filter fun r => decide (r.summary.file ∉ files),
      tags.filter fun t => decide (t.1 ∉ driveKeys))
  | .setDriveTags key new addOnly =>
    (rows, replaceTags tags key (if addOnly then combineTags (tagMap tags key) new else new))
  | .applyDriveTags drives =>
    (rows, drives.foldl (fun acc d => replaceTags acc d.1 d.2) tags)

/-- What an edit owes after its commit, in order. An insert with a clip time only lowers the
watermark; an upsert and an unparseable name need the full path. -/
def Edit.owes (rows : List StoredRow) : Edit → List Action
  | .addRoute row hasPoints =>
    if hasPoints then
      let existed := rows.any fun r => decide (r.summary.file = row.summary.file)
      match parseClipTimestamp row.summary.file, existed with
      | some ts, false => [.count 1, .append ts]
      | _, _ => [.count (if existed then 0 else 1), .dirty]
    else []
  | .deleteRoutes files driveKeys =>
    if files = [] ∧ driveKeys = [] then []
    else [.dirty, .count (-(rows.filter fun r => decide (r.summary.file ∈ files)).length)]
  | .setDriveTags key _ _ => [.patch key]
  | .applyDriveTags drives => drives.map fun d => .patch d.1

/-! ## The store -/

/-- The persisted cache entries. `algo` says that the algorithm marker is the current one. -/
structure CacheMeta where
  list : Option (List DriveSummary)
  routeCount : Option Int
  tagsCount : Option Int
  algo : Bool
  maxUpdatedAt : Option Int

/-- What a rebuild reads. -/
structure Snapshot where
  rows : List StoredRow
  tags : TagTable

/-- What a rebuild writes (`DriveCacheArtifacts`). -/
structure Artifacts where
  list : List DriveSummary
  routeCount : Int
  tagsCount : Int
  maxUpdatedAt : Int

/-- Who holds the connection lock. -/
inductive Conn where
  | free
  /-- A transaction that has not committed. -/
  | edit (e : Edit)
  | patcher
  | writer

/-- Who holds the rebuild lock, and how far it is. -/
inductive Phase where
  | free
  /-- A patch that found the dirty flag clear; `rest` is what its edit owes after it. -/
  | patching (key : Int) (rest : List Action)
  /-- A patch that read the cached list and the stored tags. -/
  | patchRead (key : Int) (rest : List Action) (list : List DriveSummary) (tags : List Text)
  /-- A rebuild that holds the lock. -/
  | started (force : Bool)
  /-- The dirty flag is consumed. -/
  | swapped (full : Bool)
  /-- The watermark is consumed. -/
  | taken (full : Bool) (watermark : Option Int)
  /-- The inputs are read; a watermark means the append path. -/
  | loaded (watermark : Option Int) (snap : Snapshot)
  /-- The artifacts are computed. -/
  | computed (watermark : Option Int) (snap : Snapshot) (art : Artifacts)
  /-- `n` cache entries are written. -/
  | writing (watermark : Option Int) (snap : Snapshot) (art : Artifacts) (n : Nat)
  /-- The full rebuild failed and has not set the dirty flag yet. -/
  | failed

/-- What the edit of a running patch still owes. -/
def Phase.carried : Phase → List Action
  | .patching key rest => .patch key :: rest
  | .patchRead key rest _ _ => .patch key :: rest
  | _ => []

/-- The store: tables and cache entries are durable, the rest is lost in a crash. `pending` holds what
each committed edit still owes, in order. -/
structure Store where
  rows : List StoredRow
  tags : TagTable
  cache : CacheMeta
  dirty : Bool
  watermark : Option Int
  routeCount : Int
  conn : Conn
  phase : Phase
  pending : List (List Action)

/-- Everything committed edits still owe. -/
def Store.owed (s : Store) : List Action := s.pending.flatten ++ s.phase.carried

/-! ## Artifacts -/

/-- `COALESCE(MAX(updated_at), 0)`. -/
def maxUpdatedAt (rows : List StoredRow) : Int := (rows.map StoredRow.updatedAt).max?.getD 0

/-- Latest stamp of the window's day folders; event rows are not asked. -/
def windowMaxUpdated (watermark : Int) (rows : List StoredRow) : Int :=
  let first := windowStart watermark / dayMs
  let last := (newestDay (summariesOf rows)).getD first + 1
  ((rows.filter fun r => inDayRange first last r.summary.file
    || ("tessie/".toList.isPrefixOf r.summary.file
      && inDayRange first last (r.summary.file.drop 7))).map StoredRow.updatedAt).foldl max 0

/-- Artifacts of a snapshot. The full path counts the snapshot's rows; the append path takes the
in-memory counter and raises the stored stamp by the window's. -/
def artifactsOf (o : BucketOrder) (s : Store) (watermark : Option Int) (snap : Snapshot) :
    Artifacts where
  list := fullRebuild o (summariesOf snap.rows) (tagMap snap.tags)
  routeCount := if watermark.isSome then s.routeCount else snap.rows.length
  tagsCount := snap.tags.length
  maxUpdatedAt := match watermark with
    | some wm => max (s.cache.maxUpdatedAt.getD 0) (windowMaxUpdated wm snap.rows)
    | none => maxUpdatedAt snap.rows

/-- Write one cache entry (`write_drive_caches`). -/
def writeEntry (art : Artifacts) (n : Nat) (cache : CacheMeta) : CacheMeta :=
  match n with
  | 0 => { cache with list := some art.list }
  | 1 => { cache with routeCount := some art.routeCount }
  | 2 => { cache with tagsCount := some art.tagsCount }
  | 3 => { cache with algo := true }
  | _ => { cache with maxUpdatedAt := some art.maxUpdatedAt }

/-- Set the tags of every entry of a drive key. -/
def patchTags (key : Int) (tags : List Text) (list : List DriveSummary) : List DriveSummary :=
  list.map fun d => if d.startTime = key then { d with tags := tags } else d

/-! ## Steps -/

/-- One step of one thread. -/
inductive Act where
  | beginEdit (e : Edit)
  | commitEdit
  | abortEdit
  /-- A committed edit does the next thing it owes, short of a patch. -/
  | advance (i : Nat)
  /-- A patch takes the rebuild lock and reads the dirty flag. -/
  | lockPatch (i : Nat)
  | readPatch
  | writePatch
  /-- A database error ends the patch; what its edit owes stays owed. -/
  | failPatch
  | lockRebuild (force : Bool)
  | leaveRebuild (debounced : Bool)
  | swapDirty
  | takeWatermark
  | nothingToDo
  | bailAppend
  | loadInputs
  | compute
  | beginWrite
  | writeNext
  | endWrite
  | failRebuild
  | redirty

/-- Lower a watermark to a clip time. -/
def lowerWatermark (wm : Option Int) (ts : Int) : Option Int :=
  match wm with
  | some cur => if cur ≤ ts then some cur else some ts
  | none => some ts

/-- A transaction commits and releases the connection. -/
def Store.commit (s : Store) (e : Edit) : Store :=
  { s with
    rows := (e.apply s.rows s.tags).1
    tags := (e.apply s.rows s.tags).2
    conn := .free
    pending := e.owes s.rows :: s.pending }

/-- A committed edit does the next thing it owes; a patch is not done here. -/
def Store.advance (s : Store) (i : Nat) : Option Store :=
  match s.pending[i]? with
  | some (.count n :: rest) =>
    some { s with routeCount := s.routeCount + n, pending := s.pending.set i rest }
  | some (.append ts :: rest) =>
    some { s with watermark := lowerWatermark s.watermark ts, pending := s.pending.set i rest }
  | some (.dirty :: rest) => some { s with dirty := true, pending := s.pending.set i rest }
  | _ => none

/-- Where a failed rebuild goes: the append path falls through to the full one, the full one sets the
dirty flag. -/
def Phase.afterFailure (watermark : Option Int) : Phase :=
  if watermark.isSome then .taken true none else .failed

/-- The steps of the threads, each atomic under the locks it holds. -/
def step (o : BucketOrder) (s : Store) : Act → Option Store
  | .beginEdit e => match s.conn with
    | .free => some { s with conn := .edit e }
    | _ => none
  | .commitEdit => match s.conn with
    | .edit e => some (s.commit e)
    | _ => none
  | .abortEdit => match s.conn with
    | .edit _ => some { s with conn := .free }
    | _ => none
  | .advance i => s.advance i
  | .lockPatch i => match s.phase, s.pending[i]? with
    | .free, some (.patch key :: rest) =>
      if s.dirty then some { s with pending := s.pending.set i (.dirty :: rest) }
      else some { s with phase := .patching key rest, pending := s.pending.set i [] }
    | _, _ => none
  | .readPatch => match s.phase, s.conn with
    | .patching key rest, .free => match s.cache.list with
      | none => some { s with phase := .free, pending := (.dirty :: rest) :: s.pending }
      | some list => some { s with
        phase := .patchRead key rest list (tagMap s.tags key), conn := .patcher }
    | _, _ => none
  | .writePatch => match s.phase with
    | .patchRead key rest list tags =>
      -- a key that is no visible drive leaves the list alone and dirties the cache
      if list.any fun d => decide (d.startTime = key) then
        some { s with
          cache := { s.cache with list := some (patchTags key tags list) }
          conn := .free, phase := .free, pending := rest :: s.pending }
      else some { s with
        conn := .free, phase := .free, pending := (.dirty :: rest) :: s.pending }
    | _ => none
  | .failPatch => match s.phase with
    | .patching key rest => some { s with
      phase := .free, pending := (.patch key :: rest) :: s.pending }
    | .patchRead key rest _ _ => some { s with
      conn := .free, phase := .free, pending := (.patch key :: rest) :: s.pending }
    | _ => none
  | .lockRebuild force => match s.phase with
    | .free => some { s with phase := .started force }
    | _ => none
  | .leaveRebuild debounced => match s.phase with
    | .started false =>
      if debounced || (!s.dirty && s.watermark.isNone && s.cache.list.isSome) then
        some { s with phase := .free }
      else none
    | _ => none
  | .swapDirty => match s.phase with
    -- `force ||` short-circuits: a forced rebuild leaves the flag as it is
    | .started true => some { s with phase := .swapped true }
    | .started false => some { s with phase := .swapped s.dirty, dirty := false }
    | _ => none
  | .takeWatermark => match s.phase with
    | .swapped full => some { s with phase := .taken full s.watermark, watermark := none }
    | _ => none
  | .nothingToDo => match s.phase with
    | .taken false none => some { s with phase := .free }
    | _ => none
  | .bailAppend => match s.phase with
    | .taken false (some _) => some { s with phase := .taken true none }
    | _ => none
  | .loadInputs => match s.phase with
    | .taken true _ => some { s with phase := .loaded none ⟨s.rows, s.tags⟩ }
    | .taken false (some wm) => some { s with phase := .loaded (some wm) ⟨s.rows, s.tags⟩ }
    | _ => none
  | .compute => match s.phase with
    | .loaded wm snap => some { s with phase := .computed wm snap (artifactsOf o s wm snap) }
    | _ => none
  | .beginWrite => match s.phase, s.conn with
    | .computed wm snap art, .free =>
      some { s with phase := .writing wm snap art 0, conn := .writer }
    | _, _ => none
  | .writeNext => match s.phase with
    | .writing wm snap art n =>
      if n < 5 then some { s with
        phase := .writing wm snap art (n + 1), cache := writeEntry art n s.cache }
      else none
    | _ => none
  | .endWrite => match s.phase with
    | .writing _ _ _ n => if 5 ≤ n then some { s with phase := .free, conn := .free } else none
    | _ => none
  | .failRebuild => match s.phase with
    | .taken true _ => some { s with phase := .failed }
    | .loaded wm _ => some { s with phase := .afterFailure wm }
    | .computed wm _ _ => some { s with phase := .afterFailure wm }
    | .writing wm _ _ _ => some { s with phase := .afterFailure wm, conn := .free }
    | _ => none
  | .redirty => match s.phase with
    | .failed => some { s with phase := .free, dirty := true }
    | _ => none

end SentryUsb
