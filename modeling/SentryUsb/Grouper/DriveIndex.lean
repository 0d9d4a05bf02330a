import SentryUsb.Library.SortedMap
import SentryUsb.Grouper.Detail
import SentryUsb.Grouper.ClockTransition
import SentryUsb.Cache.DriveList

/-! # The drive index

Resolving a drive id regroups every row. The index keeps the membership of one grouping, so that a request for a
drive reads only the rows of its own clips; ids it does not know go to the full resolver, which may still know them
under the retired clock.

* **`Resolver.resolveGroupIndex`**, **`findDriveFiles`**, **`resolveDriveSelection`** — the full resolver, over the
  text of an id (`grouper.rs`);
* **`DriveIndex`** — the index, its `build`, `resolve`, `files`, `startKey` and `selection`;
* **`findDriveFilesCached`**, **`resolveDriveSelectionCached`** — the resolver through the index (`db.rs`);
* **`driveIndex_answers`** — over rows of distinct files, both answer alike. -/

namespace SentryUsb.Resolver

open Library

/-! ## Ids and rows -/

/-- What resolving takes from elsewhere: the date library, the largest machine word, the upload id stored with a row,
and the hash of a path. -/
structure Naming where
  format : StartFormat
  usizeMax : Nat
  cloudRouteId : RouteSummary → Option Text
  routeIdFromPath : Text → Text

/-- A text read as a machine word (`str::parse::<usize>`): digits after at most one plus sign, in range. -/
def parseUsize (usizeMax : Nat) (id : Text) : Option Nat :=
  let digits := if id.head? = some '+' then id.tail else id
  if digits.isEmpty || !digits.all Char.isDigit then none
  else
    let n := digits.foldl (fun acc c => acc * 10 + (c.toNat - '0'.toNat)) 0
    if n ≤ usizeMax then some n else none

/-- Cloud id of a row: the stored one, else the hash of its path (`cloud_clip_id`). -/
def cloudClipId (nm : Naming) (s : RouteSummary) : Text := (nm.cloudRouteId s).getD (nm.routeIdFromPath s.file)

/-- Elements of a list, each at its first use. -/
def firstUses (l : List Text) : List Text := (l.reverse.dedup).reverse

/-! ## The full resolver -/

/-- Whether a group starts at the time an id spells. -/
def startsAt (write : Int → Text) (id : Text) (g : List SubClip) : Bool :=
  (groupStart g).any fun ts => decide (write ts = id)

/-- The last resort of an id: the one retired drive that starts at that second, and the one current drive it meets;
an exact resolution also wants both to have the same windows. -/
def resolveLegacy (nm : Naming) (o : BucketOrder) (summaries : List RouteSummary) (groups : List (List SubClip))
    (id : Text) (exactLegacyMembership : Bool) : Option Nat :=
  let legacy := groupSummaryClipsWithClock legacyClock o summaries
  match legacy.filter (startsAt nm.format.seconds id) with
  | [old] =>
    match positions (fun g => g.any fun new => old.any fun c => c.overlaps new) groups with
    | [i] =>
      let new := (groups[i]?).getD []
      if exactLegacyMembership && !(decide (old.length = new.length)
        && (old.zip new).all fun ab => ab.1.sameWindow ab.2) then none
      else some i
    | _ => none
  | _ => none

/-- Position of the drive an id names (`resolve_group_index`). -/
def resolveGroupIndex (nm : Naming) (o : BucketOrder) (summaries : List RouteSummary)
    (groups : List (List SubClip)) (id : Text) (exactLegacyMembership : Bool) : Option Nat :=
  match parseUsize nm.usizeMax id with
  | some index => if index < groups.length then some index else none
  | none =>
    match positions (startsAt nm.format.millis id) groups with
    | [i] => some i
    | _ :: _ :: _ => none
    | [] => resolveLegacy nm o summaries groups id exactLegacyMembership

/-- The drive of an id and its files (`find_drive_files`). -/
def findDriveFiles (nm : Naming) (o : BucketOrder) (summaries : List RouteSummary) (id : Text) :
    Option (Nat × List Text) :=
  let groups := groupSummaryClips o summaries
  (resolveGroupIndex nm o summaries groups id true).bind fun i => (groups[i]?).map fun g => (i, groupFiles g)

/-- The canonical start time of an id's drive (`find_drive_start_time`). -/
def findDriveStartTime (nm : Naming) (o : BucketOrder) (summaries : List RouteSummary) (id : Text) : Option Text :=
  let groups := groupSummaryClips o summaries
  (resolveGroupIndex nm o summaries groups id true).bind fun i =>
    ((groups[i]?).bind groupStart).map nm.format.millis

/-- A resolved drive (`DriveSelection`). -/
structure DriveSelection where
  index : Nat
  files : List Text
  clipIds : List Text
  clipSpansMs : SortedMap Text Int
  summary : DriveSummary

/-- What the loop over the clips of a drive collects. -/
structure Collected where
  files : List Text
  clipIds : List Text
  clipSpansMs : SortedMap Text Int

/-- One clip: its span is stored, and a file not met before is listed with its cloud id. -/
def Collected.push (nm : Naming) (acc : Collected) (clip : SubClip) : Collected :=
  let spans := acc.clipSpansMs.insert clip.summary.file clip.clipSpanMs
  if (acc.clipSpansMs.get clip.summary.file).isNone then
    ⟨acc.files ++ [clip.summary.file], acc.clipIds ++ [cloudClipId nm clip.summary], spans⟩
  else { acc with clipSpansMs := spans }

/-- The selection of a drive, given its clips. -/
def selectionOf (nm : Naming) (tags : TagMap) (index : Nat) (clips : List SubClip) : DriveSelection :=
  let got := clips.foldl (Collected.push nm) ⟨[], [], .empty⟩
  ⟨index, got.files, got.clipIds, got.clipSpansMs, buildSummaryFromAggregates tags clips index⟩

/-- Resolve an id to its drive (`resolve_drive_selection`). -/
def resolveDriveSelection (nm : Naming) (o : BucketOrder) (summaries : List RouteSummary) (id : Text)
    (tags : TagMap) : Option DriveSelection :=
  let groups := groupSummaryClips o summaries
  (resolveGroupIndex nm o summaries groups id false).bind fun i => (groups[i]?).map (selectionOf nm tags i)

/-! ## The index -/

/-- A sub-clip without its row (`IndexedClip`; its `fraction` is the share of the frame window). -/
structure IndexedClip where
  file : Text
  timestamp : Int
  startFrame : Nat
  endFrame : Nat
  totalFrames : Nat
  clipSpanMs : Int

/-- A drive under its canonical start time (`IndexedDrive`). -/
structure IndexedDrive where
  key : Text
  clips : List IndexedClip

/-- The membership of one grouping (`DriveIndex`). -/
structure DriveIndex where
  drives : List IndexedDrive

/-- How an id resolves against an index (`IndexedId`). -/
inductive IndexedId where
  | found (index : Nat)
  | missing
  | needsLegacy
  deriving DecidableEq

/-- The position an answer of the index stands for, given what the retired clock makes of the id. -/
def IndexedId.position (legacy : Option Nat) : IndexedId → Option Nat
  | .found i => some i
  | .missing => none
  | .needsLegacy => legacy

/-- A sub-clip as the index keeps it. -/
def indexedClip (c : SubClip) : IndexedClip :=
  ⟨c.summary.file, c.timestamp, c.startFrame, c.endFrame, c.totalFrames, c.clipSpanMs⟩

/-- A group as the index keeps it; an empty one has no start time and is left out. -/
def indexedDrive (nm : Naming) (g : List SubClip) : Option IndexedDrive :=
  g.head?.map fun first => ⟨nm.format.millis first.timestamp, g.map indexedClip⟩

/-- The index of a list of rows (`DriveIndex::build`). -/
def DriveIndex.build (nm : Naming) (o : BucketOrder) (summaries : List RouteSummary) : DriveIndex :=
  ⟨(groupSummaryClips o summaries).filterMap (indexedDrive nm)⟩

/-- Resolve an id (`DriveIndex::resolve`). -/
def DriveIndex.resolve (nm : Naming) (x : DriveIndex) (id : Text) : IndexedId :=
  match parseUsize nm.usizeMax id with
  | some index => if index < x.drives.length then .found index else .missing
  | none =>
    match positions (fun d => decide (d.key = id)) x.drives with
    | [i] => .found i
    | _ :: _ :: _ => .missing
    | [] => .needsLegacy

/-- Files of a drive, each at its first use (`DriveIndex::files`). -/
def DriveIndex.files (x : DriveIndex) (index : Nat) : Option (List Text) :=
  (x.drives[index]?).map fun d => firstUses (d.clips.map IndexedClip.file)

/-- Canonical start time of a drive (`DriveIndex::start_key`). -/
def DriveIndex.startKey (x : DriveIndex) (index : Nat) : Option Text := (x.drives[index]?).map IndexedDrive.key

/-- The row of a file in a map collected from rows: a later row replaces an earlier one. -/
def byFile (summaries : List RouteSummary) (file : Text) : Option RouteSummary :=
  (summaries.filter fun s => s.file = file).getLast?

/-- A kept sub-clip with its row again. -/
def restoreClip (summaries : List RouteSummary) (c : IndexedClip) : Option SubClip :=
  (byFile summaries c.file).map fun s =>
    ⟨s, c.timestamp, c.startFrame, c.endFrame, c.totalFrames, c.clipSpanMs⟩

/-- The selection of a drive, from the rows of its files; nothing if a row is missing (`DriveIndex::selection`). -/
def DriveIndex.selection (nm : Naming) (x : DriveIndex) (index : Nat) (summaries : List RouteSummary)
    (tags : TagMap) : Option DriveSelection :=
  (x.drives[index]?).bind fun d =>
    (d.clips.mapM (restoreClip summaries)).map (selectionOf nm tags index)

/-! ## Through the index -/

/-- The routes table as one snapshot shows it: the rows, and the revision every change to them moves. -/
structure RouteSource where
  revision : Nat
  summaries : List RouteSummary

/-- The order in which a query returns its rows. -/
structure RowOrder where
  rows : List RouteSummary → List RouteSummary
  perm : ∀ l, (rows l).Perm l

/-- A list in pieces of `n`, the last one shorter (`chunks`). -/
def chunks {α : Type*} (n : Nat) (l : List α) : List (List α) :=
  (List.range ((l.length + n - 1) / n)).map fun i => (l.drop (i * n)).take n

/-- The rows of some files, five hundred files to a query (`route_summaries_for_files`). -/
def routeSummariesForFiles (ro : RowOrder) (files : List Text) (summaries : List RouteSummary) : List RouteSummary :=
  (chunks 500 files).flatMap fun chunk => ro.rows (summaries.filter fun s => decide (s.file ∈ chunk))

/-- `find_drive_files` through an index built from one snapshot, with the full resolver on another
(`find_drive_files_cached`). -/
def findDriveFilesCached (nm : Naming) (o : BucketOrder) (built full : RouteSource) (id : Text) :
    Option (Nat × List Text) :=
  let index := DriveIndex.build nm o built.summaries
  match index.resolve nm id with
  | .found i => (index.files i).map fun files => (i, files)
  | .missing => none
  | .needsLegacy => findDriveFiles nm o full.summaries id

/-- `find_drive_start_time` through an index (`find_drive_start_time_cached`). -/
def findDriveStartTimeCached (nm : Naming) (o : BucketOrder) (built full : RouteSource) (id : Text) : Option Text :=
  let index := DriveIndex.build nm o built.summaries
  match index.resolve nm id with
  | .found i => index.startKey i
  | .missing => none
  | .needsLegacy => findDriveStartTime nm o full.summaries id

/-- `resolve_drive_selection` through an index built from one snapshot, reading the drive's own rows from a second one
and regrouping on a third (`resolve_drive_selection_cached`). -/
def resolveDriveSelectionCached (nm : Naming) (o : BucketOrder) (ro : RowOrder) (built read full : RouteSource)
    (id : Text) (tags : TagMap) : Option DriveSelection :=
  let index := DriveIndex.build nm o built.summaries
  match index.resolve nm id with
  | .missing => none
  | .needsLegacy => resolveDriveSelection nm o full.summaries id tags
  | .found i =>
    let rows := routeSummariesForFiles ro ((index.files i).getD []) read.summaries
    if read.revision ≠ built.revision then resolveDriveSelection nm o full.summaries id tags
    else (index.selection nm i rows tags).or (resolveDriveSelection nm o full.summaries id tags)

/-! ## Positions -/

theorem positions_map {α β : Type*} (p : β → Bool) (f : α → β) (l : List α) :
    positions p (l.map f) = positions (fun a => p (f a)) l := by
  unfold positions
  rw [List.zipIdx_map, List.filter_map, List.map_map]
  rfl

theorem positions_congr {α : Type*} {p q : α → Bool} {l : List α} (h : ∀ a ∈ l, p a = q a) :
    positions p l = positions q l := by
  unfold positions
  refine congrArg _ (List.filter_congr fun a ha => ?_)
  exact h a.1 (List.fst_mem_of_mem_zipIdx ha)

/-! ## What the index keeps -/

/-- A group under its start time. -/
def keptDrive (nm : Naming) (g : List SubClip) : IndexedDrive :=
  ⟨nm.format.millis ((groupStart g).getD 0), g.map indexedClip⟩

section Kept

variable (nm : Naming) (o : BucketOrder) (summaries : List RouteSummary)

/-- No drive of the grouping is left out, so positions in the index are positions in the grouping. -/
theorem drives_build : (DriveIndex.build nm o summaries).drives
    = (groupSummaryClips o summaries).map (keptDrive nm) := by
  have hkept : ∀ g ∈ groupSummaryClips o summaries, indexedDrive nm g = some (keptDrive nm g) := by
    intro g hg
    cases g with
    | nil => exact absurd rfl (ne_nil_of_mem_groupSummaryClips hg)
    | cons c cs => rfl
  show (groupSummaryClips o summaries).filterMap (indexedDrive nm) = _
  rw [List.filterMap_congr hkept, List.filterMap_eq_map']

theorem files_build (i : Nat) : (DriveIndex.build nm o summaries).files i
    = ((groupSummaryClips o summaries)[i]?).map groupFiles := by
  have hfiles : ∀ g, firstUses ((keptDrive nm g).clips.map IndexedClip.file) = groupFiles g := by
    intro g
    simp only [firstUses, groupFiles, keptDrive, List.map_map]
    rfl
  rw [DriveIndex.files, drives_build, List.getElem?_map, Option.map_map]
  exact congrArg (fun f => Option.map f _) (funext hfiles)

theorem startKey_build (i : Nat) : (DriveIndex.build nm o summaries).startKey i
    = (((groupSummaryClips o summaries)[i]?).bind groupStart).map nm.format.millis := by
  rw [DriveIndex.startKey, drives_build, List.getElem?_map]
  cases hg : (groupSummaryClips o summaries)[i]? with
  | none => rfl
  | some g =>
    have hne := ne_nil_of_mem_groupSummaryClips (List.mem_of_getElem? hg)
    cases g with
    | nil => exact absurd rfl hne
    | cons c cs => rfl

/-- The drives whose key is an id are the drives that start there. -/
theorem positions_key (id : Text) :
    positions (fun d : IndexedDrive => decide (d.key = id)) (DriveIndex.build nm o summaries).drives
      = positions (startsAt nm.format.millis id) (groupSummaryClips o summaries) := by
  rw [drives_build, positions_map]
  refine positions_congr fun g hg => ?_
  cases g with
  | nil => exact absurd rfl (ne_nil_of_mem_groupSummaryClips hg)
  | cons c cs => rfl

/-- **What the index says of an id is what the full resolver does with it**: a position, nothing, or the retired
clock. -/
theorem resolveGroupIndex_eq_resolve (id : Text) (exactLegacyMembership : Bool) :
    resolveGroupIndex nm o summaries (groupSummaryClips o summaries) id exactLegacyMembership
      = ((DriveIndex.build nm o summaries).resolve nm id).position
          (resolveLegacy nm o summaries (groupSummaryClips o summaries) id exactLegacyMembership) := by
  unfold resolveGroupIndex DriveIndex.resolve
  rw [positions_key, drives_build, List.length_map]
  cases parseUsize nm.usizeMax id with
  | some index => by_cases h : index < (groupSummaryClips o summaries).length <;> simp [h, IndexedId.position]
  | none =>
    rcases positions (startsAt nm.format.millis id) (groupSummaryClips o summaries) with _ | ⟨i, _ | ⟨j, l⟩⟩ <;> rfl

end Kept

/-! ## Rows of a drive -/

/-- Of rows that all are `s` where they have its file, `s` is the one found. -/
theorem byFile_eq {rows : List RouteSummary} {s : RouteSummary} (hmem : s ∈ rows)
    (hsame : ∀ r ∈ rows, r.file = s.file → r = s) : byFile rows s.file = some s := by
  have hs : s ∈ rows.filter fun r => r.file = s.file := List.mem_filter.mpr ⟨hmem, by simp⟩
  unfold byFile
  rw [List.getLast?_eq_getLast_of_ne_nil (List.ne_nil_of_mem hs)]
  obtain ⟨hlast, hfile⟩ := List.mem_filter.mp (List.getLast_mem (List.ne_nil_of_mem hs))
  exact congrArg some (hsame _ hlast (of_decide_eq_true hfile))

/-- With their rows at hand, the clips of a drive come back as they were. -/
theorem mapM_restoreClip {rows : List RouteSummary} {g : List SubClip}
    (h : ∀ c ∈ g, byFile rows c.summary.file = some c.summary) :
    (g.map indexedClip).mapM (restoreClip rows) = some g := by
  induction g with
  | nil => rfl
  | cons c cs ih =>
    have hc : restoreClip rows (indexedClip c) = some c := by
      show (byFile rows c.summary.file).map _ = some c
      rw [h c List.mem_cons_self]
      rfl
    rw [List.map_cons, List.mapM_cons, hc, ih fun d hd => h d (List.mem_cons_of_mem _ hd)]
    rfl

theorem selection_build (nm : Naming) (o : BucketOrder) (summaries rows : List RouteSummary) (tags : TagMap) (i : Nat)
    (h : ∀ g, (groupSummaryClips o summaries)[i]? = some g →
      ∀ c ∈ g, byFile rows c.summary.file = some c.summary) :
    (DriveIndex.build nm o summaries).selection nm i rows tags
      = ((groupSummaryClips o summaries)[i]?).map (selectionOf nm tags i) := by
  rw [DriveIndex.selection, drives_build, List.getElem?_map]
  cases hg : (groupSummaryClips o summaries)[i]? with
  | none => rfl
  | some g =>
    show ((g.map indexedClip).mapM (restoreClip rows)).map (selectionOf nm tags i) = _
    rw [mapM_restoreClip (h g hg)]

/-- Every file of a list is in one of its pieces. -/
theorem exists_chunk_of_mem {α : Type*} {n : Nat} (hn : 0 < n) {l : List α} {a : α} (h : a ∈ l) :
    ∃ chunk ∈ chunks n l, a ∈ chunk := by
  obtain ⟨j, hj, rfl⟩ := List.mem_iff_getElem.mp h
  have hdiv : j / n * n + j % n = j := by rw [Nat.mul_comm]; exact Nat.div_add_mod j n
  have hmod : j % n < n := Nat.mod_lt j hn
  refine ⟨(l.drop (j / n * n)).take n, List.mem_map.mpr ⟨j / n, List.mem_range.mpr ?_, rfl⟩, ?_⟩
  · -- position `j` lies before the end, so its piece is one of the `⌈length / n⌉`
    rw [Nat.lt_div_iff_mul_lt hn]
    have hle : j / n * n ≤ j := Nat.div_mul_le_self j n
    have hcomm : n * (j / n) = j / n * n := Nat.mul_comm _ _
    omega
  · refine List.mem_iff_getElem.mpr ⟨j % n, ?_, ?_⟩
    · rw [List.length_take, List.length_drop]
      omega
    · rw [List.getElem_take, List.getElem_drop]
      simp only [hdiv]

theorem mem_routeSummariesForFiles {ro : RowOrder} {files : List Text} {summaries : List RouteSummary}
    {s : RouteSummary} : s ∈ routeSummariesForFiles ro files summaries ↔ s ∈ summaries ∧ s.file ∈ files := by
  unfold routeSummariesForFiles
  constructor
  · intro h
    obtain ⟨chunk, hchunk, hs⟩ := List.mem_flatMap.mp h
    obtain ⟨hmem, hfile⟩ := List.mem_filter.mp ((ro.perm _).subset hs)
    obtain ⟨i, -, rfl⟩ := List.mem_map.mp hchunk
    exact ⟨hmem, List.mem_of_mem_drop (List.mem_of_mem_take (of_decide_eq_true hfile))⟩
  · rintro ⟨hmem, hfile⟩
    obtain ⟨chunk, hchunk, hin⟩ := exists_chunk_of_mem (by decide : 0 < 500) hfile
    refine List.mem_flatMap.mpr ⟨chunk, hchunk, (ro.perm _).symm.subset ?_⟩
    exact List.mem_filter.mpr ⟨hmem, decide_eq_true hin⟩

theorem mem_groupFiles {g : List SubClip} {file : Text} : file ∈ groupFiles g ↔ ∃ c ∈ g, c.summary.file = file := by
  simp [groupFiles]

theorem summary_mem_of_mem_groupSummaryClips {o : BucketOrder} {summaries : List RouteSummary} {g : List SubClip}
    {c : SubClip} (hg : g ∈ groupSummaryClips o summaries) (hc : c ∈ g) : c.summary ∈ summaries := by
  obtain ⟨t, ht, -, -, -, hof⟩ := mem_groupSummaryClips hg hc
  rw [hof.row_eq]
  exact ht

theorem eq_of_file_eq {summaries : List RouteSummary} (hfiles : (summaries.map RouteSummary.file).Nodup)
    {r s : RouteSummary} (hr : r ∈ summaries) (hs : s ∈ summaries) (h : r.file = s.file) : r = s :=
  List.inj_on_of_nodup_map hfiles hr hs h

/-! ## The index and the resolver -/

section Answers

variable {nm : Naming} {o : BucketOrder} {summaries : List RouteSummary}

/-- Where the index finds a drive, it is there. -/
theorem exists_group_of_found {id : Text} {i : Nat}
    (h : (DriveIndex.build nm o summaries).resolve nm id = .found i) :
    ∃ g, (groupSummaryClips o summaries)[i]? = some g := by
  have hlt : i < (groupSummaryClips o summaries).length := by
    unfold DriveIndex.resolve at h
    rw [positions_key, drives_build, List.length_map] at h
    cases hparse : parseUsize nm.usizeMax id with
    | some index =>
      rw [hparse] at h
      by_cases hin : index < (groupSummaryClips o summaries).length
      · simp only [if_pos hin, IndexedId.found.injEq] at h
        rw [← h]
        exact hin
      · simp only [if_neg hin, reduceCtorEq] at h
    | none =>
      rw [hparse] at h
      have hmem : ∀ j ∈ positions (startsAt nm.format.millis id) (groupSummaryClips o summaries),
          j < (groupSummaryClips o summaries).length := by
        intro j hj
        obtain ⟨a, ha, rfl⟩ := List.mem_map.mp hj
        exact List.snd_lt_of_mem_zipIdx (List.mem_of_mem_filter ha)
      rcases hpos : positions (startsAt nm.format.millis id) (groupSummaryClips o summaries) with _ | ⟨j, _ | ⟨k, l⟩⟩
        <;> rw [hpos] at h <;> cases h
      exact hmem i (by rw [hpos]; exact List.mem_cons_self)
  exact ⟨_, List.getElem?_eq_getElem hlt⟩

/-- The drive's own rows are enough for its selection, and so are more rows of the same table. -/
theorem selection_of_subset (hfiles : (summaries.map RouteSummary.file).Nodup) (tags : TagMap) {i : Nat}
    {rows : List RouteSummary} (hsub : ∀ s ∈ rows, s ∈ summaries)
    (hown : ∀ files, (DriveIndex.build nm o summaries).files i = some files →
      ∀ s ∈ summaries, s.file ∈ files → s ∈ rows) :
    (DriveIndex.build nm o summaries).selection nm i rows tags
      = ((groupSummaryClips o summaries)[i]?).map (selectionOf nm tags i) := by
  refine selection_build nm o summaries rows tags i fun g hg c hc => ?_
  have hgroup : g ∈ groupSummaryClips o summaries := List.mem_of_getElem? hg
  have hrow : c.summary ∈ summaries := summary_mem_of_mem_groupSummaryClips hgroup hc
  refine byFile_eq ?_ fun r hr hfile => eq_of_file_eq hfiles (hsub r hr) hrow hfile
  refine hown (groupFiles g) ?_ c.summary hrow (mem_groupFiles.mpr ⟨c, hc, rfl⟩)
  rw [files_build, hg]
  rfl

/-- `resolve_drive_selection` by what the index says of the id. -/
theorem resolveDriveSelection_of_found {id : Text} {i : Nat}
    (h : (DriveIndex.build nm o summaries).resolve nm id = .found i) (tags : TagMap) :
    resolveDriveSelection nm o summaries id tags
      = ((groupSummaryClips o summaries)[i]?).map (selectionOf nm tags i) := by
  unfold resolveDriveSelection
  simp only [resolveGroupIndex_eq_resolve, h, IndexedId.position, Option.bind_some]

theorem findDriveFiles_of_found {id : Text} {i : Nat}
    (h : (DriveIndex.build nm o summaries).resolve nm id = .found i) :
    findDriveFiles nm o summaries id
      = ((DriveIndex.build nm o summaries).files i).map fun files => (i, files) := by
  unfold findDriveFiles
  simp only [resolveGroupIndex_eq_resolve, h, IndexedId.position, Option.bind_some, files_build, Option.map_map]
  rfl

theorem findDriveStartTime_of_found {id : Text} {i : Nat}
    (h : (DriveIndex.build nm o summaries).resolve nm id = .found i) :
    findDriveStartTime nm o summaries id = (DriveIndex.build nm o summaries).startKey i := by
  unfold findDriveStartTime
  simp only [resolveGroupIndex_eq_resolve, h, IndexedId.position, Option.bind_some, startKey_build]

/-- An id the index calls missing is missing for the resolver, whatever is asked of it. -/
theorem resolveGroupIndex_of_missing {id : Text}
    (h : (DriveIndex.build nm o summaries).resolve nm id = .missing) (exactLegacyMembership : Bool) :
    resolveGroupIndex nm o summaries (groupSummaryClips o summaries) id exactLegacyMembership = none := by
  rw [resolveGroupIndex_eq_resolve, h]
  rfl

end Answers

/-- **An index that answers like the full resolver on some rows**: it names the same drive or leaves the id to the
retired clock; the drive has the same files, start time and selection, also when only its own rows are read; and the
resolver through the index is the resolver. -/
structure AnswersAlike (nm : Naming) (o : BucketOrder) (x : DriveIndex) (src : RouteSource) : Prop where
  drive : ∀ id exact, resolveGroupIndex nm o src.summaries (groupSummaryClips o src.summaries) id exact
    = (x.resolve nm id).position
        (resolveLegacy nm o src.summaries (groupSummaryClips o src.summaries) id exact)
  files : ∀ id i, x.resolve nm id = .found i →
    findDriveFiles nm o src.summaries id = (x.files i).map fun files => (i, files)
  startKey : ∀ id i, x.resolve nm id = .found i → findDriveStartTime nm o src.summaries id = x.startKey i
  selection : ∀ id tags i, x.resolve nm id = .found i →
    resolveDriveSelection nm o src.summaries id tags = x.selection nm i src.summaries tags
  found : ∀ id tags i, x.resolve nm id = .found i → (x.selection nm i src.summaries tags).isSome
  filesCached : ∀ id, findDriveFilesCached nm o src src id = findDriveFiles nm o src.summaries id
  startTimeCached : ∀ id, findDriveStartTimeCached nm o src src id = findDriveStartTime nm o src.summaries id
  selectionCached : ∀ ro id tags, resolveDriveSelectionCached nm o ro src src src id tags
    = resolveDriveSelection nm o src.summaries id tags

/-- The index built from one snapshot and used on snapshots that may be later: where the revision is the same the rows
are, and every answer is the resolver's on the first snapshot or on the last. -/
theorem resolveDriveSelectionCached_or (nm : Naming) (o : BucketOrder) (ro : RowOrder) {built read full : RouteSource}
    (hfiles : (built.summaries.map RouteSummary.file).Nodup)
    (hrev : read.revision = built.revision → read.summaries = built.summaries) (id : Text) (tags : TagMap) :
    resolveDriveSelectionCached nm o ro built read full id tags = resolveDriveSelection nm o built.summaries id tags
      ∨ resolveDriveSelectionCached nm o ro built read full id tags
        = resolveDriveSelection nm o full.summaries id tags := by
  cases hres : (DriveIndex.build nm o built.summaries).resolve nm id with
  | missing =>
    refine Or.inl ?_
    simp only [resolveDriveSelectionCached, hres, resolveDriveSelection, resolveGroupIndex_of_missing hres,
      Option.bind_none]
  | needsLegacy =>
    refine Or.inr ?_
    simp only [resolveDriveSelectionCached, hres]
  | found i =>
    simp only [resolveDriveSelectionCached, hres]
    by_cases hsame : read.revision = built.revision
    · -- the same revision: the drive's own rows of this snapshot give the selection of the first one
      refine Or.inl ?_
      rw [if_neg (not_not_intro hsame), hrev hsame, resolveDriveSelection_of_found hres,
        selection_of_subset hfiles tags (fun s hs => (mem_routeSummariesForFiles.mp hs).1) ?_]
      · obtain ⟨g, hg⟩ := exists_group_of_found hres
        rw [hg]
        rfl
      · intro files hown s hs hfile
        refine mem_routeSummariesForFiles.mpr ⟨hs, ?_⟩
        rw [hown]
        exact hfile
    · exact Or.inr (if_pos hsame)

/-- **The drive index answers like the full resolver.** For rows of distinct files, under the same iteration order. -/
theorem driveIndex_answers (nm : Naming) (o : BucketOrder) (src : RouteSource)
    (hfiles : (src.summaries.map RouteSummary.file).Nodup) :
    AnswersAlike nm o (DriveIndex.build nm o src.summaries) src := by
  have hselection : ∀ tags i, (DriveIndex.build nm o src.summaries).selection nm i src.summaries tags
      = ((groupSummaryClips o src.summaries)[i]?).map (selectionOf nm tags i) := fun tags i =>
    selection_of_subset hfiles tags (fun s hs => hs) fun files _ s hs _ => hs
  refine ⟨fun id exact => resolveGroupIndex_eq_resolve nm o src.summaries id exact,
    fun id i h => findDriveFiles_of_found h, fun id i h => findDriveStartTime_of_found h, ?_, ?_, ?_, ?_, ?_⟩
  · intro id tags i h
    rw [resolveDriveSelection_of_found h, hselection]
  · intro id tags i h
    obtain ⟨g, hg⟩ := exists_group_of_found h
    rw [hselection, hg]
    rfl
  · intro id
    cases hres : (DriveIndex.build nm o src.summaries).resolve nm id with
    | found i => simp only [findDriveFilesCached, hres, findDriveFiles_of_found hres]
    | needsLegacy => simp only [findDriveFilesCached, hres]
    | missing =>
      simp only [findDriveFilesCached, hres, findDriveFiles, resolveGroupIndex_of_missing hres, Option.bind_none]
  · intro id
    cases hres : (DriveIndex.build nm o src.summaries).resolve nm id with
    | found i => simp only [findDriveStartTimeCached, hres, findDriveStartTime_of_found hres]
    | needsLegacy => simp only [findDriveStartTimeCached, hres]
    | missing =>
      simp only [findDriveStartTimeCached, hres, findDriveStartTime, resolveGroupIndex_of_missing hres,
        Option.bind_none]
  · intro ro id tags
    rcases resolveDriveSelectionCached_or nm o ro hfiles (fun _ => rfl) id tags with h | h
    · exact h
    · exact h

/-- Ids of the hour after noon, on a 64-bit device, with every clip uploaded under the name of its file. -/
def noonNaming : Naming := ⟨noonFormat, 2 ^ 64 - 1, fun s => some s.file, id⟩

/-- A minute with five seconds of Park after twenty: two drives of one file. The index knows the second one by number
and by start time, knows that there is no third, and leaves its retired name to the resolver. -/
theorem driveIndex_answers_noon :
    let src : RouteSource := ⟨1, [noonClip [⟨4, 20⟩, ⟨0, 5⟩, ⟨4, 35⟩]]⟩
    let x := DriveIndex.build noonNaming .forward src.summaries
    AnswersAlike noonNaming .forward x src
      ∧ x.resolve noonNaming "+1".toList = .found 1
      ∧ x.resolve noonNaming "2026-01-01T12:00:25.000".toList = .found 1
      ∧ x.resolve noonNaming "2".toList = .missing
      ∧ x.resolve noonNaming "2026-01-01T12:00:25".toList = .needsLegacy := by
  refine ⟨driveIndex_answers noonNaming .forward _ (by decide), ?_⟩
  decide +kernel

/-! ## Ids as texts and ids as values -/

/-- A format whose texts are read one way only: times to the millisecond are no numbers, are no times to the second,
and each stands for one instant. -/
structure Naming.Unambiguous (nm : Naming) : Prop where
  millis_injective : Function.Injective nm.format.millis
  not_numeric : ∀ ms, parseUsize nm.usizeMax (nm.format.millis ms) = none
  not_seconds : ∀ a b, nm.format.seconds a ≠ nm.format.millis b

theorem resolveGroupIndex_of_parse {nm : Naming} {id : Text} {n : Nat} (h : parseUsize nm.usizeMax id = some n)
    (o : BucketOrder) (summaries : List RouteSummary) (groups : List (List SubClip)) (exact : Bool) :
    resolveGroupIndex nm o summaries groups id exact
      = SentryUsb.resolveGroupIndex o summaries groups (.index n) exact := by
  unfold resolveGroupIndex
  rw [h]
  rfl

/-- The text of a current start time resolves as that start time does. -/
theorem resolveGroupIndex_millis {nm : Naming} (h : nm.Unambiguous) (ms : Int) (o : BucketOrder)
    (summaries : List RouteSummary) (groups : List (List SubClip)) (exact : Bool) :
    resolveGroupIndex nm o summaries groups (nm.format.millis ms) exact
      = SentryUsb.resolveGroupIndex o summaries groups (.start ms) exact := by
  have hstart : ∀ g, startsAt nm.format.millis (nm.format.millis ms) g = decide (groupStart g = some ms) := by
    intro g
    unfold startsAt
    cases groupStart g with
    | none => rfl
    | some ts => simp [h.millis_injective.eq_iff]
  have hlegacy : resolveLegacy nm o summaries groups (nm.format.millis ms) exact = none := by
    have hnone : (groupSummaryClipsWithClock legacyClock o summaries).filter
        (startsAt nm.format.seconds (nm.format.millis ms)) = [] := by
      refine List.filter_eq_nil_iff.mpr fun g _ => ?_
      unfold startsAt
      cases groupStart g with
      | none => simp
      | some ts => simp [h.not_seconds]
    simp only [resolveLegacy, hnone]
  unfold resolveGroupIndex SentryUsb.resolveGroupIndex
  simp only [h.not_numeric, positions_congr fun g (_ : g ∈ groups) => hstart g, hlegacy]
  rcases positions (fun g => decide (groupStart g = some ms)) groups with _ | ⟨i, _ | ⟨j, l⟩⟩ <;> rfl

end SentryUsb.Resolver
