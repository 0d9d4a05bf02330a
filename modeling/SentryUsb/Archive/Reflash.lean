import SentryUsb.Grouper.Clip
import SentryUsb.Library.TransitionSystem

/-! # Archive sync after a reflash

The drive data lives in SQLite; a JSON mirror of it is copied to the archive. A wiped device starts
with an empty store while the archive still holds the old history `A`. The sync pass pulls that copy
down into the mirror when the store is empty, for the one-shot importer of the next boot, and pushes
an export otherwise.

* **`Device`**, **`step`** — store, files, in-memory counter and the phases of open and sync
  (`db.rs`, `run_one_shot_import`, `sync_to_archive_guarded`, `restore_from_archive_at`,
  `sync_to_path`), each of which a failure or a power loss may end;
* **`history_kept`** — while every export finds all of `A` in the store, `A` stays in the archive or
  in the store, only a store with routes is exported, and baselines follow completed copies;
* **`history_lost`** — the first open of the empty store marks the import as done, so the restored
  mirror is never imported and the next export replaces the archive. -/

namespace SentryUsb.Archive

open Library

/-! ## Files -/

/-- A `drive-data.json`: the routes it lists, its size, and whether it was written to its end. -/
structure DriveData where
  routes : List Text
  bytes : Int
  whole : Bool
  deriving DecidableEq

/-- A copy that was cut off. -/
def DriveData.cut (f : DriveData) : DriveData := { f with whole := false }

/-- Below this last size the guard allows every sync (`MIN_THRESHOLD_BYTES`). -/
def minThresholdBytes : Int := 10 * 1024 * 1024

/-- The size guard; no cached size allows the sync (`check_sync_size_guard`). -/
def checkSyncSizeGuard (newSize lastSize : Int) : Bool :=
  decide (lastSize ≤ 0) || decide (lastSize < minThresholdBytes) || decide (lastSize / 2 ≤ newSize)

/-- The import's shrink guard (`SYNCGUARD_MIN_ROUTES`, `SYNCGUARD_SHRINK_RATIO`). -/
def importShrinks (existing new : Nat) : Bool := decide (1000 ≤ existing) && decide (2 * new < existing)

/-! ## The device -/

/-- What a pass read before it exported. -/
structure Pass where
  routesNow : Int
  samplesNow : Int
  today : Nat
  deriving DecidableEq

/-- Markers of the last successful sync. -/
structure Baselines where
  routes : Option Int
  samples : Option Int
  exportDate : Option Nat
  deriving DecidableEq

/-- Where the process is. -/
inductive Proc where
  | off
  /-- `load` has not decided about the import. -/
  | opening
  /-- The rows of the mirror are committed, the marker is not. -/
  | imported
  /-- The marker is set; an imported mirror is still to be renamed. -/
  | marked (fromMirror : Bool)
  | running
  /-- Restore: the archive copy is to be copied to the mirror's temporary file. -/
  | restoring
  | restoreCopied
  /-- Export: the mirror's temporary file is to be written. -/
  | exporting (p : Pass)
  | exported (p : Pass)
  /-- The mirror is the export. -/
  | mirrored (p : Pass)
  /-- The archive's temporary file is the export. -/
  | archiveCopied (p : Pass)
  /-- The rename failed and the temporary file is being copied over the archive. -/
  | replacing (p : Pass)
  /-- The archive is the export. -/
  | replaced (p : Pass)
  | cacheWritten (p : Pass)
  | routesRecorded (p : Pass)
  | samplesRecorded (p : Pass)
  deriving DecidableEq

/-- The device and its archive. `routeCount` and `proc` are lost with the power. -/
structure Device where
  routes : List Text
  samples : Int
  importedFromJson : Bool
  baselines : Baselines
  mirror : Option DriveData
  mirrorTmp : Option DriveData
  archive : Option DriveData
  archiveTmp : Option DriveData
  syncCache : Option Int
  routeCount : Int
  proc : Proc
  deriving DecidableEq

/-- Whether an archive sync or the reads before it are under way. -/
def Proc.syncing : Proc → Bool
  | .restoring | .restoreCopied | .exporting _ | .exported _ | .mirrored _ | .archiveCopied _
  | .replacing _ | .replaced _ | .cacheWritten _ | .routesRecorded _ | .samplesRecorded _ => true
  | _ => false

/-! ## Steps -/

/-- What happens to the device. -/
inductive Act where
  | openStore
  | importMirror
  | setMarker
  /-- The end of `load`; an imported mirror is renamed to a backup, or the rename fails. -/
  | finishOpen (renamed : Bool)
  | powerLoss
  /-- An error of the step under way. -/
  | fail
  | addRoute (file : Text)
  | deleteRoutes (files : List Text)
  | clearAll
  | addSamples (n : Nat)
  | startSync (today : Nat)
  | copyToMirrorTmp (whole : Bool)
  | renameMirror
  | writeExport (bytes : Nat) (whole : Bool)
  | renameExport
  | copyToArchiveTmp (whole : Bool)
  | renameArchive
  | beginReplace
  | endReplace
  | writeCache (ok : Bool)
  | setBaseline
  deriving DecidableEq

/-- The head of a pass: restore into an empty store, skip, or export (`sync_to_archive_guarded`). -/
def Device.startSync (s : Device) (today : Nat) : Proc :=
  if s.archive.isSome && s.mirror.isNone && decide (s.routeCount ≤ 0) then .restoring
  else if s.routeCount = 0 then .running
  else if s.baselines.routes = some s.routeCount ∧ s.baselines.samples = some s.samples
      ∧ s.archive.isSome then .running
  else if s.baselines.exportDate = some today ∧ s.archive.isSome then .running
  else .exporting ⟨s.routeCount, s.samples, today⟩

/-- One step of the device. -/
@[grind =] def step (s : Device) : Act → Option Device
  | .openStore => if s.proc = .off then some { s with proc := .opening } else none
  | .importMirror => match s.proc, s.mirror with
    | .opening, some f =>
      if !s.importedFromJson && f.whole && !importShrinks s.routes.length f.routes.length then
        some { s with
          routes := s.routes ++ f.routes.filter (fun r => decide (r ∉ s.routes))
          proc := .imported }
      else none
    | _, _ => none
  | .setMarker => match s.proc with
    -- nothing to import is taken for a fresh install
    | .opening =>
      if !s.importedFromJson && s.mirror.isNone then
        some { s with importedFromJson := true, proc := .marked false }
      else none
    | .imported => some { s with importedFromJson := true, proc := .marked true }
    | _ => none
  | .finishOpen renamed => match s.proc with
    | .opening =>
      if s.importedFromJson then
        some { s with routeCount := s.routes.length, proc := .running }
      else none
    | .marked fromMirror => some { s with
      mirror := if fromMirror && renamed then none else s.mirror
      routeCount := s.routes.length
      proc := .running }
    | _ => none
  | .powerLoss => some { s with routeCount := 0, proc := .off }
  | .fail =>
    if s.proc.syncing then some { s with proc := .running }
    else if s.proc = .opening ∨ s.proc = .imported then some { s with proc := .off }
    else none
  | .addRoute file =>
    if s.proc = .running then
      if file ∈ s.routes then some s
      else some { s with routes := file :: s.routes, routeCount := s.routeCount + 1 }
    else none
  | .deleteRoutes files =>
    if s.proc = .running then some { s with
      routes := s.routes.filter fun r => decide (r ∉ files)
      routeCount := s.routeCount - (s.routes.filter fun r => decide (r ∈ files)).length }
    else none
  | .clearAll =>
    if s.proc = .running then some { s with routes := [], routeCount := 0 } else none
  | .addSamples n => if s.proc = .running then some { s with samples := s.samples + n } else none
  | .startSync today =>
    if s.proc = .running then some { s with proc := s.startSync today } else none
  | .copyToMirrorTmp whole => match s.proc, s.archive with
    | .restoring, some f =>
      if whole then some { s with mirrorTmp := some f, proc := .restoreCopied }
      else some { s with mirrorTmp := some f.cut, proc := .running }
    | _, _ => none
  | .renameMirror =>
    if s.proc = .restoreCopied then
      some { s with mirror := s.mirrorTmp, mirrorTmp := none, proc := .running }
    else none
  | .writeExport bytes whole => match s.proc with
    | .exporting p =>
      if whole then
        some { s with mirrorTmp := some ⟨s.routes, bytes, true⟩, proc := .exported p }
      else some { s with mirrorTmp := some ⟨s.routes, bytes, false⟩, proc := .running }
    | _ => none
  | .renameExport => match s.proc with
    | .exported p => some { s with mirror := s.mirrorTmp, mirrorTmp := none, proc := .mirrored p }
    | _ => none
  | .copyToArchiveTmp whole => match s.proc, s.mirror with
    | .mirrored p, some f =>
      if checkSyncSizeGuard f.bytes (s.syncCache.getD 0) then
        if whole then some { s with archiveTmp := some f, proc := .archiveCopied p }
        else some { s with archiveTmp := none, proc := .running }
      else none
    | _, _ => none
  | .renameArchive => match s.proc with
    | .archiveCopied p =>
      some { s with archive := s.archiveTmp, archiveTmp := none, proc := .replaced p }
    | _ => none
  | .beginReplace => match s.proc with
    | .archiveCopied p =>
      some { s with archive := s.archiveTmp.map DriveData.cut, proc := .replacing p }
    | _ => none
  | .endReplace => match s.proc with
    | .replacing p =>
      some { s with archive := s.archiveTmp, archiveTmp := none, proc := .replaced p }
    | _ => none
  | .writeCache ok => match s.proc with
    | .replaced p => some { s with
      syncCache := if ok then s.archive.map DriveData.bytes else s.syncCache
      proc := .cacheWritten p }
    | _ => none
  | .setBaseline => match s.proc with
    | .cacheWritten p => some { s with
      baselines := { s.baselines with routes := some p.routesNow }, proc := .routesRecorded p }
    | .routesRecorded p => some { s with
      baselines := { s.baselines with samples := some p.samplesNow }
      proc := .samplesRecorded p }
    | .samplesRecorded p => some { s with
      baselines := { s.baselines with exportDate := some p.today }, proc := .running }
    | _ => none

/-! ## Conditions -/

/-- No user request deletes a route of `A`. -/
def Respects (A : List Text) (s : Device) : Act → Prop
  | .deleteRoutes files => ∀ r ∈ A, r ∉ files
  | .clearAll => ∀ r ∈ A, r ∉ s.routes
  | _ => True

/-- Moreover an export finds every route of `A` in the store. -/
def ExportsAll (A : List Text) (s : Device) : Act → Prop
  | .writeExport _ _ => ∀ r ∈ A, r ∈ s.routes
  | a => Respects A s a

/-- A route is in the archive copy. -/
def InArchive (s : Device) (r : Text) : Prop :=
  ∃ f, s.archive = some f ∧ f.whole = true ∧ r ∈ f.routes

/-- A wiped device: empty store, no mirror, no cached size, not opened, and an archive copy that holds
`A`. -/
structure Reflashed (A : List Text) (s : Device) : Prop where
  routes : s.routes = []
  mirror : s.mirror = none
  syncCache : s.syncCache = none
  importedFromJson : s.importedFromJson = false
  proc : s.proc = .off
  archive : ∃ f, s.archive = some f ∧ f.whole = true ∧ ∀ r ∈ A, r ∈ f.routes

/-! ## The invariant -/

/-- A file that is a complete export of the store, which holds all of `A` and at least one route. -/
structure Exported (A : List Text) (s : Device) (file : Option DriveData) : Prop where
  whole : ∃ f, file = some f ∧ f.whole = true ∧ f.routes = s.routes
  all : ∀ r ∈ A, r ∈ s.routes
  some_route : s.routes ≠ []

/-- What a pass knows at each phase: which file is the export. -/
def PhaseInv (A : List Text) (s : Device) : Proc → Prop
  | .exporting _ => s.routes ≠ []
  | .exported _ => Exported A s s.mirrorTmp
  | .mirrored _ => Exported A s s.mirror
  | .archiveCopied _ | .replacing _ => Exported A s s.archiveTmp
  | .replaced _ | .cacheWritten _ | .routesRecorded _ | .samplesRecorded _ => Exported A s s.archive
  | _ => True

/-- The archive copy is complete and holds `A`. -/
def ArchiveHolds (A : List Text) (s : Device) : Prop :=
  ∃ f, s.archive = some f ∧ f.whole = true ∧ ∀ r ∈ A, r ∈ f.routes

/-- **The invariant**: `A` is archived or stored, the counter counts the routes while the process
runs, and the pass knows its export. -/
structure Inv (A : List Text) (s : Device) : Prop where
  kept : ArchiveHolds A s ∨ ∀ r ∈ A, r ∈ s.routes
  count : s.proc = .running ∨ s.proc.syncing = true → s.routeCount = s.routes.length
  phase : PhaseInv A s s.proc

variable {A : List Text} {s s' : Device}

/-- A pass that goes on to an export found routes in the store. -/
theorem routes_ne_nil_of_startSync {today : Nat} {p : Pass} (hcount : s.routeCount = s.routes.length)
    (h : s.startSync today = .exporting p) : s.routes ≠ [] := by
  intro hnil
  rw [hnil] at hcount
  unfold Device.startSync at h
  split at h
  · exact absurd h (by simp)
  · rw [if_pos (by simpa using hcount)] at h
    exact absurd h (by simp)

/-- The head of a pass restores, skips or exports. -/
theorem startSync_cases (s : Device) (today : Nat) :
    s.startSync today = .restoring ∨ s.startSync today = .running
      ∨ ∃ p, s.startSync today = .exporting p := by
  unfold Device.startSync
  split
  · exact .inl rfl
  · split
    · exact .inr (.inl rfl)
    · split
      · exact .inr (.inl rfl)
      · split
        · exact .inr (.inl rfl)
        · exact .inr (.inr ⟨_, rfl⟩)

theorem Exported.archiveHolds {file : Option DriveData} (h : Exported A s file)
    (harchive : s'.archive = file) : ArchiveHolds A s' := by
  obtain ⟨f, hf, hwhole, hroutes⟩ := h.whole
  exact ⟨f, harchive.trans hf, hwhole, fun r hr => by rw [hroutes]; exact h.all r hr⟩

theorem Exported.congr {file file' : Option DriveData} (h : Exported A s file)
    (hroutes : s'.routes = s.routes) (hfile : file' = file) : Exported A s' file' := by
  refine ⟨?_, by rw [hroutes]; exact h.all, by rw [hroutes]; exact h.some_route⟩
  rw [hfile, hroutes]
  exact h.whole

/-- A step that leaves archive and store alone keeps `A`. -/
theorem Inv.kept_of_eq (h : Inv A s) (harchive : s'.archive = s.archive)
    (hroutes : s'.routes = s.routes) : ArchiveHolds A s' ∨ ∀ r ∈ A, r ∈ s'.routes := by
  unfold ArchiveHolds
  rw [harchive, hroutes]
  exact h.kept

/-! ## Opening -/

theorem inv_importMirror (h : Inv A s) (hstep : step s .importMirror = some s') : Inv A s' := by
  simp only [step] at hstep
  split at hstep
  · rename_i f hproc hmirror
    split at hstep
    · obtain rfl := Option.some.inj hstep
      refine ⟨?_, fun hlive => absurd hlive (by simp [Proc.syncing]), trivial⟩
      rcases h.kept with harchive | hall
      · exact .inl harchive
      · exact .inr fun r hr => List.mem_append_left _ (hall r hr)
    · exact absurd hstep (by simp)
  · exact absurd hstep (by simp)

theorem inv_setMarker (h : Inv A s) (hstep : step s .setMarker = some s') : Inv A s' := by
  simp only [step] at hstep
  split at hstep
  · split at hstep
    · obtain rfl := Option.some.inj hstep
      exact ⟨h.kept_of_eq rfl rfl, fun hlive => absurd hlive (by simp [Proc.syncing]), trivial⟩
    · exact absurd hstep (by simp)
  · obtain rfl := Option.some.inj hstep
    exact ⟨h.kept_of_eq rfl rfl, fun hlive => absurd hlive (by simp [Proc.syncing]), trivial⟩
  · exact absurd hstep (by simp)

theorem inv_finishOpen {renamed : Bool} (h : Inv A s)
    (hstep : step s (.finishOpen renamed) = some s') : Inv A s' := by
  simp only [step] at hstep
  split at hstep
  · split at hstep
    · obtain rfl := Option.some.inj hstep
      exact ⟨h.kept_of_eq rfl rfl, fun _ => rfl, trivial⟩
    · exact absurd hstep (by simp)
  · obtain rfl := Option.some.inj hstep
    exact ⟨h.kept_of_eq rfl rfl, fun _ => rfl, trivial⟩
  · exact absurd hstep (by simp)

theorem inv_fail (h : Inv A s) (hstep : step s .fail = some s') : Inv A s' := by
  simp only [step] at hstep
  split at hstep
  · rename_i hsync
    obtain rfl := Option.some.inj hstep
    exact ⟨h.kept_of_eq rfl rfl, fun _ => h.count (.inr hsync), trivial⟩
  · split at hstep
    · obtain rfl := Option.some.inj hstep
      exact ⟨h.kept_of_eq rfl rfl, fun hlive => absurd hlive (by simp [Proc.syncing]), trivial⟩
    · exact absurd hstep (by simp)

/-! ## Edits -/

theorem inv_addRoute {file : Text} (h : Inv A s) (hstep : step s (.addRoute file) = some s') :
    Inv A s' := by
  simp only [step] at hstep
  split at hstep
  · rename_i hproc
    split at hstep
    · obtain rfl := Option.some.inj hstep
      exact h
    · obtain rfl := Option.some.inj hstep
      refine ⟨?_, fun _ => ?_, by simp only [hproc]; trivial⟩
      · rcases h.kept with harchive | hall
        · exact .inl harchive
        · exact .inr fun r hr => List.mem_cons_of_mem file (hall r hr)
      · have := h.count (.inl hproc)
        simp only [List.length_cons]
        omega
  · exact absurd hstep (by simp)

theorem inv_deleteRoutes {files : List Text} (h : Inv A s) (hkeep : ∀ r ∈ A, r ∉ files)
    (hstep : step s (.deleteRoutes files) = some s') : Inv A s' := by
  simp only [step] at hstep
  split at hstep
  · rename_i hproc
    obtain rfl := Option.some.inj hstep
    refine ⟨?_, fun _ => ?_, by simp only [hproc]; trivial⟩
    · rcases h.kept with harchive | hall
      · exact .inl harchive
      · exact .inr fun r hr => List.mem_filter.mpr ⟨hall r hr, decide_eq_true (hkeep r hr)⟩
    · have hcount := h.count (.inl hproc)
      have hsplit := List.length_eq_length_filter_add (l := s.routes) fun r => decide (r ∈ files)
      have hnot : (s.routes.filter fun r => !decide (r ∈ files))
          = s.routes.filter fun r => decide (r ∉ files) :=
        List.filter_congr fun r _ => by simp
      rw [hnot] at hsplit
      simp only
      omega
  · exact absurd hstep (by simp)

theorem inv_clearAll (h : Inv A s) (hkeep : ∀ r ∈ A, r ∉ s.routes)
    (hstep : step s .clearAll = some s') : Inv A s' := by
  simp only [step] at hstep
  split at hstep
  · rename_i hproc
    obtain rfl := Option.some.inj hstep
    refine ⟨?_, fun _ => rfl, by simp only [hproc]; trivial⟩
    rcases h.kept with harchive | hall
    · exact .inl harchive
    · exact .inr fun r hr => absurd (hall r hr) (hkeep r hr)
  · exact absurd hstep (by simp)

/-! ## The pass -/

theorem inv_startSync {today : Nat} (h : Inv A s) (hstep : step s (.startSync today) = some s') :
    Inv A s' := by
  simp only [step] at hstep
  split at hstep
  · rename_i hproc
    obtain rfl := Option.some.inj hstep
    have hcount := h.count (.inl hproc)
    refine ⟨h.kept_of_eq rfl rfl, fun _ => hcount, ?_⟩
    rcases startSync_cases s today with hrestore | hskip | ⟨p, hexport⟩
    · simp only [hrestore]
      trivial
    · simp only [hskip]
      trivial
    · simp only [hexport]
      exact routes_ne_nil_of_startSync hcount hexport
  · exact absurd hstep (by simp)

theorem inv_copyToMirrorTmp {whole : Bool} (h : Inv A s)
    (hstep : step s (.copyToMirrorTmp whole) = some s') : Inv A s' := by
  simp only [step] at hstep
  split at hstep
  · rename_i f hproc harchive
    have hcount := h.count (.inr (by rw [hproc]; rfl))
    split at hstep
    · obtain rfl := Option.some.inj hstep
      exact ⟨h.kept_of_eq rfl rfl, fun _ => hcount, trivial⟩
    · obtain rfl := Option.some.inj hstep
      exact ⟨h.kept_of_eq rfl rfl, fun _ => hcount, trivial⟩
  · exact absurd hstep (by simp)

theorem inv_writeExport {bytes : Nat} {whole : Bool} (h : Inv A s) (hall : ∀ r ∈ A, r ∈ s.routes)
    (hstep : step s (.writeExport bytes whole) = some s') : Inv A s' := by
  simp only [step] at hstep
  split at hstep
  · rename_i p hproc
    have hcount := h.count (.inr (by rw [hproc]; rfl))
    have hphase := h.phase
    rw [hproc] at hphase
    split at hstep
    · obtain rfl := Option.some.inj hstep
      exact ⟨h.kept_of_eq rfl rfl, fun _ => hcount, ⟨_, rfl, rfl, rfl⟩, hall, hphase⟩
    · obtain rfl := Option.some.inj hstep
      exact ⟨h.kept_of_eq rfl rfl, fun _ => hcount, trivial⟩
  · exact absurd hstep (by simp)

theorem inv_renameExport (h : Inv A s) (hstep : step s .renameExport = some s') : Inv A s' := by
  simp only [step] at hstep
  split at hstep
  · rename_i p hproc
    obtain rfl := Option.some.inj hstep
    have hphase := h.phase
    rw [hproc] at hphase
    exact ⟨h.kept_of_eq rfl rfl, fun _ => h.count (.inr (by rw [hproc]; rfl)),
      Exported.congr hphase rfl rfl⟩
  · exact absurd hstep (by simp)

theorem inv_copyToArchiveTmp {whole : Bool} (h : Inv A s)
    (hstep : step s (.copyToArchiveTmp whole) = some s') : Inv A s' := by
  simp only [step] at hstep
  split at hstep
  · rename_i p f hproc hmirror
    have hcount := h.count (.inr (by rw [hproc]; rfl))
    have hphase := h.phase
    rw [hproc] at hphase
    split at hstep
    · split at hstep
      · obtain rfl := Option.some.inj hstep
        exact ⟨h.kept_of_eq rfl rfl, fun _ => hcount, Exported.congr hphase rfl hmirror.symm⟩
      · obtain rfl := Option.some.inj hstep
        exact ⟨h.kept_of_eq rfl rfl, fun _ => hcount, trivial⟩
    · exact absurd hstep (by simp)
  · exact absurd hstep (by simp)

/-- The rename puts the export in the archive's place at once. -/
theorem inv_renameArchive (h : Inv A s) (hstep : step s .renameArchive = some s') : Inv A s' := by
  simp only [step] at hstep
  split at hstep
  · rename_i p hproc
    obtain rfl := Option.some.inj hstep
    have hphase := h.phase
    rw [hproc] at hphase
    exact ⟨.inl (Exported.archiveHolds hphase rfl), fun _ => h.count (.inr (by rw [hproc]; rfl)),
      Exported.congr hphase rfl rfl⟩
  · exact absurd hstep (by simp)

/-- While the fallback copy is under way, the store holds `A`. -/
theorem inv_beginReplace (h : Inv A s) (hstep : step s .beginReplace = some s') : Inv A s' := by
  simp only [step] at hstep
  split at hstep
  · rename_i p hproc
    obtain rfl := Option.some.inj hstep
    have hphase := h.phase
    rw [hproc] at hphase
    exact ⟨.inr hphase.all, fun _ => h.count (.inr (by rw [hproc]; rfl)),
      Exported.congr hphase rfl rfl⟩
  · exact absurd hstep (by simp)

theorem inv_endReplace (h : Inv A s) (hstep : step s .endReplace = some s') : Inv A s' := by
  simp only [step] at hstep
  split at hstep
  · rename_i p hproc
    obtain rfl := Option.some.inj hstep
    have hphase := h.phase
    rw [hproc] at hphase
    exact ⟨.inl (Exported.archiveHolds hphase rfl), fun _ => h.count (.inr (by rw [hproc]; rfl)),
      Exported.congr hphase rfl rfl⟩
  · exact absurd hstep (by simp)

theorem inv_writeCache {ok : Bool} (h : Inv A s) (hstep : step s (.writeCache ok) = some s') :
    Inv A s' := by
  simp only [step] at hstep
  split at hstep
  · rename_i p hproc
    obtain rfl := Option.some.inj hstep
    have hphase := h.phase
    rw [hproc] at hphase
    exact ⟨h.kept_of_eq rfl rfl, fun _ => h.count (.inr (by rw [hproc]; rfl)),
      Exported.congr hphase rfl rfl⟩
  · exact absurd hstep (by simp)

theorem inv_setBaseline (h : Inv A s) (hstep : step s .setBaseline = some s') : Inv A s' := by
  simp only [step] at hstep
  have hphase := h.phase
  split at hstep
  · rename_i p hproc
    obtain rfl := Option.some.inj hstep
    rw [hproc] at hphase
    exact ⟨h.kept_of_eq rfl rfl, fun _ => h.count (.inr (by rw [hproc]; rfl)),
      Exported.congr hphase rfl rfl⟩
  · rename_i p hproc
    obtain rfl := Option.some.inj hstep
    rw [hproc] at hphase
    exact ⟨h.kept_of_eq rfl rfl, fun _ => h.count (.inr (by rw [hproc]; rfl)),
      Exported.congr hphase rfl rfl⟩
  · rename_i p hproc
    obtain rfl := Option.some.inj hstep
    exact ⟨h.kept_of_eq rfl rfl, fun _ => h.count (.inr (by rw [hproc]; rfl)), trivial⟩
  · exact absurd hstep (by simp)

/-! ## Runs -/

/-- **Every step that exports all of `A` and respects it keeps the invariant.** -/
theorem inv_step {a : Act} (h : Inv A s) (hok : ExportsAll A s a) (hstep : step s a = some s') :
    Inv A s' := by
  cases a with
  | openStore =>
    simp only [step] at hstep
    split at hstep
    · obtain rfl := Option.some.inj hstep
      exact ⟨h.kept_of_eq rfl rfl, fun hlive => absurd hlive (by simp [Proc.syncing]), trivial⟩
    · exact absurd hstep (by simp)
  | importMirror => exact inv_importMirror h hstep
  | setMarker => exact inv_setMarker h hstep
  | finishOpen renamed => exact inv_finishOpen h hstep
  | powerLoss =>
    obtain rfl := Option.some.inj hstep
    exact ⟨h.kept_of_eq rfl rfl, fun hlive => absurd hlive (by simp [Proc.syncing]), trivial⟩
  | fail => exact inv_fail h hstep
  | addRoute file => exact inv_addRoute h hstep
  | deleteRoutes files => exact inv_deleteRoutes h hok hstep
  | clearAll => exact inv_clearAll h hok hstep
  | addSamples n =>
    simp only [step] at hstep
    split at hstep
    · rename_i hproc
      obtain rfl := Option.some.inj hstep
      exact ⟨h.kept_of_eq rfl rfl, fun _ => h.count (.inl hproc), by simp only [hproc]; trivial⟩
    · exact absurd hstep (by simp)
  | startSync today => exact inv_startSync h hstep
  | copyToMirrorTmp whole => exact inv_copyToMirrorTmp h hstep
  | renameMirror =>
    simp only [step] at hstep
    split at hstep
    · rename_i hproc
      obtain rfl := Option.some.inj hstep
      exact ⟨h.kept_of_eq rfl rfl, fun _ => h.count (.inr (by rw [hproc]; rfl)), trivial⟩
    · exact absurd hstep (by simp)
  | writeExport bytes whole => exact inv_writeExport h hok hstep
  | renameExport => exact inv_renameExport h hstep
  | copyToArchiveTmp whole => exact inv_copyToArchiveTmp h hstep
  | renameArchive => exact inv_renameArchive h hstep
  | beginReplace => exact inv_beginReplace h hstep
  | endReplace => exact inv_endReplace h hstep
  | writeCache ok => exact inv_writeCache h hstep
  | setBaseline => exact inv_setBaseline h hstep

theorem Reflashed.inv (h : Reflashed A s) : Inv A s where
  kept := .inl h.archive
  count hlive := absurd hlive (by rw [h.proc]; simp [Proc.syncing])
  phase := by
    rw [h.proc]
    trivial

/-- The archive changes only where a pass has a complete copy beside it. -/
theorem archive_eq_or {a : Act} (hstep : step s a = some s') :
    s'.archive = s.archive ∨ ∃ p, s.proc = .archiveCopied p ∨ s.proc = .replacing p := by
  cases a <;> simp only [step] at hstep <;> (repeat' split at hstep) <;> cases hstep <;>
    first
    | exact .inl rfl
    | exact .inr ⟨_, .inl ‹_›⟩
    | exact .inr ⟨_, .inr ‹_›⟩

/-- The baselines change only where a pass has replaced the archive. -/
theorem baselines_eq_or {a : Act} (hstep : step s a = some s') :
    s'.baselines = s.baselines ∨ ∃ p, s.proc = .cacheWritten p ∨ s.proc = .routesRecorded p
      ∨ s.proc = .samplesRecorded p := by
  cases a <;> simp only [step] at hstep <;> (repeat' split at hstep) <;> cases hstep <;>
    first
    | exact .inl rfl
    | exact .inr ⟨_, .inl ‹_›⟩
    | exact .inr ⟨_, .inr (.inl ‹_›)⟩
    | exact .inr ⟨_, .inr (.inr ‹_›)⟩

/-- **A reflash costs no history while every export finds it in the store.** In every state of such a
run each route of `A` is in the archive copy or in the store; whatever replaces the archive next is
the export of a store with routes; and baselines change next only if the archive is a complete copy of
the export. -/
theorem history_kept (A : List Text) (s₀ s : Device) (h₀ : Reflashed A s₀)
    (hrun : Reaches step (ExportsAll A) s₀ s) :
    (∀ r ∈ A, InArchive s r ∨ r ∈ s.routes)
      ∧ (∀ a s', step s a = some s' → s'.archive ≠ s.archive → s.routes ≠ [])
      ∧ ∀ a s', step s a = some s' → s'.baselines ≠ s.baselines →
          ∃ f, s.archive = some f ∧ f.whole = true ∧ f.routes = s.routes := by
  have hinv : Inv A s := hrun.invariant h₀.inv fun t a u ht hok hu => inv_step ht hok hu
  have hphase := hinv.phase
  refine ⟨fun r hr => ?_, fun a s' hstep hne => ?_, fun a s' hstep hne => ?_⟩
  · rcases hinv.kept with ⟨f, harchive, hwhole, hall⟩ | hall
    · exact .inl ⟨f, harchive, hwhole, hall r hr⟩
    · exact .inr (hall r hr)
  · obtain ⟨p, hproc | hproc⟩ := (archive_eq_or hstep).resolve_left hne
    · rw [hproc] at hphase
      exact hphase.some_route
    · rw [hproc] at hphase
      exact hphase.some_route
  · obtain ⟨p, hproc | hproc | hproc⟩ := (baselines_eq_or hstep).resolve_left hne
    · rw [hproc] at hphase
      exact hphase.whole
    · rw [hproc] at hphase
      exact hphase.whole
    · rw [hproc] at hphase
      exact hphase.whole

/-- A wiped device whose archive holds the routes `A`. -/
def reflashedDevice (A : List Text) : Device where
  routes := []
  samples := 0
  importedFromJson := false
  baselines := ⟨none, none, none⟩
  mirror := none
  mirrorTmp := none
  archive := some ⟨A, 100, true⟩
  archiveTmp := none
  syncCache := none
  routeCount := 0
  proc := .off

theorem reflashed_reflashedDevice (A : List Text) : Reflashed A (reflashedDevice A) :=
  ⟨rfl, rfl, rfl, rfl, rfl, _, rfl, rfl, fun _ hr => hr⟩

/-- A pass that exports and replaces the archive by a rename. -/
def pushActs (today : Nat) : List Act :=
  [.startSync today, .writeExport 60 true, .renameExport, .copyToArchiveTmp true, .renameArchive,
    .writeCache true, .setBaseline, .setBaseline, .setBaseline]

instance (A : List Text) (s : Device) (a : Act) : Decidable (Respects A s a) := by
  unfold Respects
  split <;> infer_instance

instance (A : List Text) (s : Device) (a : Act) : Decidable (ExportsAll A s a) := by
  unfold ExportsAll
  split <;> infer_instance

/-- The old clip is still on the drive and is mapped again together with a new one before the first
push; then the archive holds both. -/
theorem history_kept_remapped :
    ∃ s, run (guarded step (ExportsAll ["old".toList])) (reflashedDevice ["old".toList])
        ([.openStore, .setMarker, .finishOpen false, .addRoute "old".toList, .addRoute "new".toList]
          ++ pushActs 1) = some s
      ∧ s.baselines.routes = some 2
      ∧ ∀ r ∈ ["old".toList], InArchive s r ∨ r ∈ s.routes := by
  have hrun : run (guarded step (ExportsAll ["old".toList])) (reflashedDevice ["old".toList])
      ([.openStore, .setMarker, .finishOpen false, .addRoute "old".toList, .addRoute "new".toList]
        ++ pushActs 1) = some _ := rfl
  exact ⟨_, hrun, rfl, (history_kept _ _ _ (reflashed_reflashedDevice _)
    (reaches_of_run_guarded hrun)).1⟩

/-! ## The lost import -/

/-- Nothing is ever there to import: the marker is set, or there is no mirror and the store was never
opened. -/
def ImportSpent (s : Device) : Prop :=
  s.importedFromJson = true ∨ (s.mirror = none ∧ (s.proc = .off ∨ s.proc = .opening))

/-- Once set, the marker stays. -/
theorem importedFromJson_step {a : Act} (h : s.importedFromJson = true)
    (hstep : step s a = some s') : s'.importedFromJson = true := by
  cases a <;> simp only [step] at hstep <;> (repeat' split at hstep) <;> cases hstep <;>
    first
    | exact h
    | rfl

theorem importSpent_step {a : Act} (h : ImportSpent s) (hstep : step s a = some s') :
    ImportSpent s' := by
  rcases h with hmarker | ⟨hmirror, hproc⟩
  · exact .inl (importedFromJson_step hmarker hstep)
  · -- before the first open ends, the only steps are opening, failing, losing power and the marker
    have hsync : s.proc.syncing = false := by
      rcases hproc with h | h <;> rw [h] <;> rfl
    cases a <;> simp only [step, hmirror, hsync] at hstep <;> (repeat' split at hstep) <;>
      cases hstep <;> simp_all [ImportSpent]

/-- **The one-shot import never runs on a reflashed device**: the first open finds no mirror and marks
the import as done, before any pass can restore one. -/
theorem importMirror_refused (A : List Text) (s₀ s : Device) (h₀ : Reflashed A s₀)
    (hrun : Reachable step s₀ s) : step s .importMirror = none := by
  have hspent : ImportSpent s :=
    hrun.invariant (.inr ⟨h₀.mirror, .inl h₀.proc⟩) fun t a u ht _ hu => importSpent_step ht hu
  simp only [step]
  split
  · rename_i f hproc hmirror
    rcases hspent with hmarker | ⟨hnone, -⟩
    · simp [hmarker]
    · exact absurd (hnone.symm.trans hmirror) (by simp)
  · rfl

/-- Nor when the pass has restored the mirror. -/
theorem importMirror_refused_restored : ∃ s, run step (reflashedDevice ["old".toList])
    [.openStore, .setMarker, .finishOpen false, .startSync 1, .copyToMirrorTmp true, .renameMirror] = some s
      ∧ step s .importMirror = none := by
  obtain ⟨s, hs⟩ : ∃ s, run step (reflashedDevice ["old".toList])
      [.openStore, .setMarker, .finishOpen false, .startSync 1, .copyToMirrorTmp true, .renameMirror] = some s := ⟨_, rfl⟩
  exact ⟨s, hs, importMirror_refused _ _ s (reflashed_reflashedDevice _) (reachable_of_run hs)⟩

/-- **History is lost** although nobody deletes anything: the empty store is opened, the pass restores
the mirror, the next boot does not import it, and the first new route is exported over the archive. -/
theorem history_lost :
    ¬ ∀ s, Reaches step (Respects ["old".toList]) (reflashedDevice ["old".toList]) s →
        ∀ r ∈ ["old".toList], InArchive s r ∨ r ∈ s.routes := by
  intro h
  have hrun : run (guarded step (Respects ["old".toList])) (reflashedDevice ["old".toList])
      ([.openStore, .setMarker, .finishOpen false,
        .startSync 1, .copyToMirrorTmp true, .renameMirror,
        .powerLoss, .openStore, .finishOpen false,
        .addRoute "new".toList] ++ pushActs 1) = some _ := rfl
  rcases h _ (reaches_of_run_guarded hrun) _ (List.mem_singleton.mpr rfl) with ⟨f, hf, -, hmem⟩ | hmem
  · obtain rfl := Option.some.inj hf
    revert hmem
    decide
  · revert hmem
    decide

end SentryUsb.Archive
