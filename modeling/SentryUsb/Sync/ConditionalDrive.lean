import SentryUsb.Library.OperationLog
import SentryUsb.Library.TransitionSystem
import SentryUsb.Sync.ScopedTags

/-! # Publishing drive tags

A drive spans several clips, and every clip is a Cloud record of its own. One queued tag edit of a drive
becomes one conditional write for each member clip; a durable receipt records each member's outcome, and
the edit is confirmed when all of them are applied. Edits, route changes, other Cloud writers, lost
messages and restarts come between any two steps.

* **`snapshotForDrive`**, **`project`** — frozen member clips, and the tags the Cloud shows for them
  (`route_pull.rs`);
* **`prepareMember`**, **`System.save`** — one member's write, and the receipt under compare-and-swap
  (`conditional_drive.rs`);
* **`Store.confirmDrive`** — adopt the projected tags and retire the edit
  (`confirm_drive_mutable_push_with_projection`);
* **`step`** — local edits, the server, and `push`, `advance` and `finish`. -/

namespace SentryUsb.Sync.Drive

open Library

/-! ## Sources -/

/-- The frames of a clip that belong to a drive (`DriveClipWindow`). -/
structure Window where
  file : Text
  startFrame : Nat
  endFrame : Nat
  totalFrames : Nat
  deriving DecidableEq

/-- A row of the routes table, as far as tag sync reads it. -/
structure Route where
  cloudId : Option Text
  wrappedKey : Option Text
  uploadedAt : Option Int
  gearRuns : List (Nat × Nat)
  deriving DecidableEq

/-- The upload identity and the frames of a member clip. -/
structure Source where
  id : Text
  key : Option Text
  uploadedAt : Int
  runs : List (Nat × Nat)
  deriving DecidableEq

/-- Drives with their windows, and the sources behind them, at one source revision. -/
structure Snapshot where
  revision : Int
  drives : List (Text × List Window)
  sources : List (Text × Source)
  deriving DecidableEq

/-- Frame membership captured with the first edit of a queue (`drive_edit_scope.rs`). -/
structure Scope where
  windows : List Window
  sources : List (Text × Route)
  deriving DecidableEq

/-- Frames of a clip; an empty clip counts as one. -/
def totalFrames (runs : List (Nat × Nat)) : Option Nat :=
  (runs.foldlM (fun sum run =>
    if run.1 ≤ 255 ∧ 0 < run.2 ∧ sum + run.2 < 2 ^ 32 then some (sum + run.2) else none) 0).map (max 1)

/-- A digest in lower-case hexadecimal. -/
def hexId (id : Text) : Bool :=
  decide (id.length = 64) && id.all fun c => c.isDigit || (decide ('a' ≤ c) && decide (c ≤ 'f'))

/-- An edit scope still describes the same frames and recordings; what was not known then may be known
now (`Scope::matches`). -/
def Scope.matchesScope (old current : Scope) : Bool :=
  decide (old.windows = current.windows) && decide (old.sources.length = current.sources.length)
    && old.sources.all fun s => match current.sources.lookup s.1 with
      | some fresh =>
        decide (s.2.gearRuns = fresh.gearRuns)
          && (s.2.cloudId.isNone || decide (s.2.cloudId = fresh.cloudId))
          && (s.2.wrappedKey.isNone || decide (s.2.wrappedKey = fresh.wrappedKey))
          && ((s.2.uploadedAt.filter fun at? => decide (0 < at?)).isNone
            || decide (s.2.uploadedAt = fresh.uploadedAt))
      | none => false

/-! ## Cloud records and receipts -/

/-- Encrypted tags. Every sealing draws a new nonce. -/
structure Cipher where
  nonce : Nat
  value : TagValue
  deriving DecidableEq

/-- An encrypted route summary: the clip it was made from. -/
structure Summary where
  nonce : Nat
  file : Text
  runs : List (Nat × Nat)
  deriving DecidableEq

/-- A clip in the Cloud. -/
structure Record where
  recordVersion : Text
  wrappedKey : Text
  ciphertext : Option Cipher
  summary : Option Summary
  format : Nat
  deriving DecidableEq

/-- The tags behind a record. -/
def Record.value (r : Record) : TagValue :=
  match r.ciphertext with
  | some c => c.value
  | none => .plain []

/-- The tags behind a record, if they have its format. -/
def Record.formatted (r : Record) : Option TagValue :=
  match r.value, r.format with
  | .plain tags, 1 => some (.plain tags)
  | .scoped version total defaultTags spans rest, 2 =>
    some (.scoped version total defaultTags spans rest)
  | _, _ => none

/-- A conditional write of one clip. Its operation id is a digest of the whole, so a proposal is its own
id. -/
structure Proposal where
  id : Text
  recordVersion : Text
  wrappedKey : Text
  expected : Option Cipher
  ciphertext : Cipher
  changedAt : Int
  expectedFormat : Nat
  expectedSummary : Summary
  deriving DecidableEq

/-- What is known of a member's write. -/
inductive Outcome where
  | pending
  | applied
  | rejected
  deriving DecidableEq

/-- A member clip of an attempt. -/
structure Member where
  file : Text
  recordVersion : Text
  wrappedKey : Text
  proposal : Option Proposal
  outcome : Outcome
  deriving DecidableEq

/-- An attempt to publish one drive's edits, as the receipt stores it (`Pending`). -/
structure Attempt where
  drive : Text
  through : Int
  edits : List (Int × TagEdit)
  frozen : Snapshot
  members : List Member
  deriving DecidableEq

/-- A source whose wrapped key was authenticated (`VerifiedRouteSyncKey`). -/
structure VerifiedKey where
  file : Text
  routeId : Text
  expectedKey : Option Text
  uploadedAt : Int
  wrappedKey : Text
  deriving DecidableEq

/-- Tags of drives as the Cloud shows them. -/
structure Projection where
  revision : Int
  sources : List VerifiedKey
  drives : List (Text × List Text)

/-! ## The local store -/

/-- The local tables. Every change of `routes` advances `revision`, and `groups` is the grouping of the
routes. -/
structure Store where
  revision : Int
  routes : Text → Option Route
  groups : List (Text × List Window)
  tags : Text → List Text
  queue : Text → Queue TagEdit
  scope : Text → Option (Option Scope)
  receipt : Text → Option Attempt

/-- The source of one member clip, if its upload and its windows check. -/
def Store.source (st : Store) (windows : List Window) (file : Text) : Option Source := do
  let row ← st.routes file
  let id ← row.cloudId
  let uploaded ← row.uploadedAt
  let total ← totalFrames row.gearRuns
  if 0 < uploaded ∧ hexId id = true ∧ (∀ w ∈ windows, w.file = file →
      w.totalFrames = total ∧ w.startFrame < w.endFrame ∧ w.endFrame ≤ total) then
    some ⟨id, row.wrappedKey, uploaded, row.gearRuns⟩
  else none

/-- Freeze drives with their sources (`snapshot_windows`). -/
def Store.snapshotWindows (st : Store) (drives : List (Text × List Window)) : Option Snapshot :=
  let windows := drives.flatMap Prod.snd
  if drives ≠ [] ∧ ∀ d ∈ drives, d.2 ≠ [] then
    ((windows.map Window.file).dedup.mapM fun file => (st.source windows file).map (Prod.mk file)).bind
      fun sources =>
        if (sources.map fun s => s.2.id).Nodup then some ⟨st.revision, drives, sources⟩ else none
  else none

/-- Freeze the drives of the current grouping that are selected (`snapshot_matching`). -/
def Store.snapshotMatching (st : Store) (select : Text × List Window → Bool) : Option Snapshot :=
  st.snapshotWindows (st.groups.filter select)

/-- The scope a snapshot describes. -/
def Snapshot.scope (windows : List Window) (snap : Snapshot) : Scope :=
  ⟨windows, snap.sources.map fun s =>
    (s.1, ⟨some s.2.id, s.2.key, some s.2.uploadedAt, s.2.runs⟩)⟩

/-- Freeze the member clips of a drive: those its edit was made on, or those it has now
(`snapshot_for_drive`). -/
def Store.snapshotForDrive (st : Store) (drive : Text) : Option Snapshot :=
  match st.scope drive with
  | some none => none
  | some (some old) =>
    (st.snapshotWindows [(drive, old.windows)]).filter fun fresh =>
      old.matchesScope (fresh.scope old.windows)
  | none => st.snapshotMatching fun d => decide (d.1 = drive)

/-- Freeze the drives that show one of the snapshot's clips now (`snapshot_for_projection`). -/
def Store.snapshotForProjection (st : Store) (original : Snapshot) : Option Snapshot :=
  if st.revision = original.revision then
    st.snapshotMatching fun d => d.2.any fun w => (original.sources.lookup w.file).isSome
  else none

/-- Freeze the drives that show one of the given Cloud clips, if any does (`snapshot`); the outer `none`
is an error. -/
def Store.snapshotForRoutes (st : Store) (ids : List Text) : Option (Option Snapshot) :=
  let shows (d : Text × List Window) := d.2.any fun w =>
    ((st.routes w.file).bind Route.cloudId).any fun id => decide (id ∈ ids)
  if (st.groups.filter shows).isEmpty then some none else (st.snapshotMatching shows).map some

/-- Capture the frames an edit is made on, if the drive is shown now (`capture_drive_edit_scope`); a
clip without its row is an error. -/
def Store.captureScope (st : Store) (drive : Text) : Option (Option Scope) :=
  match st.groups.find? fun d => decide (d.1 = drive) with
  | none => some none
  | some (_, windows) =>
    ((windows.map Window.file).dedup.mapM fun file => (st.routes file).map (Prod.mk file)).bind
      fun sources =>
        if ∀ w ∈ windows, ∃ row ∈ sources.lookup w.file, ∃ total ∈ totalFrames row.gearRuns,
            w.totalFrames = total ∧ w.startFrame < w.endFrame ∧ w.endFrame ≤ total then
          some (some ⟨windows, sources⟩)
        else none

/-- Whether the scope of a queued edit still describes the drive; a scope that was never recorded is not
checked. -/
def scopeAgrees : Option (Option Scope) → Option (Option Scope) → Bool
  | some (some old), some (some new) => old.matchesScope new
  | some none, some (some _) => false
  | some (some _), some none => false
  | _, _ => true

/-- A local tag edit: queued and scoped in the transaction that changes the tags; refused if the frames
of the queued edit changed (`set_drive_tags_inner`). -/
def Store.setTags (st : Store) (now : Int) (drive : Text) (tags : List Text) : Option Store :=
  let captured := st.scope drive
  let scope := if (st.queue drive).dirty.isNone || captured.isSome then
      (st.captureScope drive).map some
    else some none
  scope.bind fun current =>
    if scopeAgrees captured current then
      some { st with
        tags := Function.update st.tags drive (tagSet (tags.filter fun t => decide (t ≠ [])))
        queue := Function.update st.queue drive
          ((st.queue drive).record now (tagEdit (st.tags drive) tags))
        scope := Function.update st.scope drive (captured <|> current) }
    else none

/-- Install the key of a source, if its row has none; an update of a row advances the revision. -/
def Store.installKey (st : Store) (v : VerifiedKey) : Store :=
  match st.routes v.file with
  | some row =>
    if row.wrappedKey = none then
      { st with
        routes := Function.update st.routes v.file (some { row with wrappedKey := some v.wrappedKey })
        revision := st.revision + 1 }
    else st
  | none => st

/-- Check the identity of every source and install the keys that were missing
(`install_verified_route_keys`). -/
def Store.installKeys (st : Store) (sources : List VerifiedKey) : Option Store :=
  if ∀ v ∈ sources, (∃ row ∈ st.routes v.file, row.cloudId = some v.routeId
        ∧ row.wrappedKey = v.expectedKey ∧ row.uploadedAt = some v.uploadedAt) ∧ 0 < v.uploadedAt
      ∧ v.wrappedKey ≠ [] ∧ (v.expectedKey = none ∨ v.expectedKey = some v.wrappedKey) then
    some (sources.foldl Store.installKey st)
  else none

/-- Show the Cloud's tags of a drive that has no queued edit. -/
def Store.refresh (st : Store) (d : Text × List Text) : Store :=
  if (st.queue d.1).dirty.isSome then st
  else { st with tags := Function.update st.tags d.1 (tagSet (d.2.filter fun t => decide (t ≠ []))) }

/-- Show the Cloud's tags of projected drives, if the sources have not changed since
(`apply_projected_drive_tags`). -/
def Store.applyProjected (st : Store) (p : Projection) : Option Store :=
  if st.revision = p.revision then
    (st.installKeys p.sources).map fun keyed => p.drives.foldl Store.refresh keyed
  else none

/-- Retire a generation of a drive's queue; the scope goes with the dirty row. -/
def Store.retire (st : Store) (drive : Text) (through : Int) : Store :=
  { st with
    queue := Function.update st.queue drive ((st.queue drive).settle through)
    scope := if (st.queue drive).dirty = some through then Function.update st.scope drive none
      else st.scope }

/-- Confirm the edited drive and refresh the drives that share its clips, in one transaction. `none` is
an error that rolls it back, `false` the refusal of a stale confirmation
(`confirm_drive_mutable_push_with_projection`). -/
def Store.confirmDrive (st : Store) (drive : Text) (through revision : Int) (confirmed : List Text)
    (sources : List VerifiedKey) (receipt : Option Attempt) (current : List (Text × List Text)) :
    Option (Store × Bool) :=
  if st.revision ≠ revision then some (st, false)
  else if receipt.isSome ∧ st.receipt drive ≠ receipt then some (st, false)
  else if (st.queue drive).reached through = false then some (st, false)
  else (st.installKeys sources).map fun keyed =>
    let queue := st.queue drive
    let tags := if queue.unknownNewer through then st.tags drive
      else tagSet (((queue.newer through).map Prod.snd).foldl TagEdit.apply confirmed
        |>.filter fun t => decide (t ≠ []))
    let shown := current.foldl Store.refresh
      ({ keyed with tags := Function.update keyed.tags drive tags }.retire drive through)
    ({ shown with
        receipt := if receipt.isSome then Function.update shown.receipt drive none else shown.receipt },
      true)

/-! ## Reading the Cloud -/

/-- What a read returned, by clip id; a clip can be missing. -/
abbrev States := List (Text × Option Record)

/-- The record of a source, if it was returned under the key the device knows. -/
def States.record (states : States) (source : Source) : Option Record :=
  (states.lookup source.id).join.filter fun r =>
    source.key.isNone || decide (source.key = some r.wrappedKey)

/-- The record's tags as its format has them: a list, or a document of the same clip with the same
frames. -/
def checkedValue (file : Text) (source : Source) (r : Record) : Option TagValue :=
  if r.format = 1 then
    match r.value with
    | .plain tags => some (.plain tags)
    | _ => none
  else match r.value, r.summary with
    | .scoped version total defaultTags spans rest, some summary =>
      if summary.file = file ∧ summary.runs = source.runs ∧ totalFrames source.runs = some total then
        some (.scoped version total defaultTags spans rest)
      else none
    | _, _ => none

/-- Tags a value shows in one window. -/
def windowTags (value : TagValue) (w : Window) : Option (List Text) :=
  match value with
  | .plain tags => some tags
  | _ => tagsForRanges value w.totalFrames [(w.startFrame, w.endFrame)]

/-- The tags of every drive of a snapshot, over all its member windows (`project`). -/
def project (snap : Snapshot) (states : States) : Option Projection := do
  let documents ← snap.sources.mapM fun s => do
    let r ← states.record s.2
    let value ← checkedValue s.1 s.2 r
    some (s.1, value, (⟨s.1, s.2.id, s.2.key, s.2.uploadedAt, r.wrappedKey⟩ : VerifiedKey))
  let drives ← snap.drives.mapM fun d => do
    let tags ← d.2.mapM fun w => (documents.lookup w.file).bind fun doc => windowTags doc.1 w
    some (d.1, tagSet tags.flatten)
  some ⟨snap.revision, documents.map fun d => d.2.2, drives⟩

/-- The clip ids of a snapshot. -/
def Snapshot.ids (snap : Snapshot) : List Text := snap.sources.map fun s => s.2.id

/-- The same frozen clips: nothing but a missing key may have changed (`same_local`). -/
def sameLocal (original current : Snapshot) : Bool :=
  decide (original.drives = current.drives)
    && decide (original.sources.length = current.sources.length)
    && original.sources.all fun s => match current.sources.lookup s.1 with
      | some fresh =>
        decide (s.2.id = fresh.id) && decide (s.2.uploadedAt = fresh.uploadedAt)
          && decide (s.2.runs = fresh.runs) && (fresh.key.isNone || decide (s.2.key = fresh.key))
      | none => false

/-- A member's record is the one its write was prepared for (`check_source`). -/
def checkSource (m : Member) (r : Record) : Bool :=
  decide (r.recordVersion = m.recordVersion) && decide (r.wrappedKey = m.wrappedKey)

/-! ## Attempts -/

/-- Merge the edits into one member's tags and propose the write; a member the edits do not change needs
none (`prepare_member`). -/
def prepareMember (frozen : Snapshot) (states : States) (edits : List (Int × TagEdit)) (through : Int)
    (nonce : Nat) (file : Text) : Option Member := do
  let source ← frozen.sources.lookup file
  let r ← states.record source
  let windows := (frozen.drives.flatMap Prod.snd).filter fun w => decide (w.file = file)
  let first ← windows.head?
  let ranges := windows.map fun w => (w.startFrame, w.endFrame)
  let before ← r.formatted
  if ∀ w ∈ windows, w.totalFrames = first.totalFrames then
    let original ← applyDelta before first.totalFrames ranges ⟨[], []⟩
    let desired ← edits.foldlM (fun value e => applyDelta value first.totalFrames ranges e.2) original
    if desired = original then some ⟨file, r.recordVersion, r.wrappedKey, none, .applied⟩
    else
      let summary ← r.summary
      if summary.file = file ∧ summary.runs = source.runs
          ∧ totalFrames source.runs = some first.totalFrames then
        some ⟨file, r.recordVersion, r.wrappedKey,
          some ⟨source.id, r.recordVersion, r.wrappedKey, r.ciphertext, ⟨nonce, desired⟩, through,
            r.format, summary⟩, .pending⟩
      else none
  else none

/-- A stored attempt is one this device could have written (`validate`). -/
def Attempt.valid (a : Attempt) : Bool :=
  decide (0 < a.through) && decide (a.frozen.drives.map Prod.fst = [a.drive])
    && decide (a.members.length = a.frozen.sources.length) && decide (a.members ≠ [])
    && decide ((a.members.map Member.file).Nodup)
    && decide ((a.members.filterMap Member.proposal).Nodup)
    && a.members.all fun m => match a.frozen.sources.lookup m.file with
      | none => false
      | some source =>
        decide (source.key = some m.wrappedKey) && hexId source.id && hexId m.recordVersion
          && match m.proposal with
            | none => decide (m.outcome = .applied)
            | some p => decide (p.id = source.id) && decide (p.recordVersion = m.recordVersion)
                && decide (p.wrappedKey = m.wrappedKey) && decide (p.changedAt = a.through)
                && (decide (p.expectedFormat = 1) || decide (p.expectedFormat = 2))

/-- The first attempt at a queued edit: one member for each frozen clip, in the order of the file names.
The keys the Cloud showed are frozen with it. -/
def firstAttempt (drive : Text) (through : Int) (frozen : Snapshot) (edits : List (Int × TagEdit))
    (states : States) (nonce : Nat) : Option Attempt :=
  (((frozen.sources.map Prod.fst).insertionSort (· ≤ ·)).mapM
    (prepareMember frozen states edits through nonce)).map fun members =>
      let keyed := frozen.sources.map fun s =>
        (s.1, { s.2 with key := (states.record s.2).map Record.wrappedKey })
      ⟨drive, through, edits, { frozen with sources := keyed }, members⟩

/-- Prepare the rejected members afresh; the others stay as they are (`advance`). -/
def Attempt.retry (a : Attempt) (fresh : Snapshot) (states : States) (nonce : Nat) : Option Attempt :=
  (project fresh states).bind fun _ =>
    (a.members.mapM fun m =>
      if m.outcome = .rejected then
        if ((fresh.sources.lookup m.file).bind fun s => (states.lookup s.id).join).any (checkSource m) then
          prepareMember fresh states a.edits a.through nonce m.file
        else none
      else some m).map fun members => { a with members := members }

/-- The members whose write is sent next. -/
def Attempt.chunk (a : Attempt) : List Member :=
  (a.members.filter fun m => decide (m.outcome = .pending)).take 100

/-- Note the answers to a chunk. -/
def Attempt.answered (a : Attempt) (answers : List (Proposal × Bool)) : Attempt :=
  { a with
    members := a.members.map fun m =>
      if m ∈ a.chunk then
        { m with outcome := if m.proposal.any fun p => decide ((p, true) ∈ answers) then .applied
            else .rejected }
      else m }

/-! ## The system -/

/-- What a read of Cloud states is for. -/
inductive Task where
  | prepare (drive : Text) (through : Int) (frozen : Snapshot) (tags : List Text)
      (edits : List (Int × TagEdit)) (legacy : Bool)
  | retry (a : Attempt) (fresh : Snapshot)
  | finish (a : Attempt) (fresh current : Snapshot)

/-- Where the sweep is; all of it is lost on a restart. -/
inductive Proc where
  | idle
  | listed (drive : Text) (through : Int)
  /-- There was no receipt. -/
  | vacant (drive : Text) (through : Int)
  | located (drive : Text) (through : Int) (frozen : Snapshot)
  /-- A read in progress: ids to ask for, states returned. -/
  | reading (task : Task) (todo : List Text) (states : States)
  /-- The attempt of the receipt, about to be advanced. -/
  | advancing (a : Attempt)
  /-- Between chunks, for clips frozen at a revision. -/
  | publishing (a : Attempt) (revision : Int)
  /-- Receipt and revision were checked for the next chunk. -/
  | cleared (a : Attempt) (revision : Int)
  | posted (a : Attempt) (revision : Int)
  /-- The answers are in memory, the receipt still has the attempt `before`. -/
  | answered (before after : Attempt) (revision : Int)

/-- Store, Cloud and the messages between them. The last two fields are history: every write a receipt
proposed for a member, and every proposal the Cloud applied. -/
structure System where
  store : Store
  cloud : Text → Option Record
  log : OperationLog Proposal
  requests : List Proposal
  responses : List (Proposal × Bool)
  nextNonce : Nat
  proc : Proc
  saved : List (Text × Text × Proposal)
  writes : List Proposal

/-- The pending writes of an attempt. -/
def Attempt.proposals (a : Attempt) : List (Text × Text × Proposal) :=
  a.members.filterMap fun m =>
    if m.outcome = .pending then m.proposal.map fun p => (a.drive, m.file, p) else none

/-- Write the receipt, if it is still the expected one, the edit is still queued, and the sources are
still at the given revision (`save`). -/
def System.save (s : System) (expected : Option Attempt) (a : Attempt) (revision : Option Int) :
    Option System :=
  if s.store.receipt a.drive = expected ∧ (s.store.queue a.drive).reached a.through = true
      ∧ (revision = none ∨ revision = some s.store.revision) then
    some { s with
      store := { s.store with receipt := Function.update s.store.receipt a.drive (some a) }
      saved := a.proposals ++ s.saved }
  else none

/-- The condition of a write. -/
def accepts (cloud : Text → Option Record) (p : Proposal) : Bool :=
  (cloud p.id).any fun r =>
    decide (r.recordVersion = p.recordVersion) && decide (r.ciphertext = p.expected)
      && decide (r.format = p.expectedFormat) && decide (r.summary = some p.expectedSummary)

/-- The Cloud after a write. -/
def write (cloud : Text → Option Record) (p : Proposal) : Text → Option Record :=
  Function.update cloud p.id
    ((cloud p.id).map fun r => { r with ciphertext := some p.ciphertext, format := 2 })

/-- The server handles a request, and its answer arrives or is lost. -/
def System.deliver (s : System) (i : Nat) (lost : Bool) : Option System :=
  s.requests[i]?.map fun p =>
    let accept := accepts s.cloud p
    let answer := s.log.answer p accept
    { s with
      requests := s.requests.eraseIdx i
      log := answer.1
      responses := if lost then s.responses else (p, answer.2) :: s.responses
      cloud := if s.log.effective p accept then write s.cloud p else s.cloud
      writes := if s.log.effective p accept then p :: s.writes else s.writes }

/-! ## Steps -/

/-- What can happen. -/
inductive Act where
  | setTags (now : Int) (drive : Text) (tags : List Text)
  /-- Route ingestion, deletion, upload or regrouping: `rows` more rows than one change. -/
  | changeSources (routes : Text → Option Route) (groups : List (Text × List Window)) (rows : Nat)
  /-- Tags pulled from the Cloud, for a drive without queued edit. -/
  | pullTags (drive : Text) (tags : List Text)
  | otherWrite (id : Text) (record : Option Record)
  | deliver (i : Nat) (lost : Bool)
  | loseRequest (i : Nat)
  /-- A restart, a cancelled sweep, or an error that ends the drive's turn. -/
  | restart
  | list (drive : Text)
  | lookup
  | snapshot
  | draft
  | read
  | prepare
  | advance
  | retry
  | clear
  | post
  | receive
  | save
  | finish
  | confirm

/-- Go on from a prepared read: confirm a queue without history that agrees with the Cloud, or reserve
the first attempt. -/
def System.prepare (s : System) (drive : Text) (through : Int) (frozen : Snapshot) (tags : List Text)
    (edits : List (Int × TagEdit)) (legacy : Bool) (states : States) : System :=
  let idle := { s with proc := Proc.idle }
  match project frozen states with
  | none => idle
  | some projection =>
    let shown := ((projection.drives.head?).map Prod.snd).getD []
    if legacy then
      if tagSet tags = tagSet shown then
        match s.store.confirmDrive drive through projection.revision shown projection.sources none [] with
        | some (store, _) => { s with store := store, proc := .idle }
        | none => idle
      else idle
    else match firstAttempt drive through frozen edits states s.nextNonce with
      | none => idle
      | some a =>
        match { s with nextNonce := s.nextNonce + 1 }.save none a (some frozen.revision) with
        | some s' => { s' with proc := .advancing a }
        | none => idle

/-- Confirm a finished attempt under its receipt. The drives that show its clips now are refreshed with
it (`finish`). -/
def System.confirm (s : System) (a : Attempt) (fresh current : Snapshot) (states : States) : System :=
  let idle := { s with proc := Proc.idle }
  if ∀ m ∈ a.members, ((fresh.sources.lookup m.file).bind fun src => (states.lookup src.id).join).any
      (checkSource m) then
    match project fresh states, project current states with
    | some projection, some shown =>
      let known := shown.sources.map VerifiedKey.file
      let sources := shown.sources ++ projection.sources.filter fun v => decide (v.file ∉ known)
      match projection.drives.head? with
      | some (_, tags) =>
        match s.store.confirmDrive a.drive a.through projection.revision tags sources (some a)
            shown.drives with
        | some (store, _) => { s with store := store, proc := .idle }
        | none => idle
      | none => idle
    | _, _ => idle
  else idle

/-- The steps of the sweep (`push`, `advance`, `finish`). -/
def System.sweep (s : System) : Act → Option System
  | .list drive => match s.proc, (s.store.queue drive).dirty with
    | .idle, some through => some { s with proc := .listed drive through }
    | _, _ => none
  | .lookup => match s.proc with
    | .listed drive through =>
      match s.store.receipt drive with
      | some a => some { s with proc := if a.valid && decide (a.drive = drive) then .advancing a else .idle }
      | none => some { s with proc := .vacant drive through }
    | _ => none
  | .snapshot => match s.proc with
    | .vacant drive through =>
      match s.store.snapshotForDrive drive with
      | some frozen => some { s with proc := .located drive through frozen }
      | none => some { s with proc := .idle }
    | _ => none
  | .draft => match s.proc with
    | .located drive through frozen =>
      let queue := s.store.queue drive
      if queue.dirty = some through then
        some { s with
          proc := .reading (.prepare drive through frozen (s.store.tags drive) queue.events queue.legacy)
            frozen.ids [] }
      else some { s with proc := .idle }
    | _ => none
  -- ids are asked for in batches, so every id may be read at another moment
  | .read => match s.proc with
    | .reading task (id :: todo) states =>
      some { s with proc := .reading task todo ((id, s.cloud id) :: states) }
    | _ => none
  | .prepare => match s.proc with
    | .reading (.prepare drive through frozen tags edits legacy) [] states =>
      some (s.prepare drive through frozen tags edits legacy states)
    | _ => none
  | .advance => match s.proc with
    | .advancing a =>
      match s.store.snapshotForDrive a.drive with
      | some fresh =>
        if a.valid && sameLocal a.frozen fresh then
          if a.members.any fun m => decide (m.outcome = .rejected) then
            some { s with proc := .reading (.retry a fresh) fresh.ids [] }
          else some { s with proc := .publishing a fresh.revision }
        else some { s with proc := .idle }
      | none => some { s with proc := .idle }
    | _ => none
  | .retry => match s.proc with
    | .reading (.retry a fresh) [] states =>
      match a.retry fresh states s.nextNonce with
      | none => some { s with proc := .idle }
      | some b =>
        match { s with nextNonce := s.nextNonce + 1 }.save (some a) b (some fresh.revision) with
        | some s' => some { s' with proc := .publishing b fresh.revision }
        | none => some { s with proc := .idle }
    | _ => none
  | .clear => match s.proc with
    | .publishing a revision =>
      if a.chunk ≠ [] ∧ s.store.receipt a.drive = some a ∧ s.store.revision = revision then
        some { s with proc := .cleared a revision }
      else none
    | _ => none
  | .post => match s.proc with
    | .cleared a revision =>
      some { s with
        requests := a.chunk.filterMap Member.proposal ++ s.requests
        proc := .posted a revision }
    | _ => none
  | .receive => match s.proc with
    | .posted a revision =>
      if ∀ m ∈ a.chunk, ∀ p ∈ m.proposal, (p, true) ∈ s.responses ∨ (p, false) ∈ s.responses then
        some { s with proc := .answered a (a.answered s.responses) revision }
      else none
    | _ => none
  | .save => match s.proc with
    | .answered before after revision =>
      match s.save (some before) after none with
      | some s' => some { s' with proc := .publishing after revision }
      | none => some { s with proc := .idle }
    | _ => none
  | .finish => match s.proc with
    | .publishing a revision =>
      if a.chunk = [] then
        if a.members.all (fun m => decide (m.outcome = .applied))
            && decide (s.store.revision = revision) then
          match (s.store.snapshotForDrive a.drive).filter (sameLocal a.frozen) with
          | some fresh =>
            match s.store.snapshotForProjection fresh with
            | some current =>
              some { s with
                proc := .reading (.finish a fresh current) (fresh.ids ++ current.ids).dedup [] }
            | none => some { s with proc := .idle }
          | none => some { s with proc := .idle }
        else some { s with proc := .idle }
      else none
    | _ => none
  | .confirm => match s.proc with
    | .reading (.finish a fresh current) [] states => some (s.confirm a fresh current states)
    | _ => none
  | _ => none

/-- One step of the system. -/
def step (s : System) : Act → Option System
  | .setTags now drive tags => (s.store.setTags now drive tags).map fun store => { s with store := store }
  | .changeSources routes groups rows => some { s with
    store := { s.store with
      routes := routes, groups := groups, revision := s.store.revision + rows + 1 } }
  | .pullTags drive tags => some { s with store := s.store.refresh (drive, tags) }
  | .otherWrite id record => some { s with cloud := Function.update s.cloud id record }
  | .deliver i lost => s.deliver i lost
  | .loseRequest i => some { s with requests := s.requests.eraseIdx i }
  | .restart => some { s with proc := .idle }
  | a => s.sweep a

end SentryUsb.Sync.Drive
