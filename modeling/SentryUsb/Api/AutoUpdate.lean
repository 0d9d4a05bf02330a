import SentryUsb.Library.TransitionSystem
import SentryUsb.Library.Chronicle
import SentryUsb.Library.TextLines
import SentryUsb.Grouper.Clip

/-! # Automatic updates

After an archive cycle the service looks for a newer stable release, stages it, replaces its own files one by one and
reboots; the next startup migrates and decides what became of the attempt. One receipt file carries the attempt at hand
across all of this. The shutdown helper writes a second file, by which a startup tells an expected reboot from a power
loss. Everything that is written is written in a step of its own, and the machine may lose power between any two steps.

* **`Attempt.bootOutcome`**, **`beginVerification`**, **`Write.save`** — the receipt (`update_attempt.rs`);
* **`comparisonVersion`**, **`latestStable`**, **`recoverAfterStartup`** — the coordinator and the end of a startup
  (`auto_update.rs`);
* **`runStartupMigration`** — what a startup makes of the receipt and the version file (`migrate.rs`);
* **`step`** — the machine, startups and the coordinator;
* **`Allowed`** — what may be written to the history, given what was written before;
* **`Careful`** — no attempt ends on top of an unverified one that another wrote to the version file. -/

namespace SentryUsb.Api.AutoUpdate

open Library

/-! ## Attempts -/

inductive Phase where
  | preparing
  | installing
  | awaitingReboot
  | verifying
  | verified
  | failed
  | interrupted
  deriving DecidableEq, Repr

/-- A receipt, without what only its notification reads. -/
structure Attempt where
  id : Text
  bootId : Text
  cycleId : Text
  source : Text
  target : Text
  phase : Phase
  binarySha256 : Text
  verifyingBootId : Text
  deriving DecidableEq, Repr

/-- `Attempt::new`, with the id made up for it. -/
def Attempt.new (id boot cycle source target : Text) : Attempt :=
  { id, bootId := boot, cycleId := cycle, source, target, phase := .preparing, binarySha256 := [], verifyingBootId := [] }

/-- `terminal`. -/
def Attempt.terminal (a : Attempt) : Bool :=
  match a.phase with
  | .verified | .failed | .interrupted => true
  | _ => false

/-- `boot_outcome`. -/
def Attempt.bootOutcome (a : Attempt) (boot : Text) (binaryMatches migrationOk : Bool) : Phase :=
  if a.phase ≠ .verifying ∨ a.verifyingBootId ≠ boot ∨ a.bootId = boot ∨ binaryMatches = false then .interrupted
  else if migrationOk = false then .failed
  else .verified

/-- The attempt in another phase. -/
def Attempt.inPhase (a : Attempt) (phase : Phase) : Attempt := { a with phase }

/-- The attempt before its verification began. -/
def Attempt.unverified (a : Attempt) : Attempt := { a with verifyingBootId := [] }

/-! ## Versions -/

/-- A component of a version: digits that fit in 64 bits. -/
def numericPart (part : Text) : Option Nat :=
  if part.isEmpty || !part.all Char.isDigit then none
  else
    let n := part.foldl (fun n c => 10 * n + (c.toNat - 48)) 0
    if n < 2 ^ 64 then some n else none

/-- `numeric_version`. -/
def numericVersion (value : Text) : Option (Nat × Nat × Nat) :=
  let bare : Text := match trim value with
    | 'v' :: rest => rest
    | trimmed => trimmed
  match (bare.splitOn '.').map numericPart with
  | [some major, some minor, some patch] => some (major, minor, patch)
  | _ => none

/-- The order of versions. -/
def isBelow (current target : Nat × Nat × Nat) : Bool :=
  decide (current.1 < target.1) || decide (current.1 = target.1) &&
    (decide (current.2.1 < target.2.1) || decide (current.2.1 = target.2.1) && decide (current.2.2 < target.2.2))

/-- A release as the server describes it. -/
structure Release where
  tag : Text
  draft : Bool
  prerelease : Bool
  deriving DecidableEq, Repr

/-- `stable_target_is_newer`. -/
def stableTargetIsNewer (installed : Text) (candidate : Release) : Bool :=
  if candidate.draft || candidate.prerelease then false
  else
    match numericVersion installed, numericVersion candidate.tag with
    | some current, some target => isBelow current target
    | _, _ => false

/-- `latest_stable`, on the answer to its request; a check that fails has no result. -/
def latestStable (current : Text) (answer : Option Release) : Option (Option Text) :=
  match answer with
  | none => none
  | some release =>
    if (numericVersion current).isSome && (numericVersion release.tag).isSome then
      some (if stableTargetIsNewer current release then some release.tag else none)
    else none

/-- `comparison_version`. -/
def comparisonVersion (recorded : Text) (previous : Option Attempt) : Text :=
  match previous with
  | some a => if a.phase ≠ .verified ∧ a.target = recorded then a.source else recorded
  | none => recorded

/-! ## History -/

/-- A file that an installation replaces. -/
inductive Dest where
  /-- The executable of the service. -/
  | binary
  | component (name : Text)
  | link (name : Text)
  | sourceArchive
  | version
  | script (name : Text)
  deriving DecidableEq, Repr

inductive Event where
  /-- The machine starts. -/
  | booted (boot : Text)
  /-- The service starts, as the executable with this hash. -/
  | started (exe : Text)
  /-- The receipt is written. -/
  | saved (a : Attempt)
  | staged (id : Text) (files : List Dest)
  | replaced (id : Text) (file : Dest)
  | restored (id : Text) (file : Dest)
  /-- The shutdown helper writes its file. -/
  | confirmed (id boot : Text)
  /-- A migration begins: the version, who wrote it to the version file, and the attempt that is verified by it. -/
  | migrates (version : Text) (writer automatic : Option Text)
  /-- The migration of an attempt has succeeded. -/
  | migrated (id boot : Text)
  /-- `comparison_version` returns: what the version file says, who wrote it, and the result. -/
  | compared (recorded : Text) (writer : Option Text) (result : Text)
  deriving DecidableEq, Repr

/-- The attempt that an entry of the history is about. -/
def Event.attempt : Event → Option Text
  | .saved a => some a.id
  | .staged id _ | .replaced id _ | .restored id _ | .confirmed id _ | .migrated id _ => some id
  | .migrates _ _ automatic => automatic
  | _ => none

/-- The last receipt written. -/
def lastSaved : List Event → Option Attempt
  | [] => none
  | .saved a :: _ => some a
  | _ :: past => lastSaved past

/-- The boot at hand. -/
def bootOf : List Event → Option Text
  | [] => none
  | .booted boot :: _ => some boot
  | _ :: past => bootOf past

/-- Whether an attempt was verified. -/
def verifiedIn (history : List Event) (id : Text) : Bool :=
  history.any fun e => match e with
    | .saved a => decide (a.id = id ∧ a.phase = .verified)
    | _ => false

/-- An installation is undone. -/
def Event.undoes (e : Event) (id : Text) : Bool :=
  match e with
  | .restored id' _ => decide (id' = id)
  | _ => false

/-- The migration of an attempt begins. -/
def Event.replays (e : Event) (id : Text) : Bool :=
  match e with
  | .migrates _ _ automatic => decide (automatic = some id)
  | _ => false

/-! ## The machine -/

/-- What the claims are about: the boot, the two receipt files, the version file and the history. -/
structure Records where
  boot : Text
  receipt : Option Attempt
  /-- The files of the shutdown helper, by the id in their name. -/
  shutdown : Text → Option (Text × Text)
  version : Option Text
  /-- The attempt that wrote the version file. -/
  writer : Option Text
  /-- The newest first. -/
  log : List Event

def Records.note (k : Records) (e : Event) : Records := { k with log := e :: k.log }

/-- How a write goes: not at all, without a flush and reported as failed, or well. -/
inductive Write where
  | failed
  | unsynced
  | done
  deriving DecidableEq, Repr

/-- `save`. -/
def Write.save (io : Write) (k : Records) (a : Attempt) : Records :=
  match io with
  | .failed => k
  | .unsynced | .done => { k with receipt := some a, log := .saved a :: k.log }

/-- What is staged: the hash of the executable, and the scripts of the archive runtime. -/
structure Staged where
  binary : Text
  scripts : List Text
  deriving DecidableEq, Repr

/-- The files to be replaced, in the order in which `stage` collects them. -/
def Staged.files (s : Staged) : List Dest :=
  ([.binary, .component "sentryusb-tesla-telemetry".toList, .component "sentryusb-ble-action".toList,
      .link "sentryusb-tesla-telemetry".toList, .link "sentryusb-ble-action".toList, .sourceArchive, .version] : List Dest)
    ++ s.scripts.map .script

/-- A file that was replaced, with what was in its place. -/
structure Replaced where
  dest : Dest
  version : Option Text
  writer : Option Text
  binary : Text
  deriving DecidableEq, Repr

/-- Where the coordinator stands. -/
inductive Point where
  | checking
  | saving
  | staging
  | gated (s : Staged)
  | replacing (s : Staged) (done : List Replaced) (remaining : List Dest)
  | rollingBack (replaced : List Replaced)
  | armed
  | awaiting
  | restarting
  | failing
  deriving DecidableEq, Repr

structure Coordinator where
  attempt : Attempt
  point : Point
  deriving DecidableEq, Repr

def Coordinator.goTo (c : Coordinator) (point : Point) : Coordinator := { c with point }

/-- Where the service stands. -/
inductive Stage where
  | starting
  /-- The migration runs, for an attempt or not. -/
  | migrating (version : Text) (automatic : Option Text)
  | recovering (migrationOk : Bool)
  | ready (coordinator : Option Coordinator)
  deriving DecidableEq, Repr

structure Service where
  /-- The hash of its executable. -/
  exe : Text
  stage : Stage
  deriving DecidableEq, Repr

structure Device where
  records : Records
  /-- The hash of the executable on disk. -/
  binary : Text
  /-- Versions with a migration marker. -/
  migrated : List Text
  /-- Archive cycles that were claimed since the boot. -/
  claimed : List Text
  /-- The shutdown helper is armed. -/
  armed : Bool
  /-- A reboot is under way. -/
  rebooting : Bool
  service : Option Service

/-! ## Startup -/

/-- The attempt to be verified in this boot, if `prepare_startup_verification` finds everything in order. -/
def beginVerification (exe : Text) (k : Records) : Option Attempt :=
  match k.receipt with
  | none => none
  | some a =>
    if a.binarySha256 ≠ [] ∧ exe = a.binarySha256 ∧ a.phase = .awaitingReboot ∧ a.bootId ≠ k.boot
        ∧ k.shutdown a.id = some (a.id, a.bootId) then
      some { a with phase := .verifying, verifyingBootId := k.boot }
    else none

/-- A migration begins. -/
def migrate (version : Text) (automatic : Option Text) (k : Records) : Records × Stage :=
  (k.note (.migrates version k.writer automatic), .migrating version automatic)

/-- The migration of a version without a marker. -/
def migrateOnce (version : Text) (migrated : List Text) (k : Records) : Records × Stage :=
  if version ∈ migrated then (k, .recovering true) else migrate version none k

/-- The migration that verifies an attempt, after `prepare_startup_verification`. -/
def migrateVerifying (exe version : Text) (io : Write) (k : Records) : Records × Stage :=
  match beginVerification exe k with
  | none => (k, .recovering false)
  | some verifying =>
    if io = .done then migrate version (some verifying.id) (io.save k verifying)
    else (io.save k verifying, .recovering false)

/-- `run_startup_migration` up to the migration itself; `io` is how its reads and the write of the receipt go. -/
def runStartupMigration (exe : Text) (migrated : List Text) (io : Write) (k : Records) : Records × Stage :=
  match k.version.map trim with
  | none => (k, .recovering false)
  | some version =>
    if io = .failed ∨ version = [] ∨ version = "dev".toList then (k, .recovering false)
    else
      match k.receipt with
      | none => migrateOnce version migrated k
      | some a =>
        if a.terminal = false then
          if a.phase ≠ .awaitingReboot ∨ a.target ≠ version then (k, .recovering false)
          else migrateVerifying exe version io k
        else if a.phase ≠ .verified ∧ a.target = version then (k, .recovering false)
        else migrateOnce version migrated k

/-- The entry that a successful migration of an attempt leaves. -/
def noteMigrated (k : Records) : Option Text → Records
  | none => k
  | some id => k.note (.migrated id k.boot)

/-- `recover_after_startup`; the executable may not be readable. -/
def recoverAfterStartup (exe : Text) (exeReads migrationOk : Bool) (io : Write) (k : Records) : Records :=
  match k.receipt with
  | none => k
  | some a =>
    if a.terminal then k
    else
      let binaryMatches := decide (a.binarySha256 ≠ []) && exeReads && decide (exe = a.binarySha256)
      io.save k (a.inPhase (a.bootOutcome k.boot binaryMatches migrationOk))

/-! ## Installation -/

/-- A file is replaced by the staged one. -/
def Device.replace (d : Device) (a : Attempt) (s : Staged) (file : Dest) : Device :=
  let noted := d.records.note (.replaced a.id file)
  match file with
  | .binary => { d with records := noted, binary := s.binary }
  | .version => { d with records := { noted with version := some a.target, writer := some a.id } }
  | _ => { d with records := noted }

/-- What is put aside before a file is replaced. -/
def Device.backup (d : Device) (file : Dest) : Replaced := ⟨file, d.records.version, d.records.writer, d.binary⟩

/-- A replaced file is put back. -/
def Device.restore (d : Device) (a : Attempt) (r : Replaced) : Device :=
  let noted := d.records.note (.restored a.id r.dest)
  match r.dest with
  | .binary => { d with records := noted, binary := r.binary }
  | .version => { d with records := { noted with version := r.version, writer := r.writer } }
  | _ => { d with records := noted }

/-! ## Steps -/

inductive Act where
  /-- The power is lost, or the machine goes down; it starts again with a new id. -/
  | boot (id : Text)
  /-- A reboot is asked for, or called off. -/
  | reboot (queued : Bool)
  /-- The helper is stopped, and with it its script runs. -/
  | confirmShutdown
  | startService
  | stopService
  | runStartupMigration (io : Write)
  /-- The migration ends: with its marker, with a marker though it failed, or without. -/
  | migrationEnds (marker : Write)
  | recoverAfterStartup (exeReads : Bool) (io : Write)
  /-- `coordinate` begins for an archive cycle, with an id for its attempt. -/
  | coordinate (id cycle : Text) (otherVersion : Text)
  | latestStable (answer : Option Release)
  | savePreparing (io : Write)
  | stage (binary : Text) (scripts : List Text)
  | commit (io : Write)
  | replaceFile (io : Write)
  | rollback (ok : Bool)
  | armShutdownReceipt
  | saveAwaiting (io : Write)
  /-- `reboot` is called. -/
  | restart
  /-- A check, the staging, a command or the reboot fails. -/
  | fails
  | saveFailed (io : Write)
  deriving Repr

/-- What `read_current_version` reads. -/
def readCurrentVersion (k : Records) (otherVersion : Text) : Text := (k.version.map trim).getD otherVersion

/-- The service goes on. -/
def Device.serve (d : Device) (s : Service) (stage : Stage) : Device := { d with service := some { s with stage } }

/-- The coordinator goes on, with other records. -/
def Device.proceed (d : Device) (s : Service) (records : Records) (c : Option Coordinator) : Device :=
  { d with records, service := some { s with stage := .ready c } }

/-- The helper: a receipt that awaits the reboot under way. -/
def confirmable (d : Device) : Option Attempt :=
  d.records.receipt.filter fun a =>
    d.armed && d.rebooting && decide (a.phase = .awaitingReboot) && decide (a.bootId = d.records.boot)

/-- Steps of the machine. -/
def machineStep (d : Device) : Act → Option Device
  | .boot id =>
    if .booted id ∉ d.records.log then
      some { d with
        records := { d.records with boot := id, log := .booted id :: d.records.log }
        claimed := []
        armed := false
        rebooting := false
        service := none }
    else none
  | .reboot queued => some { d with rebooting := queued }
  | .confirmShutdown =>
    (confirmable d).map fun a =>
      { d with
        records :=
          { d.records with
            shutdown := Function.update d.records.shutdown a.id (some (a.id, d.records.boot))
            log := .confirmed a.id d.records.boot :: d.records.log } }
  | .startService =>
    if d.service.isNone then
      some { d with records := d.records.note (.started d.binary), service := some ⟨d.binary, .starting⟩ }
    else none
  | .stopService => some { d with service := none }
  | _ => none

/-- Steps of a startup, and the beginning of a cycle. -/
def serviceStep (d : Device) (s : Service) (a : Act) : Option Device :=
  match s.stage, a with
  | .starting, .runStartupMigration io =>
    let (records, stage) := runStartupMigration s.exe d.migrated io d.records
    some { d with records, service := some { s with stage } }
  | .migrating version automatic, .migrationEnds marker =>
    let marked := if marker = .failed then d.migrated else version :: d.migrated
    let records := if marker = .done then noteMigrated d.records automatic else d.records
    some { d with
      records, migrated := marked, service := some { s with stage := .recovering (decide (marker = .done)) } }
  | .recovering migrationOk, .recoverAfterStartup exeReads io =>
    some (d.proceed s (recoverAfterStartup s.exe exeReads migrationOk io d.records) none)
  | .ready none, .coordinate id cycle otherVersion =>
    if cycle ∉ d.claimed ∧ (∀ e ∈ d.records.log, e.attempt ≠ some id) ∧
        (d.records.receipt.all Attempt.terminal) = true then
      let recorded := readCurrentVersion d.records otherVersion
      let current := comparisonVersion recorded d.records.receipt
      let records := d.records.note (.compared recorded d.records.writer current)
      some ({ d with claimed := cycle :: d.claimed }.proceed s records
        (some ⟨.new id d.records.boot cycle current [], .checking⟩))
    else none
  | _, _ => none

/-- Steps of the coordinator. -/
def coordinatorStep (d : Device) (s : Service) (c : Coordinator) (a : Act) : Option Device :=
  match c.point, a with
  | .checking, .latestStable answer =>
    match latestStable c.attempt.source answer with
    | none => some (d.proceed s d.records (some (c.goTo .failing)))
    | some none => some (d.proceed s d.records none)
    | some (some target) => some (d.proceed s d.records (some ⟨{ c.attempt with target }, .saving⟩))
  | .saving, .savePreparing io =>
    some (d.proceed s (io.save d.records c.attempt) (some (c.goTo (if io = .done then .staging else .failing))))
  | .staging, .stage binary scripts =>
    let staged : Staged := ⟨binary, scripts⟩
    some (d.proceed s (d.records.note (.staged c.attempt.id staged.files)) (some (c.goTo (.gated staged))))
  | .gated staged, .commit io =>
    let a := { c.attempt with binarySha256 := staged.binary, phase := .installing }
    some (d.proceed s (io.save d.records a)
      (some ⟨a, if io = .done then .replacing staged [] staged.files else .failing⟩))
  | .replacing staged done (file :: rest), .replaceFile io =>
    let moved := d.replace c.attempt staged file
    match io with
    | .failed => some (d.proceed s d.records (some (c.goTo (.rollingBack done))))
    | .unsynced => some (moved.proceed s moved.records (some (c.goTo (.rollingBack (d.backup file :: done)))))
    | .done =>
      some (moved.proceed s moved.records (some (c.goTo (.replacing staged (d.backup file :: done) rest))))
  | .rollingBack (r :: rest), .rollback ok =>
    let restored := if ok then d.restore c.attempt r else d
    some (restored.proceed s restored.records (some (c.goTo (.rollingBack rest))))
  | .replacing _ _ [], .armShutdownReceipt =>
    some ({ d with armed := true }.proceed s d.records (some (c.goTo .armed)))
  | .armed, .saveAwaiting io =>
    let a := c.attempt.inPhase .awaitingReboot
    some (d.proceed s (io.save d.records a) (some ⟨a, if io = .done then .awaiting else .failing⟩))
  | .awaiting, .restart => some ({ d with rebooting := true }.proceed s d.records (some (c.goTo .restarting)))
  | .staging, .fails | .gated _, .fails | .replacing _ _ [], .fails | .rollingBack [], .fails | .awaiting, .fails
  | .restarting, .fails => some (d.proceed s d.records (some (c.goTo .failing)))
  | .failing, .saveFailed io => some (d.proceed s (io.save d.records (c.attempt.inPhase .failed)) none)
  | _, _ => none

def step (d : Device) (a : Act) : Option Device :=
  match machineStep d a with
  | some d' => some d'
  | none =>
    d.service.bind fun s =>
      match s.stage with
      | .ready (some c) => coordinatorStep d s c a
      | _ => serviceStep d s a

/-- A machine that no automatic update has reached, after a boot. -/
def start (boot : Text) (version : Option Text) (binary : Text) (migrated : List Text) : Device :=
  { records := ⟨boot, none, fun _ => none, version, none, [.booted boot]⟩
    binary, migrated, claimed := [], armed := false, rebooting := false, service := none }

/-! ## What is claimed -/

/-- What an attempt that awaits its reboot has behind it, once it is saved as such. -/
def installed (a : Attempt) (files : List Dest) : List Event :=
  files.reverse.map (.replaced a.id) ++ ([.saved (a.inPhase .installing), .staged a.id files] : List Event)

/-- **What a verified attempt has behind it**, the newest first. -/
def milestones (a : Attempt) (files : List Dest) : List Event :=
  ([.migrated a.id a.verifyingBootId, .saved (a.inPhase .verifying), .started a.binarySha256, .booted a.verifyingBootId,
      .confirmed a.id a.bootId, .saved (a.unverified.inPhase .awaitingReboot)] : List Event) ++ installed a.unverified files

/-- The last receipt is of an attempt that has not ended, in this phase. -/
def Follows (past : List Event) (id : Text) (phase : Phase) : Prop :=
  ∃ r, lastSaved past = some r ∧ r.id = id ∧ r.phase = phase

/-- An attempt may begin: the last one has ended, and nothing was written about this one. -/
def Begins (past : List Event) (id : Text) : Prop :=
  (∀ r ∈ lastSaved past, r.terminal = true) ∧ ∀ e ∈ past, e.attempt ≠ some id

/-- What may be written about an attempt: phase by phase, in its own boot until it awaits the next, in one other boot
after that, and as verified with all it has behind it. -/
def Ordered (e : Event) (past : List Event) : Prop :=
  match e with
  | .saved a =>
    match a.phase with
    | .preparing => Begins past a.id ∧ bootOf past = some a.bootId
    | .installing => Follows past a.id .preparing ∧ bootOf past = some a.bootId
    | .awaitingReboot => Follows past a.id .installing ∧ bootOf past = some a.bootId
    | .verifying =>
      Follows past a.id .awaitingReboot ∧ bootOf past = some a.verifyingBootId ∧ a.bootId ≠ a.verifyingBootId
    | .verified =>
      lastSaved past = some (a.inPhase .verifying) ∧ bootOf past = some a.verifyingBootId ∧
        a.bootId ≠ a.verifyingBootId ∧ (∃ s : Staged, s.binary = a.binarySha256 ∧ (milestones a s.files).Sublist past) ∧
        ∀ e ∈ past, e.undoes a.id = false
    | .failed | .interrupted =>
      (∃ r, lastSaved past = some r ∧ r.id = a.id ∧ r.terminal = false) ∨ Begins past a.id
  | .migrates _ _ (some id) =>
    ∃ r, lastSaved past = some r ∧ r.id = id ∧ r.phase = .verifying ∧ bootOf past = some r.verifyingBootId
  | _ => True

/-- What is made of a version file that an unverified attempt wrote: its version is not the one to compare with, and it
is migrated only to verify that attempt, once. -/
def Guarded (e : Event) (past : List Event) : Prop :=
  match e with
  | .compared recorded (some writer) result => verifiedIn past writer = false → result ≠ recorded
  | .migrates _ (some writer) automatic =>
    verifiedIn past writer = false → automatic = some writer ∧ ∀ e ∈ past, e.replays writer = false
  | _ => True

/-- **What may be written to the history**, given its past. -/
def Allowed (e : Event) (past : List Event) : Prop := Ordered e past ∧ Guarded e past

instance (e : Event) (past : List Event) : Decidable (Guarded e past) := by
  unfold Guarded
  split <;> infer_instance

/-- The receipt of an attempt that ends says what an unverified one has written to the version file. -/
def Records.Keeps (k : Records) (a : Attempt) : Prop :=
  ∀ w ∈ k.writer, verifiedIn k.log w = false → k.version = some a.target

instance (k : Records) (a : Attempt) : Decidable (k.Keeps a) := by
  unfold Records.Keeps
  infer_instance

/-- The coordinator at work. -/
def Device.coordinator (d : Device) : Option Coordinator :=
  d.service.bind fun s => match s.stage with
    | .ready c => c
    | _ => none

/-- **The condition on a step.** Where an attempt ends without success, in the coordinator or at a startup, the version
file carries no version of an unverified attempt, other than the target of the attempt that ends. The tag of a release
has no blanks at its ends. -/
def Careful (d : Device) : Act → Prop
  | .latestStable (some release) => trim release.tag = release.tag
  | .saveFailed io => io ≠ .failed → ∀ c ∈ d.coordinator, d.records.Keeps c.attempt
  | .recoverAfterStartup _ io =>
    io ≠ .failed → ∀ r ∈ d.records.receipt, r.terminal = false → d.records.Keeps r
  | _ => True

instance (d : Device) (a : Act) : Decidable (Careful d a) := by
  unfold Careful
  split <;> infer_instance

end SentryUsb.Api.AutoUpdate
