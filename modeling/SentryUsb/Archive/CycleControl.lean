import SentryUsb.Snapshot.Store
import SentryUsb.Library.Chronicle
import SentryUsb.Library.TransitionSystem

/-! # Cancelling an archive cycle

The archive loop is a shell script that runs one archive cycle after another; the web service may cancel the cycle under
way. The two share a lock file, a file with the id of the cycle under way, one file for each cancelled cycle, and a
marker on disk that keeps footage from being cleaned up. All but the marker live in the RAM disk `/tmp`.

* **`activeCycle`** — the cycle the cycle file names (`active_cycle`);
* **`System`**, **`step`** — the shell (`archive_cycle_begin`, `archive_cycle_end`, `archive_allow_cleanup_after_success`,
  `archive_cancel_cleanup`), the call that holds the lock (`request_cancel`), and power losses, in any order;
* **`activeIn`**, **`owed`**, **`Allowed`** — the cycle under way, whether the marker must be there, and what justifies an
  event, all read off the events before it. -/

namespace SentryUsb.Archive.CycleControl

open Library Snapshot

/-! ## Cycle ids -/

/-- The id of a cycle: the process id of the shell and a UUID. -/
def cycleId (pid : Nat) (uuid : Text) : Text := Nat.toDigits 10 pid ++ ':' :: uuid

/-- What the kernel gives as a UUID. -/
def IsUuid (uuid : Text) : Prop := uuid.length = 36 ∧ uuid.all (fun c => c.isAlphanum || c == '-') = true

instance (uuid : Text) : Decidable (IsUuid uuid) := inferInstanceAs (Decidable (_ ∧ _))

/-- A text that is the id of some cycle. -/
def IsId (c : Text) : Prop := ∃ pid uuid, c = cycleId pid uuid ∧ IsUuid uuid

/-- The cycle a cycle file names, if its process is among those in `/proc` (`active_cycle`). -/
def activeCycle (procs : List Nat) (file : Option Text) : Option Text :=
  file.bind fun text =>
    let id := trim text
    (splitOnce ':' id).bind fun parts => (parseUnsigned 32 parts.1).bind fun pid =>
      if parts.2 = [] ∨ 128 < id.length ∨ parts.2.all (fun b => b.isAlphanum || b == '-') = false then none
      else if pid ∈ procs then some id else none

/-- What `$(cat …)` makes of a file: its text without the newlines at its end. -/
def catFile (file : Option Text) : Text := (file.getD []).rdropWhile fun c => decide (c = '\n')

theorem trim_of_activeCycle {procs : List Nat} {text c : Text} (h : activeCycle procs (some text) = some c) :
    trim text = c := by
  rw [activeCycle, Option.bind_some] at h
  obtain ⟨parts, -, h⟩ := Option.bind_eq_some_iff.mp h
  obtain ⟨pid, -, h⟩ := Option.bind_eq_some_iff.mp h
  have hid := (Option.ite_none_left_eq_some.mp h).2
  exact Option.some.inj (Option.ite_none_right_eq_some.mp hid).2

/-- Neither the process id nor the UUID has a blank. -/
theorem isWhitespace_of_mem {pid : Nat} {uuid : Text} (h : IsUuid uuid) {c : Char} (hc : c ∈ cycleId pid uuid) :
    isWhitespace c = false := by
  apply isWhitespace_of_visible
  rcases List.mem_append.mp hc with hdigit | hc
  · have hd : c.isDigit = true := Nat.isDigit_of_mem_toDigits (by decide) (by decide) hdigit
    simp only [Char.isDigit, Bool.and_eq_true, decide_eq_true_eq, UInt32.le_iff_toNat_le] at hd
    exact ⟨le_trans (by decide) hd.1, le_trans hd.2 (by decide)⟩
  · rcases List.mem_cons.mp hc with rfl | hc
    · exact ⟨by decide, by decide⟩
    · rcases Bool.or_eq_true_iff.mp (List.all_eq_true.mp h.2 c hc) with halnum | hdash
      · simp only [Char.isAlphanum, Char.isAlpha, Char.isUpper, Char.isLower, Char.isDigit, Bool.or_eq_true,
          Bool.and_eq_true, decide_eq_true_eq, UInt32.le_iff_toNat_le] at halnum
        rcases halnum with (⟨hlo, hhi⟩ | ⟨hlo, hhi⟩) | ⟨hlo, hhi⟩
        all_goals exact ⟨le_trans (by decide) hlo, le_trans hhi (by decide)⟩
      · rw [beq_iff_eq.mp hdash]
        exact ⟨by decide, by decide⟩

theorem trim_cycleId {c : Text} (h : IsId c) : trim (c ++ ['\n']) = c := by
  obtain ⟨pid, uuid, rfl, huuid⟩ := h
  rw [trim_concat_blank (by decide)]
  exact trim_eq_self fun a ha => isWhitespace_of_mem huuid ha

/-- The shell reads back the id it wrote. -/
theorem catFile_cycleId {c : Text} (h : IsId c) : catFile (some (c ++ ['\n'])) = c := by
  obtain ⟨pid, uuid, rfl, huuid⟩ := h
  rw [catFile, Option.getD_some, List.rdropWhile_concat_pos _ _ _ (by decide), List.rdropWhile_eq_self_iff]
  intro hne heq
  have hlast := isWhitespace_of_mem huuid (List.getLast_mem hne)
  rw [of_decide_eq_true heq] at hlast
  exact absurd hlast (by decide)

/-! ## The system -/

/-- Where the shell is between two cycles or in one. -/
inductive Phase where
  | idle
  /-- The id is exported, the cycle file not yet renamed into place. -/
  | named
  | running
  /-- `run_archive_cycle` is done. -/
  | settled
  deriving DecidableEq

/-- The shell: its process, `ARCHIVE_CYCLE_ID` and `ARCHIVE_CYCLE_CANCELLED`. -/
structure Shell where
  pid : Nat
  id : Option Text
  cancelled : Bool
  phase : Phase
  deriving DecidableEq

/-- A shell that has just started. -/
def Shell.fresh (pid : Nat) : Shell := ⟨pid, none, false, .idle⟩

/-- The cycle under way. -/
def Shell.cycle (sh : Shell) : Option Text :=
  match sh.phase with
  | .idle | .named => none
  | .running | .settled => sh.id

/-- How far the call of `request_cancel` that holds the lock has come. -/
inductive Stage where
  | locked
  /-- The cycle file names the expected cycle. -/
  | checked
  | opened
  | fileSynced
  | secured
  /-- The request file of the cycle is written. -/
  | published
  /-- `Ok` is returned; the handler holds the guard. -/
  | guarded
  deriving DecidableEq

/-- The lock file. A call that waits for the lock has touched nothing yet. -/
inductive Lock where
  | free
  /-- The cleanup release holds it: before or after the marker is removed. -/
  | cleanup (removed : Bool)
  | request (expected : Text) (stage : Stage)
  deriving DecidableEq

/-- The marker `sentryusb_cam_cleanup_deferred`, and what a power loss may make of it. -/
structure Marker where
  present : Bool
  mayAppear : Bool
  mayVanish : Bool
  deriving DecidableEq

def Marker.create (m : Marker) : Marker := { m with present := true, mayAppear := true }

def Marker.remove (m : Marker) : Marker := { m with present := false, mayVanish := true }

/-- The directory is written to the disk. -/
def Marker.sync (m : Marker) : Marker := ⟨m.present, m.present, !m.present⟩

/-- The marker is there, and no power loss takes it away. -/
def Marker.Durable (m : Marker) : Prop := m.present = true ∧ m.mayVanish = false

/-- What happened. -/
inductive Event where
  | begun (c : Text)
  /-- The request file of the cycle is written. -/
  | requested (c : Text)
  /-- `request_cancel` returned `Ok`. -/
  | accepted (c : Text)
  /-- The cycle removed the marker. -/
  | released (c : Text)
  /-- The end of the cycle: whether its locked part exits with 125, and `ARCHIVE_CYCLE_CANCELLED` after it. -/
  | ended (c : Text) (captured cancelled : Bool)
  /-- The end of the cycle in the `EXIT` trap of the shell. -/
  | exited (c : Text) (captured : Bool)
  | lost
  deriving DecidableEq

/-- The shell, the files, and the events so far, the newest first. -/
structure System where
  shell : Shell
  cycleFile : Option Text
  cancels : List Text
  lock : Lock
  marker : Marker
  log : List Event
  deriving DecidableEq

/-- Whether the request file of the shell's cycle is there (`archive_cancel_requested`). -/
def System.cancelRequested (s : System) : Bool := s.shell.id.any fun c => decide (c ∈ s.cancels)

/-- The cycle file is the shell's own: the locked part of `archive_cycle_end` removes it. -/
def System.ownsFile (s : System) : Bool := s.shell.id.any fun c => decide (catFile s.cycleFile = c)

/-- The locked part of `archive_cycle_end` exits with 125. -/
def System.captured (s : System) : Bool := s.ownsFile && s.cancelRequested

/-- The events after the shell has left through its trap. -/
def System.exitLog (s : System) : List Event :=
  match s.shell.cycle with
  | some c => .exited c s.captured :: s.log
  | none => s.log

/-! ## Steps -/

inductive Action where
  /-- `archive_cycle_begin`: the id is exported. -/
  | beginCycle (uuid : Text)
  /-- `archive_cycle_begin`: the cycle file is renamed into place. -/
  | publishCycle
  /-- The end of `run_archive_cycle`. -/
  | runCycle
  /-- `archive_allow_cleanup_after_success`: the lock and the check. -/
  | allowCleanup
  | removeMarker (ok : Bool)
  | syncRemoval (ok : Bool)
  /-- `archive_cancel_cleanup`: whether the marker is written and whether it is synced. -/
  | cancelCleanup (written synced : Bool)
  | endCycle
  /-- The shell exits through its trap, and the service starts it again. -/
  | exitShell (pid : Nat)
  /-- A call of `request_cancel` is granted the lock. -/
  | acquire (expected : Text)
  | checkActive (procs : List Nat)
  | openMarker (ok : Bool)
  | syncFile (ok : Bool)
  | syncDirectory (ok : Bool)
  | publishRequest (ok : Bool)
  | returnOk
  | dropGuard
  | powerLoss (survives : Bool) (pid : Nat)
  deriving DecidableEq

/-- The call goes on to a stage, or returns an error and drops the guard. -/
def proceed (s : System) (ok : Bool) (expected : Text) (stage : Stage) : System :=
  { s with lock := if ok then .request expected stage else .free }

/-- One step of the shell, of the call that holds the lock, or a power loss. -/
@[grind =] def step (s : System) : Action → Option System
  | .beginCycle uuid =>
    let id := cycleId s.shell.pid uuid
    if s.shell.phase = .idle ∧ IsUuid uuid ∧ .begun id ∉ s.log then
      some { s with shell := { s.shell with id := some id, phase := .named } }
    else none
  | .publishCycle => match s.shell.phase, s.shell.id with
    | .named, some c => some { s with
      shell := { s.shell with phase := .running }
      cycleFile := some (c ++ ['\n'])
      log := .begun c :: s.log }
    | _, _ => none
  | .runCycle => match s.shell.phase, s.lock with
    | .running, .cleanup _ => none
    | .running, _ => some { s with shell := { s.shell with cancelled := s.cancelRequested, phase := .settled } }
    | _, _ => none
  | .allowCleanup =>
    if s.shell.phase = .running ∧ s.lock = .free then
      some { s with lock := if s.cancelRequested then .free else .cleanup false }
    else none
  | .removeMarker ok => match s.lock, s.shell.id with
    | .cleanup false, some c =>
      if ok then some { s with
        lock := .cleanup true, marker := s.marker.remove, log := .released c :: s.log }
      else some { s with lock := .free }
    | _, _ => none
  | .syncRemoval ok => match s.lock with
    | .cleanup true => some { s with lock := .free, marker := if ok then s.marker.sync else s.marker }
    | _ => none
  | .cancelCleanup written synced =>
    if s.cancelRequested ∨ s.shell.cancelled then
      let written := if written then s.marker.create else s.marker
      some { s with marker := if synced then written.sync else written }
    else none
  | .endCycle => match s.shell.phase, s.shell.id, s.lock with
    | .settled, some c, .free =>
      let cancelled := s.captured || s.shell.cancelled
      some { s with
        shell := { s.shell with id := none, cancelled := cancelled, phase := .idle }
        cycleFile := if s.ownsFile then none else s.cycleFile
        log := .ended c s.captured cancelled :: s.log }
    | _, _, _ => none
  | .exitShell pid => match s.lock with
    | .free => some { s with
      shell := .fresh pid
      cycleFile := if s.ownsFile then none else s.cycleFile
      log := s.exitLog }
    | _ => none
  | .acquire expected => if s.lock = .free then some { s with lock := .request expected .locked } else none
  | .checkActive procs => match s.lock with
    | .request expected .locked =>
      some (proceed s (decide (activeCycle procs s.cycleFile = some expected)) expected .checked)
    | _ => none
  | .openMarker ok => match s.lock with
    | .request expected .checked =>
      some (proceed { s with marker := if ok then s.marker.create else s.marker } ok expected .opened)
    | _ => none
  | .syncFile ok => match s.lock with
    | .request expected .opened => some (proceed s ok expected .fileSynced)
    | _ => none
  | .syncDirectory ok => match s.lock with
    | .request expected .fileSynced =>
      some (proceed { s with marker := if ok then s.marker.sync else s.marker } ok expected .secured)
    | _ => none
  | .publishRequest ok => match s.lock with
    | .request expected .secured =>
      if ok then some { s with
        lock := .request expected .published
        cancels := expected :: s.cancels
        log := .requested expected :: s.log }
      else some { s with lock := .free }
    | _ => none
  | .returnOk => match s.lock with
    | .request expected .published =>
      some { s with lock := .request expected .guarded, log := .accepted expected :: s.log }
    | _ => none
  | .dropGuard => match s.lock with
    | .request _ .guarded => some { s with lock := .free }
    | _ => none
  | .powerLoss survives pid =>
    -- the RAM disk and the processes are gone
    if survives = true ∧ s.marker.mayAppear = true ∨ survives = false ∧ s.marker.mayVanish = true then
      some ⟨.fresh pid, none, [], .free, ⟨survives, survives, !survives⟩, .lost :: s.log⟩
    else none

/-- A device that has just booted, with or without a marker. -/
structure Booted (s : System) : Prop where
  shell : s.shell = .fresh s.shell.pid
  cycleFile : s.cycleFile = none
  cancels : s.cancels = []
  lock : s.lock = .free
  log : s.log = []

/-! ## What is read off the events -/

/-- The cycle under way after the events. -/
def activeIn : List Event → Option Text
  | [] => none
  | .begun c :: _ => some c
  | .ended _ _ _ :: _ | .exited _ _ :: _ | .lost :: _ => none
  | .requested _ :: past | .accepted _ :: past | .released _ :: past => activeIn past

/-- A cancel was accepted and the marker was not released since. -/
def owed : List Event → Bool
  | [] => false
  | .accepted _ :: _ => true
  | .released _ :: _ => false
  | .begun _ :: past | .requested _ :: past | .ended _ _ _ :: past | .exited _ _ :: past | .lost :: past => owed past

/-- What an event promises about the events before it. -/
def Allowed : Event → List Event → Prop
  | .begun c, past => .begun c ∉ past
  | .requested c, past => activeIn past = some c
  | .accepted c, past => activeIn past = some c ∧ .requested c ∈ past
  | .released c, past => activeIn past = some c ∧ .requested c ∉ past
  | .ended c captured cancelled, past =>
    activeIn past = some c ∧ (captured = true ↔ .requested c ∈ past) ∧ cancelled = captured
  | .exited c captured, past => activeIn past = some c ∧ (captured = true ↔ .requested c ∈ past)
  | .lost, _ => True

theorem begun_of_activeIn {log : List Event} {c : Text} (h : activeIn log = some c) : .begun c ∈ log := by
  induction log with
  | nil => exact absurd h (by simp [activeIn])
  | cons e past ih =>
    cases e with
    | begun d => exact Option.some.inj h ▸ List.mem_cons_self
    | requested d => exact List.mem_cons_of_mem _ (ih h)
    | accepted d => exact List.mem_cons_of_mem _ (ih h)
    | released d => exact List.mem_cons_of_mem _ (ih h)
    | ended d captured cancelled => exact absurd h (by simp [activeIn])
    | exited d captured => exact absurd h (by simp [activeIn])
    | lost => exact absurd h (by simp [activeIn])

theorem begun_of_requested {log : List Event} (h : Chronicle Allowed log) {c : Text} (hc : .requested c ∈ log) :
    .begun c ∈ log := by
  obtain ⟨later, past, rfl, hallowed⟩ := h.of_mem hc
  exact List.mem_append_right _ (List.mem_cons_of_mem _ (begun_of_activeIn hallowed))

/-- While nothing was released since an accepted cancel, the marker is owed. -/
theorem owed_of_append {later past : List Event} {c : Text} (h : ∀ d, .released d ∉ later) :
    owed (later ++ .accepted c :: past) = true := by
  induction later with
  | nil => rfl
  | cons e later ih =>
    have hrest := ih fun d hd => h d (List.mem_cons_of_mem _ hd)
    cases e with
    | accepted d => rfl
    | released d => exact absurd List.mem_cons_self (h d)
    | begun d => exact hrest
    | requested d => exact hrest
    | ended d captured cancelled => exact hrest
    | exited d captured => exact hrest
    | lost => exact hrest

end SentryUsb.Archive.CycleControl
