import SentryUsb.Library.TransitionSystem
import SentryUsb.Library.Tasks
import SentryUsb.Grouper.Clip

/-! # The hotspot of the away mode

The hotspot is started by hand for a time, or by the geofence. One record under one lock says which mode owns it, and is
numbered twice: the epoch is that of the watcher, the generation that of the last start or stop of the access point,
which run as tasks one after another. The mode is also kept in the configuration file. Handlers and tasks are cut at the
points where they await, so each section under the lock is one step.

* **`enableSection`**, **`disable`**, **`applyMode`**, **`timerTick`**, **`autoEvalTick`** — the sections
  (`away_mode.rs`);
* **`requestApStart`**, **`requestApStop`**, **`completeApStart`** — starts and stops of the access point;
* **`step`** — the steps of handlers, of watchers, and of the holder of the operations lock;
* **`OneOwner`** — mode, state, watcher, radio and configuration file agree;
* **`Careful`** — no `enable` that goes on in automatic mode, no mode applied last after it was overwritten on file, no
  failure reported last with the radio up. -/

namespace SentryUsb.Api.AwayMode

open Library

/-! ## State -/

inductive Mode where
  | manual
  | auto
  deriving DecidableEq, Repr

/-- The manual timer. -/
inductive TimerState where
  | idle
  | active
  deriving DecidableEq, Repr

inductive ApPhase where
  | off
  | starting
  | on
  deriving DecidableEq, Repr

/-- What the flag file says; times are in seconds. -/
inductive FlagFile where
  | timer (expiresAt enabledAt remainingSec : Int) (hasRtc : Bool)
  | auto (enabledAt : Int)
  /-- A file that does not parse. -/
  | garbled
  deriving DecidableEq, Repr

/-- The record under the lock. Times are in nanoseconds. -/
structure Inner where
  mode : Mode
  state : TimerState
  hasRtc : Bool
  expiresAt : Option Int
  enabledAt : Option Int
  lastIsHome : Option Bool
  pendingIsHome : Option Bool
  pendingCount : Nat
  /-- Which notification `stop` is: the epoch it was made in. -/
  stop : Nat
  epoch : Nat
  apPhase : ApPhase
  apGeneration : Nat
  apStartError : Option Text
  retryAt : Option Int
  deriving DecidableEq, Repr

/-- Request handlers between their sections. -/
inductive Handler where
  /-- `enable` looks up the access point. -/
  | enabling (minutes : Nat)
  /-- A handler that has still to spawn its watcher. -/
  | launching (geofence : Bool) (stop epoch : Nat)
  /-- `set_mode("auto")` looks up the access point. -/
  | choosing
  /-- `set_mode` waits for the configuration file to be written. -/
  | persisting (wantAuto : Bool)
  | persisted (wantAuto : Bool)
  deriving DecidableEq, Repr

/-- Where the loop of a watcher stands. -/
inductive Stage where
  /-- It sleeps; `woken` once its notification was sent. -/
  | asleep (woken : Bool)
  /-- The geofence watcher has slept. -/
  | prechecking
  /-- `check_running_ap` begins. -/
  | looking
  /-- The access point was on, in this generation. -/
  | probing (generation : Nat)
  /-- It holds the operations lock for its check. -/
  | holding
  /-- `check_running_ap` is over. -/
  | ready
  deriving DecidableEq, Repr

/-- A watcher of the timer, or of the geofence. -/
structure Watcher where
  geofence : Bool
  stop : Nat
  epoch : Nat
  stage : Stage
  deriving DecidableEq, Repr

/-- A start or a stop that waits for the operations lock. -/
structure Request where
  start : Bool
  generation : Nat
  deriving DecidableEq, Repr

abbrev Outcome := Except Text Unit

/-- What the holder of the operations lock is about. -/
inductive Operation where
  | starting (generation : Nat)
  /-- `start_ap` has returned. -/
  | started (generation : Nat) (result : Outcome)
  /-- The cleanup after a start that failed or is obsolete. -/
  | cleaning (generation : Nat) (result : Outcome)
  | completing (generation : Nat) (result : Outcome)
  | stopping (generation : Nat)
  | stopFailed (generation : Nat) (error : Text)
  | checking (generation : Nat)
  /-- A check has failed and its cleanup is over. -/
  | unhealthy (generation : Nat) (message : Text)
  deriving Repr

/-- The record, the two files, the radio and everything in progress. -/
structure Hotspot where
  inner : Inner
  flag : Option FlagFile
  /-- `AWAY_MODE_AUTO_ENABLED` of the configuration file. -/
  configAuto : Bool
  /-- Whether the access point is up. -/
  radio : Bool
  handlers : List Handler
  /-- Writes of the configuration file whose handlers were dropped. -/
  writes : List Bool
  watchers : List Watcher
  waiting : List Request
  operation : Option Operation

/-- A handler goes on. -/
def Hotspot.serve (s : Hotspot) (h : Handler) (after : List Handler) : Hotspot :=
  { s with handlers := advance s.handlers h after }

/-- A watcher goes on. -/
def Hotspot.move (s : Hotspot) (w : Watcher) (after : List Watcher) : Hotspot :=
  { s with watchers := advance s.watchers w after }

/-- The watcher at another point of its loop. -/
def Watcher.goTo (w : Watcher) (stage : Stage) : Watcher := { w with stage }

/-! ## The access point -/

/-- The phase while a request waits and runs. -/
def Request.phase (r : Request) : ApPhase := if r.start then .starting else .off

/-- A new generation, with its task. -/
def request (start : Bool) (s : Hotspot) : Hotspot :=
  let r : Request := ⟨start, s.inner.apGeneration + 1⟩
  { s with
    inner :=
      { s.inner with apGeneration := r.generation, apPhase := r.phase, apStartError := none, retryAt := none }
    waiting := r :: s.waiting }

/-- `request_ap_start`. -/
def requestApStart : Hotspot → Hotspot := request true

/-- `request_ap_stop`. -/
def requestApStop : Hotspot → Hotspot := request false

/-- Wakes a watcher that sleeps on the notification. -/
def Watcher.wake (stop : Nat) (w : Watcher) : Watcher :=
  match w.stage with
  | .asleep woken => w.goTo (.asleep (woken || w.stop == stop))
  | _ => w

/-- `stop.notify_waiters()`. -/
def notifyWaiters (s : Hotspot) : Hotspot := { s with watchers := s.watchers.map (Watcher.wake s.inner.stop) }

def second : Int := 1000000000

/-- `finish_ap_start`: the state after it, and whether the request at hand failed. -/
def finishApStart (generation : Nat) (result : Outcome) (now : Int) (s : Hotspot) : Hotspot × Bool :=
  if s.inner.apGeneration ≠ generation then (s, false)
  else
    match result with
    | .ok () => ({ s with inner := { s.inner with apPhase := .on } }, false)
    | .error error =>
      let failed :=
        { s.inner with apPhase := .off, apStartError := some error, retryAt := some (now + 60 * second) }
      if s.inner.mode = .manual then
        ({ notifyWaiters s with
          inner := { failed with state := .idle, enabledAt := none, expiresAt := none, epoch := s.inner.epoch + 1 } },
          true)
      else ({ s with inner := failed }, true)

/-- `complete_ap_start`. -/
def completeApStart (generation : Nat) (result : Outcome) (now : Int) (s : Hotspot) : Hotspot :=
  let (finished, failed) := finishApStart generation result now s
  if failed then { finished with flag := none } else finished

/-! ## The flag file -/

/-- `remaining_seconds`. -/
def remainingSeconds (expires now : Int) : Int := max 0 (expires - now) / second

/-- `write_flag_file`. -/
def writeFlagFile (now : Int) (s : Hotspot) : Hotspot :=
  match s.inner.expiresAt with
  | none => s
  | some expires =>
    { s with
      flag := some (.timer (expires / second) (s.inner.enabledAt.getD now / second) (remainingSeconds expires now)
        s.inner.hasRtc) }

/-- `write_auto_flag_file`. -/
def writeAutoFlagFile (now : Int) (s : Hotspot) : Hotspot := { s with flag := some (.auto (now / second)) }

/-- `remove_flag_file`. -/
def removeFlagFile (s : Hotspot) : Hotspot := { s with flag := none }

/-! ## Handlers -/

/-- `MAX_DURATION_MIN`. -/
def maxDurationMin : Nat := 24 * 60

/-- A status code and the text of an error. -/
abbrev Response := Nat × Text

/-- What `enable` checks before it looks up the access point; the body is missing if it does not parse. -/
def enableRequest (body : Option (Option Nat)) (mode : Mode) : Except Response Nat :=
  match body with
  | none => .error (400, "invalid request body".toList)
  | some durationMin =>
    let minutes := durationMin.getD 0
    if minutes = 0 then .error (400, "duration_min must be positive".toList)
    else if maxDurationMin < minutes then .error (400, "duration_min cannot exceed 24 hours (1440)".toList)
    else if mode = .auto then
      .error (409, "Away Mode is in Automatic mode — switch to Manual to use the timer.".toList)
    else .ok minutes

structure ApProfile where
  ssid : Text
  ip : Text

/-- `require_ap_profile`. -/
def requireApProfile : Except Text (Option ApProfile) → Except Response ApProfile
  | .ok (some profile) => .ok profile
  | .ok none => .error (412, "AP not configured. Run setup with AP settings first.".toList)
  | .error error => .error (503, error)

/-- The section of `enable`. -/
def enableSection (minutes : Nat) (now : Int) (s : Hotspot) : Hotspot :=
  let expires := now + minutes * 60 * second
  if s.inner.state = .active then writeFlagFile now { s with inner := { s.inner with expiresAt := some expires } }
  else
    let epoch := s.inner.epoch + 1
    let begun :=
      { notifyWaiters s with
        inner := { s.inner with state := .active, enabledAt := some now, expiresAt := some expires, stop := epoch, epoch }
        handlers := .launching false epoch epoch :: s.handlers }
    requestApStart (writeFlagFile now begun)

/-- `disable`. -/
def disable (s : Hotspot) : Hotspot :=
  if s.inner.mode = .auto ∨ s.inner.state = .idle then s
  else
    requestApStop (removeFlagFile
      { notifyWaiters s with
        inner := { s.inner with state := .idle, expiresAt := none, enabledAt := none, epoch := s.inner.epoch + 1 } })

/-- The mode asked for. -/
def wantAuto (mode : Text) : Option Bool :=
  if mode = "auto".toList then some true else if mode = "manual".toList then some false else none

/-- The section of `set_mode`. -/
def applyMode (wantAuto : Bool) (s : Hotspot) : Hotspot :=
  let epoch := s.inner.epoch + 1
  let reset :=
    { s.inner with
      mode := if wantAuto then .auto else .manual
      state := .idle
      expiresAt := none
      enabledAt := none
      lastIsHome := none
      pendingIsHome := none
      pendingCount := 0
      epoch }
  if wantAuto then
    let begun :=
      { notifyWaiters s with
        inner := { reset with stop := epoch }, handlers := .launching true epoch epoch :: s.handlers }
    if s.inner.apPhase = .starting then requestApStop (removeFlagFile begun) else begun
  else requestApStop (removeFlagFile { notifyWaiters s with inner := reset })

/-! ## Watchers -/

/-- `CONFIRM_TICKS`. -/
def confirmTicks : Nat := 2

/-- `fold_geofence`: the decision, and what is pending after it. -/
def foldGeofence (candidate last pending : Option Bool) (pendingCount : Nat) : Option Bool × Option Bool × Nat :=
  match candidate with
  | none => (none, none, 0)
  | some cand =>
    if some cand = last then (none, none, 0)
    else
      let count := if pending = some cand then min (pendingCount + 1) 255 else 1
      if confirmTicks ≤ count then (some cand, none, 0) else (none, some cand, count)

/-- `auto_eval_tick`, on the reading of the geofence. -/
def autoEvalTick (epoch : Nat) (candidate : Option Bool) (now : Int) (s : Hotspot) : Hotspot :=
  if s.inner.mode ≠ .auto ∨ s.inner.epoch ≠ epoch then s
  else
    let (decision, pendingIsHome, pendingCount) :=
      foldGeofence candidate s.inner.lastIsHome s.inner.pendingIsHome s.inner.pendingCount
    let folded := { s with inner := { s.inner with pendingIsHome, pendingCount } }
    match decision with
    | some isHome =>
      let decided := { folded with inner := { folded.inner with lastIsHome := some isHome } }
      if isHome then requestApStop (removeFlagFile decided) else requestApStart (writeAutoFlagFile now decided)
    | none =>
      if candidate = some false ∧ s.inner.lastIsHome = some false ∧ s.inner.apPhase = .off ∧
          s.inner.retryAt.any (fun t => decide (t ≤ now)) then
        requestApStart (writeAutoFlagFile now folded)
      else folded

/-- The section of `spawn_watcher`'s loop. -/
def timerTick (w : Watcher) (now : Int) (s : Hotspot) : Hotspot :=
  if s.inner.state ≠ .active ∨ s.inner.epoch ≠ w.epoch then s.move w []
  else if s.inner.expiresAt.all fun e => decide (e ≤ now) then
    requestApStop (removeFlagFile
      { s.move w [] with inner := { s.inner with state := .idle, expiresAt := none, enabledAt := none } })
  else writeFlagFile now (s.move w [w.goTo (.asleep false)])

/-- The first section of `check_running_ap`. -/
def look (w : Watcher) (s : Hotspot) : Hotspot :=
  s.move w [w.goTo (if s.inner.apPhase = .on then .probing s.inner.apGeneration else .ready)]

/-! ## Steps -/

inductive Act where
  /-- `enable` is called; the body is missing if it does not parse. -/
  | enable (body : Option (Option Nat))
  | enableApply (minutes : Nat) (profile : Except Text (Option ApProfile)) (now : Int)
  /-- A handler spawns its watcher and answers. -/
  | launch (geofence : Bool) (stop epoch : Nat)
  | disable
  | setMode (mode : Text)
  | choose (profile : Except Text (Option ApProfile))
  /-- The configuration file is written, or that fails. -/
  | persist (wantAuto ok : Bool)
  | applyMode (wantAuto : Bool)
  /-- A client goes away while its handler awaits, and the handler is dropped. -/
  | disconnect (h : Handler)
  /-- The write of a dropped handler. -/
  | lateWrite (wantAuto ok : Bool)
  /-- A watcher has slept. -/
  | timer (w : Watcher)
  /-- A watcher that was woken returns. -/
  | notified (w : Watcher)
  | precheck (w : Watcher)
  | look (w : Watcher)
  /-- `check_running_ap` takes the operations lock, if the backend is one it checks. -/
  | probe (w : Watcher) (applicable : Bool)
  /-- The check, and the cleanup if it fails; `up` is the radio after a cleanup that fails. -/
  | checked (w : Watcher) (error cleanup : Option Text) (up : Bool)
  | healthDone (w : Watcher) (now : Int)
  | timerTick (w : Watcher) (now : Int)
  | geofenceTick (w : Watcher) (candidate : Option Bool) (now : Int)
  /-- A start or stop takes the operations lock. -/
  | acquire (r : Request)
  | startReturns (result : Outcome) (up : Bool)
  /-- The generation is compared after a start. -/
  | judge
  | cleaned (error : Option Text) (up : Bool)
  | complete (now : Int)
  | stopReturns (error : Option Text) (up : Bool)
  | recordStopFailure

/-- `"; WiFi recovery failed: {error}"`. -/
def recoveryFailed (error : Text) : Text := "; WiFi recovery failed: ".toList ++ error

/-- A result after its cleanup. -/
def cleanedResult (result : Outcome) : Option Text → Outcome
  | none => result
  | some error =>
    let cause : Text := match result with
      | .ok () => "Hotspot startup was canceled".toList
      | .error e => e
    .error (cause ++ recoveryFailed error)

/-- The radio after a stop. -/
def radioAfterStop (error : Option Text) (up : Bool) : Bool := error.isSome && up

/-- Handlers that await, and what is left when one is dropped: a write that was begun goes on. -/
def Handler.dropped : Handler → Option (List Bool)
  | .enabling _ | .choosing | .persisted _ => some []
  | .persisting wantAuto => some [wantAuto]
  | .launching _ _ _ => none

def handlerStep (s : Hotspot) : Act → Option Hotspot
  | .enable body =>
    match enableRequest body s.inner.mode with
    | .error _ => some s
    | .ok minutes => some { s with handlers := .enabling minutes :: s.handlers }
  | .enableApply minutes profile now =>
    if .enabling minutes ∈ s.handlers then
      match requireApProfile profile with
      | .error _ => some (s.serve (.enabling minutes) [])
      | .ok _ => some (enableSection minutes now (s.serve (.enabling minutes) []))
    else none
  | .launch geofence stop epoch =>
    if .launching geofence stop epoch ∈ s.handlers then
      some { s.serve (.launching geofence stop epoch) [] with
        watchers := ⟨geofence, stop, epoch, .asleep false⟩ :: s.watchers }
    else none
  | .disable => some (disable s)
  | .setMode mode =>
    match wantAuto mode with
    | none => some s
    | some true => some { s with handlers := .choosing :: s.handlers }
    | some false => some { s with handlers := .persisting false :: s.handlers }
  | .choose profile =>
    if .choosing ∈ s.handlers then
      match requireApProfile profile with
      | .error _ => some (s.serve .choosing [])
      | .ok _ => some (s.serve .choosing [.persisting true])
    else none
  | .persist wantAuto ok =>
    if .persisting wantAuto ∈ s.handlers then
      if ok then
        some { s.serve (.persisting wantAuto) [.persisted wantAuto] with configAuto := wantAuto }
      else some (s.serve (.persisting wantAuto) [])
    else none
  | .applyMode wantAuto =>
    if .persisted wantAuto ∈ s.handlers then some (applyMode wantAuto (s.serve (.persisted wantAuto) [])) else none
  | .disconnect h =>
    if h ∈ s.handlers then h.dropped.map fun begun => { s.serve h [] with writes := begun ++ s.writes } else none
  | .lateWrite wantAuto ok =>
    if wantAuto ∈ s.writes then
      some { s with
        writes := s.writes.erase wantAuto, configAuto := if ok then wantAuto else s.configAuto }
    else none
  | _ => none

def watcherStep (s : Hotspot) : Act → Option Hotspot
  | .timer w =>
    match w.stage with
    | .asleep _ =>
      if w ∈ s.watchers then some (s.move w [w.goTo (if w.geofence then .prechecking else .looking)]) else none
    | _ => none
  | .notified w => if w ∈ s.watchers ∧ w.stage = .asleep true then some (s.move w []) else none
  | .precheck w =>
    if w ∈ s.watchers ∧ w.stage = .prechecking ∧ w.geofence = true then
      some (s.move w (if s.inner.mode ≠ .auto ∨ s.inner.epoch ≠ w.epoch then [] else [w.goTo .looking]))
    else none
  | .look w => if w ∈ s.watchers ∧ w.stage = .looking then some (look w s) else none
  | .probe w applicable =>
    match w.stage with
    | .probing generation =>
      if w ∈ s.watchers then
        if applicable then
          if s.operation.isNone then
            if s.inner.apGeneration ≠ generation then some (s.move w [w.goTo .ready])
            else some { s.move w [w.goTo .holding] with operation := some (.checking generation) }
          else none
        else some (s.move w [w.goTo .ready])
      else none
    | _ => none
  | .timerTick w now =>
    if w ∈ s.watchers ∧ w.stage = .ready ∧ w.geofence = false then some (timerTick w now s) else none
  | .geofenceTick w candidate now =>
    if w ∈ s.watchers ∧ w.stage = .ready ∧ w.geofence = true then
      some (autoEvalTick w.epoch candidate now (s.move w [w.goTo (.asleep false)]))
    else none
  | .acquire r =>
    if r ∈ s.waiting ∧ s.operation.isNone = true then
      let taken := { s with waiting := advance s.waiting r [] }
      if s.inner.apGeneration ≠ r.generation then some taken
      else
        some { taken with
          operation := some (if r.start then .starting r.generation else .stopping r.generation) }
    else none
  | _ => none

/-- Steps of the holder of the operations lock. -/
def operationStep (s : Hotspot) (op : Operation) (a : Act) : Option Hotspot :=
  match op, a with
  | .starting g, .startReturns result up =>
    some { s with
      operation := some (.started g result)
      radio := match result with
        | .ok () => true
        | .error _ => up }
  | .started g result, .judge =>
    some { s with
      operation := some (if result.isOk = true ∧ s.inner.apGeneration = g then .completing g result
        else .cleaning g result) }
  | .cleaning g result, .cleaned error up =>
    some { s with
      operation := some (.completing g (cleanedResult result error)), radio := radioAfterStop error up }
  | .completing g result, .complete now => some (completeApStart g result now { s with operation := none })
  | .stopping g, .stopReturns error up =>
    some { s with operation := error.map (.stopFailed g), radio := radioAfterStop error up }
  | .stopFailed g error, .recordStopFailure =>
    some { s with
      operation := none
      inner := if s.inner.apGeneration = g then { s.inner with apStartError := some error } else s.inner }
  | .checking g, .checked w error cleanup up =>
    if w ∈ s.watchers ∧ w.stage = .holding then
      match error with
      | none => some { s.move w [w.goTo .ready] with operation := none }
      | some e =>
        some { s with
          operation := some (.unhealthy g (e ++ (cleanup.map recoveryFailed).getD []))
          radio := radioAfterStop cleanup up }
    else none
  | .unhealthy g message, .healthDone w now =>
    if w ∈ s.watchers ∧ w.stage = .holding then
      some (completeApStart g (.error message) now { s.move w [w.goTo .ready] with operation := none })
    else none
  | _, _ => none

def step (s : Hotspot) (a : Act) : Option Hotspot :=
  match handlerStep s a with
  | some t => some t
  | none =>
    match watcherStep s a with
    | some t => some t
    | none => s.operation.bind fun op => operationStep s op a

/-! ## Startup -/

/-- How long a restored timer still runs; missing if the file gives no end. -/
def restoredTime (hasRtc : Bool) (now : Int) : FlagFile → Option Int
  | .timer expiresAt _ remainingSec _ =>
    some (if hasRtc then max 0 (expiresAt * second - now) else max 0 remainingSec * second)
  | .auto _ => if hasRtc then none else some 0
  | .garbled => none

/-- When a restored timer was enabled. -/
def FlagFile.enabledAt (now : Int) : FlagFile → Int
  | .timer _ enabledAt _ _ | .auto enabledAt => enabledAt * second
  | .garbled => now

/-- `restore_from_file`: the state after startup, with the radio down before it. -/
def restoreFromFile (configAuto runtimeOwner hasRtc : Bool) (flag : Option FlagFile) (now : Int) : Hotspot :=
  let new : Hotspot :=
    { inner := ⟨.manual, .idle, hasRtc, none, none, none, none, 0, 0, 0, .off, 0, none, none⟩
      flag, configAuto, radio := false, handlers := [], writes := [], watchers := [], waiting := [], operation := none }
  let s := if runtimeOwner ∧ flag.isNone then requestApStop new else new
  let epoch := s.inner.epoch + 1
  if configAuto then
    let begun :=
      { s with
        inner := { s.inner with mode := .auto, lastIsHome := some flag.isNone, stop := epoch, epoch }
        watchers := [⟨true, epoch, epoch, .asleep false⟩] }
    if flag.isSome then requestApStart begun else begun
  else
    match flag with
    | none => s
    | some file =>
      match restoredTime hasRtc now file with
      | none => removeFlagFile s
      | some remaining =>
        if remaining = 0 then requestApStop (removeFlagFile s)
        else
          requestApStart
            { s with
              inner :=
                { s.inner with
                  state := .active
                  enabledAt := some (file.enabledAt now)
                  expiresAt := some (now + remaining)
                  stop := epoch
                  epoch }
              watchers := [⟨false, epoch, epoch, .asleep false⟩] }

/-! ## One owner -/

/-- Whether a watcher of a kind goes on looping for an epoch. -/
def Watcher.Live (w : Watcher) (geofence : Bool) (epoch : Nat) : Prop :=
  w.geofence = geofence ∧ w.epoch = epoch ∧ w.stage ≠ .asleep true

def Operation.generation : Operation → Nat
  | .starting g | .started g _ | .cleaning g _ | .completing g _ | .stopping g | .stopFailed g _ | .checking g
  | .unhealthy g _ => g

/-- Whether the holder of the lock has still to look whether the access point is well. -/
def Operation.isCheck : Operation → Bool
  | .checking _ => true
  | _ => false

/-- A start or stop waits or runs, or a failed check is to be recorded. -/
def Hotspot.apPending (s : Hotspot) : Prop := s.waiting ≠ [] ∨ ∃ op ∈ s.operation, op.isCheck = false

/-- **What is claimed of a state without a handler in progress.** -/
structure OneOwner (s : Hotspot) : Prop where
  active : s.inner.state = .active → s.inner.mode = .manual ∧ ∃ w ∈ s.watchers, w.Live false s.inner.epoch
  auto : s.inner.mode = .auto → ∃ w ∈ s.watchers, w.Live true s.inner.epoch
  radio : ¬ s.apPending → (s.radio = true ↔ s.inner.apPhase = .on)
  config : s.configAuto = true ↔ s.inner.mode = .auto

/-- Phase, error and flag file. -/
def Hotspot.shown (s : Hotspot) : ApPhase × Option Text × Option FlagFile :=
  (s.inner.apPhase, s.inner.apStartError, s.flag)

def Handler.isPersisted : Handler → Bool
  | .persisted _ => true
  | _ => false

/-- Whether the holder of the lock is about to report a failure. -/
def Operation.failed : Operation → Bool
  | .completing _ result => !result.isOk
  | .stopFailed _ _ | .unhealthy _ _ => true
  | _ => false

/-- A failure of the access point at hand is reported with the radio down. -/
def Hotspot.FailsDown (s : Hotspot) : Prop :=
  (s.operation.any fun op => op.failed && op.generation == s.inner.apGeneration) = true → s.radio = false

/-- **The condition on a step.** An `enable` goes on in manual mode only. Of the modes on their way from the
configuration file to memory, the last to be applied is the one on file; a handler dropped on that way leaves the file
as the mode is. A failure of the access point at hand leaves the radio down. -/
def Careful (s : Hotspot) : Act → Prop
  | .enableApply _ profile _ => (requireApProfile profile).isOk = true → s.inner.mode = .manual
  | .applyMode wantAuto =>
    (s.handlers.erase (.persisted wantAuto)).any Handler.isPersisted = false → s.configAuto = wantAuto
  | .disconnect h =>
    h.isPersisted = true → (s.handlers.erase h).any Handler.isPersisted = false →
      s.configAuto = decide (s.inner.mode = .auto)
  | .lateWrite wantAuto ok =>
    ok = true → s.handlers.any Handler.isPersisted = false → wantAuto = decide (s.inner.mode = .auto)
  | .complete _ | .recordStopFailure | .healthDone _ _ => s.FailsDown
  | _ => True

instance (s : Hotspot) (a : Act) : Decidable (Careful s a) := by
  unfold Careful Hotspot.FailsDown
  split <;> infer_instance

end SentryUsb.Api.AwayMode
