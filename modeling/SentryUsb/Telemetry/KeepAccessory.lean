import SentryUsb.Library.Chronicle
import SentryUsb.Library.TransitionSystem

/-! # Keeping accessory power

The device is powered from an outlet that the car cuts when it parks. The policy asks the car to keep the outlet live: always
away from home, at home until the archive is done, and while the car charges. It runs once a tick, and remembers what it sent,
since the car cannot be asked (`keep_accessory.rs`).

* **`decideDesired`** — what is wanted now (`decide_desired`);
* **`Policy.evaluate`** — one tick: the timers, the wish, the command (`evaluate`);
* **`Justified`** — why a command may be sent;
* **`Steady`** — a tick that does not cut a charge that went on after it was complete;
* **`power_kept`** — every command of a run of such ticks is justified. -/

namespace SentryUsb.Telemetry.KeepAccessory

open Library

/-! ## What a tick sees -/

/-- The charge as the car reports it (`ChargingState`). -/
inductive ChargingState where
  | unknown
  | disconnected
  | noPower
  | starting
  | charging
  | complete
  | stopped
  | calibrating
  deriving DecidableEq

/-- Nanoseconds in a second. -/
def second : Nat := 1000000000

/-- `ARCHIVE_START_GRACE`. -/
def archiveStartGrace : Nat := 5 * 60 * second

/-- `CHARGE_HOLD_MAX`. -/
def chargeHoldMax : Nat := 18 * 60 * 60 * second

/-- `CHARGE_HOLD_HEARTBEAT`. -/
def chargeHoldHeartbeat : Nat := 5 * 60 * second

/-- `FAIL_NOTIFY_STREAK`. -/
def failNotifyStreak : Nat := 4

/-- The settings of the policy (`KeepAccessoryConfig`); of the home position, whether it is set. -/
structure Config where
  enabled : Bool
  homeSet : Bool
  holdForCharge : Bool
  chargeGraceMin : UInt64
  deriving DecidableEq

/-- The clock as one tick reads it, in the order of the readings. -/
structure Readings where
  arrival : Nat
  grace : Nat
  hold : Nat
  complete : Nat
  cap : Nat
  release : Nat
  beat : Nat
  deriving DecidableEq

/-- One tick: the settings, what is known of the car and the archive, and whether a command would arrive. Without a fix there
is no position; with one, what matters is whether the car is home. -/
structure Tick where
  cfg : Config
  home : Option Bool
  parked : Bool
  archiveActive : Bool
  radioHeld : Bool
  chargingState : Option ChargingState
  clock : Readings
  sendOk : Bool
  deriving DecidableEq

/-- The cable is connected, as far as the policy cares (`cable_connected`). -/
def Tick.cableConnected (t : Tick) : Bool :=
  t.cfg.holdForCharge && match t.chargingState with
    | some .starting | some .charging | some .calibrating | some .complete | some .stopped | some .noPower => true
    | _ => false

/-- The car stands at home and is plugged in (`charge_eligible`). -/
def Tick.chargeEligible (t : Tick) (home : Bool) : Bool := t.cfg.holdForCharge && home && t.parked && t.cableConnected

/-- The car is home and plugged in (`charge_session_live`). -/
def Tick.chargeSessionLive (t : Tick) (home : Bool) : Bool := t.cfg.holdForCharge && home && t.cableConnected

/-- How long power stays on after a charge is complete (`charge_grace`). -/
def Tick.chargeGrace (t : Tick) : Nat := min (t.cfg.chargeGraceMin.toNat * 60) (2 ^ 64 - 1) * second

/-! ## The policy -/

/-- Notifications, by what they say. -/
inductive Push where
  | holdingForCharge
  | chargeComplete
  | sentryPower
  | releasing (archiveSeen : Bool)
  | issue (desired : Bool)
  deriving DecidableEq

/-- What a tick leaves behind: that it ran, a notification, a line of the diary, a command and whether it arrived. -/
inductive Entry where
  | tick (t : Tick)
  | push (p : Push)
  | heartbeat (complete : Bool)
  | sent (desired ok : Bool)
  deriving DecidableEq

/-- What the policy remembers (`KeepAccessoryState`), and what it has done, the newest first. -/
structure Policy where
  lastSent : Option Bool := none
  homeArrival : Option Nat := none
  archiveSeenActive : Bool := false
  offlineNotified : Bool := false
  coverageNotified : Bool := false
  sendFailStreak : Nat := 0
  failNotified : Bool := false
  chargeHoldSince : Option Nat := none
  chargeCompleteAt : Option Nat := none
  chargeHbAt : Option Nat := none
  chargeHoldNotified : Bool := false
  chargeGraceNotified : Bool := false
  now : Nat := 0
  log : List Entry := []
  deriving DecidableEq

/-- What is wanted, and why; nothing while the car moves at home (`decide_desired`). -/
def decideDesired (home parked archiveActive archiveSeenActive graceExpired chargeHold chargeCompleteGrace
    chargeDone : Bool) : Option (Bool × String) :=
  if !home then some (true, "away from home")
  else if !parked then none
  else if archiveActive then some (true, "home, archiving — holding power")
  else if chargeHold then some (true, "home, plugged in — holding for charge")
  else if chargeCompleteGrace then some (true, "home, charge complete — releasing soon")
  else if chargeDone then some (false, "home, charge complete — releasing")
  else if archiveSeenActive then some (false, "home, archive finished — releasing")
  else if !graceExpired then some (true, "home, waiting for archive to start")
  else some (false, "home, nothing to archive — releasing")

namespace Policy

variable (s : Policy) (t : Tick) (home : Bool)

def note (e : Entry) : Policy := { s with log := e :: s.log }

/-- The arrival at home, and whether an archive ran since. -/
def arrive : Policy :=
  { s with
    homeArrival := if home && t.parked then some (s.homeArrival.getD t.clock.arrival) else none
    archiveSeenActive := t.archiveActive || (home && t.parked && s.homeArrival.isSome && s.archiveSeenActive) }

/-- The first time the charge was complete, while the car is held for it. -/
def markComplete : Policy :=
  if t.chargingState = some .complete ∧ s.chargeCompleteAt = none then { s with chargeCompleteAt := some t.clock.complete }
  else s

/-- The start of the hold. -/
def startHold : Policy :=
  if s.chargeHoldSince = none then { s with chargeHoldSince := some t.clock.hold, chargeCompleteAt := none } else s

/-- The hold for a charge: it lasts while the car is home and plugged in, also when it does not look parked. -/
def trackCharge : Policy :=
  if t.chargeEligible home then (s.startHold t).markComplete t
  else if s.chargeHoldSince.isSome && t.chargeSessionLive home then s
  else { s with
    chargeHoldSince := none, chargeCompleteAt := none, chargeHoldNotified := false, chargeGraceNotified := false }

/-- No archive has started for long enough (`grace_expired`). -/
def graceExpired : Bool := s.homeArrival.any fun since => decide (archiveStartGrace ≤ t.clock.grace - since)

/-- The hold has lasted as long as it may (`hold_capped`). -/
def holdCapped : Bool := s.chargeHoldSince.any fun since => decide (chargeHoldMax ≤ t.clock.cap - since)

/-- The charge was complete a short while ago (`complete_grace_active`). -/
def completeGraceActive : Bool := s.chargeCompleteAt.any fun since => decide (t.clock.release - since < t.chargeGrace)

def chargeDone : Bool :=
  t.chargeEligible home && (s.holdCapped t || (s.chargeCompleteAt.isSome && !s.completeGraceActive t))

def chargeCompleteGrace : Bool := t.chargeEligible home && !s.chargeDone t home && s.completeGraceActive t

def chargeHold : Bool := t.chargeEligible home && !s.chargeDone t home && !s.chargeCompleteGrace t home

/-- What the policy wants now. -/
def desired : Option (Bool × String) :=
  decideDesired home t.parked t.archiveActive s.archiveSeenActive (s.graceExpired t) (s.chargeHold t home)
    (s.chargeCompleteGrace t home) (s.chargeDone t home)

/-- The notification that power is held for a charge, once. -/
def announceHold (hold : Bool) : Policy :=
  if hold && !s.chargeHoldNotified then { s.note (.push .holdingForCharge) with chargeHoldNotified := true } else s

/-- The notification that the charge is complete, once. -/
def announceComplete (completeGrace : Bool) : Policy :=
  if completeGrace && !s.chargeGraceNotified then { s.note (.push .chargeComplete) with chargeGraceNotified := true } else s

/-- A line in the diary every few minutes. -/
def heartbeat (hold completeGrace : Bool) : Policy :=
  if hold || completeGrace then
    if s.chargeHbAt.all fun since => decide (chargeHoldHeartbeat ≤ t.clock.beat - since) then
      { s.note (.heartbeat completeGrace) with chargeHbAt := some t.clock.beat }
    else s
  else { s with chargeHbAt := none }

/-- The notification that power is kept on away from home, once. -/
def announceCoverage (desired : Bool) : Policy :=
  if desired && !home && !s.coverageNotified then { s.note (.push .sentryPower) with coverageNotified := true }
  else if home then { s with coverageNotified := false }
  else s

/-- The notification that power goes off, before it does. -/
def announceRelease (desired : Bool) : Policy :=
  if desired then { s with offlineNotified := false }
  else if !s.offlineNotified then { s.note (.push (.releasing s.archiveSeenActive)) with offlineNotified := true }
  else s

/-- A command that did not arrive. -/
def missed (desired : Bool) : Policy :=
  { s.note (.sent desired false) with sendFailStreak := min (s.sendFailStreak + 1) (2 ^ 32 - 1) }

/-- The notification that commands keep failing, once. -/
def reportFailure (desired : Bool) : Policy :=
  if failNotifyStreak ≤ s.sendFailStreak ∧ s.failNotified = false then
    { s.note (.push (.issue desired)) with failNotified := true }
  else s

/-- The command, and what follows from its arrival (`send_action`). -/
def send (desired : Bool) : Policy :=
  if t.sendOk then { s.note (.sent desired true) with lastSent := some desired, sendFailStreak := 0, failNotified := false }
  else (s.missed desired).reportFailure desired

/-- The wish is sent when it is a new one and the radio is held. -/
def command (desired : Bool) : Policy :=
  let s := s.announceCoverage home desired
  if s.lastSent = some desired ∨ t.radioHeld = false then s else (s.announceRelease desired).send t desired

/-- The timers of a tick with a fix. -/
def tracked : Policy := ((s.note (.tick t)).arrive t home).trackCharge t home

/-- The notifications and the diary. -/
def announced : Policy :=
  let s := s.tracked t home
  let hold := s.chargeHold t home
  let completeGrace := s.chargeCompleteGrace t home
  ((s.announceHold hold).announceComplete completeGrace).heartbeat t hold completeGrace

/-- What a tick with a fix does. -/
def act : Policy :=
  ((s.tracked t home).desired t home).elim (s.announced t home) fun d => (s.announced t home).command t home d.1

/-- One tick (`evaluate`). Without a fix everything stays. -/
def evaluate : Policy :=
  if t.cfg.enabled && t.cfg.homeSet then t.home.elim s fun home => s.act t home else s

end Policy

/-- The readings of a tick are in order, and after those of the tick before. -/
def Readings.follows (r : Readings) (now : Nat) : Bool :=
  decide (now ≤ r.arrival ∧ r.arrival ≤ r.grace ∧ r.grace ≤ r.hold ∧ r.hold ≤ r.complete ∧ r.complete ≤ r.cap ∧
    r.cap ≤ r.release ∧ r.release ≤ r.beat)

/-- One tick after another. -/
def step (s : Policy) (t : Tick) : Option Policy :=
  if t.clock.follows s.now then some { s.evaluate t with now := t.clock.beat } else none

/-! ## Why a command may be sent -/

/-- The tick of an entry. -/
def Entry.tick? : Entry → Option Tick
  | .tick t => some t
  | _ => none

/-- What an entry made the car do. -/
def Entry.arrived? : Entry → Option Bool
  | .sent desired true => some desired
  | _ => none

/-- The ticks with a fix, the newest first. -/
def ticks (log : List Entry) : List Tick := log.filterMap Entry.tick?

/-- The last command that arrived. -/
def lastArrived (log : List Entry) : Option Bool := log.findSome? Entry.arrived?

/-- The plug-in session of the newest tick has been held since then: a tick found the car parked at home and plugged in, and it
was home and plugged in on every tick since. -/
def HeldSince (since : Nat) (ts : List Tick) : Prop :=
  ∃ later first earlier, ts = later ++ first :: earlier ∧ first.clock.hold = since ∧
    (first.home = some true ∧ first.parked = true ∧ first.cableConnected = true) ∧
    ∀ u ∈ later, u.home = some true ∧ u.cableConnected = true

/-- The release was announced, and no command for power has arrived since. -/
def Announced (past : List Entry) : Prop :=
  ∃ later archiveSeen earlier, past = later ++ .push (.releasing archiveSeen) :: earlier ∧ .sent true true ∉ later

/-- The newest tick may cut power. -/
structure MayCut (ts : List Tick) : Prop where
  /-- The car is parked at home, and no archive runs. -/
  home : ∃ t, ts.head? = some t ∧ t.home = some true ∧ t.parked = true ∧ t.archiveActive = false
  /-- A charge that is not complete is cut only when its session has been held as long as it may. -/
  held : ∀ t, ts.head? = some t → t.cableConnected = true → t.chargingState ≠ some .complete →
    ∃ since, HeldSince since ts ∧ chargeHoldMax ≤ t.clock.cap - since

/-- Why a command may be sent, given what was before it. -/
structure Justified (desired : Bool) (past : List Entry) : Prop where
  /-- It differs from the last one that arrived. -/
  new : lastArrived past ≠ some desired
  cut : desired = false → MayCut (ticks past)
  announced : desired = false → Announced past

/-- Every command is justified by what was before it. -/
def Allowed : Entry → List Entry → Prop
  | .sent desired _, past => Justified desired past
  | _, _ => True

/-- The tick would cut a charge that goes on although it was complete once: its grace is over, and nothing else keeps power
on. -/
def Policy.cutsCharge (s : Policy) (t : Tick) : Bool :=
  t.cfg.enabled && t.cfg.homeSet && decide (t.home = some true) && t.chargeEligible true
    && decide (t.chargingState ≠ some .complete) && !t.archiveActive
    && s.chargeHoldSince.isSome && s.chargeCompleteAt.isSome && !s.completeGraceActive t && !s.holdCapped t
    && t.radioHeld && decide (s.lastSent ≠ some false)

/-- Power is held for charges, and the tick does not cut one that went on after it was complete. -/
def Steady (s : Policy) (t : Tick) : Prop := t.cfg.holdForCharge = true ∧ s.cutsCharge t = false

/-! ## One tick -/

section OneTick

variable {s : Policy} {t : Tick} {home : Bool} {desired : Bool} {why : String}

/-- What holds of the policy between its ticks, and inside them. -/
structure Inv (s : Policy) : Prop where
  chronicle : Chronicle Allowed s.log
  lastSent : s.lastSent = lastArrived s.log
  announced : s.offlineNotified = true → Announced s.log
  held : ∀ since, s.chargeHoldSince = some since → HeldSince since (ticks s.log)

/-- An entry that is neither a tick nor a command. -/
def Entry.quiet : Entry → Bool
  | .push _ => true
  | .heartbeat _ => true
  | _ => false

theorem Entry.allowed_of_quiet {e : Entry} {past : List Entry} (h : e.quiet = true) : Allowed e past := by
  cases e with
  | push p => trivial
  | heartbeat c => trivial
  | tick t => exact nomatch h
  | sent d ok => exact nomatch h

theorem ticks_of_quiet {e : Entry} {log : List Entry} (h : e.quiet = true) : ticks (e :: log) = ticks log := by
  cases e with
  | push p => rfl
  | heartbeat c => rfl
  | tick t => exact nomatch h
  | sent d ok => exact nomatch h

theorem lastArrived_of_quiet {e : Entry} {log : List Entry} (h : e.quiet = true) :
    lastArrived (e :: log) = lastArrived log := by
  cases e with
  | push p => rfl
  | heartbeat c => rfl
  | tick t => exact nomatch h
  | sent d ok => exact nomatch h

/-- The announcement still stands after anything but power that came on. -/
theorem Announced.cons {e : Entry} {past : List Entry} (h : Announced past) (he : e ≠ .sent true true) :
    Announced (e :: past) := by
  obtain ⟨later, archiveSeen, earlier, rfl, hlater⟩ := h
  refine ⟨e :: later, archiveSeen, earlier, rfl, fun hmem => ?_⟩
  rcases List.mem_cons.mp hmem with heq | hmem
  · exact he heq.symm
  · exact hlater hmem

/-- Nothing is written but a notification or a line of the diary. -/
theorem Inv.quiet {s' : Policy} {e : Entry} (h : Inv s) (he : e.quiet = true) (hlog : s'.log = e :: s.log)
    (hsent : s'.lastSent = s.lastSent) (hoffline : s'.offlineNotified = s.offlineNotified)
    (hhold : s'.chargeHoldSince = s.chargeHoldSince) : Inv s' where
  chronicle := by
    rw [hlog]
    exact ⟨e.allowed_of_quiet he, h.chronicle⟩
  lastSent := by rw [hlog, hsent, lastArrived_of_quiet he, h.lastSent]
  announced hnotified := by
    rw [hlog]
    refine (h.announced (hoffline ▸ hnotified)).cons fun heq => ?_
    rw [heq] at he
    exact nomatch he
  held since hsince := by
    rw [hlog, ticks_of_quiet he]
    exact h.held since (hhold ▸ hsince)

/-- Nothing is written at all. -/
theorem Inv.congr {s' : Policy} (h : Inv s) (hlog : s'.log = s.log) (hsent : s'.lastSent = s.lastSent)
    (hoffline : s'.offlineNotified = s.offlineNotified) (hhold : s'.chargeHoldSince = s.chargeHoldSince) : Inv s' where
  chronicle := hlog ▸ h.chronicle
  lastSent := by rw [hlog, hsent, h.lastSent]
  announced hnotified := hlog ▸ h.announced (hoffline ▸ hnotified)
  held since hsince := hlog ▸ h.held since (hhold ▸ hsince)

/-! ### The timers -/

/-- A session goes on while the car is home and plugged in. -/
theorem HeldSince.cons {since : Nat} {ts : List Tick} (h : HeldSince since ts) (hhome : t.home = some true)
    (hcable : t.cableConnected = true) : HeldSince since (t :: ts) := by
  obtain ⟨later, first, earlier, rfl, hsince, hfirst, hlater⟩ := h
  refine ⟨t :: later, first, earlier, rfl, hsince, hfirst, fun u hu => ?_⟩
  rcases List.mem_cons.mp hu with rfl | hu
  · exact ⟨hhome, hcable⟩
  · exact hlater u hu

theorem Tick.chargeEligible_iff :
    t.chargeEligible home = true ↔
      t.cfg.holdForCharge = true ∧ home = true ∧ t.parked = true ∧ t.cableConnected = true := by
  simp only [chargeEligible, Bool.and_eq_true, and_assoc]

theorem Tick.chargeSessionLive_iff :
    t.chargeSessionLive home = true ↔ t.cfg.holdForCharge = true ∧ home = true ∧ t.cableConnected = true := by
  simp only [chargeSessionLive, Bool.and_eq_true, and_assoc]

namespace Policy

/-- What the timers of a tick leave alone. -/
structure OnlyTimers (s s' : Policy) : Prop where
  log : s'.log = s.log
  lastSent : s'.lastSent = s.lastSent
  offlineNotified : s'.offlineNotified = s.offlineNotified

theorem OnlyTimers.trans {s s' s'' : Policy} (h : OnlyTimers s s') (h' : OnlyTimers s' s'') : OnlyTimers s s'' where
  log := h'.log.trans h.log
  lastSent := h'.lastSent.trans h.lastSent
  offlineNotified := h'.offlineNotified.trans h.offlineNotified

theorem onlyTimers_startHold (s : Policy) (t : Tick) : OnlyTimers s (s.startHold t) := by
  rw [startHold]
  split
  · exact ⟨rfl, rfl, rfl⟩
  · exact ⟨rfl, rfl, rfl⟩

theorem onlyTimers_markComplete (s : Policy) (t : Tick) : OnlyTimers s (s.markComplete t) := by
  rw [markComplete]
  split
  · exact ⟨rfl, rfl, rfl⟩
  · exact ⟨rfl, rfl, rfl⟩

theorem onlyTimers_trackCharge (s : Policy) (t : Tick) (home : Bool) : OnlyTimers s (s.trackCharge t home) := by
  rw [trackCharge]
  split
  · exact (onlyTimers_startHold s t).trans (onlyTimers_markComplete _ t)
  · split
    · exact ⟨rfl, rfl, rfl⟩
    · exact ⟨rfl, rfl, rfl⟩

theorem onlyTimers_tracked (s : Policy) (t : Tick) (home : Bool) : OnlyTimers (s.note (.tick t)) (s.tracked t home) :=
  (show OnlyTimers (s.note (.tick t)) ((s.note (.tick t)).arrive t home) from ⟨rfl, rfl, rfl⟩).trans
    (onlyTimers_trackCharge _ t home)

/-- The hold starts once. -/
theorem startHold_chargeHoldSince (s : Policy) (t : Tick) :
    (s.startHold t).chargeHoldSince = some (s.chargeHoldSince.getD t.clock.hold) := by
  rw [startHold]
  cases h : s.chargeHoldSince with
  | none => rfl
  | some since =>
    rw [if_neg (by simp), h]
    rfl

theorem markComplete_chargeHoldSince (s : Policy) (t : Tick) : (s.markComplete t).chargeHoldSince = s.chargeHoldSince := by
  rw [markComplete]
  split
  · rfl
  · rfl

/-- A hold that is on after a tick: the car is home and plugged in, and the hold was on before, or it started at this tick,
with the car parked. -/
theorem tracked_chargeHoldSince {since : Nat} (h : (s.tracked t home).chargeHoldSince = some since) :
    home = true ∧ t.cableConnected = true ∧
      (s.chargeHoldSince = some since ∨ t.parked = true ∧ t.clock.hold = since) := by
  rw [tracked, trackCharge] at h
  split at h
  · next heligible =>
    obtain ⟨-, hhome, hparked, hcable⟩ := Tick.chargeEligible_iff.mp heligible
    rw [markComplete_chargeHoldSince, startHold_chargeHoldSince] at h
    refine ⟨hhome, hcable, ?_⟩
    cases hbefore : s.chargeHoldSince with
    | none => exact Or.inr ⟨hparked, by simpa [arrive, note, hbefore] using h⟩
    | some before => exact Or.inl (by simpa [arrive, note, hbefore] using h)
  · split at h
    · next hlive =>
      obtain ⟨-, hsession⟩ := Bool.and_eq_true_iff.mp hlive
      obtain ⟨-, hhome, hcable⟩ := Tick.chargeSessionLive_iff.mp hsession
      exact ⟨hhome, hcable, Or.inl h⟩
    · exact nomatch h

/-- While the car is held and the charge is not complete, a completed charge is one from before the tick. -/
theorem tracked_chargeCompleteAt {since : Nat} (heligible : t.chargeEligible home = true)
    (hstate : t.chargingState ≠ some .complete) (h : (s.tracked t home).chargeCompleteAt = some since) :
    s.chargeHoldSince.isSome = true ∧ s.chargeCompleteAt = some since := by
  rw [tracked, trackCharge, if_pos heligible, markComplete, if_neg fun hcomplete => hstate hcomplete.1, startHold] at h
  split at h
  · exact nomatch h
  · next hhold => exact ⟨Option.isSome_iff_ne_none.mpr hhold, h⟩

end Policy

/-- The timers keep the invariant: a session that starts or goes on is one of the ticks. -/
theorem Inv.tracked (h : Inv s) (hhome : t.home = some home) : Inv (s.tracked t home) := by
  have honly := s.onlyTimers_tracked t home
  refine ⟨?_, ?_, fun hnotified => ?_, fun since hsince => ?_⟩
  · rw [honly.log]
    exact ⟨trivial, h.chronicle⟩
  · rw [honly.log, honly.lastSent]
    exact h.lastSent
  · rw [honly.log]
    exact (h.announced (honly.offlineNotified ▸ hnotified)).cons (by simp)
  · rw [honly.log]
    obtain ⟨rfl, hcable, hbefore | ⟨hparked, hstart⟩⟩ := Policy.tracked_chargeHoldSince hsince
    · exact (h.held since hbefore).cons hhome hcable
    · exact ⟨[], t, ticks s.log, rfl, hstart, ⟨hhome, hparked, hcable⟩, fun _ hu => nomatch hu⟩

/-! ### Notifications -/

/-- What the notifications of a tick leave alone. -/
structure Policy.OnlyNotes (s s' : Policy) : Prop where
  lastSent : s'.lastSent = s.lastSent
  ticks : ticks s'.log = ticks s.log

theorem Policy.OnlyNotes.trans {s s' s'' : Policy} (h : OnlyNotes s s') (h' : OnlyNotes s' s'') : OnlyNotes s s'' :=
  ⟨h'.lastSent.trans h.lastSent, h'.ticks.trans h.ticks⟩

/-- A step that keeps the invariant and only writes notes. -/
structure Keeps (s s' : Policy) : Prop where
  inv : Inv s → Inv s'
  notes : s.OnlyNotes s'

theorem Keeps.refl (s : Policy) : Keeps s s := ⟨id, rfl, rfl⟩

theorem Keeps.trans {s s' s'' : Policy} (h : Keeps s s') (h' : Keeps s' s'') : Keeps s s'' :=
  ⟨h'.inv ∘ h.inv, h.notes.trans h'.notes⟩

theorem keeps_announceHold (s : Policy) (hold : Bool) : Keeps s (s.announceHold hold) := by
  rw [Policy.announceHold]
  split
  · exact ⟨fun h => h.quiet (e := .push .holdingForCharge) rfl rfl rfl rfl rfl, rfl, rfl⟩
  · exact Keeps.refl s

theorem keeps_announceComplete (s : Policy) (completeGrace : Bool) : Keeps s (s.announceComplete completeGrace) := by
  rw [Policy.announceComplete]
  split
  · exact ⟨fun h => h.quiet (e := .push .chargeComplete) rfl rfl rfl rfl rfl, rfl, rfl⟩
  · exact Keeps.refl s

theorem keeps_heartbeat (s : Policy) (t : Tick) (hold completeGrace : Bool) : Keeps s (s.heartbeat t hold completeGrace) := by
  rw [Policy.heartbeat]
  split
  · split
    · exact ⟨fun h => h.quiet (e := .heartbeat completeGrace) rfl rfl rfl rfl rfl, rfl, rfl⟩
    · exact Keeps.refl s
  · exact ⟨fun h => h.congr rfl rfl rfl rfl, rfl, rfl⟩

theorem keeps_announced (s : Policy) (t : Tick) (home : Bool) : Keeps (s.tracked t home) (s.announced t home) :=
  (keeps_announceHold _ _).trans ((keeps_announceComplete _ _).trans (keeps_heartbeat _ t _ _))

theorem keeps_announceCoverage (s : Policy) (home desired : Bool) : Keeps s (s.announceCoverage home desired) := by
  rw [Policy.announceCoverage]
  split
  · exact ⟨fun h => h.quiet (e := .push .sentryPower) rfl rfl rfl rfl rfl, rfl, rfl⟩
  · split
    · exact ⟨fun h => h.congr rfl rfl rfl rfl, rfl, rfl⟩
    · exact Keeps.refl s

theorem keeps_reportFailure (s : Policy) (desired : Bool) : Keeps s (s.reportFailure desired) := by
  rw [Policy.reportFailure]
  split
  · exact ⟨fun h => h.quiet (e := .push (.issue desired)) rfl rfl rfl rfl rfl, rfl, rfl⟩
  · exact Keeps.refl s

/-- The release is announced before power goes off; before it comes on, the announcement is taken back. -/
theorem Inv.announceRelease (h : Inv s) (desired : Bool) :
    Inv (s.announceRelease desired) ∧ (s.announceRelease desired).offlineNotified = !desired := by
  cases desired with
  | true =>
    exact ⟨⟨h.chronicle, h.lastSent, fun hnotified => (nomatch hnotified), h.held⟩, rfl⟩
  | false =>
    rw [Policy.announceRelease, if_neg (by simp)]
    split
    · refine ⟨⟨⟨trivial, h.chronicle⟩, h.lastSent, fun _ => ?_, h.held⟩, rfl⟩
      exact ⟨[], s.archiveSeenActive, s.log, rfl, List.not_mem_nil⟩
    · next hnotified =>
      exact ⟨h, by simpa using hnotified⟩

theorem onlyNotes_announceRelease (s : Policy) (desired : Bool) : s.OnlyNotes (s.announceRelease desired) := by
  rw [Policy.announceRelease]
  split
  · exact ⟨rfl, rfl⟩
  · split
    · exact ⟨rfl, rfl⟩
    · exact ⟨rfl, rfl⟩

/-! ### Commands -/

/-- A justified command keeps the invariant, whether it arrives or not. -/
theorem Inv.send (h : Inv s) (hjust : Justified desired s.log) (hnotified : s.offlineNotified = !desired) :
    Inv (s.send t desired) := by
  have hstanding : ∀ ok, s.offlineNotified = true → Announced (.sent desired ok :: s.log) := fun ok hs => by
    refine (h.announced hs).cons fun heq => ?_
    rw [hnotified, Bool.not_eq_true'] at hs
    injection heq with hdesired
    exact Bool.noConfusion (hs.symm.trans hdesired)
  rw [Policy.send]
  split
  · exact ⟨⟨hjust, h.chronicle⟩, rfl, hstanding true, h.held⟩
  · exact (keeps_reportFailure _ desired).inv ⟨⟨hjust, h.chronicle⟩, h.lastSent, hstanding false, h.held⟩

/-- A wish that is new and may be sent is sent. -/
theorem Inv.command (h : Inv s)
    (hcut : desired = false → t.radioHeld = true → s.lastSent ≠ some false → MayCut (ticks s.log)) :
    Inv (s.command t home desired) := by
  have hcoverage := keeps_announceCoverage s home desired
  set s' := s.announceCoverage home desired with hs'
  have hinv : Inv s' := hcoverage.inv h
  rw [Policy.command, ← hs']
  split
  · exact hinv
  · next hsend =>
    obtain ⟨hnew, hradio⟩ := not_or.mp hsend
    obtain ⟨hrelease, hnotified⟩ := hinv.announceRelease desired
    have hnotes := onlyNotes_announceRelease s' desired
    refine hrelease.send ⟨?_, fun hoff => ?_, fun hoff => ?_⟩ hnotified
    · rw [← hrelease.lastSent, hnotes.lastSent]
      exact hnew
    · rw [hnotes.ticks, hcoverage.notes.ticks]
      refine hcut hoff (by simpa using hradio) ?_
      rw [← hcoverage.notes.lastSent, ← hoff]
      exact hnew
    · refine hrelease.announced ?_
      rw [hnotified, hoff]
      rfl

/-! ### The wish -/

/-- Power is wanted off only at home, parked, with no archive, and with no reason left to hold it for a charge. -/
theorem decideDesired_off {parked archiveActive archiveSeenActive graceExpired chargeHold completeGrace chargeDone : Bool}
    (h : decideDesired home parked archiveActive archiveSeenActive graceExpired chargeHold completeGrace chargeDone =
      some (false, why)) :
    home = true ∧ parked = true ∧ archiveActive = false ∧ chargeHold = false ∧ completeGrace = false := by
  cases home with
  | false => exact nomatch h
  | true =>
    cases parked with
    | false => exact nomatch h
    | true =>
      cases archiveActive with
      | true => exact nomatch h
      | false =>
        cases chargeHold with
        | true => exact nomatch h
        | false =>
          cases completeGrace with
          | true => exact nomatch h
          | false => exact ⟨rfl, rfl, rfl, rfl, rfl⟩

/-- A car that is held for its charge, and neither holds nor releases soon, is done. -/
theorem Policy.chargeDone_of_released (heligible : t.chargeEligible home = true) (hhold : s.chargeHold t home = false)
    (hgrace : s.chargeCompleteGrace t home = false) :
    s.holdCapped t = true ∨ s.chargeCompleteAt.isSome = true ∧ s.completeGraceActive t = false := by
  have hdone : s.chargeDone t home = true := by
    rw [chargeHold, heligible, hgrace] at hhold
    simpa using hhold
  rw [chargeDone, heligible, Bool.true_and, Bool.or_eq_true, Bool.and_eq_true, Bool.not_eq_true'] at hdone
  exact hdone

theorem Policy.holdCapped_iff :
    s.holdCapped t = true ↔ ∃ since, s.chargeHoldSince = some since ∧ chargeHoldMax ≤ t.clock.cap - since := by
  rw [holdCapped]
  cases s.chargeHoldSince with
  | none => simp
  | some since => simp

/-- While the car is held, a hold from before the tick is capped when it is capped now. -/
theorem Policy.holdCapped_tracked (heligible : t.chargeEligible home = true) (hhold : s.chargeHoldSince.isSome = true) :
    (s.tracked t home).holdCapped t = s.holdCapped t := by
  obtain ⟨since, hsince⟩ := Option.isSome_iff_exists.mp hhold
  have hsame : (s.tracked t home).chargeHoldSince = s.chargeHoldSince := by
    rw [tracked, trackCharge, if_pos heligible, markComplete_chargeHoldSince, startHold_chargeHoldSince]
    simp [arrive, note, hsince]
  rw [holdCapped, holdCapped, hsame]

/-- A tick that wants power off, and would send it, may do so. -/
theorem mayCut_of_desired (why : String) (h : Inv s) (hhome : t.home = some home) (hon : (t.cfg.enabled && t.cfg.homeSet) = true)
    (hsteady : Steady s t) (hdesired : (s.tracked t home).desired t home = some (false, why)) (hradio : t.radioHeld = true)
    (hnew : s.lastSent ≠ some false) : MayCut (ticks (s.tracked t home).log) := by
  obtain ⟨rfl, hparked, harchive, hhold, hgrace⟩ := decideDesired_off hdesired
  have hlog := (s.onlyTimers_tracked t true).log
  have hhead : (ticks (s.tracked t true).log).head? = some t := by
    rw [hlog]
    rfl
  refine ⟨⟨t, hhead, hhome, hparked, harchive⟩, fun u hu hcable hstate => ?_⟩
  obtain rfl : u = t := Option.some.inj (hu.symm.trans hhead)
  have heligible : u.chargeEligible true = true := Tick.chargeEligible_iff.mpr ⟨hsteady.1, rfl, hparked, hcable⟩
  rcases Policy.chargeDone_of_released heligible hhold hgrace with hcapped | ⟨hcomplete, hover⟩
  · obtain ⟨since, hsince, hmax⟩ := Policy.holdCapped_iff.mp hcapped
    exact ⟨since, (h.tracked hhome).held since hsince, hmax⟩
  · -- complete once, and going on: the tick is steady, so the hold is capped all the same
    obtain ⟨done, hdone⟩ := Option.isSome_iff_exists.mp hcomplete
    obtain ⟨hheld, hbefore⟩ := Policy.tracked_chargeCompleteAt heligible hstate hdone
    have hoverBefore : s.completeGraceActive u = false := by
      rw [Policy.completeGraceActive, hbefore, ← hdone]
      exact hover
    have hcapped : s.holdCapped u = true := by
      by_contra huncapped
      refine absurd hsteady.2 ?_
      simp [Policy.cutsCharge, hon, hhome, heligible, hstate, harchive, hheld, hbefore, hoverBefore, huncapped, hradio, hnew]
    rw [← Policy.holdCapped_tracked heligible hheld] at hcapped
    obtain ⟨since, hsince, hmax⟩ := Policy.holdCapped_iff.mp hcapped
    exact ⟨since, (h.tracked hhome).held since hsince, hmax⟩

/-- A tick keeps the invariant. -/
theorem Inv.evaluate (h : Inv s) (hsteady : Steady s t) : Inv (s.evaluate t) := by
  rw [Policy.evaluate]
  split
  · next hon =>
    cases hhome : t.home with
    | none => exact h
    | some home =>
      have hannounced := keeps_announced s t home
      have hinv := hannounced.inv (h.tracked hhome)
      show Inv (s.act t home)
      rw [Policy.act]
      cases hdesired : (s.tracked t home).desired t home with
      | none => exact hinv
      | some d =>
        refine hinv.command fun hoff hradio hnew => ?_
        rw [hannounced.notes.ticks]
        refine mayCut_of_desired d.2 h hhome hon hsteady ?_ hradio ?_
        · rw [hdesired, ← hoff]
        · rw [hannounced.notes.lastSent, (s.onlyTimers_tracked t home).lastSent] at hnew
          exact hnew
  · exact h

end OneTick

/-! ## Runs -/

theorem inv_start : Inv {} where
  chronicle := chronicle_nil
  lastSent := rfl
  announced h := nomatch h
  held _ h := nomatch h

theorem Inv.step {s s' : Policy} {t : Tick} (h : Inv s) (hsteady : Steady s t) (htaken : step s t = some s') : Inv s' := by
  rw [KeepAccessory.step] at htaken
  split at htaken
  · rw [← Option.some.inj htaken]
    exact (h.evaluate hsteady).congr rfl rfl rfl rfl
  · exact nomatch htaken

/-- Every command of a run is justified, if no tick cuts a charge that went on after it was complete. -/
theorem power_kept {s : Policy} (h : Reaches step Steady {} s) : Chronicle Allowed s.log :=
  (h.invariant inv_start fun _ _ _ hinv hsteady htaken => hinv.step hsteady htaken).chronicle

/-- Power is held for charges, and released 45 minutes after one is complete. -/
def holding : Config := ⟨true, true, true, 45⟩

/-- Minutes in nanoseconds. -/
def minutes (n : Nat) : Nat := n * 60 * second

/-- A tick with a fix, without an archive, whose command arrives; its readings fall together. -/
def tickAt (time : Nat) (home : Bool) (state : ChargingState) : Tick :=
  ⟨holding, some home, home, false, true, some state, ⟨time, time, time, time, time, time, time⟩, true⟩

instance (s : Policy) (t : Tick) : Decidable (Steady s t) := inferInstanceAs (Decidable (_ ∧ _))

/-- The car comes home, is plugged in, and still charges when it has been held as long as it may. -/
def longCharge : List Tick :=
  [tickAt (minutes 1) false .disconnected, tickAt (minutes 60) true .charging, tickAt (minutes 1140) true .charging]

theorem isSome_longCharge : (run (guarded step Steady) {} longCharge).isSome = true := by decide +kernel

/-- Power goes off in a charge that was held for eighteen hours. -/
theorem power_kept_longCharge :
    ((run (guarded step Steady) {} longCharge).get isSome_longCharge).lastSent = some false ∧
      Chronicle Allowed ((run (guarded step Steady) {} longCharge).get isSome_longCharge).log :=
  ⟨by decide +kernel, power_kept (reaches_of_run_guarded (Option.some_get _).symm)⟩

/-- The charge is complete, goes on a while later, and outlasts the release. -/
def resumedCharge : List Tick :=
  [tickAt (minutes 1) false .disconnected, tickAt (minutes 60) true .charging, tickAt (minutes 120) true .complete,
    tickAt (minutes 140) true .charging, tickAt (minutes 165) true .charging]

theorem isSome_resumedCharge : (run step {} resumedCharge).isSome = true := by decide +kernel

/-- The last entry of its history is the command, sent on its last tick. -/
theorem log_resumedCharge :
    ∃ past, ((run step {} resumedCharge).get isSome_resumedCharge).log = .sent false true :: past ∧
      (ticks past).head? = some (tickAt (minutes 165) true .charging) := by
  refine ⟨((run step {} resumedCharge).get isSome_resumedCharge).log.tail, ?_, ?_⟩
  · decide +kernel
  · decide +kernel

/-- Power goes off in a charge that goes on, an hour and three quarters into its session. -/
theorem not_power_kept :
    ¬ ∀ ticks s, (∀ t ∈ ticks, t.cfg.holdForCharge = true) → run step {} ticks = some s → Chronicle Allowed s.log := by
  intro h
  have hchronicle := h resumedCharge _ (by decide) (Option.some_get isSome_resumedCharge).symm
  obtain ⟨past, hlog, htick⟩ := log_resumedCharge
  rw [hlog] at hchronicle
  obtain ⟨since, -, hmax⟩ := (hchronicle.1.cut rfl).held _ htick (by decide) (by decide)
  have hcap : (tickAt (minutes 165) true .charging).clock.cap < chargeHoldMax := by decide
  omega

end SentryUsb.Telemetry.KeepAccessory
