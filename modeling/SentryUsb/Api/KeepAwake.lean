import SentryUsb.Library.TransitionSystem
import SentryUsb.Library.Tasks
import SentryUsb.Grouper.Clip

/-! # The keep-awake session

The web interface keeps the car awake by a session, started by hand or by the heartbeats of an open page. While the
system is busy a session waits; once active it ends when it is stopped or runs out. A session that is not idle has the
want `webui` registered. Each section under the manager's lock is one step; the want is released after the lock, and a
session that has run out is found in one section and ended in another.

* **`start`**, **`heartbeat`**, **`stop`** — the calls (`keep_awake.rs`);
* **`Task`** — where the waiter and the watcher of a session stand, and calls between two of their sections;
* **`Agrees`** — what steps keep: the want is the session's, the session has its one task;
* **`session_agrees`** — in runs that start no session before the last one's want is released, and extend none that was
  found to have run out. -/

namespace SentryUsb.Api.KeepAwake

open Library

/-! ## State -/

inductive KaState where
  | idle
  | pending
  | active
  deriving DecidableEq, Repr

/-- Tasks, at the points between their sections. -/
inductive Task where
  /-- `wait_for_idle_then_start` before it takes the notification. -/
  | waiter (epoch : Nat)
  /-- It sleeps; `woken` once the notification was sent. -/
  | waiting (epoch notify : Nat) (woken : Bool)
  /-- It has slept. -/
  | rechecking (epoch notify : Nat)
  /-- It is still wanted, and looks whether the system is busy. -/
  | idling (epoch notify : Nat)
  /-- The system was idle. -/
  | activating (epoch : Nat)
  /-- It has activated the session. -/
  | launching (epoch : Nat)
  /-- `expiration_watcher` before it takes the notification. -/
  | watcher (epoch : Nat)
  | watching (epoch notify : Nat) (woken : Bool)
  | judging (epoch notify : Nat)
  /-- It has found that the session ran out. -/
  | expiring (epoch : Nat)
  /-- A session was ended, its want is still registered. -/
  | releasing
  /-- A heartbeat that found no session. -/
  | starting
  deriving DecidableEq, Repr

/-- The manager, the want, the clock and the tasks. Times and durations are in nanoseconds. -/
structure Manager where
  state : KaState
  mode : Text
  expiresAt : Option Int
  startedAt : Option Int
  pendingDuration : Nat
  epoch : Nat
  /-- Which notification `stop_notify` is. -/
  notify : Nat
  want : Bool
  clock : Int
  tasks : List Task
  deriving DecidableEq, Repr

/-- A manager as it is made at startup, which clears the wants. -/
def new (clock : Int) : Manager := ⟨.idle, [], none, none, 0, 0, 0, false, clock, []⟩

/-- The end of `SystemTime`: an addition beyond it panics, and a panic aborts the process. -/
def timeMax : Int := 2 ^ 63 * 1000000000 - 1

/-- `SystemTime + Duration`. -/
def addDuration (t : Int) (d : Nat) : Option Int := if t + d ≤ timeMax then some (t + d) else none

/-- `AUTO_TIMEOUT`. -/
def autoTimeout : Nat := 10 * 60 * 1000000000

/-- The mode of heartbeats. -/
def autoMode : Text := "auto".toList

/-! ## Calls -/

/-- `start`. -/
def start (mode : Text) (duration : Nat) (busy : Bool) (s : Manager) : Manager :=
  match s.state with
  | .active =>
    match addDuration s.clock duration with
    | some t => { s with expiresAt := some t, mode }
    | none => new s.clock
  | .pending => { s with pendingDuration := duration, mode }
  | .idle =>
    let begun := { s with epoch := s.epoch + 1, mode, pendingDuration := duration, notify := s.notify + 1, want := true }
    if busy then { begun with state := .pending, tasks := .waiter (s.epoch + 1) :: s.tasks }
    else
      match addDuration s.clock duration with
      | some t =>
        { begun with
          state := .active
          startedAt := some s.clock
          expiresAt := some t
          tasks := .watcher (s.epoch + 1) :: s.tasks }
      | none => new s.clock

/-- The first section of `heartbeat`. -/
def heartbeat (s : Manager) : Manager :=
  match s.state with
  | .active =>
    if s.mode = autoMode then
      match addDuration s.clock autoTimeout with
      | some t => { s with expiresAt := some t }
      | none => new s.clock
    else s
  | .pending => if s.mode = autoMode then { s with pendingDuration := autoTimeout } else s
  | .idle => { s with tasks := .starting :: s.tasks }

/-- Whom a notification wakes: who sleeps on it. -/
def Task.wake (notify : Nat) : Task → Task
  | .waiting e n woken => .waiting e n (woken || n == notify)
  | .watching e n woken => .watching e n (woken || n == notify)
  | task => task

/-- The section of `stop`. -/
def stop (s : Manager) : Manager :=
  { s with
    epoch := s.epoch + 1
    state := .idle
    expiresAt := none
    startedAt := none
    tasks := (if s.state = .idle then [] else [.releasing]) ++ s.tasks.map (Task.wake s.notify) }

/-! ## Steps -/

inductive Act where
  | start (mode : Text) (duration : Nat) (busy : Bool)
  | heartbeat
  /-- The second section of a heartbeat. -/
  | startAuto (busy : Bool)
  | stop
  /-- The want of an ended session is released. -/
  | release
  /-- The system clock moves, in either direction. -/
  | setClock (now : Int)
  /-- A new task takes the notification. -/
  | takeNotify (task : Task)
  /-- A task that was woken returns. -/
  | notified (task : Task)
  /-- A task has slept. -/
  | timer (task : Task)
  | recheck (epoch notify : Nat)
  | busyTest (epoch notify : Nat) (busy : Bool)
  | activate (epoch : Nat)
  | launch (epoch : Nat)
  | judge (epoch notify : Nat)
  | finish (epoch : Nat)
  | restart
  deriving DecidableEq, Repr

/-- A task gives way to others. -/
def Manager.next (s : Manager) (task : Task) (after : List Task) : Manager :=
  { s with tasks := advance s.tasks task after }

/-- A task asleep after it has taken the notification. -/
def Task.asleep (notify : Nat) : Task → Option Task
  | .waiter e => some (.waiting e notify false)
  | .watcher e => some (.watching e notify false)
  | _ => none

def Task.woken : Task → Bool
  | .waiting _ _ woken | .watching _ _ woken => woken
  | _ => false

/-- A task after its sleep. -/
def Task.slept : Task → Option Task
  | .waiting e n _ => some (.rechecking e n)
  | .watching e n _ => some (.judging e n)
  | _ => none

def step (s : Manager) : Act → Option Manager
  | .start mode duration busy => some (start mode duration busy s)
  | .heartbeat => some (heartbeat s)
  | .startAuto busy =>
    if .starting ∈ s.tasks then some (start autoMode autoTimeout busy (s.next .starting [])) else none
  | .stop => some (stop s)
  | .release => if .releasing ∈ s.tasks then some { s.next .releasing [] with want := false } else none
  | .setClock now => some { s with clock := now }
  | .takeNotify task => if task ∈ s.tasks then (task.asleep s.notify).map fun t => s.next task [t] else none
  | .notified task => if task ∈ s.tasks ∧ task.woken = true then some (s.next task []) else none
  | .timer task => if task ∈ s.tasks then task.slept.map fun t => s.next task [t] else none
  | .recheck e n =>
    if .rechecking e n ∈ s.tasks then
      some (s.next (.rechecking e n) (if s.epoch = e ∧ s.state = .pending then [.idling e n] else []))
    else none
  | .busyTest e n busy =>
    if .idling e n ∈ s.tasks then
      some (s.next (.idling e n) [if busy then .waiting e n false else .activating e])
    else none
  | .activate e =>
    if .activating e ∈ s.tasks then
      if s.epoch = e ∧ s.state = .pending then
        match addDuration s.clock s.pendingDuration with
        | some t =>
          some { s.next (.activating e) [.launching e] with
            state := .active, startedAt := some s.clock, expiresAt := some t }
        | none => some (new s.clock)
      else some (s.next (.activating e) [])
    else none
  | .launch e => if .launching e ∈ s.tasks then some (s.next (.launching e) [.watcher e]) else none
  | .judge e n =>
    if .judging e n ∈ s.tasks then
      some (s.next (.judging e n)
        (if s.epoch = e ∧ s.state = .active then
          [if s.expiresAt.any fun t => decide (t ≤ s.clock) then .expiring e else .watching e n false]
        else []))
    else none
  | .finish e =>
    if .expiring e ∈ s.tasks then
      if s.epoch = e ∧ s.state = .active then
        some { s.next (.expiring e) [.releasing] with
          state := .idle, expiresAt := none, startedAt := none, epoch := s.epoch + 1 }
      else some (s.next (.expiring e) [])
    else none
  | .restart => some (new s.clock)

/-- **The condition on a step.** No session starts while the want of the last one is to be released; and while the
watcher is between finding that the session ran out and ending it, nothing extends the session or sets the clock back. -/
def Careful (s : Manager) : Act → Prop
  | .start _ _ _ | .startAuto _ =>
    (s.state = .idle → .releasing ∉ s.tasks) ∧ (s.state = .active → .expiring s.epoch ∉ s.tasks)
  | .heartbeat => s.state = .active → s.mode = autoMode → .expiring s.epoch ∉ s.tasks
  | .setClock now => s.clock ≤ now ∨ .expiring s.epoch ∉ s.tasks
  | _ => True

/-! ## What every run keeps -/

/-- The session a task is of. -/
def Task.session : Task → Option Nat
  | .waiter e | .waiting e _ _ | .rechecking e _ | .idling e _ | .activating e | .launching e => some e
  | .watcher e | .watching e _ _ | .judging e _ | .expiring e => some e
  | .releasing | .starting => none

/-- Whether a task does its session's work: a waiter while it is pending, a watcher (or a waiter about to start one)
while it is active, neither of them told to return. -/
def Task.serves : KaState → Task → Bool
  | .pending, .waiter _ | .pending, .rechecking _ _ | .pending, .idling _ _ | .pending, .activating _ => true
  | .pending, .waiting _ _ woken => !woken
  | .active, .launching _ | .active, .watcher _ | .active, .judging _ _ | .active, .expiring _ => true
  | .active, .watching _ _ woken => !woken
  | _, _ => false

/-- Whether a task is of the session at hand. -/
def Manager.own (s : Manager) (t : Task) : Bool := t.session == some s.epoch

/-- **The invariant.** -/
structure Agrees (s : Manager) : Prop where
  /-- Sessions are numbered upwards, and the one at hand is not in the past while it lasts. -/
  past : ∀ t ∈ s.tasks, ∀ e ∈ t.session, e ≤ s.epoch ∧ (s.state = .idle → e < s.epoch)
  one : s.state ≠ .idle → s.tasks.countP s.own = 1
  served : s.state ≠ .idle → ∀ t ∈ s.tasks, s.own t = true → t.serves s.state = true
  ended : .releasing ∈ s.tasks → s.state = .idle
  wanted : .releasing ∉ s.tasks → (s.want = true ↔ s.state ≠ .idle)
  ranOut : .expiring s.epoch ∈ s.tasks → s.state = .active → ∃ t ∈ s.expiresAt, t ≤ s.clock

theorem agrees_new (clock : Int) : Agrees (new clock) :=
  ⟨fun _ ht => absurd ht List.not_mem_nil, fun h => absurd rfl h, fun h => absurd rfl h, fun _ => rfl,
    fun _ => ⟨fun h => absurd h Bool.false_ne_true, fun h => absurd rfl h⟩, fun ht => absurd ht List.not_mem_nil⟩

/-- A task goes on with its work. -/
theorem Agrees.move {s : Manager} (h : Agrees s) {t u : Task} (ht : t ∈ s.tasks) (hsession : u.session = t.session)
    (hreleasing : t ≠ .releasing) (hstill : u ≠ .releasing)
    (hserves : s.state ≠ .idle → s.own t = true → u.serves s.state = true)
    (hranOut : u = .expiring s.epoch → s.state = .active → ∃ x ∈ s.expiresAt, x ≤ s.clock) :
    Agrees (s.next t [u]) := by
  have hmem : ∀ v ∈ (s.next t [u]).tasks, v = u ∨ v ∈ s.tasks := fun v hv =>
    (mem_of_mem_advance hv).imp_left List.mem_singleton.mp
  have hown : s.own u = s.own t := by rw [Manager.own, Manager.own, hsession]
  have hended : .releasing ∈ (s.next t [u]).tasks ↔ .releasing ∈ s.tasks := by
    refine ⟨fun hr => (hmem _ hr).resolve_left fun heq => hstill heq.symm, fun hr => ?_⟩
    exact mem_advance_of_ne hr fun heq => hreleasing heq.symm
  refine ⟨fun v hv e he => ?_, fun hne => ?_, fun hne v hv hv' => ?_, fun hr => h.ended (hended.mp hr),
    fun hr => h.wanted fun hr' => hr (hended.mpr hr'), fun hx hactive => ?_⟩
  · rcases hmem v hv with rfl | hv
    · exact h.past t ht e (hsession ▸ he)
    · exact h.past v hv e he
  · have hcount := @countP_advance _ _ s.tasks [u] t s.own ht
    rw [List.countP_singleton, hown] at hcount
    exact (Nat.add_left_cancel (by rw [Nat.add_comm]; exact hcount)).trans (h.one hne)
  · rcases hmem v hv with rfl | hv
    · exact hserves hne (hown ▸ hv')
    · exact h.served hne v hv hv'
  · rcases hmem _ hx with hx | hx
    · exact hranOut hx.symm hactive
    · exact h.ranOut hx hactive

/-- A task that is of no session at hand returns. -/
theorem Agrees.drop {s : Manager} (h : Agrees s) {t : Task} (ht : t ∈ s.tasks) (hreleasing : t ≠ .releasing)
    (hstale : s.state ≠ .idle → s.own t = false) : Agrees (s.next t []) := by
  have hmem : ∀ v ∈ (s.next t []).tasks, v ∈ s.tasks := fun v hv =>
    (mem_of_mem_advance hv).resolve_left List.not_mem_nil
  have hended : .releasing ∈ (s.next t []).tasks ↔ .releasing ∈ s.tasks :=
    ⟨hmem _, fun hr => mem_advance_of_ne hr fun heq => hreleasing heq.symm⟩
  refine ⟨fun v hv => h.past v (hmem v hv), fun hne => ?_, fun hne v hv => h.served hne v (hmem v hv),
    fun hr => h.ended (hended.mp hr), fun hr => h.wanted fun hr' => hr (hended.mpr hr'), fun hx => h.ranOut (hmem _ hx)⟩
  have hcount := @countP_advance _ _ s.tasks [] t s.own ht
  rw [hstale hne, List.countP_nil, if_neg Bool.false_ne_true, Nat.add_zero, Nat.zero_add] at hcount
  exact hcount.trans (h.one hne)

theorem Agrees.serves {s : Manager} (h : Agrees s) {t : Task} (ht : t ∈ s.tasks) {e : Nat} (he : t.session = some e)
    (hne : s.state ≠ .idle) (hcurrent : s.epoch = e) : t.serves s.state = true :=
  h.served hne t ht (by rw [Manager.own, he, hcurrent]; exact beq_self_eq_true _)

/-- A session begins. -/
theorem Agrees.begins {s t : Manager} {task : Task} (h : Agrees s) (hreleased : .releasing ∉ s.tasks)
    (hepoch : t.epoch = s.epoch + 1) (htasks : t.tasks = task :: s.tasks) (hwant : t.want = true)
    (hstate : t.state ≠ .idle) (hsession : task.session = some (s.epoch + 1)) (hserves : task.serves t.state = true)
    (hexpiring : ∀ e, task ≠ .expiring e) : Agrees t := by
  have hold : ∀ u ∈ s.tasks, t.own u = false := by
    intro u hu
    rw [Manager.own, hepoch]
    refine beq_eq_false_iff_ne.mpr fun heq => ?_
    have := (h.past u hu (s.epoch + 1) heq).1
    omega
  have hnew : t.own task = true := by
    rw [Manager.own, hepoch, hsession]
    exact beq_self_eq_true _
  have hno : .releasing ∉ t.tasks := by
    rw [htasks]
    rintro hr
    rcases List.mem_cons.mp hr with heq | hr
    · rw [← heq] at hsession
      exact absurd hsession (by simp [Task.session])
    · exact hreleased hr
  refine ⟨fun u hu e he => ?_, fun _ => ?_, fun _ u hu hu' => ?_, fun hr => absurd hr hno,
    fun _ => ⟨fun _ => hstate, fun _ => hwant⟩, fun hx _ => ?_⟩
  · refine ⟨?_, fun hidle => absurd hidle hstate⟩
    rw [htasks] at hu
    rcases List.mem_cons.mp hu with rfl | hu
    · rw [hsession] at he
      rw [hepoch, Option.some.inj he]
    · have := (h.past u hu e he).1
      omega
  · rw [htasks, List.countP_cons_of_pos hnew, List.countP_eq_zero.mpr fun u hu => by rw [hold u hu]; decide]
  · rw [htasks] at hu
    rcases List.mem_cons.mp hu with rfl | hu
    · exact hserves
    · exact absurd hu' (by rw [hold u hu]; decide)
  · rw [htasks] at hx
    rcases List.mem_cons.mp hx with heq | hx
    · exact absurd heq.symm (hexpiring t.epoch)
    · have hpast := (h.past _ hx t.epoch rfl).1
      omega

/-- A session ends, or nothing is ended by a stop. -/
theorem Agrees.ends {s t : Manager} (h : Agrees s) (hstate : t.state = .idle) (hepoch : t.epoch = s.epoch + 1)
    (hwant : t.want = s.want) (hsessions : ∀ u ∈ t.tasks, ∀ e ∈ u.session, e ≤ s.epoch)
    (hreleasing : .releasing ∉ t.tasks → s.state = .idle ∧ .releasing ∉ s.tasks) : Agrees t := by
  refine ⟨fun u hu e he => ?_, fun hne => absurd hstate hne, fun hne => absurd hstate hne, fun _ => hstate,
    fun hr => ?_, fun _ hactive => ?_⟩
  · have := hsessions u hu e he
    exact ⟨by omega, fun _ => by omega⟩
  · obtain ⟨hidle, hnone⟩ := hreleasing hr
    rw [hwant, hstate]
    exact (h.wanted hnone).trans (by rw [hidle])
  · rw [hstate] at hactive
    exact absurd hactive (by decide)

theorem Agrees.start {s : Manager} (h : Agrees s) (mode : Text) (duration : Nat) (busy : Bool)
    (hreleased : s.state = .idle → .releasing ∉ s.tasks) (hgoes : s.state = .active → .expiring s.epoch ∉ s.tasks) :
    Agrees (start mode duration busy s) := by
  unfold KeepAwake.start
  split
  · rename_i hactive
    split
    · exact ⟨h.past, h.one, h.served, h.ended, h.wanted, fun hx => absurd hx (hgoes hactive)⟩
    · exact agrees_new _
  · exact ⟨h.past, h.one, h.served, h.ended, h.wanted, h.ranOut⟩
  · rename_i hidle
    dsimp only
    split
    · exact h.begins (hreleased hidle) rfl rfl rfl (fun heq => nomatch heq) rfl rfl (fun e heq => nomatch heq)
    · split
      · exact h.begins (hreleased hidle) rfl rfl rfl (fun heq => nomatch heq) rfl rfl (fun e heq => nomatch heq)
      · exact agrees_new _

theorem Agrees.heartbeat {s : Manager} (h : Agrees s)
    (hgoes : s.state = .active → s.mode = autoMode → .expiring s.epoch ∉ s.tasks) : Agrees (heartbeat s) := by
  unfold KeepAwake.heartbeat
  split
  · rename_i hactive
    split
    · rename_i hmode
      split
      · exact ⟨h.past, h.one, h.served, h.ended, h.wanted, fun hx => absurd hx (hgoes hactive hmode)⟩
      · exact agrees_new _
    · exact h
  · split
    · exact ⟨h.past, h.one, h.served, h.ended, h.wanted, h.ranOut⟩
    · exact h
  · -- a heartbeat that goes on to start is of no session
    have hown : s.own .starting = false := rfl
    have hstarting : ∀ u ∈ Task.starting :: s.tasks, u = .starting ∨ u ∈ s.tasks := fun u hu => List.mem_cons.mp hu
    rename_i hidle
    refine ⟨fun u hu e he => ?_, fun hne => absurd hidle hne, fun hne => absurd hidle hne, fun hr => ?_, fun hr => ?_,
      fun hx => h.ranOut ((hstarting _ hx).resolve_left (by simp))⟩
    · rcases hstarting u hu with rfl | hu
      · exact absurd he (by simp [Task.session])
      · exact h.past u hu e he
    · exact hidle
    · exact h.wanted fun hr' => hr (List.mem_cons_of_mem _ hr')

@[simp] theorem Task.session_wake (notify : Nat) (t : Task) : (t.wake notify).session = t.session := by
  cases t <;> rfl

theorem Agrees.stop {s : Manager} (h : Agrees s) : Agrees (stop s) := by
  refine h.ends rfl rfl rfl (fun u hu e he => ?_) fun hr => ?_
  · rcases List.mem_append.mp hu with hu | hu
    · split at hu
      · exact absurd hu List.not_mem_nil
      · rw [List.mem_singleton.mp hu] at he
        exact absurd he (by simp [Task.session])
    · obtain ⟨v, hv, rfl⟩ := List.mem_map.mp hu
      exact (h.past v hv e (by rw [← Task.session_wake]; exact he)).1
  · have hidle : s.state = .idle := by
      by_contra hne
      exact hr (List.mem_append_left _ (by rw [if_neg hne]; exact List.mem_singleton_self _))
    exact ⟨hidle, fun hr' => hr (List.mem_append_right _ (List.mem_map.mpr ⟨_, hr', rfl⟩))⟩

theorem Agrees.release {s : Manager} (h : Agrees s) (ht : .releasing ∈ s.tasks) :
    Agrees { s.next .releasing [] with want := false } := by
  have hidle := h.ended ht
  have hmem : ∀ v ∈ (s.next .releasing []).tasks, v ∈ s.tasks := fun v hv =>
    (mem_of_mem_advance hv).resolve_left List.not_mem_nil
  exact ⟨fun v hv => h.past v (hmem v hv), fun hne => absurd hidle hne, fun hne => absurd hidle hne, fun _ => hidle,
    fun _ => ⟨fun hwant => absurd hwant Bool.false_ne_true, fun hne => absurd hidle hne⟩, fun hx => h.ranOut (hmem _ hx)⟩

/-- A task that finds its session over, or in another state than it works in, is not the one of the session at hand. -/
theorem Agrees.stale {s : Manager} (h : Agrees s) {t : Task} (ht : t ∈ s.tasks) {e : Nat} (he : t.session = some e)
    {working : KaState} (hworks : ∀ state, t.serves state = true → state = working)
    (hstale : ¬ (s.epoch = e ∧ s.state = working)) (hne : s.state ≠ .idle) : s.own t = false := by
  rw [Manager.own, he]
  refine beq_eq_false_iff_ne.mpr fun heq => ?_
  have hepoch : s.epoch = e := (Option.some.inj heq).symm
  exact hstale ⟨hepoch, hworks _ (h.serves ht he hne hepoch)⟩

/-- The session becomes active. -/
theorem Agrees.activates {s : Manager} (h : Agrees s) {e : Nat} (ht : .activating e ∈ s.tasks) (hepoch : s.epoch = e)
    (hpending : s.state = .pending) (started expires : Option Int) :
    Agrees { s.next (.activating e) [.launching e] with
      state := .active, startedAt := started, expiresAt := expires } := by
  have hne : s.state ≠ .idle := by
    rw [hpending]
    decide
  have hown : s.own (.activating e) = true := by
    rw [Manager.own, hepoch]
    exact beq_self_eq_true _
  -- it is the only task of its session
  have hothers : ∀ v ∈ s.tasks.erase (.activating e), s.own v = false := by
    have hcount := (List.perm_cons_erase ht).countP_eq s.own
    rw [h.one hne, List.countP_cons_of_pos hown] at hcount
    have hzero : (s.tasks.erase (.activating e)).countP s.own = 0 := by omega
    intro v hv
    have := List.countP_eq_zero.mp hzero v hv
    simpa using this
  have hmem : ∀ v ∈ (s.next (.activating e) [.launching e]).tasks, v = .launching e ∨ v ∈ s.tasks := fun v hv =>
    (mem_of_mem_advance hv).imp_left List.mem_singleton.mp
  have hreleasing : .releasing ∉ s.tasks := fun hr => hne (h.ended hr)
  refine ⟨fun v hv e' he' => ?_, fun _ => ?_, fun _ v hv hv' => ?_, fun hr => ?_, fun _ => ?_, fun hx _ => ?_⟩
  · refine ⟨?_, fun hidle => nomatch hidle⟩
    rcases hmem v hv with rfl | hv
    · rw [Option.mem_def, Task.session, Option.some.injEq] at he'
      rw [← he', ← hepoch]
      exact le_refl _
    · exact (h.past v hv e' he').1
  · have hcount := @countP_advance _ _ s.tasks [.launching e] _ s.own ht
    have hlaunching : s.own (.launching e) = true := hown
    rw [List.countP_singleton, hown, hlaunching, if_pos rfl] at hcount
    exact (Nat.add_left_cancel (by rw [Nat.add_comm]; exact hcount)).trans (h.one hne)
  · rcases List.mem_append.mp hv with hv | hv
    · rw [List.mem_singleton.mp hv]
      rfl
    · exact absurd (hothers v hv) (by rw [show s.own v = true from hv']; decide)
  · exact absurd ((hmem _ hr).resolve_left fun heq => nomatch heq) hreleasing
  · exact ⟨fun _ heq => (nomatch heq), fun _ => (h.wanted hreleasing).mpr hne⟩
  · have hold := (hmem _ hx).resolve_left fun heq => nomatch heq
    exact absurd (h.serves hold rfl hne rfl) (by rw [hpending]; exact Bool.false_ne_true)

theorem Task.asleep_spec {t u : Task} {n : Nat} (h : t.asleep n = some u) :
    u.session = t.session ∧ t ≠ .releasing ∧ u ≠ .releasing ∧ (∀ e, u ≠ .expiring e)
      ∧ ∀ state, t.serves state = true → u.serves state = true := by
  cases t <;> simp only [Task.asleep, Option.some.injEq, reduceCtorEq] at h <;> subst h <;>
    exact ⟨rfl, by simp, by simp, by simp, fun state => by cases state <;> simp [Task.serves]⟩

theorem Task.slept_spec {t u : Task} (h : t.slept = some u) :
    u.session = t.session ∧ t ≠ .releasing ∧ u ≠ .releasing ∧ (∀ e, u ≠ .expiring e)
      ∧ ∀ state, t.serves state = true → u.serves state = true := by
  cases t <;> simp only [Task.slept, Option.some.injEq, reduceCtorEq] at h <;> subst h <;>
    exact ⟨rfl, by simp, by simp, by simp, fun state => by cases state <;> simp [Task.serves]⟩

theorem Task.not_serves_of_woken {t : Task} (h : t.woken = true) (state : KaState) : t.serves state = false := by
  cases t <;> simp only [Task.woken, Bool.false_eq_true] at h <;> subst h <;> cases state <;> rfl

/-- **One step.** -/
theorem Agrees.step {s t : Manager} {a : Act} (h : Agrees s) (hcareful : Careful s a) (hstep : step s a = some t) :
    Agrees t := by
  cases a with
  | start mode duration busy =>
    obtain rfl := Option.some.inj hstep
    exact h.start mode duration busy hcareful.1 hcareful.2
  | heartbeat =>
    obtain rfl := Option.some.inj hstep
    exact h.heartbeat hcareful
  | startAuto busy =>
    obtain ⟨ht, heq⟩ := Option.ite_none_right_eq_some.mp hstep
    obtain rfl := Option.some.inj heq
    have hmem : ∀ v ∈ (s.next .starting []).tasks, v ∈ s.tasks := fun v hv =>
      (mem_of_mem_advance hv).resolve_left List.not_mem_nil
    have hdrop : Agrees (s.next .starting []) := h.drop ht (by simp) fun _ => rfl
    exact hdrop.start autoMode autoTimeout busy (fun hidle hr => hcareful.1 hidle (hmem _ hr))
      fun hactive hx => hcareful.2 hactive (hmem _ hx)
  | stop =>
    obtain rfl := Option.some.inj hstep
    exact h.stop
  | release =>
    obtain ⟨ht, heq⟩ := Option.ite_none_right_eq_some.mp hstep
    obtain rfl := Option.some.inj heq
    exact h.release ht
  | setClock now =>
    obtain rfl := Option.some.inj hstep
    refine ⟨h.past, h.one, h.served, h.ended, h.wanted, fun hx hactive => ?_⟩
    rcases hcareful with hforward | hnone
    · obtain ⟨x, hx, hle⟩ := h.ranOut hx hactive
      exact ⟨x, hx, le_trans hle hforward⟩
    · exact absurd hx hnone
  | takeNotify task =>
    obtain ⟨ht, heq⟩ := Option.ite_none_right_eq_some.mp hstep
    obtain ⟨u, hu, rfl⟩ := Option.map_eq_some_iff.mp heq
    obtain ⟨hsession, hr, hr', hx, hserves⟩ := Task.asleep_spec hu
    exact h.move ht hsession hr hr' (fun hne hown => hserves _ (h.served hne task ht hown)) fun heq => absurd heq (hx _)
  | notified task =>
    obtain ⟨⟨ht, hwoken⟩, heq⟩ := Option.ite_none_right_eq_some.mp hstep
    obtain rfl := Option.some.inj heq
    refine h.drop ht (fun heq => ?_) fun hne => ?_
    · rw [heq] at hwoken
      exact absurd hwoken (by decide)
    · by_contra hown
      have hserves := h.served hne task ht (by simpa using hown)
      rw [Task.not_serves_of_woken hwoken] at hserves
      exact absurd hserves (by decide)
  | timer task =>
    obtain ⟨ht, heq⟩ := Option.ite_none_right_eq_some.mp hstep
    obtain ⟨u, hu, rfl⟩ := Option.map_eq_some_iff.mp heq
    obtain ⟨hsession, hr, hr', hx, hserves⟩ := Task.slept_spec hu
    exact h.move ht hsession hr hr' (fun hne hown => hserves _ (h.served hne task ht hown)) fun heq => absurd heq (hx _)
  | recheck e n =>
    obtain ⟨ht, heq⟩ := Option.ite_none_right_eq_some.mp hstep
    obtain rfl := Option.some.inj heq
    split
    · rename_i hcurrent
      exact h.move ht rfl (by simp) (by simp) (fun _ _ => by rw [hcurrent.2]; rfl) fun heq => nomatch heq
    · rename_i hstale
      exact h.drop ht (by simp) (h.stale ht rfl (fun state hserves => by cases state <;> trivial) hstale)
  | busyTest e n busy =>
    obtain ⟨ht, heq⟩ := Option.ite_none_right_eq_some.mp hstep
    obtain rfl := Option.some.inj heq
    have hserves : ∀ state, (Task.idling e n).serves state = true →
        (if busy then Task.waiting e n false else .activating e).serves state = true := by
      intro state hidling
      cases state <;> cases busy <;> first | rfl | exact absurd hidling Bool.false_ne_true
    refine h.move ht (by cases busy <;> rfl) (by simp) (by cases busy <;> simp)
      (fun hne hown => hserves _ (h.served hne _ ht hown)) fun heq => ?_
    cases busy <;> exact nomatch heq
  | activate e =>
    obtain ⟨ht, heq⟩ := Option.ite_none_right_eq_some.mp hstep
    split at heq
    · rename_i hcurrent
      split at heq
      · obtain rfl := Option.some.inj heq
        exact h.activates ht hcurrent.1 hcurrent.2 _ _
      · obtain rfl := Option.some.inj heq
        exact agrees_new _
    · rename_i hstale
      obtain rfl := Option.some.inj heq
      exact h.drop ht (by simp) (h.stale ht rfl (fun state hserves => by cases state <;> trivial) hstale)
  | launch e =>
    obtain ⟨ht, heq⟩ := Option.ite_none_right_eq_some.mp hstep
    obtain rfl := Option.some.inj heq
    have hserves : ∀ state, (Task.launching e).serves state = true → (Task.watcher e).serves state = true := by
      intro state hlaunching
      cases state <;> first | rfl | exact absurd hlaunching Bool.false_ne_true
    exact h.move ht rfl (by simp) (by simp) (fun hne hown => hserves _ (h.served hne _ ht hown)) fun heq => nomatch heq
  | judge e n =>
    obtain ⟨ht, heq⟩ := Option.ite_none_right_eq_some.mp hstep
    obtain rfl := Option.some.inj heq
    split
    · rename_i hcurrent
      split
      · rename_i hexpired
        obtain ⟨x, hx, hle⟩ := (Option.any_eq_true _ _).mp hexpired
        exact h.move ht rfl (by simp) (by simp) (fun _ _ => by rw [hcurrent.2]; rfl)
          fun _ _ => ⟨x, hx, of_decide_eq_true hle⟩
      · exact h.move ht rfl (by simp) (by simp) (fun _ _ => by rw [hcurrent.2]; rfl) fun heq => nomatch heq
    · rename_i hstale
      exact h.drop ht (by simp) (h.stale ht rfl (fun state hserves => by cases state <;> trivial) hstale)
  | finish e =>
    obtain ⟨ht, heq⟩ := Option.ite_none_right_eq_some.mp hstep
    split at heq
    · rename_i hcurrent
      obtain rfl := Option.some.inj heq
      refine h.ends rfl rfl rfl (fun u hu e' he' => ?_) fun hr => absurd (mem_advance_of_mem List.mem_cons_self) hr
      rcases mem_of_mem_advance hu with hu | hu
      · rw [List.mem_singleton.mp hu] at he'
        exact absurd he' (by simp [Task.session])
      · exact (h.past u hu e' he').1
    · rename_i hstale
      obtain rfl := Option.some.inj heq
      exact h.drop ht (by simp) (h.stale ht rfl (fun state hserves => by cases state <;> trivial) hstale)
  | restart =>
    obtain rfl := Option.some.inj hstep
    exact agrees_new _

/-! ## The session and its registration -/

/-- A watcher that ends the session is its own, and has found it active. -/
theorem finish_spec {s t : Manager} {e : Nat} (h : step s (.finish e) = some t) :
    .expiring e ∈ s.tasks ∧ (s.epoch = e ∧ s.state = .active
      ∨ t.state = s.state ∧ t.expiresAt = s.expiresAt ∧ t.epoch = s.epoch ∧ t.want = s.want) := by
  obtain ⟨ht, heq⟩ := Option.ite_none_right_eq_some.mp h
  refine ⟨ht, ?_⟩
  split at heq
  · rename_i hcurrent
    exact Or.inl hcurrent
  · obtain rfl := Option.some.inj heq
    exact Or.inr ⟨rfl, rfl, rfl, rfl⟩

/-- **The session and its registration agree.** Between calls the want is registered exactly while there is a session; a
watcher ends one only when it has run out; a session has exactly one task, which does its work; and a watcher of another
session changes nothing. -/
theorem session_agrees {clock : Int} {s : Manager} (h : Reaches step Careful (new clock) s) :
    (.releasing ∉ s.tasks → .starting ∉ s.tasks → (s.want = true ↔ s.state ≠ .idle))
      ∧ (∀ e t, step s (.finish e) = some t → t.state ≠ s.state → ∃ x ∈ s.expiresAt, x ≤ s.clock)
      ∧ (s.state ≠ .idle → ∃ task, s.tasks.filter s.own = [task] ∧ task.serves s.state = true)
      ∧ ∀ e ≠ s.epoch, ∀ t, step s (.finish e) = some t →
        t.state = s.state ∧ t.expiresAt = s.expiresAt ∧ t.epoch = s.epoch ∧ t.want = s.want := by
  have hs := h.invariant (agrees_new clock) fun _ _ _ ht hok hstep => ht.step hok hstep
  refine ⟨fun hr _ => hs.wanted hr, fun e t hstep hends => ?_, fun hne => ?_, fun e hother t hstep => ?_⟩
  · obtain ⟨ht, ⟨rfl, hactive⟩ | hsame⟩ := finish_spec hstep
    · exact hs.ranOut ht hactive
    · exact absurd hsame.1 hends
  · obtain ⟨task, htask⟩ := List.length_eq_one_iff.mp (by rw [← List.countP_eq_length_filter]; exact hs.one hne)
    have hmem : task ∈ s.tasks.filter s.own := by
      rw [htask]
      exact List.mem_singleton_self task
    obtain ⟨hin, hown⟩ := List.mem_filter.mp hmem
    exact ⟨task, htask, hs.served hne task hin hown⟩
  · rcases (finish_spec hstep).2 with hcurrent | hsame
    · exact absurd hcurrent.1.symm hother
    · exact hsame

instance (s : Manager) : DecidablePred (Careful s)
  | .start _ _ _ | .startAuto _ => inferInstanceAs (Decidable
      ((s.state = .idle → .releasing ∉ s.tasks) ∧ (s.state = .active → .expiring s.epoch ∉ s.tasks)))
  | .heartbeat => inferInstanceAs (Decidable (s.state = .active → s.mode = autoMode → .expiring s.epoch ∉ s.tasks))
  | .setClock now => inferInstanceAs (Decidable (s.clock ≤ now ∨ .expiring s.epoch ∉ s.tasks))
  | .stop | .release | .takeNotify _ | .notified _ | .timer _ | .recheck _ _ | .busyTest _ _ _ | .activate _ | .launch _
  | .judge _ _ | .finish _ | .restart => isTrue trivial

/-- A session that is started, extended and found to have run out. -/
def ranOutSession : List Act :=
  [.start "manual".toList 10 false, .takeNotify (.watcher 1), .start "manual".toList 20 false,
    .timer (.watching 1 1 false), .setClock 20, .judge 1 1]

theorem session_runs_out :
    ∃ s, Reaches step Careful (new 0) s ∧ s.state = .active ∧ ∃ x ∈ s.expiresAt, x ≤ s.clock := by
  have hrun : run (guarded step Careful) (new 0) ranOutSession
      = some ⟨.active, "manual".toList, some 20, some 0, 10, 1, 1, true, 20, [.expiring 1]⟩ := by decide +kernel
  have hreaches := reaches_of_run_guarded hrun
  exact ⟨_, hreaches, rfl, (session_agrees hreaches).2.1 1 _ rfl (by decide)⟩

/-- **An active session without its want, and a session ended ahead of its time.** The first was started while the
stopped one before it was about to release the want; the second was extended after its watcher had found that it ran
out. -/
theorem session_loses_want_or_time :
    (∃ s, Reachable step (new 0) s ∧ .releasing ∉ s.tasks ∧ .starting ∉ s.tasks ∧ s.state = .active ∧ s.want = false)
      ∧ ∃ s t, Reachable step (new 0) s ∧ step s (.finish 1) = some t ∧ t.state ≠ s.state ∧ s.expiresAt = some 120
        ∧ s.clock = 20 := by
  refine ⟨⟨⟨.active, [], some 10, some 0, 10, 3, 2, false, 0, [.watcher 3, .watcher 1]⟩, ?_, ?_⟩, ?_⟩
  · have hrun : run step (new 0) [.start [] 10 false, .stop, .start [] 10 false, .release]
        = some ⟨.active, [], some 10, some 0, 10, 3, 2, false, 0, [.watcher 3, .watcher 1]⟩ := by decide +kernel
    exact reachable_of_run hrun
  · decide +kernel
  · refine ⟨⟨.active, "manual".toList, some 120, some 0, 10, 1, 1, true, 20, [.expiring 1]⟩, _, ?_, rfl, ?_⟩
    · have hrun : run step (new 0) (ranOutSession ++ [.start "manual".toList 100 false])
          = some ⟨.active, "manual".toList, some 120, some 0, 10, 1, 1, true, 20, [.expiring 1]⟩ := by decide +kernel
      exact reachable_of_run hrun
    · decide +kernel

end SentryUsb.Api.KeepAwake
