import SentryUsb.Grouper.Clip
import SentryUsb.Library.SortedMap
import SentryUsb.Library.Chronicle
import SentryUsb.Library.TransitionSystem

/-! # Retrying the pushes that failed after boot

A push that never reached the server is kept and sent again by one worker (`api/src/push_retry.rs`). Dispatches end in
any order, and the worker holds a copy of a push while the queue goes on; each access to the queue is a step of its own.

* **`RetryQueue`** — the queue: one push of each type, newer than all that is known to be delivered;
* **`System`**, **`step`** — the queue, the worker and the calls of `after_dispatch`;
* **`Moves`** — what an access to the queue may do, **`Inv`** — what holds between steps;
* **`retries_safe`** — what every run keeps. -/

namespace SentryUsb.Api.PushRetry

open Library

/-! ## The queue -/

/-- Alert types worth delivering late. -/
def retryTypes : List Text :=
  ["keep_accessory".toList, "archive_error".toList, "keep_awake_failure".toList, "temperature".toList]

/-- Times are in nanoseconds. -/
def bootWindow : Nat := 8 * 60 * 1000000000

def maxAge : Nat := 10 * 60 * 1000000000

structure PendingPush where
  title : Text
  message : Text
  summary : Option Text
  notificationType : Text
  typeHint : Option Text
  startedAt : Nat
  deriving DecidableEq

/-- A push, and which dispatch it comes from. The code sees the push alone: two dispatches may start in the same
nanosecond with the same texts. -/
structure Dispatch extends PendingPush where
  id : Nat
  deriving DecidableEq

/-- The failed push of each type, and when the newest push of each type that reached the phone had started. -/
structure RetryQueue where
  pending : SortedMap Text Dispatch
  delivered : SortedMap Text Nat
  workerRunning : Bool
  typed : ∀ kind d, pending.get kind = some d → d.notificationType = kind
  newer : ∀ kind d start, pending.get kind = some d → delivered.get kind = some start → start < d.startedAt

namespace RetryQueue

def empty : RetryQueue where
  pending := .empty
  delivered := .empty
  workerRunning := false
  typed := fun _ _ h => nomatch h
  newer := fun _ _ _ h => nomatch h

variable (q : RetryQueue)

/-- Keep some of the pushes. -/
def keep (pending : SortedMap Text Dispatch) (h : ∀ kind d, pending.get kind = some d → q.pending.get kind = some d) :
    RetryQueue :=
  { q with
    pending := pending
    typed := fun kind d hd => q.typed kind d (h kind d hd)
    newer := fun kind d start hd => q.newer kind d start (h kind d hd) }

theorem get_of_get_remove {kind kind' : Text} {d : Dispatch} (h : (q.pending.remove kind').get kind = some d) :
    q.pending.get kind = some d := by
  rw [SortedMap.get_remove] at h
  exact (Option.ite_none_left_eq_some.mp h).2

/-- A push that may be kept: of a listed type, soon after boot, and newer than what was delivered; a newer one is not
there. -/
def Keeps (d : Dispatch) (uptime : Nat) : Prop :=
  d.notificationType ∈ retryTypes ∧ uptime < bootWindow
    ∧ (∀ start ∈ q.delivered.get d.notificationType, start < d.startedAt)
    ∧ ∀ p ∈ q.pending.get d.notificationType, p.startedAt ≤ d.startedAt

instance (d : Dispatch) (uptime : Nat) : Decidable (q.Keeps d uptime) := by
  unfold Keeps
  infer_instance

/-- Record a failed push, and say whether it was kept. -/
def recordFailure (d : Dispatch) (uptime : Nat) : RetryQueue × Bool :=
  if h : q.Keeps d uptime then
    ({ q with
        pending := q.pending.insert d.notificationType d
        typed := by
          intro kind p hp
          rw [SortedMap.get_insert] at hp
          split at hp
          · rename_i hkind
            rw [← Option.some.inj hp, hkind]
          · exact q.typed kind p hp
        newer := by
          intro kind p start hp hstart
          rw [SortedMap.get_insert] at hp
          split at hp
          · rename_i hkind
            rw [← Option.some.inj hp]
            exact h.2.2.1 start (hkind ▸ hstart)
          · exact q.newer kind p start hp hstart }, true)
  else (q, false)

/-- Remove the push of a type unless it started later. -/
def dropUntil (kind : Text) (startedAt : Nat) : SortedMap Text Dispatch :=
  if ∃ p ∈ q.pending.get kind, p.startedAt ≤ startedAt then q.pending.remove kind else q.pending

theorem get_dropUntil {kind kind' : Text} {startedAt : Nat} {d : Dispatch}
    (h : (q.dropUntil kind' startedAt).get kind = some d) :
    q.pending.get kind = some d ∧ (kind = kind' → startedAt < d.startedAt) := by
  rw [dropUntil] at h
  split at h
  · rw [SortedMap.get_remove] at h
    obtain ⟨hkind, h⟩ := Option.ite_none_left_eq_some.mp h
    exact ⟨h, fun hkind' => absurd hkind' hkind⟩
  · rename_i hlater
    refine ⟨h, ?_⟩
    rintro rfl
    exact not_le.mp fun hle => hlater ⟨d, h, hle⟩

/-- A push of this type reached the phone. -/
def recordDelivered (kind : Text) (startedAt : Nat) : RetryQueue where
  pending := q.dropUntil kind startedAt
  delivered := q.delivered.insert kind (max ((q.delivered.get kind).getD startedAt) startedAt)
  workerRunning := q.workerRunning
  typed := fun kind' d h => q.typed kind' d (q.get_dropUntil h).1
  newer := by
    intro kind' d start h hstart
    obtain ⟨hpending, hlater⟩ := q.get_dropUntil h
    rw [SortedMap.get_insert] at hstart
    split at hstart
    · rename_i hkind
      rw [← Option.some.inj hstart]
      refine max_lt ?_ (hlater hkind)
      cases hold : q.delivered.get kind with
      | none => exact hlater hkind
      | some old => exact q.newer kind' d old hpending (hkind ▸ hold)
    · exact q.newer kind' d start hpending hstart

/-- Still the push to send for its type. -/
def StillPending (push : PendingPush) : Prop :=
  (q.pending.get push.notificationType).map Dispatch.toPendingPush = some push

instance (push : PendingPush) : Decidable (q.StillPending push) := inferInstanceAs (Decidable (_ = _))

/-- Remove a push that was sent or given up, unless a newer one replaced it meanwhile. -/
def sent (push : PendingPush) : RetryQueue :=
  if q.StillPending push then
    q.keep (q.pending.remove push.notificationType) fun _ _ => q.get_of_get_remove
  else q

/-- What is young enough to send; nothing once the boot window is over. -/
def retained (now uptime : Nat) : RetryQueue :=
  if bootWindow ≤ uptime then q.keep .empty fun _ _ h => nomatch h
  else
    q.keep (q.pending.filterValues fun d => decide (now - d.startedAt ≤ maxAge)) fun _ _ h =>
      (SortedMap.get_filterValues_eq_some.mp h).1

/-- Drop what is too old, and find the oldest push: of several, the first in the order the map is read in. -/
def nextDue (now uptime : Nat) (order : List Text) : RetryQueue × Option Dispatch :=
  (q.retained now uptime,
    (order.filterMap fun kind => (q.retained now uptime).pending.get kind).argmin fun d => d.startedAt)

/-- The order names every type that is pending. -/
def Covers (order : List Text) : Prop := ∀ e ∈ q.pending.entries, e.1 ∈ order

instance (order : List Text) : Decidable (q.Covers order) := inferInstanceAs (Decidable (∀ e ∈ _, _))

end RetryQueue

/-! ## The system -/

/-- What became of an attempt: delivered; never sent; perhaps sent; or not tried, as mobile push is not enabled. -/
inductive Outcome where
  | delivered
  | neverSent
  | maybeSent
  | unavailable
  deriving DecidableEq

/-- The push may be on the phone. -/
def Outcome.MayReach : Outcome → Prop
  | .delivered | .maybeSent => True
  | .neverSent | .unavailable => False

instance (o : Outcome) : Decidable o.MayReach := by
  cases o <;> unfold Outcome.MayReach <;> infer_instance

/-- What the worker is doing: waiting for the next interval; holding a copy of a push; sending it; and with the outcome
in hand, about to record it. -/
inductive Worker where
  | sleeping
  | picked (d : Dispatch)
  | sending (d : Dispatch)
  | settling (d : Dispatch) (outcome : Outcome)
  deriving DecidableEq

/-- The history of a run, for stating what it keeps. -/
inductive Event where
  | kept (d : Dispatch)
  | recorded (kind : Text) (startedAt : Nat)
  | picked (d : Dispatch) (now uptime : Nat)
  | began (d : Dispatch)
  | mayHaveReached (id : Nat)
  deriving DecidableEq

/-- The failures of a type that were kept. -/
def keptBy (kind : Text) (events : List Event) : List Dispatch :=
  events.filterMap fun
    | .kept d => if d.notificationType = kind then some d else none
    | _ => none

/-- The queue, the workers, the calls of `after_dispatch` that kept a push and have yet to look at the worker flag, and
the dispatches that have ended. A worker counts from the moment its flag is set. The last two fields are history: the
failures of each type kept since it last had none pending, and what happened, the newest first. -/
structure System where
  queue : RetryQueue
  workers : List Worker
  between : Nat
  dispatches : List PendingPush
  since : Text → List Dispatch
  log : List Event

def init : System := ⟨.empty, [], 0, [], fun _ => [], []⟩

inductive WorkerAction where
  | wake (now uptime : Nat) (order : List Text)
  | disabled
  | check
  | answer (outcome : Outcome)
  | settle
  deriving DecidableEq

inductive Action where
  | dispatched (push : PendingPush) (outcome : Outcome) (uptime : Nat)
  | flag
  | work (i : Nat) (act : WorkerAction)
  deriving DecidableEq

namespace System

/-- An access to the queue. -/
def access (s : System) (q : RetryQueue) (events : List Event) : System :=
  { s with
    queue := q
    log := events ++ s.log
    since := fun kind => if (q.pending.get kind).isSome then keptBy kind events ++ s.since kind else [] }

/-- What a worker does next. -/
def place (s : System) (i : Nat) (w : Worker) : System := { s with workers := s.workers.set i w }

/-- A dispatch ends, and `after_dispatch` takes its first step. -/
def afterDispatch (s : System) (push : PendingPush) (outcome : Outcome) (uptime : Nat) : System :=
  let d : Dispatch := ⟨push, s.dispatches.length⟩
  let s := { s with dispatches := s.dispatches ++ [push] }
  match outcome with
  | .delivered =>
    s.access (s.queue.recordDelivered push.notificationType push.startedAt)
      [.recorded push.notificationType push.startedAt, .mayHaveReached d.id]
  | .maybeSent => s.access s.queue [.mayHaveReached d.id]
  | .unavailable => s
  | .neverSent =>
    match s.queue.recordFailure d uptime with
    | (q, true) => { s.access q [.kept d] with between := s.between + 1 }
    | (_, false) => s

/-- The second step of `after_dispatch`: set the worker flag, and start a worker if it was not set. -/
def flag (s : System) : System :=
  { s with
    queue := { s.queue with workerRunning := true }
    workers := if s.queue.workerRunning then s.workers else s.workers ++ [.sleeping]
    between := s.between - 1 }

/-- The worker records an outcome. -/
def settle (s : System) (d : Dispatch) : Outcome → System
  | .delivered =>
    s.access (s.queue.recordDelivered d.notificationType d.startedAt) [.recorded d.notificationType d.startedAt]
  | .neverSent => s
  | .maybeSent => s.access (s.queue.sent d.toPendingPush) []
  | .unavailable => s.access (s.queue.sent d.toPendingPush) []

/-- The worker stops: nothing is due. -/
def stop (s : System) (i : Nat) (q : RetryQueue) : System :=
  { s.access { q with workerRunning := false } [] with workers := s.workers.eraseIdx i }

/-- One step of a worker (`run_worker`). -/
def workerStep (s : System) (i : Nat) : Worker → WorkerAction → Option System
  | .sleeping, .wake now uptime order =>
    if s.queue.Covers order then
      match s.queue.nextDue now uptime order with
      | (q, some d) => some ((s.access q [.picked d now uptime]).place i (.picked d))
      | (q, none) => some (s.stop i q)
    else none
  | .picked d, .disabled => some ((s.access (s.queue.sent d.toPendingPush) []).place i .sleeping)
  | .picked d, .check =>
    if s.queue.StillPending d.toPendingPush then some ((s.access s.queue [.began d]).place i (.sending d))
    else some (s.place i .sleeping)
  | .sending d, .answer outcome =>
    some ((s.access s.queue (if outcome.MayReach then [.mayHaveReached d.id] else [])).place i (.settling d outcome))
  | .settling d outcome, .settle => some ((s.settle d outcome).place i .sleeping)
  | _, _ => none

end System

/-- **One step.** -/
def step (s : System) : Action → Option System
  | .dispatched push outcome uptime => some (s.afterDispatch push outcome uptime)
  | .flag => if 0 < s.between then some s.flag else none
  | .work i act => s.workers[i]?.bind fun w => s.workerStep i w act

/-! ## What an access to the queue may do -/

/-- A pending push was pending before, or it is the failure just kept and no older than the one it replaces; the newest
delivery of a type never gets older. -/
structure Moves (q q' : RetryQueue) (events : List Event) : Prop where
  pending : ∀ kind d, q'.pending.get kind = some d →
    (q.pending.get kind = some d ∧ keptBy kind events = [])
      ∨ (keptBy kind events = [d] ∧ ∀ p, q.pending.get kind = some p → p.startedAt ≤ d.startedAt)
  recorded : ∀ kind start, Event.recorded kind start ∈ events →
    ∃ newest, q'.delivered.get kind = some newest ∧ start ≤ newest
  grows : ∀ kind old, q.delivered.get kind = some old → ∃ newest, q'.delivered.get kind = some newest ∧ old ≤ newest

/-- Nothing becomes pending. -/
def Shrinks (q q' : RetryQueue) : Prop := ∀ kind d, q'.pending.get kind = some d → q.pending.get kind = some d

section
variable {q : RetryQueue} {kind : Text} {startedAt : Nat} {d : Dispatch} {push : PendingPush} {events : List Event}

theorem shrinks_self : Shrinks q q := fun _ _ h => h

theorem shrinks_recordDelivered : Shrinks q (q.recordDelivered kind startedAt) := fun _ _ h => (q.get_dropUntil h).1

theorem shrinks_sent : Shrinks q (q.sent push) := by
  intro kind d h
  rw [RetryQueue.sent] at h
  split at h
  · exact q.get_of_get_remove h
  · exact h

theorem shrinks_retained {now uptime : Nat} : Shrinks q (q.retained now uptime) := by
  intro _ _ h
  rw [RetryQueue.retained] at h
  split at h
  · exact nomatch h
  · exact (SortedMap.get_filterValues_eq_some.mp h).1

/-- A queue that loses pushes, while nothing is kept or delivered. -/
theorem moves_of_shrinks {q' : RetryQueue} (h : Shrinks q q') (hdelivered : q'.delivered = q.delivered)
    (hkept : ∀ kind, keptBy kind events = []) (hrecorded : ∀ kind start, Event.recorded kind start ∉ events) :
    Moves q q' events where
  pending := fun kind d hd => Or.inl ⟨h kind d hd, hkept kind⟩
  recorded := fun kind start hmem => absurd hmem (hrecorded kind start)
  grows := fun _ old hold => ⟨old, hdelivered ▸ hold, le_refl old⟩

theorem delivered_sent : (q.sent push).delivered = q.delivered := by
  rw [RetryQueue.sent]
  split
  · rfl
  · rfl

theorem workerRunning_sent : (q.sent push).workerRunning = q.workerRunning := by
  rw [RetryQueue.sent]
  split
  · rfl
  · rfl

theorem delivered_retained {now uptime : Nat} : (q.retained now uptime).delivered = q.delivered := by
  rw [RetryQueue.retained]
  split
  · rfl
  · rfl

theorem workerRunning_retained {now uptime : Nat} : (q.retained now uptime).workerRunning = q.workerRunning := by
  rw [RetryQueue.retained]
  split
  · rfl
  · rfl

/-- **A delivery** is known from then on. -/
theorem moves_recordDelivered (hkept : ∀ kind, keptBy kind events = [])
    (hrecorded : ∀ kind' start, Event.recorded kind' start ∈ events → kind' = kind ∧ start = startedAt) :
    Moves q (q.recordDelivered kind startedAt) events where
  pending := fun kind' d hd => Or.inl ⟨shrinks_recordDelivered kind' d hd, hkept kind'⟩
  recorded := by
    intro kind' start hmem
    obtain ⟨rfl, rfl⟩ := hrecorded kind' start hmem
    exact ⟨_, SortedMap.get_insert_self _ _ _, le_max_right _ _⟩
  grows := by
    intro kind' old hold
    by_cases hkind : kind' = kind
    · refine ⟨_, (SortedMap.get_insert _ _ _ _).trans (if_pos hkind), ?_⟩
      rw [← hkind, hold]
      exact le_max_left _ _
    · exact ⟨old, ((SortedMap.get_insert _ _ _ _).trans (if_neg hkind)).trans hold, le_refl old⟩

/-- A push that was sent is no longer pending. -/
theorem get_sent_ne {kind : Text} : (q.sent d.toPendingPush).pending.get kind ≠ some d := by
  intro h
  have hbefore := shrinks_sent kind d h
  have hkind : d.notificationType = kind := q.typed kind d hbefore
  have hstill : q.StillPending d.toPendingPush := by
    show (q.pending.get d.notificationType).map Dispatch.toPendingPush = some d.toPendingPush
    rw [hkind, hbefore]
    rfl
  rw [RetryQueue.sent, if_pos hstill] at h
  have hremoved := (SortedMap.get_remove q.pending d.notificationType kind).symm.trans h
  rw [if_pos hkind.symm] at hremoved
  exact nomatch hremoved

theorem get_recordDelivered_ne {kind : Text} :
    (q.recordDelivered d.notificationType d.startedAt).pending.get kind ≠ some d := by
  intro h
  obtain ⟨hbefore, hlater⟩ := q.get_dropUntil h
  exact lt_irrefl _ (hlater (q.typed kind d hbefore).symm)

/-- **A failure that is kept** takes the place of an older one. -/
theorem recordFailure_spec {uptime : Nat} {q' : RetryQueue} (h : q.recordFailure d uptime = (q', true)) :
    Moves q q' [.kept d] ∧ q'.workerRunning = q.workerRunning
      ∧ ∀ kind p, q'.pending.get kind = some p → q.pending.get kind = some p ∨ p = d := by
  rw [RetryQueue.recordFailure] at h
  split at h
  · rename_i hkeeps
    obtain rfl := congrArg Prod.fst h
    have hget : ∀ kind p, (q.pending.insert d.notificationType d).get kind = some p →
        (kind = d.notificationType ∧ p = d) ∨ (kind ≠ d.notificationType ∧ q.pending.get kind = some p) := by
      intro kind p hp
      rw [SortedMap.get_insert] at hp
      split at hp
      · rename_i hkind
        exact Or.inl ⟨hkind, (Option.some.inj hp).symm⟩
      · rename_i hkind
        exact Or.inr ⟨hkind, hp⟩
    refine ⟨⟨fun kind p hp => ?_, fun kind start hmem => ?_, fun kind old hold => ⟨old, hold, le_refl old⟩⟩, rfl,
      fun kind p hp => ?_⟩
    · rcases hget kind p hp with ⟨rfl, rfl⟩ | ⟨hkind, hp⟩
      · refine Or.inr ⟨?_, fun p' hp' => hkeeps.2.2.2 p' hp'⟩
        simp [keptBy]
      · refine Or.inl ⟨hp, ?_⟩
        simp [keptBy, Ne.symm hkind]
    · simp at hmem
    · rcases hget kind p hp with ⟨-, rfl⟩ | ⟨-, hp⟩
      · exact Or.inr rfl
      · exact Or.inl hp
  · exact absurd (congrArg Prod.snd h) Bool.false_ne_true

/-- **What is due** is pending, inside the boot window and young enough; when nothing is, nothing is left pending. -/
theorem nextDue_spec {now uptime : Nat} {order : List Text} (hcovers : q.Covers order) :
    (∀ d, (q.nextDue now uptime order).2 = some d →
        (∃ kind, q.pending.get kind = some d) ∧ uptime < bootWindow ∧ now - d.startedAt ≤ maxAge)
      ∧ ((q.nextDue now uptime order).2 = none → ∀ kind, (q.nextDue now uptime order).1.pending.get kind = none) := by
  constructor
  · intro d hd
    obtain ⟨kind, -, hkind⟩ := List.mem_filterMap.mp (List.argmin_mem hd)
    refine ⟨⟨kind, shrinks_retained kind d hkind⟩, ?_⟩
    rw [RetryQueue.retained] at hkind
    split at hkind
    · exact nomatch hkind
    · rename_i hwindow
      exact ⟨not_le.mp hwindow, of_decide_eq_true (SortedMap.get_filterValues_eq_some.mp hkind).2⟩
  · intro hnone kind
    rw [RetryQueue.nextDue, List.argmin_eq_none] at hnone
    by_contra hsome
    obtain ⟨d, hd⟩ := Option.ne_none_iff_exists'.mp hsome
    have hkind := hcovers (kind, d) (SortedMap.mem_entries.mpr (shrinks_retained kind d hd))
    have hmem : d ∈ order.filterMap fun kind => (q.retained now uptime).pending.get kind :=
      List.mem_filterMap.mpr ⟨kind, hkind, hd⟩
    rw [hnone] at hmem
    exact nomatch hmem

end

/-! ## What holds between steps -/

/-- The push a worker holds. -/
def Worker.push : Worker → Option Dispatch
  | .sleeping => none
  | .picked d | .sending d | .settling d _ => some d

/-- A push that is pending or in a worker's hands. -/
def System.Knows (s : System) (d : Dispatch) : Prop :=
  (∃ kind, s.queue.pending.get kind = some d) ∨ ∃ w ∈ s.workers, w.push = some d

/-- **What a run promises of each step.** A push that is sent was not delivered before and cannot have reached the
server, and every delivery of its type recorded until then is of an older push; a push is picked inside the boot window
and not too old. -/
def Allowed (e : Event) (past : List Event) : Prop :=
  match e with
  | .began d =>
    Event.mayHaveReached d.id ∉ past ∧ ∀ start, Event.recorded d.notificationType start ∈ past → start < d.startedAt
  | .picked d now uptime => uptime < bootWindow ∧ now - d.startedAt ≤ maxAge
  | .kept _ | .recorded _ _ | .mayHaveReached _ => True

structure Inv (s : System) : Prop where
  counted : s.workers.length = s.queue.workerRunning.toNat
  served : s.between = 0 → s.queue.workerRunning = false → ∀ kind, s.queue.pending.get kind = none
  vacant : ∀ kind, s.queue.pending.get kind = none → s.since kind = []
  newest : ∀ kind d, s.queue.pending.get kind = some d →
    d ∈ s.since kind ∧ ∀ e ∈ s.since kind, e.startedAt ≤ d.startedAt
  delivered : ∀ kind start, Event.recorded kind start ∈ s.log →
    ∃ newest, s.queue.delivered.get kind = some newest ∧ start ≤ newest
  known : ∀ d, s.Knows d → s.dispatches[d.id]? = some d.toPendingPush
  ended : ∀ id, Event.mayHaveReached id ∈ s.log → id < s.dispatches.length
  spent : ∀ kind d, s.queue.pending.get kind = some d → Event.mayHaveReached d.id ∈ s.log →
    ∃ o : Outcome, o.MayReach ∧ Worker.settling d o ∈ s.workers
  unspent : ∀ d, Worker.picked d ∈ s.workers ∨ Worker.sending d ∈ s.workers → Event.mayHaveReached d.id ∉ s.log
  allowed : Chronicle Allowed s.log

section
variable {s : System} {q : RetryQueue} {events : List Event} {d e : Dispatch} {w : Worker} {i : Nat}

theorem inv_init : Inv init where
  counted := rfl
  served := fun _ _ _ => rfl
  vacant := fun _ _ => rfl
  newest := fun _ _ h => nomatch h
  delivered := fun _ _ h => nomatch h
  known := fun _ h => h.elim (fun ⟨_, h⟩ => nomatch h) fun ⟨_, h, _⟩ => nomatch h
  ended := fun _ h => nomatch h
  spent := fun _ _ h => nomatch h
  unspent := fun _ h => h.elim (fun h => nomatch h) fun h => nomatch h
  allowed := chronicle_nil

/-- One dispatch is one push. -/
theorem Inv.eq_of_id_eq (h : Inv s) (hd : s.Knows d) (he : s.Knows e) (hid : d.id = e.id) : d = e := by
  have hpush : d.toPendingPush = e.toPendingPush :=
    Option.some.inj ((h.known d hd).symm.trans ((congrArg (s.dispatches[·]?) hid).trans (h.known e he)))
  cases d
  cases e
  cases hpush
  cases hid
  rfl

theorem Inv.newer (h : Inv s) {kind : Text} (hd : s.queue.pending.get kind = some d) {start : Nat}
    (hstart : Event.recorded kind start ∈ s.log) : start < d.startedAt := by
  obtain ⟨newest, hnewest, hle⟩ := h.delivered kind start hstart
  exact lt_of_le_of_lt hle (s.queue.newer kind d newest hd hnewest)

/-- There is at most one worker. -/
theorem Inv.workers_eq (h : Inv s) (hw : s.workers[i]? = some w) :
    s.workers = [w] ∧ i = 0 ∧ s.queue.workerRunning = true := by
  have hcounted := h.counted
  obtain ⟨hi, hget⟩ := List.getElem?_eq_some_iff.mp hw
  cases hrunning : s.queue.workerRunning with
  | false =>
    rw [hrunning] at hcounted
    rw [List.length_eq_zero_iff.mp hcounted] at hi
    exact absurd hi (Nat.not_lt_zero i)
  | true =>
    rw [hrunning] at hcounted
    obtain ⟨w', hworkers⟩ := List.length_eq_one_iff.mp hcounted
    have hzero : i = 0 := by
      rw [hworkers] at hi
      exact Nat.lt_one_iff.mp hi
    subst hzero
    rw [hworkers] at hw
    exact ⟨hworkers.trans (congrArg (fun w => [w]) (Option.some.inj hw)), rfl, rfl⟩

/-- An access that changes nothing. -/
theorem Inv.access_self (h : Inv s) : s.access s.queue [] = s := by
  have hsince : (s.access s.queue []).since = s.since := by
    funext kind
    show (if (s.queue.pending.get kind).isSome then [] ++ s.since kind else []) = s.since kind
    split
    · rfl
    · rename_i hnone
      exact (h.vacant kind (Option.not_isSome_iff_eq_none.mp hnone)).symm
  calc s.access s.queue [] = { s with since := (s.access s.queue []).since } := rfl
    _ = s := by rw [hsince]

/-- The failures kept since a type last had none pending, after an access: the pending one is the newest. -/
theorem Inv.newest_access (h : Inv s) (hmoves : Moves s.queue q events) {kind : Text}
    (hd : q.pending.get kind = some d) :
    d ∈ (s.access q events).since kind ∧ ∀ e ∈ (s.access q events).since kind, e.startedAt ≤ d.startedAt := by
  have hsince : (s.access q events).since kind = keptBy kind events ++ s.since kind :=
    if_pos (Option.isSome_iff_exists.mpr ⟨d, hd⟩)
  rw [hsince]
  rcases hmoves.pending kind d hd with ⟨hbefore, hkept⟩ | ⟨hkept, hnewer⟩
  · rw [hkept]
    exact h.newest kind d hbefore
  · rw [hkept]
    refine ⟨List.mem_cons_self, fun e he => ?_⟩
    rcases List.mem_cons.mp he with rfl | he
    · exact le_refl _
    · cases hold : s.queue.pending.get kind with
      | none =>
        rw [h.vacant kind hold] at he
        exact nomatch he
      | some p => exact le_trans ((h.newest kind p hold).2 e he) (hnewer p hold)

theorem Inv.vacant_access {kind : Text} (hnone : q.pending.get kind = none) : (s.access q events).since kind = [] := by
  refine if_neg ?_
  rw [hnone]
  exact Bool.false_ne_true

/-- The recorded deliveries are known to the queue after an access. -/
theorem Inv.delivered_access (h : Inv s) (hmoves : Moves s.queue q events) {kind : Text} {start : Nat}
    (hmem : Event.recorded kind start ∈ events ++ s.log) :
    ∃ newest, q.delivered.get kind = some newest ∧ start ≤ newest := by
  rcases List.mem_append.mp hmem with hnow | hbefore
  · exact hmoves.recorded kind start hnow
  · obtain ⟨old, hold, hle⟩ := h.delivered kind start hbefore
    obtain ⟨newest, hnewest, hge⟩ := hmoves.grows kind old hold
    exact ⟨newest, hnewest, le_trans hle hge⟩

/-- **A worker's access to the queue** loses pushes at most; what it says of a push is of the one it holds. -/
theorem Inv.work (h : Inv s) (hw : s.workers = [w]) {w' : Worker} (hmoves : Moves s.queue q events)
    (hshrinks : Shrinks s.queue q) (hrunning : q.workerRunning = s.queue.workerRunning)
    (hholds : ∀ d, w'.push = some d → s.Knows d)
    (hreached : ∀ id, Event.mayHaveReached id ∈ events → ∃ d, w.push = some d ∧ id = d.id)
    (hspent : ∀ kind d, q.pending.get kind = some d → Event.mayHaveReached d.id ∈ events ++ s.log →
      ∃ o : Outcome, o.MayReach ∧ Worker.settling d o = w')
    (hunspent : ∀ d, Worker.picked d = w' ∨ Worker.sending d = w' → Event.mayHaveReached d.id ∉ events ++ s.log)
    (hallowed : Chronicle Allowed (events ++ s.log)) : Inv ((s.access q events).place 0 w') := by
  have hworkers : ((s.access q events).place 0 w').workers = [w'] := by
    show s.workers.set 0 w' = [w']
    rw [hw]
    rfl
  have hknows : ∀ d, ((s.access q events).place 0 w').Knows d → s.Knows d := by
    rintro d (⟨kind, hd⟩ | ⟨w'', hmem, hd⟩)
    · exact Or.inl ⟨kind, hshrinks kind d hd⟩
    · rw [hworkers] at hmem
      rw [List.mem_singleton.mp hmem] at hd
      exact hholds d hd
  have hheld : ∀ d, w.push = some d → s.Knows d := fun d hd => Or.inr ⟨w, hw ▸ List.mem_singleton_self w, hd⟩
  exact {
    counted := by
      show (s.workers.set 0 w').length = q.workerRunning.toNat
      rw [List.length_set, hrunning]
      exact h.counted
    served := by
      intro hbetween hstopped kind
      by_contra hsome
      obtain ⟨d, hd⟩ := Option.ne_none_iff_exists'.mp hsome
      have hnone := h.served hbetween (hrunning ▸ hstopped) kind
      rw [hshrinks kind d hd] at hnone
      exact nomatch hnone
    vacant := fun kind hnone => Inv.vacant_access hnone
    newest := fun kind d hd => h.newest_access hmoves hd
    delivered := fun kind start hmem => h.delivered_access hmoves hmem
    known := fun d hd => h.known d (hknows d hd)
    ended := by
      intro id hmem
      rcases List.mem_append.mp hmem with hnow | hbefore
      · obtain ⟨d, hd, rfl⟩ := hreached id hnow
        exact (List.getElem?_eq_some_iff.mp (h.known d (hheld d hd))).1
      · exact h.ended id hbefore
    spent := by
      intro kind d hd hmem
      obtain ⟨o, ho, hsettling⟩ := hspent kind d hd hmem
      exact ⟨o, ho, by rw [hworkers, hsettling]; exact List.mem_singleton_self w'⟩
    unspent := by
      intro d hd
      rw [hworkers, List.mem_singleton, List.mem_singleton] at hd
      exact hunspent d hd
    allowed := hallowed }

/-- While the worker has no outcome to record, no pending push can have reached the server. -/
theorem Inv.not_spent (h : Inv s) (hw : s.workers = [w]) (hwait : ∀ d o, Worker.settling d o ≠ w) {kind : Text}
    (hd : s.queue.pending.get kind = some d) : Event.mayHaveReached d.id ∉ s.log := by
  intro hmem
  obtain ⟨o, -, hsettling⟩ := h.spent kind d hd hmem
  rw [hw, List.mem_singleton] at hsettling
  exact hwait d o hsettling

/-- The worker wakes and finds a push that is due. -/
theorem Inv.wake (h : Inv s) (hw : s.workers = [.sleeping]) {now uptime : Nat} {order : List Text}
    (hcovers : s.queue.Covers order) (hdue : (s.queue.nextDue now uptime order).2 = some d) :
    Inv ((s.access (s.queue.nextDue now uptime order).1 [.picked d now uptime]).place 0 (.picked d)) := by
  obtain ⟨⟨kind, hd⟩, hallowed⟩ := (nextDue_spec hcovers).1 d hdue
  have hwait : ∀ d o, Worker.settling d o ≠ .sleeping := nofun
  refine h.work hw (moves_of_shrinks shrinks_retained delivered_retained (fun _ => rfl) ?_) shrinks_retained
    workerRunning_retained ?_ ?_ ?_ ?_ ⟨hallowed, h.allowed⟩
  · simp
  · intro d' hd'
    exact Or.inl ⟨kind, (Option.some.inj hd') ▸ hd⟩
  · simp
  · intro kind' d' hd' hmem
    simp only [List.cons_append, List.nil_append, List.mem_cons, reduceCtorEq, false_or] at hmem
    exact absurd hmem (h.not_spent hw hwait (shrinks_retained kind' d' hd'))
  · intro d' hd'
    simp only [Worker.picked.injEq, reduceCtorEq, or_false] at hd'
    subst hd'
    simp only [List.cons_append, List.nil_append, List.mem_cons, reduceCtorEq, false_or]
    exact h.not_spent hw hwait hd

/-- The worker wakes and nothing is due. -/
theorem Inv.stop (h : Inv s) (hw : s.workers = [.sleeping]) {now uptime : Nat} {order : List Text}
    (hcovers : s.queue.Covers order) (hdue : (s.queue.nextDue now uptime order).2 = none) :
    Inv (s.stop 0 (s.queue.nextDue now uptime order).1) := by
  have hnone := (nextDue_spec hcovers).2 hdue
  have hworkers : (s.stop 0 (s.queue.nextDue now uptime order).1).workers = [] := by
    show s.workers.eraseIdx 0 = []
    rw [hw]
    rfl
  have hmoves : Moves s.queue (s.queue.nextDue now uptime order).1 [] :=
    moves_of_shrinks shrinks_retained delivered_retained (fun _ => rfl) fun _ _ hmem => nomatch hmem
  have hempty : ∀ kind d, (s.queue.nextDue now uptime order).1.pending.get kind ≠ some d := by
    intro kind d hd
    rw [hnone kind] at hd
    exact nomatch hd
  exact {
    counted := by
      rw [hworkers]
      rfl
    served := fun _ _ => hnone
    vacant := fun kind hkind => Inv.vacant_access hkind
    newest := fun kind d hd => absurd hd (hempty kind d)
    delivered := fun kind start hmem => h.delivered_access hmoves hmem
    known := by
      rintro d (⟨kind, hd⟩ | ⟨w, hmem, -⟩)
      · exact absurd hd (hempty kind d)
      · rw [hworkers] at hmem
        exact nomatch hmem
    ended := h.ended
    spent := fun kind d hd => absurd hd (hempty kind d)
    unspent := by
      intro d hd
      rw [hworkers] at hd
      exact hd.elim (fun hd => nomatch hd) fun hd => nomatch hd
    allowed := h.allowed }

/-- The worker lets its push go. -/
theorem Inv.release (h : Inv s) (hw : s.workers = [w]) (hmoves : Moves s.queue q events) (hshrinks : Shrinks s.queue q)
    (hrunning : q.workerRunning = s.queue.workerRunning) (hreached : ∀ id, Event.mayHaveReached id ∉ events)
    (hspent : ∀ kind d, q.pending.get kind = some d → Event.mayHaveReached d.id ∉ s.log)
    (hallowed : Chronicle Allowed (events ++ s.log)) : Inv ((s.access q events).place 0 .sleeping) := by
  refine h.work hw hmoves hshrinks hrunning (fun d hd => nomatch hd) ?_ ?_ ?_ hallowed
  · exact fun id hmem => absurd hmem (hreached id)
  · intro kind d hd hmem
    rcases List.mem_append.mp hmem with hnow | hbefore
    · exact absurd hnow (hreached d.id)
    · exact absurd hbefore (hspent kind d hd)
  · exact fun d hd => hd.elim (fun hd => nomatch hd) fun hd => nomatch hd

theorem Inv.disabled (h : Inv s) (hw : s.workers = [.picked d]) :
    Inv ((s.access (s.queue.sent d.toPendingPush) []).place 0 .sleeping) := by
  refine h.release hw (moves_of_shrinks shrinks_sent delivered_sent (fun _ => rfl) fun _ _ hmem => nomatch hmem)
    shrinks_sent workerRunning_sent (fun _ hmem => nomatch hmem) (fun kind e he => ?_) h.allowed
  exact h.not_spent hw nofun (shrinks_sent kind e he)

/-- The push is not pending any more, or it failed again: nothing is recorded. -/
theorem Inv.drop (h : Inv s) (hw : s.workers = [w])
    (hspent : ∀ kind d, s.queue.pending.get kind = some d → Event.mayHaveReached d.id ∉ s.log) :
    Inv (s.place 0 .sleeping) := by
  rw [← h.access_self]
  exact h.release hw (moves_of_shrinks shrinks_self rfl (fun _ => rfl) fun _ _ hmem => nomatch hmem) shrinks_self rfl
    (fun _ hmem => nomatch hmem) hspent h.allowed

/-- The worker begins to send. -/
theorem Inv.begin (h : Inv s) (hw : s.workers = [.picked d]) (hstill : s.queue.StillPending d.toPendingPush) :
    Inv ((s.access s.queue [.began d]).place 0 (.sending d)) := by
  have hfresh : Event.mayHaveReached d.id ∉ s.log := h.unspent d (Or.inl (hw ▸ List.mem_singleton_self _))
  have hnewer : ∀ start, Event.recorded d.notificationType start ∈ s.log → start < d.startedAt := by
    intro start hstart
    obtain ⟨e, he, hpush⟩ := Option.map_eq_some_iff.mp hstill
    have hlt := h.newer he hstart
    rw [show e.startedAt = d.startedAt from congrArg PendingPush.startedAt hpush] at hlt
    exact hlt
  refine h.work hw (moves_of_shrinks shrinks_self rfl (fun _ => rfl) ?_) shrinks_self rfl ?_ ?_ ?_ ?_
    ⟨⟨hfresh, hnewer⟩, h.allowed⟩
  · simp
  · intro e he
    exact Or.inr ⟨.picked d, hw ▸ List.mem_singleton_self _, he⟩
  · simp
  · intro kind e he hmem
    simp only [List.cons_append, List.nil_append, List.mem_cons, reduceCtorEq, false_or] at hmem
    exact absurd hmem (h.not_spent hw nofun he)
  · intro e he
    simp only [Worker.sending.injEq, reduceCtorEq, false_or] at he
    subst he
    simp only [List.cons_append, List.nil_append, List.mem_cons, reduceCtorEq, false_or]
    exact hfresh

/-- An attempt ends. -/
theorem Inv.answer (h : Inv s) (hw : s.workers = [.sending d]) (o : Outcome) :
    Inv ((s.access s.queue (if o.MayReach then [.mayHaveReached d.id] else [])).place 0 (.settling d o)) := by
  have hevents : ∀ e ∈ (if o.MayReach then [Event.mayHaveReached d.id] else []),
      e = .mayHaveReached d.id ∧ o.MayReach := by
    intro e he
    split at he
    · rename_i hreach
      exact ⟨List.mem_singleton.mp he, hreach⟩
    · exact nomatch he
  have hheld : s.Knows d := Or.inr ⟨.sending d, hw ▸ List.mem_singleton_self _, rfl⟩
  refine h.work hw (moves_of_shrinks shrinks_self rfl (fun kind => ?_) fun kind start hmem => ?_) shrinks_self rfl
    (fun e he => ?_) (fun id hmem => ?_) (fun kind e he hmem => ?_) (fun e he => ?_) ?_
  · split
    · rfl
    · rfl
  · exact nomatch (hevents _ hmem).1
  · exact Option.some.inj he ▸ hheld
  · exact ⟨d, rfl, Event.mayHaveReached.inj (hevents _ hmem).1⟩
  · rcases List.mem_append.mp hmem with hnow | hbefore
    · -- the push that may have reached the server is the one the worker holds
      obtain ⟨hid, hreach⟩ := hevents _ hnow
      have heq := h.eq_of_id_eq (Or.inl ⟨kind, he⟩) hheld (Event.mayHaveReached.inj hid)
      exact ⟨o, hreach, by rw [heq]⟩
    · exact absurd hbefore (h.not_spent hw nofun he)
  · exact he.elim (fun he => nomatch he) fun he => nomatch he
  · split
    · exact ⟨trivial, h.allowed⟩
    · exact h.allowed

/-- The worker records an outcome. -/
theorem Inv.settle (h : Inv s) {o : Outcome} (hw : s.workers = [.settling d o]) :
    Inv ((s.settle d o).place 0 .sleeping) := by
  -- what may have reached the server and is pending still is what the worker holds
  have hheld : ∀ kind e, s.queue.pending.get kind = some e → Event.mayHaveReached e.id ∈ s.log →
      e = d ∧ o.MayReach := by
    intro kind e he hmem
    obtain ⟨o', hreach, hsettling⟩ := h.spent kind e he hmem
    rw [hw, List.mem_singleton] at hsettling
    obtain ⟨rfl, rfl⟩ := Worker.settling.inj hsettling
    exact ⟨rfl, hreach⟩
  have hsent : Inv ((s.access (s.queue.sent d.toPendingPush) []).place 0 .sleeping) := by
    refine h.release hw (moves_of_shrinks shrinks_sent delivered_sent (fun _ => rfl) fun _ _ hmem => nomatch hmem)
      shrinks_sent workerRunning_sent (fun _ hmem => nomatch hmem) (fun kind e he hmem => ?_) h.allowed
    obtain ⟨rfl, -⟩ := hheld kind e (shrinks_sent kind e he) hmem
    exact get_sent_ne he
  cases o with
  | delivered =>
    refine h.release hw (moves_recordDelivered (fun _ => rfl) fun kind start hmem => ?_) shrinks_recordDelivered rfl
      (fun id hmem => ?_) (fun kind e he hmem => ?_) ⟨trivial, h.allowed⟩
    · simpa using hmem
    · simp at hmem
    · obtain ⟨rfl, -⟩ := hheld kind e (shrinks_recordDelivered kind e he) hmem
      exact get_recordDelivered_ne he
  | neverSent => exact h.drop hw fun kind e he hmem => (hheld kind e he hmem).2
  | maybeSent => exact hsent
  | unavailable => exact hsent

/-- **A dispatch ends.** Only its own push may become pending, and then it has not reached the server. -/
theorem Inv.dispatch {s' : System} {push : PendingPush} (h : Inv s) (hworkers : s'.workers = s.workers)
    (hdispatches : s'.dispatches = s.dispatches ++ [push]) (hlog : s'.log = events ++ s.log)
    (hsince : s'.since = (s.access s'.queue events).since) (hmoves : Moves s.queue s'.queue events)
    (hrunning : s'.queue.workerRunning = s.queue.workerRunning)
    (hbetween : s'.between = 0 → s.between = 0 ∧ Shrinks s.queue s'.queue)
    (hpending : ∀ kind e, s'.queue.pending.get kind = some e →
      s.queue.pending.get kind = some e ∨ (e = ⟨push, s.dispatches.length⟩ ∧ events = [.kept e]))
    (hreached : ∀ id, Event.mayHaveReached id ∈ events → id = s.dispatches.length)
    (hallowed : Chronicle Allowed (events ++ s.log)) : Inv s' := by
  have hlookup : ∀ e : Dispatch, s.dispatches[e.id]? = some e.toPendingPush →
      s'.dispatches[e.id]? = some e.toPendingPush := by
    intro e he
    rw [hdispatches, List.getElem?_append_left (List.getElem?_eq_some_iff.mp he).1]
    exact he
  -- what was known before is not the dispatch that ends
  have hbefore : ∀ e, s.Knows e → Event.mayHaveReached e.id ∈ s'.log → Event.mayHaveReached e.id ∈ s.log := by
    intro e he hmem
    rw [hlog] at hmem
    refine (List.mem_append.mp hmem).resolve_left fun hnow => ?_
    have hlt := (List.getElem?_eq_some_iff.mp (h.known e he)).1
    rw [hreached e.id hnow] at hlt
    exact lt_irrefl _ hlt
  exact {
    counted := by
      rw [hworkers, hrunning]
      exact h.counted
    served := by
      intro hzero hstopped kind
      obtain ⟨hzero, hshrinks⟩ := hbetween hzero
      by_contra hsome
      obtain ⟨e, he⟩ := Option.ne_none_iff_exists'.mp hsome
      have hnone := h.served hzero (hrunning ▸ hstopped) kind
      rw [hshrinks kind e he] at hnone
      exact nomatch hnone
    vacant := fun kind hnone => by rw [hsince]; exact Inv.vacant_access hnone
    newest := fun kind e he => by rw [hsince]; exact h.newest_access hmoves he
    delivered := fun kind start hmem => h.delivered_access hmoves (hlog ▸ hmem)
    known := by
      rintro e (⟨kind, he⟩ | ⟨w, hw, he⟩)
      · rcases hpending kind e he with he | ⟨rfl, -⟩
        · exact hlookup e (h.known e (Or.inl ⟨kind, he⟩))
        · rw [hdispatches]
          exact List.getElem?_concat_length
      · exact hlookup e (h.known e (Or.inr ⟨w, hworkers ▸ hw, he⟩))
    ended := by
      intro id hmem
      rw [hdispatches, List.length_append, List.length_singleton]
      rw [hlog] at hmem
      rcases List.mem_append.mp hmem with hnow | hbefore
      · rw [hreached id hnow]
        exact Nat.lt_succ_self _
      · exact Nat.lt_succ_of_lt (h.ended id hbefore)
    spent := by
      intro kind e he hmem
      rw [hworkers]
      rcases hpending kind e he with he | ⟨rfl, hevents⟩
      · exact h.spent kind e he (hbefore e (Or.inl ⟨kind, he⟩) hmem)
      · -- the dispatch is new, and it has not reached the server
        rw [hlog, hevents] at hmem
        rcases List.mem_cons.mp hmem with hnow | hbefore
        · exact nomatch hnow
        · exact absurd (h.ended _ hbefore) (lt_irrefl _)
    unspent := by
      intro e he hmem
      rw [hworkers] at he
      have hknown : s.Knows e :=
        he.elim (fun he => Or.inr ⟨_, he, rfl⟩) fun he => Or.inr ⟨_, he, rfl⟩
      exact h.unspent e he (hbefore e hknown hmem)
    allowed := by
      rw [hlog]
      exact hallowed }

/-- The first step of `after_dispatch`. -/
theorem Inv.afterDispatch (h : Inv s) (push : PendingPush) (o : Outcome) (uptime : Nat) :
    Inv (s.afterDispatch push o uptime) := by
  have hnothing : Inv { s with dispatches := s.dispatches ++ [push] } := by
    refine h.dispatch rfl rfl (List.nil_append _).symm ?_
      (moves_of_shrinks shrinks_self rfl (fun _ => rfl) fun _ _ hmem => nomatch hmem) rfl
      (fun hzero => ⟨hzero, shrinks_self⟩) (fun _ _ he => Or.inl he) (fun _ hmem => nomatch hmem) h.allowed
    exact (congrArg System.since h.access_self).symm
  cases o with
  | delivered =>
    refine h.dispatch rfl rfl rfl rfl (moves_recordDelivered (fun _ => rfl) fun kind start hmem => ?_) rfl
      (fun hzero => ⟨hzero, shrinks_recordDelivered⟩) (fun kind e he => Or.inl (shrinks_recordDelivered kind e he))
      (fun id hmem => ?_) ⟨trivial, trivial, h.allowed⟩
    · simpa using hmem
    · simpa using hmem
  | maybeSent =>
    refine h.dispatch rfl rfl rfl rfl (moves_of_shrinks shrinks_self rfl (fun _ => rfl) fun kind start hmem => ?_) rfl
      (fun hzero => ⟨hzero, shrinks_self⟩) (fun kind e he => Or.inl he) (fun id hmem => ?_) ⟨trivial, h.allowed⟩
    · simp at hmem
    · simpa using hmem
  | unavailable => exact hnothing
  | neverSent =>
    rw [System.afterDispatch]
    dsimp only
    split
    · rename_i q hkept
      obtain ⟨hmoves, hrunning, hpending⟩ := recordFailure_spec hkept
      refine h.dispatch rfl rfl rfl rfl hmoves hrunning (fun hzero => absurd hzero (Nat.succ_ne_zero _))
        (fun kind e he => ?_) (fun id hmem => ?_) ⟨trivial, h.allowed⟩
      · rcases hpending kind e he with he | rfl
        · exact Or.inl he
        · exact Or.inr ⟨rfl, rfl⟩
      · simp at hmem
    · exact hnothing

/-- The second step of `after_dispatch`. -/
theorem Inv.flag (h : Inv s) : Inv s.flag := by
  have hworkers : ∀ w ∈ s.flag.workers, w ∈ s.workers ∨ w = .sleeping := by
    intro w hw
    rw [System.flag] at hw
    dsimp only at hw
    split at hw
    · exact Or.inl hw
    · rcases List.mem_append.mp hw with hw | hw
      · exact Or.inl hw
      · exact Or.inr (List.mem_singleton.mp hw)
  have hsame : ∀ w ∈ s.workers, w ∈ s.flag.workers := by
    intro w hw
    rw [System.flag]
    dsimp only
    split
    · exact hw
    · exact List.mem_append_left _ hw
  exact {
    counted := by
      have hcounted := h.counted
      rw [System.flag]
      dsimp only
      split
      · rename_i hrunning
        rw [hcounted, hrunning]
      · rename_i hstopped
        rw [List.length_append, hcounted, Bool.eq_false_of_not_eq_true hstopped]
        rfl
    served := fun _ hstopped => nomatch hstopped
    vacant := h.vacant
    newest := h.newest
    delivered := h.delivered
    known := by
      rintro d (hd | ⟨w, hw, hd⟩)
      · exact h.known d (Or.inl hd)
      · rcases hworkers w hw with hw | rfl
        · exact h.known d (Or.inr ⟨w, hw, hd⟩)
        · exact nomatch hd
    ended := h.ended
    spent := by
      intro kind d hd hmem
      obtain ⟨o, hreach, hsettling⟩ := h.spent kind d hd hmem
      exact ⟨o, hreach, hsame _ hsettling⟩
    unspent := by
      intro d hd
      refine h.unspent d (hd.imp (fun hd => ?_) fun hd => ?_)
      · exact (hworkers _ hd).resolve_right nofun
      · exact (hworkers _ hd).resolve_right nofun
    allowed := h.allowed }

/-- **Every step keeps the invariant.** -/
theorem inv_step {s' : System} {a : Action} (h : Inv s) (hstep : step s a = some s') : Inv s' := by
  cases a with
  | dispatched push o uptime => exact Option.some.inj hstep ▸ h.afterDispatch push o uptime
  | flag => exact Option.some.inj (Option.ite_none_right_eq_some.mp hstep).2 ▸ h.flag
  | work i act =>
    obtain ⟨w, hget, hwork⟩ := Option.bind_eq_some_iff.mp hstep
    obtain ⟨hw, rfl, -⟩ := h.workers_eq hget
    cases w with
    | sleeping =>
      cases act with
      | wake now uptime order =>
        obtain ⟨hcovers, hwork⟩ := Option.ite_none_right_eq_some.mp hwork
        split at hwork
        · rename_i q d hdue
          obtain ⟨rfl, -⟩ := Prod.mk.inj hdue
          exact Option.some.inj hwork ▸ h.wake hw hcovers (congrArg Prod.snd hdue)
        · rename_i q hdue
          obtain ⟨rfl, -⟩ := Prod.mk.inj hdue
          exact Option.some.inj hwork ▸ h.stop hw hcovers (congrArg Prod.snd hdue)
      | _ => exact nomatch hwork
    | picked d =>
      cases act with
      | disabled => exact Option.some.inj hwork ▸ h.disabled hw
      | check =>
        rw [System.workerStep] at hwork
        split at hwork
        · rename_i hstill
          exact Option.some.inj hwork ▸ h.begin hw hstill
        · exact Option.some.inj hwork ▸ h.drop hw fun kind e he => h.not_spent hw nofun he
      | _ => exact nomatch hwork
    | sending d =>
      cases act with
      | answer o => exact Option.some.inj hwork ▸ h.answer hw o
      | _ => exact nomatch hwork
    | settling d o =>
      cases act with
      | settle => exact Option.some.inj hwork ▸ h.settle hw
      | _ => exact nomatch hwork

end

/-! ## What every run keeps -/

/-- **What holds in every state of a run.** -/
structure Safe (s : System) : Prop where
  oneWorker : s.workers.length ≤ 1
  served : s.between = 0 → s.queue.pending.entries ≠ [] → s.workers.length = 1
  onePush : ∀ e ∈ s.queue.pending.entries, ∀ e' ∈ s.queue.pending.entries,
    e.2.notificationType = e'.2.notificationType → e = e'
  undelivered : ∀ kind d, s.queue.pending.get kind = some d → d.notificationType = kind ∧
    ∀ start, Event.recorded kind start ∈ s.log → start < d.startedAt
  newest : ∀ kind d, s.queue.pending.get kind = some d →
    d ∈ s.since kind ∧ ∀ e ∈ s.since kind, e.startedAt ≤ d.startedAt
  allowed : Chronicle Allowed s.log

/-- **Retries are bounded and never duplicate**: in every run there is at most one worker, and one serves the queue
unless a call is between its steps; of each type one push is pending at most, newer than every recorded delivery and the
newest failure kept since the type last had none pending; and every push that is picked or sent is allowed. -/
theorem retries_safe {s : System} (h : Reachable step init s) : Safe s := by
  have hinv : Inv s := h.invariant inv_init fun t a u ht _ htaken => inv_step ht htaken
  have hcounted := hinv.counted
  refine ⟨?_, fun hbetween hpending => ?_, fun e he e' he' hkind => ?_, fun kind d hd => ?_, hinv.newest, hinv.allowed⟩
  · rw [hcounted]
    exact Bool.toNat_le _
  · cases hrunning : s.queue.workerRunning with
    | true => rw [hcounted, hrunning]; rfl
    | false =>
      obtain ⟨e, he⟩ := List.exists_mem_of_ne_nil _ hpending
      have hnone := hinv.served hbetween hrunning e.1
      rw [SortedMap.mem_entries.mp he] at hnone
      exact nomatch hnone
  · have hget := SortedMap.mem_entries.mp he
    have hget' := SortedMap.mem_entries.mp he'
    rw [s.queue.typed e.1 e.2 hget, s.queue.typed e'.1 e'.2 hget'] at hkind
    rw [← hkind] at hget'
    exact Prod.ext hkind (Option.some.inj (hget.symm.trans hget'))
  · exact ⟨s.queue.typed kind d hd, fun start hstart => hinv.newer hd hstart⟩

/-- An archive error that was dispatched at a time. -/
def archiveError (startedAt : Nat) : PendingPush :=
  ⟨"SentryUSB".toList, "Archive failed".toList, none, "archive_error".toList, none, startedAt⟩

/-- A failure is retried and may have reached the server; then an older dispatch turns out to have failed. -/
def overtaken : List Action :=
  [.dispatched (archiveError 10) .neverSent 30, .flag, .work 0 (.wake 20 40 ["archive_error".toList]), .work 0 .check,
    .work 0 (.answer .maybeSent), .work 0 .settle, .dispatched (archiveError 5) .neverSent 50]

theorem overtaken_runs : (run step init overtaken).isSome = true := by decide +kernel

theorem overtaken_safe : Safe ((run step init overtaken).get overtaken_runs) :=
  retries_safe (reachable_of_run (Option.some_get _).symm)

/-- The failures of a type kept since its last recorded delivery. -/
def keptSinceDelivery (kind : Text) (log : List Event) : List Dispatch :=
  keptBy kind (log.takeWhile fun
    | .recorded kind' _ => decide (kind' ≠ kind)
    | _ => true)

/-- A failure is kept, and then an older dispatch turns out to be delivered. -/
def outlived : List Action :=
  [.dispatched (archiveError 10) .neverSent 30, .dispatched (archiveError 5) .delivered 40]

theorem outlived_runs : (run step init outlived).isSome = true := by decide +kernel

/-- The pending push need not be the newest failure kept since the last delivery: a newer one may have been given up;
and it may have been kept before that delivery, which was of an older push. -/
theorem not_newest_since_delivery :
    (∃ s, Reachable step init s ∧ ∃ kind d, s.queue.pending.get kind = some d ∧
        ∃ e ∈ keptSinceDelivery kind s.log, d.startedAt < e.startedAt)
      ∧ ∃ s, Reachable step init s ∧ ∃ kind d, s.queue.pending.get kind = some d ∧
          d ∉ keptSinceDelivery kind s.log := by
  constructor
  · exact ⟨(run step init overtaken).get overtaken_runs, reachable_of_run (Option.some_get _).symm,
      "archive_error".toList, ⟨archiveError 5, 1⟩, by decide +kernel, ⟨archiveError 10, 0⟩, by decide +kernel,
      by decide⟩
  · exact ⟨(run step init outlived).get outlived_runs, reachable_of_run (Option.some_get _).symm,
      "archive_error".toList, ⟨archiveError 10, 0⟩, by decide +kernel, by decide +kernel⟩

end SentryUsb.Api.PushRetry
