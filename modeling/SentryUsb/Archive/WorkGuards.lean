import SentryUsb.Library.TransitionSystem
import SentryUsb.Video.SeiFields

/-! # Background work and the exclusive update

Exports and uploads count themselves in one atomic integer while they write; an update takes the integer to its largest value,
which keeps new work out (`archive_control.rs`). Both go through compare-and-swap, and a guard gives back what it took.

* **`Process`**, **`step`** — the integer and the callers (`try_begin_work`, `UpdateWorkGuard::try_acquire`, the two `drop`s);
* **`Counted`** — the integer counts the workers, or stands for the update;
* **`guards_apart`** — an update and a worker never hold their guards together, over every interleaving. -/

namespace SentryUsb.Archive.WorkGuards

open Library Video

/-! ## The code -/

/-- Where a caller stands. -/
inductive Caller where
  /-- It holds nothing. -/
  | idle
  /-- It is in the loop of `try_begin_work`, with the integer as it saw it last. -/
  | trying (current : Nat)
  /-- It holds an `ArchiveWorkGuard`. -/
  | working
  /-- It holds the `UpdateWorkGuard`. -/
  | exclusive
  deriving DecidableEq

/-- The process: the integer (`BACKGROUND_WORK`) and its callers. -/
structure Process where
  backgroundWork : Nat
  callers : List Caller
  deriving DecidableEq

/-- `UPDATE_EXCLUSIVE`, the largest value of the integer. -/
def updateExclusive (w : Width) : Nat := w.modulus - 1

/-- One atomic access, or a new caller. -/
inductive Action where
  | arrive
  /-- The load at the head of `try_begin_work`. -/
  | load (i : Nat)
  /-- One pass of its loop. The weak exchange may fail for no reason. -/
  | exchange (i : Nat) (spurious : Bool)
  /-- `ArchiveWorkGuard::drop`. -/
  | dropWork (i : Nat)
  /-- `UpdateWorkGuard::try_acquire`. -/
  | tryAcquire (i : Nat)
  /-- `UpdateWorkGuard::drop`. -/
  | dropUpdate (i : Nat)
  deriving DecidableEq

/-- A caller moves, with the integer as it leaves it. -/
def Process.move (s : Process) (i : Nat) (c : Caller) (count : Nat) : Process :=
  { backgroundWork := count, callers := s.callers.set i c }

/-- One pass of the loop of `try_begin_work`. -/
def Process.exchange (w : Width) (s : Process) (i current : Nat) (spurious : Bool) : Process :=
  if updateExclusive w - 1 ≤ current then s.move i .idle s.backgroundWork
  else if s.backgroundWork = current ∧ spurious = false then s.move i .working (w.add current 1)
  else s.move i (.trying s.backgroundWork) s.backgroundWork

/-- The update's exchange of zero for the largest value. -/
def Process.tryAcquire (w : Width) (s : Process) (i : Nat) : Process :=
  if s.backgroundWork = 0 then s.move i .exclusive (updateExclusive w) else s

/-- One step; a caller that does not stand where the step begins refuses it. -/
def step (w : Width) (s : Process) : Action → Option Process
  | .arrive => some { s with callers := s.callers ++ [.idle] }
  | .load i =>
    match s.callers[i]? with
    | some .idle => some (s.move i (.trying s.backgroundWork) s.backgroundWork)
    | _ => none
  | .exchange i spurious =>
    match s.callers[i]? with
    | some (.trying current) => some (s.exchange w i current spurious)
    | _ => none
  | .dropWork i =>
    match s.callers[i]? with
    | some .working => some (s.move i .idle (w.add s.backgroundWork (w.modulus - 1)))
    | _ => none
  | .tryAcquire i =>
    match s.callers[i]? with
    | some .idle => some (s.tryAcquire w i)
    | _ => none
  | .dropUpdate i =>
    match s.callers[i]? with
    | some .exclusive => some (s.move i .idle 0)
    | _ => none

/-- The process as it starts. -/
def Process.init : Process := ⟨0, []⟩

/-- The live `ArchiveWorkGuard`s. -/
def Process.workers (s : Process) : Nat := s.callers.count .working

/-- The live `UpdateWorkGuard`s. -/
def Process.updates (s : Process) : Nat := s.callers.count .exclusive

/-- How many workers the integer says there are. -/
def workerCount (w : Width) (count : Nat) : Nat := if count = updateExclusive w then 0 else count

/-! ## What is promised -/

/-- The integer says who holds a guard. -/
structure Apart (w : Width) (s : Process) : Prop where
  /-- An update and a worker never hold their guards together. -/
  apart : s.updates = 0 ∨ s.workers = 0
  /-- At most one update holds its guard. -/
  single : s.updates ≤ 1
  /-- The integer counts the live guards of workers. -/
  counted : workerCount w s.backgroundWork = s.workers
  /-- Without guards it is back at zero. -/
  idle : s.updates = 0 → s.workers = 0 → s.backgroundWork = 0

/-- The integer counts the workers, or stands for the one update. -/
def Counted (w : Width) (s : Process) : Prop :=
  (s.updates = 0 ∧ s.backgroundWork = s.workers ∧ s.workers < updateExclusive w) ∨
    (s.updates = 1 ∧ s.workers = 0 ∧ s.backgroundWork = updateExclusive w)

/-! ## One step -/

section OneStep

variable {w : Width} {s t : Process} {i count : Nat} {c d e : Caller}

/-- A caller that moves counts where it goes, and no longer where it was. -/
theorem count_move (d e : Caller) (count : Nat) (h : s.callers[i]? = some c) :
    (s.move i d count).callers.count e + (if c = e then 1 else 0) = s.callers.count e + if d = e then 1 else 0 := by
  obtain ⟨hi, hc⟩ := List.getElem?_eq_some_iff.mp h
  have hpos : c = e → 0 < s.callers.count e := by
    intro he
    rw [← he, ← hc]
    exact List.count_pos_iff.mpr (List.getElem_mem hi)
  show (s.callers.set i d).count e + _ = _
  rw [List.count_set hi, hc]
  simp only [beq_iff_eq]
  split
  · rename_i hce
    have := hpos hce
    omega
  · omega

theorem updateExclusive_pos (w : Width) : 2 ≤ updateExclusive w := by
  have := w.modulus_le.1
  rw [updateExclusive]
  omega

theorem Counted.init : Counted w .init := .inl ⟨rfl, rfl, lt_of_lt_of_le (by decide) (updateExclusive_pos w)⟩

/-- A caller that moves between places without a guard leaves the count as it is. -/
theorem Counted.move (h : Counted w s) (hc : s.callers[i]? = some c) (hcw : c ≠ .working) (hcx : c ≠ .exclusive)
    (hdw : d ≠ .working) (hdx : d ≠ .exclusive) : Counted w (s.move i d s.backgroundWork) := by
  have hworkers : (s.move i d s.backgroundWork).workers = s.workers := by
    have := count_move d .working s.backgroundWork hc
    rwa [if_neg hcw, if_neg hdw] at this
  have hupdates : (s.move i d s.backgroundWork).updates = s.updates := by
    have := count_move d .exclusive s.backgroundWork hc
    rwa [if_neg hcx, if_neg hdx] at this
  rw [Counted, hworkers, hupdates]
  exact h

/-- A pass of the loop: the sentinel keeps a worker out, and another caller's step makes the exchange fail. -/
theorem Counted.exchange {current : Nat} {spurious : Bool} (h : Counted w s)
    (hc : s.callers[i]? = some (.trying current)) : Counted w (s.exchange w i current spurious) := by
  unfold Process.exchange
  split
  · exact h.move hc nofun nofun nofun nofun
  · rename_i hroom
    split
    · rename_i hsame
      have hbound := updateExclusive_pos w
      rcases h with ⟨hupdates, hcount, -⟩ | ⟨-, -, hcount⟩
      · have hworkers := count_move .working .working (w.add current 1) hc
        have hupdates' := count_move .working .exclusive (w.add current 1) hc
        simp only [reduceCtorEq, if_false, if_true, Nat.add_zero] at hworkers hupdates'
        have hadd : w.add current 1 = current + 1 := by
          apply Width.add_eq
          rw [updateExclusive] at hroom hbound
          omega
        refine .inl ⟨hupdates'.trans hupdates, ?_, ?_⟩
        · show w.add current 1 = _
          rw [hadd, ← hsame.1, hcount]
          exact hworkers.symm
        · show (s.move i .working (w.add current 1)).callers.count .working < _
          rw [hworkers]
          have : s.callers.count .working = current := hcount.symm.trans hsame.1
          omega
      · omega
    · exact h.move hc nofun nofun nofun nofun

/-- A worker that stops gives its one back. -/
theorem Counted.dropWork (h : Counted w s) (hc : s.callers[i]? = some .working) :
    Counted w (s.move i .idle (w.add s.backgroundWork (w.modulus - 1))) := by
  have hworkers := count_move .idle .working (w.add s.backgroundWork (w.modulus - 1)) hc
  have hupdates := count_move .idle .exclusive (w.add s.backgroundWork (w.modulus - 1)) hc
  simp only [reduceCtorEq, if_false, if_true, Nat.add_zero] at hworkers hupdates
  rcases h with ⟨hnone, hcount, hbound⟩ | ⟨-, hnone, -⟩
  · have hcount' : s.backgroundWork = s.callers.count .working := hcount
    have hbound' : s.callers.count .working < updateExclusive w := hbound
    have hadd : w.add s.backgroundWork (w.modulus - 1) + 1 = s.backgroundWork := by
      have hmodulus := w.modulus_le.1
      have hsum : s.backgroundWork + (w.modulus - 1) = (s.backgroundWork - 1) + w.modulus := by omega
      have hlt : s.backgroundWork - 1 < w.modulus := by
        rw [updateExclusive] at hbound'
        omega
      rw [Width.add, hsum, Nat.add_mod_right, Nat.mod_eq_of_lt hlt]
      omega
    refine .inl ⟨hupdates.trans hnone, ?_, ?_⟩
    · show w.add s.backgroundWork (w.modulus - 1) = (s.move i .idle _).callers.count .working
      omega
    · show (s.move i .idle _).callers.count .working < _
      omega
  · have hnone' : s.callers.count .working = 0 := hnone
    omega

/-- An update comes in only when the integer is zero. -/
theorem Counted.tryAcquire (h : Counted w s) (hc : s.callers[i]? = some .idle) : Counted w (s.tryAcquire w i) := by
  unfold Process.tryAcquire
  split
  · rename_i hzero
    have hworkers := count_move .exclusive .working (updateExclusive w) hc
    have hupdates := count_move .exclusive .exclusive (updateExclusive w) hc
    simp only [reduceCtorEq, if_false, if_true, Nat.add_zero] at hworkers hupdates
    have hbound := updateExclusive_pos w
    rcases h with ⟨hnone, hcount, -⟩ | ⟨-, -, hcount⟩
    · refine .inr ⟨?_, ?_, rfl⟩
      · show (s.move i .exclusive _).callers.count .exclusive = 1
        rw [hupdates]
        exact congrArg (· + 1) hnone
      · exact hworkers.trans (hcount.symm.trans hzero)
    · omega
  · exact h

/-- An update that ends leaves nobody. -/
theorem Counted.dropUpdate (h : Counted w s) (hc : s.callers[i]? = some .exclusive) : Counted w (s.move i .idle 0) := by
  have hworkers := count_move .idle .working 0 hc
  have hupdates := count_move .idle .exclusive 0 hc
  simp only [reduceCtorEq, if_false, if_true, Nat.add_zero] at hworkers hupdates
  rcases h with ⟨hnone, -, -⟩ | ⟨hone, hnone, -⟩
  · have hnone' : s.callers.count .exclusive = 0 := hnone
    omega
  · have hone' : s.callers.count .exclusive = 1 := hone
    refine .inl ⟨?_, ?_, ?_⟩
    · show (s.move i .idle 0).callers.count .exclusive = 0
      omega
    · exact (hworkers.trans hnone).symm
    · exact lt_of_eq_of_lt (hworkers.trans hnone) (lt_of_lt_of_le Nat.zero_lt_two (updateExclusive_pos w))

/-- What one step can do. -/
theorem counted_step {a : Action} (h : Counted w s) (hstep : step w s a = some t) : Counted w t := by
  cases a with
  | arrive =>
    obtain rfl := Option.some.inj hstep
    have hcount : ∀ c : Caller, c ≠ .idle → (s.callers ++ [Caller.idle]).count c = s.callers.count c := by
      intro c hc
      rw [List.count_append, List.count_singleton, if_neg (by simpa using hc.symm), Nat.add_zero]
    rw [Counted, Process.updates, Process.workers, hcount .exclusive nofun, hcount .working nofun]
    exact h
  | load i =>
    rw [step] at hstep
    split at hstep
    · rename_i hc
      obtain rfl := Option.some.inj hstep
      exact h.move hc nofun nofun nofun nofun
    · exact nomatch hstep
  | exchange i spurious =>
    rw [step] at hstep
    split at hstep
    · rename_i current hc
      obtain rfl := Option.some.inj hstep
      exact h.exchange hc
    · exact nomatch hstep
  | dropWork i =>
    rw [step] at hstep
    split at hstep
    · rename_i hc
      obtain rfl := Option.some.inj hstep
      exact h.dropWork hc
    · exact nomatch hstep
  | tryAcquire i =>
    rw [step] at hstep
    split at hstep
    · rename_i hc
      obtain rfl := Option.some.inj hstep
      exact h.tryAcquire hc
    · exact nomatch hstep
  | dropUpdate i =>
    rw [step] at hstep
    split at hstep
    · rename_i hc
      obtain rfl := Option.some.inj hstep
      exact h.dropUpdate hc
    · exact nomatch hstep

theorem Counted.guards (h : Counted w s) : Apart w s := by
  rcases h with ⟨hupdates, hcount, hbound⟩ | ⟨hupdates, hworkers, hcount⟩
  · refine ⟨.inl hupdates, by omega, ?_, fun _ hworkers => hcount.trans hworkers⟩
    rw [workerCount, if_neg (by omega), hcount]
  · refine ⟨.inr hworkers, by omega, ?_, fun hnone => by omega⟩
    rw [workerCount, if_pos hcount, hworkers]

end OneStep

/-! ## Every run -/

/-- **An update and background work keep apart**, in every interleaving of any number of callers. -/
theorem guards_apart {w : Width} {s : Process} (h : Reachable (step w) .init s) : Apart w s :=
  (h.invariant Counted.init fun _ _ _ hcounted _ hstep => counted_step hcounted hstep).guards

/-- A worker and an update get in each other's way: the update is refused, the worker loses a weak exchange, starts and
stops, then the update gets in and the next worker is refused. -/
def crossing : List Action :=
  [.arrive, .arrive, .load 0, .exchange 0 true, .exchange 0 false, .tryAcquire 1, .dropWork 0, .tryAcquire 1, .load 0,
    .exchange 0 false]

theorem crossing_isSome : (run (step .w64) .init crossing).isSome = true := by decide

/-- The guards in that run. -/
theorem guards_apart_crossing : ∃ s, run (step .w64) .init crossing = some s ∧ Apart .w64 s :=
  ⟨_, (Option.some_get crossing_isSome).symm, guards_apart (reachable_of_run (Option.some_get crossing_isSome).symm)⟩

end SentryUsb.Archive.WorkGuards
