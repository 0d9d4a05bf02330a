import Mathlib

/-! # Conditional writes with remembered outcomes

A server that decides each operation once: the first request is accepted or rejected by a condition,
and every repetition is answered with that first outcome.

* **`OperationLog`** — the decided operations, each at most once;
* **`OperationLog.answer`** — decide or repeat;
* **`WriteHistory.answer`** — an operation takes effect at most once. -/

namespace SentryUsb.Library

variable {π : Type*}

/-- The decided operations and their outcomes. No operation is decided twice. -/
structure OperationLog (π : Type*) where
  outcomes : List (π × Bool)
  unique : (outcomes.map Prod.fst).Nodup

namespace OperationLog

/-- No operation is decided. -/
def empty : OperationLog π := ⟨[], List.nodup_nil⟩

/-- Whether an operation took effect. -/
def Applied (log : OperationLog π) (p : π) : Prop := (p, true) ∈ log.outcomes

/-- Whether an operation was turned down. -/
def Rejected (log : OperationLog π) (p : π) : Prop := (p, false) ∈ log.outcomes

/-- The outcome of an operation, if it is decided. -/
def outcome [DecidableEq π] (log : OperationLog π) (p : π) : Option Bool := log.outcomes.lookup p

theorem mem_outcomes_of_outcome [DecidableEq π] {log : OperationLog π} {p : π} {b : Bool}
    (h : log.outcome p = some b) : (p, b) ∈ log.outcomes := by
  obtain ⟨before, after, hsplit, -⟩ := List.lookup_eq_some_iff.mp h
  rw [hsplit]
  simp

theorem notMem_of_outcome_none [DecidableEq π] {log : OperationLog π} {p : π}
    (h : log.outcome p = none) : p ∉ log.outcomes.map Prod.fst := by
  intro hmem
  obtain ⟨⟨q, b⟩, hq, rfl⟩ := List.mem_map.mp hmem
  rw [outcome, List.lookup_eq_none_iff] at h
  simpa using h _ hq

/-- Record a decision of an undecided operation. -/
def record (log : OperationLog π) (p : π) (accept : Bool) (h : p ∉ log.outcomes.map Prod.fst) :
    OperationLog π :=
  ⟨(p, accept) :: log.outcomes, List.nodup_cons.mpr ⟨h, log.unique⟩⟩

/-- Answer a request: repeat the outcome, or decide now. -/
def answer [DecidableEq π] (log : OperationLog π) (p : π) (accept : Bool) : OperationLog π × Bool :=
  match h : log.outcome p with
  | some b => (log, b)
  | none => (log.record p accept (notMem_of_outcome_none h), accept)

/-- What an answer leaves in the log: nothing new and the old outcome, or a new decision. -/
theorem answer_cases [DecidableEq π] (log : OperationLog π) (p : π) (accept : Bool) :
    ((log.answer p accept).1 = log ∧ (p, (log.answer p accept).2) ∈ log.outcomes)
      ∨ (p ∉ log.outcomes.map Prod.fst ∧ (log.answer p accept).2 = accept
        ∧ (log.answer p accept).1.outcomes = (p, accept) :: log.outcomes) := by
  unfold answer
  split
  · rename_i b hb
    exact .inl ⟨rfl, mem_outcomes_of_outcome hb⟩
  · rename_i hnone
    exact .inr ⟨notMem_of_outcome_none hnone, rfl, rfl⟩

/-- Decisions are kept. -/
theorem mem_outcomes_answer [DecidableEq π] {log : OperationLog π} {p : π} {accept : Bool}
    {r : π × Bool} (h : r ∈ log.outcomes) : r ∈ (log.answer p accept).1.outcomes := by
  rcases log.answer_cases p accept with ⟨heq, -⟩ | ⟨-, -, heq⟩
  · rw [heq]
    exact h
  · rw [heq]
    exact List.mem_cons_of_mem _ h

/-- The answer is what the log says. -/
theorem answer_mem_outcomes [DecidableEq π] (log : OperationLog π) (p : π) (accept : Bool) :
    (p, (log.answer p accept).2) ∈ (log.answer p accept).1.outcomes := by
  rcases log.answer_cases p accept with ⟨heq, hmem⟩ | ⟨-, hans, heq⟩
  · rw [heq]
    exact hmem
  · rw [heq, hans]
    exact List.mem_cons_self

/-- Whether a request takes effect now. -/
def effective [DecidableEq π] (log : OperationLog π) (p : π) (accept : Bool) : Bool :=
  accept && (log.outcome p).isNone

theorem notMem_of_effective [DecidableEq π] {log : OperationLog π} {p : π} {accept : Bool}
    (h : log.effective p accept = true) : p ∉ log.outcomes.map Prod.fst := by
  simp only [effective, Bool.and_eq_true, Option.isNone_iff_eq_none] at h
  exact notMem_of_outcome_none h.2

theorem applied_of_effective [DecidableEq π] {log : OperationLog π} {p : π} {accept : Bool}
    (h : log.effective p accept = true) : (log.answer p accept).1.Applied p := by
  have hnew := notMem_of_effective h
  simp only [effective, Bool.and_eq_true] at h
  rcases log.answer_cases p accept with ⟨-, hmem⟩ | ⟨-, -, heq⟩
  · exact absurd (List.mem_map_of_mem hmem) hnew
  · unfold Applied
    rw [heq, h.1]
    exact List.mem_cons_self

end OperationLog

/-- A history of writes that the log knows as applied. -/
structure WriteHistory (log : OperationLog π) (writes : List π) : Prop where
  mem_iff : ∀ p, p ∈ writes ↔ log.Applied p
  nodup : writes.Nodup

theorem WriteHistory.empty : WriteHistory (OperationLog.empty : OperationLog π) [] :=
  ⟨fun p => by simp [OperationLog.Applied, OperationLog.empty], List.nodup_nil⟩

/-- **An operation takes effect at most once**: answering a request adds its write exactly when it
takes effect now. -/
theorem WriteHistory.answer [DecidableEq π] {log : OperationLog π} {writes : List π}
    (h : WriteHistory log writes) (p : π) (accept : Bool) :
    WriteHistory (log.answer p accept).1
      (if log.effective p accept then p :: writes else writes) := by
  by_cases heff : log.effective p accept = true
  · have hnew := OperationLog.notMem_of_effective heff
    have haccept : accept = true := by
      simp only [OperationLog.effective, Bool.and_eq_true] at heff
      exact heff.1
    rw [if_pos heff]
    rcases log.answer_cases p accept with ⟨-, hmem⟩ | ⟨-, -, heq⟩
    · exact absurd (List.mem_map_of_mem hmem) hnew
    · refine ⟨fun q => ?_, List.nodup_cons.mpr ⟨fun hp => ?_, h.nodup⟩⟩
      · unfold OperationLog.Applied
        rw [heq, List.mem_cons, List.mem_cons, h.mem_iff, haccept]
        simp [OperationLog.Applied]
      · exact hnew (List.mem_map_of_mem ((h.mem_iff p).mp hp))
  · rw [if_neg heff]
    refine ⟨fun q => ?_, h.nodup⟩
    rw [h.mem_iff]
    unfold OperationLog.Applied
    rcases log.answer_cases p accept with ⟨heq, -⟩ | ⟨hnew, -, heq⟩
    · rw [heq]
    · have hreject : accept = false := by
        by_contra hne
        have hnone : log.outcome p = none := by
          cases hout : log.outcome p with
          | none => rfl
          | some b =>
            exact absurd (List.mem_map_of_mem (OperationLog.mem_outcomes_of_outcome hout)) hnew
        exact heff (by simp [OperationLog.effective, hnone, Bool.not_eq_false _ ▸ hne])
      rw [heq, hreject, List.mem_cons]
      simp

end SentryUsb.Library
