import Mathlib

/-! # Sweeping over events in order

Events at positions change a state. A sweep goes through them in the order of their positions and sees, between two of
them, a state that holds at every position of the span.

* **`stateAt`** — the state at a position;
* **`spans`** — the spans between the events, each with what is seen of the state;
* **`sum_spans`** — the spans in which something is seen are as long as the positions where it is seen are many. -/

namespace SentryUsb.Library

variable {ε σ β : Type*}

/-- The state at a position: events up to it have happened. -/
def stateAt (pos : ε → ℕ) (apply : σ → ε → σ) (s : σ) (events : List ε) (p : ℕ) : σ :=
  (events.takeWhile fun e => decide (pos e ≤ p)).foldl apply s

/-- The spans between the events from `prev` on, each with what is seen of the state in it. -/
def spans (pos : ε → ℕ) (apply : σ → ε → σ) (view : σ → β) : σ → ℕ → List ε → List (β × ℕ)
  | _, _, [] => []
  | s, prev, e :: events => (view s, pos e - prev) :: spans pos apply view (apply s e) (pos e) events

/-- The position of the last event. -/
def lastPos (pos : ε → ℕ) : ℕ → List ε → ℕ
  | prev, [] => prev
  | _, e :: events => lastPos pos (pos e) events

variable {pos : ε → ℕ} {apply : σ → ε → σ} {view : σ → β}

theorem stateAt_of_lt {s : σ} {events : List ε} {p : ℕ} (h : ∀ e ∈ events.head?, p < pos e) :
    stateAt pos apply s events p = s := by
  cases events with
  | nil => rfl
  | cons e events =>
    have hlt := h e rfl
    rw [stateAt, List.takeWhile_cons, decide_eq_false (by omega)]
    rfl

theorem stateAt_cons_of_le {s : σ} {e : ε} {events : List ε} {p : ℕ} (h : pos e ≤ p) :
    stateAt pos apply s (e :: events) p = stateAt pos apply (apply s e) events p := by
  rw [stateAt, List.takeWhile_cons, decide_eq_true h, if_pos rfl, List.foldl_cons, stateAt]

/-- **The state at a position** is that after the events up to it, and the others come later. -/
theorem exists_stateAt_eq (apply : σ → ε → σ) (s : σ) {events : List ε}
    (hsorted : events.Pairwise fun a b => pos a ≤ pos b) (p : ℕ) :
    ∃ before later, events = before ++ later ∧ (∀ e ∈ before, pos e ≤ p) ∧ (∀ e ∈ later, p < pos e)
      ∧ stateAt pos apply s events p = before.foldl apply s := by
  induction events generalizing s with
  | nil => exact ⟨[], [], rfl, List.forall_mem_nil _, List.forall_mem_nil _, rfl⟩
  | cons e events ih =>
    obtain ⟨hfirst, hrest⟩ := List.pairwise_cons.mp hsorted
    by_cases hle : pos e ≤ p
    · obtain ⟨before, later, rfl, hbefore, hlater, hstate⟩ := ih (apply s e) hrest
      refine ⟨e :: before, later, rfl, List.forall_mem_cons.mpr ⟨hle, hbefore⟩, hlater, ?_⟩
      rw [stateAt_cons_of_le hle, hstate]
      rfl
    · have hlt := not_le.mp hle
      refine ⟨[], e :: events, rfl, List.forall_mem_nil _, ?_, stateAt_of_lt fun e' he' => ?_⟩
      · exact List.forall_mem_cons.mpr ⟨hlt, fun e' he' => hlt.trans_le (hfirst e' he')⟩
      · rwa [← Option.some.inj he']

/-- The last event is not before the first. -/
theorem le_lastPos {prev : ℕ} {events : List ε} (hsorted : events.Pairwise fun a b => pos a ≤ pos b)
    (hprev : ∀ e ∈ events, prev ≤ pos e) : prev ≤ lastPos pos prev events := by
  induction events generalizing prev with
  | nil => exact le_rfl
  | cons e events ih =>
    obtain ⟨hfirst, hrest⟩ := List.pairwise_cons.mp hsorted
    exact (hprev e List.mem_cons_self).trans (ih hrest hfirst)

theorem le_lastPos_of_mem (prev : ℕ) {events : List ε} (hsorted : events.Pairwise fun a b => pos a ≤ pos b) :
    ∀ e ∈ events, pos e ≤ lastPos pos prev events := by
  induction events generalizing prev with
  | nil => exact List.forall_mem_nil _
  | cons e events ih =>
    obtain ⟨hfirst, hrest⟩ := List.pairwise_cons.mp hsorted
    exact List.forall_mem_cons.mpr ⟨le_lastPos hrest hfirst, ih (pos e) hrest⟩

/-- The last position is that of an event, if there is one. -/
theorem lastPos_mem (prev : ℕ) {events : List ε} (h : events ≠ []) : ∃ e ∈ events, lastPos pos prev events = pos e := by
  induction events generalizing prev with
  | nil => exact absurd rfl h
  | cons e events ih =>
    cases events with
    | nil => exact ⟨e, List.mem_cons_self, rfl⟩
    | cons e' events =>
      obtain ⟨last, hlast, heq⟩ := ih (pos e) (List.cons_ne_nil _ _)
      exact ⟨last, List.mem_cons_of_mem e hlast, heq⟩

/-- **What the spans add up to**: the positions from the first event to the last where the state is seen so. -/
theorem sum_spans [DecidableEq β] {s : σ} {prev : ℕ} {events : List ε}
    (hsorted : events.Pairwise fun a b => pos a ≤ pos b) (hprev : ∀ e ∈ events, prev ≤ pos e) (b : β) :
    (((spans pos apply view s prev events).filter fun x => decide (x.1 = b)).map Prod.snd).sum
      = ((Finset.Ico prev (lastPos pos prev events)).filter
          fun p => view (stateAt pos apply s events p) = b).card := by
  induction events generalizing s prev with
  | nil => rw [lastPos, Finset.Ico_self]; rfl
  | cons e events ih =>
    obtain ⟨hfirst, hrest⟩ := List.pairwise_cons.mp hsorted
    have hlow := hprev e List.mem_cons_self
    have hhigh : pos e ≤ lastPos pos (pos e) events := le_lastPos hrest hfirst
    -- before the event the state is the old one, from it on the new one
    have hbefore : ((Finset.Ico prev (pos e)).filter fun p => view (stateAt pos apply s (e :: events) p) = b)
        = (Finset.Ico prev (pos e)).filter fun _ => view s = b := by
      apply Finset.filter_congr
      intro p hp
      rw [stateAt_of_lt]
      intro e' he'
      rw [← Option.some.inj he']
      exact (Finset.mem_Ico.mp hp).2
    have hafter : ((Finset.Ico (pos e) (lastPos pos (pos e) events)).filter
          fun p => view (stateAt pos apply s (e :: events) p) = b)
        = (Finset.Ico (pos e) (lastPos pos (pos e) events)).filter
            fun p => view (stateAt pos apply (apply s e) events p) = b := by
      apply Finset.filter_congr
      intro p hp
      rw [stateAt_cons_of_le (Finset.mem_Ico.mp hp).1]
    have hhere : ((Finset.Ico prev (pos e)).filter fun _ => view s = b).card
        = if view s = b then pos e - prev else 0 := by
      rw [Finset.filter_const]
      split
      · rw [Nat.card_Ico]
      · rfl
    rw [lastPos, ← Finset.Ico_union_Ico_eq_Ico hlow hhigh, Finset.filter_union, Finset.card_union_of_disjoint,
      hbefore, hafter, hhere, ← ih hrest hfirst, spans, List.filter_cons]
    · by_cases hview : view s = b
      · rw [if_pos hview, decide_eq_true hview, if_pos rfl, List.map_cons, List.sum_cons]
      · rw [if_neg hview, decide_eq_false hview, if_neg Bool.false_ne_true, Nat.zero_add]
    · exact Finset.disjoint_filter_filter (Finset.Ico_disjoint_Ico_consecutive _ _ _)

end SentryUsb.Library
