import Mathlib

/-! # Loops with a cursor

A loop passes its state from one pass through its body to the next until a pass ends it. Whether it ends is decided by
the states it visits: where every pass moves a cursor forward and none is made beyond a limit, it does; where the
states of a set lead to each other, it does not.

* **`loop`** — the loop, with a bound on its passes;
* **`Visits`** — the states it comes to;
* **`returns_of_advances`** — a loop whose cursor advances returns;
* **`loop_eq_none_of_closed`** — a loop that stays within a set does not;
* **`loop_congr`** — a loop looks at its body only in the states it comes to. -/

namespace SentryUsb.Library

variable {σ ρ : Type*}

/-- What one pass through the body does. -/
inductive Turn (σ ρ : Type*) where
  | again (s : σ)
  | done (r : ρ)

/-- At most `fuel` passes. -/
@[grind =] def loop (body : σ → Turn σ ρ) : Nat → σ → Option ρ
  | 0, _ => none
  | fuel + 1, s => match body s with
    | .again t => loop body fuel t
    | .done r => some r

/-- The loop ends after some number of passes. -/
def Returns (body : σ → Turn σ ρ) (s : σ) : Prop := ∃ fuel r, loop body fuel s = some r

/-- The states a pass is made in. -/
inductive Visits (body : σ → Turn σ ρ) (s : σ) : σ → Prop where
  | start : Visits body s s
  | next {t u : σ} (before : Visits body s t) (taken : body t = .again u) : Visits body s u

/-- Every pass but the last moves the cursor forward. -/
def Advances (cursor : σ → Nat) (body : σ → Turn σ ρ) (s : σ) : Prop :=
  ∀ t u, Visits body s t → body t = .again u → cursor t < cursor u

variable {body : σ → Turn σ ρ} {s t u : σ} {r : ρ}

theorem loop_again (h : body s = .again t) (fuel : Nat) : loop body (fuel + 1) s = loop body fuel t := by
  rw [loop, h]

theorem loop_done (h : body s = .done r) (fuel : Nat) : loop body (fuel + 1) s = some r := by
  rw [loop, h]

/-- What the states after the first pass visit, the loop visits. -/
theorem Visits.head (h : body s = .again t) (hu : Visits body t u) : Visits body s u := by
  induction hu with
  | start => exact .next .start h
  | next _ htaken ih => exact .next ih htaken

/-- **A loop whose cursor advances returns**, when no pass beyond the limit is followed by another. -/
theorem returns_of_advances {cursor : σ → Nat} (limit : Nat) (hadvances : Advances cursor body s)
    (hlimit : ∀ t u, Visits body s t → body t = .again u → cursor t < limit) : Returns body s := by
  -- by induction on what is left up to the limit
  obtain ⟨left, hleft⟩ : ∃ left, limit - cursor s = left := ⟨_, rfl⟩
  induction left using Nat.strongRecOn generalizing s with
  | _ left ih =>
    cases hbody : body s with
    | done r => exact ⟨1, r, loop_done hbody 0⟩
    | again t =>
      have hlt := hadvances s t .start hbody
      have hin := hlimit s t .start hbody
      obtain ⟨fuel, r, hr⟩ := ih (limit - cursor t) (by omega)
        (fun v w hv => hadvances v w (hv.head hbody)) (fun v w hv => hlimit v w (hv.head hbody)) rfl
      exact ⟨fuel + 1, r, by rw [loop_again hbody, hr]⟩

/-- **A loop that stays within a set never returns.** -/
theorem loop_eq_none_of_closed {S : σ → Prop} (hclosed : ∀ t, S t → ∃ u, S u ∧ body t = .again u) (fuel : Nat)
    (hs : S s) : loop body fuel s = none := by
  induction fuel generalizing s with
  | zero => rfl
  | succ fuel ih =>
    obtain ⟨t, ht, hbody⟩ := hclosed s hs
    rw [loop_again hbody, ih ht]

/-- The result of a loop is the result of a pass in a state it visits. -/
theorem exists_done_of_loop {fuel : Nat} (h : loop body fuel s = some r) : ∃ t, Visits body s t ∧ body t = .done r := by
  induction fuel generalizing s with
  | zero => exact absurd h (by simp [loop])
  | succ fuel ih =>
    cases hbody : body s with
    | again t =>
      rw [loop_again hbody] at h
      obtain ⟨u, hu, hdone⟩ := ih h
      exact ⟨u, hu.head hbody, hdone⟩
    | done r' =>
      rw [loop_done hbody] at h
      exact ⟨s, .start, by rw [hbody, Option.some.inj h]⟩

/-- A loop ends with what a pass in a state it visits ends with. -/
theorem exists_loop_of_visits (h : Visits body s t) (hdone : body t = .done r) : ∃ fuel, loop body fuel s = some r := by
  have hgeneral : ∀ {u : σ}, Visits body s u → ∀ fuel, ∃ more, loop body more s = loop body fuel u := by
    intro u hu
    induction hu with
    | start => exact fun fuel => ⟨fuel, rfl⟩
    | next _ htaken ih =>
      intro fuel
      obtain ⟨more, hmore⟩ := ih (fuel + 1)
      exact ⟨more, by rw [hmore, loop_again htaken]⟩
  obtain ⟨more, hmore⟩ := hgeneral h 1
  exact ⟨more, by rw [hmore, loop_done hdone]⟩

/-- More passes do not change a result. -/
theorem loop_unique {r' : ρ} {fuel fuel' : Nat} (h : loop body fuel s = some r) (h' : loop body fuel' s = some r') :
    r = r' := by
  induction fuel generalizing s fuel' with
  | zero => exact nomatch h
  | succ fuel ih =>
    cases fuel' with
    | zero => exact nomatch h'
    | succ fuel' =>
      cases hbody : body s with
      | done r'' =>
        rw [loop_done hbody] at h h'
        exact (Option.some.inj h).symm.trans (Option.some.inj h')
      | again t =>
        rw [loop_again hbody] at h h'
        exact ih h h'

/-- A loop looks at its body only where it comes. -/
theorem loop_congr {body' : σ → Turn σ ρ} (h : ∀ t, Visits body s t → body t = body' t) (fuel : Nat) :
    loop body fuel s = loop body' fuel s := by
  induction fuel generalizing s with
  | zero => rfl
  | succ fuel ih =>
    have hhere := h s .start
    cases hbody : body s with
    | done r => rw [loop_done hbody, loop_done (hhere.symm.trans hbody)]
    | again t =>
      rw [loop_again hbody, loop_again (hhere.symm.trans hbody)]
      exact ih fun u hu => h u (hu.head hbody)

end SentryUsb.Library
