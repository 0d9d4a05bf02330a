import Mathlib

/-! # Histories whose entries are justified by their past

A history is a list of entries, the newest first. What a system promises about its past is often that every entry was
allowed when it was written: a relation between the entry and what was written before it.

* **`Chronicle`** — every entry stands in a relation to the entries before it;
* **`Chronicle.of_append`**, **`chronicle_iff`** — the same, said of every place in the history;
* **`chronicle_and`** — two conditions at once;
* **`Chronicle.of_mem`** — the past of an entry, inside the history. -/

namespace SentryUsb.Library

variable {ε : Type*}

/-- Every entry is allowed by the entries before it. -/
def Chronicle (Allowed : ε → List ε → Prop) : List ε → Prop
  | [] => True
  | e :: past => Allowed e past ∧ Chronicle Allowed past

variable {Allowed : ε → List ε → Prop} {e : ε} {past history : List ε}

theorem chronicle_nil : Chronicle Allowed [] := trivial

theorem chronicle_cons : Chronicle Allowed (e :: past) ↔ Allowed e past ∧ Chronicle Allowed past := Iff.rfl

/-- The past of a history that goes on is a history. -/
theorem Chronicle.of_append {later : List ε} (h : Chronicle Allowed (later ++ past)) : Chronicle Allowed past := by
  induction later with
  | nil => exact h
  | cons e later ih => exact ih h.2

/-- Every entry, wherever it stands, is allowed by what stands before it. -/
theorem chronicle_iff : Chronicle Allowed history ↔
    ∀ later e past, history = later ++ e :: past → Allowed e past := by
  constructor
  · rintro h later e past rfl
    exact h.of_append.1
  · induction history with
    | nil => exact fun _ => chronicle_nil
    | cons e past ih =>
      intro h
      refine ⟨h [] e past rfl, ih fun later e' past' heq => ?_⟩
      exact h (e :: later) e' past' (by rw [heq]; rfl)

/-- Two conditions on entries are two conditions on the history. -/
theorem chronicle_and {Allowed' : ε → List ε → Prop} :
    Chronicle (fun e past => Allowed e past ∧ Allowed' e past) history ↔
      Chronicle Allowed history ∧ Chronicle Allowed' history := by
  induction history with
  | nil => exact ⟨fun _ => ⟨chronicle_nil, chronicle_nil⟩, fun _ => chronicle_nil⟩
  | cons e past ih => rw [chronicle_cons, chronicle_cons, chronicle_cons, ih, and_and_and_comm]

/-- An entry of the history and its past. -/
theorem Chronicle.of_mem (h : Chronicle Allowed history) (he : e ∈ history) :
    ∃ later past, history = later ++ e :: past ∧ Allowed e past := by
  obtain ⟨later, past, rfl⟩ := List.append_of_mem he
  exact ⟨later, past, rfl, h.of_append.1⟩

end SentryUsb.Library
