import Mathlib

/-! # Programs over durable state

A program changes durable state by atomic effects and ends with a result or an error. It may be stopped between any two
effects, by a power cut or a killed process; what it leaves behind is then one of the states it passes through.

* **`Stoppable`** — the states a program passes through, and its result;
* **`Stoppable.stops`** — the states it may be stopped in;
* **`Stoppable.mem_stops_bind`** — a program stopped in its first part, or after it in its second;
* **`Stoppable.bind_ok`** — the result of a sequence whose first part succeeds;
* **`Stoppable.Triple`** — before, after and wherever the program is stopped, with the rules **`Triple.bind`**,
  **`Triple.attempt`** and **`Triple.foldlM`**;
* **`Stoppable.Keeps`** — an invariant at every stop, with the same rules. -/

namespace SentryUsb.Library

/-- A program over durable state: the states after each of its effects, and its result. -/
def Stoppable (σ ε α : Type) : Type := σ → List σ × Except ε α

namespace Stoppable

variable {σ ε α β : Type}

/-- The state a program ends in. -/
def final (x : Stoppable σ ε α) (s : σ) : σ := (x s).1.getLastD s

/-- What a program returns. -/
def result (x : Stoppable σ ε α) (s : σ) : Except ε α := (x s).2

/-- The states a program may be stopped in, the first before its first effect. -/
def stops (x : Stoppable σ ε α) (s : σ) : List σ := s :: (x s).1

/-- No effect. -/
def done (a : α) : Stoppable σ ε α := fun _ => ([], .ok a)

/-- One program, then another. -/
def andThen (x : Stoppable σ ε α) (g : α → Stoppable σ ε β) : Stoppable σ ε β := fun s =>
  match x.result s with
  | .ok a => ((x s).1 ++ (g a (x.final s)).1, (g a (x.final s)).2)
  | .error e => ((x s).1, .error e)

instance : Monad (Stoppable σ ε) where
  pure := done
  bind := andThen

/-- Read the state. -/
def get : Stoppable σ ε σ := fun s => ([], .ok s)

/-- A computation without effect. -/
def lift (x : Except ε α) : Stoppable σ ε α := fun _ => ([], x)

/-- An atomic effect. When it fails the state stays. -/
def effect (g : σ → Except ε σ) : Stoppable σ ε Unit := fun s =>
  match g s with
  | .ok t => ([t], .ok ())
  | .error e => ([], .error e)

/-- Go on only under a condition. -/
def check (condition : Bool) (message : ε) : Stoppable σ ε Unit :=
  lift (if condition then .ok () else .error message)

/-- An atomic effect that may fail. The program goes on and knows which it was. -/
def attempt (g : σ → Option σ) : Stoppable σ ε Bool := fun s =>
  match g s with
  | some t => ([t], .ok true)
  | none => ([], .ok false)

/-- Run a program and go on with its result, error or not. -/
def caught {ε' : Type} (x : Stoppable σ ε α) : Stoppable σ ε' (Except ε α) := fun s => ((x s).1, .ok (x.result s))

/-! ## Simple programs -/

theorem effect_ok {g : σ → Except ε σ} {s t : σ} (h : g s = .ok t) :
    stops (effect g) s = [s, t] ∧ result (effect g) s = .ok () ∧ final (effect g) s = t := by
  unfold stops result final effect
  rw [h]
  exact ⟨rfl, rfl, rfl⟩

theorem effect_error {g : σ → Except ε σ} {s : σ} {e : ε} (h : g s = .error e) :
    stops (effect g) s = [s] ∧ result (effect g) s = .error e := by
  unfold stops result effect
  rw [h]
  exact ⟨rfl, rfl⟩

/-! ## Sequences -/

theorem final_mem_stops (x : Stoppable σ ε α) (s : σ) : x.final s ∈ x.stops s := by
  unfold final stops
  cases h : (x s).1 with
  | nil => exact List.mem_cons_self
  | cons t l =>
    rw [List.getLastD_cons]
    exact List.mem_cons_of_mem _ (List.getLastD_mem_cons ..)

theorem getLastD_append (l m : List σ) (s : σ) : (l ++ m).getLastD s = m.getLastD (l.getLastD s) := by
  induction l generalizing s with
  | nil => rfl
  | cons t l ih =>
    rw [List.cons_append, List.getLastD_cons, List.getLastD_cons]
    exact ih t

/-- A sequence whose first part succeeds goes on from where that ends. -/
theorem bind_ok {x : Stoppable σ ε α} {g : α → Stoppable σ ε β} {s : σ} {a : α} (h : x.result s = .ok a) :
    (x >>= g).result s = (g a).result (x.final s) ∧ (x >>= g).final s = (g a).final (x.final s) := by
  have hbind : (x >>= g) s = ((x s).1 ++ (g a (x.final s)).1, (g a (x.final s)).2) := by
    show andThen x g s = _
    unfold andThen
    rw [h]
  constructor
  · rw [result, hbind]
    rfl
  · show ((x >>= g) s).1.getLastD s = (g a (x.final s)).1.getLastD (x.final s)
    rw [hbind]
    exact getLastD_append _ _ s

/-- A sequence whose first part fails ends there. -/
theorem bind_error {x : Stoppable σ ε α} {g : α → Stoppable σ ε β} {s : σ} {e : ε} (h : x.result s = .error e) :
    (x >>= g).result s = .error e ∧ (x >>= g).final s = x.final s ∧ (x >>= g).stops s = x.stops s := by
  have hbind : (x >>= g) s = ((x s).1, .error e) := by
    show andThen x g s = _
    unfold andThen
    rw [h]
  unfold result final stops
  rw [hbind]
  exact ⟨rfl, rfl, rfl⟩

/-- **A sequence is stopped in its first part, or after it in its second.** -/
theorem mem_stops_bind {x : Stoppable σ ε α} {g : α → Stoppable σ ε β} {s t : σ} :
    t ∈ (x >>= g).stops s ↔ t ∈ x.stops s ∨ ∃ a, x.result s = .ok a ∧ t ∈ (g a).stops (x.final s) := by
  cases h : x.result s with
  | error e =>
    rw [(bind_error h).2.2]
    simp
  | ok a =>
    have hbind : (x >>= g) s = ((x s).1 ++ (g a (x.final s)).1, (g a (x.final s)).2) := by
      show andThen x g s = _
      unfold andThen
      rw [h]
    have hstops : (x >>= g).stops s = s :: ((x s).1 ++ (g a (x.final s)).1) := by
      rw [stops, hbind]
    rw [hstops, ← List.cons_append, List.mem_append]
    constructor
    · rintro (hx | hg)
      · exact Or.inl hx
      · exact Or.inr ⟨a, rfl, List.mem_cons_of_mem _ hg⟩
    · rintro (hx | ⟨a', ha', hg⟩)
      · exact Or.inl hx
      · obtain rfl := Except.ok.inj ha'
        rcases List.mem_cons.mp hg with rfl | hg
        · exact Or.inl (final_mem_stops x s)
        · exact Or.inr hg

/-- A sequence that starts with a computation without effect. -/
theorem stops_lift_bind {x : Except ε α} {g : α → Stoppable σ ε β} {s t : σ} (h : t ∈ (lift x >>= g).stops s) :
    t = s ∨ ∃ a, x = .ok a ∧ t ∈ (g a).stops s := by
  rcases mem_stops_bind.mp h with h | h
  · exact Or.inl (List.mem_singleton.mp h)
  · exact Or.inr h

/-- A sequence that starts by reading the state. -/
theorem stops_get_bind {g : σ → Stoppable σ ε β} {s t : σ} (h : t ∈ (get >>= g).stops s) : t ∈ (g s).stops s := by
  rcases mem_stops_bind.mp h with h | ⟨a, ha, h⟩
  · rw [List.mem_singleton.mp h]
    exact List.mem_cons_self
  · obtain rfl := Except.ok.inj ha
    exact h

/-- A sequence that starts with an effect. -/
theorem stops_effect_bind {g : σ → Except ε σ} {k : Unit → Stoppable σ ε β} {s t : σ}
    (h : t ∈ (effect g >>= k).stops s) : t = s ∨ ∃ u, g s = .ok u ∧ t ∈ (k ()).stops u := by
  cases hg : g s with
  | error e =>
    obtain ⟨hstops, hresult⟩ := effect_error hg
    rw [(bind_error hresult).2.2, hstops] at h
    exact Or.inl (List.mem_singleton.mp h)
  | ok u =>
    obtain ⟨hstops, -, hfinal⟩ := effect_ok hg
    rcases mem_stops_bind.mp h with h | ⟨a, -, h⟩
    · rw [hstops] at h
      rcases List.mem_cons.mp h with rfl | h
      · exact Or.inl rfl
      · rw [List.mem_singleton.mp h]
        exact Or.inr ⟨u, rfl, List.mem_cons_self⟩
    · rw [hfinal] at h
      exact Or.inr ⟨u, rfl, h⟩

/-- A last effect. -/
theorem stops_effect {g : σ → Except ε σ} {s t : σ} (h : t ∈ (effect g).stops s) : t = s ∨ g s = .ok t := by
  cases hg : g s with
  | error e =>
    rw [(effect_error hg).1] at h
    exact Or.inl (List.mem_singleton.mp h)
  | ok u =>
    rw [(effect_ok hg).1] at h
    rcases List.mem_cons.mp h with rfl | h
    · exact Or.inl rfl
    · exact Or.inr (by rw [List.mem_singleton.mp h])

/-! ## Triples -/

/-- From a state with `P`, a program stays in states with `C` wherever it is stopped, and ends with `Q`. -/
def Triple (C P : σ → Prop) (x : Stoppable σ ε α) (Q : Except ε α → σ → Prop) : Prop :=
  ∀ s, P s → (∀ t ∈ x.stops s, C t) ∧ Q (x.result s) (x.final s)

namespace Triple

variable {C P : σ → Prop} {x : Stoppable σ ε α} {Q Q' : Except ε α → σ → Prop} {R : Except ε β → σ → Prop}

/-- Ask for more before and less after. -/
theorem conseq {P' : σ → Prop} (h : Triple C P x Q) (hP : ∀ s, P' s → P s) (hQ : ∀ r s, Q r s → Q' r s) :
    Triple C P' x Q' := by
  intro s hs
  obtain ⟨hstops, hpost⟩ := h s (hP s hs)
  exact ⟨hstops, hQ _ _ hpost⟩

/-- Promise less at the stops. -/
theorem weaken {C' : σ → Prop} (h : Triple C P x Q) (hC : ∀ s, C s → C' s) : Triple C' P x Q := by
  intro s hs
  obtain ⟨hstops, hpost⟩ := h s hs
  exact ⟨fun t ht => hC t (hstops t ht), hpost⟩

/-- What two triples promise after a program. -/
theorem and (h : Triple C P x Q) (h' : Triple (fun _ => True) P x Q') : Triple C P x fun r s => Q r s ∧ Q' r s := by
  intro s hs
  obtain ⟨hstops, hpost⟩ := h s hs
  exact ⟨hstops, hpost, (h' s hs).2⟩

/-- **One program, then another.** -/
theorem bind {g : α → Stoppable σ ε β} (hx : Triple C P x Q) (hg : ∀ a, Triple C (Q (.ok a)) (g a) R)
    (herr : ∀ e s, Q (.error e) s → R (.error e) s) : Triple C P (x >>= g) R := by
  intro s hs
  obtain ⟨hstops, hpost⟩ := hx s hs
  cases hresult : x.result s with
  | error e =>
    obtain ⟨hr, hf, hst⟩ := bind_error (g := g) hresult
    rw [hr, hf, hst]
    rw [hresult] at hpost
    exact ⟨hstops, herr e _ hpost⟩
  | ok a =>
    obtain ⟨hr, hf⟩ := bind_ok (g := g) hresult
    rw [hresult] at hpost
    obtain ⟨hstops', hpost'⟩ := hg a _ hpost
    rw [hr, hf]
    refine ⟨fun t ht => ?_, hpost'⟩
    rcases mem_stops_bind.mp ht with ht | ⟨a', ha', ht⟩
    · exact hstops t ht
    · obtain rfl := Except.ok.inj (hresult.symm.trans ha')
      exact hstops' t ht

theorem pure {a : α} (h : ∀ s, P s → C s ∧ Q (.ok a) s) : Triple C P (Pure.pure a : Stoppable σ ε α) Q := by
  intro s hs
  obtain ⟨hC, hQ⟩ := h s hs
  exact ⟨fun t ht => by rw [List.mem_singleton.mp ht]; exact hC, hQ⟩

theorem lift {a : Except ε α} (h : ∀ s, P s → C s ∧ Q a s) : Triple C P (Stoppable.lift a) Q := by
  intro s hs
  obtain ⟨hC, hQ⟩ := h s hs
  exact ⟨fun t ht => by rw [List.mem_singleton.mp ht]; exact hC, hQ⟩

theorem get {Q : Except ε σ → σ → Prop} (h : ∀ s, P s → C s ∧ Q (.ok s) s) : Triple C P Stoppable.get Q := by
  intro s hs
  obtain ⟨hC, hQ⟩ := h s hs
  exact ⟨fun t ht => by rw [List.mem_singleton.mp ht]; exact hC, hQ⟩

/-- An effect that may fail: what holds if it does not happen, and if it does. -/
theorem attempt {g : σ → Option σ} {Q : Except ε Bool → σ → Prop} (hC : ∀ s, P s → C s)
    (hfails : ∀ s, P s → g s = none → Q (.ok false) s)
    (hworks : ∀ s t, P s → g s = some t → C t ∧ Q (.ok true) t) : Triple C P (Stoppable.attempt g) Q := by
  intro s hs
  cases hg : g s with
  | none =>
    have hx : (Stoppable.attempt g : Stoppable σ ε Bool) s = ([], .ok false) := by rw [Stoppable.attempt, hg]
    rw [stops, result, final, hx]
    exact ⟨fun t ht => by rw [List.mem_singleton.mp ht]; exact hC s hs, hfails s hs hg⟩
  | some t =>
    have hx : (Stoppable.attempt g : Stoppable σ ε Bool) s = ([t], .ok true) := by rw [Stoppable.attempt, hg]
    obtain ⟨hCt, hQt⟩ := hworks s t hs hg
    rw [stops, result, final, hx]
    refine ⟨fun u hu => ?_, hQt⟩
    rcases List.mem_cons.mp hu with rfl | hu
    · exact hC u hs
    · rw [List.mem_singleton.mp hu]
      exact hCt

/-- **A loop keeps what each turn keeps.** -/
theorem foldlM {ι : Type} {f : β → ι → Stoppable σ ε β} {l : List ι} {b : β} {I : β → σ → Prop} {E : ε → σ → Prop}
    (hC : ∀ b s, I b s → C s)
    (hf : ∀ b i, i ∈ l → Triple C (I b) (f b i) fun r s => (∀ b', r = .ok b' → I b' s) ∧ ∀ e, r = .error e → E e s) :
    Triple C (I b) (l.foldlM f b) fun r s => (∀ b', r = .ok b' → I b' s) ∧ ∀ e, r = .error e → E e s := by
  induction l generalizing b with
  | nil =>
    refine pure fun s hs => ⟨hC b s hs, fun b' hb' => ?_, fun e he => ?_⟩
    · rw [← Except.ok.inj hb']
      exact hs
    · simp at he
  | cons i l ih =>
    rw [List.foldlM_cons]
    refine bind (hf b i List.mem_cons_self) (fun b' => ?_) fun e s hs => ⟨fun b' hb' => by simp at hb', hs.2⟩
    exact (ih fun b i hi => hf b i (List.mem_cons_of_mem _ hi)).conseq (fun s hs => hs.1 b' rfl) fun _ _ h => h

end Triple

/-- From a state with `I`, a program stays in states with `I` wherever it is stopped. -/
def Keeps (I : σ → Prop) (x : Stoppable σ ε α) : Prop := ∀ s, I s → ∀ t ∈ x.stops s, I t

namespace Keeps

variable {I : σ → Prop} {x : Stoppable σ ε α}

/-- An invariant as a triple. -/
theorem triple (h : Keeps I x) : Triple I I x fun _ s => I s := fun s hs =>
  ⟨h s hs, h s hs _ (final_mem_stops x s)⟩

/-- An invariant at the end of a program, whatever its stops. -/
theorem ends (h : Keeps I x) : Triple (fun _ => True) I x fun _ s => I s := fun s hs =>
  ⟨fun _ _ => trivial, h s hs _ (final_mem_stops x s)⟩

theorem of_triple {Q : Except ε α → σ → Prop} (h : Triple I I x Q) : Keeps I x := fun s hs => (h s hs).1

theorem bind {g : α → Stoppable σ ε β} (hx : Keeps I x) (hg : ∀ a, Keeps I (g a)) : Keeps I (x >>= g) :=
  of_triple (Triple.bind (R := fun _ s => I s) hx.triple (fun a => (hg a).triple) fun _ _ hs => hs)

/-- Two invariants together. -/
theorem and {J : σ → Prop} (hI : Keeps I x) (hJ : Keeps J x) : Keeps (fun s => I s ∧ J s) x := fun s hs t ht =>
  ⟨hI s hs.1 t ht, hJ s hs.2 t ht⟩

theorem pure (a : α) : Keeps I (Pure.pure a : Stoppable σ ε α) := fun s hs t ht => by
  rw [List.mem_singleton.mp ht]
  exact hs

theorem lift (a : Except ε α) : Keeps I (Stoppable.lift a : Stoppable σ ε α) := fun s hs t ht => by
  rw [List.mem_singleton.mp ht]
  exact hs

theorem get : Keeps I (Stoppable.get : Stoppable σ ε σ) := fun s hs t ht => by
  rw [List.mem_singleton.mp ht]
  exact hs

theorem attempt {g : σ → Option σ} (h : ∀ s t, I s → g s = some t → I t) :
    Keeps I (Stoppable.attempt g : Stoppable σ ε Bool) :=
  of_triple (Triple.attempt (Q := fun _ s => I s) (fun _ hs => hs) (fun _ hs _ => hs) fun s t hs ht =>
    ⟨h s t hs ht, h s t hs ht⟩)

theorem caught {ε' : Type} (h : Keeps I x) : Keeps I (Stoppable.caught x : Stoppable σ ε' (Except ε α)) := h

/-- **A loop keeps what each turn keeps.** -/
theorem foldlM {ι : Type} {f : β → ι → Stoppable σ ε β} {l : List ι} (b : β) (hf : ∀ b i, i ∈ l → Keeps I (f b i)) :
    Keeps I (l.foldlM f b) := by
  induction l generalizing b with
  | nil => exact pure b
  | cons i l ih =>
    rw [List.foldlM_cons]
    exact bind (hf b i List.mem_cons_self) fun b' => ih b' fun b i hi => hf b i (List.mem_cons_of_mem _ hi)

end Keeps

end Stoppable

end SentryUsb.Library
