import Mathlib

/-! # Runs of a partial step function

A system is a step function that takes an action, or refuses it. The parties of a protocol, the
threads of a process and a power loss are all actions of one system, so a run is one interleaving.

* **`run`** — the state a list of actions leads to;
* **`Reaches`** — a run whose every step meets a condition on the state before it;
* **`Reaches.invariant`** — what one step keeps, every run keeps;
* **`run_invariant`** — what one step keeps, given the actions so far, a list of actions keeps;
* **`foldlM_invariant`** — the same for a loop that may fail with an error;
* **`reaches_of_run_guarded`** — a list of actions that runs with the condition checked reaches its
  last state. -/

namespace SentryUsb.Library

variable {σ α : Type*}

/-- The state a list of actions leads to, if none of them is refused. -/
def run (step : σ → α → Option σ) : σ → List α → Option σ
  | s, [] => some s
  | s, a :: as => (step s a).bind fun t => run step t as

/-- The states reached from `s` by steps that each meet the condition `ok` on the state they are
taken in. -/
inductive Reaches (step : σ → α → Option σ) (ok : σ → α → Prop) (s : σ) : σ → Prop where
  /-- No step. -/
  | refl : Reaches step ok s s
  /-- One more step. -/
  | tail {t u : σ} (a : α) (before : Reaches step ok s t) (careful : ok t a)
      (taken : step t a = some u) : Reaches step ok s u

/-- The states reached by any steps. -/
abbrev Reachable (step : σ → α → Option σ) (s t : σ) : Prop := Reaches step (fun _ _ => True) s t

variable {step : σ → α → Option σ} {ok : σ → α → Prop} {s t u : σ}

/-- **Invariant rule.** What holds at the start and is kept by every step that meets the condition
holds in every state reached. -/
theorem Reaches.invariant {Inv : σ → Prop} (h : Reaches step ok s t) (hinit : Inv s)
    (hstep : ∀ t a u, Inv t → ok t a → step t a = some u → Inv u) : Inv t := by
  induction h with
  | refl => exact hinit
  | tail a _ hok htaken ih => exact hstep _ a _ ih hok htaken

/-- **Invariant rule along a list**, with the actions already taken. -/
theorem run_invariant (Inv : List α → σ → Prop) {as : List α} (h : run step s as = some t) (hinit : Inv [] s)
    (hstep : ∀ done a t u, a ∈ as → Inv done t → step t a = some u → Inv (done ++ [a]) u) : Inv as t := by
  have hgeneral : ∀ (rest done : List α) (s : σ), rest ⊆ as → Inv done s → run step s rest = some t →
      Inv (done ++ rest) t := by
    intro rest
    induction rest with
    | nil =>
      intro done s _ hdone hrun
      obtain rfl := Option.some.inj hrun
      rw [List.append_nil]
      exact hdone
    | cons a rest ih =>
      intro done s hsub hdone hrun
      obtain ⟨m, hm, hrest⟩ := Option.bind_eq_some_iff.mp hrun
      have hnext := ih (done ++ [a]) m (fun b hb => hsub (List.mem_cons_of_mem _ hb))
        (hstep done a s m (hsub List.mem_cons_self) hdone hm) hrest
      rw [List.append_assoc] at hnext
      exact hnext
  exact hgeneral as [] s (fun _ ha => ha) hinit h

/-! ## Loops that may fail -/

/-- A computation succeeds when its parts do. -/
theorem bind_eq_ok {ε α β : Type*} {x : Except ε α} {g : α → Except ε β} {b : β} :
    x.bind g = .ok b ↔ ∃ a, x = .ok a ∧ g a = .ok b := by
  cases x with
  | error e => simp [Except.bind]
  | ok a => simp [Except.bind]

theorem map_eq_ok {ε α β : Type*} {x : Except ε α} {g : α → β} {b : β} :
    x.map g = .ok b ↔ ∃ a, x = .ok a ∧ g a = b := by
  cases x with
  | error e => simp [Except.map]
  | ok a => simp [Except.map]

/-- Reading every element of a list succeeds when each reading does. -/
theorem mapM_eq_ok {ε α β : Type*} {g : α → Except ε β} {l : List α} {m : List β} :
    l.mapM g = .ok m ↔ List.Forall₂ (fun a b => g a = .ok b) l m := by
  induction l generalizing m with
  | nil =>
    rw [List.mapM_nil, List.forall₂_nil_left_iff]
    exact ⟨fun h => (Except.ok.inj h).symm, fun h => h ▸ rfl⟩
  | cons a l ih =>
    rw [List.mapM_cons, List.forall₂_cons_left_iff]
    constructor
    · intro h
      obtain ⟨b, hb, h⟩ := bind_eq_ok.mp h
      obtain ⟨rest, hrest, h⟩ := bind_eq_ok.mp h
      exact ⟨b, rest, hb, ih.mp hrest, (Except.ok.inj h).symm⟩
    · rintro ⟨b, rest, hb, hrest, rfl⟩
      rw [hb]
      show (l.mapM g).bind (fun rest => Except.ok (b :: rest)) = _
      rw [ih.mpr hrest]
      rfl

/-- What a reading of a list holds was read from one of its elements. -/
theorem exists_of_mem_mapM {α β : Type*} {g : α → Option β} {l : List α} {m : List β} (h : l.mapM g = some m) {b : β}
    (hb : b ∈ m) : ∃ a ∈ l, g a = some b := by
  induction l generalizing m with
  | nil =>
    rw [List.mapM_nil] at h
    rw [← Option.some.inj h] at hb
    exact absurd hb List.not_mem_nil
  | cons a l ih =>
    rw [List.mapM_cons] at h
    obtain ⟨c, hc, h⟩ := Option.bind_eq_some_iff.mp h
    obtain ⟨rest, hrest, h⟩ := Option.bind_eq_some_iff.mp h
    rw [← Option.some.inj h] at hb
    rcases List.mem_cons.mp hb with rfl | hb
    · exact ⟨a, List.mem_cons_self, hc⟩
    · obtain ⟨a', ha', hg⟩ := ih hrest hb
      exact ⟨a', List.mem_cons_of_mem _ ha', hg⟩

/-- **Invariant rule for a loop that may fail.** -/
theorem foldlM_invariant {ε : Type*} {f : σ → α → Except ε σ} (Inv : List α → σ → Prop) {as : List α}
    (h : as.foldlM f s = .ok t) (hinit : Inv [] s)
    (hstep : ∀ done a t u, a ∈ as → Inv done t → f t a = .ok u → Inv (done ++ [a]) u) : Inv as t := by
  have hrun : run (fun s a => (f s a).toOption) s as = some t := by
    clear hinit hstep
    induction as generalizing s with
    | nil =>
      rw [List.foldlM_nil] at h
      rw [run, Except.ok.inj h]
    | cons a as ih =>
      rw [List.foldlM_cons] at h
      rw [run]
      cases hstep : f s a with
      | error e => rw [hstep] at h; exact absurd h (by simp [bind, Except.bind])
      | ok m =>
        rw [hstep] at h
        exact ih h
  refine run_invariant Inv hrun hinit fun done a t u ha hdone htaken => hstep done a t u ha hdone ?_
  cases hf : f t a with
  | error e => rw [hf] at htaken; exact absurd htaken (by simp [Except.toOption])
  | ok m =>
    rw [hf] at htaken
    rw [Option.some.inj htaken]

/-- A loop whose steps change nothing changes nothing. -/
theorem foldlM_fixed {ε : Type*} {f : σ → α → Except ε σ} {as : List α} (h : ∀ a ∈ as, f s a = .ok s) :
    as.foldlM f s = .ok s := by
  induction as with
  | nil => rfl
  | cons a as ih =>
    rw [List.foldlM_cons, h a List.mem_cons_self]
    exact ih fun b hb => h b (List.mem_cons_of_mem _ hb)

/-- A run may start with a step. -/
theorem Reaches.head (a : α) (hok : ok s a) (htaken : step s a = some t)
    (h : Reaches step ok t u) : Reaches step ok s u := by
  induction h with
  | refl => exact .tail a .refl hok htaken
  | tail b _ hokb htakenb ih => exact .tail b ih hokb htakenb

/-- The step function that also refuses what does not meet the condition. -/
def guarded (step : σ → α → Option σ) (ok : σ → α → Prop) [∀ s a, Decidable (ok s a)] (s : σ) (a : α) :
    Option σ :=
  if ok s a then step s a else none

/-- A list of actions that runs with the condition checked reaches its last state. -/
theorem reaches_of_run_guarded [∀ s a, Decidable (ok s a)] {as : List α}
    (h : run (guarded step ok) s as = some t) : Reaches step ok s t := by
  induction as generalizing s with
  | nil =>
    obtain rfl := Option.some.inj h
    exact .refl
  | cons a as ih =>
    obtain ⟨m, hm, hrest⟩ := Option.bind_eq_some_iff.mp h
    unfold guarded at hm
    split at hm
    · rename_i hok
      exact Reaches.head a hok hm (ih hrest)
    · exact absurd hm (by simp)

/-- A list of actions that runs reaches its last state. -/
theorem reachable_of_run {as : List α} (h : run step s as = some t) : Reachable step s t := by
  have hguarded : guarded step (fun _ _ => True) = step := by
    funext s a
    exact if_pos trivial
  exact reaches_of_run_guarded (by rw [hguarded]; exact h)

end SentryUsb.Library
