import Mathlib

/-! # Computations that fail or stop

A parser in machine arithmetic ends with a value, or with an error of its own, or it is stopped: an operation leaves its
type, or an index its range.

* **`Checked`** — such a computation;
* **`Safe`** — it is not stopped;
* **`Answers`** — it gives what an exact description gives, and fails where that gives nothing;
* **`Exact`** — it answers under a condition, and is stopped otherwise;
* **`Answers.bind`**, **`Answers.foldlM`**, **`Exact.bind`** — this holds step by step;
* **`Tracks`** — it is the same as a computation in exact arithmetic, or an overflow stops it. -/

namespace SentryUsb.Library

/-- How a computation ends without a value. -/
inductive Stop where
  | failed (text : String)
  | overflow
  | outOfBounds
  | divisionByZero
  deriving DecidableEq, Repr

abbrev Checked (α : Type) := Except Stop α

/-- An error of the program's own. -/
def fail {α : Type} (text : String) : Checked α := .error (.failed text)

/-- The value, or an error where there is none. -/
def context {α : Type} (text : String) : Option α → Checked α
  | some a => .ok a
  | none => fail text

/-- Addition of naturals below `m`. -/
def addBelow (m a b : Nat) : Checked Nat := if a + b < m then .ok (a + b) else .error .overflow

/-- Multiplication of naturals below `m`. -/
def mulBelow (m a b : Nat) : Checked Nat := if a * b < m then .ok (a * b) else .error .overflow

/-- Subtraction of naturals. -/
def subNat (a b : Nat) : Checked Nat := if b ≤ a then .ok (a - b) else .error .overflow

/-- The computation is not stopped. -/
def Safe {α : Type} (c : Checked α) : Prop := ∀ s, c = .error s → ∃ text, s = .failed text

/-- **A computation that gives what a description gives**, and fails where it gives nothing. -/
inductive Answers {α : Type} : Checked α → Option α → Prop where
  | value (a : α) : Answers (.ok a) (some a)
  | failed (text : String) : Answers (.error (.failed text)) none

variable {α β : Type}

theorem safe_ok (a : α) : Safe (.ok a : Checked α) := fun _ h => nomatch h

/-! ## What a description says -/

theorem Answers.safe {c : Checked α} {o : Option α} (h : Answers c o) : Safe c := by
  cases h with
  | value a => exact safe_ok a
  | failed text => exact fun s hs => ⟨text, (Except.error.inj hs).symm⟩

theorem Answers.ok_iff {c : Checked α} {o : Option α} (h : Answers c o) {a : α} : c = .ok a ↔ o = some a := by
  cases h with
  | value b =>
    constructor
    · exact fun heq => congrArg some (Except.ok.inj heq)
    · exact fun heq => congrArg Except.ok (Option.some.inj heq)
  | failed text =>
    constructor
    · exact fun heq => nomatch heq
    · exact fun heq => nomatch heq

theorem Answers.eq_ok {c : Checked α} {a : α} (h : Answers c (some a)) : c = .ok a := h.ok_iff.mpr rfl

theorem Answers.of_eq {c : Checked α} {a : α} (h : c = .ok a) : Answers c (some a) := by
  rw [h]
  exact .value a

/-- **One computation after another.** -/
theorem Answers.bind {c : Checked α} {o : Option α} {f : α → Checked β} {g : α → Option β} (h : Answers c o)
    (hnext : ∀ a, o = some a → Answers (f a) (g a)) : Answers (c >>= f) (o.bind g) := by
  cases h with
  | value a => exact hnext a rfl
  | failed text => exact .failed text

theorem answers_context (text : String) (o : Option α) : Answers (context text o) o := by
  cases o with
  | none => exact .failed text
  | some a => exact .value a

/-- **A loop**, with what holds of its state. -/
theorem Answers.foldlM {f : β → α → Checked β} {g : β → α → Option β} {I : β → Prop} {l : List α}
    (hstep : ∀ b, I b → ∀ a ∈ l, Answers (f b a) (g b a) ∧ ∀ b', g b a = some b' → I b') {b : β} (hb : I b) :
    Answers (l.foldlM f b) (l.foldlM g b) := by
  induction l generalizing b with
  | nil => exact .value b
  | cons a l ih =>
    obtain ⟨hhere, hinv⟩ := hstep b hb a List.mem_cons_self
    rw [List.foldlM_cons, List.foldlM_cons]
    exact hhere.bind fun b' hb' => ih (fun c hc x hx => hstep c hc x (List.mem_cons_of_mem a hx)) (hinv b' hb')

theorem answers_fail (text : String) : Answers (fail text : Checked α) none := .failed text

/-- **A check**, which fails with an error. -/
theorem Answers.unless {p : Prop} [Decidable p] {c : Checked α} {o : Option α} (text : String)
    (h : ¬ p → Answers c o) : Answers (if p then fail text else c) (if p then none else o) := by
  by_cases hp : p
  · rw [if_pos hp, if_pos hp]
    exact .failed text
  · rw [if_neg hp, if_neg hp]
    exact h hp

/-! ## What stops a computation -/

/-- **A computation that answers under a condition**, and is stopped by an overflow otherwise. -/
structure Exact {α : Type} (c : Checked α) (p : Prop) (o : Option α) : Prop where
  answers : p → Answers c o
  overflows : ¬ p → c = .error .overflow

theorem Answers.exact {c : Checked α} {o : Option α} (h : Answers c o) : Exact c True o :=
  ⟨fun _ => h, fun hp => absurd trivial hp⟩

theorem Exact.safe_iff {c : Checked α} {p : Prop} {o : Option α} (h : Exact c p o) : Safe c ↔ p := by
  constructor
  · intro hsafe
    by_contra hp
    rw [h.overflows hp] at hsafe
    obtain ⟨text, htext⟩ := hsafe _ rfl
    exact nomatch htext
  · exact fun hp => (h.answers hp).safe

theorem Exact.ok_iff {c : Checked α} {p : Prop} {o : Option α} (h : Exact c p o) {a : α} :
    c = .ok a ↔ p ∧ o = some a := by
  by_cases hp : p
  · rw [(h.answers hp).ok_iff, and_iff_right hp]
  · rw [h.overflows hp]
    exact ⟨fun heq => (nomatch heq), fun hboth => absurd hboth.1 hp⟩

theorem Exact.congr {c : Checked α} {p q : Prop} {o : Option α} (h : Exact c p o) (hpq : p ↔ q) : Exact c q o :=
  ⟨fun hq => h.answers (hpq.mpr hq), fun hq => h.overflows fun hp => hq (hpq.mp hp)⟩

/-- **One computation after another**: the second is reached where the first gives a value. -/
theorem Exact.bind {c : Checked α} {p : Prop} {o : Option α} {f : α → Checked β} {q : α → Prop} {g : α → Option β}
    (h : Exact c p o) (hnext : ∀ a, o = some a → Exact (f a) (q a) (g a)) :
    Exact (c >>= f) (p ∧ ∀ a, o = some a → q a) (o.bind g) := by
  refine ⟨fun hp => (h.answers hp.1).bind fun a ha => (hnext a ha).answers (hp.2 a ha), fun hp => ?_⟩
  by_cases hfirst : p
  · have hsecond : ∃ a, o = some a ∧ ¬ q a := by
      by_contra hnone
      exact hp ⟨hfirst, fun a ha => by_contra fun hq => hnone ⟨a, ha, hq⟩⟩
    obtain ⟨a, ha, hq⟩ := hsecond
    rw [(h.answers hfirst).ok_iff.mpr ha]
    exact (hnext a ha).overflows hq
  · rw [h.overflows hfirst]
    rfl

/-- The second computation, where the first has a value to give. -/
theorem Exact.bind_some {c : Checked α} {p q : Prop} {a : α} {o : Option β} {f : α → Checked β} (h : Exact c p (some a))
    (hnext : Exact (f a) q o) : Exact (c >>= f) (p ∧ q) o := by
  have hboth := h.bind (q := fun b => b = a → q) (g := fun _ => o) (f := f) fun b hb => by
    obtain rfl := Option.some.inj hb
    exact hnext.congr ⟨fun hq _ => hq, fun hq => hq rfl⟩
  refine hboth.congr (and_congr_right fun _ => ⟨fun hq => hq a rfl rfl, fun hq b _ _ => hq⟩)

theorem Exact.bind_none {c : Checked α} {p : Prop} {f : α → Checked β} (h : Exact c p none) :
    Exact (c >>= f) p none := by
  have hboth := h.bind (q := fun _ => True) (g := fun _ => none) (f := f) fun _ ha => nomatch ha
  exact hboth.congr (and_iff_left fun _ _ => trivial)

theorem Exact.bind_pure {c : Checked α} {p : Prop} {o : Option α} (h : Exact c p o) (f : α → β) :
    Exact (c >>= fun a => pure (f a)) p (o.map f) := by
  have hboth := h.bind (q := fun _ => True) (g := fun a => some (f a)) fun a _ => (Answers.value (f a)).exact
  rw [Option.map_eq_bind]
  exact hboth.congr (and_iff_left fun _ _ => trivial)

theorem addBelow_eq {m a b : Nat} (h : a + b < m) : addBelow m a b = .ok (a + b) := if_pos h

theorem exact_addBelow (m a b : Nat) : Exact (addBelow m a b) (a + b < m) (some (a + b)) :=
  ⟨fun h => .of_eq (if_pos h), fun h => if_neg h⟩

theorem mulBelow_eq {m a b : Nat} (h : a * b < m) : mulBelow m a b = .ok (a * b) := if_pos h

theorem subNat_eq {a b : Nat} (h : b ≤ a) : subNat a b = .ok (a - b) := if_pos h

/-! ## Arithmetic of two kinds -/

/-- **A computation in machine arithmetic that tracks one in exact arithmetic**: it is the same under a condition, and stopped
by an overflow otherwise. -/
structure Tracks (c : Checked α) (p : Prop) (e : Checked α) : Prop where
  same : p → c = e
  overflows : ¬ p → c = .error .overflow

theorem Tracks.refl (c : Checked α) : Tracks c True c := ⟨fun _ => rfl, fun hp => absurd trivial hp⟩

theorem Tracks.congr {c e : Checked α} {p q : Prop} (h : Tracks c p e) (hpq : p ↔ q) : Tracks c q e :=
  ⟨fun hq => h.same (hpq.mpr hq), fun hq => h.overflows fun hp => hq (hpq.mp hp)⟩

theorem tracks_addBelow (m a b : Nat) : Tracks (addBelow m a b) (a + b < m) (.ok (a + b)) :=
  ⟨fun h => if_pos h, fun h => if_neg h⟩

/-- **One computation after another** in both kinds of arithmetic. -/
theorem Tracks.bind {c e : Checked α} {p : Prop} {f g : α → Checked β} {q : α → Prop} (h : Tracks c p e)
    (hnext : ∀ a, e = .ok a → Tracks (f a) (q a) (g a)) : Tracks (c >>= f) (p ∧ ∀ a, e = .ok a → q a) (e >>= g) := by
  constructor
  · rintro ⟨hp, hq⟩
    rw [h.same hp]
    cases e with
    | error stop => rfl
    | ok a => exact (hnext a rfl).same (hq a rfl)
  · intro hnot
    by_cases hp : p
    · rw [h.same hp]
      cases e with
      | error stop => exact absurd ⟨hp, fun a ha => nomatch ha⟩ hnot
      | ok a =>
        refine (hnext a rfl).overflows fun hq => hnot ⟨hp, fun b hb => ?_⟩
        exact Except.ok.inj hb ▸ hq
    · rw [h.overflows hp]
      rfl

/-- An addition, and what is done with the sum. -/
theorem Tracks.add {m a b : Nat} {f g : Nat → Checked β} {q : Prop} (hnext : Tracks (f (a + b)) q (g (a + b))) :
    Tracks (addBelow m a b >>= f) (a + b < m ∧ q) (g (a + b)) := by
  have hboth := (tracks_addBelow m a b).bind (q := fun _ => q) (g := g) (f := f) fun c hc => Except.ok.inj hc ▸ hnext
  exact hboth.congr (and_congr_right fun _ => ⟨fun hq => hq _ rfl, fun hq _ _ => hq⟩)

theorem Tracks.ite {c e c' e' : Checked α} {p q : Prop} {b : Prop} [Decidable b] (h : b → Tracks c p e)
    (h' : ¬ b → Tracks c' q e') : Tracks (if b then c else c') (if b then p else q) (if b then e else e') := by
  by_cases hb : b
  · rw [if_pos hb, if_pos hb, if_pos hb]
    exact h hb
  · rw [if_neg hb, if_neg hb, if_neg hb]
    exact h' hb

end SentryUsb.Library
