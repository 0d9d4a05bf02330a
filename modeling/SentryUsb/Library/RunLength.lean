import Mathlib

/-! # Run-length encoding

A sequence is stored as runs, each a value with the number of times it stands in a row. The counter of a run is a
machine integer, so it counts modulo `m`.

* **`expandRuns`**, **`appendRun`** — the sequence of some runs, and expanding them up to a limit;
* **`encodeRuns`** — the encoder;
* **`Encodes`** — runs that stand for a sequence: they expand to it, none is empty, no two neighbours are equal;
* **`encodes_encodeRuns`** — the encoder is exact on sequences shorter than `m`;
* **`encodeRuns_replicate`** — and loses a sequence of `m` equal values. -/

namespace SentryUsb.Library

variable {α : Type*}

/-- The sequence some runs stand for. -/
def expandRuns (runs : List (α × Nat)) : List α := runs.flatMap fun r => List.replicate r.2 r.1

/-- **Runs that stand for a sequence.** -/
structure Encodes (runs : List (α × Nat)) (l : List α) : Prop where
  expands : expandRuns runs = l
  positive : ∀ r ∈ runs, 0 < r.2
  distinct : runs.IsChain fun a b => a.1 ≠ b.1
  sums : (runs.map Prod.snd).sum = l.length

/-- The length of a sequence is the sum of its runs. -/
theorem length_expandRuns (runs : List (α × Nat)) : (expandRuns runs).length = (runs.map Prod.snd).sum := by
  unfold expandRuns
  rw [List.length_flatMap]
  congr 1
  exact List.map_congr_left fun r _ => List.length_replicate

/-- One run more, unless the sequence gets longer than a limit. -/
def appendRun (limit : Nat) (out : List α) (r : α × Nat) : Option (List α) :=
  if limit - out.length < r.2 then none else some (out ++ List.replicate r.2 r.1)

theorem length_of_appendRun {limit : Nat} {out next : List α} {r : α × Nat} (hout : out.length ≤ limit)
    (h : appendRun limit out r = some next) : next.length ≤ limit := by
  obtain ⟨hroom, h⟩ := Option.ite_none_left_eq_some.mp h
  rw [← Option.some.inj h, List.length_append, List.length_replicate]
  omega

/-- **Expanding run by run** stops where the sequence gets too long. -/
theorem foldlM_appendRun {limit : Nat} {out : List α} (hout : out.length ≤ limit) (runs : List (α × Nat)) :
    runs.foldlM (appendRun limit) out
      = if out.length + (expandRuns runs).length ≤ limit then some (out ++ expandRuns runs) else none := by
  induction runs generalizing out with
  | nil =>
    rw [if_pos (by simpa [expandRuns] using hout)]
    simp [expandRuns]
  | cons r runs ih =>
    have hexpand : expandRuns (r :: runs) = List.replicate r.2 r.1 ++ expandRuns runs := rfl
    rw [List.foldlM_cons, hexpand, List.length_append, List.length_replicate]
    by_cases hroom : limit - out.length < r.2
    · rw [appendRun, if_pos hroom, if_neg (by omega)]
      rfl
    · rw [appendRun, if_neg hroom]
      show runs.foldlM (appendRun limit) (out ++ List.replicate r.2 r.1) = _
      rw [ih (by rw [List.length_append, List.length_replicate]; omega), List.length_append, List.length_replicate,
        List.append_assoc, Nat.add_assoc]

section Encoder

variable [DecidableEq α]

/-- The runs of the rest of a sequence, within a run of `cur` that has been counted up to `count`. -/
def runsFrom (m : Nat) (cur : α) (count : Nat) : List α → List (α × Nat)
  | [] => [(cur, count)]
  | a :: l => if a = cur then runsFrom m cur ((count + 1) % m) l else (cur, count) :: runsFrom m a 1 l

/-- The runs of a sequence. -/
def encodeRuns (m : Nat) : List α → List (α × Nat)
  | [] => []
  | a :: l => runsFrom m a 1 l

theorem head?_runsFrom (m : Nat) (cur : α) (count : Nat) (l : List α) :
    (runsFrom m cur count l).head?.map Prod.fst = some cur := by
  induction l generalizing count with
  | nil => rfl
  | cons a l ih =>
    rw [runsFrom]
    split
    · exact ih _
    · rfl

theorem expandRuns_runsFrom {m : Nat} {cur : α} {count : Nat} {l : List α} (h : count + l.length < m) :
    expandRuns (runsFrom m cur count l) = List.replicate count cur ++ l := by
  induction l generalizing cur count with
  | nil => simp [runsFrom, expandRuns]
  | cons a l ih =>
    rw [List.length_cons] at h
    rw [runsFrom]
    by_cases ha : a = cur
    · rw [if_pos ha, Nat.mod_eq_of_lt (by omega), ih (by omega), List.replicate_succ', ha, List.append_assoc]
      rfl
    · have hrest : expandRuns (runsFrom m a 1 l) = List.replicate 1 a ++ l := ih (by omega)
      rw [if_neg ha, expandRuns, List.flatMap_cons, ← expandRuns, hrest]
      rfl

theorem positive_runsFrom {m : Nat} {cur : α} {count : Nat} {l : List α} (hcount : 0 < count)
    (h : count + l.length < m) : ∀ r ∈ runsFrom m cur count l, 0 < r.2 := by
  induction l generalizing cur count with
  | nil =>
    intro r hr
    rw [List.mem_singleton.mp hr]
    exact hcount
  | cons a l ih =>
    rw [List.length_cons] at h
    rw [runsFrom]
    by_cases ha : a = cur
    · rw [if_pos ha, Nat.mod_eq_of_lt (by omega)]
      exact ih (by omega) (by omega)
    · rw [if_neg ha]
      intro r hr
      rcases List.mem_cons.mp hr with rfl | hr
      · exact hcount
      · exact ih Nat.one_pos (by omega) r hr

/-- No two neighbouring runs have one value, however the counters go. -/
theorem distinct_runsFrom (m : Nat) (cur : α) (count : Nat) (l : List α) :
    (runsFrom m cur count l).IsChain fun a b => a.1 ≠ b.1 := by
  induction l generalizing cur count with
  | nil => exact List.isChain_singleton _
  | cons a l ih =>
    rw [runsFrom]
    by_cases ha : a = cur
    · rw [if_pos ha]
      exact ih cur _
    · rw [if_neg ha]
      refine List.isChain_cons.mpr ⟨fun r hr => ?_, ih a 1⟩
      have hhead := head?_runsFrom m a 1 l
      rw [Option.mem_def.mp hr] at hhead
      rw [Option.some.inj hhead]
      exact Ne.symm ha

/-- **The encoder is exact on sequences its counter can count.** -/
theorem encodes_encodeRuns {m : Nat} {l : List α} (h : l.length < m) : Encodes (encodeRuns m l) l := by
  have hexpands : expandRuns (encodeRuns m l) = l := by
    cases l with
    | nil => rfl
    | cons a l =>
      rw [List.length_cons] at h
      exact expandRuns_runsFrom (by omega)
  refine ⟨hexpands, ?_, ?_, by rw [← length_expandRuns, hexpands]⟩
  · cases l with
    | nil => exact fun _ hr => absurd hr List.not_mem_nil
    | cons a l =>
      rw [List.length_cons] at h
      exact positive_runsFrom Nat.one_pos (by omega)
  · cases l with
    | nil => exact List.IsChain.nil
    | cons a l => exact distinct_runsFrom m a 1 l

/-- One run of equal values is counted modulo `m`. -/
theorem encodeRuns_replicate {m : Nat} (hm : 1 < m) (a : α) (n : Nat) :
    encodeRuns m (List.replicate (n + 1) a) = [(a, (n + 1) % m)] := by
  have hruns : ∀ (n count : Nat), count < m → runsFrom m a count (List.replicate n a) = [(a, (count + n) % m)] := by
    intro n
    induction n with
    | zero =>
      intro count hcount
      rw [List.replicate_zero, runsFrom, Nat.add_zero, Nat.mod_eq_of_lt hcount]
    | succ n ih =>
      intro count hcount
      rw [List.replicate_succ, runsFrom, if_pos rfl, ih _ (Nat.mod_lt _ (by omega)), Nat.mod_add_mod]
      congr 3
      omega
  rw [List.replicate_succ, encodeRuns, hruns n 1 hm, Nat.add_comm]

end Encoder

end SentryUsb.Library
