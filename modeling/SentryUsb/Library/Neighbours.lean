import Mathlib

/-! # Neighbours of an increasing list of cuts

A range is cut at an increasing list of numbers; a piece runs from one cut up to the next. What changes only at
cuts is the same all over a piece.

* **`mem_cutsOf`**, **`increasing_cutsOf`** — the cuts of any list of numbers;
* **`exists_piece`** — a number between two cuts lies in a piece;
* **`cut_outside_piece`** — no cut lies inside a piece;
* **`inside_iff_of_piece`** — an interval bounded by cuts holds all of a piece or nothing of it. -/

namespace SentryUsb.Library

variable {l : List Nat}

theorem mem_cutsOf {c : Nat} : c ∈ l.dedup.insertionSort (· ≤ ·) ↔ c ∈ l := by
  rw [List.mem_insertionSort, List.mem_dedup]

/-- Sorted, and nothing twice. -/
theorem increasing_cutsOf (l : List Nat) : (l.dedup.insertionSort (· ≤ ·)).Pairwise (· < ·) := by
  have hsorted : (l.dedup.insertionSort (· ≤ ·)).Pairwise (· ≤ ·) := List.pairwise_insertionSort _ _
  have hnodup : (l.dedup.insertionSort (· ≤ ·)).Nodup := (List.perm_insertionSort _ _).nodup_iff.mpr l.nodup_dedup
  exact (hsorted.and hnodup).imp fun hab => lt_of_le_of_ne hab.1 hab.2

/-- A piece has a first and a last cut, in this order. -/
theorem mem_and_lt_of_piece (h : l.Pairwise (· < ·)) {p : Nat × Nat} (hp : p ∈ l.zip l.tail) :
    p.1 ∈ l ∧ p.2 ∈ l ∧ p.1 < p.2 := by
  induction l with
  | nil => simp at hp
  | cons a l ih =>
    cases l with
    | nil => simp at hp
    | cons b rest =>
      obtain ⟨hfirst, hrest⟩ := List.pairwise_cons.mp h
      rw [List.tail_cons, List.zip_cons_cons] at hp
      rcases List.mem_cons.mp hp with rfl | hp
      · exact ⟨List.mem_cons_self, List.mem_cons_of_mem _ List.mem_cons_self, hfirst b List.mem_cons_self⟩
      · obtain ⟨h1, h2, hlt⟩ := ih hrest hp
        exact ⟨List.mem_cons_of_mem _ h1, List.mem_cons_of_mem _ h2, hlt⟩

/-- **No cut lies inside a piece.** -/
theorem cut_outside_piece (h : l.Pairwise (· < ·)) {p : Nat × Nat} (hp : p ∈ l.zip l.tail) {c : Nat} (hc : c ∈ l) :
    c ≤ p.1 ∨ p.2 ≤ c := by
  induction l with
  | nil => simp at hp
  | cons a l ih =>
    cases l with
    | nil => simp at hp
    | cons b rest =>
      obtain ⟨hfirst, hrest⟩ := List.pairwise_cons.mp h
      rw [List.tail_cons, List.zip_cons_cons] at hp
      rcases List.mem_cons.mp hp with rfl | hlater
      · -- the first piece: every other cut is at or after its end
        rcases List.mem_cons.mp hc with rfl | hc
        · exact .inl (le_refl _)
        · rcases List.mem_cons.mp hc with rfl | hc
          · exact .inr (le_refl _)
          · exact .inr (le_of_lt ((List.pairwise_cons.mp hrest).1 c hc))
      · rcases List.mem_cons.mp hc with rfl | hc
        · exact .inl (le_of_lt (hfirst p.1 (mem_and_lt_of_piece hrest hlater).1))
        · exact ih hrest hlater hc

/-- **A number between two cuts lies in a piece.** -/
theorem exists_piece (h : l.Pairwise (· < ·)) {a b f : Nat} (ha : a ∈ l) (hb : b ∈ l) (haf : a ≤ f) (hfb : f < b) :
    ∃ p ∈ l.zip l.tail, p.1 ≤ f ∧ f < p.2 := by
  induction l generalizing a with
  | nil => simp at ha
  | cons c l ih =>
    cases l with
    | nil =>
      have hca := List.mem_singleton.mp ha
      have hcb := List.mem_singleton.mp hb
      omega
    | cons d rest =>
      obtain ⟨hfirst, hrest⟩ := List.pairwise_cons.mp h
      rw [List.tail_cons, List.zip_cons_cons]
      have hca : c ≤ a := by
        rcases List.mem_cons.mp ha with rfl | ha
        · exact le_refl _
        · exact le_of_lt (hfirst a ha)
      by_cases hd : f < d
      · exact ⟨(c, d), List.mem_cons_self, by omega, hd⟩
      · have hb' : b ∈ d :: rest := by
          rcases List.mem_cons.mp hb with rfl | hb
          · omega
          · exact hb
        obtain ⟨p, hp, hin⟩ := ih hrest List.mem_cons_self hb' (by omega)
        exact ⟨p, List.mem_cons_of_mem _ hp, hin⟩

/-- The least cut comes first. -/
theorem eq_cons_of_least (h : l.Pairwise (· < ·)) {a : Nat} (ha : a ∈ l) (hleast : ∀ c ∈ l, a ≤ c) :
    ∃ rest, l = a :: rest := by
  cases l with
  | nil => simp at ha
  | cons c rest =>
    refine ⟨rest, ?_⟩
    rcases List.mem_cons.mp ha with rfl | hlater
    · rfl
    · have hlt := (List.pairwise_cons.mp h).1 a hlater
      have hle := hleast c List.mem_cons_self
      omega

/-- The greatest cut comes last. -/
theorem getLast_eq_of_greatest (h : l.Pairwise (· < ·)) {b : Nat} (hb : b ∈ l) (hgreatest : ∀ c ∈ l, c ≤ b)
    (hne : l ≠ []) : l.getLast hne = b := by
  have hle : l.getLast hne ≤ b := hgreatest _ (List.getLast_mem hne)
  have hsplit := List.dropLast_append_getLast hne
  rw [← hsplit] at h hb
  rcases List.mem_append.mp hb with hearlier | hlast
  · have hlt := (List.pairwise_append.mp h).2.2 b hearlier _ (List.mem_singleton_self _)
    omega
  · exact (List.mem_singleton.mp hlast).symm

/-- **An interval bounded by cuts** holds all of a piece or nothing of it. -/
theorem inside_iff_of_piece (h : l.Pairwise (· < ·)) {p : Nat × Nat} (hp : p ∈ l.zip l.tail) {s e f : Nat} (hs : s ∈ l)
    (he : e ∈ l) (hlow : p.1 ≤ f) (hhigh : f < p.2) : (s ≤ f ∧ f < e) ↔ (s ≤ p.1 ∧ p.1 < e) := by
  have hstart := cut_outside_piece h hp hs
  have hend := cut_outside_piece h hp he
  omega

end SentryUsb.Library
