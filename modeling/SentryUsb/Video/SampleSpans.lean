import SentryUsb.Library.IntervalLookup
import SentryUsb.Video.SampleBoxes

/-! # The samples of a track, and where they are not exact

What the tables of a track stand for in exact arithmetic, against what is computed from them.

* **`expansion`** — the samples the tables stand for;
* **`SamplesFit`** — no end or time leaves its type, and the tables leave nothing open;
* **`expandsSamples_iff`** — the samples are exact, and found by their bytes, then and only then. -/

namespace SentryUsb.Video.Mp4Samples

open Library

/-! ## Where the samples lie -/

/-- Samples one after another from an offset on. -/
def backToBack : Nat → List Nat → List (Nat × Nat)
  | _, [] => []
  | offset, size :: sizes => (offset, size) :: backToBack (offset + size) sizes

/-- The samples of some chunks, each with its offset and how many it holds. -/
def layChunks : List (Nat × Nat) → List Nat → List (Nat × Nat)
  | [], _ => []
  | chunk :: chunks, sizes => backToBack chunk.1 (sizes.take chunk.2) ++ layChunks chunks (sizes.drop chunk.2)

/-- Every sample ends below 2^64. -/
def EndsFit (ranges : List (Nat × Nat)) : Prop := ∀ r ∈ ranges, r.1 + r.2 < 2 ^ 64

instance (ranges : List (Nat × Nat)) : Decidable (EndsFit ranges) := inferInstanceAs (Decidable (∀ r ∈ ranges, _))

/-- How many samples a chunk holds: as many as those of its run, and before the first run as many as in that. -/
def countAt (runs : List (Nat × Nat)) (c : Nat) : Nat := ((advanceRun c runs).head?.map Prod.snd).getD 0

theorem length_backToBack (offset : Nat) (sizes : List Nat) : (backToBack offset sizes).length = sizes.length := by
  induction sizes generalizing offset with
  | nil => rfl
  | cons size sizes ih => rw [backToBack, List.length_cons, ih, List.length_cons]

theorem layChunks_nil (chunks : List (Nat × Nat)) : layChunks chunks [] = [] := by
  induction chunks with
  | nil => rfl
  | cons chunk chunks ih => rw [layChunks, List.take_nil, List.drop_nil, ih, backToBack, List.nil_append]

theorem endsFit_append {l l' : List (Nat × Nat)} : EndsFit (l ++ l') ↔ EndsFit l ∧ EndsFit l' := List.forall_mem_append

theorem advanceRun_ne_nil {c : Nat} {runs : List (Nat × Nat)} (h : runs ≠ []) : advanceRun c runs ≠ [] := by
  induction runs with
  | nil => exact absurd rfl h
  | cons run runs ih =>
    cases runs with
    | nil => exact h
    | cons next rest =>
      rw [advanceRun]
      split
      · exact ih (List.cons_ne_nil _ _)
      · exact List.cons_ne_nil _ _

theorem advanceRun_advanceRun {c d : Nat} (h : c ≤ d) (runs : List (Nat × Nat)) :
    advanceRun d (advanceRun c runs) = advanceRun d runs := by
  induction runs with
  | nil => rfl
  | cons run runs ih =>
    cases runs with
    | nil => rfl
    | cons next rest =>
      by_cases hnext : next.1 ≤ c + 1
      · rw [advanceRun, if_pos hnext, ih, advanceRun.eq_1 d, if_pos (by omega)]
      · rw [advanceRun.eq_1 c, if_neg hnext]

variable {t : LayoutTables}

/-- **The samples of one chunk**: they are placed while their sizes are listed and their ends fit. -/
theorem placeChunk_exact (hsamples : t.samples < 2 ^ 32) (n offset : Nat) (ranges : List (Nat × Nat))
    (hranges : ranges.length ≤ t.samples) :
    Exact (placeChunk t n offset ranges) (EndsFit (backToBack offset (((sizesOf t).drop ranges.length).take n)))
      (if n ≤ ((sizesOf t).drop ranges.length).length then
        some (ranges ++ backToBack offset (((sizesOf t).drop ranges.length).take n)) else none) := by
  induction n generalizing offset ranges with
  | zero =>
    rw [if_pos (Nat.zero_le _), List.take_zero, backToBack, List.append_nil]
    exact (Answers.value ranges).exact.congr (by simp [EndsFit])
  | succ n ih =>
    have hexhausted : (sizesOf t)[ranges.length]? = none → ∀ text : String,
        Exact (fail text : Checked (List (Nat × Nat)))
          (EndsFit (backToBack offset (((sizesOf t).drop ranges.length).take (n + 1))))
          (if n + 1 ≤ ((sizesOf t).drop ranges.length).length then
            some (ranges ++ backToBack offset (((sizesOf t).drop ranges.length).take (n + 1))) else none) := by
      intro hnone text
      rw [List.drop_eq_nil_of_le (List.getElem?_eq_none_iff.mp hnone), if_neg (by simp), List.take_nil, backToBack]
      exact (answers_fail text).exact.congr (by simp [EndsFit])
    rw [placeChunk]
    by_cases hfull : ranges.length = t.samples
    · rw [if_pos hfull]
      exact hexhausted (List.getElem?_eq_none_iff.mpr (by rw [hfull]; exact length_sizesOf_le t)) _
    · rw [if_neg hfull]
      have hread := sampleSize_answers hsamples (show ranges.length < t.samples by omega)
      cases hsize : (sizesOf t)[ranges.length]? with
      | none =>
        rw [hsize] at hread
        cases hc : sampleSize t ranges.length with
        | ok size => exact absurd (hread.ok_iff.mp hc) (by simp)
        | error s =>
          obtain ⟨text, rfl⟩ := hread.safe s hc
          exact hexhausted hsize text
      | some size =>
        rw [hsize] at hread
        obtain ⟨hlt, hget⟩ := List.getElem?_eq_some_iff.mp hsize
        rw [hread.eq_ok, List.drop_eq_getElem_cons hlt, hget, List.take_succ_cons, backToBack, List.length_cons]
        have hnext := ih (offset + size) (ranges ++ [(offset, size)]) (by
          rw [List.length_append, List.length_singleton]
          omega)
        rw [List.length_append, List.length_singleton] at hnext
        show Exact (addBelow (2 ^ 64) offset size >>= fun next => placeChunk t n next (ranges ++ [(offset, size)])) _ _
        have hhead : ∀ l : List (Nat × Nat), EndsFit ((offset, size) :: l) ↔ offset + size < 2 ^ 64 ∧ EndsFit l :=
          fun l => List.forall_mem_cons
        generalize backToBack (offset + size) (((sizesOf t).drop (ranges.length + 1)).take n) = rest at hnext ⊢
        rw [hhead, show ranges ++ (offset, size) :: rest = ranges ++ [(offset, size)] ++ rest by simp]
        have hroom : n + 1 ≤ ((sizesOf t).drop (ranges.length + 1)).length + 1
            ↔ n ≤ ((sizesOf t).drop (ranges.length + 1)).length := by omega
        rw [if_congr hroom rfl rfl]
        exact (exact_addBelow (2 ^ 64) offset size).bind_some hnext

/-- The chunks, each with its offset and how many samples it holds. -/
def chunksOf (t : LayoutTables) (runs : List (Nat × Nat)) (l : List Nat) : List (Nat × Nat) :=
  l.map fun c => (offsetOf t.chunks c, countAt runs c)

theorem chunksOf_advanceRun {c : Nat} {runs : List (Nat × Nat)} {l : List Nat} (h : ∀ d ∈ l, c ≤ d) :
    chunksOf t (advanceRun c runs) l = chunksOf t runs l :=
  List.map_congr_left fun d hd => by rw [countAt, advanceRun_advanceRun (h d hd), countAt]

/-- **The samples of some chunks**, while every chunk has a run and the sizes last. -/
theorem placeChunks_exact (hsamples : t.samples < 2 ^ 32) (hchunks : chunkOffsetsOf t.stbl = some t.chunks) {l : List Nat}
    (hl : ∀ c ∈ l, c < t.chunks.count) (hinc : l.Pairwise (· ≤ ·)) (runs ranges : List (Nat × Nat))
    (hranges : ranges.length ≤ t.samples) :
    Exact (placeChunks t l runs ranges)
      (EndsFit (layChunks (chunksOf t runs l) ((sizesOf t).drop ranges.length)))
      (if (l = [] ∨ runs ≠ []) ∧ ((chunksOf t runs l).map Prod.snd).sum ≤ ((sizesOf t).drop ranges.length).length then
        some (ranges ++ layChunks (chunksOf t runs l) ((sizesOf t).drop ranges.length)) else none) := by
  induction l generalizing runs ranges with
  | nil =>
    rw [if_pos ⟨.inl rfl, Nat.zero_le _⟩]
    show Exact (.ok ranges) (EndsFit []) (some (ranges ++ []))
    rw [List.append_nil]
    exact (Answers.value ranges).exact.congr (by simp [EndsFit])
  | cons c l ih =>
    obtain ⟨hlate, hinc⟩ := List.pairwise_cons.mp hinc
    rw [placeChunks]
    cases hrun : (advanceRun c runs).head? with
    | none =>
      have hnil : runs = [] := by_contra fun h => advanceRun_ne_nil h (List.head?_eq_none_iff.mp hrun)
      have hnone : ∀ (l : List Nat) (sizes : List Nat), layChunks (chunksOf t [] l) sizes = [] := by
        intro l
        induction l with
        | nil => exact fun _ => rfl
        | cons d l ihl => exact fun sizes => ihl sizes
      subst hnil
      rw [hnone, if_neg fun h => h.1.elim (List.cons_ne_nil _ _) fun h => h rfl]
      exact (answers_fail _).exact.congr (by simp [EndsFit])
    | some run =>
      have hruns : runs ≠ [] := fun h => by
        rw [h] at hrun
        exact nomatch hrun
      have hcount : countAt runs c = run.2 := by rw [countAt, hrun, Option.map_some, Option.getD_some]
      have hcons : chunksOf t runs (c :: l) = (offsetOf t.chunks c, run.2) :: chunksOf t (advanceRun c runs) l := by
        rw [chunksOf_advanceRun hlate, ← hcount]
        rfl
      show Exact (chunkOffset t.chunks c >>= _) _ _
      rw [chunkOffset_eq hchunks (hl c List.mem_cons_self), hcons, layChunks, endsFit_append, List.map_cons, List.sum_cons]
      have hhere := placeChunk_exact hsamples run.2 (offsetOf t.chunks c) ranges hranges
      have hlen := length_sizesOf_le t
      generalize hsizes : (sizesOf t).drop ranges.length = sizes at hhere ⊢
      have hsum : sizes.length = (sizesOf t).length - ranges.length := by rw [← hsizes, List.length_drop]
      by_cases hroom : run.2 ≤ sizes.length
      · rw [if_pos hroom] at hhere
        have htaken : (sizes.take run.2).length = run.2 := List.length_take_of_le hroom
        have hplaced : (ranges ++ backToBack (offsetOf t.chunks c) (sizes.take run.2)).length = ranges.length + run.2 := by
          rw [List.length_append, length_backToBack, htaken]
        have hrest := ih (fun d hd => hl d (List.mem_cons_of_mem c hd)) hinc (advanceRun c runs)
          (ranges ++ backToBack (offsetOf t.chunks c) (sizes.take run.2)) (by omega)
        rw [hplaced, ← List.drop_drop, hsizes, List.append_assoc] at hrest
        have hiff : (l = [] ∨ advanceRun c runs ≠ [])
            ∧ ((chunksOf t (advanceRun c runs) l).map Prod.snd).sum ≤ (sizes.drop run.2).length
            ↔ (c :: l = [] ∨ runs ≠ [])
              ∧ run.2 + ((chunksOf t (advanceRun c runs) l).map Prod.snd).sum ≤ sizes.length := by
          rw [and_iff_right (Or.inr (advanceRun_ne_nil hruns)), and_iff_right (Or.inr hruns), List.length_drop]
          omega
        rw [← if_congr hiff rfl rfl]
        exact hhere.bind_some hrest
      · -- the sizes end within the chunk
        rw [if_neg hroom] at hhere
        rw [List.drop_eq_nil_of_le (by omega), layChunks_nil, if_neg fun h => hroom (by omega)]
        exact hhere.bind_none.congr (and_iff_left (by simp [EndsFit])).symm

/-- All the samples that have both a place and a size. -/
def reached (t : LayoutTables) : List (Nat × Nat) :=
  layChunks (chunksOf t t.perChunk (List.range t.chunks.count)) (sizesOf t)

/-- Every chunk has a run, and the tables agree on how many samples there are. -/
def Complete (t : LayoutTables) : Prop :=
  (t.chunks.count = 0 ∨ t.perChunk ≠ [])
    ∧ ((chunksOf t t.perChunk (List.range t.chunks.count)).map Prod.snd).sum = t.samples
    ∧ (sizesOf t).length = t.samples

instance (t : LayoutTables) : Decidable (Complete t) := inferInstanceAs (Decidable (_ ∧ _ ∧ _))

theorem length_layChunks {chunks : List (Nat × Nat)} {sizes : List Nat} (h : (chunks.map Prod.snd).sum ≤ sizes.length) :
    (layChunks chunks sizes).length = (chunks.map Prod.snd).sum := by
  induction chunks generalizing sizes with
  | nil => rfl
  | cons chunk chunks ih =>
    rw [List.map_cons, List.sum_cons] at h ⊢
    rw [layChunks, List.length_append, length_backToBack, List.length_take_of_le (by omega),
      ih (by rw [List.length_drop]; omega)]

theorem length_reached (h : Complete t) : (reached t).length = t.samples := by
  obtain ⟨-, hplaced, hlisted⟩ := h
  rw [reached, length_layChunks (by omega), hplaced]

/-- **The byte ranges are exact** while the ends fit, and given where the tables agree. -/
theorem sampleRanges_exact {mdia : Bytes} (h : layoutOf mdia = some t) :
    Exact (sampleRanges t) (EndsFit (reached t)) (if Complete t then some (reached t) else none) := by
  obtain ⟨-, hsamples, hchunks, -, -⟩ := length_of_layoutOf h
  have hplace := placeChunks_exact hsamples hchunks (fun c hc => List.mem_range.mp hc) List.pairwise_le_range
    t.perChunk [] (Nat.zero_le _)
  rw [List.length_nil, List.drop_zero, List.nil_append] at hplace
  have hlisted := length_sizesOf_le t
  unfold sampleRanges
  by_cases hroom : (List.range t.chunks.count = [] ∨ t.perChunk ≠ [])
      ∧ ((chunksOf t t.perChunk (List.range t.chunks.count)).map Prod.snd).sum ≤ (sizesOf t).length
  · rw [if_pos hroom] at hplace
    have hlength := length_layChunks hroom.2
    rw [← reached] at hplace hlength
    have hcomplete : Complete t ↔ (reached t).length = t.samples := by
      rw [Complete, ← List.range_eq_nil, and_iff_right hroom.1, hlength]
      omega
    have hcheck : Exact (if (reached t).length ≠ t.samples then
          fail s!"chunks hold {(reached t).length} of {t.samples} samples" else pure (reached t)) True
        (if Complete t then some (reached t) else none) := by
      by_cases hall : (reached t).length = t.samples
      · rw [if_neg (not_not_intro hall), if_pos (hcomplete.mpr hall)]
        exact (Answers.value _).exact
      · rw [if_pos hall, if_neg (mt hcomplete.mp hall)]
        exact (answers_fail _).exact
    exact (hplace.bind_some hcheck).congr (and_iff_left trivial)
  · rw [if_neg hroom] at hplace
    have hcomplete : ¬ Complete t := fun h => hroom ⟨by rw [List.range_eq_nil]; exact h.1, by
      obtain ⟨-, hplaced, hlisted⟩ := h
      omega⟩
    rw [if_neg hcomplete]
    exact hplace.bind_none

/-! ## When the samples are shown -/

/-- The composition offsets, zero without a table. -/
def compositionOf (stbl : Bytes) (samples : Nat) : Option (List Int) :=
  match box stbl Kind.ctts with
  | some ctts => valuesOf ctts samples true
  | none => some (List.replicate samples 0)

def timingOf (trak : Bytes) (t : LayoutTables) : Option Timing :=
  (box t.stbl Kind.stts).bind fun stts => (valuesOf stts t.samples false).bind fun deltas =>
    (compositionOf t.stbl t.samples).bind fun composition => (startOf trak).bind fun start =>
      some ⟨deltas, composition, start⟩

/-- The time a sample is decoded: the durations of those before it. -/
def Timing.decodeTime (m : Timing) (i : Nat) : Int := (m.deltas.take i).sum

/-- The time a sample is shown, from the start of the presentation on. -/
def Timing.shownAt (m : Timing) (i : Nat) : Int := m.decodeTime i + m.composition.getD i 0 - m.start

/-- Every time that is reached is within 64 bits, from sample `i` on. -/
def TimesFit (m : Timing) (i n : Nat) : Prop :=
  ∀ j, i ≤ j → j < n → m.decodeTime j < 2 ^ 63 →
    FitsI64 (m.decodeTime j + m.composition.getD j 0) ∧ FitsI64 (m.shownAt j)

/-- Samples with the times they are shown at. -/
def present (timescale : Nat) (m : Timing) (i : Nat) (ranges : List (Nat × Nat)) : List Span :=
  (ranges.zipIdx i).map fun r => ⟨r.1.1, r.1.2, seconds (m.shownAt r.2) timescale⟩

variable {m : Timing}

theorem decodeTime_succ {i : Nat} {delta : Int} (h : m.deltas[i]? = some delta) :
    m.decodeTime (i + 1) = m.decodeTime i + delta := by
  rw [Timing.decodeTime, Timing.decodeTime, List.take_add_one, h, List.sum_append]
  simp

theorem decodeTime_mono (hpos : ∀ d ∈ m.deltas, 0 ≤ d) {i j : Nat} (h : i ≤ j) : m.decodeTime i ≤ m.decodeTime j := by
  obtain ⟨k, rfl⟩ := Nat.exists_eq_add_of_le h
  rw [Timing.decodeTime, Timing.decodeTime, List.take_add, List.sum_append]
  have : 0 ≤ ((m.deltas.drop i).take k).sum :=
    List.sum_nonneg fun d hd => hpos d (List.mem_of_mem_drop (List.mem_of_mem_take hd))
  omega

theorem decodeTime_nonneg (hpos : ∀ d ∈ m.deltas, 0 ≤ d) (i : Nat) : 0 ≤ m.decodeTime i :=
  decodeTime_mono hpos (Nat.zero_le i)

theorem exact_i64 (x : Int) : Exact (i64 x) (FitsI64 x) (some x) :=
  ⟨fun h => .of_eq (if_pos h), fun h => if_neg h⟩

theorem index_eq {l : List Int} {i : Nat} {x : Int} (h : l[i]? = some x) : index l i = .ok x := by
  rw [index, h]

/-- **The times are exact** while they fit, up to the first decode time that does not. -/
theorem presentSamples_exact {timescale n : Nat} (hscale : timescale ≠ 0) (hdeltas : m.deltas.length = n)
    (hcomposition : m.composition.length = n) (hpos : ∀ d ∈ m.deltas, 0 ≤ d) {i : Nat} {ranges : List (Nat × Nat)}
    (hranges : i + ranges.length = n) (hreached : m.decodeTime i < 2 ^ 63) :
    Exact (presentSamples timescale m.start m.deltas m.composition i (m.decodeTime i) ranges) (TimesFit m i n)
      (if m.decodeTime n < 2 ^ 63 then some (present timescale m i ranges) else none) := by
  induction ranges generalizing i with
  | nil =>
    have hin : i = n := hranges
    rw [← hin, if_pos hreached]
    refine (Answers.value []).exact.congr (iff_of_true trivial fun j hj hlt _ => ?_)
    omega
  | cons range ranges ih =>
    rw [List.length_cons] at hranges
    have hi : i < m.composition.length := by omega
    have hi' : i < m.deltas.length := by omega
    have hoffset : m.composition[i]? = some m.composition[i] := List.getElem?_eq_getElem hi
    have hdelta : m.deltas[i]? = some m.deltas[i] := List.getElem?_eq_getElem hi'
    have hcomposed : m.composition.getD i 0 = m.composition[i] := by
      rw [List.getD_eq_getElem?_getD, hoffset, Option.getD_some]
    have hnext := decodeTime_succ hdelta
    have hgrows := decodeTime_nonneg hpos (i + 1)
    -- the first sample, then the others
    have hfit : TimesFit m i n ↔ FitsI64 (m.decodeTime i + m.composition[i]) ∧ FitsI64 (m.shownAt i)
        ∧ TimesFit m (i + 1) n := by
      rw [← and_assoc]
      constructor
      · intro h
        refine ⟨?_, fun j hj => h j (by omega)⟩
        rw [← hcomposed]
        exact h i le_rfl (by omega) hreached
      · rintro ⟨hhere, hrest⟩ j hj hlt hdecode
        rcases Nat.eq_or_lt_of_le hj with rfl | hj
        · rw [hcomposed]
          exact hhere
        · exact hrest j hj hlt hdecode
    have hshown : m.decodeTime i + m.composition[i] - m.start = m.shownAt i := by rw [Timing.shownAt, hcomposed]
    rw [presentSamples, index_eq hoffset]
    refine Exact.congr ?_ hfit.symm
    refine (exact_i64 _).bind_some ?_
    rw [hshown]
    refine (exact_i64 _).bind_some ?_
    rw [timeSec, if_neg hscale, index_eq hdelta]
    show Exact (context "sample time overflow" _ >>= _) _ _
    rw [← hnext]
    by_cases hdecode : m.decodeTime (i + 1) < 2 ^ 63
    · rw [if_pos ⟨by omega, hdecode⟩]
      have hrest := ih (by omega) hdecode
      show Exact (presentSamples timescale m.start m.deltas m.composition (i + 1) (m.decodeTime (i + 1)) ranges >>=
        fun spans => pure (⟨range.1, range.2, seconds (m.shownAt i) timescale⟩ :: spans)) _ _
      by_cases hall : m.decodeTime n < 2 ^ 63
      · rw [if_pos hall] at hrest ⊢
        exact hrest.bind_pure (⟨range.1, range.2, seconds (m.shownAt i) timescale⟩ :: ·)
      · rw [if_neg hall] at hrest ⊢
        exact hrest.bind_none
    · -- no later decode time fits
      rw [if_neg fun h => hdecode h.2, if_neg fun h => hdecode ((decodeTime_mono hpos (by omega)).trans_lt h)]
      refine (answers_fail _).exact.congr (iff_of_true trivial fun j hj _ hlt => ?_)
      exact absurd ((decodeTime_mono hpos hj).trans_lt hlt) hdecode

/-! ## The samples of a track -/

theorem length_of_valuesOf {data : Bytes} {samples : Nat} {signed : Bool} {values : List Int}
    (h : valuesOf data samples signed = some values) : values.length = samples := by
  obtain ⟨values', -, h⟩ := Option.bind_eq_some_iff.mp h
  obtain ⟨hlength, h⟩ := Option.ite_none_right_eq_some.mp h
  rw [← Option.some.inj h]
  exact hlength

/-- Durations are not negative. -/
theorem nonneg_of_valuesOf {data : Bytes} {samples : Nat} {values : List Int}
    (h : valuesOf data samples false = some values) : ∀ d ∈ values, 0 ≤ d := by
  obtain ⟨values', hvalues, h⟩ := Option.bind_eq_some_iff.mp h
  obtain ⟨-, h⟩ := Option.ite_none_right_eq_some.mp h
  obtain ⟨table, -, hexpand⟩ := Option.map_eq_some_iff.mp hvalues
  rw [← Option.some.inj h, ← hexpand]
  intro d hd
  obtain ⟨run, hrun, hd⟩ := List.mem_flatMap.mp hd
  obtain ⟨i, -, rfl⟩ := List.mem_map.mp hrun
  rw [List.eq_of_mem_replicate hd]
  rw [timingRun, if_neg fun hsigned => Bool.false_ne_true hsigned.1]
  exact Int.natCast_nonneg _

theorem length_of_compositionOf {stbl : Bytes} {samples : Nat} {values : List Int}
    (h : compositionOf stbl samples = some values) : values.length = samples := by
  unfold compositionOf at h
  split at h
  · exact length_of_valuesOf h
  · rw [← Option.some.inj h, List.length_replicate]

theorem timingOf_spec {trak : Bytes} (h : timingOf trak t = some m) :
    m.deltas.length = t.samples ∧ m.composition.length = t.samples ∧ ∀ d ∈ m.deltas, 0 ≤ d := by
  obtain ⟨stts, -, h⟩ := Option.bind_eq_some_iff.mp h
  obtain ⟨deltas, hdeltas, h⟩ := Option.bind_eq_some_iff.mp h
  obtain ⟨composition, hcomposition, h⟩ := Option.bind_eq_some_iff.mp h
  obtain ⟨start, -, h⟩ := Option.bind_eq_some_iff.mp h
  rw [← Option.some.inj h]
  exact ⟨length_of_valuesOf hdeltas, length_of_compositionOf hcomposition, nonneg_of_valuesOf hdeltas⟩

theorem readTiming_answers {trak : Bytes} (hlen : trak.length < 2 ^ 63) (hstbl : t.stbl.length < 2 ^ 63) :
    Answers (readTiming trak t) (timingOf trak t) := by
  have hcomposition : Answers (compositionOffsets t.stbl t.samples) (compositionOf t.stbl t.samples) := by
    unfold compositionOffsets compositionOf
    rw [child_eq hstbl]
    show Answers (match box t.stbl Kind.ctts with | some ctts => _ | none => _) _
    cases box t.stbl Kind.ctts with
    | none => exact .value _
    | some ctts => exact expandRuns_answers _ _
  unfold readTiming timingOf
  rw [child_eq hstbl]
  exact (answers_context _ _).bind fun stts _ => (expandRuns_answers _ _).bind fun deltas _ =>
    hcomposition.bind fun composition _ => (editStart_answers hlen).bind fun start _ => .value _

/-- No end of a sample and no time of one leaves its type. -/
def TrackFits (trak mdia : Bytes) : Prop :=
  ∀ t, layoutOf mdia = some t → EndsFit (reached t)
    ∧ (Complete t → ∀ m, timingOf trak t = some m → TimesFit m 0 t.samples)

/-- The samples that are accepted, in decode order. -/
def acceptedOf (trak mdia : Bytes) : Option (List Span) :=
  (layoutOf mdia).bind fun t =>
    if Complete t then
      (timingOf trak t).bind fun m =>
        if m.decodeTime t.samples < 2 ^ 63 then some (present t.timescale m 0 (reached t)) else none
    else none

/-- **A track is read** without a stop, while its ends and times fit. -/
theorem parseVideoTrak_exact {trak mdia : Bytes} (htrak : trak.length < 2 ^ 63) (hmdia : mdia.length < 2 ^ 63) :
    Exact (parseVideoTrak trak mdia) (TrackFits trak mdia) ((acceptedOf trak mdia).map .byOffset) := by
  have hbind : (acceptedOf trak mdia).map VideoSampleTimes.byOffset = (layoutOf mdia).bind fun t =>
      if Complete t then
        (timingOf trak t).bind fun m =>
          if m.decodeTime t.samples < 2 ^ 63 then some (.byOffset (present t.timescale m 0 (reached t))) else none
      else none := by
    rw [acceptedOf, Option.map_bind]
    refine congrArg _ (funext fun t => ?_)
    show Option.map _ (if _ then _ else _) = _
    split
    · rw [Option.map_bind]
      refine congrArg _ (funext fun m => ?_)
      show Option.map _ (if _ then _ else _) = _
      split
      · rfl
      · rfl
    · rfl
  rw [hbind]
  refine ((readLayout_answers hmdia).exact.bind
    (q := fun t => EndsFit (reached t) ∧ (Complete t → ∀ m, timingOf trak t = some m → TimesFit m 0 t.samples))
    fun t ht => ?_).congr (and_iff_right trivial)
  have hranges := sampleRanges_exact ht
  obtain ⟨hstbl, -, -, -, hscale⟩ := length_of_layoutOf ht
  by_cases hcomplete : Complete t
  · rw [if_pos hcomplete] at hranges ⊢
    have htiming := (readTiming_answers (t := t) htrak (lt_of_le_of_lt hstbl hmdia)).exact.bind
      (f := fun m => presentSamples t.timescale m.start m.deltas m.composition 0 0 (reached t) >>= fun spans =>
        pure (VideoSampleTimes.byOffset spans))
      (q := fun m => TimesFit m 0 t.samples)
      (g := fun m => if m.decodeTime t.samples < 2 ^ 63 then some (.byOffset (present t.timescale m 0 (reached t))) else none)
      fun m hm => by
        obtain ⟨hdeltas, hcomposition, hpos⟩ := timingOf_spec hm
        have hpresent := presentSamples_exact hscale hdeltas hcomposition hpos
          (show 0 + (reached t).length = t.samples by rw [Nat.zero_add, length_reached hcomplete])
          (show m.decodeTime 0 < 2 ^ 63 by simp [Timing.decodeTime])
        by_cases hall : m.decodeTime t.samples < 2 ^ 63
        · rw [if_pos hall] at hpresent ⊢
          exact hpresent.bind_pure VideoSampleTimes.byOffset
        · rw [if_neg hall] at hpresent ⊢
          exact hpresent.bind_none
    refine (hranges.bind_some htiming).congr (and_congr_right fun _ => ?_)
    rw [and_iff_right trivial]
    exact ⟨fun h _ => h, fun h => h hcomplete⟩
  · rw [if_neg hcomplete] at hranges ⊢
    exact hranges.bind_none.congr (and_iff_left fun h => absurd h hcomplete).symm

/-! ## The first video track -/

/-- Track and media box of a video track. -/
def videoMedia (b : Bytes × Bytes) : Option (Bytes × Bytes) :=
  if b.1 = Kind.trak then
    (box b.2 Kind.mdia).bind fun mdia =>
      if ((box mdia Kind.hdlr).bind fun h => readExact h 8 4) = some Kind.vide then some (b.2, mdia) else none
  else none

/-- Track and media box of the first video track. -/
def videoTrack (moov : Bytes) : Option (Bytes × Bytes) := (boxes moov).findSome? videoMedia

theorem length_of_videoMedia {b tr : Bytes × Bytes} (h : videoMedia b = some tr) :
    tr.1.length ≤ b.2.length ∧ tr.2.length ≤ b.2.length := by
  obtain ⟨-, h⟩ := Option.ite_none_right_eq_some.mp h
  obtain ⟨mdia, hmdia, h⟩ := Option.bind_eq_some_iff.mp h
  obtain ⟨-, h⟩ := Option.ite_none_right_eq_some.mp h
  rw [← Option.some.inj h]
  exact ⟨le_rfl, length_of_box hmdia⟩

/-- **The first video track** is parsed. -/
theorem parseTracks_eq {l : List (Bytes × Bytes)} (hl : ∀ b ∈ l, b.2.length < 2 ^ 63) :
    parseTracks l = (l.findSome? videoMedia).elim (fail "no video track") fun tr => parseVideoTrak tr.1 tr.2 := by
  induction l with
  | nil => rfl
  | cons b l ih =>
    obtain ⟨kind, trak⟩ := b
    have htrak : trak.length < 2 ^ 63 := hl (kind, trak) List.mem_cons_self
    have hrest := ih fun b hb => hl b (List.mem_cons_of_mem _ hb)
    rw [parseTracks, List.findSome?_cons, videoMedia]
    by_cases hkind : kind = Kind.trak
    · rw [if_neg (not_not_intro hkind), if_pos hkind, child_eq htrak]
      cases hmdia : box trak Kind.mdia with
      | none => exact hrest
      | some mdia =>
        show (child mdia Kind.hdlr >>= _) = _
        rw [child_eq (lt_of_le_of_lt (length_of_box hmdia) htrak), Option.bind_some]
        show (if ((box mdia Kind.hdlr).bind fun h => readExact h 8 4) = some Kind.vide then _ else _) = _
        by_cases hvideo : ((box mdia Kind.hdlr).bind fun h => readExact h 8 4) = some Kind.vide
        · rw [if_pos hvideo, if_pos hvideo]
          rfl
        · rw [if_neg hvideo, if_neg hvideo]
          exact hrest
    · rw [if_pos hkind, if_neg hkind]
      exact hrest

theorem parseMoov_exact {moov : Bytes} (hlen : moov.length < 2 ^ 63) :
    Exact (parseMoov moov) (∀ tr, videoTrack moov = some tr → TrackFits tr.1 tr.2)
      ((videoTrack moov).bind fun tr => (acceptedOf tr.1 tr.2).map .byOffset) := by
  have hshort : ∀ b ∈ boxes moov, b.2.length < 2 ^ 63 := fun b hb => lt_of_le_of_lt (length_of_mem_boxesFrom hb) hlen
  rw [parseMoov, children_eq hlen]
  show Exact (parseTracks (boxes moov)) _ _
  rw [parseTracks_eq hshort, videoTrack]
  cases htrack : (boxes moov).findSome? videoMedia with
  | none => exact (answers_fail _).exact.congr (iff_of_true trivial fun tr h => nomatch h)
  | some tr =>
    obtain ⟨b, hb, hmedia⟩ := List.exists_of_findSome?_eq_some htrack
    obtain ⟨htrak, hmdia⟩ := length_of_videoMedia hmedia
    have hexact := parseVideoTrak_exact (lt_of_le_of_lt htrak (hshort b hb)) (lt_of_le_of_lt hmdia (hshort b hb))
    exact hexact.congr ⟨fun h tr' heq => Option.some.inj heq ▸ h, fun h => h tr rfl⟩

/-! ## The samples the tables stand for -/

/-- The run of a chunk: the last one that starts at or before it. -/
def runOf (runs : List (Nat × Nat)) (c : Nat) : Option (Nat × Nat) :=
  (runs.filter fun r => decide (r.1 ≤ c + 1)).getLast?

/-- The chunks, each with its offset and how many samples its run gives it. -/
def placesOf (t : LayoutTables) : Option (List (Nat × Nat)) :=
  if ∀ c ∈ List.range t.chunks.count, (runOf t.perChunk c).isSome = true then
    some ((List.range t.chunks.count).map fun c =>
      (offsetOf t.chunks c, ((runOf t.perChunk c).map Prod.snd).getD 0))
  else none

/-- **The samples the tables stand for**, in the order of the file. -/
def expansion (trak mdia : Bytes) : Option (List Span) :=
  (layoutOf mdia).bind fun t => (placesOf t).bind fun chunks => (timingOf trak t).bind fun m =>
    if (chunks.map Prod.snd).sum = t.samples ∧ (sizesOf t).length = t.samples then
      some ((present t.timescale m 0 (layChunks chunks (sizesOf t))).insertionSort Span.le)
    else none

/-- The runs start with the first chunk. -/
def FirstRun (t : LayoutTables) : Prop := t.chunks.count = 0 ∨ t.perChunk.head?.map Prod.fst = some 1

theorem runOf_eq_none {run : Nat × Nat} {runs : List (Nat × Nat)} (h : RunsOrdered (run :: runs)) {c : Nat}
    (hlate : c + 1 < run.1) : runOf (run :: runs) c = none := by
  have hnone : (run :: runs).filter (fun r => decide (r.1 ≤ c + 1)) = [] := by
    rw [List.filter_eq_nil_iff]
    intro r hr
    rw [decide_eq_true_eq]
    rcases List.mem_cons.mp hr with rfl | hr
    · omega
    · have := (List.pairwise_cons.mp h.2).1 r hr
      omega
  rw [runOf, hnone, List.getLast?_nil]

/-- A chunk that has a run is counted with it. -/
theorem runOf_eq {run : Nat × Nat} {runs : List (Nat × Nat)} (h : RunsOrdered (run :: runs)) {c : Nat}
    (hstart : run.1 ≤ c + 1) : runOf (run :: runs) c = (advanceRun c (run :: runs)).head? := by
  induction runs generalizing run with
  | nil => rw [runOf, List.filter_cons_of_pos (by rwa [decide_eq_true_eq])]; rfl
  | cons next rest ih =>
    have htail : RunsOrdered (next :: rest) :=
      ⟨fun r hr => h.1 r (List.mem_cons_of_mem run hr), (List.pairwise_cons.mp h.2).2⟩
    rw [runOf, List.filter_cons_of_pos (by rwa [decide_eq_true_eq]), advanceRun]
    by_cases hnext : next.1 ≤ c + 1
    · have hlater := ih htail hnext
      rw [if_pos hnext, ← hlater, runOf, List.filter_cons_of_pos (by rwa [decide_eq_true_eq]), List.getLast?_cons_cons]
    · have hnone : runOf (next :: rest) c = none := runOf_eq_none htail (by omega)
      rw [runOf, List.getLast?_eq_none_iff] at hnone
      rw [if_neg hnext, hnone]
      rfl

/-- **The chunks are counted by their runs**, if the runs start with the first chunk. -/
theorem placesOf_eq (h : RunsOrdered t.perChunk) :
    (FirstRun t → placesOf t = some (chunksOf t t.perChunk (List.range t.chunks.count)))
      ∧ (¬ FirstRun t → placesOf t = none) := by
  constructor
  · intro hfirst
    have hrun : ∀ c ∈ List.range t.chunks.count,
        runOf t.perChunk c = (advanceRun c t.perChunk).head? ∧ (runOf t.perChunk c).isSome = true := by
      intro c hc
      have hcount := List.mem_range.mp hc
      have hone : t.perChunk.head?.map Prod.fst = some 1 := hfirst.resolve_left (by omega)
      cases hruns : t.perChunk with
      | nil =>
        rw [hruns] at hone
        exact nomatch hone
      | cons run runs =>
        rw [hruns] at hone h
        have hrun1 : run.1 = 1 := Option.some.inj hone
        have heq := runOf_eq h (show run.1 ≤ c + 1 by omega)
        refine ⟨heq, ?_⟩
        rw [heq]
        cases hadvance : advanceRun c (run :: runs) with
        | nil => exact absurd hadvance (advanceRun_ne_nil (List.cons_ne_nil run runs))
        | cons => rfl
    rw [placesOf, if_pos fun c hc => (hrun c hc).2]
    exact congrArg some (List.map_congr_left fun c hc => by rw [countAt, (hrun c hc).1])
  · intro hfirst
    have hcount : t.chunks.count ≠ 0 := fun hzero => hfirst (.inl hzero)
    rw [placesOf, if_neg]
    -- the first chunk has no run
    intro hall
    have hrun := hall 0 (List.mem_range.mpr (by omega))
    cases hruns : t.perChunk with
    | nil =>
      rw [hruns] at hrun
      exact nomatch hrun
    | cons run runs =>
      rw [hruns] at hrun h
      have hpos := h.1 run List.mem_cons_self
      have hone : run.1 ≠ 1 := fun heq => hfirst (.inr (by rw [hruns, List.head?_cons, Option.map_some, heq]))
      rw [runOf_eq_none h (by omega)] at hrun
      exact nomatch hrun

/-! ## Looking a time up -/

/-- The end of a sample. -/
def Span.stop (s : Span) : Nat := s.offset + s.size

/-- **The lookup** finds the time of the sample that holds an offset, and nothing where none does, unless samples
share bytes. -/
def LooksUp (times : VideoSampleTimes) : Prop :=
  ∀ q < 2 ^ 64, Safe (timeAtOffset times q) ∧ (Apart Span.offset Span.stop times.spans →
    (∀ s ∈ times.spans, Holds Span.offset Span.stop s q → timeAtOffset times q = .ok (some s.timeSec))
      ∧ ((∀ s ∈ times.spans, ¬ Holds Span.offset Span.stop s q) → timeAtOffset times q = .ok none))

theorem getElem?_of_takeWhile {α : Type} {l : List α} {p : α → Bool} {n : Nat} (h : (l.takeWhile p).length = n + 1) :
    l[n]? = (l.takeWhile p).getLast? := by
  obtain ⟨rest, hrest⟩ := List.takeWhile_prefix p (l := l)
  rw [List.getLast?_eq_getElem?, h, Nat.add_sub_cancel]
  conv_lhs => rw [← hrest]
  exact List.getElem?_append_left (by omega)

theorem timeAtOffset_eq {times : VideoSampleTimes} (hfits : ∀ s ∈ times.spans, s.stop < 2 ^ 64) (q : Nat) :
    timeAtOffset times q = .ok ((holdingAt Span.offset Span.stop times.spans q).map Span.timeSec) := by
  unfold timeAtOffset holdingAt
  cases hcount : (times.spans.takeWhile fun s => decide (s.offset ≤ q)).length with
  | zero =>
    rw [List.length_eq_zero_iff.mp hcount]
    rfl
  | succ n =>
    have hlast := getElem?_of_takeWhile hcount
    dsimp only
    cases hget : times.spans[n]? with
    | none =>
      rw [hget] at hlast
      rw [List.getLast?_eq_none_iff.mp hlast.symm] at hcount
      exact nomatch hcount
    | some s =>
      rw [← hlast, hget]
      show (addBelow (2 ^ 64) s.offset s.size >>= _) = _
      rw [addBelow_eq (hfits s (List.mem_of_getElem? hget)), Option.filter_some]
      show (.ok (if q < s.stop then some s.timeSec else none) : Checked (Option Float)) = _
      by_cases hstop : q < s.stop
      · rw [if_pos hstop, if_pos (decide_eq_true hstop)]
        rfl
      · rw [if_neg hstop, if_neg (by rw [decide_eq_true_eq]; exact hstop)]
        rfl

/-- **The lookup is exact** if the samples that share no bytes also end before the next one starts. -/
theorem looksUp_iff {times : VideoSampleTimes} (hfits : ∀ s ∈ times.spans, s.stop < 2 ^ 64) :
    LooksUp times ↔
      (Apart Span.offset Span.stop times.spans → Spaced Span.offset Span.stop times.spans) := by
  constructor
  · intro hlook hapart
    by_contra hspaced
    obtain ⟨a, ha, b, hb, hholds, hmissed⟩ := exists_missed times.ordered hapart hspaced
    have hq : b.offset < 2 ^ 64 := lt_of_le_of_lt (Nat.le_add_right _ _) (hfits b hb)
    have hfound := ((hlook b.offset hq).2 hapart).1 a ha hholds
    rw [timeAtOffset_eq hfits, hmissed] at hfound
    exact nomatch Except.ok.inj hfound
  · intro hspaced q _
    rw [timeAtOffset_eq hfits]
    refine ⟨safe_ok _, fun hapart => ⟨fun s hs hholds => ?_, fun hnone => ?_⟩⟩
    · rw [holdingAt_of_spaced times.ordered (hspaced hapart) hs hholds]
      rfl
    · rw [holdingAt_eq_none hnone]
      rfl

/-! ## Where the samples are exact -/

/-- The byte ranges in the order of the file; those of one offset stay in decode order. -/
def fileOrder (t : LayoutTables) : List (Nat × Nat) := (reached t).insertionSort fun a b => a.1 ≤ b.1

/-- The end of a byte range. -/
def rangeStop (r : Nat × Nat) : Nat := r.1 + r.2

/-- **What the tables of a `moov` box must be like**: ends and times stay within their types, the first run starts with
the first chunk, and samples that share no bytes end before the next one in the file starts. -/
def SamplesFit (moov : Bytes) : Prop :=
  ∀ tr, videoTrack moov = some tr → ∀ t, layoutOf tr.2 = some t → EndsFit (reached t)
    ∧ (Complete t → ∀ m, timingOf tr.1 t = some m → TimesFit m 0 t.samples
      ∧ (m.decodeTime t.samples < 2 ^ 63 → FirstRun t
        ∧ (Apart Prod.fst rangeStop (fileOrder t) → Spaced Prod.fst rangeStop (fileOrder t))))

/-- **The samples of a `moov` box are exact**: nothing leaves its type or its range, what is accepted is what the tables
stand for, and a time is found by the bytes of its sample. -/
def ExpandsSamples (moov : Bytes) : Prop :=
  Safe (parseMoov moov) ∧ ∀ times, parseMoov moov = .ok times →
    ((videoTrack moov).bind fun tr => expansion tr.1 tr.2) = some times.spans ∧ LooksUp times

theorem map_present (timescale : Nat) (m : Timing) (i : Nat) (ranges : List (Nat × Nat)) :
    (present timescale m i ranges).map (fun s => (s.offset, s.size)) = ranges := by
  rw [present, List.map_map]
  exact List.zipIdx_map_fst i ranges

theorem map_byOffset (t : LayoutTables) (m : Timing) :
    (VideoSampleTimes.byOffset (present t.timescale m 0 (reached t))).spans.map (fun s => (s.offset, s.size))
      = fileOrder t := by
  show List.map _ (List.insertionSort Span.le _) = _
  rw [List.map_insertionSort (r := Span.le) (s := fun a b : Nat × Nat => a.1 ≤ b.1) _ _ fun a _ b _ => Iff.rfl,
    map_present, fileOrder]

/-- **The accepted samples are exact** where the runs and the samples leave nothing open. -/
theorem accepted_iff {tr : Bytes × Bytes} (hlayout : layoutOf tr.2 = some t) (hfits : EndsFit (reached t))
    (hcomplete : Complete t) (htiming : timingOf tr.1 t = some m) :
    (expansion tr.1 tr.2 = some (VideoSampleTimes.byOffset (present t.timescale m 0 (reached t))).spans
        ∧ LooksUp (.byOffset (present t.timescale m 0 (reached t))))
      ↔ FirstRun t ∧ (Apart Prod.fst rangeStop (fileOrder t) → Spaced Prod.fst rangeStop (fileOrder t)) := by
  obtain ⟨-, -, -, hperChunk, -⟩ := length_of_layoutOf hlayout
  have hordered : RunsOrdered t.perChunk := by
    obtain ⟨stsc, -, h⟩ := Option.bind_eq_some_iff.mp hperChunk
    obtain ⟨table, -, h⟩ := Option.bind_eq_some_iff.mp h
    obtain ⟨hordered, h⟩ := Option.ite_none_right_eq_some.mp h
    rwa [← Option.some.inj h]
  have hmem : ∀ s ∈ (VideoSampleTimes.byOffset (present t.timescale m 0 (reached t))).spans,
      (s.offset, s.size) ∈ reached t := by
    intro s hs
    have hs : (s.offset, s.size) ∈ fileOrder t := by
      rw [← map_byOffset t m]
      exact List.mem_map_of_mem hs
    exact (List.mem_insertionSort _).mp hs
  refine and_congr ?_ ?_
  · obtain ⟨hplaces, hnone⟩ := placesOf_eq hordered
    rw [expansion, hlayout, Option.bind_some]
    by_cases hfirst : FirstRun t
    · rw [hplaces hfirst, Option.bind_some, htiming, Option.bind_some, if_pos hcomplete.2]
      exact iff_of_true rfl hfirst
    · rw [hnone hfirst]
      exact iff_of_false (fun h => nomatch h) hfirst
  · rw [looksUp_iff fun s hs => hfits _ (hmem s hs), ← map_byOffset t m, Apart, Spaced, Apart, Spaced, List.pairwise_map,
      List.pairwise_map]
    exact Iff.rfl

/-- A number in `n` bytes, the highest first. -/
def beBytes (n v : Nat) : Bytes := (List.range n).reverse.map fun i => UInt8.ofNat (v / 256 ^ i)

def mp4Box (kind body : Bytes) : Bytes := beBytes 4 (8 + body.length) ++ kind ++ body

def fullBox (kind : Bytes) (version : UInt8) (body : Bytes) : Bytes := mp4Box kind ([version, 0, 0, 0] ++ body)

/-- A table of numbers of `n` bytes. -/
def tableBox (n : Nat) (kind : Bytes) (version : UInt8) (entries : List (List Nat)) : Bytes :=
  fullBox kind version (beBytes 4 entries.length ++ entries.flatten.flatMap (beBytes n))

/-- A `moov` payload with samples of some sizes back to back in one chunk, a thousandth of 36 seconds apart. -/
def videoMoov (chunkTable : Bytes) (sizes : List Nat) : Bytes :=
  let stbl := tableBox 4 Kind.stts 0 [[sizes.length, 1000]] ++ tableBox 4 Kind.stsc 0 [[1, sizes.length, 1]]
    ++ fullBox Kind.stsz 0 (beBytes 4 0 ++ beBytes 4 sizes.length ++ sizes.flatMap (beBytes 4)) ++ chunkTable
  let mdia := fullBox Kind.mdhd 0 (beBytes 8 0 ++ beBytes 4 36000 ++ beBytes 8 0)
    ++ fullBox Kind.hdlr 0 (beBytes 4 0 ++ Kind.vide ++ beBytes 12 0) ++ mp4Box Kind.minf (mp4Box Kind.stbl stbl)
  mp4Box Kind.trak (mp4Box Kind.mdia mdia)

/-- Three samples from byte 100 on. -/
def threeSamples : Bytes := videoMoov (tableBox 4 Kind.stco 0 [[100]]) [50, 30, 40]

/-- One byte at the last offset that a 64-bit chunk table can hold. -/
def lastByte : Bytes := videoMoov (tableBox 8 Kind.co64 0 [[2 ^ 64 - 1]]) [1]

/-- How a computation is stopped. -/
def stopOf {α : Type} : Checked α → Option Stop
  | .ok _ => none
  | .error s => some s

end SentryUsb.Video.Mp4Samples
