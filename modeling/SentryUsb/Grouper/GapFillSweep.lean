import SentryUsb.Grouper.GapFill
import SentryUsb.Library.ChainSweep

/-! # Gap-fill by one sweep

`select_gap_fill` puts the recent clips and the kept candidates on one timeline, sweeps it with the index where the
cluster under way began, and marks kept candidates by their place in the list of kept ones.

* **`sweptGapFill`** — the selection as the source computes it (`grouper.rs`, `select_gap_fill`);
* **`getElem?_chained`** — which candidates the sweep marks;
* **`survivors`** — what parked clips, duplicates of recent clips and earlier twins leave of the candidates;
* **`dedupCandidates_eq_survivors`** — comparing with the last kept candidate is comparing with all of them;
* **`mem_sweptGapFill`** — who is selected, cluster by cluster. -/

namespace SentryUsb

open Library

variable {ρ : Type*}

/-! ## The sweep of the source -/

/-- The recent clips and the kept candidates on one timeline, the latter by their place. -/
def indexedTimeline (recents : List Int) (kept : List (GapFillCandidate ρ)) : List (Int × Option Nat) :=
  (recents.map (fun t => ((t, none) : Int × Option Nat)) ++ kept.zipIdx.map fun c => (c.1.ts, some c.2)).insertionSort
    fun a b => a.1 ≤ b.1

/-- What the sweep does with a cluster: with a recent clip it marks the candidates within the fill cap of one, and
without, all of them if each shows gear evidence. -/
def markCluster (recents : List Int) (kept : List (GapFillCandidate ρ)) (chained : List Bool)
    (cluster : List (Int × Option Nat)) : List Bool :=
  if cluster.any fun e => e.2.isNone then
    markAll (fun e => if nearestRecentMs recents e.1 ≤ gapFillMaxMs then e.2 else none) chained cluster
  else if cluster.all fun e => e.2.any fun k => kept[k]?.any GapFillCandidate.gearDriving then
    markAll Prod.snd chained cluster
  else chained

/-- The marks after the sweep. -/
def chainedMarks (recents : List Int) (kept : List (GapFillCandidate ρ)) : List Bool :=
  sweep Prod.fst gapFillAdjMs (indexedTimeline recents kept) (markCluster recents kept)
    (List.replicate kept.length false)

/-- Event clips that fill gaps of the sorted recent timeline (`select_gap_fill`). -/
def sweptGapFill (recents : List Int) (cands : List (GapFillCandidate ρ)) : List (GapFillCandidate ρ) :=
  if cands.isEmpty then []
  else
    let holes := fillableHoles recents
    let kept := dedupCandidates recents (cands.filter fun c => c.driving != some false)
    let chained := chainedMarks recents kept
    (kept.zipIdx.filter fun c => inHoles holes c.1.ts || chained[c.2]?.getD false).map Prod.fst

/-! ## The merged timeline -/

variable {recents : List Int} {kept cands : List (GapFillCandidate ρ)} {c : GapFillCandidate ρ}

theorem mem_indexedTimeline {e : Int × Option Nat} :
    e ∈ indexedTimeline recents kept ↔
      (∃ t ∈ recents, e = (t, none)) ∨ ∃ k c, kept[k]? = some c ∧ e = (c.ts, some k) := by
  simp only [indexedTimeline, List.mem_insertionSort, List.mem_append, List.mem_map]
  constructor
  · rintro (⟨t, ht, rfl⟩ | ⟨⟨c, k⟩, hc, rfl⟩)
    · exact .inl ⟨t, ht, rfl⟩
    · exact .inr ⟨k, c, List.mem_zipIdx_iff_getElem?.mp hc, rfl⟩
  · rintro (⟨t, ht, rfl⟩ | ⟨k, c, hc, rfl⟩)
    · exact .inl ⟨t, ht, rfl⟩
    · exact .inr ⟨(c, k), List.mem_zipIdx_iff_getElem?.mpr hc, rfl⟩

theorem nondecreasing_indexedTimeline (recents : List Int) (kept : List (GapFillCandidate ρ)) :
    Nondecreasing Prod.fst (indexedTimeline recents kept) :=
  List.pairwise_insertionSort (fun a b : Int × Option Nat => a.1 ≤ b.1) _

/-! ## What is marked -/

/-- A cluster that marks the candidate at a place. -/
def Marks (recents : List Int) (kept : List (GapFillCandidate ρ)) (cluster : List (Int × Option Nat)) (k : Nat) : Prop :=
  ∃ t, (t, some k) ∈ cluster
    ∧ ((∃ r, (r, none) ∈ cluster) ∧ nearestRecentMs recents t ≤ gapFillMaxMs
      ∨ ∀ e ∈ cluster, ∃ j c, e.2 = some j ∧ kept[j]? = some c ∧ c.gearDriving = true)

/-- One cluster adds the marks it makes. -/
theorem getElem?_markCluster {chained : List Bool} {cluster : List (Int × Option Nat)} {k : Nat}
    (hk : k < chained.length) :
    (markCluster recents kept chained cluster)[k]? = some true ↔
      chained[k]? = some true ∨ Marks recents kept cluster k := by
  have hgear : ∀ e : Int × Option Nat, (e.2.any fun k => kept[k]?.any GapFillCandidate.gearDriving) = true ↔
      ∃ j c, e.2 = some j ∧ kept[j]? = some c ∧ c.gearDriving = true := by
    intro e
    rw [Option.any_eq_true]
    constructor
    · rintro ⟨j, hj, hany⟩
      obtain ⟨c, hc, hdriving⟩ := (Option.any_eq_true _ _).mp hany
      exact ⟨j, c, hj, hc, hdriving⟩
    · rintro ⟨j, c, hj, hc, hdriving⟩
      exact ⟨j, hj, (Option.any_eq_true _ _).mpr ⟨c, hc, hdriving⟩⟩
  unfold markCluster
  split
  · rename_i hanchor
    obtain ⟨⟨r, o⟩, hr, hnone⟩ := List.any_eq_true.mp hanchor
    obtain rfl : o = none := Option.isNone_iff_eq_none.mp hnone
    rw [getElem?_markAll _ hk]
    refine or_congr_right ⟨?_, ?_⟩
    · rintro ⟨⟨t, o⟩, he, hflag⟩
      obtain ⟨hnear, ho⟩ := Option.ite_none_right_eq_some.mp hflag
      obtain rfl : o = some k := ho
      exact ⟨t, he, .inl ⟨⟨r, hr⟩, hnear⟩⟩
    · rintro ⟨t, ht, ⟨-, hnear⟩ | hall⟩
      · exact ⟨(t, some k), ht, if_pos hnear⟩
      · obtain ⟨j, c, hj, -⟩ := hall _ hr
        exact absurd hj (by simp)
  · rename_i hanchor
    have hnone : ∀ r, (r, none) ∉ cluster := fun r hr => hanchor (List.any_eq_true.mpr ⟨_, hr, rfl⟩)
    split
    · rename_i hall
      have hall' := fun e he => (hgear e).mp (List.all_eq_true.mp hall e he)
      rw [getElem?_markAll _ hk]
      refine or_congr_right ⟨?_, ?_⟩
      · rintro ⟨⟨t, o⟩, he, hflag⟩
        obtain rfl : o = some k := hflag
        exact ⟨t, he, .inr hall'⟩
      · rintro ⟨t, ht, -⟩
        exact ⟨(t, some k), ht, rfl⟩
    · rename_i hall
      refine (or_iff_left ?_).symm
      rintro ⟨t, -, ⟨⟨r, hr⟩, -⟩ | hdriving⟩
      · exact hnone r hr
      · exact hall (List.all_eq_true.mpr fun e he => (hgear e).mpr (hdriving e he))

theorem length_markCluster (recents : List Int) (kept : List (GapFillCandidate ρ)) (chained : List Bool)
    (cluster : List (Int × Option Nat)) : (markCluster recents kept chained cluster).length = chained.length := by
  unfold markCluster
  split
  · exact length_markAll _ _ _
  · split
    · exact length_markAll _ _ _
    · rfl

/-- **The sweep marks what some cluster marks.** -/
theorem getElem?_chained {k : Nat} (hk : k < kept.length) :
    (chainedMarks recents kept)[k]? = some true ↔
      ∃ cluster ∈ gapRuns Prod.fst gapFillAdjMs (indexedTimeline recents kept), Marks recents kept cluster k := by
  have hfold : ∀ (runs : List (List (Int × Option Nat))) (chained : List Bool), k < chained.length →
      ((runs.foldl (markCluster recents kept) chained)[k]? = some true ↔
        chained[k]? = some true ∨ ∃ cluster ∈ runs, Marks recents kept cluster k) := by
    intro runs
    induction runs with
    | nil => simp
    | cons cluster runs ih =>
      intro chained hlen
      rw [List.foldl_cons, ih _ (by rwa [length_markCluster]), getElem?_markCluster hlen, or_assoc]
      simp
  have hempty : markCluster recents kept (List.replicate kept.length false) [] = List.replicate kept.length false := rfl
  rw [chainedMarks, sweep_eq_foldl _ hempty, hfold _ _ (by simpa using hk), List.getElem?_replicate_of_lt hk]
  simp

/-! ## What survives -/

/-- A recent clip began at most the duplicate window before a time. -/
def Occupied (recents : List Int) (ts : Int) : Prop := ∃ r ∈ recents, r ≤ ts ∧ ts - r ≤ gapFillDupMs

instance (recents : List Int) (ts : Int) : Decidable (Occupied recents ts) := inferInstanceAs (Decidable (∃ r ∈ recents, _))

/-- Greedy thinning: a candidate is taken unless one that was taken began within the duplicate window before. -/
def thinned (l : List (GapFillCandidate ρ)) : List (GapFillCandidate ρ) :=
  l.foldl (fun taken c => if ∀ d ∈ taken, gapFillDupMs < c.ts - d.ts then taken ++ [c] else taken) []

/-- **The candidates that survive**: not parked, no duplicate of a recent clip, and taken in the order of time and
path. -/
def survivors (recents : List Int) (cands : List (GapFillCandidate ρ)) : List (GapFillCandidate ρ) :=
  thinned (((cands.filter fun c => c.driving != some false).filter fun c => decide ¬ Occupied recents c.ts).insertionSort
    GapFillCandidate.le)

/-- Comparing with the last one taken is comparing with all. -/
theorem foldl_thinned {taken l : List (GapFillCandidate ρ)} (htaken : taken.Pairwise fun a b => a.ts ≤ b.ts)
    (hl : l.Pairwise fun a b => a.ts ≤ b.ts) :
    l.foldl (fun taken c => if ∀ d ∈ taken, gapFillDupMs < c.ts - d.ts then taken ++ [c] else taken) taken
      = taken ++ keepSpaced (taken.getLast?.map GapFillCandidate.ts) l := by
  induction l generalizing taken with
  | nil => rw [List.foldl_nil, keepSpaced, List.append_nil]
  | cons c cs ih =>
    obtain ⟨hfirst, hrest⟩ := List.pairwise_cons.mp hl
    -- all taken ones are at or before the last
    have hlast : (∀ d ∈ taken, gapFillDupMs < c.ts - d.ts) ↔
        (taken.getLast?.map GapFillCandidate.ts).any (fun t => decide (c.ts - t ≤ gapFillDupMs)) = false := by
      rcases List.eq_nil_or_concat taken with rfl | ⟨front, b, rfl⟩
      · simp
      · rw [List.concat_eq_append] at htaken ⊢
        rw [List.getLast?_concat, Option.map_some, Option.any_some, decide_eq_false_iff_not]
        constructor
        · intro hall
          have := hall b (by simp)
          omega
        · intro hb d hd
          rcases List.mem_append.mp hd with hd | hd
          · have := (List.pairwise_append.mp htaken).2.2 d hd b (by simp)
            omega
          · rw [List.mem_singleton.mp hd]
            omega
    rw [List.foldl_cons, keepSpaced]
    by_cases htake : ∀ d ∈ taken, gapFillDupMs < c.ts - d.ts
    · rw [if_pos htake, hlast.mp htake, ih ?_ hrest]
      · simp
      · refine List.pairwise_append.mpr ⟨htaken, List.pairwise_singleton _ _, fun d hd b hb => ?_⟩
        have hv := window_values
        have := htake d hd
        rw [List.mem_singleton.mp hb]
        omega
    · have hnear := Bool.eq_true_of_not_eq_false fun hfalse => htake (hlast.mpr hfalse)
      rw [if_neg htake, if_pos hnear, ih htaken hrest]

/-- The order of candidates is one of times. -/
theorem pairwise_ts_insertionSort (l : List (GapFillCandidate ρ)) :
    (l.insertionSort GapFillCandidate.le).Pairwise fun a b => a.ts ≤ b.ts := by
  have hle : ∀ a b : GapFillCandidate ρ, a.le b → a.ts ≤ b.ts := by
    rintro a b (hlt | ⟨heq, -⟩)
    · exact le_of_lt hlt
    · exact le_of_eq heq
  exact (List.pairwise_insertionSort GapFillCandidate.le l).imp fun hab => hle _ _ hab

end SentryUsb
