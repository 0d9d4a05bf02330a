import SentryUsb.Grouper.Clip
import SentryUsb.Library.SeparatedList

/-! # Gap-fill: which event clips join the continuous timeline

The continuous recording (`RecentClips`) can miss minutes that survive under an event folder. The
admission pipeline of `select_gap_fill` drops parked clips and duplicates, then admits what lies
inside a recording hole, chains to the recent timeline, or forms a cluster of its own in which every
clip carries gear evidence.

* **`selectGapFill`** — the pipeline (`grouper.rs`, `select_gap_fill`);
* **`inHoles_fillableHoles_iff`**, **`dupOfRecent_iff`**, **`nearestRecentMs_le_iff`** — what the
  binary searches of the source answer on a sorted timeline;
* **`selectGapFill_void`** — a void wider than every window of the pipeline cuts it in two;
* **`selectGapFill_map`** — the pipeline never looks at the row behind a candidate. -/

namespace SentryUsb

open Library

/-- An event clip proposed for gap-fill, with the row it stands for. `driving` is the telemetry
verdict (`none` before extraction), `gearDriving` the stricter gear-only evidence. -/
structure GapFillCandidate (ρ : Type*) where
  row : ρ
  ts : Int
  file : Text
  driving : Option Bool
  gearDriving : Bool

variable {ρ σ : Type*}

/-! ## Boundary searches -/

/-- Consecutive clips of a sorted timeline whose gap is wider than one missing clip and within the
fill cap (`fillable_holes`). -/
def fillableHoles (sortedTs : List Int) : List (Int × Int) :=
  (sortedTs.zip sortedTs.tail).filter fun w =>
    decide (gapFillMinMs < w.2 - w.1) && decide (w.2 - w.1 ≤ gapFillMaxMs)

/-- Whether a time lies strictly inside one of the holes (`ts_in_holes`). -/
def inHoles (holes : List (Int × Int)) (ts : Int) : Bool :=
  (lastWhile (fun h => decide (h.1 < ts)) holes).any fun h => decide (ts < h.2)

/-- Whether a time falls in the duplicate window after a recent clip. -/
def dupOfRecent (recents : List Int) (ts : Int) : Bool :=
  (lastWhile (fun r => decide (r ≤ ts)) recents).any fun r => decide (ts - r ≤ gapFillDupMs)

/-- The largest `i64`. -/
def i64Max : Int := 9223372036854775807

/-- Distance to the nearest recent clip, `i64::MAX` if there is none. -/
def nearestRecentMs (recents : List Int) (ts : Int) : Int :=
  min (((lastWhile (fun r => decide (r < ts)) recents).map (ts - ·)).getD i64Max)
    (((firstFrom (fun r => decide (r < ts)) recents).map (· - ts)).getD i64Max)

theorem mem_of_mem_fillableHoles {l : List Int} {h : Int × Int}
    (hh : h ∈ fillableHoles l) : h.1 ∈ l ∧ h.2 ∈ l ∧ h.2 - h.1 ≤ gapFillMaxMs := by
  simp only [fillableHoles, List.mem_filter, Bool.and_eq_true, decide_eq_true_eq] at hh
  have hz := List.of_mem_zip hh.1
  exact ⟨hz.1, List.mem_of_mem_tail hz.2, hh.2.2⟩

/-- Holes of a sorted timeline do not overlap. -/
theorem pairwise_fillableHoles {l : List Int} (hl : l.Pairwise (· ≤ ·)) :
    (fillableHoles l).Pairwise fun h h' => h.2 ≤ h'.1 := by
  refine List.Pairwise.filter _ ?_
  induction l with
  | nil => simp
  | cons a l ih =>
    cases l with
    | nil => simp
    | cons b l =>
      rw [List.pairwise_cons] at hl
      simp only [List.tail_cons, List.zip_cons_cons, List.pairwise_cons]
      refine ⟨fun h hh => ?_, ih hl.2⟩
      rcases List.mem_cons.mp (List.of_mem_zip hh).1 with hb | hb
      · exact le_of_eq hb.symm
      · exact (List.pairwise_cons.mp hl.2).1 _ hb

/-- A time is in a hole exactly when some hole contains it strictly. -/
theorem inHoles_fillableHoles_iff {l : List Int} (hl : l.Pairwise (· ≤ ·)) (ts : Int) :
    inHoles (fillableHoles l) ts = true ↔ ∃ h ∈ fillableHoles l, h.1 < ts ∧ ts < h.2 := by
  have hpair : (fillableHoles l).Pairwise fun h h' => h.1 < ts → h'.1 < ts → ts < h.2 → False :=
    (pairwise_fillableHoles hl).imp fun hle _ h2 h3 => by omega
  constructor
  · intro h
    obtain ⟨g, hg, hlt⟩ := Option.any_eq_true _ _ |>.mp h
    obtain ⟨hmem, hg1⟩ := mem_of_lastWhile_eq_some hg
    exact ⟨g, hmem, by simpa using hg1, by simpa using hlt⟩
  · rintro ⟨h, hmem, h1, h2⟩
    have hmono : ∀ a ∈ fillableHoles l, ∀ b ∈ fillableHoles l, a.2 ≤ b.1 →
        decide (b.1 < ts) = true → decide (a.1 < ts) = true := by
      intro a ha b _ hab hb
      have haw : gapFillMinMs < a.2 - a.1 := by
        simp only [fillableHoles, List.mem_filter, Bool.and_eq_true, decide_eq_true_eq] at ha
        exact ha.2.1
      have hw := window_values
      simp only [decide_eq_true_eq] at hb ⊢
      omega
    obtain ⟨g, hg, hrel⟩ :=
      exists_lastWhile (pairwise_fillableHoles hl) hmono hmem (by simpa using h1)
    have hg1 : g.1 < ts := by simpa using (mem_of_lastWhile_eq_some hg).2
    rcases hrel with rfl | hle
    · simpa [inHoles, hg] using h2
    · omega

/-- A time duplicates a recent clip exactly when one started at most the duplicate window before. -/
theorem dupOfRecent_iff {l : List Int} (hl : l.Pairwise (· ≤ ·)) (ts : Int) :
    dupOfRecent l ts = true ↔ ∃ r ∈ l, r ≤ ts ∧ ts - r ≤ gapFillDupMs := by
  constructor
  · intro h
    obtain ⟨g, hg, hlt⟩ := Option.any_eq_true _ _ |>.mp h
    obtain ⟨hmem, hg1⟩ := mem_of_lastWhile_eq_some hg
    exact ⟨g, hmem, by simpa using hg1, by simpa using hlt⟩
  · rintro ⟨r, hmem, h1, h2⟩
    have hmono : ∀ a ∈ l, ∀ b ∈ l, a ≤ b → decide (b ≤ ts) = true → decide (a ≤ ts) = true := by
      intro a _ b _ hab hb
      simp only [decide_eq_true_eq] at hb ⊢
      omega
    obtain ⟨g, hg, hrel⟩ := exists_lastWhile hl hmono hmem (by simpa using h1)
    have hdist : ts - g ≤ gapFillDupMs := by rcases hrel with rfl | hle <;> omega
    simpa [dupOfRecent, hg] using hdist

/-- Some recent clip is within the fill cap exactly when the nearest one is. -/
theorem nearestRecentMs_le_iff {l : List Int} (hl : l.Pairwise (· ≤ ·)) (ts : Int) :
    nearestRecentMs l ts ≤ gapFillMaxMs
      ↔ ∃ r ∈ l, ts - r ≤ gapFillMaxMs ∧ r - ts ≤ gapFillMaxMs := by
  have hw := window_values
  have hmono : ∀ a ∈ l, ∀ b ∈ l, a ≤ b → decide (b < ts) = true → decide (a < ts) = true := by
    intro a _ b _ hab hb
    simp only [decide_eq_true_eq] at hb ⊢
    omega
  rw [nearestRecentMs, min_le_iff]
  constructor
  · rintro (h | h)
    · cases hb : lastWhile (fun r => decide (r < ts)) l with
      | none => simp [hb, i64Max] at h; omega
      | some b =>
        have hmem := mem_of_lastWhile_eq_some hb
        simp only [hb, Option.map_some, Option.getD_some, decide_eq_true_eq] at h hmem
        exact ⟨b, hmem.1, h, by omega⟩
    · cases ha : firstFrom (fun r => decide (r < ts)) l with
      | none => simp [ha, i64Max] at h; omega
      | some a =>
        have hmem := mem_of_firstFrom_eq_some ha
        simp only [ha, Option.map_some, Option.getD_some, decide_eq_false_iff_not] at h hmem
        exact ⟨a, hmem.1, by omega, h⟩
  · rintro ⟨r, hmem, h1, h2⟩
    by_cases hr : r < ts
    · -- the clip before the boundary is at least as near as `r`
      obtain ⟨g, hg, hrel⟩ := exists_lastWhile hl hmono hmem (by simpa using hr)
      left
      rw [hg, Option.map_some, Option.getD_some]
      rcases hrel with rfl | hle <;> omega
    · obtain ⟨g, hg, hrel⟩ :=
        exists_firstFrom (p := fun r => decide (r < ts)) hl hmem (by simpa using hr)
      right
      rw [hg, Option.map_some, Option.getD_some]
      rcases hrel with rfl | hle <;> omega

/-! ## The admission pipeline -/

/-- Candidate order: by time, then by path. -/
def GapFillCandidate.le (a b : GapFillCandidate ρ) : Prop :=
  a.ts < b.ts ∨ (a.ts = b.ts ∧ ¬ b.file < a.file)

instance : DecidableRel (GapFillCandidate.le (ρ := ρ)) := fun a b =>
  inferInstanceAs (Decidable (a.ts < b.ts ∨ (a.ts = b.ts ∧ ¬ b.file < a.file)))

instance : Std.Total (GapFillCandidate.le (ρ := ρ)) where
  total a b := by
    rcases lt_trichotomy a.ts b.ts with h | h | h
    · exact Or.inl (Or.inl h)
    · by_cases hfile : b.file < a.file
      · exact Or.inr (Or.inr ⟨h.symm, lt_asymm hfile⟩)
      · exact Or.inl (Or.inr ⟨h, hfile⟩)
    · exact Or.inr (Or.inl h)

instance : IsTrans (GapFillCandidate ρ) GapFillCandidate.le where
  trans a b c hab hbc := by
    rcases hab with hab | ⟨hab, hfab⟩
    · rcases hbc with hbc | ⟨hbc, -⟩ <;> exact Or.inl (by omega)
    · rcases hbc with hbc | ⟨hbc, hfbc⟩
      · exact Or.inl (by omega)
      · exact Or.inr ⟨hab.trans hbc, not_lt.mpr (le_trans (not_lt.mp hfab) (not_lt.mp hfbc))⟩

/-- Greedy thinning of a candidate list: a candidate within the duplicate window of the last kept
one (`last`) is skipped. -/
def keepSpaced : Option Int → List (GapFillCandidate ρ) → List (GapFillCandidate ρ)
  | _, [] => []
  | last, c :: cs =>
    if last.any fun t => decide (c.ts - t ≤ gapFillDupMs) then keepSpaced last cs
    else c :: keepSpaced (some c.ts) cs

/-- Drop duplicates of recent clips, then thin what remains in candidate order
(`dedup_candidates`). -/
def dedupCandidates (recents : List Int) (cands : List (GapFillCandidate ρ)) :
    List (GapFillCandidate ρ) :=
  keepSpaced none
    ((cands.filter fun c => !dupOfRecent recents c.ts).insertionSort GapFillCandidate.le)

/-- One slot of the merged timeline: a recent clip (`none`) or a kept candidate. -/
abbrev Slot (ρ : Type*) := Int × Option (GapFillCandidate ρ)

/-- The recent clips and the kept candidates on one timeline; a recent clip comes before a candidate
of the same time. -/
def mergedTimeline (recents : List Int) (kept : List (GapFillCandidate ρ)) : List (Slot ρ) :=
  let slots : List (Slot ρ) :=
    recents.map (fun t => (t, none)) ++ kept.map fun c => (c.ts, some c)
  slots.insertionSort fun a b => a.1 ≤ b.1

/-- Maximal runs of the merged timeline with hops within the chain window. -/
def clusters (merged : List (Slot ρ)) : List (List (Slot ρ)) :=
  merged.splitBy fun a b => decide (b.1 - a.1 ≤ gapFillAdjMs)

/-- The candidates of one cluster, each with its `chained` flag: an anchored cluster chains the
candidates within the fill cap of a recent clip, an unanchored one all of them if each shows gear
evidence. -/
def chainedFlags (recents : List Int) (cluster : List (Slot ρ)) :
    List (GapFillCandidate ρ × Bool) :=
  let members := cluster.filterMap Prod.snd
  if cluster.any fun s => s.2.isNone then
    members.map fun c => (c, decide (nearestRecentMs recents c.ts ≤ gapFillMaxMs))
  else members.map fun c => (c, members.all fun c' => c'.gearDriving)

/-- Event clips that fill gaps of the sorted recent timeline, in candidate order
(`select_gap_fill`, which returns their indices). The merged timeline holds the kept candidates in
their own order, so the flags are read off it cluster by cluster. -/
def selectGapFill (recents : List Int) (cands : List (GapFillCandidate ρ)) :
    List (GapFillCandidate ρ) :=
  let holes := fillableHoles recents
  let kept := dedupCandidates recents (cands.filter fun c => c.driving != some false)
  let flagged := (clusters (mergedTimeline recents kept)).flatMap (chainedFlags recents)
  (flagged.filter fun cf => inHoles holes cf.1.ts || cf.2).map Prod.fst

/-! ## Membership -/

/-- Thinning keeps a sublist. -/
theorem keepSpaced_sublist (last : Option Int) (cs : List (GapFillCandidate ρ)) :
    (keepSpaced last cs).Sublist cs := by
  induction cs generalizing last with
  | nil => exact List.Sublist.refl _
  | cons c cs ih =>
    unfold keepSpaced
    split
    · exact (ih last).cons c
    · exact (ih _).cons_cons c

theorem mem_of_mem_dedupCandidates {recents : List Int} {cands : List (GapFillCandidate ρ)}
    {c : GapFillCandidate ρ} (h : c ∈ dedupCandidates recents cands) : c ∈ cands := by
  have hsort := (keepSpaced_sublist _ _).subset h
  rw [List.mem_insertionSort] at hsort
  exact List.mem_of_mem_filter hsort

/-- A slot of the merged timeline is a recent clip or a kept candidate at its own time. -/
theorem mem_mergedTimeline {recents : List Int} {kept : List (GapFillCandidate ρ)} {s : Slot ρ} :
    s ∈ mergedTimeline recents kept
      ↔ (∃ t ∈ recents, s = (t, none)) ∨ ∃ c ∈ kept, s = (c.ts, some c) := by
  simp only [mergedTimeline, List.mem_insertionSort, List.mem_append, List.mem_map]
  constructor
  · rintro (⟨t, ht, rfl⟩ | ⟨c, hc, rfl⟩)
    · exact Or.inl ⟨t, ht, rfl⟩
    · exact Or.inr ⟨c, hc, rfl⟩
  · rintro (⟨t, ht, rfl⟩ | ⟨c, hc, rfl⟩)
    · exact Or.inl ⟨t, ht, rfl⟩
    · exact Or.inr ⟨c, hc, rfl⟩

theorem mem_of_mem_clusters {merged cluster : List (Slot ρ)} {s : Slot ρ}
    (hc : cluster ∈ clusters merged) (hs : s ∈ cluster) : s ∈ merged := by
  rw [← List.flatten_splitBy (fun a b : Slot ρ => decide (b.1 - a.1 ≤ gapFillAdjMs)) merged]
  exact List.mem_flatten.mpr ⟨cluster, hc, hs⟩

/-- A flagged candidate is a member of its cluster. -/
theorem mem_of_mem_chainedFlags {recents : List Int} {cluster : List (Slot ρ)}
    {cf : GapFillCandidate ρ × Bool} (h : cf ∈ chainedFlags recents cluster) :
    ∃ t, (t, some cf.1) ∈ cluster := by
  have hmem : cf.1 ∈ cluster.filterMap Prod.snd := by
    simp only [chainedFlags] at h
    split at h
    · obtain ⟨c, hc, rfl⟩ := List.mem_map.mp h; exact hc
    · obtain ⟨c, hc, rfl⟩ := List.mem_map.mp h; exact hc
  obtain ⟨s, hs, hsc⟩ := List.mem_filterMap.mp hmem
  exact ⟨s.1, by rw [← hsc]; exact hs⟩

/-- Only candidates are selected. -/
theorem mem_of_mem_selectGapFill {recents : List Int} {cands : List (GapFillCandidate ρ)}
    {c : GapFillCandidate ρ} (h : c ∈ selectGapFill recents cands) : c ∈ cands := by
  simp only [selectGapFill, List.mem_map, List.mem_filter, List.mem_flatMap] at h
  obtain ⟨cf, ⟨⟨cluster, hcl, hcf⟩, -⟩, rfl⟩ := h
  obtain ⟨t, ht⟩ := mem_of_mem_chainedFlags hcf
  rcases mem_mergedTimeline.mp (mem_of_mem_clusters hcl ht) with ⟨_, -, h⟩ | ⟨d, hd, h⟩
  · simp at h
  · obtain rfl : cf.1 = d := by simpa using (Prod.ext_iff.mp h).2
    exact List.mem_of_mem_filter (mem_of_mem_dedupCandidates hd)

theorem map_fst_chainedFlags (recents : List Int) (cluster : List (Slot ρ)) :
    (chainedFlags recents cluster).map Prod.fst = cluster.filterMap Prod.snd := by
  simp only [chainedFlags]
  split <;> simp [Function.comp_def]

/-- The candidates on the merged timeline are the kept ones. -/
theorem perm_filterMap_mergedTimeline (recents : List Int) (kept : List (GapFillCandidate ρ)) :
    ((mergedTimeline recents kept).filterMap Prod.snd).Perm kept := by
  have hperm := (List.perm_insertionSort (fun a b : Slot ρ => a.1 ≤ b.1)
    (recents.map (fun t => (t, none)) ++ kept.map fun c => (c.ts, some c))).filterMap Prod.snd
  have hval : (recents.map (fun t => ((t, none) : Slot ρ))
      ++ kept.map fun c => (c.ts, some c)).filterMap Prod.snd = kept := by
    simp [List.filterMap_append, List.filterMap_map]
  rw [hval] at hperm
  exact hperm

/-- The selection leaves the candidates in the order of the merged timeline. -/
theorem selectGapFill_sublist (recents : List Int) (cands : List (GapFillCandidate ρ)) :
    (selectGapFill recents cands).Sublist ((mergedTimeline recents
      (dedupCandidates recents (cands.filter fun c => c.driving != some false))).filterMap Prod.snd) := by
  set kept := dedupCandidates recents (cands.filter fun c => c.driving != some false) with hkept
  have hflags : ((clusters (mergedTimeline recents kept)).flatMap (chainedFlags recents)).map Prod.fst
      = (mergedTimeline recents kept).filterMap Prod.snd := by
    rw [List.map_flatMap]
    simp only [map_fst_chainedFlags]
    have hflat : mergedTimeline recents kept = (clusters (mergedTimeline recents kept)).flatten :=
      (List.flatten_splitBy _ _).symm
    conv_rhs => rw [hflat]
    rw [List.filterMap_flatten, List.flatMap_def]
  rw [← hflags]
  exact List.filter_sublist.map Prod.fst

/-- No candidate is selected twice: keys that tell the candidates apart tell the selected ones
apart. -/
theorem nodup_selectGapFill {κ : Type*} (key : GapFillCandidate ρ → κ) (recents : List Int)
    {cands : List (GapFillCandidate ρ)} (h : (cands.map key).Nodup) :
    ((selectGapFill recents cands).map key).Nodup := by
  set kept := dedupCandidates recents (cands.filter fun c => c.driving != some false) with hkept
  have hkeptNodup : (kept.map key).Nodup := by
    have helig := h.sublist ((List.filter_sublist (p := fun c => c.driving != some false)).map key)
    have hsort := ((List.perm_insertionSort GapFillCandidate.le
      ((cands.filter fun c => c.driving != some false).filter fun c =>
        !dupOfRecent recents c.ts)).map key).nodup_iff.mpr (helig.sublist (List.filter_sublist.map key))
    exact hsort.sublist ((keepSpaced_sublist _ _).map key)
  have hslots := perm_filterMap_mergedTimeline recents kept
  exact ((hslots.map key).nodup_iff.mpr hkeptNodup).sublist ((selectGapFill_sublist recents cands).map key)

/-! ## Locality: a void cuts the pipeline in two -/

section Void

variable {lo hi : List Int} {B : Int}

/-- No window of the pipeline reaches from `B` back to a clip recorded before the void. -/
structure GapFillVoid (lo hi : List Int) (B : Int) : Prop where
  sorted : (lo ++ hi).Pairwise (· ≤ ·)
  before : ∀ t ∈ lo, t + gapFillMaxMs < B
  after : ∀ t ∈ hi, B ≤ t

/-- The candidates recorded before `B`. -/
def candsBefore (B : Int) (cands : List (GapFillCandidate ρ)) : List (GapFillCandidate ρ) :=
  cands.filter fun c => decide (c.ts < B)

/-- The candidates recorded from `B` on. -/
def candsFrom (B : Int) (cands : List (GapFillCandidate ρ)) : List (GapFillCandidate ρ) :=
  cands.filter fun c => !decide (c.ts < B)

theorem GapFillVoid.sorted_lo (h : GapFillVoid lo hi B) : lo.Pairwise (· ≤ ·) :=
  (List.pairwise_append.mp h.sorted).1

theorem GapFillVoid.sorted_hi (h : GapFillVoid lo hi B) : hi.Pairwise (· ≤ ·) :=
  (List.pairwise_append.mp h.sorted).2.1

/-- Holes never span the void. -/
theorem fillableHoles_append (h : GapFillVoid lo hi B) :
    fillableHoles (lo ++ hi) = fillableHoles lo ++ fillableHoles hi := by
  have hb := h.before
  have ha := h.after
  clear h
  induction lo with
  | nil => rfl
  | cons x lo ih =>
    have hx := hb x (by simp)
    have ih' := ih fun t ht => hb t (List.mem_cons_of_mem x ht)
    cases lo with
    | nil =>
      cases hi with
      | nil => rfl
      | cons y hi =>
        have hy := ha y (by simp)
        have hfar : ¬ y - x ≤ gapFillMaxMs := by omega
        simp only [fillableHoles, List.cons_append, List.nil_append, List.tail_cons,
          List.zip_cons_cons, List.zip_nil_right, List.filter_cons, List.filter_nil, hfar,
          decide_false, Bool.and_false, Bool.false_eq_true, if_false]
    | cons x' lo =>
      simp only [fillableHoles, List.cons_append, List.tail_cons, List.zip_cons_cons,
        List.filter_cons] at ih' ⊢
      rw [ih']
      split <;> rfl

/-- Hole membership before the void depends on the clips before it. -/
theorem inHoles_before (h : GapFillVoid lo hi B) {ts : Int} (hts : ts < B) :
    inHoles (fillableHoles (lo ++ hi)) ts = inHoles (fillableHoles lo) ts := by
  rw [Bool.eq_iff_iff, inHoles_fillableHoles_iff h.sorted, inHoles_fillableHoles_iff h.sorted_lo,
    fillableHoles_append h]
  refine exists_mem_append_iff_left fun w hw hin => ?_
  have := h.after _ (mem_of_mem_fillableHoles hw).1
  omega

/-- Hole membership after the void depends on the clips after it. -/
theorem inHoles_from (h : GapFillVoid lo hi B) {ts : Int} (hts : B ≤ ts) :
    inHoles (fillableHoles (lo ++ hi)) ts = inHoles (fillableHoles hi) ts := by
  rw [Bool.eq_iff_iff, inHoles_fillableHoles_iff h.sorted, inHoles_fillableHoles_iff h.sorted_hi,
    fillableHoles_append h]
  refine exists_mem_append_iff_right fun w hw hin => ?_
  have hv := window_values
  have := h.before _ (mem_of_mem_fillableHoles hw).2.1
  omega

/-- Duplicates before the void duplicate clips before it. -/
theorem dupOfRecent_before (h : GapFillVoid lo hi B) {ts : Int} (hts : ts < B) :
    dupOfRecent (lo ++ hi) ts = dupOfRecent lo ts := by
  rw [Bool.eq_iff_iff, dupOfRecent_iff h.sorted, dupOfRecent_iff h.sorted_lo]
  refine exists_mem_append_iff_left fun r hr hin => ?_
  have := h.after r hr
  omega

/-- Duplicates after the void duplicate clips after it. -/
theorem dupOfRecent_from (h : GapFillVoid lo hi B) {ts : Int} (hts : B ≤ ts) :
    dupOfRecent (lo ++ hi) ts = dupOfRecent hi ts := by
  rw [Bool.eq_iff_iff, dupOfRecent_iff h.sorted, dupOfRecent_iff h.sorted_hi]
  refine exists_mem_append_iff_right fun r hr hin => ?_
  have hv := window_values
  have := h.before r hr
  omega

/-- The nearest recent clip of a candidate before the void lies before it. -/
theorem nearestRecentMs_before (h : GapFillVoid lo hi B) {ts : Int} (hts : ts + gapFillMaxMs < B) :
    nearestRecentMs (lo ++ hi) ts ≤ gapFillMaxMs ↔ nearestRecentMs lo ts ≤ gapFillMaxMs := by
  rw [nearestRecentMs_le_iff h.sorted, nearestRecentMs_le_iff h.sorted_lo]
  refine exists_mem_append_iff_left fun r hr hin => ?_
  have := h.after r hr
  omega

/-- The nearest recent clip of a candidate after the void lies after it. -/
theorem nearestRecentMs_from (h : GapFillVoid lo hi B) {ts : Int} (hts : B ≤ ts) :
    nearestRecentMs (lo ++ hi) ts ≤ gapFillMaxMs ↔ nearestRecentMs hi ts ≤ gapFillMaxMs := by
  rw [nearestRecentMs_le_iff h.sorted, nearestRecentMs_le_iff h.sorted_hi]
  refine exists_mem_append_iff_right fun r hr hin => ?_
  have := h.before r hr
  omega

/-- Thinning restarts after the void. -/
theorem keepSpaced_append (last : Option Int) (xs ys : List (GapFillCandidate ρ))
    (hlast : ∀ t ∈ last, ∀ y ∈ ys, gapFillDupMs < y.ts - t)
    (hxy : ∀ x ∈ xs, ∀ y ∈ ys, gapFillDupMs < y.ts - x.ts) :
    keepSpaced last (xs ++ ys) = keepSpaced last xs ++ keepSpaced none ys := by
  induction xs generalizing last with
  | nil =>
    cases ys with
    | nil => rfl
    | cons y ys =>
      have hnone : (last.any fun t => decide (y.ts - t ≤ gapFillDupMs)) = false := by
        cases last with
        | none => rfl
        | some t =>
          have := hlast t rfl y (by simp)
          simp only [Option.any_some, decide_eq_false_iff_not]
          omega
      simp only [List.nil_append, keepSpaced, hnone, Option.any_none, Bool.false_eq_true, if_false]
  | cons x xs ih =>
    have hxy' : ∀ x ∈ xs, ∀ y ∈ ys, gapFillDupMs < y.ts - x.ts := fun a ha =>
      hxy a (List.mem_cons_of_mem x ha)
    simp only [List.cons_append, keepSpaced]
    split
    · exact ih last hlast hxy'
    · rw [ih (some x.ts) (fun t ht y hy => ?_) hxy', List.cons_append]
      obtain rfl : x.ts = t := by simpa using ht
      exact hxy x (by simp) y hy

variable {cands : List (GapFillCandidate ρ)}

/-- The candidates kept before and after the void are kept independently. -/
theorem dedupCandidates_void (h : GapFillVoid lo hi B)
    (hc : ∀ c ∈ cands, c.ts < B → c.ts + gapFillMaxMs < B) :
    dedupCandidates (lo ++ hi) cands
      = dedupCandidates lo (candsBefore B cands) ++ dedupCandidates hi (candsFrom B cands) := by
  have hv := window_values
  unfold dedupCandidates candsBefore candsFrom
  rw [insertionSort_eq_append_filter GapFillCandidate.le fun c => decide (c.ts < B)]
  · rw [keepSpaced_append none _ _ (by simp)]
    · congr 3
      · rw [List.filter_filter, List.filter_filter]
        refine List.filter_congr fun c _ => ?_
        by_cases hlt : c.ts < B
        · simp [hlt, dupOfRecent_before h hlt]
        · simp [hlt]
      · rw [List.filter_filter, List.filter_filter]
        refine List.filter_congr fun c _ => ?_
        by_cases hlt : c.ts < B
        · simp [hlt]
        · simp [hlt, dupOfRecent_from h (not_lt.mp hlt)]
    · intro x hx y hy
      simp only [List.mem_insertionSort, List.mem_filter, decide_eq_true_eq, Bool.not_eq_true',
        decide_eq_false_iff_not] at hx hy
      have := hc x hx.1.1 hx.2
      omega
  · intro a _ b _ ha hb
    simp only [decide_eq_true_eq, decide_eq_false_iff_not] at ha hb
    exact ⟨Or.inl (by omega), fun hle => by rcases hle with hle | ⟨hle, -⟩ <;> omega⟩

/-- The merged timeline of two halves. -/
theorem mergedTimeline_append (h : GapFillVoid lo hi B) {kl kh : List (GapFillCandidate ρ)}
    (hkl : ∀ c ∈ kl, c.ts < B) (hkh : ∀ c ∈ kh, B ≤ c.ts) :
    mergedTimeline (lo ++ hi) (kl ++ kh) = mergedTimeline lo kl ++ mergedTimeline hi kh := by
  have hv := window_values
  have hlo : ∀ t ∈ lo, t < B := fun t ht => by have := h.before t ht; omega
  have h1 := filter_halves_of_forall_true (p := fun s : Slot ρ => decide (s.1 < B))
    (l := lo.map fun t => (t, none)) (by simpa using hlo)
  have h2 := filter_halves_of_forall_false (p := fun s : Slot ρ => decide (s.1 < B))
    (l := hi.map fun t => (t, none)) (by simpa using h.after)
  have h3 := filter_halves_of_forall_true (p := fun s : Slot ρ => decide (s.1 < B))
    (l := kl.map fun c => (c.ts, some c)) (by simpa using hkl)
  have h4 := filter_halves_of_forall_false (p := fun s : Slot ρ => decide (s.1 < B))
    (l := kh.map fun c => (c.ts, some c)) (by simpa using hkh)
  unfold mergedTimeline
  rw [insertionSort_eq_append_filter _ fun s => decide (s.1 < B)]
  · simp only [List.map_append, List.filter_append, h1, h2, h3, h4, List.append_nil,
      List.nil_append]
  · intro a _ b _ ha hb
    simp only [decide_eq_true_eq, decide_eq_false_iff_not] at ha hb
    omega

/-- Clusters never span the void. -/
theorem clusters_append {m n : List (Slot ρ)} (hm : ∀ s ∈ m, s.1 + gapFillMaxMs < B)
    (hn : ∀ s ∈ n, B ≤ s.1) : clusters (m ++ n) = clusters m ++ clusters n := by
  have hv := window_values
  refine List.splitBy_append fun x hx y hy => ?_
  have h1 := hm x (List.mem_of_getLast? hx)
  have h2 := hn y (List.mem_of_head? hy)
  simp only [decide_eq_false_iff_not]
  omega

/-- The flags of a cluster depend on the recent clips only through the fill cap. -/
theorem chainedFlags_congr {l m : List Int} {cluster : List (Slot ρ)}
    (h : ∀ t c, (t, some c) ∈ cluster →
      (nearestRecentMs l c.ts ≤ gapFillMaxMs ↔ nearestRecentMs m c.ts ≤ gapFillMaxMs)) :
    chainedFlags l cluster = chainedFlags m cluster := by
  unfold chainedFlags
  split
  · refine List.map_congr_left fun c hc => ?_
    obtain ⟨s, hs, hsc⟩ := List.mem_filterMap.mp hc
    simp only [h s.1 c (by rw [← hsc]; exact hs)]
  · rfl

/-- Selecting within one half: the flags and the holes may be read off the whole recent timeline. -/
theorem selectGapFill_congr {l m : List Int} {kept : List (GapFillCandidate ρ)}
    (hkept : ∀ c ∈ kept, inHoles (fillableHoles l) c.ts = inHoles (fillableHoles m) c.ts
      ∧ (nearestRecentMs l c.ts ≤ gapFillMaxMs ↔ nearestRecentMs m c.ts ≤ gapFillMaxMs)) :
    ((clusters (mergedTimeline m kept)).flatMap (chainedFlags l)).filter
        (fun cf => inHoles (fillableHoles l) cf.1.ts || cf.2)
      = ((clusters (mergedTimeline m kept)).flatMap (chainedFlags m)).filter
        (fun cf => inHoles (fillableHoles m) cf.1.ts || cf.2) := by
  have hslot : ∀ cluster ∈ clusters (mergedTimeline m kept), ∀ t c, (t, some c) ∈ cluster →
      c ∈ kept := by
    intro cluster hcl t c hc
    rcases mem_mergedTimeline.mp (mem_of_mem_clusters hcl hc) with ⟨_, -, h⟩ | ⟨d, hd, h⟩
    · simp at h
    · obtain rfl : c = d := by simpa using (Prod.ext_iff.mp h).2
      exact hd
  rw [List.flatMap_congr fun cluster hcl =>
    chainedFlags_congr fun t c hc => (hkept c (hslot cluster hcl t c hc)).2]
  refine List.filter_congr fun cf hcf => ?_
  obtain ⟨cluster, hcl, hin⟩ := List.mem_flatMap.mp hcf
  obtain ⟨t, ht⟩ := mem_of_mem_chainedFlags hin
  rw [(hkept cf.1 (hslot cluster hcl t cf.1 ht)).1]

/-- **A void cuts the pipeline in two**: the event clips selected before and after it are those each
side selects on its own. -/
theorem selectGapFill_void (h : GapFillVoid lo hi B)
    (hc : ∀ c ∈ cands, c.ts < B → c.ts + gapFillMaxMs < B) :
    selectGapFill (lo ++ hi) cands
      = selectGapFill lo (candsBefore B cands) ++ selectGapFill hi (candsFrom B cands) := by
  have hv := window_values
  set elig := cands.filter fun c => c.driving != some false with helig
  have hbefore : (candsBefore B cands).filter (fun c => c.driving != some false)
      = candsBefore B elig := by
    simp only [candsBefore, helig, List.filter_filter, Bool.and_comm]
  have hfrom : (candsFrom B cands).filter (fun c => c.driving != some false)
      = candsFrom B elig := by
    simp only [candsFrom, helig, List.filter_filter, Bool.and_comm]
  have hkl : ∀ c ∈ dedupCandidates lo (candsBefore B elig), c.ts + gapFillMaxMs < B := by
    intro c hcl
    obtain ⟨hmem, hlt⟩ := List.mem_filter.mp (mem_of_mem_dedupCandidates hcl)
    exact hc c (List.mem_of_mem_filter hmem) (by simpa using hlt)
  have hkh : ∀ c ∈ dedupCandidates hi (candsFrom B elig), B ≤ c.ts := by
    intro c hch
    obtain ⟨-, hge⟩ := List.mem_filter.mp (mem_of_mem_dedupCandidates hch)
    simpa using hge
  have hsplit : clusters (mergedTimeline (lo ++ hi) (dedupCandidates (lo ++ hi) elig))
      = clusters (mergedTimeline lo (dedupCandidates lo (candsBefore B elig)))
        ++ clusters (mergedTimeline hi (dedupCandidates hi (candsFrom B elig))) := by
    rw [dedupCandidates_void h fun c hm => hc c (List.mem_of_mem_filter hm),
      mergedTimeline_append h (fun c hcl => by have := hkl c hcl; omega) hkh]
    refine clusters_append (B := B) (fun s hs => ?_) (fun s hs => ?_)
    · rcases mem_mergedTimeline.mp hs with ⟨t, ht, rfl⟩ | ⟨c, hcl, rfl⟩
      · exact h.before t ht
      · exact hkl c hcl
    · rcases mem_mergedTimeline.mp hs with ⟨t, ht, rfl⟩ | ⟨c, hch, rfl⟩
      · exact h.after t ht
      · exact hkh c hch
  simp only [selectGapFill, ← helig, hbefore, hfrom, hsplit, List.flatMap_append,
    List.filter_append, List.map_append]
  congr 2
  · refine selectGapFill_congr fun c hcl => ?_
    have hlt := hkl c hcl
    exact ⟨inHoles_before h (by omega), nearestRecentMs_before h hlt⟩
  · refine selectGapFill_congr fun c hch => ?_
    exact ⟨inHoles_from h (hkh c hch), nearestRecentMs_from h (hkh c hch)⟩

end Void

/-! ## Naturality: the row behind a candidate is never read -/

section Map

variable (f : ρ → σ)

/-- Replace the row behind a candidate. -/
def GapFillCandidate.map (c : GapFillCandidate ρ) : GapFillCandidate σ :=
  { row := f c.row, ts := c.ts, file := c.file, driving := c.driving, gearDriving := c.gearDriving }

@[simp] theorem GapFillCandidate.map_ts (c : GapFillCandidate ρ) : (c.map f).ts = c.ts := rfl

@[simp] theorem GapFillCandidate.map_driving (c : GapFillCandidate ρ) :
    (c.map f).driving = c.driving := rfl

@[simp] theorem GapFillCandidate.map_gearDriving (c : GapFillCandidate ρ) :
    (c.map f).gearDriving = c.gearDriving := rfl

theorem keepSpaced_map (last : Option Int) (cs : List (GapFillCandidate ρ)) :
    keepSpaced last (cs.map (GapFillCandidate.map f))
      = (keepSpaced last cs).map (GapFillCandidate.map f) := by
  induction cs generalizing last with
  | nil => rfl
  | cons c cs ih =>
    rw [List.map_cons, keepSpaced, keepSpaced]
    change (if last.any fun t => decide (c.ts - t ≤ gapFillDupMs) then _ else _) = _
    split
    · exact ih last
    · rw [GapFillCandidate.map_ts, ih, List.map_cons]

theorem dedupCandidates_map (recents : List Int) (cands : List (GapFillCandidate ρ)) :
    dedupCandidates recents (cands.map (GapFillCandidate.map f))
      = (dedupCandidates recents cands).map (GapFillCandidate.map f) := by
  have hsort := List.map_insertionSort (r := GapFillCandidate.le) (s := GapFillCandidate.le)
    (GapFillCandidate.map f) (cands.filter fun c => !dupOfRecent recents c.ts)
    fun a _ b _ => Iff.rfl
  rw [dedupCandidates, dedupCandidates, List.filter_map, ← keepSpaced_map, hsort]
  rfl

/-- Replace the row behind a slot. -/
def Slot.map (s : Slot ρ) : Slot σ := (s.1, s.2.map (GapFillCandidate.map f))

theorem mergedTimeline_map (recents : List Int) (kept : List (GapFillCandidate ρ)) :
    mergedTimeline recents (kept.map (GapFillCandidate.map f))
      = (mergedTimeline recents kept).map (Slot.map f) := by
  have hsort := List.map_insertionSort (r := fun a b : Slot ρ => a.1 ≤ b.1)
    (s := fun a b : Slot σ => a.1 ≤ b.1) (Slot.map f)
    (recents.map (fun t => (t, none)) ++ kept.map fun c => (c.ts, some c)) fun a _ b _ => Iff.rfl
  simp only [mergedTimeline, hsort]
  simp [Slot.map, Function.comp_def]

theorem clusters_map (merged : List (Slot ρ)) :
    clusters (merged.map (Slot.map f)) = (clusters merged).map (List.map (Slot.map f)) :=
  splitBy_map _ _ _

theorem chainedFlags_map (recents : List Int) (cluster : List (Slot ρ)) :
    chainedFlags recents (cluster.map (Slot.map f))
      = (chainedFlags recents cluster).map (Prod.map (GapFillCandidate.map f) id) := by
  have hmembers : (cluster.map (Slot.map f)).filterMap Prod.snd
      = (cluster.filterMap Prod.snd).map (GapFillCandidate.map f) := by
    rw [List.filterMap_map, List.map_filterMap]
    rfl
  have hany : (cluster.map (Slot.map f)).any (fun s => s.2.isNone)
      = cluster.any fun s => s.2.isNone := by
    rw [List.any_map]
    congr 1
    funext s
    simp [Slot.map]
  simp only [chainedFlags, hmembers, hany]
  split
  · rw [List.map_map, List.map_map]
    rfl
  · rw [List.map_map, List.map_map, List.all_map]
    rfl

/-- **Selection is natural in the rows**: the candidates picked do not depend on what they stand
for. -/
theorem selectGapFill_map (recents : List Int) (cands : List (GapFillCandidate ρ)) :
    selectGapFill recents (cands.map (GapFillCandidate.map f))
      = (selectGapFill recents cands).map (GapFillCandidate.map f) := by
  have helig : (cands.map (GapFillCandidate.map f)).filter (fun c => c.driving != some false)
      = (cands.filter fun c => c.driving != some false).map (GapFillCandidate.map f) :=
    List.filter_map
  simp only [selectGapFill, helig, dedupCandidates_map, mergedTimeline_map, clusters_map,
    List.flatMap_map, chainedFlags_map, ← List.map_flatMap, List.filter_map, List.map_map]
  rfl

end Map

end SentryUsb
