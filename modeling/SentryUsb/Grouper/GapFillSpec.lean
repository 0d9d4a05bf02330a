import SentryUsb.Grouper.GapFillSweep

/-! # What gap-fill selects

* **`InHole`**, **`Anchored`**, **`DrivenAlone`** — the three ways in: a time strictly inside a fillable hole, a chain
  that holds a recent clip, a chain of clips that all show gear evidence;
* **`mem_sweptGapFill_iff`** — the sweep selects the survivors that take one of them;
* **`sweptGapFill_eq_selectGapFill`** — and so does the pipeline that is cut into clusters first;
* **`gapFill_meets_specification`** — with the independence of the order of the candidates. -/

namespace SentryUsb

open Library

variable {ρ : Type*}

/-! ## The specification -/

/-- A time strictly inside a fillable hole between two recent clips. -/
def InHole (recents : List Int) (ts : Int) : Prop :=
  ∃ h ∈ recents.zip recents.tail, gapFillMinMs < h.2 - h.1 ∧ h.2 - h.1 ≤ gapFillMaxMs ∧ h.1 < ts ∧ ts < h.2

/-- The times chains hop over: recent clips and survivors. -/
def chainTimes (recents : List Int) (cands : List (GapFillCandidate ρ)) : List Int :=
  recents ++ (survivors recents cands).map GapFillCandidate.ts

/-- On a chain with a recent clip, and within the fill cap of one. -/
def Anchored (recents : List Int) (cands : List (GapFillCandidate ρ)) (ts : Int) : Prop :=
  (∃ r ∈ recents, Joined gapFillAdjMs (chainTimes recents cands) ts r)
    ∧ ∃ r ∈ recents, ts - r ≤ gapFillMaxMs ∧ r - ts ≤ gapFillMaxMs

/-- On a chain without recent clips whose survivors all show gear evidence. -/
def DrivenAlone (recents : List Int) (cands : List (GapFillCandidate ρ)) (ts : Int) : Prop :=
  (∀ r ∈ recents, ¬ Joined gapFillAdjMs (chainTimes recents cands) ts r)
    ∧ ∀ d ∈ survivors recents cands, Joined gapFillAdjMs (chainTimes recents cands) ts d.ts → d.gearDriving = true

variable {recents : List Int} {kept cands : List (GapFillCandidate ρ)} {c : GapFillCandidate ρ}

theorem inHoles_iff (hrecents : recents.Pairwise (· ≤ ·)) {ts : Int} :
    inHoles (fillableHoles recents) ts = true ↔ InHole recents ts := by
  rw [inHoles_fillableHoles_iff hrecents]
  simp only [InHole, fillableHoles, List.mem_filter, Bool.and_eq_true, decide_eq_true_eq, and_assoc]

/-! ## Survivors -/

/-- **The two boundary searches and the comparison with the last kept one** leave the survivors. -/
theorem dedupCandidates_eq_survivors (hrecents : recents.Pairwise (· ≤ ·)) (cands : List (GapFillCandidate ρ)) :
    dedupCandidates recents (cands.filter fun c => c.driving != some false) = survivors recents cands := by
  have hfilter : ((cands.filter fun c => c.driving != some false).filter fun c => !dupOfRecent recents c.ts)
      = (cands.filter fun c => c.driving != some false).filter fun c => decide ¬ Occupied recents c.ts := by
    refine List.filter_congr fun c _ => ?_
    have hiff : dupOfRecent recents c.ts = true ↔ Occupied recents c.ts := dupOfRecent_iff hrecents c.ts
    by_cases hoccupied : Occupied recents c.ts
    · rw [hiff.mpr hoccupied]
      simp [hoccupied]
    · rw [Bool.eq_false_of_not_eq_true fun h => hoccupied (hiff.mp h)]
      simp [hoccupied]
  have hthin := foldl_thinned (List.Pairwise.nil (R := fun a b : GapFillCandidate ρ => a.ts ≤ b.ts))
    (pairwise_ts_insertionSort ((cands.filter fun c => c.driving != some false).filter fun c =>
      decide ¬ Occupied recents c.ts))
  rw [dedupCandidates, hfilter]
  exact hthin.symm

/-- What is taken is more than the duplicate window apart. -/
theorem spaced_thinned (l : List (GapFillCandidate ρ)) :
    (thinned l).Pairwise fun a b => gapFillDupMs < b.ts - a.ts := by
  have hfold : ∀ (l taken : List (GapFillCandidate ρ)), taken.Pairwise (fun a b => gapFillDupMs < b.ts - a.ts) →
      (l.foldl (fun taken c => if ∀ d ∈ taken, gapFillDupMs < c.ts - d.ts then taken ++ [c] else taken) taken).Pairwise
        fun a b => gapFillDupMs < b.ts - a.ts := by
    intro l
    induction l with
    | nil => exact fun taken htaken => htaken
    | cons c cs ih =>
      intro taken htaken
      rw [List.foldl_cons]
      apply ih
      split
      · rename_i hfar
        refine List.pairwise_append.mpr ⟨htaken, List.pairwise_singleton _ _, fun d hd b hb => ?_⟩
        rw [List.mem_singleton.mp hb]
        exact hfar d hd
      · exact htaken
  exact hfold l [] List.Pairwise.nil

theorem increasing_survivors (recents : List Int) (cands : List (GapFillCandidate ρ)) :
    Increasing GapFillCandidate.ts (survivors recents cands) := by
  have hv := window_values
  exact (spaced_thinned _).imp fun h => by omega

/-! ## Clusters and chains -/

/-- A timeline of recent clips and of candidates, which its elements stand for. -/
structure Timeline {β : Type*} (recents : List Int) (kept : List (GapFillCandidate ρ))
    (stands : β → GapFillCandidate ρ → Prop) (l : List (Int × Option β)) : Prop where
  sorted : Nondecreasing Prod.fst l
  mem_none : ∀ t, (t, none) ∈ l ↔ t ∈ recents
  mem_some : ∀ t b, (t, some b) ∈ l ↔ ∃ c ∈ kept, stands b c ∧ t = c.ts
  exists_stands : ∀ c ∈ kept, ∃ b, stands b c
  unique : ∀ b c d, stands b c → stands b d → c = d

variable {β : Type*} {stands : β → GapFillCandidate ρ → Prop} {l run : List (Int × Option β)}

/-- The chains of a timeline are those over its recent clips and candidates. -/
theorem Timeline.joined_iff (h : Timeline recents kept stands l) {a b : Int} :
    Joined gapFillAdjMs (l.map Prod.fst) a b ↔ Joined gapFillAdjMs (recents ++ kept.map GapFillCandidate.ts) a b := by
  constructor
  · refine Joined.mono fun t ht => ?_
    obtain ⟨⟨t, o⟩, he, rfl⟩ := List.mem_map.mp ht
    cases o with
    | none => exact List.mem_append_left _ ((h.mem_none t).mp he)
    | some b =>
      obtain ⟨c, hc, -, heq⟩ := (h.mem_some t b).mp he
      exact List.mem_append_right _ (List.mem_map.mpr ⟨c, hc, heq.symm⟩)
  · refine Joined.mono fun t ht => ?_
    rcases List.mem_append.mp ht with ht | ht
    · exact List.mem_map.mpr ⟨_, (h.mem_none t).mpr ht, rfl⟩
    · obtain ⟨c, hc, rfl⟩ := List.mem_map.mp ht
      obtain ⟨b, hb⟩ := h.exists_stands c hc
      exact List.mem_map.mpr ⟨_, (h.mem_some c.ts b).mpr ⟨c, hc, hb, rfl⟩, rfl⟩

/-- **The recent clips of a cluster** are those its candidates are joined to. -/
theorem Timeline.exists_none_iff (h : Timeline recents kept stands l) (hrun : run ∈ gapRuns Prod.fst gapFillAdjMs l)
    {e : Int × Option β} (he : e ∈ run) :
    (∃ r, (r, none) ∈ run) ↔
      ∃ r ∈ recents, Joined gapFillAdjMs (recents ++ kept.map GapFillCandidate.ts) e.1 r := by
  have hgap : 0 ≤ gapFillAdjMs := by decide
  constructor
  · rintro ⟨r, hr⟩
    have hmem := mem_of_mem_run hrun hr
    exact ⟨r, (h.mem_none r).mp hmem, h.joined_iff.mp ((joined_iff_mem_run hgap h.sorted hrun he hmem).mpr hr)⟩
  · rintro ⟨r, hr, hjoined⟩
    have hmem : (r, none) ∈ l := (h.mem_none r).mpr hr
    exact ⟨r, (joined_iff_mem_run hgap h.sorted hrun he hmem).mp (h.joined_iff.mpr hjoined)⟩

/-- **The candidates of a cluster** are those that are joined. -/
theorem Timeline.mem_some_iff (h : Timeline recents kept stands l) (hrun : run ∈ gapRuns Prod.fst gapFillAdjMs l)
    {e : Int × Option β} (he : e ∈ run) {d : GapFillCandidate ρ} {b : β} (hd : d ∈ kept) (hb : stands b d) :
    (d.ts, some b) ∈ run ↔ Joined gapFillAdjMs (recents ++ kept.map GapFillCandidate.ts) e.1 d.ts := by
  have hgap : 0 ≤ gapFillAdjMs := by decide
  have hmem : (d.ts, some b) ∈ l := (h.mem_some d.ts b).mpr ⟨d, hd, hb, rfl⟩
  exact (joined_iff_mem_run hgap h.sorted hrun he hmem).symm.trans h.joined_iff

/-- A cluster shows gear evidence throughout if there is no recent clip in it and the joined candidates show it. -/
theorem Timeline.all_gear_iff (h : Timeline recents kept stands l) (hrun : run ∈ gapRuns Prod.fst gapFillAdjMs l)
    {e : Int × Option β} (he : e ∈ run) :
    (∀ e' ∈ run, ∃ b d, e'.2 = some b ∧ stands b d ∧ d.gearDriving = true) ↔
      (∀ r ∈ recents, ¬ Joined gapFillAdjMs (recents ++ kept.map GapFillCandidate.ts) e.1 r)
        ∧ ∀ d ∈ kept, Joined gapFillAdjMs (recents ++ kept.map GapFillCandidate.ts) e.1 d.ts → d.gearDriving = true := by
  constructor
  · intro hall
    refine ⟨fun r hr hjoined => ?_, fun d hd hjoined => ?_⟩
    · obtain ⟨r', hr'⟩ := (h.exists_none_iff hrun he).mpr ⟨r, hr, hjoined⟩
      obtain ⟨b, d, hb, -⟩ := hall _ hr'
      exact absurd hb (by simp)
    · obtain ⟨b, hb⟩ := h.exists_stands d hd
      obtain ⟨b', d', hb', hd', hgear⟩ := hall _ ((h.mem_some_iff hrun he hd hb).mpr hjoined)
      obtain rfl : b = b' := Option.some.inj hb'
      rw [h.unique b d d' hb hd']
      exact hgear
  · rintro ⟨halone, hgear⟩ ⟨t, o⟩ he'
    cases o with
    | none =>
      obtain ⟨r, hr, hjoined⟩ := (h.exists_none_iff hrun he).mp ⟨t, he'⟩
      exact absurd hjoined (halone r hr)
    | some b =>
      obtain ⟨d, hd, hb, rfl⟩ := (h.mem_some t b).mp (mem_of_mem_run hrun he')
      exact ⟨b, d, rfl, hb, hgear d hd ((h.mem_some_iff hrun he hd hb).mp he')⟩

/-- The timeline of the sweep. -/
theorem timeline_indexedTimeline (recents : List Int) (kept : List (GapFillCandidate ρ)) :
    Timeline recents kept (fun k c => kept[k]? = some c) (indexedTimeline recents kept) where
  sorted := nondecreasing_indexedTimeline recents kept
  mem_none := by
    intro t
    rw [mem_indexedTimeline]
    constructor
    · rintro (⟨r, hr, heq⟩ | ⟨k, c, -, heq⟩)
      · obtain rfl := (Prod.mk.inj heq).1
        exact hr
      · exact absurd (Prod.mk.inj heq).2 (by simp)
    · exact fun ht => .inl ⟨t, ht, rfl⟩
  mem_some := by
    intro t k
    rw [mem_indexedTimeline]
    constructor
    · rintro (⟨r, -, heq⟩ | ⟨j, c, hc, heq⟩)
      · exact absurd (Prod.mk.inj heq).2 (by simp)
      · obtain ⟨rfl, hk⟩ := Prod.mk.inj heq
        obtain rfl := Option.some.inj hk
        exact ⟨c, List.mem_of_getElem? hc, hc, rfl⟩
    · rintro ⟨c, -, hc, rfl⟩
      exact .inr ⟨k, c, hc, rfl⟩
  exists_stands := fun c hc => List.getElem?_of_mem hc
  unique := fun _ _ _ hc hd => Option.some.inj (hc.symm.trans hd)

/-- The timeline that is cut into clusters. -/
theorem timeline_mergedTimeline (recents : List Int) (kept : List (GapFillCandidate ρ)) :
    Timeline recents kept (fun b c => b = c) (mergedTimeline recents kept) where
  sorted := List.pairwise_insertionSort (fun a b : Slot ρ => a.1 ≤ b.1) _
  mem_none := by
    intro t
    rw [mem_mergedTimeline]
    constructor
    · rintro (⟨r, hr, heq⟩ | ⟨c, -, heq⟩)
      · obtain rfl := (Prod.mk.inj heq).1
        exact hr
      · exact absurd (Prod.mk.inj heq).2 (by simp)
    · exact fun ht => .inl ⟨t, ht, rfl⟩
  mem_some := by
    intro t b
    rw [mem_mergedTimeline]
    constructor
    · rintro (⟨r, -, heq⟩ | ⟨c, hc, heq⟩)
      · exact absurd (Prod.mk.inj heq).2 (by simp)
      · obtain ⟨rfl, hb⟩ := Prod.mk.inj heq
        obtain rfl := Option.some.inj hb
        exact ⟨b, hc, rfl, rfl⟩
    · rintro ⟨c, hc, rfl, rfl⟩
      exact .inr ⟨b, hc, rfl⟩
  exists_stands := fun c _ => ⟨c, rfl⟩
  unique := fun _ _ _ hc hd => hc.symm.trans hd

/-! ## The selections meet the specification -/

/-- **The sweep selects the survivors that take one of the three ways in.** -/
theorem mem_sweptGapFill_iff (hrecents : recents.Pairwise (· ≤ ·)) (cands : List (GapFillCandidate ρ))
    (c : GapFillCandidate ρ) :
    c ∈ sweptGapFill recents cands ↔ c ∈ survivors recents cands
      ∧ (InHole recents c.ts ∨ Anchored recents cands c.ts ∨ DrivenAlone recents cands c.ts) := by
  have hholes : inHoles (fillableHoles recents) c.ts = true ↔ InHole recents c.ts := inHoles_iff hrecents
  have hnear : nearestRecentMs recents c.ts ≤ gapFillMaxMs ↔
      ∃ r ∈ recents, c.ts - r ≤ gapFillMaxMs ∧ r - c.ts ≤ gapFillMaxMs := nearestRecentMs_le_iff hrecents c.ts
  rcases List.eq_nil_or_concat cands with rfl | ⟨front, last, hcands⟩
  · simp [sweptGapFill, survivors, thinned]
  have hne : cands.isEmpty = false := by rw [hcands]; simp
  rw [sweptGapFill, hne, dedupCandidates_eq_survivors hrecents]
  dsimp only
  rw [if_neg (by simp), List.mem_map]
  set kept := survivors recents cands with hkept
  have htimeline := timeline_indexedTimeline recents kept
  -- the mark of a candidate, said with chains
  have hmark : ∀ k : Nat, kept[k]? = some c → ((chainedMarks recents kept)[k]?.getD false = true ↔
      Anchored recents cands c.ts ∨ DrivenAlone recents cands c.ts) := by
    intro k hk
    have hlen : k < kept.length := (List.getElem?_eq_some_iff.mp hk).1
    have hget : (chainedMarks recents kept)[k]?.getD false = true ↔ (chainedMarks recents kept)[k]? = some true := by
      cases (chainedMarks recents kept)[k]? with
      | none => simp
      | some b => simp
    have hslot : (c.ts, some k) ∈ indexedTimeline recents kept := mem_indexedTimeline.mpr (.inr ⟨k, c, hk, rfl⟩)
    rw [hget, getElem?_chained hlen]
    constructor
    · rintro ⟨cluster, hcluster, t, ht, hway⟩
      obtain ⟨d, -, hd, rfl⟩ := (htimeline.mem_some t k).mp (mem_of_mem_run hcluster ht)
      obtain rfl : c = d := Option.some.inj (hk.symm.trans hd)
      rcases hway with ⟨hanchor, hclose⟩ | hgear
      · exact .inl ⟨(htimeline.exists_none_iff hcluster ht).mp hanchor, hnear.mp hclose⟩
      · exact .inr ((htimeline.all_gear_iff hcluster ht).mp hgear)
    · intro hway
      obtain ⟨cluster, hcluster, ht⟩ := exists_run Prod.fst gapFillAdjMs hslot
      refine ⟨cluster, hcluster, c.ts, ht, ?_⟩
      rcases hway with ⟨hanchor, hclose⟩ | hdriven
      · exact .inl ⟨(htimeline.exists_none_iff hcluster ht).mpr hanchor, hnear.mpr hclose⟩
      · exact .inr ((htimeline.all_gear_iff hcluster ht).mpr hdriven)
  constructor
  · rintro ⟨⟨d, k⟩, hd, rfl⟩
    obtain ⟨hmem, hadmit⟩ := List.mem_filter.mp hd
    have hk := List.mem_zipIdx_iff_getElem?.mp hmem
    refine ⟨List.mem_of_getElem? hk, ?_⟩
    rcases Bool.or_eq_true_iff.mp hadmit with hhole | hchained
    · exact .inl (hholes.mp hhole)
    · exact .inr ((hmark k hk).mp hchained)
  · rintro ⟨hmem, hway⟩
    obtain ⟨k, hk⟩ := List.getElem?_of_mem hmem
    refine ⟨(c, k), List.mem_filter.mpr ⟨List.mem_zipIdx_iff_getElem?.mpr hk, Bool.or_eq_true_iff.mpr ?_⟩, rfl⟩
    exact hway.imp hholes.mpr (hmark k hk).mpr

/-- The flag of a candidate in its cluster. -/
theorem mem_chainedFlags_iff {cluster : List (Slot ρ)} {b : Bool} :
    (c, b) ∈ chainedFlags recents cluster ↔ (∃ t, (t, some c) ∈ cluster)
      ∧ (b = true ↔ (∃ r, (r, none) ∈ cluster) ∧ nearestRecentMs recents c.ts ≤ gapFillMaxMs
        ∨ ∀ e ∈ cluster, ∃ d d', e.2 = some d ∧ d = d' ∧ d'.gearDriving = true) := by
  have hmember : ∀ d, d ∈ cluster.filterMap Prod.snd ↔ ∃ t, (t, some d) ∈ cluster := by
    intro d
    rw [List.mem_filterMap]
    exact ⟨fun ⟨⟨t, o⟩, he, ho⟩ => ⟨t, ho ▸ he⟩, fun ⟨t, ht⟩ => ⟨_, ht, rfl⟩⟩
  have hpair : ∀ (f : GapFillCandidate ρ → Bool), (c, b) ∈ (cluster.filterMap Prod.snd).map (fun d => (d, f d)) ↔
      (∃ t, (t, some c) ∈ cluster) ∧ b = f c := by
    intro f
    rw [List.mem_map, ← hmember]
    constructor
    · rintro ⟨d, hd, heq⟩
      obtain ⟨rfl, rfl⟩ := Prod.mk.inj heq
      exact ⟨hd, rfl⟩
    · rintro ⟨hd, rfl⟩
      exact ⟨c, hd, rfl⟩
  simp only [chainedFlags]
  split
  · rename_i hanchor
    obtain ⟨⟨r, o⟩, hr, hnone⟩ := List.any_eq_true.mp hanchor
    obtain rfl : o = none := Option.isNone_iff_eq_none.mp hnone
    have hnotall : ¬ ∀ e ∈ cluster, ∃ d d', e.2 = some d ∧ d = d' ∧ d'.gearDriving = true := by
      intro hall
      obtain ⟨d, -, hd, -⟩ := hall _ hr
      exact absurd hd (by simp)
    rw [hpair, or_iff_left hnotall, Bool.eq_iff_iff, decide_eq_true_iff]
    exact and_congr_right fun _ => iff_congr Iff.rfl (and_iff_right ⟨r, hr⟩).symm
  · rename_i hanchor
    have hnone : ¬ ∃ r, (r, none) ∈ cluster := by
      rintro ⟨r, hr⟩
      exact hanchor (List.any_eq_true.mpr ⟨_, hr, rfl⟩)
    rw [hpair, Bool.eq_iff_iff, List.all_eq_true]
    refine and_congr_right fun _ => iff_congr Iff.rfl ?_
    rw [or_iff_right fun hanchored => hnone hanchored.1]
    constructor
    · rintro hall ⟨t, o⟩ he
      cases o with
      | none => exact absurd ⟨t, he⟩ hnone
      | some d => exact ⟨d, d, rfl, rfl, hall d ((hmember d).mpr ⟨t, he⟩)⟩
    · intro hall d hd
      obtain ⟨t, ht⟩ := (hmember d).mp hd
      obtain ⟨d', d'', hd', rfl, hgear⟩ := hall _ ht
      rw [Option.some.inj hd']
      exact hgear

/-- **So does the pipeline that is cut into clusters first.** -/
theorem mem_selectGapFill_iff_spec (hrecents : recents.Pairwise (· ≤ ·)) (cands : List (GapFillCandidate ρ))
    (c : GapFillCandidate ρ) :
    c ∈ selectGapFill recents cands ↔ c ∈ survivors recents cands
      ∧ (InHole recents c.ts ∨ Anchored recents cands c.ts ∨ DrivenAlone recents cands c.ts) := by
  have hholes : inHoles (fillableHoles recents) c.ts = true ↔ InHole recents c.ts := inHoles_iff hrecents
  have hnear : nearestRecentMs recents c.ts ≤ gapFillMaxMs ↔
      ∃ r ∈ recents, c.ts - r ≤ gapFillMaxMs ∧ r - c.ts ≤ gapFillMaxMs := nearestRecentMs_le_iff hrecents c.ts
  rw [selectGapFill, dedupCandidates_eq_survivors hrecents]
  set kept := survivors recents cands with hkept
  have htimeline := timeline_mergedTimeline recents kept
  rw [List.mem_map]
  constructor
  · rintro ⟨⟨d, b⟩, hd, rfl⟩
    obtain ⟨hmem, hadmit⟩ := List.mem_filter.mp hd
    obtain ⟨cluster, hcluster, hflag⟩ := List.mem_flatMap.mp hmem
    obtain ⟨⟨t, ht⟩, hb⟩ := mem_chainedFlags_iff.mp hflag
    obtain ⟨d', hd', rfl, rfl⟩ := (htimeline.mem_some t d).mp (mem_of_mem_run hcluster ht)
    refine ⟨hd', ?_⟩
    rcases Bool.or_eq_true_iff.mp hadmit with hhole | hchained
    · exact .inl (hholes.mp hhole)
    · rcases hb.mp hchained with ⟨hanchor, hclose⟩ | hgear
      · exact .inr (.inl ⟨(htimeline.exists_none_iff hcluster ht).mp hanchor, hnear.mp hclose⟩)
      · exact .inr (.inr ((htimeline.all_gear_iff hcluster ht).mp hgear))
  · rintro ⟨hmem, hway⟩
    have hslot : (c.ts, some c) ∈ mergedTimeline recents kept := mem_mergedTimeline.mpr (.inr ⟨c, hmem, rfl⟩)
    obtain ⟨cluster, hcluster, ht⟩ := exists_run Prod.fst gapFillAdjMs hslot
    obtain ⟨b, hb⟩ : ∃ b : Bool, b = true ↔ (∃ r, (r, none) ∈ cluster) ∧ nearestRecentMs recents c.ts ≤ gapFillMaxMs
        ∨ ∀ e ∈ cluster, ∃ d d', e.2 = some d ∧ d = d' ∧ d'.gearDriving = true := by
      classical
      exact ⟨decide _, decide_eq_true_iff⟩
    have hflag := mem_chainedFlags_iff.mpr ⟨⟨c.ts, ht⟩, hb⟩
    refine ⟨(c, b), List.mem_filter.mpr ⟨List.mem_flatMap.mpr ⟨cluster, hcluster, hflag⟩, ?_⟩, rfl⟩
    rw [Bool.or_eq_true_iff]
    rcases hway with hhole | ⟨hanchor, hclose⟩ | hdriven
    · exact .inl (hholes.mpr hhole)
    · exact .inr (hb.mpr (.inl ⟨(htimeline.exists_none_iff hcluster ht).mpr hanchor, hnear.mpr hclose⟩))
    · exact .inr (hb.mpr (.inr ((htimeline.all_gear_iff hcluster ht).mpr hdriven)))

/-- **The sweep refines the pipeline of clusters.** -/
theorem sweptGapFill_eq_selectGapFill (hrecents : recents.Pairwise (· ≤ ·)) (cands : List (GapFillCandidate ρ)) :
    sweptGapFill recents cands = selectGapFill recents cands := by
  have hincreasing := increasing_survivors recents cands
  have hkept := dedupCandidates_eq_survivors hrecents cands
  -- both are lists of survivors in the order of time
  have hswept : Increasing GapFillCandidate.ts (sweptGapFill recents cands) := by
    unfold sweptGapFill
    split
    · exact List.Pairwise.nil
    · dsimp only
      rw [hkept]
      refine hincreasing.sublist ?_
      have hsub := (List.filter_sublist (l := (survivors recents cands).zipIdx) (p := fun c =>
        inHoles (fillableHoles recents) c.1.ts || (chainedMarks recents (survivors recents cands))[c.2]?.getD false)).map
          Prod.fst
      rwa [List.zipIdx_map_fst] at hsub
  have hselected : Increasing GapFillCandidate.ts (selectGapFill recents cands) := by
    have hsub := selectGapFill_sublist recents cands
    rw [hkept] at hsub
    refine List.Pairwise.sublist hsub ?_
    have hperm := perm_filterMap_mergedTimeline recents (survivors recents cands)
    have hne : ((mergedTimeline recents (survivors recents cands)).filterMap Prod.snd).Pairwise
        fun a b => a.ts ≠ b.ts :=
      hperm.symm.pairwise (hincreasing.imp ne_of_lt) fun h => h.symm
    have hle : ((mergedTimeline recents (survivors recents cands)).filterMap Prod.snd).Pairwise
        fun a b => a.ts ≤ b.ts := by
      refine List.pairwise_filterMap.mpr ?_
      have htimeline := timeline_mergedTimeline recents (survivors recents cands)
      refine htimeline.sorted.imp_of_mem ?_
      rintro ⟨t, o⟩ ⟨u, o'⟩ ha hb hle a rfl b rfl
      obtain ⟨d, -, rfl, rfl⟩ := (htimeline.mem_some t a).mp ha
      obtain ⟨d', -, rfl, rfl⟩ := (htimeline.mem_some u b).mp hb
      exact hle
    exact (hle.and hne).imp fun h => lt_of_le_of_ne h.1 h.2
  have hmem : ∀ c, c ∈ sweptGapFill recents cands ↔ c ∈ selectGapFill recents cands := fun c =>
    (mem_sweptGapFill_iff hrecents cands c).trans (mem_selectGapFill_iff_spec hrecents cands c).symm
  refine List.Perm.eq_of_pairwise ?_ hswept hselected ?_
  · exact fun a b _ _ hab hba => absurd hab (lt_asymm hba)
  · refine (List.perm_ext_iff_of_nodup ?_ ?_).mpr hmem
    · exact hswept.imp fun hab heq => absurd hab (by rw [heq]; exact lt_irrefl _)
    · exact hselected.imp fun hab heq => absurd hab (by rw [heq]; exact lt_irrefl _)

/-! ## The order of the candidates -/

/-- What the selection reads of a candidate that is not parked. -/
def GapFillCandidate.bare (c : GapFillCandidate ρ) : GapFillCandidate Unit := ⟨(), c.ts, c.file, none, c.gearDriving⟩

theorem GapFillCandidate.eq_of_bare {σ : Type*} {c : GapFillCandidate ρ} {d : GapFillCandidate σ} (h : c.bare = d.bare) :
    c.ts = d.ts ∧ c.file = d.file ∧ c.gearDriving = d.gearDriving := by
  have hts : c.bare.ts = d.bare.ts := congrArg GapFillCandidate.ts h
  have hfile : c.bare.file = d.bare.file := congrArg GapFillCandidate.file h
  have hgear : c.bare.gearDriving = d.bare.gearDriving := congrArg GapFillCandidate.gearDriving h
  exact ⟨hts, hfile, hgear⟩

/-- Candidates of one time and path that are not parked show the same gear evidence. -/
def GearAgrees (cands : List (GapFillCandidate ρ)) : Prop :=
  ∀ c ∈ cands, ∀ d ∈ cands, c.driving ≠ some false → d.driving ≠ some false → c.ts = d.ts → c.file = d.file →
    c.gearDriving = d.gearDriving

theorem map_bare_thinned (l : List (GapFillCandidate ρ)) :
    (thinned l).map GapFillCandidate.bare = thinned (l.map GapFillCandidate.bare) := by
  have hfold : ∀ (l taken : List (GapFillCandidate ρ)),
      (l.foldl (fun taken c => if ∀ d ∈ taken, gapFillDupMs < c.ts - d.ts then taken ++ [c] else taken) taken).map
          GapFillCandidate.bare
        = (l.map GapFillCandidate.bare).foldl
          (fun taken c => if ∀ d ∈ taken, gapFillDupMs < c.ts - d.ts then taken ++ [c] else taken)
          (taken.map GapFillCandidate.bare) := by
    intro l
    induction l with
    | nil => exact fun _ => rfl
    | cons c cs ih =>
      intro taken
      have hfar : (∀ d ∈ taken.map GapFillCandidate.bare, gapFillDupMs < c.bare.ts - d.ts) ↔
          ∀ d ∈ taken, gapFillDupMs < c.ts - d.ts := by
        rw [List.forall_mem_map]
        rfl
      rw [List.foldl_cons, List.map_cons, List.foldl_cons, ih]
      congr 1
      by_cases htake : ∀ d ∈ taken, gapFillDupMs < c.ts - d.ts
      · rw [if_pos htake, if_pos (hfar.mpr htake), List.map_append]
        rfl
      · rw [if_neg htake, if_neg fun h => htake (hfar.mp h)]
  exact hfold l []

/-- **The survivors do not depend on the order of the candidates**, but for their rows. -/
theorem map_bare_survivors {cands' : List (GapFillCandidate ρ)} (hagrees : GearAgrees cands) (hperm : cands.Perm cands')
    (recents : List Int) :
    (survivors recents cands).map GapFillCandidate.bare = (survivors recents cands').map GapFillCandidate.bare := by
  have hsorted : ∀ l : List (GapFillCandidate ρ),
      ((l.insertionSort GapFillCandidate.le).map GapFillCandidate.bare).Pairwise GapFillCandidate.le := fun l =>
    List.pairwise_map.mpr (List.pairwise_insertionSort GapFillCandidate.le l)
  rw [survivors, survivors, map_bare_thinned, map_bare_thinned]
  congr 1
  refine List.Perm.eq_of_pairwise ?_ (hsorted _) (hsorted _) ?_
  · -- candidates at one place in the order agree in all that is read
    intro a b ha hb hab hba
    obtain ⟨c, hc, rfl⟩ := List.mem_map.mp ha
    obtain ⟨d, hd, rfl⟩ := List.mem_map.mp hb
    have hc := List.mem_filter.mp (List.mem_of_mem_filter ((List.mem_insertionSort _).mp hc))
    have hd := List.mem_filter.mp (List.mem_of_mem_filter ((List.mem_insertionSort _).mp hd))
    have hts : c.ts = d.ts := by
      rcases hab with hab | ⟨hab, -⟩
      · rcases hba with hba | ⟨hba, -⟩
        · exact absurd hab (lt_asymm hba)
        · exact hba.symm
      · exact hab
    have hfile : c.file = d.file := by
      rcases hab with hab | ⟨-, hab⟩
      · exact absurd hab (by show ¬ c.ts < d.ts; rw [hts]; exact lt_irrefl _)
      · rcases hba with hba | ⟨-, hba⟩
        · exact absurd hba (by show ¬ d.ts < c.ts; rw [hts]; exact lt_irrefl _)
        · exact le_antisymm (not_lt.mp hab) (not_lt.mp hba)
    have hgear := hagrees c hc.1 d (hperm.mem_iff.mpr hd.1) (by simpa using hc.2) (by simpa using hd.2) hts hfile
    rw [GapFillCandidate.bare, GapFillCandidate.bare, hts, hfile, hgear]
  · have heligible := (hperm.filter fun c => c.driving != some false).filter fun c => decide ¬ Occupied recents c.ts
    exact ((List.perm_insertionSort _ _).trans (heligible.trans (List.perm_insertionSort _ _).symm)).map _

/-- The ways in depend on the survivors but for their rows. -/
theorem ways_congr {cands' : List (GapFillCandidate ρ)}
    (h : (survivors recents cands).map GapFillCandidate.bare = (survivors recents cands').map GapFillCandidate.bare)
    {ts : Int} (hway : InHole recents ts ∨ Anchored recents cands ts ∨ DrivenAlone recents cands ts) :
    InHole recents ts ∨ Anchored recents cands' ts ∨ DrivenAlone recents cands' ts := by
  have htimes : chainTimes recents cands = chainTimes recents cands' := by
    have hmap := congrArg (List.map GapFillCandidate.ts) h
    rw [List.map_map, List.map_map] at hmap
    exact congrArg (recents ++ ·) hmap
  refine hway.imp_right fun hway => hway.imp ?_ ?_
  · rintro ⟨hchain, hnear⟩
    exact ⟨htimes ▸ hchain, hnear⟩
  · rintro ⟨halone, hgear⟩
    refine ⟨htimes ▸ halone, fun d hd hjoined => ?_⟩
    have hbare : d.bare ∈ (survivors recents cands).map GapFillCandidate.bare := h ▸ List.mem_map_of_mem hd
    obtain ⟨e, he, heq⟩ := List.mem_map.mp hbare
    obtain ⟨hts, -, hde⟩ := GapFillCandidate.eq_of_bare heq
    rw [← hde]
    exact hgear e he (by rw [htimes, hts]; exact hjoined)

/-- The files selected, in one order of the candidates and in another. -/
theorem mem_files_of_perm {cands' : List (GapFillCandidate ρ)} (hrecents : recents.Pairwise (· ≤ ·))
    (h : (survivors recents cands).map GapFillCandidate.bare = (survivors recents cands').map GapFillCandidate.bare)
    {f : Text} (hf : f ∈ (sweptGapFill recents cands).map GapFillCandidate.file) :
    f ∈ (sweptGapFill recents cands').map GapFillCandidate.file := by
  obtain ⟨c, hc, rfl⟩ := List.mem_map.mp hf
  obtain ⟨hsurvives, hway⟩ := (mem_sweptGapFill_iff hrecents cands c).mp hc
  have hbare : c.bare ∈ (survivors recents cands').map GapFillCandidate.bare := h ▸ List.mem_map_of_mem hsurvives
  obtain ⟨d, hd, heq⟩ := List.mem_map.mp hbare
  obtain ⟨hts, hfile, -⟩ := GapFillCandidate.eq_of_bare heq
  refine List.mem_map.mpr ⟨d, (mem_sweptGapFill_iff hrecents cands' d).mpr ⟨hd, ?_⟩, hfile⟩
  rw [hts]
  exact ways_congr h hway

/-- **Gap-fill meets its specification**: of a sorted recent timeline and any candidates it selects the survivors inside
a fillable hole, on a chain with a recent clip and near enough to one, or on a chain without recent clips that shows gear
evidence throughout; and where equal candidates agree in that evidence, the files do not depend on the order of the
candidates. -/
theorem gapFill_meets_specification (hrecents : recents.Pairwise (· ≤ ·)) (cands : List (GapFillCandidate ρ)) :
    (∀ c, c ∈ sweptGapFill recents cands ↔ c ∈ survivors recents cands
      ∧ (InHole recents c.ts ∨ Anchored recents cands c.ts ∨ DrivenAlone recents cands c.ts))
      ∧ (GearAgrees cands → ∀ cands', cands.Perm cands' → ∀ f,
          f ∈ (sweptGapFill recents cands).map GapFillCandidate.file ↔
            f ∈ (sweptGapFill recents cands').map GapFillCandidate.file) := by
  refine ⟨mem_sweptGapFill_iff hrecents cands, fun hagrees cands' hperm f => ?_⟩
  have h := map_bare_survivors hagrees hperm recents
  exact ⟨mem_files_of_perm hrecents h, mem_files_of_perm hrecents h.symm⟩

/-- Two records of one clip: one with gear evidence, one without. -/
def contested (first : Bool) : GapFillCandidate Unit :=
  ⟨(), 1786183200000, "SavedClips/2026-08-08_10-05-00/2026-08-08_10-00-00-front.mp4".toList, some true, first⟩

theorem gapFill_meets_specification_contested :
    (∀ c, c ∈ sweptGapFill [1786183080000, 1786183320000] [contested true] ↔
        c ∈ survivors [1786183080000, 1786183320000] [contested true]
          ∧ (InHole [1786183080000, 1786183320000] c.ts
            ∨ Anchored [1786183080000, 1786183320000] [contested true] c.ts
            ∨ DrivenAlone [1786183080000, 1786183320000] [contested true] c.ts))
      ∧ (GearAgrees [contested true] → ∀ cands', [contested true].Perm cands' → ∀ f,
          f ∈ (sweptGapFill [1786183080000, 1786183320000] [contested true]).map GapFillCandidate.file ↔
            f ∈ (sweptGapFill [1786183080000, 1786183320000] cands').map GapFillCandidate.file) :=
  gapFill_meets_specification (by decide) [contested true]

/-- One candidate in a hole. -/
theorem sweptGapFill_eq_selectGapFill_contested : sweptGapFill [1786183080000, 1786183320000] [contested true]
    = selectGapFill [1786183080000, 1786183320000] [contested true] :=
  sweptGapFill_eq_selectGapFill (by decide) _

/-- The first of two records that differ decides. -/
theorem not_gapFill_meets_specification : [contested true, contested false].Perm [contested false, contested true]
    ∧ (contested true).file ∈ (sweptGapFill [] [contested true, contested false]).map GapFillCandidate.file
    ∧ (sweptGapFill [] [contested false, contested true]).map GapFillCandidate.file = [] := by
  refine ⟨List.Perm.swap _ _ _, ?_, ?_⟩
  · decide +kernel
  · decide +kernel

end SentryUsb
