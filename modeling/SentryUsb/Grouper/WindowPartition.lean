import SentryUsb.Grouper.ClockTransition

/-! # The windows of a clip share out its driven frames

The drives hold frame windows of clips. Over the whole grouping, with its merged runs, its shortcuts for clips parked
throughout or never, and the split by signature, the windows taken from one clip are those of its driving segments.

* **`windowsOf_eq`** — the windows that the drives take from a clip, in order, are those its gear runs leave;
* **`OrderedWindows`** — they follow each other, with later start times inside the span of the clip;
* **`driveWindows_partition`** — every frame is in one window, or in a Park run that is a gap; and every clip contributes
  unless it is parked. -/

namespace SentryUsb

open Library

/-! ## The run of a frame -/

/-- The gear run that holds a frame. -/
def runAt : List GearRun → Nat → Option GearRun
  | [], _ => none
  | r :: rs, f => if f < r.frames then some r else runAt rs (f - r.frames)

theorem drivenAt_eq_any (parked : GearRun → Bool) (runs : List GearRun) (f : Nat) :
    drivenAt parked runs f = (runAt runs f).any fun r => !parked r := by
  induction runs generalizing f with
  | nil => rfl
  | cons r rs ih =>
    rw [drivenAt, runAt]
    split
    · rfl
    · exact ih _

/-- Every frame is in a run. -/
theorem exists_runAt {runs : List GearRun} {f : Nat} (h : f < (runs.map GearRun.frames).sum) :
    ∃ r ∈ runs, runAt runs f = some r := by
  induction runs generalizing f with
  | nil => exact absurd h (Nat.not_lt_zero f)
  | cons r rs ih =>
    rw [List.map_cons, List.sum_cons] at h
    rw [runAt]
    by_cases hin : f < r.frames
    · exact ⟨r, List.mem_cons_self, if_pos hin⟩
    · obtain ⟨s, hs, hrun⟩ := ih (show f - r.frames < _ by omega)
      exact ⟨s, List.mem_cons_of_mem _ hs, by rw [if_neg hin, hrun]⟩

/-! ## Segments that alternate -/

/-- Two driving segments never stand side by side. -/
def Alternating (segs : List FrameSeg) : Prop := segs.IsChain fun a b => a.parked = true ∨ b.parked = true

/-- Merging leaves segments that follow each other and alternate, from the same start. -/
theorem alternating_mergeSegs {last : FrameSeg} {segs : List FrameSeg} (h : Contiguous (last :: segs)) :
    Contiguous (mergeSegs last segs) ∧ Alternating (mergeSegs last segs)
      ∧ ∀ s ∈ (mergeSegs last segs).head?, s.start = last.start ∧ s.parked = last.parked := by
  induction segs generalizing last with
  | nil =>
    refine ⟨h, List.isChain_singleton _, fun s hs => ?_⟩
    obtain rfl := Option.some.inj hs
    exact ⟨rfl, rfl⟩
  | cons seg segs ih =>
    obtain ⟨hordered, hchain⟩ := h
    obtain ⟨htouch, hrest⟩ := List.isChain_cons_cons.mp hchain
    rw [mergeSegs]
    split
    · -- two driving segments become one
      exact ih (contiguous_merge ⟨hordered, hchain⟩)
    · rename_i hapart
      have htail : Contiguous (seg :: segs) := ⟨fun s hs => hordered s (List.mem_cons_of_mem _ hs), hrest⟩
      obtain ⟨⟨hordered', hchain'⟩, halternating, hhead⟩ := ih htail
      refine ⟨⟨fun s hs => ?_, List.isChain_cons.mpr ⟨fun s hs => ?_, hchain'⟩⟩,
        List.isChain_cons.mpr ⟨fun s hs => ?_, halternating⟩, fun s hs => ?_⟩
      · rcases List.mem_cons.mp hs with rfl | hs
        · exact hordered s List.mem_cons_self
        · exact hordered' s hs
      · rw [(hhead s hs).1]
        exact htouch
      · rw [(hhead s hs).2]
        cases hl : last.parked with
        | true => exact .inl rfl
        | false =>
          cases hs' : seg.parked with
          | true => exact .inr rfl
          | false => exact absurd (by rw [hl, hs']; rfl) hapart
      · obtain rfl := Option.some.inj hs
        exact ⟨rfl, rfl⟩

/-- Parked segments are left as they are. -/
theorem parked_mergeSegs {Q : FrameSeg → Prop} {last : FrameSeg} {segs : List FrameSeg}
    (h : ∀ s ∈ last :: segs, s.parked = true → Q s) : ∀ s ∈ mergeSegs last segs, s.parked = true → Q s := by
  induction segs generalizing last with
  | nil => exact h
  | cons seg segs ih =>
    have htail : ∀ s ∈ seg :: segs, s.parked = true → Q s := fun s hs => h s (List.mem_cons_of_mem _ hs)
    rw [mergeSegs]
    split
    · rename_i hdriving
      rw [Bool.and_eq_true, Bool.not_eq_true', Bool.not_eq_true'] at hdriving
      refine ih fun s hs hparked => ?_
      rcases List.mem_cons.mp hs with rfl | hs
      · exact absurd (hdriving.1.symm.trans hparked) (by simp)
      · exact htail s (List.mem_cons_of_mem _ hs) hparked
    · intro s hs hparked
      rcases List.mem_cons.mp hs with rfl | hs
      · exact h s List.mem_cons_self hparked
      · exact ih htail s hs hparked

/-- A parked segment is a Park run, frame by frame. -/
theorem exists_run_of_parked {parked : GearRun → Bool} {offset : Nat} {runs : List GearRun}
    (h : offset + (runs.map GearRun.frames).sum < u32Size) {s : FrameSeg} (hs : s ∈ rawSegs parked offset runs)
    (hparked : s.parked = true) : ∃ r ∈ runs, parked r = true ∧ s.stop = s.start + r.frames := by
  induction runs generalizing offset with
  | nil => exact absurd hs List.not_mem_nil
  | cons r rs ih =>
    rw [List.map_cons, List.sum_cons] at h
    have hmod : (offset + r.frames) % u32Size = offset + r.frames := Nat.mod_eq_of_lt (by omega)
    rw [rawSegs, hmod] at hs
    rcases List.mem_cons.mp hs with rfl | hs
    · exact ⟨r, List.mem_cons_self, hparked, rfl⟩
    · obtain ⟨r', hr', hrest⟩ := ih (show offset + r.frames + _ < u32Size by omega) hs
      exact ⟨r', List.mem_cons_of_mem _ hr', hrest⟩

/-- Segments that follow each other come in order. -/
theorem stop_le_start_of_contiguous {s : FrameSeg} {segs : List FrameSeg} (h : Contiguous (s :: segs)) :
    ∀ s' ∈ segs, s.stop ≤ s'.start := by
  induction segs generalizing s with
  | nil => exact fun _ hs' => absurd hs' List.not_mem_nil
  | cons next segs ih =>
    obtain ⟨hordered, hchain⟩ := h
    obtain ⟨htouch, hrest⟩ := List.isChain_cons_cons.mp hchain
    intro s' hs'
    rcases List.mem_cons.mp hs' with rfl | hs'
    · exact le_of_eq htouch
    · have hnext := hordered next (List.mem_cons_of_mem _ List.mem_cons_self)
      have := ih ⟨fun s hs => hordered s (List.mem_cons_of_mem _ hs), hrest⟩ s' hs'
      omega

/-- A Park gap moves the clock on. -/
theorem frameOffsetMs_lt_of_gap {frames start total : Nat} {spanMs : Int} (htotal : total ≠ 0)
    (h : parkGapFrames frames total spanMs = true) :
    frameOffsetMs start total spanMs < frameOffsetMs (start + frames) total spanMs := by
  unfold parkGapFrames at h
  rw [decide_eq_true_eq] at h
  unfold frameOffsetMs
  rw [if_neg htotal, if_neg htotal]
  have hpos : 0 < total := Nat.pos_of_ne_zero htotal
  have hgap : total ≤ frames * spanMs.toNat := by
    unfold parkGapMs at h
    omega
  have hsum : start * spanMs.toNat + total / 2 + total ≤ (start + frames) * spanMs.toNat + total / 2 := by
    rw [Nat.add_mul]
    omega
  have hstep := Nat.div_le_div_right (c := total) hsum
  rw [Nat.add_div_right _ hpos] at hstep
  exact_mod_cast hstep

/-- **Driving segments follow each other, and each starts later than the one before it**, since a Park gap lies between. -/
theorem pairwise_driving {total : Nat} {spanMs : Int} (htotal : total ≠ 0) {segs : List FrameSeg}
    (hcontiguous : Contiguous segs) (halternating : Alternating segs)
    (hgap : ∀ s ∈ segs, s.parked = true → ∃ n, s.stop = s.start + n ∧ parkGapFrames n total spanMs = true) :
    (segs.filter fun s => !s.parked).Pairwise fun s s' =>
      s.stop ≤ s'.start ∧ frameOffsetMs s.start total spanMs < frameOffsetMs s'.start total spanMs := by
  induction segs with
  | nil => exact List.Pairwise.nil
  | cons s segs ih =>
    obtain ⟨hordered, hchain⟩ := hcontiguous
    have hrest : Contiguous segs := ⟨fun a ha => hordered a (List.mem_cons_of_mem _ ha), hchain.tail⟩
    have ih := ih hrest halternating.tail fun a ha => hgap a (List.mem_cons_of_mem _ ha)
    cases hs : s.parked with
    | true => rwa [List.filter_cons_of_neg (by simp [hs])]
    | false =>
      rw [List.filter_cons_of_pos (by simp [hs])]
      refine List.pairwise_cons.mpr ⟨fun b hb => ?_, ih⟩
      obtain ⟨hb, hdriving⟩ := List.mem_filter.mp hb
      refine ⟨stop_le_start_of_contiguous ⟨hordered, hchain⟩ b hb, ?_⟩
      cases segs with
      | nil => exact absurd hb List.not_mem_nil
      | cons gap segs =>
        -- the next segment is a gap
        obtain ⟨hnext, -⟩ := List.isChain_cons_cons.mp halternating
        have hparked : gap.parked = true := hnext.resolve_left (by simp [hs])
        obtain ⟨htouch, -⟩ := List.isChain_cons_cons.mp hchain
        obtain ⟨n, hstop, hlong⟩ := hgap gap (List.mem_cons_of_mem _ List.mem_cons_self) hparked
        have hb' : b ∈ segs := by
          rcases List.mem_cons.mp hb with rfl | hb
          · rw [hparked] at hdriving
            exact absurd hdriving (by simp)
          · exact hb
        have hafter := stop_le_start_of_contiguous hrest b hb'
        have hs_le := hordered s List.mem_cons_self
        calc frameOffsetMs s.start total spanMs
            ≤ frameOffsetMs gap.start total spanMs := frameOffsetMs_mono (by omega) spanMs
          _ < frameOffsetMs (gap.start + n) total spanMs := frameOffsetMs_lt_of_gap htotal hlong
          _ ≤ frameOffsetMs b.start total spanMs := frameOffsetMs_mono (by omega) spanMs

/-! ## The windows of one clip -/

/-- **Windows in order**: each ends before the next begins, and they start at later and later times inside the span of the
clip. -/
structure OrderedWindows (t : Timed RouteSummary) (ws : List SubClip) : Prop where
  proper : ∀ w ∈ ws, w.startFrame ≤ w.endFrame
  inside : ∀ w ∈ ws, t.timestamp ≤ w.timestamp ∧ w.timestamp ≤ t.timestamp + t.clipSpanMs
  ordered : ws.Pairwise fun v w => v.endFrame ≤ w.startFrame ∧ v.timestamp < w.timestamp

/-- One window from the start of the clip. -/
theorem orderedWindows_single {t : Timed RouteSummary} (hspan : 0 ≤ t.clipSpanMs) {w : SubClip} (hstart : w.startFrame = 0)
    (htime : w.timestamp = t.timestamp) : OrderedWindows t [w] := by
  refine ⟨fun v hv => ?_, fun v hv => ?_, List.pairwise_singleton _ _⟩
  · rw [List.mem_singleton.mp hv, hstart]
    exact Nat.zero_le _
  · rw [List.mem_singleton.mp hv, htime]
    omega

/-- The segments of a clip follow each other and alternate, and its Park gaps are long. -/
theorem clipSegs_alternating {t : Timed RouteSummary} (hfit : FramesFit t.row.gearRuns) :
    Contiguous (clipSegs actualClock t.row.gearRuns t.clipSpanMs)
      ∧ Alternating (clipSegs actualClock t.row.gearRuns t.clipSpanMs)
      ∧ ∀ s ∈ clipSegs actualClock t.row.gearRuns t.clipSpanMs, s.parked = true →
        ∃ n, s.stop = s.start + n ∧ parkGapFrames n (frameSum t.row.gearRuns) t.clipSpanMs = true := by
  have hoffset : 0 + (t.row.gearRuns.map GearRun.frames).sum < u32Size := by
    rw [Nat.zero_add]
    exact hfit
  rcases clipSegs_eq actualClock t with ⟨-, hclip⟩ | ⟨seg, segs, hsegs, hclip⟩
  · rw [hclip]
    exact ⟨⟨fun _ hs => absurd hs List.not_mem_nil, List.isChain_nil⟩, List.isChain_nil,
      fun _ hs => absurd hs List.not_mem_nil⟩
  · rw [hclip]
    have hcontiguous := (contiguous_rawSegs (parkedBy actualClock t) hoffset).1
    rw [hsegs] at hcontiguous
    obtain ⟨hcontiguous', halternating, -⟩ := alternating_mergeSegs hcontiguous
    refine ⟨hcontiguous', halternating, parked_mergeSegs fun s hs hparked => ?_⟩
    rw [← hsegs] at hs
    obtain ⟨r, -, hr, hstop⟩ := exists_run_of_parked hoffset hs hparked
    exact ⟨r.frames, hstop, (Bool.and_eq_true_iff.mp hr).2⟩

/-- **The windows a clip leaves are in order.** -/
theorem orderedWindows_clipSubs {group : List (Timed RouteSummary)} {t : Timed RouteSummary}
    (hfit : FramesFit t.row.gearRuns) (hspan : 0 ≤ t.clipSpanMs) : OrderedWindows t (clipSubs actualClock group t) := by
  have hnone : OrderedWindows t [] :=
    ⟨fun _ hw => absurd hw List.not_mem_nil, fun _ hw => absurd hw List.not_mem_nil, List.Pairwise.nil⟩
  unfold clipSubs
  split
  · split
    · exact orderedWindows_single hspan rfl rfl
    · exact hnone
  · rcases summaryEvents_cases actualClock t with ⟨-, he⟩ | ⟨-, he⟩ | ⟨-, -, he⟩ | ⟨hsum, -, he⟩
    · rw [he]
      exact orderedWindows_single hspan rfl rfl
    · rw [he]
      exact hnone
    · rw [he]
      exact orderedWindows_single hspan rfl rfl
    · -- one window for each driving segment
      obtain ⟨hcontiguous, halternating, hgap⟩ := clipSegs_alternating hfit
      have hbounds := clipSegs_bounds actualClock t.clipSpanMs hfit
      have hwindows : (summaryEvents actualClock t).filterMap id
          = ((clipSegs actualClock t.row.gearRuns t.clipSpanMs).filter fun s => !s.parked).map
              (SubClip.window actualClock t) := by
        rw [he, List.filterMap_map]
        induction clipSegs actualClock t.row.gearRuns t.clipSpanMs with
        | nil => rfl
        | cons s segs ih =>
          cases hs : s.parked with
          | true => rw [List.filterMap_cons_none (by simp [hs]), List.filter_cons_of_neg (by simp [hs]), ih]
          | false =>
            have hsome : (id ∘ fun seg => if seg.parked = true then none else some (SubClip.window actualClock t seg)) s
                = some (SubClip.window actualClock t s) := by simp [hs]
            rw [List.filterMap_cons_some hsome, List.filter_cons_of_pos (by simp [hs]), List.map_cons, ih]
      rw [hwindows]
      refine ⟨fun w hw => ?_, fun w hw => ?_, List.pairwise_map.mpr ?_⟩
      · obtain ⟨s, hs, rfl⟩ := List.mem_map.mp hw
        exact hcontiguous.1 s (List.mem_of_mem_filter hs)
      · obtain ⟨s, hs, rfl⟩ := List.mem_map.mp hw
        have hlow := frameOffsetMs_nonneg s.start (frameSum t.row.gearRuns) t.clipSpanMs
        have hhigh := frameOffsetMs_le_span (hbounds s (List.mem_of_mem_filter hs)).1 hspan
        show t.timestamp ≤ t.timestamp + frameOffsetMs s.start (frameSum t.row.gearRuns) t.clipSpanMs
          ∧ t.timestamp + frameOffsetMs s.start (frameSum t.row.gearRuns) t.clipSpanMs ≤ t.timestamp + t.clipSpanMs
        omega
      · refine (pairwise_driving hsum hcontiguous halternating hgap).imp fun {a b} hab => ⟨hab.1, ?_⟩
        show t.timestamp + frameOffsetMs a.start (frameSum t.row.gearRuns) t.clipSpanMs
          < t.timestamp + frameOffsetMs b.start (frameSum t.row.gearRuns) t.clipSpanMs
        omega

/-! ## The windows the drives take from a clip -/

/-- The windows of one file in a list of drives. -/
def windowsOf (drives : List (List SubClip)) (file : Text) : List SubClip :=
  drives.flatten.filter fun c => decide (c.summary.file = file)

section Windows
variable {clock : Clock} {o : BucketOrder} {summaries : List RouteSummary}
  {p : List (Timed RouteSummary) × Timed RouteSummary} (hp : p ∈ placedClips summaries)
include hp

/-- A sub-clip with the file of a placed clip is one of its windows. -/
theorem row_eq_of_file {q : List (Timed RouteSummary) × Timed RouteSummary} (hq : q ∈ placedClips summaries)
    {c : SubClip} (hc : c ∈ clipSubs clock q.1 q.2) (hfile : c.summary.file = p.2.row.file) : c.summary = p.2.row := by
  have hrow := (mem_clipSubs hc).row_eq
  rw [hrow] at hfile ⊢
  have heq := List.inj_on_of_nodup_map (nodup_placedClips summaries) hq hp (by rw [hfile])
  rw [heq]

/-- **The windows the drives take from a clip are those it leaves**, in order. -/
theorem windowsOf_eq : windowsOf (groupSummaryClipsWithClock clock o summaries) p.2.row.file = clipSubs clock p.1 p.2 := by
  have hsplit : windowsOf (groupSummaryClipsWithClock clock o summaries) p.2.row.file
      = (gearGroups clock summaries).flatten.filter fun c => decide (c.summary.file = p.2.row.file) := by
    unfold windowsOf groupSummaryClipsWithClock
    have hsame : ∀ g ∈ gearGroups clock summaries, ∀ c ∈ g, decide (c.summary.file = p.2.row.file) = true →
        c.signature = p.2.row.externalSignature := by
      intro g hg c hc hfile
      have hmem : c ∈ (gearGroups clock summaries).flatten := List.mem_flatten.mpr ⟨g, hg, hc⟩
      rw [flatten_gearGroups] at hmem
      obtain ⟨q, hq, hcq⟩ := List.mem_flatMap.mp hmem
      unfold SubClip.signature
      rw [row_eq_of_file hp hq hcq (of_decide_eq_true hfile)]
    generalize gearGroups clock summaries = gs at hsame
    induction gs with
    | nil => rfl
    | cons g gs ih =>
      rw [List.flatMap_cons, List.flatten_append, List.flatten_cons, List.filter_append, List.filter_append,
        filter_flatten_splitByExternalSignature o g (hsame g List.mem_cons_self),
        ih fun g' hg' => hsame g' (List.mem_cons_of_mem _ hg')]
  rw [hsplit, flatten_gearGroups]
  refine (filter_flatMap_of_key (nodup_placedClips summaries) hp fun q hq c hc hfile => ?_).trans
    (List.filter_eq_self.mpr fun c hc => ?_)
  · rw [← of_decide_eq_true hfile, (mem_clipSubs hc).row_eq]
  · rw [decide_eq_true_eq, (mem_clipSubs hc).row_eq]

end Windows

/-! ## Frames and clips of the drives -/

/-- A clip parked throughout: every gear run is a Park gap. -/
def ParkedThroughout (t : Timed RouteSummary) : Prop :=
  frameSum t.row.gearRuns ≠ 0 ∧ ∀ r ∈ t.row.gearRuns, parkedBy actualClock t r = true

/-- A boundary among clips without gear runs: one of several, with most of its frames in Park. -/
def LegacyBoundary (group : List (Timed RouteSummary)) (t : Timed RouteSummary) : Prop :=
  (∀ u ∈ group, u.row.gearRuns = []) ∧ 1 < group.length
    ∧ rawMostlyPark t.row.rawParkCount t.row.rawFrameCount = true

/-- **A clip leaves a window** unless it is parked throughout or a boundary. -/
theorem clipSubs_ne_nil_iff {group : List (Timed RouteSummary)} {t : Timed RouteSummary} (ht : t ∈ group) :
    clipSubs actualClock group t ≠ [] ↔ ¬ ParkedThroughout t ∧ ¬ LegacyBoundary group t := by
  unfold clipSubs
  by_cases hnone : group.all (fun t => t.row.gearRuns.isEmpty) = true
  · rw [if_pos hnone]
    have hempty : ∀ u ∈ group, u.row.gearRuns = [] := fun u hu =>
      List.isEmpty_iff.mp (List.all_eq_true.mp hnone u hu)
    have hrunning : ¬ ParkedThroughout t := fun h => h.1 (by rw [hempty t ht]; rfl)
    by_cases hkept : group.length ≤ 1 ∨ rawMostlyPark t.row.rawParkCount t.row.rawFrameCount = false
    · rw [if_pos hkept]
      refine iff_of_true (List.cons_ne_nil _ _) ⟨hrunning, fun h => ?_⟩
      obtain ⟨-, hlen, hpark⟩ := h
      rcases hkept with hone | hdriving
      · omega
      · rw [hdriving] at hpark
        exact absurd hpark (by simp)
    · rw [if_neg hkept]
      obtain ⟨hlen, hpark⟩ := not_or.mp hkept
      exact iff_of_false (fun h => h rfl) fun h => h.2 ⟨hempty, by omega, by simpa using hpark⟩
  · rw [if_neg hnone]
    have hgroup : ¬ LegacyBoundary group t := fun h =>
      hnone (List.all_eq_true.mpr fun u hu => List.isEmpty_iff.mpr (h.1 u hu))
    obtain ⟨hall, hany⟩ := parked_clipSegs actualClock t
    unfold summaryEvents
    dsimp only
    by_cases hsum : frameSum t.row.gearRuns = 0
    · rw [if_pos hsum]
      exact iff_of_true (List.cons_ne_nil _ _) ⟨fun h => h.1 hsum, hgroup⟩
    · rw [if_neg hsum]
      by_cases hparked : (clipSegs actualClock t.row.gearRuns t.clipSpanMs).all FrameSeg.parked = true
      · rw [if_pos hparked]
        refine iff_of_false (fun h => h rfl) fun h => h.1 ⟨hsum, ?_⟩
        exact List.all_eq_true.mp (hall.symm.trans hparked)
      · rw [if_neg hparked]
        have hdrives : ¬ ParkedThroughout t := fun h =>
          hparked (hall.trans (List.all_eq_true.mpr h.2))
        refine iff_of_true ?_ ⟨hdrives, hgroup⟩
        by_cases hgap : (clipSegs actualClock t.row.gearRuns t.clipSpanMs).any FrameSeg.parked = true
        · -- a driving segment leaves a window
          rw [if_neg (by simp [hgap])]
          obtain ⟨s, hs, hdriving⟩ := List.all_eq_false.mp (Bool.eq_false_iff.mpr hparked)
          refine List.ne_nil_of_mem (List.mem_filterMap.mpr ⟨some (SubClip.window actualClock t s), ?_, rfl⟩)
          exact List.mem_map.mpr ⟨s, hs, by rw [if_neg hdriving]⟩
        · rw [if_pos (by simpa using hgap)]
          exact List.cons_ne_nil _ _

/-- Every admitted entry with a clip time is on the timeline. -/
theorem exists_timed_of_admitted {ρ : Type*} {entries : List (ClipEntry ρ)} {e : ClipEntry ρ} {ts : Int}
    (he : e ∈ dedupPaths [] entries) (hts : parseClipTimestamp e.file = some ts)
    (hadmitted : isEventFolderPath e.file = true → (ts, e) ∈ admittedEvents (dedupPaths [] entries)) :
    ∃ tg ∈ timeGroups entries, ∃ t ∈ tg, t.row = e.row ∧ t.timestamp = ts := by
  have hseries : (ts, e) ∈ series (dedupPaths [] entries) := by
    rw [series, mem_sortByTime, List.mem_append]
    cases hevent : isEventFolderPath e.file with
    | true => exact .inr (hadmitted hevent)
    | false =>
      refine .inl ?_
      rw [recentClips, mem_sortByTime, mem_stamp]
      exact ⟨List.mem_filter.mpr ⟨he, by rw [hevent]; rfl⟩, hts⟩
  have hspans : ∀ l : List (Stamped ρ), (ts, e) ∈ l → ∃ t ∈ clipSpans l, t.row = e.row ∧ t.timestamp = ts := by
    intro l
    induction l with
    | nil => exact fun h => absurd h List.not_mem_nil
    | cons s l ih =>
      intro h
      rcases List.mem_cons.mp h with rfl | h
      · exact ⟨_, List.mem_cons_self, rfl, rfl⟩
      · obtain ⟨t, ht, hrest⟩ := ih h
        exact ⟨t, List.mem_cons_of_mem _ ht, hrest⟩
  obtain ⟨t, ht, hrest⟩ := hspans _ hseries
  have hmem : t ∈ (timeGroups entries).flatten := by
    rw [flatten_timeGroups]
    exact ht
  obtain ⟨tg, htg, htmem⟩ := List.mem_flatten.mp hmem
  exact ⟨tg, htg, t, htmem, hrest⟩

/-- **Splitting is a partition of the driven frames.** Every frame of a clip is in at most one window of the drives, and in
none exactly when its run is a Park gap; the windows of a clip are in order; every admitted clip has its place in a time
group, and it is in a drive unless it is parked throughout, or without gear runs among others without and mostly parked. -/
theorem driveWindows_partition (o : BucketOrder) {summaries : List RouteSummary}
    (hfit : ∀ s ∈ summaries, FramesFit s.gearRuns) :
    (∀ t ∈ timeline (summaries.map summaryEntry), ∀ f < (t.row.gearRuns.map GearRun.frames).sum,
        (windowsOf (groupSummaryClips o summaries) t.row.file).countP (fun w => holds (w.startFrame, w.endFrame) f) ≤ 1
          ∧ ((windowsOf (groupSummaryClips o summaries) t.row.file).countP
              (fun w => holds (w.startFrame, w.endFrame) f) = 0 ↔
            ∃ r, runAt t.row.gearRuns f = some r ∧ r.gear = gearPark
              ∧ parkGapFrames r.frames (frameSum t.row.gearRuns) t.clipSpanMs = true))
      ∧ (∀ t ∈ timeline (summaries.map summaryEntry),
        OrderedWindows t (windowsOf (groupSummaryClips o summaries) t.row.file))
      ∧ (∀ e ∈ dedupPaths [] (summaries.map summaryEntry), ∀ ts, parseClipTimestamp e.file = some ts →
        (isEventFolderPath e.file = true → (ts, e) ∈ admittedEvents (dedupPaths [] (summaries.map summaryEntry))) →
        ∃ tg ∈ timeGroups (summaries.map summaryEntry), ∃ t ∈ tg, t.row = e.row ∧ t.timestamp = ts)
      ∧ (∀ tg ∈ timeGroups (summaries.map summaryEntry), ∀ t ∈ tg,
        (∃ drive ∈ groupSummaryClips o summaries, ∃ c ∈ drive, c.summary = t.row) ↔
          ¬ ParkedThroughout t ∧ ¬ LegacyBoundary tg t) := by
  have hplaced : ∀ t ∈ timeline (summaries.map summaryEntry), ∃ p ∈ placedClips summaries, p.2 = t := by
    intro t ht
    rw [← map_snd_placedClips] at ht
    exact List.mem_map.mp ht
  refine ⟨fun t ht f hf => ?_, fun t ht => ?_, fun e he ts hts => exists_timed_of_admitted he hts, fun tg htg t ht => ?_⟩
  · obtain ⟨p, hp, rfl⟩ := hplaced t ht
    obtain ⟨hmem, hrow⟩ := mem_of_mem_placedClips hp
    have hclip := hfit _ hrow
    have htotal : frameSum p.2.row.gearRuns = (p.2.row.gearRuns.map GearRun.frames).sum := Nat.mod_eq_of_lt hclip
    have hruns : ¬ (p.1.all fun t => t.row.gearRuns.isEmpty) = true := fun h => by
      rw [List.isEmpty_iff.mp (List.all_eq_true.mp h p.2 hmem)] at hf
      exact absurd hf (Nat.not_lt_zero f)
    have hcount : (windowsOf (groupSummaryClips o summaries) p.2.row.file).countP
        (fun w => holds (w.startFrame, w.endFrame) f)
          = if drivenAt (parkedBy actualClock p.2) p.2.row.gearRuns f = true then 1 else 0 := by
      rw [groupSummaryClips, windowsOf_eq hp, clipSubs, if_neg hruns]
      exact countP_summaryEvents hclip (by omega) f
    rw [hcount, drivenAt_eq_any]
    obtain ⟨r, -, hrun⟩ := exists_runAt hf
    rw [hrun, Option.any_some]
    -- the one run that holds the frame decides
    have hgap : parkedBy actualClock p.2 r = true ↔ ∃ r', some r = some r' ∧ r'.gear = gearPark
        ∧ parkGapFrames r'.frames (frameSum p.2.row.gearRuns) p.2.clipSpanMs = true := by
      unfold parkedBy
      rw [Bool.and_eq_true, decide_eq_true_eq]
      constructor
      · exact fun h => ⟨r, rfl, h⟩
      · rintro ⟨_, heq, h⟩
        rw [← Option.some.inj heq] at h
        exact h
    rw [← hgap]
    cases parkedBy actualClock p.2 r with
    | true => simp
    | false => simp
  · obtain ⟨p, hp, rfl⟩ := hplaced t ht
    obtain ⟨-, -, -, -, hspan, -⟩ := mem_timeline ht
    rw [groupSummaryClips, windowsOf_eq hp]
    exact orderedWindows_clipSubs (hfit _ (mem_of_mem_placedClips hp).2) (le_of_lt hspan)
  · have hp : (tg, t) ∈ placedClips summaries :=
      List.mem_flatMap.mpr ⟨tg, htg, List.mem_map.mpr ⟨t, ht, rfl⟩⟩
    have hwin : windowsOf (groupSummaryClips o summaries) t.row.file = clipSubs actualClock tg t := windowsOf_eq hp
    rw [← clipSubs_ne_nil_iff ht, ← hwin]
    constructor
    · rintro ⟨drive, hdrive, c, hc, hrow⟩
      refine List.ne_nil_of_mem (List.mem_filter.mpr ⟨List.mem_flatten.mpr ⟨drive, hdrive, hc⟩, ?_⟩)
      rw [hrow, decide_eq_true_eq]
    · intro hne
      obtain ⟨c, hc⟩ := List.exists_mem_of_ne_nil _ hne
      obtain ⟨hmem, -⟩ := List.mem_filter.mp hc
      obtain ⟨drive, hdrive, hcd⟩ := List.mem_flatten.mp hmem
      rw [hwin] at hc
      exact ⟨drive, hdrive, c, hcd, (mem_clipSubs hc).row_eq⟩

/-- A stop of five seconds in a minute of driving gives two windows. -/
theorem driveWindows_partition_noon : ∃ t ∈ timeline ([noonClip [⟨4, 20⟩, ⟨0, 5⟩, ⟨4, 35⟩]].map summaryEntry),
    OrderedWindows t (windowsOf (groupSummaryClips .forward [noonClip [⟨4, 20⟩, ⟨0, 5⟩, ⟨4, 35⟩]]) t.row.file)
      ∧ (windowsOf (groupSummaryClips .forward [noonClip [⟨4, 20⟩, ⟨0, 5⟩, ⟨4, 35⟩]]) t.row.file).map
          (fun w => (w.startFrame, w.endFrame)) = [(0, 20), (25, 60)] := by
  have hfit : ∀ s ∈ [noonClip [⟨4, 20⟩, ⟨0, 5⟩, ⟨4, 35⟩]], FramesFit s.gearRuns :=
    framesFit_noonClip (by unfold FramesFit; decide)
  obtain ⟨t, ht, hwindows⟩ : ∃ t ∈ timeline ([noonClip [⟨4, 20⟩, ⟨0, 5⟩, ⟨4, 35⟩]].map summaryEntry),
      (windowsOf (groupSummaryClips .forward [noonClip [⟨4, 20⟩, ⟨0, 5⟩, ⟨4, 35⟩]]) t.row.file).map
        (fun w => (w.startFrame, w.endFrame)) = [(0, 20), (25, 60)] := by decide +kernel
  exact ⟨t, ht, (driveWindows_partition .forward hfit).2.1 t ht, hwindows⟩

/-- A clip parked throughout, with or without gear runs. -/
def WhollyParked (t : Timed RouteSummary) : Prop :=
  ParkedThroughout t ∨ t.row.gearRuns = [] ∧ t.row.rawFrameCount ≤ t.row.rawParkCount

/-- A clip without gear runs, with sixty of its hundred frames in Park. -/
def mostlyParkedClip : RouteSummary := { noonClip [] with rawParkCount := 60, rawFrameCount := 100 }

/-- One a minute later that drives throughout. -/
def drivingClip : RouteSummary :=
  { noonClip [] with file := "2026-01-01_12-01-00-front.mp4".toList, rawFrameCount := 100 }

/-- A clip that drives for forty of its hundred frames is in no drive, next to one that drives throughout. -/
theorem not_every_clip_contributes : ¬ ∀ (o : BucketOrder) (summaries : List RouteSummary),
    (∀ s ∈ summaries, FramesFit s.gearRuns) → ∀ t ∈ timeline (summaries.map summaryEntry), ¬ WhollyParked t →
      ∃ drive ∈ groupSummaryClips o summaries, ∃ c ∈ drive, c.summary = t.row := by
  intro hclaim
  have hfit : ∀ s ∈ [mostlyParkedClip, drivingClip], FramesFit s.gearRuns := by
    intro s hs
    rcases List.mem_pair.mp hs with rfl | rfl
    · unfold FramesFit
      decide
    · unfold FramesFit
      decide
  obtain ⟨t, ht, hempty, hcounts, hfile⟩ : ∃ t ∈ timeline ([mostlyParkedClip, drivingClip].map summaryEntry),
      t.row.gearRuns.isEmpty = true ∧ t.row.rawParkCount < t.row.rawFrameCount
        ∧ t.row.file = mostlyParkedClip.file := by decide +kernel
  have hdriving : ¬ WhollyParked t := by
    rintro (⟨hsum, -⟩ | ⟨-, hparked⟩)
    · rw [List.isEmpty_iff.mp hempty] at hsum
      exact hsum rfl
    · omega
  obtain ⟨drive, hdrive, c, hc, hrow⟩ := hclaim .forward _ hfit t ht hdriving
  have hfiles : (groupSummaryClips .forward [mostlyParkedClip, drivingClip]).flatten.map (fun c => c.summary.file)
      = [drivingClip.file] := by decide +kernel
  have hmem : c.summary.file ∈ [drivingClip.file] := by
    rw [← hfiles]
    exact List.mem_map_of_mem (List.mem_flatten.mpr ⟨drive, hdrive, hc⟩)
  rw [List.mem_singleton, hrow, hfile] at hmem
  exact absurd hmem (by decide +kernel)

end SentryUsb
