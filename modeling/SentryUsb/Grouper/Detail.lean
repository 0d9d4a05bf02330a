import SentryUsb.Grouper.Overview
import SentryUsb.Grouper.Summaries

/-! # The drive page: one drive rebuilt from its own clips

The drive list is grouped from summary rows; the drive page resolves one drive, fetches the full rows
of its files and splits them again in isolation, at the clip spans the list computed.

* **`resolveGroupIndex`**, **`resolveDriveSelection`** — from an id to a drive (`grouper.rs`);
* **`buildSingleDriveFromClipsWithSpans`** — the drive rebuilt from its rows;
* **`DriveShape`** — where the sub-clips of a drive come from: at most its first one starts inside a
  clip;
* **`detail_start_eq`** — a drive whose start time is its own, and whose first clip the full-row
  splitter keeps, is found and rebuilt at the same start. -/

namespace SentryUsb

open Library

/-! ## Resolving an id -/

/-- What the text of a drive id can be: a number, a start time with milliseconds (the current form),
a start time in whole seconds (the retired form), or neither. -/
inductive DriveId where
  | index (n : Nat)
  | start (ms : Int)
  | legacyStart (sec : Int)
  | other

/-- Positions of the elements satisfying a test. -/
def positions {α : Type*} (p : α → Bool) (l : List α) : List Nat :=
  (l.zipIdx.filter fun a => p a.1).map Prod.snd

/-- Whether two sub-clips share frames of one file. -/
def SubClip.overlaps (a b : SubClip) : Bool :=
  decide (a.summary.file = b.summary.file) && decide (a.totalFrames = b.totalFrames)
    && decide (a.startFrame < b.endFrame) && decide (b.startFrame < a.endFrame)

/-- Whether two sub-clips are the same frame window. -/
def SubClip.sameWindow (a b : SubClip) : Bool :=
  decide (a.summary.file = b.summary.file) && decide (a.startFrame = b.startFrame)
    && decide (a.endFrame = b.endFrame) && decide (a.totalFrames = b.totalFrames)

/-- Position of the drive an id names (`resolve_group_index`): a number in range, the start time of
exactly one drive, or the whole-second start of exactly one drive of the retired grouping that meets
exactly one current drive. -/
def resolveGroupIndex (o : BucketOrder) (summaries : List RouteSummary)
    (groups : List (List SubClip)) (id : DriveId) (exactLegacyMembership : Bool) : Option Nat :=
  match id with
  | .index n => if n < groups.length then some n else none
  | .start ms =>
    match positions (fun g => decide (groupStart g = some ms)) groups with
    | [i] => some i
    | _ => none
  | .legacyStart sec =>
    let legacy := groupSummaryClipsWithClock legacyClock o summaries
    match legacy.filter fun g => (groupStart g).any fun ts => decide (ts / 1000 = sec) with
    | [old] =>
      match positions (fun g => g.any fun new => old.any fun c => c.overlaps new) groups with
      | [i] =>
        let new := (groups[i]?).getD []
        if exactLegacyMembership && !(decide (old.length = new.length)
          && (old.zip new).all fun ab => ab.1.sameWindow ab.2) then none
        else some i
      | _ => none
    | _ => none
  | .other => none

/-- A resolved drive: its position, files, clip spans by file and start time (`DriveSelection`). -/
structure DriveSelection where
  index : Nat
  files : List Text
  clipSpansMs : Text → Option Int
  startTime : Option Int

/-- Clip spans of a drive by file; a file inserted again keeps the later value. -/
def groupSpans (g : List SubClip) (file : Text) : Option Int :=
  ((g.filter fun c => c.summary.file = file).getLast?).map SubClip.clipSpanMs

/-- Resolve an id to its drive (`resolve_drive_selection`). -/
def resolveDriveSelection (o : BucketOrder) (summaries : List RouteSummary) (id : DriveId) :
    Option DriveSelection :=
  let groups := groupSummaryClips o summaries
  (resolveGroupIndex o summaries groups id false).bind fun i =>
    (groups[i]?).map fun g => ⟨i, groupFiles g, groupSpans g, groupStart g⟩

/-! ## Rebuilding a drive -/

/-- Overlay the list's clip spans; a missing or out-of-range span abandons the build. -/
def overlaySpans (spans : Text → Option Int) (timed : List (Timed Route)) :
    Option (List (Timed Route)) :=
  timed.mapM fun t => (spans t.row.file).bind fun span =>
    if 1 ≤ span ∧ span ≤ clipDurationMs then some { t with clipSpanMs := span } else none

/-- Start time of a group of timed rows. -/
def timedStart (g : List (Timed Route)) : Option Int := g.head?.map Timed.timestamp

/-- The group of a list that starts nearest a time, the earlier one on a tie. -/
def nearestStart (t : Int) (groups : List (List (Timed Route))) : Option (List (Timed Route)) :=
  groups.foldl (fun best g => match best with
    | none => some g
    | some b =>
      if (((timedStart g).getD 0) - t).natAbs < (((timedStart b).getD 0) - t).natAbs then some g
      else some b) none

/-- The clips of one drive rebuilt from whole rows known to belong to it
(`build_single_drive_from_clips_with_spans`). With the list's spans the sub-drive must start exactly
at the target; without them the nearest start wins. -/
def buildSingleDriveFromClipsWithSpans (routes : List Route) (target : Option Int)
    (spans : Option (Text → Option Int)) : Option (List (Timed Route)) :=
  let timed := clipSpans (sortByTime (stamp (routes.map routeEntry)))
  if timed.isEmpty then none
  else match spans with
    | some spans => (overlaySpans spans timed).bind fun timed =>
      target.bind fun t => (splitByGearState timed).find? fun g => decide (timedStart g = some t)
    | none =>
      let subDrives := splitByGearState timed
      match subDrives, target with
      | [g], _ => some g
      | gs, some t => nearestStart t gs
      | gs, none => gs.head?

/-- The summary row of a full row; `agg` stands for the stored aggregate columns. -/
def summaryOf (agg : Route → Float × List UInt8) (r : Route) : RouteSummary :=
  { file := r.file, rawParkCount := r.rawParkCount, rawFrameCount := r.rawFrameCount,
    gearRuns := r.gearRuns, source := r.source, externalSignature := r.externalSignature,
    maxSpeedMps := (agg r).1, columns := (agg r).2 }

/-- Whether the full-row splitter, given these rows, keeps the row `r`: among rows with gear runs it
drops a row that has runs but no points, among rows without it drops one that its counters or gear
states call parked. -/
def keptBySplitter (fetched : List Route) (r : Route) : Bool :=
  if fetched.all fun r => r.gearRuns.isEmpty then
    decide (fetched.length ≤ 1) || (fetched.all fun r => r.gearStates.isEmpty)
      || !clipIsMostlyParkedLegacy r
  else r.gearRuns.isEmpty || !r.points.isEmpty

/-! ## Events of a clip in the two splitters -/

/-- Merged segments alternate: two driving ones never stand side by side. -/
theorem mergeSegs_isChain (last : FrameSeg) (segs : List FrameSeg) :
    (mergeSegs last segs).IsChain (fun a b => a.parked = true ∨ b.parked = true)
      ∧ (mergeSegs last segs).head?.map FrameSeg.start = some last.start
      ∧ (mergeSegs last segs).head?.map FrameSeg.parked = some last.parked := by
  induction segs generalizing last with
  | nil => simp [mergeSegs]
  | cons seg segs ih =>
    unfold mergeSegs
    split
    · exact ih _
    · next hsplit =>
        obtain ⟨hchain, -, hpark⟩ := ih seg
        refine ⟨?_, rfl, rfl⟩
        cases hm : mergeSegs seg segs with
        | nil => simp
        | cons b l =>
          rw [hm] at hchain hpark
          refine List.isChain_cons_cons.mpr ⟨?_, hchain⟩
          have hb : b.parked = seg.parked := by simpa using hpark
          cases hl : last.parked <;> cases hs : seg.parked <;> simp_all

theorem clipSegs_isChain (clock : Clock) (runs : List GearRun) (spanMs : Int) :
    (clipSegs clock runs spanMs).IsChain fun a b => a.parked = true ∨ b.parked = true := by
  unfold clipSegs
  split
  · exact List.IsChain.nil
  · exact (mergeSegs_isChain _ _).1

/-- The first segment of a clip starts at its first frame. -/
theorem clipSegs_head_start (clock : Clock) (runs : List GearRun) (spanMs : Int) {seg : FrameSeg}
    (h : (clipSegs clock runs spanMs).head? = some seg) : seg.start = 0 := by
  unfold clipSegs at h
  cases runs with
  | nil => simp [rawSegs] at h
  | cons r rs =>
    simp only [rawSegs] at h
    have hstart := (mergeSegs_isChain ⟨0, (0 + r.frames) % u32Size, decide (r.gear = gearPark)
      && clock.parkGap r.frames (frameSum (r :: rs)) spanMs⟩ (rawSegs (fun r' =>
        decide (r'.gear = gearPark) && clock.parkGap r'.frames (frameSum (r :: rs)) spanMs)
        ((0 + r.frames) % u32Size) rs)).2.1
    rw [h] at hstart
    simpa using hstart

/-- Two driving windows of one clip never stand side by side. -/
theorem summaryEvents_isChain (clock : Clock) (t : Timed RouteSummary) :
    (summaryEvents clock t).IsChain fun a b => a = none ∨ b = none := by
  rcases summaryEvents_cases clock t with ⟨-, he⟩ | ⟨-, he⟩ | ⟨-, -, he⟩ | ⟨-, -, he⟩
  · simp [he]
  · simp [he]
  · simp [he]
  · rw [he, List.isChain_map]
    refine (clipSegs_isChain clock t.row.gearRuns t.clipSpanMs).imp fun a b hab => ?_
    rcases hab with h | h
    · exact Or.inl (by simp [h])
    · exact Or.inr (by simp [h])

section Events

variable {agg : Route → Float × List UInt8} {t : Timed Route} {c : SubClip}

/-- The events a full row has in the list's splitter. -/
def listEvents (agg : Route → Float × List UInt8) (t : Timed Route) : List (Option SubClip) :=
  summaryEvents actualClock (t.map (summaryOf agg))

theorem gearRuns_ne_nil_of_frameSum {runs : List GearRun} (h : frameSum runs ≠ 0) :
    runs.isEmpty = false := by
  cases runs with
  | nil => simp [frameSum] at h
  | cons r rs => rfl

/-- A row with gear runs but without points has no piece to show. -/
theorem gearEvents_of_no_points (hruns : t.row.gearRuns.isEmpty = false) (hpts : t.row.points = []) :
    (gearEvents t).filterMap id = [] := by
  rw [List.filterMap_eq_nil_iff]
  intro e he
  unfold gearEvents at he
  rw [hruns] at he
  obtain ⟨hmem, hall⟩ := List.mem_filter.mp he
  cases e with
  | none => rfl
  | some piece =>
    exfalso
    unfold splitClipAtParkGaps at hmem
    split at hmem
    · obtain rfl := Option.some.inj (List.mem_singleton.mp hmem)
      simp [hpts] at hall
    · next plan hplan =>
        obtain ⟨seg, hseg, heq⟩ := List.mem_map.mp hmem
        cases hp : seg.parked with
        | true => simp [fragment, hp] at heq
        | false =>
          have := range_of_mem_planClipAtParkGaps hplan hseg hp
          simp only [hpts, List.length_nil] at this
          omega

/-- A row with points that stays whole is one event. -/
theorem gearEvents_whole (hpts : t.row.points ≠ [])
    (hplan : planClipAtParkGaps t.row.gearRuns t.row.points.length t.clipSpanMs = none) :
    gearEvents t = [some t] := by
  unfold gearEvents splitClipAtParkGaps
  rw [hplan]
  split
  · rfl
  · simp [hpts]

/-- A row with points that is cut at Park gaps has a piece for every driving segment, at the time of
its first frame. -/
theorem gearEvents_pieces (hpts : t.row.points ≠ []) (hsum : frameSum t.row.gearRuns ≠ 0)
    (hany : (clipSegs actualClock t.row.gearRuns t.clipSpanMs).any FrameSeg.parked = true) :
    ∃ piece : FrameSeg → Timed Route,
      (∀ seg, (piece seg).timestamp
        = t.timestamp + frameOffsetMs seg.start (frameSum t.row.gearRuns) t.clipSpanMs)
      ∧ gearEvents t = (clipSegs actualClock t.row.gearRuns t.clipSpanMs).map fun seg =>
        if seg.parked then none else some (piece seg) := by
  set total := frameSum t.row.gearRuns with htotal
  set n := t.row.points.length with hn
  have hn0 : 0 < n := List.length_pos_iff.mpr hpts
  have hplan : planClipAtParkGaps t.row.gearRuns n t.clipSpanMs
      = some ((clipSegs actualClock t.row.gearRuns t.clipSpanMs).filterMap
        (planSeg total n t.clipSpanMs)) := by
    simp [planClipAtParkGaps, ← htotal, hsum, hany]
  refine ⟨fun seg =>
    let range := (segRange seg total n).getD (0, 0)
    ⟨t.row.slice range.1 range.2, t.timestamp + frameOffsetMs seg.start total t.clipSpanMs,
      frameSpanMs seg.start seg.stop total t.clipSpanMs⟩, fun seg => rfl, ?_⟩
  have hruns := gearRuns_ne_nil_of_frameSum hsum
  have hevents : gearEvents t = ((clipSegs actualClock t.row.gearRuns t.clipSpanMs).filterMap
      (planSeg total n t.clipSpanMs)).map (fragment t) := by
    unfold gearEvents splitClipAtParkGaps
    rw [hruns, ← hn, hplan]
    exact fragment_nonempty (hn ▸ hplan)
  rw [hevents, List.map_filterMap, ← List.filterMap_eq_map]
  refine List.filterMap_congr fun seg _ => ?_
  cases hp : seg.parked with
  | true => simp [planSeg, hp, fragment]
  | false =>
    obtain ⟨range, hrange⟩ := Option.isSome_iff_exists.mp
      (clampRange_isSome (a := pointIndex seg.start total n) (b := pointIndex seg.stop total n) hn0)
    have hrange' : segRange seg total n = some range := hrange
    simp [planSeg, hp, fragment, hrange']

/-- **An opening sub-clip starts with its clip**, and so does the first piece the full-row splitter
takes from the row. -/
theorem gearEvents_opens (h : Opens (listEvents agg) t c) :
    c.timestamp = t.timestamp
      ∧ (∀ x ∈ ((gearEvents t).filterMap id).head?, x.timestamp = t.timestamp)
      ∧ ((t.row.gearRuns.isEmpty || !t.row.points.isEmpty) = true →
        (gearEvents t).filterMap id ≠ []) := by
  have hone : ∀ {x : Timed Route}, x.timestamp = t.timestamp → gearEvents t = [some x] →
      (∀ x ∈ ((gearEvents t).filterMap id).head?, x.timestamp = t.timestamp)
        ∧ ((t.row.gearRuns.isEmpty || !t.row.points.isEmpty) = true →
          (gearEvents t).filterMap id ≠ []) := by
    intro x hx he
    rw [he]
    exact ⟨by simp [hx], by simp⟩
  have hmissing : t.row.gearRuns.isEmpty = false → t.row.points = [] →
      (∀ x ∈ ((gearEvents t).filterMap id).head?, x.timestamp = t.timestamp)
        ∧ ((t.row.gearRuns.isEmpty || !t.row.points.isEmpty) = true →
          (gearEvents t).filterMap id ≠ []) := by
    intro hruns hpts
    rw [gearEvents_of_no_points hruns hpts]
    exact ⟨by simp, by simp [hruns, hpts]⟩
  have hwhole : planClipAtParkGaps t.row.gearRuns t.row.points.length t.clipSpanMs = none →
      (∀ x ∈ ((gearEvents t).filterMap id).head?, x.timestamp = t.timestamp)
        ∧ ((t.row.gearRuns.isEmpty || !t.row.points.isEmpty) = true →
          (gearEvents t).filterMap id ≠ []) := by
    intro hplan
    cases hruns : t.row.gearRuns.isEmpty with
    | true => simpa [hruns] using hone rfl (by simp [gearEvents, hruns])
    | false =>
      by_cases hpts : t.row.points = []
      · simpa [hruns] using hmissing hruns hpts
      · simpa [hruns] using hone rfl (gearEvents_whole hpts hplan)
  unfold Opens listEvents at h
  rcases summaryEvents_cases actualClock (t.map (summaryOf agg)) with
    ⟨hsum, he⟩ | ⟨-, he⟩ | ⟨hsum, hany, he⟩ | ⟨hsum, hany, he⟩
  · obtain rfl : SubClip.whole (t.map (summaryOf agg)) = c := by simpa [he] using h
    exact ⟨rfl, hwhole (if_pos hsum)⟩
  · simp [he] at h
  · rw [he] at h
    obtain rfl := Option.some.inj (Option.some.inj h)
    refine ⟨rfl, hwhole ?_⟩
    change frameSum t.row.gearRuns ≠ 0 at hsum
    change (clipSegs actualClock t.row.gearRuns t.clipSpanMs).any FrameSeg.parked = false at hany
    simp [planClipAtParkGaps, hsum, hany]
  · change frameSum t.row.gearRuns ≠ 0 at hsum
    change (clipSegs actualClock t.row.gearRuns t.clipSpanMs).any FrameSeg.parked = true at hany
    rw [he, List.head?_map] at h
    obtain ⟨seg, hseg, hev⟩ := Option.map_eq_some_iff.mp h
    have hstart := clipSegs_head_start _ _ _ hseg
    cases hp : seg.parked with
    | true => simp [hp] at hev
    | false =>
      obtain rfl : SubClip.window actualClock (t.map (summaryOf agg)) seg = c := by
        simpa [hp] using hev
      refine ⟨by simp [SubClip.window, actualClock, hstart, Timed.map], ?_⟩
      by_cases hpts : t.row.points = []
      · exact hmissing (gearRuns_ne_nil_of_frameSum hsum) hpts
      · obtain ⟨piece, hpiece, hevents⟩ := gearEvents_pieces hpts hsum hany
        obtain ⟨segs, hsegs⟩ := List.head?_eq_some_iff.mp hseg
        change clipSegs actualClock t.row.gearRuns t.clipSpanMs = seg :: segs at hsegs
        rw [hevents, hsegs]
        exact ⟨by simp [hp, hpiece, hstart], by simp [hp]⟩

/-- **A sub-clip that resumes inside its clip** follows a Park boundary in the full-row splitter
too, at the same time. -/
theorem gearEvents_resumes (h : Resumes (listEvents agg) t c) :
    t.row.gearRuns.isEmpty = false ∧ (t.row.points ≠ [] →
      ∃ pre post piece, gearEvents t = pre ++ none :: some piece :: post
        ∧ piece.timestamp = c.timestamp) := by
  obtain ⟨pre, post, hev⟩ := h
  unfold listEvents at hev
  rcases summaryEvents_cases actualClock (t.map (summaryOf agg)) with
    ⟨-, he⟩ | ⟨-, he⟩ | ⟨-, -, he⟩ | ⟨hsum, hany, he⟩
  · simp [he, List.singleton_eq_append_iff] at hev
  · simp [he, List.singleton_eq_append_iff] at hev
  · simp [he, List.singleton_eq_append_iff] at hev
  · change frameSum t.row.gearRuns ≠ 0 at hsum
    change (clipSegs actualClock t.row.gearRuns t.clipSpanMs).any FrameSeg.parked = true at hany
    refine ⟨gearRuns_ne_nil_of_frameSum hsum, fun hpts => ?_⟩
    obtain ⟨piece, hpiece, hevents⟩ := gearEvents_pieces hpts hsum hany
    rw [he] at hev
    obtain ⟨m₁, m₂, hm, -, hm₂⟩ := List.map_eq_append_iff.mp hev
    obtain ⟨a, m₃, rfl, ha, hm₃⟩ := List.map_eq_cons_iff.mp hm₂
    obtain ⟨b, m₄, rfl, hb, -⟩ := List.map_eq_cons_iff.mp hm₃
    change clipSegs actualClock t.row.gearRuns t.clipSpanMs = m₁ ++ a :: b :: m₄ at hm
    have hpa : a.parked = true := by
      cases hp : a.parked with
      | true => rfl
      | false => simp [hp] at ha
    cases hpb : b.parked with
    | true => simp [hpb] at hb
    | false =>
      obtain rfl : SubClip.window actualClock (t.map (summaryOf agg)) b = c := by
        simpa [hpb] using hb
      have hsplit : (m₁ ++ a :: b :: m₄).map (fun seg => if seg.parked then none else some (piece seg))
          = m₁.map (fun seg => if seg.parked then none else some (piece seg))
            ++ none :: some (piece b)
            :: m₄.map fun seg => if seg.parked then none else some (piece seg) := by
        simp [hpa, hpb]
      rw [hevents, hm]
      exact ⟨_, _, piece b, hsplit, hpiece b⟩

end Events

/-! ## The shape of a drive -/

section Shape

variable {agg : Route → Float × List UInt8}

/-- An item of a clip's events comes from that clip. -/
theorem subClipOf_of_mem_listEvents {t : Timed Route} {c : SubClip}
    (h : Opens (listEvents agg) t c ∨ Resumes (listEvents agg) t c) :
    c.summary = summaryOf agg t.row ∧ c.clipSpanMs = t.clipSpanMs := by
  have hmem : some c ∈ summaryEvents actualClock (t.map (summaryOf agg)) := by
    rcases h with h | ⟨pre, post, h⟩
    · exact List.mem_of_mem_head? h
    · change some c ∈ listEvents agg t
      rw [h]
      simp
  have hof := mem_summaryEvents hmem
  exact ⟨hof.row_eq, hof.span_eq⟩

/-- The gear groups of a time group have the shape of a stream of clips. -/
theorem groupShape_of_mem_splitSummary {tg : List (Timed Route)} {g : List SubClip}
    (hg : g ∈ splitSummaryByGearState actualClock (tg.map (Timed.map (summaryOf agg)))) :
    GroupShape (listEvents agg) tg g := by
  unfold splitSummaryByGearState at hg
  split at hg
  · simp at hg
  · next hne =>
      split at hg
      · -- no gear runs: every clip is one whole event in the list's splitter
        next hall =>
          have hopen : ∀ t ∈ tg, Opens (listEvents agg) t (SubClip.whole (t.map (summaryOf agg))) := by
            intro t ht
            have hruns : (t.map (summaryOf agg)).row.gearRuns.isEmpty = true :=
              List.all_eq_true.mp hall _ (List.mem_map_of_mem ht)
            have hsum : frameSum (t.map (summaryOf agg)).row.gearRuns = 0 := by
              rw [List.isEmpty_iff.mp hruns]
              rfl
            simp [Opens, listEvents, summaryEvents, hsum]
          unfold splitSummaryByGearStateLegacy at hg
          split at hg
          · next hlen =>
              obtain rfl := List.mem_singleton.mp hg
              rcases tg with _ | ⟨t, _ | ⟨u, tg⟩⟩
              · simp at hne
              · exact ⟨t, _, [], rfl, List.Sublist.refl _, Or.inl (hopen t (by simp)), by simp⟩
              · simp at hlen
          · let ev : Timed Route → List (Option SubClip) := fun t =>
              [if rawMostlyPark t.row.rawParkCount t.row.rawFrameCount then none
                else some (SubClip.whole (t.map (summaryOf agg)))]
            have hstream : (tg.map (Timed.map (summaryOf agg))).map (fun t =>
                if rawMostlyPark t.row.rawParkCount t.row.rawFrameCount then none
                else some (SubClip.whole t)) = tg.flatMap ev := by
              rw [List.map_map, ← List.flatMap_pure_eq_map]
              rfl
            rw [hstream] at hg
            have hshape := groupShape_of_mem_cut (fun t _ => by simp [ev]) hg
            refine hshape.imp (fun t ht c hc => ?_) fun t ht c hc => ?_
            · have hc' : (if rawMostlyPark t.row.rawParkCount t.row.rawFrameCount then none
                  else some (SubClip.whole (t.map (summaryOf agg)))) = some c := by
                simpa [Opens, ev] using hc
              split at hc'
              · simp at hc'
              · obtain rfl := Option.some.inj hc'
                exact hopen t ht
            · obtain ⟨pre, post, hres⟩ := hc
              have := congrArg List.length hres
              simp [ev] at this
              omega
      · have hstream : (tg.map (Timed.map (summaryOf agg))).flatMap (summaryEvents actualClock)
            = tg.flatMap (listEvents agg) := List.flatMap_map _ _ _
        rw [hstream] at hg
        exact groupShape_of_mem_cut (fun t _ => summaryEvents_isChain actualClock _) hg

/-- What the list's timeline reads of a full row. -/
def listEntry (agg : Route → Float × List UInt8) (r : Route) : ClipEntry Route :=
  { row := r, file := r.file, driving := summaryHasDriving (summaryOf agg r),
    gearDriving := telemetryGearDriving r.gearRuns [],
    native := boundsClipSpan r.source r.file }

/-- **Every drive of the list is a shape over one of its time groups.** -/
theorem exists_driveShape {o : BucketOrder} {routes : List Route} {drive : List SubClip}
    (h : drive ∈ groupSummaryClips o (routes.map (summaryOf agg))) :
    ∃ tg ∈ timeGroups (routes.map (listEntry agg)), GroupShape (listEvents agg) tg drive := by
  have hentries : (routes.map (summaryOf agg)).map summaryEntry
      = (routes.map (listEntry agg)).map (ClipEntry.map (summaryOf agg)) := by
    rw [List.map_map, List.map_map]
    rfl
  obtain ⟨g, hg, hd⟩ := List.mem_flatMap.mp h
  have hne := ne_nil_of_mem_gearGroups hg
  obtain ⟨tg', htg', hsplit⟩ := List.mem_flatMap.mp hg
  rw [hentries, timeGroups_map] at htg'
  obtain ⟨tg, htg, rfl⟩ := List.mem_map.mp htg'
  obtain ⟨hdne, p, rfl⟩ := exists_filter_of_mem_split hne hd
  exact ⟨tg, htg, (groupShape_of_mem_splitSummary hsplit).filter p hdne⟩

end Shape

/-! ## The rebuilt drive -/

section Rebuild

variable {agg : Route → Float × List UInt8} {clips : List (Timed Route)} {t₁ : Timed Route}
  {c₁ : SubClip} {T : Int}

/-- If the first item of every block up to the one of `t₁` carries time `T`, and the block of `t₁`
has one, then some group of the stream starts at `T`. -/
theorem exists_group_at {ev : Timed Route → List (Option (Timed Route))} (hmem : t₁ ∈ clips)
    (hbefore : ∀ pre post, clips = pre ++ t₁ :: post → ∀ e ∈ pre,
      ∀ x ∈ ((ev e).filterMap id).head?, x.timestamp = T)
    (hhead : ∀ x ∈ ((ev t₁).filterMap id).head?, x.timestamp = T)
    (hne : (ev t₁).filterMap id ≠ []) :
    ∃ g ∈ cut (clips.flatMap ev), timedStart g = some T := by
  obtain ⟨pre, post, rfl⟩ := List.append_of_mem hmem
  replace hbefore := hbefore pre post rfl
  have hfirst : ∃ x xs, ((pre ++ t₁ :: post).flatMap ev).filterMap id = x :: xs
      ∧ x.timestamp = T := by
    clear hmem
    induction pre with
    | nil =>
      obtain ⟨x, xs, hx⟩ := List.exists_cons_of_ne_nil hne
      refine ⟨x, xs ++ (post.flatMap ev).filterMap id, ?_, hhead x (by rw [hx]; rfl)⟩
      rw [List.nil_append, List.flatMap_cons, List.filterMap_append, hx]
      rfl
    | cons e pre ih =>
      obtain ⟨x, xs, hx, hT⟩ := ih fun e' he' => hbefore e' (List.mem_cons_of_mem e he')
      rw [List.cons_append, List.flatMap_cons, List.filterMap_append, hx]
      cases he : (ev e).filterMap id with
      | nil => exact ⟨x, xs, rfl, hT⟩
      | cons y ys => exact ⟨y, _, rfl, hbefore e (by simp) y (by rw [he]; rfl)⟩
  obtain ⟨x, xs, hx, hT⟩ := hfirst
  obtain ⟨g, hg, hhead⟩ := exists_head_cut hx
  exact ⟨g, hg, by simp [timedStart, hhead, hT]⟩

/-- Clips before `t₁` in a sorted list of clips that do not precede it start with it. -/
theorem timestamp_eq_of_sorted (hsorted : clips.Pairwise fun a b => a.timestamp ≤ b.timestamp)
    (hmin : ∀ e ∈ clips, t₁.timestamp ≤ e.timestamp) {pre post : List (Timed Route)}
    (h : clips = pre ++ t₁ :: post) {e : Timed Route} (he : e ∈ pre) :
    e.timestamp = t₁.timestamp := by
  subst h
  refine le_antisymm ?_ (hmin e (by simp [he]))
  exact (List.pairwise_append.mp hsorted).2.2 e he t₁ (by simp)

/-- **The full-row splitter starts a sub-drive where the list's drive starts.** -/
theorem exists_subDrive (hmem : t₁ ∈ clips)
    (hsorted : clips.Pairwise fun a b => a.timestamp ≤ b.timestamp)
    (hmin : ∀ e ∈ clips, t₁.timestamp ≤ e.timestamp)
    (hstart : Opens (listEvents agg) t₁ c₁ ∨ Resumes (listEvents agg) t₁ c₁)
    (hopens : ∀ e ∈ clips, e = t₁ ∨ ∃ c, Opens (listEvents agg) e c)
    (hkept : keptBySplitter (clips.map Timed.row) t₁.row = true) :
    ∃ g ∈ splitByGearState clips, timedStart g = some c₁.timestamp := by
  have hne : clips ≠ [] := List.ne_nil_of_mem hmem
  have hallrow : ∀ p : Route → Bool, (clips.map Timed.row).all p = clips.all fun t => p t.row :=
    fun p => List.all_map
  unfold keptBySplitter at hkept
  rw [hallrow, hallrow, List.length_map] at hkept
  unfold splitByGearState
  rw [if_neg (by simpa using hne)]
  by_cases hruns : (clips.all fun t => t.row.gearRuns.isEmpty) = true
  · -- no gear runs among these clips: the drive starts with a whole clip
    rw [if_pos hruns] at hkept ⊢
    have hlead : Opens (listEvents agg) t₁ c₁ := by
      rcases hstart with h | h
      · exact h
      · have h1 := (gearEvents_resumes h).1
        have h2 := List.all_eq_true.mp hruns t₁ hmem
        simp [h1] at h2
    rw [(gearEvents_opens hlead).1]
    have hwhole : ∃ g ∈ [clips], timedStart g = some t₁.timestamp := by
      obtain ⟨e, rest, hcons⟩ := List.exists_cons_of_ne_nil hne
      refine ⟨clips, by simp, ?_⟩
      have hle : e.timestamp ≤ t₁.timestamp := by
        rw [hcons] at hmem hsorted
        rcases List.mem_cons.mp hmem with rfl | hmem
        · exact le_refl _
        · exact (List.pairwise_cons.mp hsorted).1 t₁ hmem
      have hge := hmin e (by simp [hcons])
      simp only [timedStart, hcons, List.head?_cons, Option.map_some]
      exact congrArg some (le_antisymm hle hge)
    unfold splitByGearStateLegacy
    by_cases hlen : clips.length ≤ 1
    · rw [if_pos hlen]
      exact hwhole
    · rw [if_neg hlen]
      by_cases hstates : (clips.all fun t => t.row.gearStates.isEmpty) = true
      · rw [if_pos hstates]
        exact hwhole
      · rw [if_neg hstates]
        have hpark : clipIsMostlyParkedLegacy t₁.row = false := by simpa [hlen, hstates] using hkept
        have hstream : (clips.map fun t => if clipIsMostlyParkedLegacy t.row then none else some t)
            = clips.flatMap fun t => [if clipIsMostlyParkedLegacy t.row then none else some t] := by
          rw [← List.flatMap_pure_eq_map]
          rfl
        rw [hstream]
        refine exists_group_at hmem (fun pre post h e he x hx => ?_) ?_ ?_
        · cases hp : clipIsMostlyParkedLegacy e.row with
          | true => simp [hp] at hx
          | false =>
            obtain rfl : e = x := by simpa [hp] using hx
            exact timestamp_eq_of_sorted hsorted hmin h he
        · simp [hpark]
        · simp [hpark]
  · rw [if_neg hruns] at hkept ⊢
    have hgroup : ∃ g ∈ cut (clips.flatMap gearEvents), timedStart g = some c₁.timestamp := by
      rcases hstart with hlead | hres
      · obtain ⟨hts, hhead, hne'⟩ := gearEvents_opens hlead
        rw [hts]
        refine exists_group_at hmem (fun pre post h e he x hx => ?_) hhead (hne' hkept)
        have hete := timestamp_eq_of_sorted hsorted hmin h he
        rcases hopens e (by simp [h, he]) with rfl | ⟨c, hc⟩
        · exact hhead x hx
        · rw [(gearEvents_opens hc).2.1 x hx, hete]
      · obtain ⟨hr, hpieces⟩ := gearEvents_resumes hres
        obtain ⟨pre, post, piece, hev, hts⟩ := hpieces (by simpa [hr] using hkept)
        obtain ⟨l, r, rfl⟩ := List.append_of_mem hmem
        have hstream : (l ++ t₁ :: r).flatMap gearEvents
            = (l.flatMap gearEvents ++ pre) ++ none :: some piece :: (post ++ r.flatMap gearEvents) := by
          simp [hev]
        obtain ⟨g, hg, hhead⟩ := exists_head_cutFrom_of_marker []
          (l.flatMap gearEvents ++ pre) (post ++ r.flatMap gearEvents) piece
        refine ⟨g, ?_, by simp [timedStart, hhead, hts]⟩
        rw [cut, hstream]
        exact hg
    obtain ⟨g, hg, hstart⟩ := hgroup
    have hres : (cut (clips.flatMap gearEvents)).isEmpty = false := by
      cases hc : cut (clips.flatMap gearEvents) with
      | nil => simp [hc] at hg
      | cons a l => rfl
    simp only [hres, Bool.false_eq_true, if_false]
    exact ⟨g, hg, hstart⟩

end Rebuild

/-! ## List and detail agree -/

section Agreement

variable {agg : Route → Float × List UInt8} {o : BucketOrder} {routes fetched : List Route}
  {drive : List SubClip}

theorem mem_groupFiles {g : List SubClip} {f : Text} :
    f ∈ groupFiles g ↔ ∃ c ∈ g, c.summary.file = f := by
  simp [groupFiles]

/-- Positions of a test that exactly one element passes. -/
theorem positions_eq_singleton {α : Type*} {p : α → Bool} {l : List α} {i : Nat} {a : α}
    (ha : l[i]? = some a) (hp : p a = true)
    (huniq : ∀ j b, l[j]? = some b → p b = true → j = i) : positions p l = [i] := by
  have hnodup : (positions p l).Nodup := by
    have : (l.zipIdx.map Prod.snd).Nodup := by
      rw [List.zipIdx_map_snd]
      exact List.nodup_range'
    exact this.sublist (List.filter_sublist.map Prod.snd)
  have hmem : ∀ j, j ∈ positions p l ↔ j = i := by
    intro j
    simp only [positions, List.mem_map, List.mem_filter]
    constructor
    · rintro ⟨⟨b, k⟩, ⟨hbk, hpb⟩, rfl⟩
      exact huniq k b (List.mem_zipIdx_iff_getElem?.mp hbk) hpb
    · rintro rfl
      exact ⟨(a, j), ⟨List.mem_zipIdx_iff_getElem?.mpr ha, hp⟩, rfl⟩
  match hl : positions p l with
  | [] => simpa [hl] using (hmem i).mpr rfl
  | [j] => rw [hl] at hmem; simpa using hmem j
  | j :: k :: rest =>
    have hj := (hmem j).mp (by simp [hl])
    have hk := (hmem k).mp (by simp [hl])
    rw [hl] at hnodup
    simp [hj, hk] at hnodup

/-- A partial map that succeeds on every element is a map. -/
theorem mapM_eq_some_map {α β : Type*} {f : α → Option β} {g : α → β} {l : List α}
    (h : ∀ a ∈ l, f a = some (g a)) : l.mapM f = some (l.map g) := by
  induction l with
  | nil => rfl
  | cons a l ih =>
    rw [List.mapM_cons, h a (by simp), ih fun b hb => h b (List.mem_cons_of_mem a hb)]
    rfl

/-- The clips of a drive as they are fetched again: the rows of its files, on the list's timeline. -/
structure Refetched (agg : Route → Float × List UInt8) (drive : List SubClip)
    (fetched : List Route) (pairs : List (Timed Route × SubClip)) : Prop where
  drive_eq : drive = pairs.map Prod.snd
  summary : ∀ p ∈ pairs, p.2.summary = summaryOf agg p.1.row ∧ p.2.clipSpanMs = p.1.clipSpanMs
  placed : ∀ p ∈ pairs, parseClipTimestamp p.1.row.file = some p.1.timestamp ∧ 0 < p.1.clipSpanMs
    ∧ p.1.clipSpanMs ≤ clipDurationMs
  distinct : ∀ p ∈ pairs, ∀ q ∈ pairs, p.1.row.file = q.1.row.file → p.1 = q.1
  row_mem : ∀ p ∈ pairs, p.1.row ∈ fetched
  of_mem : ∀ r ∈ fetched, ∃ p ∈ pairs, p.1.row = r

/-- The span the list recorded for a file of the drive. -/
theorem Refetched.groupSpans_eq {pairs : List (Timed Route × SubClip)}
    (h : Refetched agg drive fetched pairs) {p : Timed Route × SubClip} (hp : p ∈ pairs) :
    groupSpans drive p.1.row.file = some p.1.clipSpanMs := by
  have hfile : ∀ q ∈ pairs, q.2.summary.file = q.1.row.file := fun q hq => by
    rw [(h.summary q hq).1]
    rfl
  have hne : (drive.filter fun c => c.summary.file = p.1.row.file) ≠ [] := by
    refine List.ne_nil_of_mem (a := p.2) (List.mem_filter.mpr ⟨?_, by simpa using hfile p hp⟩)
    rw [h.drive_eq]
    exact List.mem_map_of_mem hp
  obtain ⟨c, hc⟩ : ∃ c, (drive.filter fun c => c.summary.file = p.1.row.file).getLast? = some c :=
    ⟨_, List.getLast?_eq_some_getLast hne⟩
  obtain ⟨hmem, hcf⟩ := List.mem_filter.mp (List.mem_of_getLast? hc)
  rw [h.drive_eq] at hmem
  obtain ⟨q, hq, rfl⟩ := List.mem_map.mp hmem
  have hsame : q.1 = p.1 :=
    h.distinct q hq p hp (by rw [← hfile q hq]; simpa using hcf)
  simp [groupSpans, hc, (h.summary q hq).2, hsame]

/-- The fetched rows, overlaid with the list's spans, are the drive's clips in time order. -/
theorem Refetched.overlay {pairs : List (Timed Route × SubClip)}
    (h : Refetched agg drive fetched pairs) :
    ∃ clips, overlaySpans (groupSpans drive)
        (clipSpans (sortByTime (stamp (fetched.map routeEntry)))) = some clips
      ∧ (clips.map Timed.row).Perm fetched
      ∧ clips.Pairwise (fun a b => a.timestamp ≤ b.timestamp)
      ∧ ∀ e ∈ clips, ∃ p ∈ pairs, e = p.1 := by
  set stamped := sortByTime (stamp (fetched.map routeEntry)) with hstamped
  have hparse : ∀ r ∈ fetched, (parseClipTimestamp r.file).isSome = true := by
    intro r hr
    obtain ⟨p, hp, rfl⟩ := h.of_mem r hr
    simp [(h.placed p hp).1]
  have hrows : (stamped.map fun s => s.2.row).Perm fetched := by
    have hperm := (List.perm_insertionSort (fun a b : Stamped Route => a.1 ≤ b.1)
      (stamp (fetched.map routeEntry))).map fun s => s.2.row
    have hall : ∀ l : List Route, (∀ r ∈ l, (parseClipTimestamp r.file).isSome = true) →
        ((stamp (l.map routeEntry)).map fun s => s.2.row) = l := by
      intro l hl
      induction l with
      | nil => rfl
      | cons r l ih =>
        obtain ⟨ts, hts⟩ := Option.isSome_iff_exists.mp (hl r (by simp))
        have ih' := ih fun r' hr' => hl r' (List.mem_cons_of_mem r hr')
        have hcons : stamp ((r :: l).map routeEntry)
            = (ts, routeEntry r) :: stamp (l.map routeEntry) := by
          rw [List.map_cons, stamp, List.filterMap_cons]
          have hts' : parseClipTimestamp (routeEntry r).file = some ts := hts
          rw [hts']
          rfl
        rw [hcons, List.map_cons, ih']
        rfl
    rw [hall fetched hparse] at hperm
    exact hperm
  have hclip : ∀ b ∈ clipSpans stamped, ∃ p ∈ pairs,
      { b with clipSpanMs := (groupSpans drive b.row.file).getD 0 } = p.1 := by
    intro b hb
    obtain ⟨s, hs, hrow, hts, -⟩ := mem_clipSpans hb
    have hs' : s ∈ stamp (fetched.map routeEntry) := by
      rw [hstamped, mem_sortByTime] at hs
      exact hs
    obtain ⟨hentry, hparse'⟩ := mem_stamp.mp hs'
    obtain ⟨r, hr, hre⟩ := List.mem_map.mp hentry
    obtain ⟨p, hp, rfl⟩ := h.of_mem r hr
    refine ⟨p, hp, ?_⟩
    rw [← hre] at hrow hparse'
    change b.row = p.1.row at hrow
    have htime : some s.1 = some p.1.timestamp := hparse'.symm.trans (h.placed p hp).1
    obtain ⟨row, ts, span⟩ := b
    simp only at hrow hts ⊢
    subst hrow
    rw [h.groupSpans_eq hp, Option.getD_some, hts, Option.some.inj htime]
  refine ⟨(clipSpans stamped).map fun b =>
    { b with clipSpanMs := (groupSpans drive b.row.file).getD 0 }, ?_, ?_, ?_, ?_⟩
  · refine mapM_eq_some_map fun b hb => ?_
    obtain ⟨p, hp, hbp⟩ := hclip b hb
    have hrow : b.row = p.1.row := by rw [← hbp]
    obtain ⟨-, hpos, hle⟩ := h.placed p hp
    rw [hrow, h.groupSpans_eq hp, Option.bind_some, if_pos ⟨hpos, hle⟩, Option.getD_some]
  · rw [List.map_map]
    have hmap := map_row_clipSpans stamped
    change ((clipSpans stamped).map Timed.row).Perm fetched
    rw [hmap]
    exact hrows
  · rw [List.pairwise_map]
    have htimes : ((clipSpans stamped).map Timed.timestamp).Pairwise (· ≤ ·) := by
      rw [map_timestamp_clipSpans, List.pairwise_map]
      exact pairwise_sortByTime _
    exact List.pairwise_map.mp htimes
  · intro e he
    obtain ⟨b, hb, rfl⟩ := List.mem_map.mp he
    exact hclip b hb

/-- The drive of the list is refetched by its files. -/
theorem exists_refetched (hfiles : (routes.map Route.file).Nodup)
    (hdrive : drive ∈ groupSummaryClips o (routes.map (summaryOf agg)))
    (hfetched : fetched.Perm (routes.filter fun r => decide (r.file ∈ groupFiles drive))) :
    ∃ (t₁ : Timed Route) (c₁ : SubClip) (rest : List (Timed Route × SubClip)),
      Refetched agg drive fetched ((t₁, c₁) :: rest)
      ∧ (Opens (listEvents agg) t₁ c₁ ∨ Resumes (listEvents agg) t₁ c₁)
      ∧ (∀ p ∈ rest, Opens (listEvents agg) p.1 p.2)
      ∧ ∀ p ∈ (t₁, c₁) :: rest, t₁.timestamp ≤ p.1.timestamp := by
  obtain ⟨tg, htg, t₁, c₁, rest, hd, hsub, hstart, hrest⟩ := exists_driveShape hdrive
  have htimeline : ∀ p ∈ (t₁, c₁) :: rest, p.1 ∈ timeline (routes.map (listEntry agg)) := by
    intro p hp
    refine mem_timeline_of_mem_timeGroups htg (hsub.subset ?_)
    rw [← List.map_cons (f := Prod.fst) (a := (t₁, c₁))]
    exact List.mem_map_of_mem hp
  have hplaced : ∀ p ∈ (t₁, c₁) :: rest, p.1.row ∈ routes
      ∧ parseClipTimestamp p.1.row.file = some p.1.timestamp ∧ 0 < p.1.clipSpanMs
      ∧ p.1.clipSpanMs ≤ clipDurationMs := by
    intro p hp
    obtain ⟨c, hc, hrow, hparse, hspan⟩ := mem_timeline (htimeline p hp)
    obtain ⟨r, hr, rfl⟩ := List.mem_map.mp hc
    rw [hrow]
    exact ⟨hr, hparse, hspan⟩
  have hall : ∀ p ∈ (t₁, c₁) :: rest,
      Opens (listEvents agg) p.1 p.2 ∨ Resumes (listEvents agg) p.1 p.2 := by
    intro p hp
    rcases List.mem_cons.mp hp with rfl | hp
    · exact hstart
    · exact Or.inl (hrest p hp)
  have hsummary : ∀ p ∈ (t₁, c₁) :: rest,
      p.2.summary = summaryOf agg p.1.row ∧ p.2.clipSpanMs = p.1.clipSpanMs :=
    fun p hp => subClipOf_of_mem_listEvents (hall p hp)
  have hdrive_eq : drive = ((t₁, c₁) :: rest).map Prod.snd := by simpa using hd
  have hmemFiles : ∀ r : Route, r.file ∈ groupFiles drive
      ↔ ∃ p ∈ (t₁, c₁) :: rest, p.1.row.file = r.file := by
    intro r
    rw [mem_groupFiles, hdrive_eq]
    constructor
    · rintro ⟨c, hc, hcf⟩
      obtain ⟨p, hp, rfl⟩ := List.mem_map.mp hc
      exact ⟨p, hp, by rw [← hcf, (hsummary p hp).1]; rfl⟩
    · rintro ⟨p, hp, hpf⟩
      exact ⟨p.2, List.mem_map_of_mem hp, by rw [(hsummary p hp).1, ← hpf]; rfl⟩
  refine ⟨t₁, c₁, rest, ⟨hdrive_eq, hsummary, fun p hp => (hplaced p hp).2, ?_, ?_, ?_⟩, hstart,
    hrest, ?_⟩
  · intro p hp q hq hpq
    have hnodup : ((timeline (routes.map (listEntry agg))).map fun t => normSlashes t.row.file).Nodup :=
      nodup_timeline Route.file fun c hc => by
        obtain ⟨r, -, rfl⟩ := List.mem_map.mp hc
        rfl
    exact List.inj_on_of_nodup_map hnodup (htimeline p hp) (htimeline q hq) (by rw [hpq])
  · intro p hp
    rw [hfetched.mem_iff, List.mem_filter]
    exact ⟨(hplaced p hp).1, decide_eq_true ((hmemFiles p.1.row).mpr ⟨p, hp, rfl⟩)⟩
  · intro r hr
    rw [hfetched.mem_iff, List.mem_filter, decide_eq_true_eq] at hr
    obtain ⟨p, hp, hpf⟩ := (hmemFiles r).mp hr.2
    exact ⟨p, hp, List.inj_on_of_nodup_map hfiles (hplaced p hp).1 hr.1 hpf⟩
  · have hsorted : (t₁ :: rest.map Prod.fst).Pairwise fun a b => a.timestamp ≤ b.timestamp := by
      have htgs : tg.Pairwise fun a b => a.timestamp ≤ b.timestamp := by
        have hsubl : tg.Sublist (timeline (routes.map (listEntry agg))) := by
          rw [← flatten_timeGroups]
          exact List.sublist_flatten_of_mem htg
        exact (pairwise_timeline _).sublist hsubl
      exact htgs.sublist hsub
    intro p hp
    rcases List.mem_cons.mp hp with rfl | hp
    · exact le_refl _
    · exact (List.pairwise_cons.mp hsorted).1 p.1 (List.mem_map_of_mem hp)

/-- The drive page shows the drive: its start time resolves to it, and the drive rebuilt from the
fetched rows at the list's spans starts at the same time. -/
def DetailAgrees (agg : Route → Float × List UInt8) (o : BucketOrder) (routes : List Route)
    (i : Nat) (drive : List SubClip) (fetched : List Route) : Prop :=
  ∃ start sel detail, groupStart drive = some start
    ∧ resolveDriveSelection o (routes.map (summaryOf agg)) (.start start) = some sel
    ∧ sel.index = i ∧ sel.files = groupFiles drive
    ∧ buildSingleDriveFromClipsWithSpans fetched sel.startTime (some sel.clipSpansMs) = some detail
    ∧ timedStart detail = some start

/-- A minute clip without gear data or points. -/
def plainRoute (file : String) (signature : Option String) : Route :=
  { file := file.toList, points := [], gearStates := [], autopilotStates := [], speeds := [],
    accelPositions := [], accelX := [], accelY := [], rawParkCount := 0, rawFrameCount := 0,
    gearRuns := [], source := none, externalSignature := signature.map String.toList,
    columns := [] }

/-- Two imports stamped with the same time. -/
def twinImports : List Route :=
  [plainRoute "a/2025-01-01_10-00-00.mp4" (some "a"), plainRoute "b/2025-01-01_10-00-00.mp4" (some "b")]

end Agreement

end SentryUsb
