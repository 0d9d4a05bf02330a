import SentryUsb.Grouper.GapFill

/-! # The clip timeline and its time groups

Every grouping of the source starts the same way: drop repeated paths, set the event-folder clips
apart, sort the rest by clip time, admit the event clips that fill gaps, measure how long each clip
really lasted and cut where the recording paused for more than five minutes. `group_clips`,
`plan_overviews` and `group_summary_clips_with_clock` each spell this out over their own rows; here
it is written once over a `ClipEntry`, the facts about a row that the pipeline reads.

* **`timeGroups`** — the pipeline up to the five-minute cut;
* **`timeGroups_map`** — it is natural in the rows;
* **`timeGroups_void`** — an hour-long void cuts it in two;
* **`mem_timeline`**, **`nodup_timeline`** — every clip of the timeline is one of the rows, at its own
  clip time and with a span of at most a minute, and none is placed twice. -/

namespace SentryUsb

open Library

variable {ρ σ : Type*}

/-- What the pipeline reads of a row: its path, the driving verdicts gap-fill asks for, and whether
the clip can bound another one's span. -/
structure ClipEntry (ρ : Type*) where
  row : ρ
  file : Text
  driving : Bool
  gearDriving : Bool
  native : Bool

/-- A clip placed on the timeline, with its real wall-clock span (`TimedSummary`, `TimedRoute`,
`TimedMeta`). -/
structure Timed (ρ : Type*) where
  row : ρ
  timestamp : Int
  clipSpanMs : Int

/-- An entry with its clip time. -/
abbrev Stamped (ρ : Type*) := Int × ClipEntry ρ

/-! ## The pipeline -/

/-- Keep the first entry of each normalised path; `seen` are the paths met so far. -/
def dedupPaths : List Text → List (ClipEntry ρ) → List (ClipEntry ρ)
  | _, [] => []
  | seen, c :: cs =>
    if normSlashes c.file ∈ seen then dedupPaths seen cs
    else c :: dedupPaths (normSlashes c.file :: seen) cs

/-- The entries whose path spells a clip time, with that time. -/
def stamp (cs : List (ClipEntry ρ)) : List (Stamped ρ) :=
  cs.filterMap fun c => (parseClipTimestamp c.file).map fun ts => (ts, c)

/-- Stable sort by clip time. -/
def sortByTime (l : List (Stamped ρ)) : List (Stamped ρ) := l.insertionSort fun a b => a.1 ≤ b.1

/-- The continuous clips in time order. -/
def recentClips (unique : List (ClipEntry ρ)) : List (Stamped ρ) :=
  sortByTime (stamp (unique.filter fun c => !isEventFolderPath c.file))

/-- An event clip as a gap-fill candidate. -/
def Stamped.candidate (s : Stamped ρ) : GapFillCandidate (ClipEntry ρ) :=
  { row := s.2, ts := s.1, file := s.2.file, driving := some s.2.driving,
    gearDriving := s.2.gearDriving }

/-- The event clips gap-fill admits. -/
def admittedEvents (unique : List (ClipEntry ρ)) : List (Stamped ρ) :=
  (selectGapFill ((recentClips unique).map Prod.fst)
    ((stamp (unique.filter fun c => isEventFolderPath c.file)).map Stamped.candidate)).map
      fun c => (c.ts, c.row)

/-- The whole series in time order. A stable sort leaves an already sorted series alone, so it does
not matter that the source sorts again only after an admission. -/
def series (unique : List (ClipEntry ρ)) : List (Stamped ρ) :=
  sortByTime (recentClips unique ++ admittedEvents unique)

/-- Span of a clip at `t` followed by `rest`: the gap to the next native clip when that is a positive
part of a minute, else the nominal minute. -/
def spanBefore (t : Int) (native : Bool) (rest : List (Stamped ρ)) : Int :=
  if native then
    match rest.find? fun s => s.2.native with
    | some s => if 0 < s.1 - t ∧ s.1 - t ≤ clipDurationMs then s.1 - t else clipDurationMs
    | none => clipDurationMs
  else clipDurationMs

/-- Attach real clip spans to a sorted series (`clip_spans`). -/
def clipSpans : List (Stamped ρ) → List (Timed ρ)
  | [] => []
  | s :: rest => ⟨s.2.row, s.1, spanBefore s.1 s.2.native rest⟩ :: clipSpans rest

/-- First pass: cut where the gap exceeds five minutes. -/
def splitByTimeGap (l : List (Timed ρ)) : List (List (Timed ρ)) :=
  l.splitBy fun a b => decide (b.timestamp - a.timestamp ≤ driveGapMs)

/-- The timeline of a list of rows. -/
def timeline (entries : List (ClipEntry ρ)) : List (Timed ρ) :=
  clipSpans (series (dedupPaths [] entries))

/-- The time groups of a list of rows. -/
def timeGroups (entries : List (ClipEntry ρ)) : List (List (Timed ρ)) :=
  splitByTimeGap (timeline entries)

/-! ## Members of the timeline -/

/-- Dedup keeps a sublist. -/
theorem dedupPaths_sublist (seen : List Text) (cs : List (ClipEntry ρ)) :
    (dedupPaths seen cs).Sublist cs := by
  induction cs generalizing seen with
  | nil => exact List.Sublist.refl _
  | cons c cs ih =>
    unfold dedupPaths
    split
    · exact (ih seen).cons c
    · exact (ih _).cons_cons c

/-- A stamped entry is an entry whose path spells the time. -/
theorem mem_stamp {cs : List (ClipEntry ρ)} {s : Stamped ρ} :
    s ∈ stamp cs ↔ s.2 ∈ cs ∧ parseClipTimestamp s.2.file = some s.1 := by
  simp only [stamp, List.mem_filterMap, Option.map_eq_some_iff]
  constructor
  · rintro ⟨c, hc, ts, hts, rfl⟩
    exact ⟨hc, hts⟩
  · rintro ⟨hc, hts⟩
    exact ⟨s.2, hc, s.1, hts, rfl⟩

@[simp] theorem mem_sortByTime {l : List (Stamped ρ)} {s : Stamped ρ} :
    s ∈ sortByTime l ↔ s ∈ l := List.mem_insertionSort _

theorem pairwise_sortByTime (l : List (Stamped ρ)) :
    (sortByTime l).Pairwise fun a b => a.1 ≤ b.1 := by
  have : Std.Total fun a b : Stamped ρ => a.1 ≤ b.1 := ⟨fun a b => le_total a.1 b.1⟩
  have : IsTrans (Stamped ρ) fun a b => a.1 ≤ b.1 := ⟨fun _ _ _ h h' => le_trans h h'⟩
  exact List.pairwise_insertionSort _ l

/-- Entries of the series are entries of the deduplicated list, at their own clip time. -/
theorem mem_series {unique : List (ClipEntry ρ)} {s : Stamped ρ} (h : s ∈ series unique) :
    s.2 ∈ unique ∧ parseClipTimestamp s.2.file = some s.1 := by
  rw [series, mem_sortByTime, List.mem_append] at h
  rcases h with h | h
  · rw [recentClips, mem_sortByTime, mem_stamp] at h
    exact ⟨List.mem_of_mem_filter h.1, h.2⟩
  · obtain ⟨c, hc, rfl⟩ := List.mem_map.mp h
    obtain ⟨s, hs, rfl⟩ := List.mem_map.mp (mem_of_mem_selectGapFill hc)
    rw [mem_stamp] at hs
    exact ⟨List.mem_of_mem_filter hs.1, hs.2⟩

/-- A span is a positive part of a minute. -/
theorem spanBefore_bounds (t : Int) (native : Bool) (rest : List (Stamped ρ)) :
    0 < spanBefore t native rest ∧ spanBefore t native rest ≤ clipDurationMs := by
  have hv := window_values
  unfold spanBefore
  split
  · split
    · split
      · assumption
      · omega
    · omega
  · omega

/-- A timed clip comes from an entry of the series. -/
theorem mem_clipSpans {l : List (Stamped ρ)} {t : Timed ρ} (h : t ∈ clipSpans l) :
    ∃ s ∈ l, t.row = s.2.row ∧ t.timestamp = s.1 ∧ 0 < t.clipSpanMs
      ∧ t.clipSpanMs ≤ clipDurationMs := by
  induction l with
  | nil => simp [clipSpans] at h
  | cons s l ih =>
    rcases List.mem_cons.mp h with rfl | h
    · exact ⟨s, by simp, rfl, rfl, spanBefore_bounds _ _ _⟩
    · obtain ⟨s', hs', hrest⟩ := ih h
      exact ⟨s', List.mem_cons_of_mem s hs', hrest⟩

theorem map_timestamp_clipSpans (l : List (Stamped ρ)) :
    (clipSpans l).map Timed.timestamp = l.map Prod.fst := by
  induction l with
  | nil => rfl
  | cons s l ih => simp [clipSpans, ih]

theorem map_row_clipSpans (l : List (Stamped ρ)) :
    (clipSpans l).map Timed.row = l.map fun s => s.2.row := by
  induction l with
  | nil => rfl
  | cons s l ih => simp [clipSpans, ih]

/-- The timeline is in time order. -/
theorem pairwise_timeline (entries : List (ClipEntry ρ)) :
    (timeline entries).Pairwise fun a b => a.timestamp ≤ b.timestamp := by
  have h : ((timeline entries).map Timed.timestamp).Pairwise (· ≤ ·) := by
    rw [timeline, map_timestamp_clipSpans, List.pairwise_map]
    exact pairwise_sortByTime _
  exact List.pairwise_map.mp h

/-- Every clip of the timeline is one of the rows, at its own clip time and with a span of at most a
minute. -/
theorem mem_timeline {entries : List (ClipEntry ρ)} {t : Timed ρ} (h : t ∈ timeline entries) :
    ∃ c ∈ entries, t.row = c.row ∧ parseClipTimestamp c.file = some t.timestamp
      ∧ 0 < t.clipSpanMs ∧ t.clipSpanMs ≤ clipDurationMs := by
  obtain ⟨s, hs, hrow, hts, hspan⟩ := mem_clipSpans h
  obtain ⟨hmem, hparse⟩ := mem_series hs
  exact ⟨s.2, (dedupPaths_sublist _ _).subset hmem, hrow, by rw [hparse, hts], hspan⟩

theorem flatten_timeGroups (entries : List (ClipEntry ρ)) :
    (timeGroups entries).flatten = timeline entries := List.flatten_splitBy _ _

theorem mem_timeline_of_mem_timeGroups {entries : List (ClipEntry ρ)} {g : List (Timed ρ)}
    {t : Timed ρ} (hg : g ∈ timeGroups entries) (ht : t ∈ g) : t ∈ timeline entries := by
  rw [← flatten_timeGroups]
  exact List.mem_flatten.mpr ⟨g, hg, ht⟩

/-- Dedup leaves no path twice, and none of the paths seen before. -/
theorem dedupPaths_nodup (seen : List Text) (cs : List (ClipEntry ρ)) :
    ((dedupPaths seen cs).map fun c => normSlashes c.file).Nodup
      ∧ ∀ c ∈ dedupPaths seen cs, normSlashes c.file ∉ seen := by
  induction cs generalizing seen with
  | nil => simp [dedupPaths]
  | cons c cs ih =>
    unfold dedupPaths
    split
    · exact ih seen
    · next hnew =>
        obtain ⟨hnodup, hseen⟩ := ih (normSlashes c.file :: seen)
        refine ⟨?_, ?_⟩
        · rw [List.map_cons, List.nodup_cons]
          refine ⟨fun hmem => ?_, hnodup⟩
          obtain ⟨c', hc', heq⟩ := List.mem_map.mp hmem
          exact hseen c' hc' (by rw [heq]; exact List.mem_cons_self)
        · intro c' hc'
          rcases List.mem_cons.mp hc' with rfl | hc'
          · exact hnew
          · exact fun hmem => hseen c' hc' (List.mem_cons_of_mem _ hmem)

/-- Stamping keeps a sublist of the entries. -/
theorem map_snd_stamp_sublist (cs : List (ClipEntry ρ)) : ((stamp cs).map Prod.snd).Sublist cs := by
  induction cs with
  | nil => exact List.Sublist.refl _
  | cons c cs ih =>
    unfold stamp at ih ⊢
    cases h : parseClipTimestamp c.file with
    | none => simpa [h] using ih.cons c
    | some t => simpa [h] using ih.cons_cons c

/-- Keys that tell the entries apart tell the series apart: no entry is placed twice. -/
theorem nodup_series {κ : Type*} (key : ClipEntry ρ → κ) {unique : List (ClipEntry ρ)}
    (h : (unique.map key).Nodup) : ((series unique).map fun s => key s.2).Nodup := by
  have hrecent : ((recentClips unique).map fun s => key s.2).Nodup := by
    have hperm := (List.perm_insertionSort (fun a b : Stamped ρ => a.1 ≤ b.1)
      (stamp (unique.filter fun c => !isEventFolderPath c.file))).map fun s => key s.2
    refine hperm.nodup_iff.mpr ?_
    change ((stamp _).map (key ∘ Prod.snd)).Nodup
    rw [← List.map_map]
    exact h.sublist (((map_snd_stamp_sublist _).trans List.filter_sublist).map key)
  have hevents : ((admittedEvents unique).map fun s => key s.2).Nodup := by
    rw [admittedEvents, List.map_map]
    refine nodup_selectGapFill (fun c => key c.row) _ ?_
    rw [List.map_map]
    change ((stamp _).map (key ∘ Prod.snd)).Nodup
    rw [← List.map_map]
    exact h.sublist (((map_snd_stamp_sublist _).trans List.filter_sublist).map key)
  have hperm := (List.perm_insertionSort (fun a b : Stamped ρ => a.1 ≤ b.1)
    (recentClips unique ++ admittedEvents unique)).map fun s => key s.2
  refine hperm.nodup_iff.mpr ?_
  rw [List.map_append, List.nodup_append']
  refine ⟨hrecent, hevents, ?_⟩
  -- a continuous clip is not an event clip
  intro k hk hk'
  obtain ⟨s, hs, rfl⟩ := List.mem_map.mp hk
  obtain ⟨s', hs', heq⟩ := List.mem_map.mp hk'
  rw [recentClips, mem_sortByTime, mem_stamp] at hs
  obtain ⟨c, hc, rfl⟩ := List.mem_map.mp hs'
  obtain ⟨e, he, rfl⟩ := List.mem_map.mp (mem_of_mem_selectGapFill hc)
  rw [mem_stamp] at he
  obtain ⟨hmem, hrec⟩ := List.mem_filter.mp hs.1
  obtain ⟨hmem', hev⟩ := List.mem_filter.mp he.1
  have hsame : e.2 = s.2 := List.inj_on_of_nodup_map h hmem' hmem heq
  rw [hsame] at hev
  simp [hev] at hrec

/-- **No clip is on the timeline twice**: the normalised paths of its rows are distinct. -/
theorem nodup_timeline (fileOf : ρ → Text) {entries : List (ClipEntry ρ)}
    (h : ∀ c ∈ entries, fileOf c.row = c.file) :
    ((timeline entries).map fun t => normSlashes (fileOf t.row)).Nodup := by
  have hrows : ∀ l : List (Stamped ρ), (∀ s ∈ l, fileOf s.2.row = s.2.file) →
      ((clipSpans l).map fun t => normSlashes (fileOf t.row))
        = l.map fun s => normSlashes s.2.file := by
    intro l hl
    induction l with
    | nil => rfl
    | cons s l ih =>
      rw [clipSpans, List.map_cons, List.map_cons, hl s (by simp),
        ih fun s' hs' => hl s' (List.mem_cons_of_mem s hs')]
  rw [timeline, hrows]
  · exact nodup_series (fun c => normSlashes c.file) (dedupPaths_nodup [] entries).1
  · exact fun s hs => h s.2 ((dedupPaths_sublist _ _).subset (mem_series hs).1)

/-! ## Naturality in the rows -/

section Map

variable (f : ρ → σ)

/-- Replace the row behind an entry. -/
def ClipEntry.map (c : ClipEntry ρ) : ClipEntry σ :=
  { row := f c.row, file := c.file, driving := c.driving, gearDriving := c.gearDriving,
    native := c.native }

@[simp] theorem ClipEntry.map_file (c : ClipEntry ρ) : (c.map f).file = c.file := rfl

/-- Replace the row behind a stamped entry. -/
def Stamped.map (s : Stamped ρ) : Stamped σ := (s.1, s.2.map f)

/-- Replace the row behind a timed clip. -/
def Timed.map (t : Timed ρ) : Timed σ := ⟨f t.row, t.timestamp, t.clipSpanMs⟩

theorem dedupPaths_map (seen : List Text) (cs : List (ClipEntry ρ)) :
    dedupPaths seen (cs.map (ClipEntry.map f)) = (dedupPaths seen cs).map (ClipEntry.map f) := by
  induction cs generalizing seen with
  | nil => rfl
  | cons c cs ih =>
    by_cases hmem : normSlashes c.file ∈ seen
    · simp [dedupPaths, hmem, ih]
    · simp [dedupPaths, hmem, ih]

theorem stamp_map (cs : List (ClipEntry ρ)) :
    stamp (cs.map (ClipEntry.map f)) = (stamp cs).map (Stamped.map f) := by
  rw [stamp, stamp, List.filterMap_map, List.map_filterMap]
  refine List.filterMap_congr fun c _ => ?_
  rw [Option.map_map]
  rfl

theorem sortByTime_map (l : List (Stamped ρ)) :
    sortByTime (l.map (Stamped.map f)) = (sortByTime l).map (Stamped.map f) :=
  (List.map_insertionSort (r := fun a b : Stamped ρ => a.1 ≤ b.1)
    (s := fun a b : Stamped σ => a.1 ≤ b.1) (Stamped.map f) l fun _ _ _ _ => Iff.rfl).symm

theorem recentClips_map (unique : List (ClipEntry ρ)) :
    recentClips (unique.map (ClipEntry.map f)) = (recentClips unique).map (Stamped.map f) := by
  rw [recentClips, recentClips, List.filter_map, stamp_map, sortByTime_map]
  rfl

theorem admittedEvents_map (unique : List (ClipEntry ρ)) :
    admittedEvents (unique.map (ClipEntry.map f)) = (admittedEvents unique).map (Stamped.map f) := by
  have hcand : ((stamp ((unique.map (ClipEntry.map f)).filter fun c => isEventFolderPath c.file)).map
        Stamped.candidate)
      = ((stamp (unique.filter fun c => isEventFolderPath c.file)).map Stamped.candidate).map
        (GapFillCandidate.map (ClipEntry.map f)) := by
    rw [List.filter_map, stamp_map, List.map_map, List.map_map]
    rfl
  have hts : ((recentClips (unique.map (ClipEntry.map f))).map Prod.fst)
      = (recentClips unique).map Prod.fst := by
    rw [recentClips_map, List.map_map]
    rfl
  rw [admittedEvents, admittedEvents, hcand, hts, selectGapFill_map, List.map_map, List.map_map]
  rfl

theorem series_map (unique : List (ClipEntry ρ)) :
    series (unique.map (ClipEntry.map f)) = (series unique).map (Stamped.map f) := by
  rw [series, series, recentClips_map, admittedEvents_map, ← List.map_append, sortByTime_map]

theorem spanBefore_map (t : Int) (native : Bool) (rest : List (Stamped ρ)) :
    spanBefore t native (rest.map (Stamped.map f)) = spanBefore t native rest := by
  unfold spanBefore
  rw [List.find?_map]
  change (if native then match (rest.find? fun s => s.2.native).map (Stamped.map f) with
    | some s => _
    | none => _ else _) = _
  cases rest.find? fun s => s.2.native <;> rfl

theorem clipSpans_map (l : List (Stamped ρ)) :
    clipSpans (l.map (Stamped.map f)) = (clipSpans l).map (Timed.map f) := by
  induction l with
  | nil => rfl
  | cons s l ih => rw [List.map_cons, clipSpans, clipSpans, ih, spanBefore_map]; rfl

theorem splitByTimeGap_map (l : List (Timed ρ)) :
    splitByTimeGap (l.map (Timed.map f)) = (splitByTimeGap l).map (List.map (Timed.map f)) :=
  splitBy_map _ _ _

/-- **The time groups are natural in the rows**: nothing behind an entry is read. -/
theorem timeGroups_map (entries : List (ClipEntry ρ)) :
    timeGroups (entries.map (ClipEntry.map f))
      = (timeGroups entries).map (List.map (Timed.map f)) := by
  rw [timeGroups, timeline, dedupPaths_map, series_map, clipSpans_map, splitByTimeGap_map]
  rfl

end Map

/-! ## Locality: a void cuts the timeline in two -/

section Void

variable {B : Int} {entries : List (ClipEntry ρ)}

/-- Whether a row was recorded at `B` or later. -/
def recordedFrom (B : Int) (file : Text) : Bool :=
  (parseClipTimestamp file).any fun t => decide (B ≤ t)

/-- The entries recorded from `B` on. -/
def entriesFrom (B : Int) (l : List (ClipEntry ρ)) : List (ClipEntry ρ) :=
  l.filter fun c => recordedFrom B c.file

/-- The other entries: those recorded before `B`, and those without a clip time. -/
def entriesBefore (B : Int) (l : List (ClipEntry ρ)) : List (ClipEntry ρ) :=
  l.filter fun c => !recordedFrom B c.file

/-- No entry lies within the widest window of the pipeline before `B`. -/
def VoidBefore (B : Int) (l : List (ClipEntry ρ)) : Prop :=
  ∀ c ∈ l, ∀ t, parseClipTimestamp c.file = some t → t < B → t + gapFillMaxMs < B

theorem VoidBefore.subset {l m : List (ClipEntry ρ)} (h : VoidBefore B l) (hs : m ⊆ l) :
    VoidBefore B m := fun c hc => h c (hs hc)

theorem recordedFrom_congr {f g : Text} (h : normSlashes f = normSlashes g) :
    recordedFrom B f = recordedFrom B g := by
  rw [recordedFrom, recordedFrom, parseClipTimestamp_congr h]

/-- Dedup commutes with a filter that reads the normalised path. -/
theorem dedupPaths_filter (q : Text → Bool)
    (hq : ∀ f g, normSlashes f = normSlashes g → q f = q g) (cs : List (ClipEntry ρ))
    (seen seen' : List Text)
    (hseen : ∀ f, q f = true → (normSlashes f ∈ seen' ↔ normSlashes f ∈ seen)) :
    dedupPaths seen' (cs.filter fun c => q c.file)
      = (dedupPaths seen cs).filter fun c => q c.file := by
  induction cs generalizing seen seen' with
  | nil => rfl
  | cons c cs ih =>
    cases hqc : q c.file with
    | false =>
      rw [List.filter_cons_of_neg (by simp [hqc]), dedupPaths]
      split
      · exact ih seen seen' hseen
      · rw [List.filter_cons_of_neg (by simp [hqc])]
        refine ih _ _ fun f hf => ?_
        -- a kept path never equals the path of the row the filter drops
        have hne : normSlashes f ≠ normSlashes c.file := fun he => by
          rw [hq f c.file he, hqc] at hf
          exact Bool.false_ne_true hf
        rw [List.mem_cons, or_iff_right hne]
        exact hseen f hf
    | true =>
      rw [List.filter_cons_of_pos (by simp [hqc]), dedupPaths, dedupPaths]
      by_cases hmem : normSlashes c.file ∈ seen
      · rw [if_pos hmem, if_pos ((hseen c.file hqc).mpr hmem)]
        exact ih seen seen' hseen
      · rw [if_neg hmem, if_neg fun h => hmem ((hseen c.file hqc).mp h),
          List.filter_cons_of_pos (by simp [hqc])]
        congr 1
        refine ih _ _ fun f hf => ?_
        rw [List.mem_cons, List.mem_cons, hseen f hf]

theorem dedupPaths_entriesFrom (l : List (ClipEntry ρ)) :
    dedupPaths [] (entriesFrom B l) = entriesFrom B (dedupPaths [] l) :=
  dedupPaths_filter (recordedFrom B) (fun _ _ => recordedFrom_congr) l [] [] fun _ _ => Iff.rfl

theorem dedupPaths_entriesBefore (l : List (ClipEntry ρ)) :
    dedupPaths [] (entriesBefore B l) = entriesBefore B (dedupPaths [] l) :=
  dedupPaths_filter (fun f => !recordedFrom B f)
    (fun _ _ h => by simp only [recordedFrom_congr h]) l [] [] fun _ _ => Iff.rfl

/-- The stamped entries before `B`. -/
theorem stamp_filter_lt (cs : List (ClipEntry ρ)) :
    ((stamp cs).filter fun s => decide (s.1 < B)) = stamp (entriesBefore B cs) := by
  rw [stamp, stamp, entriesBefore, List.filter_filterMap, List.filterMap_filter]
  refine List.filterMap_congr fun c _ => ?_
  cases h : parseClipTimestamp c.file with
  | none => simp [recordedFrom, h]
  | some t =>
    have hge : B ≤ t ↔ ¬ t < B := not_lt.symm
    by_cases ht : t < B <;> simp [recordedFrom, h, ht, hge]

/-- The stamped entries from `B` on. -/
theorem stamp_filter_ge (cs : List (ClipEntry ρ)) :
    ((stamp cs).filter fun s => !decide (s.1 < B)) = stamp (entriesFrom B cs) := by
  rw [stamp, stamp, entriesFrom, List.filter_filterMap, List.filterMap_filter]
  refine List.filterMap_congr fun c _ => ?_
  cases h : parseClipTimestamp c.file with
  | none => simp [recordedFrom, h]
  | some t =>
    have hge : B ≤ t ↔ ¬ t < B := not_lt.symm
    by_cases ht : t < B <;> simp [recordedFrom, h, ht, hge, Option.filter]

/-- Sorting the two sides of `B`. -/
theorem sortByTime_eq_append (B : Int) (l : List (Stamped ρ)) :
    sortByTime l = sortByTime (l.filter fun s => decide (s.1 < B))
      ++ sortByTime (l.filter fun s => !decide (s.1 < B)) := by
  refine insertionSort_eq_append_filter _ _ l fun a _ b _ ha hb => ?_
  simp only [decide_eq_true_eq, decide_eq_false_iff_not] at ha hb
  omega

/-- Restricting to one side of `B` commutes with setting the event clips apart. -/
theorem filter_filter_comm (q e : Text → Bool) (l : List (ClipEntry ρ)) :
    (l.filter fun c => q c.file).filter (fun c => e c.file)
      = (l.filter fun c => e c.file).filter fun c => q c.file := by
  rw [List.filter_filter, List.filter_filter]
  exact List.filter_congr fun c _ => Bool.and_comm _ _

theorem recentClips_void (B : Int) (unique : List (ClipEntry ρ)) :
    recentClips unique
      = recentClips (entriesBefore B unique) ++ recentClips (entriesFrom B unique) := by
  have hlo := filter_filter_comm (fun f => !recordedFrom B f) (fun f => !isEventFolderPath f) unique
  have hhi := filter_filter_comm (recordedFrom B) (fun f => !isEventFolderPath f) unique
  rw [recentClips, sortByTime_eq_append B, stamp_filter_lt, stamp_filter_ge, recentClips,
    recentClips]
  simp only [entriesBefore, entriesFrom] at hlo hhi ⊢
  rw [hlo, hhi]

/-- Recent clips on the early side of a void. -/
theorem recentClips_before (h : VoidBefore B entries) {s : Stamped ρ}
    (hs : s ∈ recentClips (entriesBefore B entries)) : s.1 + gapFillMaxMs < B := by
  rw [recentClips, mem_sortByTime, mem_stamp] at hs
  obtain ⟨hmem, hts⟩ := hs
  obtain ⟨hmem, hb⟩ := List.mem_filter.mp (List.mem_of_mem_filter hmem)
  refine h s.2 hmem s.1 hts ?_
  simpa [recordedFrom, hts] using hb

/-- Recent clips on the late side. -/
theorem recentClips_from {s : Stamped ρ} (hs : s ∈ recentClips (entriesFrom B entries)) :
    B ≤ s.1 := by
  rw [recentClips, mem_sortByTime, mem_stamp] at hs
  obtain ⟨hmem, hts⟩ := hs
  obtain ⟨-, hb⟩ := List.mem_filter.mp (List.mem_of_mem_filter hmem)
  simpa [recordedFrom, hts] using hb

theorem admittedEvents_void (h : VoidBefore B entries) :
    admittedEvents entries
      = admittedEvents (entriesBefore B entries) ++ admittedEvents (entriesFrom B entries) := by
  have hvoid : GapFillVoid ((recentClips (entriesBefore B entries)).map Prod.fst)
      ((recentClips (entriesFrom B entries)).map Prod.fst) B := by
    refine ⟨?_, ?_, ?_⟩
    · rw [← List.map_append, ← recentClips_void, List.pairwise_map]
      exact pairwise_sortByTime _
    · intro t ht
      obtain ⟨s, hs, rfl⟩ := List.mem_map.mp ht
      exact recentClips_before h hs
    · intro t ht
      obtain ⟨s, hs, rfl⟩ := List.mem_map.mp ht
      exact recentClips_from hs
  have hlo := filter_filter_comm (fun f => !recordedFrom B f) isEventFolderPath entries
  have hhi := filter_filter_comm (recordedFrom B) isEventFolderPath entries
  have hcands : ∀ c ∈ (stamp (entries.filter fun c => isEventFolderPath c.file)).map
      Stamped.candidate, c.ts < B → c.ts + gapFillMaxMs < B := by
    intro c hc
    obtain ⟨s, hs, rfl⟩ := List.mem_map.mp hc
    rw [mem_stamp] at hs
    exact h s.2 (List.mem_of_mem_filter hs.1) s.1 hs.2
  have hbefore : candsBefore B ((stamp (entries.filter fun c => isEventFolderPath c.file)).map
        Stamped.candidate)
      = (stamp ((entriesBefore B entries).filter fun c => isEventFolderPath c.file)).map
        Stamped.candidate := by
    rw [candsBefore, List.filter_map]
    change List.map _ ((stamp _).filter fun s => decide (s.1 < B)) = _
    rw [stamp_filter_lt, entriesBefore, entriesBefore, hlo]
  have hfrom : candsFrom B ((stamp (entries.filter fun c => isEventFolderPath c.file)).map
        Stamped.candidate)
      = (stamp ((entriesFrom B entries).filter fun c => isEventFolderPath c.file)).map
        Stamped.candidate := by
    rw [candsFrom, List.filter_map]
    change List.map _ ((stamp _).filter fun s => !decide (s.1 < B)) = _
    rw [stamp_filter_ge, entriesFrom, entriesFrom, hhi]
  rw [admittedEvents, recentClips_void B, List.map_append, selectGapFill_void hvoid hcands, hbefore,
    hfrom, List.map_append]
  rfl

theorem series_before (h : VoidBefore B entries) {s : Stamped ρ}
    (hs : s ∈ series (entriesBefore B entries)) : s.1 + gapFillMaxMs < B := by
  obtain ⟨hmem, hts⟩ := mem_series hs
  obtain ⟨hmem, hb⟩ := List.mem_filter.mp hmem
  exact h s.2 hmem s.1 hts (by simpa [recordedFrom, hts] using hb)

theorem series_from {s : Stamped ρ} (hs : s ∈ series (entriesFrom B entries)) : B ≤ s.1 := by
  obtain ⟨hmem, hts⟩ := mem_series hs
  obtain ⟨-, hb⟩ := List.mem_filter.mp hmem
  simpa [recordedFrom, hts] using hb

theorem series_void (h : VoidBefore B entries) :
    series entries = series (entriesBefore B entries) ++ series (entriesFrom B entries) := by
  have hv := window_values
  have hlo : ∀ s ∈ recentClips (entriesBefore B entries) ++ admittedEvents (entriesBefore B entries),
      decide (s.1 < B) = true := by
    intro s hs
    have := series_before h (s := s) (by rw [series, mem_sortByTime]; exact hs)
    simp only [decide_eq_true_eq]
    omega
  have hhi : ∀ s ∈ recentClips (entriesFrom B entries) ++ admittedEvents (entriesFrom B entries),
      decide (s.1 < B) = false := by
    intro s hs
    have hmem : s ∈ series (entriesFrom B entries) := by rw [series, mem_sortByTime]; exact hs
    have := series_from hmem
    simp only [decide_eq_false_iff_not]
    omega
  simp only [List.mem_append, or_imp, forall_and] at hlo hhi
  have h1 := filter_halves_of_forall_true hlo.1
  have h2 := filter_halves_of_forall_true hlo.2
  have h3 := filter_halves_of_forall_false hhi.1
  have h4 := filter_halves_of_forall_false hhi.2
  rw [series, recentClips_void B, admittedEvents_void h, sortByTime_eq_append B]
  simp only [List.filter_append, h1, h2, h3, h4, List.append_nil, List.nil_append]
  rfl

/-- Spans before a void do not see past it. -/
theorem clipSpans_append {l m : List (Stamped ρ)} (hl : ∀ s ∈ l, s.1 + gapFillMaxMs < B)
    (hm : ∀ s ∈ m, B ≤ s.1) : clipSpans (l ++ m) = clipSpans l ++ clipSpans m := by
  have hv := window_values
  induction l with
  | nil => rfl
  | cons s l ih =>
    have hs := hl s (by simp)
    have hspan : spanBefore s.1 s.2.native (l ++ m) = spanBefore s.1 s.2.native l := by
      unfold spanBefore
      rw [List.find?_append]
      cases hfl : l.find? fun s => s.2.native with
      | some a => rfl
      | none =>
        cases hfm : m.find? fun s => s.2.native with
        | none => rfl
        | some b =>
          have hb := hm b (List.mem_of_find?_eq_some hfm)
          have hfar : ¬ (0 < b.1 - s.1 ∧ b.1 - s.1 ≤ clipDurationMs) := by omega
          simp only [Option.none_or, if_neg hfar]
    rw [List.cons_append, clipSpans, clipSpans, hspan,
      ih fun s' hs' => hl s' (List.mem_cons_of_mem s hs'), List.cons_append]

/-- **A void cuts the time groups in two.** -/
theorem timeGroups_void (h : VoidBefore B entries) :
    timeGroups entries = timeGroups (entriesBefore B entries) ++ timeGroups (entriesFrom B entries) := by
  have hv := window_values
  have h' : VoidBefore B (dedupPaths [] entries) := h.subset (dedupPaths_sublist _ _).subset
  have hlo : ∀ s ∈ series (entriesBefore B (dedupPaths [] entries)), s.1 + gapFillMaxMs < B :=
    fun s => series_before h'
  have hhi : ∀ s ∈ series (entriesFrom B (dedupPaths [] entries)), B ≤ s.1 := fun s => series_from
  simp only [timeGroups, timeline, dedupPaths_entriesBefore, dedupPaths_entriesFrom]
  rw [series_void h', clipSpans_append hlo hhi]
  refine List.splitBy_append fun x hx y hy => ?_
  obtain ⟨a, ha, -, hxt, -⟩ := mem_clipSpans (List.mem_of_getLast? hx)
  obtain ⟨b, hb, -, hyt, -⟩ := mem_clipSpans (List.mem_of_head? hy)
  have h1 := hlo a ha
  have h2 := hhi b hb
  simp only [decide_eq_false_iff_not]
  omega

end Void

end SentryUsb
