import SentryUsb.Grouper.ClockTransition
import SentryUsb.Library.SortedMap
import SentryUsb.Library.TransitionSystem
import SentryUsb.Sync.ScopedTagEdits

/-! # Carrying drive tags over to the real clip span

The tags of the retired drives are written into one scoped document per clip, over the frames of each drive, and read
back for the current drives (`drive_tag_migration.rs`). Two drives that become one keep their tags on their own
frames.

* **`planWithScopes`** — the migration: assignments of frames, documents, the check and the projection;
* **`TagsAtFrames`** — what a document holds after some drives: at each frame the tags of those that have it;
* **`TagsPreserved`** — what the migration is for;
* **`planWithScopes_preserves`** — a migration that succeeds is one. -/

namespace SentryUsb.Sync

open Library

/-! ## The migration -/

/-- The tags of a retired drive, with its frames. -/
structure LegacyTags where
  key : Text
  windows : List DriveClipWindow
  tags : List Text

/-- The scoped document of a clip. -/
structure SourceTags where
  runs : List Nat
  totalFrames : Nat
  document : TagValue
  deriving DecidableEq

/-- A migration (`TagMigration`). -/
structure TagMigration where
  originalTags : SortedMap Text (List Text)
  legacy : List LegacyTags
  sources : SortedMap Text SourceTags
  correctedTags : SortedMap Text (List Text)
  unresolvedKeys : List Text

/-- The last row of a path: rows are collected in a map. -/
def sourceRow (summaries : List RouteSummary) (file : Text) : Option RouteSummary :=
  summaries.reverse.find? fun s => decide (s.file = file)

/-- Frames of a clip: no run is empty and the sum fits `u32`. -/
def sourceFrames (runs : List GearRun) : Option Nat :=
  (run (fun sum (r : GearRun) => if 0 < r.frames ∧ sum + r.frames < u32Size then some (sum + r.frames) else none) 0
    runs).map (max · 1)

/-- The frames of each key: those of the retired drives that start there, or those captured with an edit. -/
def assignments (legacy : List PlannedDrive) (overrides : SortedMap Text (List DriveClipWindow)) :
    SortedMap Text (List DriveClipWindow) :=
  overrides.entries.foldl (fun m e => m.insert e.1 e.2)
    (legacy.foldl (fun m drive => m.insert drive.startTime ((m.get drive.startTime).getD [] ++ drive.windows)) .empty)

/-- Add tags to the frames of a window. -/
def tagWindow (summaries : List RouteSummary) (labels : List Text) (sources : SortedMap Text SourceTags)
    (window : DriveClipWindow) : Option (SortedMap Text SourceTags) :=
  (sourceRow summaries window.file).bind fun source =>
    (sourceFrames source.gearRuns).bind fun total =>
      let runs := source.gearRuns.flatMap fun r => [r.gear, r.frames]
      let saved := (sources.get window.file).getD ⟨runs, total, .plain []⟩
      if total = window.totalFrames ∧ saved.runs = runs ∧ saved.totalFrames = total then
        (applyDelta saved.document total [(window.startFrame, window.endFrame)] ⟨labels, []⟩).map fun document =>
          sources.insert window.file { saved with document := document }
      else none

/-- Add the tags of a key to its frames. Keys without tags are passed over. -/
def tagKey (summaries : List RouteSummary) (tags : SortedMap Text (List Text))
    (state : List LegacyTags × SortedMap Text SourceTags) (assigned : Text × List DriveClipWindow) :
    Option (List LegacyTags × SortedMap Text SourceTags) :=
  match tags.get assigned.1 with
  | none => some state
  | some labels =>
    (run (tagWindow summaries labels) state.2 assigned.2).map fun sources =>
      (state.1 ++ [⟨assigned.1, assigned.2, labels⟩], sources)

/-- Tags of a window by the documents; a clip without a document has none. -/
def windowTags (sources : SortedMap Text SourceTags) (window : DriveClipWindow) : Option (List Text) :=
  match sources.get window.file with
  | none => some []
  | some source => tagsForRanges source.document source.totalFrames [(window.startFrame, window.endFrame)]

/-- Tags of all windows of a drive. -/
def scopeTags (sources : SortedMap Text SourceTags) (windows : List DriveClipWindow) : Option (List Text) :=
  (run (fun found window => (windowTags sources window).map fun tags => found ++ tags) [] windows).map tagSet

/-- Every key reads back exactly its tags. With captured frames, keys without tags are passed over. -/
def scopesKept (tags : SortedMap Text (List Text)) (overrides assigned : SortedMap Text (List DriveClipWindow))
    (sources : SortedMap Text SourceTags) : Bool :=
  assigned.entries.all fun e =>
    (!overrides.entries.isEmpty && (tags.get e.1).isNone)
      || decide (scopeTags sources e.2 = some (tagSet ((tags.get e.1).getD [])))

/-- Show the tags of a current drive under its start time. Drives of one start time must show the same. -/
def projectDrive (sources : SortedMap Text SourceTags) (shown : SortedMap Text (List Text)) (drive : PlannedDrive) :
    Option (SortedMap Text (List Text)) :=
  if drive.windows.all (fun w => (sources.get w.file).all fun source => decide (source.totalFrames = w.totalFrames)) = true then
    (scopeTags sources drive.windows).bind fun found =>
      if (shown.get drive.startTime).all (fun previous => decide (tagSet previous = found)) = true then
        some (shown.insert drive.startTime found)
      else none
  else none

/-- The migration of a timing plan. -/
def planTags (timing : TimingPlan) (summaries : List RouteSummary) (tags : SortedMap Text (List Text))
    (overrides : SortedMap Text (List DriveClipWindow)) : Option TagMigration :=
  if timing.unmappedLegacyFrames = 0 ∧ timing.incompatibleFrameSources = 0 then
    let assigned := assignments timing.legacy overrides
    (run (tagKey summaries tags) ([], .empty) assigned.entries).bind fun state =>
      if scopesKept tags overrides assigned state.2 = true then
        (run (projectDrive state.2) .empty timing.corrected).map fun shown =>
          { originalTags := tags
            legacy := state.1
            sources := state.2
            correctedTags := shown
            unresolvedKeys := (tags.entries.map Prod.fst).filter fun key => (assigned.get key).isNone }
      else none
  else none

/-- The migration, with the frames captured by edits and receipts (`plan_with_scopes`). -/
def planWithScopes (format : StartFormat) (o₁ o₂ : BucketOrder) (summaries : List RouteSummary)
    (tags : SortedMap Text (List Text)) (overrides : SortedMap Text (List DriveClipWindow)) : Option TagMigration :=
  planTags (timingPlan format o₁ o₂ summaries) summaries tags overrides

/-! ## Documents after some drives -/

/-- The documents after some windows were tagged: each frame has the tags of the windows that hold it. -/
structure TagsAtFrames (sources : SortedMap Text SourceTags) (done : List (DriveClipWindow × List Text)) : Prop where
  reads : ∀ file source, sources.get file = some source → ∀ doc,
    Document.parse source.document source.totalFrames = some doc → ∀ f < source.totalFrames, ∀ t,
      t ∈ doc.tagsAt f ↔ ∃ d ∈ done, d.1.file = file ∧ holds d.1.range f = true ∧ t ∈ d.2
  present : ∀ d ∈ done, (sources.get d.1.file).isSome

theorem selected_window {w : DriveClipWindow} {f : Nat} :
    selected [(w.startFrame, w.endFrame)] f = true ↔ holds w.range f = true := by
  unfold selected
  rw [List.any_cons, List.any_nil, Bool.or_false]
  exact Iff.rfl

/-- An accepted edit was made on a document that reads. -/
theorem parse_of_applyDelta {value result : TagValue} {total : Nat} {ranges : List (Nat × Nat)} {edit : TagEdit}
    (h : applyDelta value total ranges edit = some result) : ∃ doc, Document.parse value total = some doc := by
  unfold applyDelta at h
  obtain ⟨doc, hdoc, -⟩ := Option.bind_eq_some_iff.mp h
  exact ⟨doc, hdoc⟩

/-- The empty list has no tags anywhere. -/
theorem tagsAt_plain_nil {total : Nat} {doc : Document} (h : Document.parse (.plain []) total = some doc) (f : Nat) :
    doc.tagsAt f = [] := by
  unfold Document.parse at h
  split at h
  · simp at h
  · obtain ⟨default, hdefault, rfl⟩ := Option.map_eq_some_iff.mp h
    have hnil : default = tagSet [] := (readTags_eq_some hdefault).1
    rw [hnil]
    rfl

/-- **One window.** Its frames get its tags, and no other frame changes. -/
theorem TagsAtFrames.tagWindow {summaries : List RouteSummary} {labels : List Text}
    {sources sources' : SortedMap Text SourceTags} {done : List (DriveClipWindow × List Text)} {w : DriveClipWindow}
    (h : TagsAtFrames sources done) (htag : tagWindow summaries labels sources w = some sources') :
    TagsAtFrames sources' (done ++ [(w, labels)]) := by
  unfold Sync.tagWindow at htag
  obtain ⟨row, -, htag⟩ := Option.bind_eq_some_iff.mp htag
  obtain ⟨total, -, htag⟩ := Option.bind_eq_some_iff.mp htag
  dsimp only at htag
  split at htag
  · rename_i hsource
    obtain ⟨document, hdelta, rfl⟩ := Option.map_eq_some_iff.mp htag
    set saved := (sources.get w.file).getD ⟨row.gearRuns.flatMap fun r => [r.gear, r.frames], total, .plain []⟩
      with hsaved
    obtain ⟨doc, hdoc⟩ := parse_of_applyDelta hdelta
    have hdocTotal : doc.total = total := (Document.parsed hdoc).frames
    -- what the document held before
    have hbefore : ∀ f < total, ∀ t, t ∈ doc.tagsAt f
        ↔ ∃ d ∈ done, d.1.file = w.file ∧ holds d.1.range f = true ∧ t ∈ d.2 := by
      intro f hf t
      cases hget : sources.get w.file with
      | some source =>
        rw [hget, Option.getD_some] at hsaved
        rw [hsaved] at hsource hdoc
        exact h.reads w.file source hget doc (by rw [hsource.2.2]; exact hdoc) f (by rw [hsource.2.2]; exact hf) t
      | none =>
        rw [hget, Option.getD_none] at hsaved
        rw [hsaved] at hdoc
        rw [tagsAt_plain_nil hdoc]
        constructor
        · intro ht
          simp at ht
        · rintro ⟨d, hd, hfile, -⟩
          have hpresent := h.present d hd
          rw [hfile, hget] at hpresent
          simp at hpresent
    constructor
    · intro file source hget out hout f hf t
      rw [SortedMap.get_insert] at hget
      by_cases hfile : file = w.file
      · rw [if_pos hfile] at hget
        obtain rfl := Option.some.inj hget
        change Document.parse document saved.totalFrames = some out at hout
        change f < saved.totalFrames at hf
        rw [hsource.2.2] at hout hf
        have hedited := edited_of_reads hdoc hdelta (by rw [hdocTotal]; exact hout)
        cases hselected : selected [(w.startFrame, w.endFrame)] f with
        | true =>
          rw [hedited.inside f hselected t, hbefore f hf t, hfile]
          constructor
          · rintro (⟨⟨d, hd, hin⟩, -⟩ | ht)
            · exact ⟨d, List.mem_append_left _ hd, hin⟩
            · exact ⟨(w, labels), List.mem_append_right _ (List.mem_singleton_self _), rfl, selected_window.mp hselected, ht⟩
          · rintro ⟨d, hd, hin⟩
            rcases List.mem_append.mp hd with hd | hd
            · exact Or.inl ⟨⟨d, hd, hin⟩, by simp⟩
            · rw [List.mem_singleton.mp hd] at hin
              exact Or.inr hin.2.2
        | false =>
          rw [hedited.outside f (by rw [hdocTotal]; exact hf) hselected t, hbefore f hf t, hfile]
          constructor
          · rintro ⟨d, hd, hin⟩
            exact ⟨d, List.mem_append_left _ hd, hin⟩
          · rintro ⟨d, hd, hin⟩
            rcases List.mem_append.mp hd with hd | hd
            · exact ⟨d, hd, hin⟩
            · rw [List.mem_singleton.mp hd] at hin
              have := selected_window.mpr hin.2.1
              rw [hselected] at this
              simp at this
      · -- another clip
        rw [if_neg hfile] at hget
        rw [h.reads file source hget out hout f hf t]
        constructor
        · rintro ⟨d, hd, hin⟩
          exact ⟨d, List.mem_append_left _ hd, hin⟩
        · rintro ⟨d, hd, hin⟩
          rcases List.mem_append.mp hd with hd | hd
          · exact ⟨d, hd, hin⟩
          · rw [List.mem_singleton.mp hd] at hin
            exact absurd hin.1.symm hfile
    · intro d hd
      rw [SortedMap.get_insert]
      split
      · rfl
      · rename_i hfile
        rcases List.mem_append.mp hd with hd | hd
        · exact h.present d hd
        · rw [List.mem_singleton.mp hd] at hfile
          exact absurd rfl hfile
  · simp at htag

/-- The windows of tagged drives, each with the tags of its drive. -/
def taggedWindows (legacy : List LegacyTags) : List (DriveClipWindow × List Text) :=
  legacy.flatMap fun l => l.windows.map fun w => (w, l.tags)

theorem mem_taggedWindows {legacy : List LegacyTags} {d : DriveClipWindow × List Text} :
    d ∈ taggedWindows legacy ↔ ∃ l ∈ legacy, d.1 ∈ l.windows ∧ d.2 = l.tags := by
  unfold taggedWindows
  rw [List.mem_flatMap]
  refine exists_congr fun l => and_congr_right fun _ => ?_
  rw [List.mem_map]
  constructor
  · rintro ⟨w, hw, rfl⟩
    exact ⟨hw, rfl⟩
  · rintro ⟨hw, htags⟩
    exact ⟨d.1, hw, by rw [← htags]⟩

/-- The keys with tags among those assigned, in order. -/
def resolvedKeys (tags : SortedMap Text (List Text)) (assigned : List (Text × List DriveClipWindow)) : List LegacyTags :=
  assigned.filterMap fun e => (tags.get e.1).map fun labels => ⟨e.1, e.2, labels⟩

/-- **All keys.** The documents hold the tags of every key that has some. -/
theorem tagsAtFrames_of_run {summaries : List RouteSummary} {tags : SortedMap Text (List Text)}
    {assigned : List (Text × List DriveClipWindow)} {state : List LegacyTags × SortedMap Text SourceTags}
    (h : run (tagKey summaries tags) ([], .empty) assigned = some state) :
    state.1 = resolvedKeys tags assigned ∧ TagsAtFrames state.2 (taggedWindows state.1) := by
  refine run_invariant (fun done state => state.1 = resolvedKeys tags done
    ∧ TagsAtFrames state.2 (taggedWindows state.1)) h ⟨rfl, ?_, ?_⟩ ?_
  · intro file source hget
    simp at hget
  · intro d hd
    simp [taggedWindows] at hd
  · rintro done e t u - ⟨hlegacy, htags⟩ hstep
    unfold tagKey at hstep
    have hresolved : resolvedKeys tags (done ++ [e]) = resolvedKeys tags done ++ resolvedKeys tags [e] := by
      unfold resolvedKeys
      rw [List.filterMap_append]
    cases hget : tags.get e.1 with
    | none =>
      rw [hget] at hstep
      obtain rfl := Option.some.inj hstep
      refine ⟨?_, htags⟩
      rw [hresolved, hlegacy]
      simp [resolvedKeys, hget]
    | some labels =>
      rw [hget] at hstep
      obtain ⟨sources, hrun, rfl⟩ := Option.map_eq_some_iff.mp hstep
      constructor
      · rw [hresolved, hlegacy]
        simp [resolvedKeys, hget]
      · have hwindows : TagsAtFrames sources (taggedWindows t.1 ++ e.2.map fun w => (w, labels)) := by
          refine run_invariant (fun done sources =>
            TagsAtFrames sources (taggedWindows t.1 ++ done.map fun w => (w, labels))) hrun ?_ ?_
          · rw [List.map_nil, List.append_nil]
            exact htags
          · intro done w s s' _ hdone htag
            rw [List.map_append, ← List.append_assoc]
            exact hdone.tagWindow htag
        have happend : taggedWindows (t.1 ++ [⟨e.1, e.2, labels⟩])
            = taggedWindows t.1 ++ e.2.map fun w => (w, labels) := by
          unfold taggedWindows
          rw [List.flatMap_append, List.flatMap_cons, List.flatMap_nil, List.append_nil]
        show TagsAtFrames sources (taggedWindows (t.1 ++ [⟨e.1, e.2, labels⟩]))
        rw [happend]
        exact hwindows

/-! ## Reading back -/

theorem mem_scopeTags {sources : SortedMap Text SourceTags} {windows : List DriveClipWindow} {found : List Text}
    (h : scopeTags sources windows = some found) :
    tagSet found = found ∧ (∀ w ∈ windows, (windowTags sources w).isSome)
      ∧ ∀ t, t ∈ found ↔ ∃ w ∈ windows, ∃ tags, windowTags sources w = some tags ∧ t ∈ tags := by
  unfold scopeTags at h
  obtain ⟨all, hrun, rfl⟩ := Option.map_eq_some_iff.mp h
  have hall := run_invariant (fun done found => (∀ w ∈ done, (windowTags sources w).isSome)
    ∧ ∀ t, t ∈ found ↔ ∃ w ∈ done, ∃ tags, windowTags sources w = some tags ∧ t ∈ tags) hrun ⟨by simp, by simp⟩ ?_
  · exact ⟨tagSet_tagSet all, hall.1, fun t => mem_tagSet.trans (hall.2 t)⟩
  · rintro done w found next - ⟨hreadable, hmem⟩ hstep
    obtain ⟨tags, hwindow, rfl⟩ := Option.map_eq_some_iff.mp hstep
    refine ⟨fun v hv => ?_, fun t => ?_⟩
    · rcases List.mem_append.mp hv with hv | hv
      · exact hreadable v hv
      · rw [List.mem_singleton.mp hv, hwindow]
        rfl
    · rw [List.mem_append, hmem]
      constructor
      · rintro (⟨v, hv, hin⟩ | ht)
        · exact ⟨v, List.mem_append_left _ hv, hin⟩
        · exact ⟨w, List.mem_append_right _ (List.mem_singleton_self w), tags, hwindow, ht⟩
      · rintro ⟨v, hv, other, hother, ht⟩
        rcases List.mem_append.mp hv with hv | hv
        · exact Or.inl ⟨v, hv, other, hother, ht⟩
        · rw [List.mem_singleton.mp hv, hwindow] at hother
          exact Or.inr (Option.some.inj hother ▸ ht)

/-- Whether two sets of windows hold a common frame of a clip. -/
def SharesFrame (windows others : List DriveClipWindow) : Prop :=
  ∃ w ∈ windows, ∃ v ∈ others, w.file = v.file ∧ ∃ f, holds w.range f = true ∧ holds v.range f = true

/-- **A window reads the tags of the windows it shares a frame with.** -/
theorem mem_windowTags {sources : SortedMap Text SourceTags} {done : List (DriveClipWindow × List Text)}
    (h : TagsAtFrames sources done) {v : DriveClipWindow} {tags : List Text} (hread : windowTags sources v = some tags)
    {t : Text} : t ∈ tags ↔ ∃ d ∈ done, d.1.file = v.file
      ∧ (∃ f, holds d.1.range f = true ∧ holds v.range f = true) ∧ t ∈ d.2 := by
  unfold windowTags at hread
  cases hget : sources.get v.file with
  | none =>
    rw [hget] at hread
    obtain rfl := Option.some.inj hread
    constructor
    · intro ht
      simp at ht
    · rintro ⟨d, hd, hfile, -⟩
      have hpresent := h.present d hd
      rw [hfile, hget] at hpresent
      simp at hpresent
  | some source =>
    rw [hget] at hread
    dsimp only at hread
    obtain ⟨doc, hdoc⟩ : ∃ doc, Document.parse source.document source.totalFrames = some doc := by
      unfold tagsForRanges at hread
      obtain ⟨doc, hdoc, -⟩ := Option.bind_eq_some_iff.mp hread
      exact ⟨doc, hdoc⟩
    have hlt : ∀ f, holds v.range f = true → f < source.totalFrames := by
      intro f hf
      unfold tagsForRanges at hread
      rw [hdoc, Option.bind_some] at hread
      obtain ⟨cuts, hcuts, -⟩ := Option.map_eq_some_iff.mp hread
      rw [← (Document.parsed hdoc).frames]
      exact (isCuts_of_cuts (Document.parsed hdoc) hcuts).lt_total (selected_window.mpr hf)
    rw [mem_tagsForRanges hdoc hread]
    constructor
    · rintro ⟨f, hf, ht⟩
      have hf := selected_window.mp hf
      obtain ⟨d, hd, hfile, hheld, ht⟩ := (h.reads v.file source hget doc hdoc f (hlt f hf) t).mp ht
      exact ⟨d, hd, hfile, ⟨f, hheld, hf⟩, ht⟩
    · rintro ⟨d, hd, hfile, ⟨f, hheld, hf⟩, ht⟩
      exact ⟨f, selected_window.mpr hf, (h.reads v.file source hget doc hdoc f (hlt f hf) t).mpr ⟨d, hd, hfile, hheld, ht⟩⟩

/-- **A drive reads the tags of the drives it shares a frame with.** -/
theorem mem_scopeTags_iff {sources : SortedMap Text SourceTags} {legacy : List LegacyTags}
    (h : TagsAtFrames sources (taggedWindows legacy)) {windows : List DriveClipWindow} {found : List Text}
    (hread : scopeTags sources windows = some found) {t : Text} :
    t ∈ found ↔ ∃ l ∈ legacy, SharesFrame l.windows windows ∧ t ∈ l.tags := by
  obtain ⟨-, hreadable, hmem⟩ := mem_scopeTags hread
  rw [hmem]
  constructor
  · rintro ⟨v, hv, tags, htags, ht⟩
    obtain ⟨d, hd, hfile, hshared, ht⟩ := (mem_windowTags h htags).mp ht
    obtain ⟨l, hl, hw, htags⟩ := mem_taggedWindows.mp hd
    exact ⟨l, hl, ⟨d.1, hw, v, hv, hfile, hshared⟩, htags ▸ ht⟩
  · rintro ⟨l, hl, ⟨w, hw, v, hv, hfile, hshared⟩, ht⟩
    obtain ⟨tags, htags⟩ := Option.isSome_iff_exists.mp (hreadable v hv)
    exact ⟨v, hv, tags, htags, (mem_windowTags h htags).mpr ⟨(w, l.tags), mem_taggedWindows.mpr ⟨l, hl, hw, rfl⟩, hfile, hshared, ht⟩⟩

/-- **Every current drive shows what its windows read.** -/
theorem shown_of_run {sources : SortedMap Text SourceTags} {corrected : List PlannedDrive}
    {shown : SortedMap Text (List Text)} (h : run (projectDrive sources) .empty corrected = some shown) :
    ∀ drive ∈ corrected, ∃ found, shown.get drive.startTime = some found
      ∧ scopeTags sources drive.windows = some found := by
  refine (run_invariant (fun done shown => (∀ drive ∈ done, ∃ found, shown.get drive.startTime = some found
    ∧ scopeTags sources drive.windows = some found)
    ∧ ∀ key found, shown.get key = some found → tagSet found = found) h ⟨by simp, by simp⟩ ?_).1
  rintro done drive m next - ⟨hshown, hcanonical⟩ hstep
  unfold projectDrive at hstep
  split at hstep
  · obtain ⟨found, hfound, hstep⟩ := Option.bind_eq_some_iff.mp hstep
    split at hstep
    · rename_i hsame
      obtain rfl := Option.some.inj hstep
      constructor
      · intro other hother
        rw [SortedMap.get_insert]
        rcases List.mem_append.mp hother with hother | hother
        · obtain ⟨before, hget, hread⟩ := hshown other hother
          by_cases hkey : other.startTime = drive.startTime
          · -- an earlier drive of this start time showed the same
            rw [if_pos hkey]
            rw [hkey] at hget
            rw [hget, Option.all_some, decide_eq_true_eq, hcanonical _ _ hget] at hsame
            exact ⟨found, rfl, hsame ▸ hread⟩
          · rw [if_neg hkey]
            exact ⟨before, hget, hread⟩
        · rw [List.mem_singleton.mp hother, if_pos rfl]
          exact ⟨found, rfl, hfound⟩
      · intro key tags hget
        rw [SortedMap.get_insert] at hget
        split at hget
        · rw [← Option.some.inj hget]
          exact (mem_scopeTags hfound).1
        · exact hcanonical key tags hget
    · simp at hstep
  · simp at hstep

/-! ## What the migration is for -/

/-- The frames of the retired drives of each start time. -/
theorem get_legacyWindows (legacy : List PlannedDrive) (m : SortedMap Text (List DriveClipWindow)) (key : Text) :
    (legacy.foldl (fun m drive => m.insert drive.startTime ((m.get drive.startTime).getD [] ++ drive.windows)) m).get key
      = if ∃ old ∈ legacy, old.startTime = key then
          some ((m.get key).getD [] ++ (legacy.filter fun old => decide (old.startTime = key)).flatMap PlannedDrive.windows)
        else m.get key := by
  induction legacy generalizing m with
  | nil => simp
  | cons old legacy ih =>
    rw [List.foldl_cons, ih, SortedMap.get_insert]
    by_cases hkey : old.startTime = key
    · rw [if_pos hkey.symm, hkey, List.filter_cons_of_pos (by simp [hkey])]
      by_cases hlater : ∃ other ∈ legacy, other.startTime = key
      · rw [if_pos hlater, if_pos ⟨old, List.mem_cons_self, hkey⟩]
        simp [List.append_assoc]
      · have hnone : legacy.filter (fun old => decide (old.startTime = key)) = [] := by
          rw [List.filter_eq_nil_iff]
          intro other hother hsame
          exact hlater ⟨other, hother, by simpa using hsame⟩
        rw [if_neg hlater, if_pos ⟨old, List.mem_cons_self, hkey⟩, hnone]
        simp
    · rw [if_neg (Ne.symm hkey), List.filter_cons_of_neg (by simp [hkey])]
      simp only [List.exists_mem_cons_iff, hkey, false_or]

/-- **The frames of a key**: those captured with an edit, or those of the retired drives that start there. -/
theorem get_assignments (legacy : List PlannedDrive) (overrides : SortedMap Text (List DriveClipWindow)) (key : Text) :
    (assignments legacy overrides).get key = (overrides.get key).or
      (if ∃ old ∈ legacy, old.startTime = key then
        some ((legacy.filter fun old => decide (old.startTime = key)).flatMap PlannedDrive.windows) else none) := by
  unfold assignments
  rw [SortedMap.get_foldl_insert overrides.sorted, get_legacyWindows]
  rfl

theorem mem_resolvedKeys {tags : SortedMap Text (List Text)} {assigned : SortedMap Text (List DriveClipWindow)}
    {l : LegacyTags} : l ∈ resolvedKeys tags assigned.entries
      ↔ assigned.get l.key = some l.windows ∧ tags.get l.key = some l.tags := by
  unfold resolvedKeys
  rw [List.mem_filterMap]
  constructor
  · rintro ⟨e, he, hl⟩
    obtain ⟨labels, hlabels, rfl⟩ := Option.map_eq_some_iff.mp hl
    exact ⟨SortedMap.mem_entries.mp he, hlabels⟩
  · rintro ⟨hwindows, htags⟩
    refine ⟨(l.key, l.windows), SortedMap.mem_entries.mpr hwindows, ?_⟩
    rw [htags]
    rfl

/-- **A migration that keeps every tag.** The drives it resolves are the tagged ones, on their own frames or the captured
ones; each reads back exactly its tags; and a current drive shows exactly the tags of the resolved drives it shares a
frame with. -/
structure TagsPreserved (timing : TimingPlan) (tags : SortedMap Text (List Text))
    (overrides : SortedMap Text (List DriveClipWindow)) (m : TagMigration) : Prop where
  resolved : ∀ old ∈ timing.legacy, ∀ labels, tags.get old.startTime = some labels →
    overrides.get old.startTime = none →
    ∃ l ∈ m.legacy, l.key = old.startTime ∧ l.tags = labels ∧ ∀ w ∈ old.windows, w ∈ l.windows
  captured : ∀ key windows labels, overrides.get key = some windows → tags.get key = some labels →
    ⟨key, windows, labels⟩ ∈ m.legacy
  stored : ∀ l ∈ m.legacy, tags.get l.key = some l.tags ∧ (overrides.get l.key = some l.windows
    ∨ ∀ w ∈ l.windows, ∃ old ∈ timing.legacy, old.startTime = l.key ∧ w ∈ old.windows)
  recovered : ∀ l ∈ m.legacy, scopeTags m.sources l.windows = some (tagSet l.tags)
  shown : ∀ new ∈ timing.corrected, ∃ found, m.correctedTags.get new.startTime = some found
    ∧ ∀ t, t ∈ found ↔ ∃ l ∈ m.legacy, SharesFrame l.windows new.windows ∧ t ∈ l.tags

theorem planTags_preserves {timing : TimingPlan} {summaries : List RouteSummary} {tags : SortedMap Text (List Text)}
    {overrides : SortedMap Text (List DriveClipWindow)} {m : TagMigration}
    (h : planTags timing summaries tags overrides = some m) : TagsPreserved timing tags overrides m := by
  unfold planTags at h
  split at h
  · obtain ⟨state, hrun, h⟩ := Option.bind_eq_some_iff.mp h
    split at h
    · rename_i hkept
      obtain ⟨shown, hshown, rfl⟩ := Option.map_eq_some_iff.mp h
      obtain ⟨hlegacy, htags⟩ := tagsAtFrames_of_run hrun
      have hmem : ∀ l, l ∈ state.1 ↔ (assignments timing.legacy overrides).get l.key = some l.windows
          ∧ tags.get l.key = some l.tags := by
        intro l
        rw [hlegacy]
        exact mem_resolvedKeys
      refine ⟨fun old hold labels hlabels hoverride => ?_, fun key windows labels hwindows hlabels => ?_,
        fun l hl => ?_, fun l hl => ?_, fun new hnew => ?_⟩
      · have hassigned := get_assignments timing.legacy overrides old.startTime
        rw [hoverride, Option.none_or, if_pos ⟨old, hold, rfl⟩] at hassigned
        refine ⟨⟨old.startTime, _, labels⟩, (hmem _).mpr ⟨hassigned, hlabels⟩, rfl, rfl, fun w hw => ?_⟩
        exact List.mem_flatMap.mpr ⟨old, List.mem_filter.mpr ⟨hold, by simp⟩, hw⟩
      · refine (hmem _).mpr ⟨?_, hlabels⟩
        rw [get_assignments, hwindows]
        rfl
      · obtain ⟨hassigned, hlabels⟩ := (hmem l).mp hl
        refine ⟨hlabels, ?_⟩
        rw [get_assignments] at hassigned
        cases hoverride : overrides.get l.key with
        | some windows =>
          rw [hoverride, Option.some_or] at hassigned
          exact Or.inl hassigned
        | none =>
          rw [hoverride, Option.none_or] at hassigned
          split at hassigned
          · right
            intro w hw
            rw [← Option.some.inj hassigned] at hw
            obtain ⟨old, hold, hw⟩ := List.mem_flatMap.mp hw
            obtain ⟨hold, hkey⟩ := List.mem_filter.mp hold
            exact ⟨old, hold, by simpa using hkey, hw⟩
          · simp at hassigned
      · obtain ⟨hassigned, hlabels⟩ := (hmem l).mp hl
        unfold scopesKept at hkept
        have hone := List.all_eq_true.mp hkept (l.key, l.windows) (SortedMap.mem_entries.mpr hassigned)
        rw [Bool.or_eq_true, Bool.and_eq_true, hlabels, decide_eq_true_eq] at hone
        rcases hone with hskipped | hread
        · simp at hskipped
        · exact hread
      · obtain ⟨found, hget, hread⟩ := shown_of_run hshown new hnew
        exact ⟨found, hget, fun t => mem_scopeTags_iff htags hread⟩
    · simp at h
  · simp at h

/-- **The tag migration preserves every tag.** Whenever it succeeds, for any rows, stored tags and captured frames. -/
theorem planWithScopes_preserves {format : StartFormat} {o₁ o₂ : BucketOrder} {summaries : List RouteSummary}
    {tags : SortedMap Text (List Text)} {overrides : SortedMap Text (List DriveClipWindow)} {m : TagMigration}
    (h : planWithScopes format o₁ o₂ summaries tags overrides = some m) :
    TagsPreserved (timingPlan format o₁ o₂ summaries) tags overrides m := planTags_preserves h

/-- Two drives with a parked clip between them that lasted one second. -/
def shortStop : List RouteSummary :=
  [noonClip [⟨4, 60⟩],
    { noonClip [⟨0, 60⟩] with file := "2026-01-01_12-01-00-front.mp4".toList },
    { noonClip [⟨4, 60⟩] with file := "2026-01-01_12-01-01-front.mp4".toList }]

/-- Both drives are tagged. -/
def twoTagged : SortedMap Text (List Text) :=
  (SortedMap.empty.insert "2026-01-01T12:00:00".toList ["Work".toList]).insert "2026-01-01T12:01:01".toList
    ["Personal".toList]

/-- The drives become one, and it shows the tags of both. -/
theorem planWithScopes_preserves_shortStop : ∃ m,
    TagsPreserved (timingPlan noonFormat .forward .forward shortStop) twoTagged .empty m
      ∧ m.correctedTags.get "2026-01-01T12:00:00.000".toList = some ["Personal".toList, "Work".toList] := by
  have hsome : (planWithScopes noonFormat .forward .forward shortStop twoTagged .empty).bind (fun m =>
      m.correctedTags.get "2026-01-01T12:00:00.000".toList) = some ["Personal".toList, "Work".toList] := by
    decide +kernel
  obtain ⟨m, hm, hshown⟩ := Option.bind_eq_some_iff.mp hsome
  exact ⟨m, planWithScopes_preserves hm, hshown⟩

end SentryUsb.Sync
