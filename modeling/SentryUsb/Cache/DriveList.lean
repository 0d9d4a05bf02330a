import SentryUsb.Grouper.Summaries

/-! # The drive list and its full rebuild

What the drive list cache stores: one entry per drive of the grouping, with the drive's position as
its id and the tags stored under its start time, less the Tessie drives a native drive overlaps.

* **`groupSummariesFast`** — the un-hidden list (`grouper.rs`, `group_summaries_fast`);
* **`hideTessieOverlappingSei`** — the overlap filter (`hide_tessie_overlapping_sei`);
* **`fullRebuild`** — the list a full rebuild writes (`db.rs`, `full_rebuild_inner`);
* **`groupSummaryClips_void`** — a void between the rows cuts the grouping in two. -/

namespace SentryUsb

open Library

/-- Tags by drive key; a key is the start time of a drive. -/
abbrev TagMap := Int → List Text

/-- One entry of the drive list. `clips` stands for the statistics, which are functions of the clips
alone. -/
structure DriveSummary where
  id : Nat
  startTime : Int
  endTime : Int
  source : Text
  tags : List Text
  clips : List SubClip

/-- End of a sub-clip: its start plus the real length of its frame window. -/
def SubClip.endTime (c : SubClip) : Int :=
  c.timestamp + frameSpanMs c.startFrame c.endFrame c.totalFrames c.clipSpanMs

/-- The list entry of a drive (`build_summary_from_aggregates`); its position is its id. -/
def buildSummaryFromAggregates (tags : TagMap) (clips : List SubClip) (idx : Nat) : DriveSummary :=
  let start := (groupStart clips).getD 0
  { id := idx
    startTime := start
    endTime := (clips.getLast?.map SubClip.endTime).getD 0
    source := (clips.head?.bind fun c => c.summary.source).getD "sei".toList
    tags := tags start
    clips := clips }

/-- Number a list of drives from a position on. -/
def numberFrom (tags : TagMap) : Nat → List (List SubClip) → List DriveSummary
  | _, [] => []
  | n, g :: gs => buildSummaryFromAggregates tags g n :: numberFrom tags (n + 1) gs

/-- The drives of a list of rows (`group_summaries_fast`). -/
def groupSummariesFast (o : BucketOrder) (rows : List RouteSummary) (tags : TagMap) :
    List DriveSummary :=
  numberFrom tags 0 (groupSummaryClips o rows)

/-! ## Hidden imports -/

/-- Whether an entry is a Tessie import. -/
def isTessie (d : DriveSummary) : Bool := decide (d.source = "tessie".toList)

/-- Whole seconds of an instant. -/
def isoSeconds (ms : Int) : Int := ms / 1000

/-- Walk the native ranges in start order; one that ended by `ts` is passed, and the walk stops at
the first that starts at `te` or later. -/
def overlapsRange (ts te : Int) : List (Int × Int) → Bool
  | [] => false
  | (rs, re) :: rest =>
    if re ≤ ts then overlapsRange ts te rest else if te ≤ rs then false else true

/-- Drop the Tessie drives a native drive overlaps (`hide_tessie_overlapping_sei`). -/
def hideTessieOverlappingSei (drives : List DriveSummary) : List DriveSummary :=
  let ranges := (drives.filter fun d => !isTessie d).map fun d =>
    (isoSeconds d.startTime, isoSeconds d.endTime)
  let sorted := ranges.insertionSort fun a b => a.1 ≤ b.1
  drives.filter fun d =>
    !isTessie d || !overlapsRange (isoSeconds d.startTime) (isoSeconds d.endTime) sorted

/-- The list a full rebuild writes. -/
def fullRebuild (o : BucketOrder) (rows : List RouteSummary) (tags : TagMap) : List DriveSummary :=
  hideTessieOverlappingSei (groupSummariesFast o rows tags)

theorem hideTessie_eq_self {drives : List DriveSummary}
    (h : (hideTessieOverlappingSei drives).length = drives.length) :
    hideTessieOverlappingSei drives = drives :=
  List.filter_sublist.eq_of_length h

/-! ## Numbering -/

theorem numberFrom_append (tags : TagMap) (n : Nat) (l m : List (List SubClip)) :
    numberFrom tags n (l ++ m) = numberFrom tags n l ++ numberFrom tags (n + l.length) m := by
  induction l generalizing n with
  | nil => simp [numberFrom]
  | cons g l ih =>
    simp only [List.cons_append, numberFrom, ih, List.length_cons]
    rw [Nat.add_right_comm, Nat.add_assoc]

@[simp] theorem length_numberFrom (tags : TagMap) (n : Nat) (l : List (List SubClip)) :
    (numberFrom tags n l).length = l.length := by
  induction l generalizing n with
  | nil => rfl
  | cons g l ih => simp [numberFrom, ih]

/-- Every entry is the entry of a drive. -/
theorem mem_numberFrom {tags : TagMap} {n : Nat} {l : List (List SubClip)} {d : DriveSummary}
    (h : d ∈ numberFrom tags n l) : ∃ g ∈ l, ∃ i, d = buildSummaryFromAggregates tags g i := by
  induction l generalizing n with
  | nil => simp [numberFrom] at h
  | cons g l ih =>
    rcases List.mem_cons.mp h with rfl | h
    · exact ⟨g, by simp, n, rfl⟩
    · obtain ⟨g', hg', i, rfl⟩ := ih h
      exact ⟨g', List.mem_cons_of_mem g hg', i, rfl⟩

/-! ## Rows and voids -/

/-- The rows recorded from `B` on. -/
def rowsFrom (B : Int) (rows : List RouteSummary) : List RouteSummary :=
  rows.filter fun r => recordedFrom B r.file

/-- The other rows. -/
def rowsBefore (B : Int) (rows : List RouteSummary) : List RouteSummary :=
  rows.filter fun r => !recordedFrom B r.file

/-- No row lies within the widest window of the grouping before `B`. -/
def RowVoid (B : Int) (rows : List RouteSummary) : Prop :=
  ∀ r ∈ rows, ∀ t, parseClipTimestamp r.file = some t → t < B → t + gapFillMaxMs < B

/-- **A void between the rows cuts the grouping in two.** -/
theorem groupSummaryClips_void (o : BucketOrder) {B : Int} {rows : List RouteSummary}
    (h : RowVoid B rows) :
    groupSummaryClips o rows
      = groupSummaryClips o (rowsBefore B rows) ++ groupSummaryClips o (rowsFrom B rows) := by
  have hentries : VoidBefore B (rows.map summaryEntry) := by
    intro c hc
    obtain ⟨r, hr, rfl⟩ := List.mem_map.mp hc
    exact h r hr
  have hbefore : entriesBefore B (rows.map summaryEntry) = (rowsBefore B rows).map summaryEntry :=
    List.filter_map
  have hfrom : entriesFrom B (rows.map summaryEntry) = (rowsFrom B rows).map summaryEntry :=
    List.filter_map
  simp only [groupSummaryClips, groupSummaryClipsWithClock, gearGroups]
  rw [timeGroups_void hentries, hbefore, hfrom, List.flatMap_append, List.flatMap_append]

/-- Every sub-clip of a drive is a window of one of the rows, at its clip time. -/
theorem mem_groupSummaryClips {o : BucketOrder} {rows : List RouteSummary} {g : List SubClip}
    {c : SubClip} (hg : g ∈ groupSummaryClips o rows) (hc : c ∈ g) :
    ∃ t : Timed RouteSummary, t.row ∈ rows ∧ parseClipTimestamp t.row.file = some t.timestamp
      ∧ 0 < t.clipSpanMs ∧ t.clipSpanMs ≤ clipDurationMs ∧ SubClipOf actualClock t c := by
  obtain ⟨gg, hgg, hd⟩ := List.mem_flatMap.mp hg
  obtain ⟨-, p, rfl⟩ := exists_filter_of_mem_split (ne_nil_of_mem_gearGroups hgg) hd
  have hcgg : c ∈ gg := List.mem_of_mem_filter hc
  obtain ⟨tg, htg, hsplit⟩ := List.mem_flatMap.mp hgg
  obtain ⟨t, ht, hof⟩ := mem_splitSummaryByGearState hsplit hcgg
  obtain ⟨e, he, hrow, hparse, hpos, hle⟩ := mem_timeline (mem_timeline_of_mem_timeGroups htg ht)
  obtain ⟨r, hr, rfl⟩ := List.mem_map.mp he
  refine ⟨t, ?_, ?_, hpos, hle, hof⟩
  · rw [hrow]
    exact hr
  · rw [hrow]
    exact hparse

theorem ne_nil_of_mem_groupSummaryClips {o : BucketOrder} {rows : List RouteSummary}
    {g : List SubClip} (hg : g ∈ groupSummaryClips o rows) : g ≠ [] := by
  obtain ⟨gg, hgg, hd⟩ := List.mem_flatMap.mp hg
  exact (exists_filter_of_mem_split (ne_nil_of_mem_gearGroups hgg) hd).1

end SentryUsb
