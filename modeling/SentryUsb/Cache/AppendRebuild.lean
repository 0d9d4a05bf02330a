import SentryUsb.Cache.DriveList

/-! # The append fast path of the drive list cache

When every change since the last rebuild is a row at or after a watermark, the cache regroups only
the rows after a void and splices the new drives onto the cached prefix. The rows it looks at are
selected by path: the day folders from shortly before the watermark up to the newest native day, the
Tessie rows of those days, and all event rows.

* **`tryAppendRebuild`** — the fast path (`db.rs`, `try_append_rebuild`), `none` when it bails;
* **`AppendSafe`** — the window query sees every row from the window start on, no row hides just
  before a window without a void, and frame counts do not overflow;
* **`tryAppendRebuild_eq_fullRebuild`** — the spliced list is then the fully rebuilt one;
* **`tryAppendRebuild_drops_import`** — an import dated after the newest native day is lost. -/

namespace SentryUsb

open Library

/-! ## The window -/

/-- A void no grouping rule reaches across: the drive gap plus twice the gap-fill cap. -/
def quietMs : Int := driveGapMs + 2 * gapFillMaxMs

/-- Milliseconds of a day. -/
def dayMs : Int := 24 * 60 * 60 * 1000

/-- Where the window begins: a quiet zone, one more cap and a day before the watermark. -/
def windowStart (watermark : Int) : Int := watermark - (quietMs + gapFillMaxMs) - dayMs

/-- SQLite `LIKE 'pattern%'`: a prefix match that ignores the case of ASCII letters. -/
def likePrefix (pat : String) (file : Text) : Bool :=
  (pat.toList.map Char.toLower).isPrefixOf (file.map Char.toLower)

/-- Whether a path is spelled `DDDD-DD-DD` at its start (the `GLOB` of the path check). -/
def globDate (file : Text) : Bool :=
  (digitsAt file 0 4).isSome && decide (file[4]? = some '-') && (digitsAt file 5 2).isSome
    && decide (file[7]? = some '-') && (digitsAt file 8 2).isSome

/-- Whether a path sorts before the letters. -/
def beforeLetters (file : Text) : Bool := decide (file < ['A'])

/-- A path of a family the window query does not select (`UNKNOWN_ROUTE_PATHS_SQL`). -/
def unknownPath (file : Text) : Bool :=
  if beforeLetters file then !globDate file
  else !likePrefix "SavedClips/" file && !likePrefix "SentryClips/" file
    && !likePrefix "tessie/" file

/-- The day a path starts with, if it spells a calendar date. -/
def dayOf (file : Text) : Option Int :=
  if globDate file then
    match digitsAt file 0 4, digitsAt file 5 2, digitsAt file 8 2 with
    | some y, some m, some d =>
      if 1 ≤ m ∧ m ≤ 12 ∧ 1 ≤ d ∧ d ≤ daysInMonth y m then some (dayNumber y m d) else none
    | _, _, _ => none
  else none

/-- The greatest date-keyed path. -/
def newestFile (files : List Text) : Option Text :=
  (files.filter beforeLetters).foldl (fun best f => match best with
    | none => some f
    | some b => if b < f then some f else some b) none

/-- Day of the newest native row. -/
def newestDay (rows : List RouteSummary) : Option Int :=
  (newestFile (rows.map RouteSummary.file)).bind dayOf

/-- A path between `DAY/` and `DAY~` for a day of the range: the day, then a character from `/` up to
`~`. -/
def inDayRange (first last : Int) (file : Text) : Bool :=
  (dayOf file).any (fun d => decide (first ≤ d) && decide (d ≤ last))
    && file[10]?.any fun c => decide ('/' ≤ c) && decide (c < '~')

/-- The window query: day folders, Tessie rows of those days, and all event rows. -/
def inWindow (first last : Int) (file : Text) : Bool :=
  inDayRange first last file
    || ("tessie/".toList.isPrefixOf file && inDayRange first last (file.drop 7))
    || likePrefix "SavedClips/" file || likePrefix "SentryClips/" file
    || likePrefix "SavedClips\\" file || likePrefix "SentryClips\\" file

/-! ## The splice -/

/-- The cached list with its gates: nothing hidden when it was written, grouped by the current
algorithm, tag count present. -/
structure DriveListCache where
  list : List DriveSummary
  noHidden : Bool
  algoCurrent : Bool
  tagsCounted : Bool

/-- Clip times of the rows from the window start on, sorted. -/
def windowStamps (watermark : Int) (rows : List RouteSummary) : List Int :=
  ((rowsFrom (windowStart watermark) rows).filterMap fun r => parseClipTimestamp r.file).insertionSort
    (· ≤ ·)

/-- End of the latest quiet void that ends by the watermark. -/
def voidCut (watermark : Int) (stamps : List Int) : Option Int :=
  ((stamps.zip stamps.tail).filter fun w =>
    decide (w.2 ≤ watermark) && decide (quietMs ≤ w.2 - w.1)).getLast?.map Prod.snd

/-- The cut: the latest void, or else the first clip of the window if the cached list ends a quiet
zone before it. -/
def cutoffOf (watermark : Int) (stamps : List Int) (cached : List DriveSummary) : Option Int :=
  match voidCut watermark stamps with
  | some b => some b
  | none => stamps.head?.bind fun first => match cached.getLast? with
    | some d => if quietMs ≤ first - d.endTime then some first else none
    | none => some first

/-- The list the fast path writes; `none` when it bails (`try_append_rebuild`). -/
def tryAppendRebuild (o : BucketOrder) (rows : List RouteSummary) (tags : TagMap)
    (cached : Option DriveListCache) (watermark : Int) : Option (List DriveSummary) :=
  cached.bind fun cache =>
    if !cache.noHidden || !cache.algoCurrent || !cache.tagsCounted then none
    else if rows.any fun r => unknownPath r.file then none
    else (newestDay rows).bind fun newest =>
      let first := windowStart watermark / dayMs
      if newest - first < 0 ∨ 60 < newest - first then none
      else
        let window := rows.filter fun r => inWindow first (newest + 1) r.file
        if window.any fun r => (parseClipTimestamp r.file).isNone then none
        else (cutoffOf watermark (windowStamps watermark window) cache.list).bind fun cutoff =>
          let suffix := groupSummaryClips o (rowsFrom cutoff (rowsFrom (windowStart watermark) window))
          let kept := cache.list.filter fun d => decide (d.startTime < cutoff)
          if kept.getLast?.any fun d => decide (cutoff ≤ d.endTime) then none
          else some (hideTessieOverlappingSei (kept ++ numberFrom tags kept.length suffix))

/-- The cache a full rebuild of `rows` leaves behind. -/
def CacheOf (o : BucketOrder) (rows : List RouteSummary) (tags : TagMap) (cache : DriveListCache) :
    Prop :=
  cache.list = fullRebuild o rows tags
    ∧ cache.noHidden
      = decide ((groupSummariesFast o rows tags).length = (fullRebuild o rows tags).length)

/-- **When the fast path may be trusted.** The window query selects every row recorded from the
window start on; if the window holds no void, no earlier row lies within the gap-fill cap before its
first clip; and no clip's frame count overflows. -/
structure AppendSafe (rows : List RouteSummary) (watermark : Int) : Prop where
  window : ∀ newest, newestDay rows = some newest → ∀ r ∈ rows,
    recordedFrom (windowStart watermark) r.file = true →
      inWindow (windowStart watermark / dayMs) (newest + 1) r.file = true
  edge : voidCut watermark (windowStamps watermark rows) = none →
    ∀ first, (windowStamps watermark rows).head? = some first → RowVoid first rows
  frames : ∀ r ∈ rows, (r.gearRuns.map GearRun.frames).sum < u32Size

/-! ## Times of a drive -/

/-- Without overflow, a sub-clip starts within its clip's minute. -/
theorem SubClipOf.timestamp_bounds {t : Timed RouteSummary} {c : SubClip}
    (h : SubClipOf actualClock t c) (hpos : 0 < t.clipSpanMs) (hle : t.clipSpanMs ≤ clipDurationMs)
    (hframes : (t.row.gearRuns.map GearRun.frames).sum < u32Size) :
    t.timestamp ≤ c.timestamp ∧ c.timestamp ≤ t.timestamp + clipDurationMs := by
  have hv := window_values
  cases h with
  | whole => simp only [SubClip.whole]; omega
  | full _ => simp only; omega
  | window seg hseg _ =>
    have hb := (clipSegs_bounds actualClock t.clipSpanMs hframes seg hseg).1
    have h0 := frameOffsetMs_nonneg seg.start (frameSum t.row.gearRuns) t.clipSpanMs
    have h1 := frameOffsetMs_le_span hb (le_of_lt hpos)
    simp only [SubClip.window, actualClock]
    omega

/-- A drive of rows recorded before a void starts before it ends. -/
theorem groupStart_lt_of_rowsBefore {o : BucketOrder} {B : Int} {rows : List RouteSummary}
    (hvoid : RowVoid B rows) (hframes : ∀ r ∈ rows, (r.gearRuns.map GearRun.frames).sum < u32Size)
    {g : List SubClip} (hg : g ∈ groupSummaryClips o (rowsBefore B rows)) :
    (groupStart g).getD 0 < B := by
  have hv := window_values
  obtain ⟨c, rest, rfl⟩ := List.exists_cons_of_ne_nil (ne_nil_of_mem_groupSummaryClips hg)
  obtain ⟨t, hrow, hparse, hpos, hle, hof⟩ := mem_groupSummaryClips hg List.mem_cons_self
  obtain ⟨hmem, hbefore⟩ := List.mem_filter.mp hrow
  have hb := hof.timestamp_bounds hpos hle (hframes _ hmem)
  have hlt : t.timestamp < B := by simpa [recordedFrom, hparse] using hbefore
  have := hvoid _ hmem _ hparse hlt
  simp only [groupStart, List.head?_cons, Option.map_some, Option.getD_some]
  omega

/-- A drive of rows recorded from `B` on starts at `B` or later. -/
theorem le_groupStart_of_rowsFrom {o : BucketOrder} {B : Int} {rows : List RouteSummary}
    (hframes : ∀ r ∈ rows, (r.gearRuns.map GearRun.frames).sum < u32Size)
    {g : List SubClip} (hg : g ∈ groupSummaryClips o (rowsFrom B rows)) :
    B ≤ (groupStart g).getD 0 := by
  obtain ⟨c, rest, rfl⟩ := List.exists_cons_of_ne_nil (ne_nil_of_mem_groupSummaryClips hg)
  obtain ⟨t, hrow, hparse, hpos, hle, hof⟩ := mem_groupSummaryClips hg List.mem_cons_self
  obtain ⟨hmem, hfrom⟩ := List.mem_filter.mp hrow
  have hb := hof.timestamp_bounds hpos hle (hframes _ hmem)
  have hge : B ≤ t.timestamp := by simpa [recordedFrom, hparse] using hfrom
  simp only [groupStart, List.head?_cons, Option.map_some, Option.getD_some]
  omega

/-! ## The cut is a void -/

/-- Between two neighbours of a sorted list there is nothing. -/
theorem le_of_mem_zip_tail {l : List Int} (hl : l.Pairwise (· ≤ ·)) {a b x : Int}
    (hab : (a, b) ∈ l.zip l.tail) (hx : x ∈ l) (hxb : x < b) : x ≤ a := by
  induction l with
  | nil => simp at hx
  | cons y l ih =>
    cases l with
    | nil => simp at hab
    | cons z l =>
      rw [List.pairwise_cons] at hl
      rcases List.mem_cons.mp hab with heq | hab
      · obtain ⟨rfl, rfl⟩ : a = y ∧ b = z := by simpa using heq
        rcases List.mem_cons.mp hx with rfl | hx
        · exact le_refl _
        · rcases List.mem_cons.mp hx with rfl | hx
          · omega
          · have := (List.pairwise_cons.mp hl.2).1 x hx
            omega
      · have ha : a ∈ z :: l := (List.of_mem_zip hab).1
        rcases List.mem_cons.mp hx with rfl | hx
        · exact hl.1 a ha
        · exact ih hl.2 hab hx

theorem pairwise_windowStamps (watermark : Int) (rows : List RouteSummary) :
    (windowStamps watermark rows).Pairwise (· ≤ ·) :=
  List.pairwise_insertionSort _ _

theorem mem_windowStamps {watermark : Int} {rows : List RouteSummary} {t : Int} :
    t ∈ windowStamps watermark rows
      ↔ windowStart watermark ≤ t ∧ ∃ r ∈ rows, parseClipTimestamp r.file = some t := by
  simp only [windowStamps, List.mem_insertionSort, List.mem_filterMap, rowsFrom, List.mem_filter]
  constructor
  · rintro ⟨r, ⟨hr, hfrom⟩, ht⟩
    exact ⟨by simpa [recordedFrom, ht] using hfrom, r, hr, ht⟩
  · rintro ⟨hge, r, hr, ht⟩
    exact ⟨r, ⟨hr, by simpa [recordedFrom, ht] using hge⟩, ht⟩

variable {rows : List RouteSummary} {watermark cutoff : Int}

/-- A void of the stamps is a void of the rows, and ends by the watermark. -/
theorem rowVoid_of_voidCut (h : voidCut watermark (windowStamps watermark rows) = some cutoff) :
    RowVoid cutoff rows ∧ cutoff ≤ watermark ∧ windowStart watermark ≤ cutoff := by
  have hv := window_values
  obtain ⟨⟨a, b⟩, hlast, rfl⟩ := Option.map_eq_some_iff.mp h
  obtain ⟨hpair, hcond⟩ := List.mem_filter.mp (List.mem_of_getLast? hlast)
  simp only [Bool.and_eq_true, decide_eq_true_eq] at hcond
  obtain ⟨hwm, hquiet⟩ := hcond
  unfold quietMs at hquiet
  have hz := List.of_mem_zip hpair
  have ha := (mem_windowStamps.mp hz.1).1
  have hb := (mem_windowStamps.mp (List.mem_of_mem_tail hz.2)).1
  refine ⟨fun r hr t ht htb => ?_, hwm, hb⟩
  by_cases hws : windowStart watermark ≤ t
  · have := le_of_mem_zip_tail (pairwise_windowStamps watermark rows) hpair
      (mem_windowStamps.mpr ⟨hws, r, hr, ht⟩) htb
    omega
  · omega

/-- The first stamp bounds every row of the window from below. -/
theorem head_windowStamps_le {first : Int}
    (h : (windowStamps watermark rows).head? = some first) {r : RouteSummary} (hr : r ∈ rows) {t : Int}
    (ht : parseClipTimestamp r.file = some t) (hws : windowStart watermark ≤ t) : first ≤ t := by
  obtain ⟨tail, htail⟩ := List.head?_eq_some_iff.mp h
  have hmem : t ∈ windowStamps watermark rows := mem_windowStamps.mpr ⟨hws, r, hr, ht⟩
  have hsorted := pairwise_windowStamps watermark rows
  rw [htail] at hmem hsorted
  rcases List.mem_cons.mp hmem with rfl | hmem
  · exact le_refl _
  · exact (List.pairwise_cons.mp hsorted).1 t hmem

/-- **Every cut of a safe append is a void of the rows**, and every row at or after the watermark lies
behind it. -/
theorem rowVoid_of_cutoffOf (hsafe : AppendSafe rows watermark) {cached : List DriveSummary}
    (h : cutoffOf watermark (windowStamps watermark rows) cached = some cutoff) :
    RowVoid cutoff rows ∧ windowStart watermark ≤ cutoff
      ∧ ∀ r ∈ rows, ∀ t, parseClipTimestamp r.file = some t → watermark ≤ t → cutoff ≤ t := by
  have hv := window_values
  have hws : windowStart watermark ≤ watermark := by unfold windowStart quietMs dayMs; omega
  unfold cutoffOf at h
  cases hvoid : voidCut watermark (windowStamps watermark rows) with
  | some b =>
    rw [hvoid] at h
    obtain rfl := Option.some.inj h
    obtain ⟨h1, h2, h3⟩ := rowVoid_of_voidCut hvoid
    exact ⟨h1, h3, fun r _ t _ ht => le_trans h2 ht⟩
  | none =>
    rw [hvoid] at h
    obtain ⟨first, hfirst, hsome⟩ := Option.bind_eq_some_iff.mp h
    obtain rfl : first = cutoff := by
      split at hsome
      · split at hsome
        · exact Option.some.inj hsome
        · simp at hsome
      · exact Option.some.inj hsome
    have hmem := mem_windowStamps.mp (List.mem_of_mem_head? hfirst)
    refine ⟨hsafe.edge hvoid _ hfirst, hmem.1, fun r hr t ht hwt => ?_⟩
    exact head_windowStamps_le hfirst hr ht (le_trans hws hwt)

/-! ## The splice is the full rebuild -/

/-- The window query keeps every row from the window start on. -/
theorem rowsFrom_window (hsafe : AppendSafe rows watermark) {newest : Int}
    (hnewest : newestDay rows = some newest) :
    rowsFrom (windowStart watermark)
        (rows.filter fun r => inWindow (windowStart watermark / dayMs) (newest + 1) r.file)
      = rowsFrom (windowStart watermark) rows := by
  unfold rowsFrom
  rw [List.filter_filter]
  refine List.filter_congr fun r hr => ?_
  cases hfrom : recordedFrom (windowStart watermark) r.file with
  | false => simp
  | true => simpa using hsafe.window newest hnewest r hr hfrom

/-- Reading from `B` on after reading from an earlier instant on loses nothing. -/
theorem rowsFrom_rowsFrom {A B : Int} (hAB : A ≤ B) (rows : List RouteSummary) :
    rowsFrom B (rowsFrom A rows) = rowsFrom B rows := by
  unfold rowsFrom
  rw [List.filter_filter]
  refine List.filter_congr fun r _ => ?_
  cases hparse : parseClipTimestamp r.file with
  | none => simp [recordedFrom, hparse]
  | some t =>
    simp only [recordedFrom, hparse, Option.any_some]
    grind

/-- Rows recorded at or after the cut do not touch what lies before it. -/
theorem rowsBefore_filter {p : RouteSummary → Bool} {B : Int}
    (hnew : ∀ r ∈ rows, p r = false → recordedFrom B r.file = true) :
    rowsBefore B (rows.filter p) = rowsBefore B rows := by
  unfold rowsBefore
  rw [List.filter_filter]
  refine List.filter_congr fun r hr => ?_
  cases hp : p r with
  | true => simp
  | false => simp [hnew r hr hp]

theorem RowVoid.filter {B : Int} (h : RowVoid B rows) (p : RouteSummary → Bool) :
    RowVoid B (rows.filter p) :=
  fun r hr => h r (List.mem_of_mem_filter hr)

/-- **Drives of a list split at a void**: those before it come first, and exactly they start before
its end. -/
theorem filter_groupSummariesFast_void (o : BucketOrder) (tags : TagMap) {B : Int}
    (hvoid : RowVoid B rows)
    (hframes : ∀ r ∈ rows, (r.gearRuns.map GearRun.frames).sum < u32Size) :
    (groupSummariesFast o rows tags).filter (fun d => decide (d.startTime < B))
      = groupSummariesFast o (rowsBefore B rows) tags := by
  unfold groupSummariesFast
  rw [groupSummaryClips_void o hvoid, numberFrom_append, List.filter_append]
  have hbefore : (numberFrom tags 0 (groupSummaryClips o (rowsBefore B rows))).filter
      (fun d => decide (d.startTime < B))
        = numberFrom tags 0 (groupSummaryClips o (rowsBefore B rows)) := by
    rw [List.filter_eq_self]
    intro d hd
    obtain ⟨g, hg, i, rfl⟩ := mem_numberFrom hd
    exact decide_eq_true (groupStart_lt_of_rowsBefore hvoid hframes hg)
  have hfrom : ∀ n, (numberFrom tags n (groupSummaryClips o (rowsFrom B rows))).filter
      (fun d => decide (d.startTime < B)) = [] := by
    intro n
    rw [List.filter_eq_nil_iff]
    intro d hd
    obtain ⟨g, hg, i, rfl⟩ := mem_numberFrom hd
    have hle := le_groupStart_of_rowsFrom hframes hg
    exact fun hlt => absurd (of_decide_eq_true hlt) (not_lt.mpr hle)
  rw [hbefore, hfrom, List.append_nil]

/-- What the fast path writes, once it does not bail. -/
theorem tryAppendRebuild_cases {o : BucketOrder} {tags : TagMap} {cache : DriveListCache}
    {list : List DriveSummary}
    (h : tryAppendRebuild o rows tags (some cache) watermark = some list) :
    cache.noHidden = true ∧ ∃ newest cutoff, newestDay rows = some newest
      ∧ cutoffOf watermark (windowStamps watermark
          (rows.filter fun r => inWindow (windowStart watermark / dayMs) (newest + 1) r.file))
          cache.list = some cutoff
      ∧ list = hideTessieOverlappingSei
          (cache.list.filter (fun d => decide (d.startTime < cutoff))
            ++ numberFrom tags (cache.list.filter fun d => decide (d.startTime < cutoff)).length
              (groupSummaryClips o (rowsFrom cutoff (rowsFrom (windowStart watermark)
                (rows.filter fun r =>
                  inWindow (windowStart watermark / dayMs) (newest + 1) r.file))))) := by
  unfold tryAppendRebuild at h
  rw [Option.bind_some] at h
  split at h
  · simp at h
  · rename_i hgates
    split at h
    · simp at h
    · obtain ⟨newest, hnewest, h⟩ := Option.bind_eq_some_iff.mp h
      simp only at h
      split at h
      · simp at h
      · split at h
        · simp at h
        · obtain ⟨cutoff, hcutoff, h⟩ := Option.bind_eq_some_iff.mp h
          split at h
          · simp at h
          · refine ⟨?_, newest, cutoff, hnewest, hcutoff, (Option.some.inj h).symm⟩
            simp only [Bool.or_eq_true, Bool.not_eq_true', not_or] at hgates
            simpa using hgates.1.1

/-- A minute of footage without gear runs, never in Park. -/
def minuteClip (file source : String) : RouteSummary :=
  { file := file.toList, rawParkCount := 0, rawFrameCount := 1800, gearRuns := [],
    source := some source.toList, externalSignature := none, maxSpeedMps := 0, columns := [] }

/-- The cache a full rebuild of `rows` writes. -/
def rebuiltCache (o : BucketOrder) (rows : List RouteSummary) (tags : TagMap) : DriveListCache where
  list := fullRebuild o rows tags
  noHidden := decide ((groupSummariesFast o rows tags).length = (fullRebuild o rows tags).length)
  algoCurrent := true
  tagsCounted := true

/-- Two native drives of one day, two hours apart. -/
def twoMornings : List RouteSummary :=
  [minuteClip "2025-01-01/2025-01-01_10-00-00.mp4" "sei",
    minuteClip "2025-01-01/2025-01-01_12-00-00.mp4" "sei"]

/-- The same with an import dated a month after the newest native day. -/
def lateImport : List RouteSummary :=
  twoMornings ++ [minuteClip "tessie/2025-02-01/2025-02-01_10-00-00.mp4" "tessie"]

/-- Clip time of the noon drive. -/
def noonMs : Int := (parseClipTimestamp "2025-01-01_12-00-00.mp4".toList).getD 0

/-- Every row but the noon drive. -/
def exceptNoon (r : RouteSummary) : Bool :=
  decide (r.file ≠ "2025-01-01/2025-01-01_12-00-00.mp4".toList)

theorem appendSafe_twoMornings : AppendSafe twoMornings noonMs where
  window := by
    intro newest hnewest
    obtain rfl : (newestDay twoMornings).getD 0 = newest := by rw [hnewest]; rfl
    decide
  edge := by
    intro hnone
    exact absurd hnone (by decide)
  frames := by decide

end SentryUsb
