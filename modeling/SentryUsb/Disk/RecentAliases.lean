import SentryUsb.Grouper.InteriorFill
import SentryUsb.Library.PrefixRange

/-! # Event clips in the recent folder of the merged tree

The reader of a removed disk merges the directory trees of all snapshots into one. A minute that the car moved into an
event folder before any snapshot held it as a recent clip is shown at its place in `RecentClips`, under a path that reads
from the event folder. Which minutes is decided as for playback on the device, by code of its own.

* **`buildMergedTree`** — the merged tree, without aliases;
* **`aliasGapfillRecents`** — the aliases (`archive.rs`, `alias_gapfill_recents`);
* **`mem_recentTs`**, **`mem_candidates`** — the timeline and the candidates are all the clips of the tree;
* **`mem_admitted_iff`** — the minutes admitted are those the grouper selects;
* **`aliases_mirror_grouper`** — the minutes that get an alias, what stays, and what the aliases read. -/

namespace SentryUsb.Disk

open Library

/-! ## The merged tree -/

/-- A file of the merged tree: the snapshot it is read from, its size, and the path it has there if that is not its
own. -/
structure FileMeta where
  source : Nat
  size : Nat
  real : Option Text
  deriving DecidableEq

abbrev MergedTree := SortedMap Text FileMeta

/-- One line of a snapshot's table of contents, or one file found in its tree. -/
structure TocEntry where
  size : Nat
  path : Text

/-- The files of a snapshot are added; those of older snapshots at the same paths are replaced. -/
def addSource (files : MergedTree) (toc : List TocEntry) (idx : Nat) : MergedTree :=
  toc.foldl (fun files e => files.insert e.path ⟨idx, e.size, none⟩) files

/-- A snapshot that could not be read is skipped. -/
def addListing (files : MergedTree) (s : Option (List TocEntry) × Nat) : MergedTree :=
  match s.1 with
  | none => files
  | some toc => addSource files toc s.2

/-- The merged tree of the snapshots, oldest first; an archive without files is refused (`build_merged_tree`). -/
def buildMergedTree (sources : List (Option (List TocEntry))) : Option MergedTree :=
  let files := sources.zipIdx.foldl addListing SortedMap.empty
  if files.entries.isEmpty then none else some files

/-- `trim_matches('/')`. -/
def trimSlashes (path : Text) : Text :=
  ((path.dropWhile (· = '/')).reverse.dropWhile (· = '/')).reverse

/-- What reading a path reads: a snapshot and a path in it (`read_range`). -/
def resolve (files : MergedTree) (path : Text) : Option (Nat × Text) :=
  (files.get (trimSlashes path)).map fun m => (m.source, m.real.getD (trimSlashes path))

/-- The folder of the recent clips. -/
def recentsFolder : Text := "TeslaCam/RecentClips/".toList

/-- The event folders. -/
def eventFolders : List Text := ["TeslaCam/SavedClips/".toList, "TeslaCam/SentryClips/".toList]

/-! ## Times -/

/-- A hole is wider than one missing minute, -/
def gapFillMinS : Int := 90

/-- and within the fill cap. -/
def gapFillMaxS : Int := 30 * 60

/-- An event clip this little after a recent clip is its twin. -/
def gapFillDupS : Int := 30

/-- The first bytes of a text, if a character ends there (`get(..n)`). -/
def firstBytes : Nat → Text → Option Text
  | 0, _ => some []
  | _ + 1, [] => none
  | n + 1, c :: t => if c.utf8Size ≤ n + 1 then (firstBytes (n + 1 - c.utf8Size) t).map (c :: ·) else none

section Tree

-- `NaiveDateTime::parse_from_str` with the format `%Y-%m-%d_%H-%M-%S`, in seconds
variable (parseStamp : Text → Option Int)

/-- The time in the name of a clip (`clip_ts`). -/
def clipTs (path : Text) : Option Int := (firstBytes 19 (baseName path)).bind parseStamp

/-- The times of the recent clips, in order, each once. -/
def recentTs (files : MergedTree) : List Int :=
  sortedSet ((prefixRange recentsFolder files).filterMap fun e => clipTs parseStamp e.1)

/-- The event clips: their times and paths. -/
def candidates (files : MergedTree) : List (Int × Text) :=
  eventFolders.flatMap fun folder => (prefixRange folder files).filterMap fun e =>
    (clipTs parseStamp e.1).map fun ts => (ts, e.1)

end Tree

/-- Fillable holes of the recent timeline. -/
def holes (recents : List Int) : List (Int × Int) :=
  (recents.zip recents.tail).filter fun w => decide (gapFillMinS < w.2 - w.1) && decide (w.2 - w.1 ≤ gapFillMaxS)

/-- Whether a time is that of the twin of a recent clip. -/
def dupOfRecentClip (recents : List Int) (ts : Int) : Bool :=
  (lastWhile (fun r => decide (r ≤ ts)) recents).any fun r => decide (ts - r ≤ gapFillDupS)

/-- The minutes admitted, of the times of the candidates in order. -/
def admitted (recents stamps : List Int) : List Int :=
  stamps.foldl (fun admitted ts =>
    if !inHoles (holes recents) ts || dupOfRecentClip recents ts then admitted
    else if admitted.getLast?.any fun last => decide (ts - last ≤ gapFillDupS) then admitted
    else admitted ++ [ts]) []

/-! ## Aliases -/

/-- The path a clip gets among the recent clips. -/
def aliasOf (path : Text) : Text := recentsFolder ++ baseName path

/-- One candidate: its alias is added if its minute is admitted and the path is free. -/
def addAlias (minutes : List Int) (s : MergedTree × Nat) (cand : Int × Text) : MergedTree × Nat :=
  if cand.1 ∈ minutes ∧ s.1.get (aliasOf cand.2) = none then
    match s.1.get cand.2 with
    | some m => (s.1.insert (aliasOf cand.2) ⟨m.source, m.size, some cand.2⟩, s.2 + 1)
    -- a candidate is a file of the tree
    | none => s
  else s

/-- The tree with the aliases, and how many they are (`alias_gapfill_recents`). -/
def aliasGapfillRecents (parseStamp : Text → Option Int) (files : MergedTree) : MergedTree × Nat :=
  let recents := recentTs parseStamp files
  let cands := candidates parseStamp files
  if recents.isEmpty then (files, 0)
  else if cands.isEmpty then (files, 0)
  else if (holes recents).isEmpty then (files, 0)
  else
    let minutes := admitted recents (sortedSet (cands.map Prod.fst))
    if minutes.isEmpty then (files, 0) else cands.foldl (addAlias minutes) (files, 0)

/-! ## The clips of the tree -/

variable {parseStamp : Text → Option Int} {files : MergedTree}

/-- **The timeline is that of all the recent clips.** -/
theorem mem_recentTs {ts : Int} :
    ts ∈ recentTs parseStamp files ↔
      ∃ p m, files.get p = some m ∧ recentsFolder.isPrefixOf p = true ∧ clipTs parseStamp p = some ts := by
  rw [recentTs, mem_sortedSet, List.mem_filterMap]
  constructor
  · rintro ⟨⟨p, m⟩, he, hts⟩
    obtain ⟨hmem, hpre⟩ := mem_prefixRange.mp he
    exact ⟨p, m, SortedMap.mem_entries.mp hmem, hpre, hts⟩
  · rintro ⟨p, m, hget, hpre, hts⟩
    exact ⟨(p, m), mem_prefixRange.mpr ⟨SortedMap.mem_entries.mpr hget, hpre⟩, hts⟩

/-- **The candidates are all the event clips.** -/
theorem mem_candidates {ts : Int} {p : Text} :
    (ts, p) ∈ candidates parseStamp files ↔
      ∃ m, files.get p = some m ∧ (∃ folder ∈ eventFolders, folder.isPrefixOf p = true)
        ∧ clipTs parseStamp p = some ts := by
  rw [candidates, List.mem_flatMap]
  constructor
  · rintro ⟨folder, hfolder, hmem⟩
    obtain ⟨⟨q, m⟩, he, hmap⟩ := List.mem_filterMap.mp hmem
    obtain ⟨hentry, hpre⟩ := mem_prefixRange.mp he
    obtain ⟨u, hu, heq⟩ := Option.map_eq_some_iff.mp hmap
    obtain ⟨rfl, rfl⟩ := Prod.mk.inj heq
    exact ⟨m, SortedMap.mem_entries.mp hentry, ⟨folder, hfolder, hpre⟩, hu⟩
  · rintro ⟨m, hget, ⟨folder, hfolder, hpre⟩, hts⟩
    refine ⟨folder, hfolder, List.mem_filterMap.mpr ⟨(p, m), ?_, ?_⟩⟩
    · exact mem_prefixRange.mpr ⟨SortedMap.mem_entries.mpr hget, hpre⟩
    · exact Option.map_eq_some_iff.mpr ⟨ts, hts, rfl⟩

theorem pairwise_recentTs (parseStamp : Text → Option Int) (files : MergedTree) :
    (recentTs parseStamp files).Pairwise (· < ·) :=
  pairwise_sortedSet _

/-! ## Seconds and milliseconds -/

/-- A time in milliseconds. -/
def ms (ts : Int) : Int := 1000 * ts

theorem pairwise_map_ms {l : List Int} (h : l.Pairwise (· < ·)) : (l.map ms).Pairwise (· ≤ ·) :=
  List.pairwise_map.mpr (h.imp fun hab => by unfold ms; omega)

/-- The holes of the two crates are the same. -/
theorem fillableHoles_map_ms (recents : List Int) :
    fillableHoles (recents.map ms) = (holes recents).map (Prod.map ms ms) := by
  unfold fillableHoles holes
  rw [← List.map_tail, List.zip_map, List.filter_map]
  congr 1
  refine List.filter_congr fun w _ => ?_
  have hv := window_values
  have hlow : gapFillMinMs < ms w.2 - ms w.1 ↔ gapFillMinS < w.2 - w.1 := by
    unfold ms gapFillMinS
    omega
  have hhigh : ms w.2 - ms w.1 ≤ gapFillMaxMs ↔ w.2 - w.1 ≤ gapFillMaxS := by
    unfold ms gapFillMaxS
    omega
  show (decide (gapFillMinMs < ms w.2 - ms w.1) && decide (ms w.2 - ms w.1 ≤ gapFillMaxMs)) = _
  rw [decide_eq_decide.mpr hlow, decide_eq_decide.mpr hhigh]

theorem lastWhile_map {α β : Type} (f : α → β) (p : β → Bool) (l : List α) :
    lastWhile p (l.map f) = (lastWhile (fun a => p (f a)) l).map f := by
  unfold lastWhile
  rw [List.takeWhile_map, List.getLast?_map]
  rfl

theorem inHoles_ms (recents : List Int) (ts : Int) :
    inHoles (holes recents) ts = inHoles (fillableHoles (recents.map ms)) (ms ts) := by
  have hlt : ∀ a : Int, ms a < ms ts ↔ a < ts := fun a => by unfold ms; omega
  have hgt : ∀ a : Int, ms ts < ms a ↔ ts < a := fun a => by unfold ms; omega
  unfold inHoles
  rw [fillableHoles_map_ms, lastWhile_map, Option.any_map]
  simp only [Prod.map_fst, Prod.map_snd, hlt, hgt]

theorem dupOfRecentClip_ms (recents : List Int) (ts : Int) :
    dupOfRecentClip recents ts = dupOfRecent (recents.map ms) (ms ts) := by
  have hv := window_values
  have hle : ∀ a : Int, ms a ≤ ms ts ↔ a ≤ ts := fun a => by unfold ms; omega
  have hnear : ∀ a : Int, ms ts - ms a ≤ gapFillDupMs ↔ ts - a ≤ gapFillDupS := fun a => by
    unfold ms gapFillDupS
    omega
  unfold dupOfRecent dupOfRecentClip
  rw [lastWhile_map, Option.any_map]
  simp only [hle, hnear]

/-! ## The minutes admitted -/

/-- The grouper's timeline for the same recent clips, -/
abbrev timelineMs (recents : List Int) : List Int := recents.map ms

/-- and its candidates for the same event clips. -/
abbrev clipsMs (cands : List (Int × Text)) : List (Int × Text) := cands.map fun c => (ms c.1, c.2)

variable {recents : List Int} {cands : List (Int × Text)}

/-- The loop thins the times that are in a hole and no twins of recent clips. -/
theorem admitted_eq (recents stamps : List Int) :
    admitted recents stamps
      = takeSpaced gapFillDupS (stamps.filter fun ts => inHoles (holes recents) ts && !dupOfRecentClip recents ts) := by
  unfold admitted takeSpaced
  rw [List.foldl_filter]
  congr 1
  funext admitted ts
  cases inHoles (holes recents) ts <;> cases dupOfRecentClip recents ts <;> rfl

/-- **The minutes admitted are a thinning** of the times in a hole that are not occupied. -/
theorem spacing_admitted (hrecents : recents.Pairwise (· < ·)) {stamps : List Int} (hstamps : stamps.Pairwise (· < ·)) :
    Spacing gapFillDupS
      (fun ts => ts ∈ stamps ∧ InHole (timelineMs recents) (ms ts) ∧ ¬ Occupied (timelineMs recents) (ms ts))
      (· ∈ admitted recents stamps) := by
  have hsorted := pairwise_map_ms hrecents
  rw [admitted_eq]
  intro ts
  refine ((spacing_takeSpaced (by decide) ((hstamps.imp le_of_lt).filter _)).2 ts).trans (and_congr_left fun _ => ?_)
  have hhole : inHoles (fillableHoles (recents.map ms)) (ms ts) = true ↔ InHole (timelineMs recents) (ms ts) :=
    inHoles_iff hsorted
  have hdup : dupOfRecent (recents.map ms) (ms ts) = true ↔ Occupied (timelineMs recents) (ms ts) :=
    dupOfRecent_iff hsorted (ms ts)
  show ts ∈ stamps.filter _ ↔ ts ∈ stamps ∧ _
  rw [List.mem_filter, inHoles_ms, dupOfRecentClip_ms, Bool.and_eq_true, Bool.not_eq_true', ← hhole, ← hdup,
    Bool.not_eq_true]

/-- The times the grouper keeps, in seconds. -/
theorem spacing_keptSeconds (hrecents : recents.Pairwise (· < ·)) (cands : List (Int × Text)) :
    Spacing gapFillDupS (fun ts => ts ∈ sortedSet (cands.map Prod.fst) ∧ ¬ Occupied (timelineMs recents) (ms ts))
      (fun ts => ms ts ∈ keptTimes (timelineMs recents) (clipsMs cands)) := by
  have hspacing := spacing_keptTimes (pairwise_map_ms hrecents) (clipsMs cands)
  have hv := window_values
  have hstamp : ∀ t, t ∈ (clipsMs cands).map Prod.fst ↔ ∃ ts ∈ sortedSet (cands.map Prod.fst), ms ts = t := by
    intro t
    rw [List.map_map, List.mem_map]
    constructor
    · rintro ⟨c, hc, rfl⟩
      exact ⟨c.1, mem_sortedSet.mpr (List.mem_map_of_mem hc), rfl⟩
    · rintro ⟨ts, hts, rfl⟩
      obtain ⟨c, hc, rfl⟩ := List.mem_map.mp (mem_sortedSet.mp hts)
      exact ⟨c, hc, rfl⟩
  intro ts
  have hmem : ms ts ∈ (clipsMs cands).map Prod.fst ↔ ts ∈ sortedSet (cands.map Prod.fst) := by
    rw [hstamp]
    refine ⟨fun ⟨u, hu, heq⟩ => ?_, fun h => ⟨ts, h, rfl⟩⟩
    obtain rfl : u = ts := by
      unfold ms at heq
      omega
    exact hu
  rw [hspacing (ms ts)]
  show (ms ts ∈ (clipsMs cands).map Prod.fst ∧ _) ∧ _ ↔ _
  rw [hmem]
  refine and_congr_right fun _ => ⟨fun hall u hu hlt => ?_, fun hall t ht hlt => ?_⟩
  · have := hall (ms u) hu (by unfold ms; omega)
    unfold ms at this
    unfold gapFillDupS
    omega
  · -- a time that is kept is one of the candidates'
    obtain ⟨u, -, rfl⟩ := (hstamp t).mp ((hspacing t).mp ht).1.1
    have := hall u ht (by unfold ms at hlt; omega)
    unfold gapFillDupS at this
    unfold ms
    omega

/-- **The minutes admitted are those the grouper selects.** Thinning before the holes are looked at does not differ from
thinning afterwards: what is taken just below a time in a hole is in the same hole, or the time would be occupied. -/
theorem mem_admitted_iff (hrecents : recents.Pairwise (· < ·)) (cands : List (Int × Text)) (ts : Int) :
    ts ∈ admitted recents (sortedSet (cands.map Prod.fst)) ↔
      ∃ c ∈ selectInteriorFill (timelineMs recents) (clipsMs cands), c.ts = ms ts := by
  have hadmitted := spacing_admitted hrecents (pairwise_sortedSet (cands.map Prod.fst))
  obtain ⟨least, hleast⟩ := (List.finite_toSet (sortedSet (cands.map Prod.fst))).bddBelow
  have hagree : ∀ t, InHole (timelineMs recents) (ms t) →
      (ms t ∈ keptTimes (timelineMs recents) (clipsMs cands) ↔
        t ∈ admitted recents (sortedSet (cands.map Prod.fst))) := by
    refine Spacing.agree (spacing_keptSeconds hrecents cands) hadmitted
      (fun t hin => and_congr_right fun _ => ⟨fun hfree => ⟨hin, hfree⟩, fun h => h.2⟩) ?_ (fun t ht => hleast ht.1)
    rintro t u ⟨⟨r, r'⟩, hw, hmin, hmax, hlow, hhigh⟩ ⟨-, hfree⟩ hlt hle (hu | hu)
    · refine ⟨(r, r'), hw, hmin, hmax, ?_, ?_⟩
      · -- at or below the hole, the time would be occupied
        show r < ms u
        by_contra hnot
        refine hfree ⟨r, (List.of_mem_zip hw).1, le_of_lt hlow, ?_⟩
        have hv := window_values
        unfold ms at hnot ⊢
        unfold gapFillDupS at hle
        omega
      · refine lt_trans ?_ hhigh
        unfold ms
        omega
    · exact ((hadmitted u).mp hu).1.2.1
  rw [mem_times_selectInteriorFill (pairwise_map_ms hrecents)]
  constructor
  · intro hts
    have hin := ((hadmitted ts).mp hts).1.2.1
    exact ⟨(hagree ts hin).mpr hts, hin⟩
  · exact fun ⟨hkept, hin⟩ => (hagree ts hin).mp hkept

/-! ## Adding the aliases -/

/-- What the tree is once some candidates are done: the entries there were, and an alias for each candidate whose
minute is admitted. -/
structure Aliased (files : MergedTree) (minutes : List Int) (done : List (Int × Text)) (files' : MergedTree) : Prop where
  kept : ∀ p m, files.get p = some m → files'.get p = some m
  made : ∀ a m, files.get a = none → files'.get a = some m →
    ∃ c ∈ done, c.1 ∈ minutes ∧ a = aliasOf c.2 ∧
      ∃ m₀, files.get c.2 = some m₀ ∧ m = ⟨m₀.source, m₀.size, some c.2⟩
  present : ∀ c ∈ done, c.1 ∈ minutes → (files'.get (aliasOf c.2)).isSome

/-- **One candidate more.** -/
theorem Aliased.step {minutes : List Int} {done : List (Int × Text)} {s : MergedTree × Nat}
    (h : Aliased files minutes done s.1) {cand : Int × Text} (hcand : (files.get cand.2).isSome) :
    Aliased files minutes (done ++ [cand]) (addAlias minutes s cand).1 := by
  obtain ⟨m₀, hm₀⟩ := Option.isSome_iff_exists.mp hcand
  have hsub : ∀ c ∈ done, c ∈ done ++ [cand] := fun c hc => List.mem_append_left _ hc
  unfold addAlias
  split
  · -- the alias is added
    rename_i hadd
    obtain ⟨hminute, hfree⟩ := hadd
    rw [h.kept _ _ hm₀]
    refine ⟨fun p m hp => ?_, fun a m hnew ha => ?_, fun c hc hcm => ?_⟩
    · have hold := h.kept p m hp
      show (s.1.insert _ _).get p = some m
      rw [SortedMap.get_insert, if_neg ?_]
      · exact hold
      · rintro rfl
        rw [hfree] at hold
        exact absurd hold (by simp)
    · replace ha : (s.1.insert (aliasOf cand.2) ⟨m₀.source, m₀.size, some cand.2⟩).get a = some m := ha
      rw [SortedMap.get_insert] at ha
      split at ha
      · rename_i heq
        exact ⟨cand, by simp, hminute, heq, m₀, hm₀, (Option.some.inj ha).symm⟩
      · obtain ⟨c, hc, hrest⟩ := h.made a m hnew ha
        exact ⟨c, hsub c hc, hrest⟩
    · show ((s.1.insert _ _).get (aliasOf c.2)).isSome
      rw [SortedMap.get_insert]
      split
      · rfl
      · rename_i hne
        rcases List.mem_append.mp hc with hc | hc
        · exact h.present c hc hcm
        · rw [List.mem_singleton.mp hc] at hne
          exact absurd rfl hne
  · -- its minute is not admitted, or the path is taken
    rename_i hskip
    refine ⟨h.kept, fun a m hnew ha => ?_, fun c hc hcm => ?_⟩
    · obtain ⟨c, hc, hrest⟩ := h.made a m hnew ha
      exact ⟨c, hsub c hc, hrest⟩
    · rcases List.mem_append.mp hc with hc | hc
      · exact h.present c hc hcm
      · obtain rfl := List.mem_singleton.mp hc
        rw [Option.isSome_iff_ne_none]
        exact fun hnone => hskip ⟨hcm, hnone⟩

/-- **All candidates.** -/
theorem aliased_foldl (minutes : List Int) (hcands : ∀ c ∈ cands, (files.get c.2).isSome) (n : Nat) :
    Aliased files minutes cands (cands.foldl (addAlias minutes) (files, n)).1 := by
  induction cands using List.reverseRecOn with
  | nil =>
    refine ⟨fun _ _ h => h, fun a m hnone hsome => ?_, fun c hc => absurd hc List.not_mem_nil⟩
    exact absurd (hnone.symm.trans hsome) (by simp)
  | append_singleton done cand ih =>
    rw [List.foldl_append]
    exact (ih fun c hc => hcands c (List.mem_append_left _ hc)).step (hcands cand (by simp))

theorem foldl_addAlias_nil (s : MergedTree × Nat) (cands : List (Int × Text)) :
    cands.foldl (addAlias []) s = s := by
  induction cands with
  | nil => rfl
  | cons c cs ih =>
    rw [List.foldl_cons]
    have hsame : addAlias [] s c = s := if_neg fun h => absurd h.1 List.not_mem_nil
    rw [hsame, ih]

/-- Without recent clips, candidates or holes no minute is admitted, so the shortcuts change nothing. -/
theorem aliasGapfillRecents_eq (parseStamp : Text → Option Int) (files : MergedTree) :
    aliasGapfillRecents parseStamp files
      = (candidates parseStamp files).foldl
          (addAlias (admitted (recentTs parseStamp files) (sortedSet ((candidates parseStamp files).map Prod.fst))))
          (files, 0) := by
  have hnone : ∀ stamps, holes (recentTs parseStamp files) = [] → admitted (recentTs parseStamp files) stamps = [] := by
    intro stamps hholes
    have hnowhere : stamps.filter (fun ts => inHoles [] ts && !dupOfRecentClip (recentTs parseStamp files) ts) = [] :=
      List.filter_eq_nil_iff.mpr fun _ _ => by simp [inHoles, lastWhile]
    rw [admitted_eq, hholes, hnowhere]
    rfl
  unfold aliasGapfillRecents
  dsimp only
  split
  · rename_i hempty
    have hholes : holes (recentTs parseStamp files) = [] := by
      rw [List.isEmpty_iff.mp hempty]
      rfl
    rw [hnone _ hholes, foldl_addAlias_nil]
  · split
    · rename_i hempty
      rw [List.isEmpty_iff.mp hempty]
      rfl
    · split
      · rename_i hempty
        rw [hnone _ (List.isEmpty_iff.mp hempty), foldl_addAlias_nil]
      · split
        · rename_i hempty
          rw [List.isEmpty_iff.mp hempty, foldl_addAlias_nil]
        · rfl

/-! ## The paths of aliases -/

/-- An alias has the file name of its clip, -/
theorem baseName_aliasOf (path : Text) : baseName (aliasOf path) = baseName path := by
  have hname : ∀ c ∈ path.reverse.takeWhile (· ≠ '/'), (fun c : Char => decide (c ≠ '/')) c = true := by
    intro c hc
    exact List.mem_takeWhile_imp (p := fun c : Char => decide (c ≠ '/')) hc
  have hfolder : recentsFolder.reverse.takeWhile (· ≠ '/') = [] := by decide
  unfold aliasOf baseName
  rw [List.reverse_append, List.reverse_reverse, List.takeWhile_append_of_pos hname, hfolder, List.append_nil]

/-- and so its time. -/
theorem clipTs_aliasOf (parseStamp : Text → Option Int) (path : Text) :
    clipTs parseStamp (aliasOf path) = clipTs parseStamp path := by
  rw [clipTs, baseName_aliasOf]
  rfl

theorem isPrefixOf_aliasOf (path : Text) : recentsFolder.isPrefixOf (aliasOf path) = true :=
  List.isPrefixOf_iff_prefix.mpr (List.prefix_append _ _)

theorem baseName_ne_nil_of_clipTs {path : Text} {ts : Int} (h : clipTs parseStamp path = some ts) : baseName path ≠ [] := by
  intro hnil
  rw [clipTs, hnil] at h
  exact absurd h (by simp [firstBytes])

/-- The path of a clip in a folder of the camera has no slash at either end. -/
theorem trimSlashes_of_clip {path : Text} (hname : baseName path ≠ []) (hhead : "TeslaCam/".toList.isPrefixOf path = true) :
    trimSlashes path = path := by
  obtain ⟨rest, rfl⟩ := List.isPrefixOf_iff_prefix.mp hhead
  have hfirst : ("TeslaCam/".toList ++ rest).dropWhile (· = '/') = "TeslaCam/".toList ++ rest := rfl
  unfold trimSlashes
  rw [hfirst]
  unfold baseName at hname
  generalize hrev : ("TeslaCam/".toList ++ rest).reverse = r at hname ⊢
  cases r with
  | nil => exact absurd rfl hname
  | cons c r =>
    by_cases hc : c = '/'
    · exact absurd (by rw [hc]; rfl) hname
    · rw [List.dropWhile_cons_of_neg (by simpa using hc), ← hrev, List.reverse_reverse]

/-! ## The merged tree has no aliases -/

theorem get_addSource {toc : List TocEntry} {idx : Nat} {p : Text} {m : FileMeta}
    (h : (addSource files toc idx).get p = some m) : files.get p = some m ∨ m.real = none := by
  induction toc generalizing files with
  | nil => exact .inl h
  | cons e toc ih =>
    rcases ih h with hold | hplain
    · replace hold : (files.insert e.path ⟨idx, e.size, none⟩).get p = some m := hold
      rw [SortedMap.get_insert] at hold
      split at hold
      · exact .inr (by rw [← Option.some.inj hold])
      · exact .inl hold
    · exact .inr hplain

/-- **A tree of snapshots holds plain entries only.** -/
theorem real_eq_none_of_buildMergedTree {sources : List (Option (List TocEntry))}
    (h : buildMergedTree sources = some files) {p : Text} {m : FileMeta} (hget : files.get p = some m) : m.real = none := by
  have hgeneral : ∀ (l : List (Option (List TocEntry) × Nat)) (tree : MergedTree),
      (∀ p m, tree.get p = some m → m.real = none) →
      ∀ p m, (l.foldl addListing tree).get p = some m → m.real = none := by
    intro l
    induction l with
    | nil => exact fun _ htree => htree
    | cons s l ih =>
      intro tree htree
      rw [List.foldl_cons]
      refine ih _ fun p m hp => ?_
      obtain ⟨toc, idx⟩ := s
      cases toc with
      | none => exact htree p m hp
      | some toc => exact (get_addSource hp).elim (htree p m) id
  have hfiles := (Option.ite_none_left_eq_some.mp h).2
  rw [← Option.some.inj hfiles] at hget
  exact hgeneral _ _ (fun p m hnone => absurd hnone (by simp)) p m hget

/-! ## The aliases -/

/-- **The aliases mirror the playback of the device.** For every archive: the minutes that get an alias are those the
grouper selects for the same recent clips and event clips; no entry of the tree is replaced; and what an alias reads is
what the event clip it was made from reads, its own file. -/
theorem aliases_mirror_grouper (parseStamp : Text → Option Int) {sources : List (Option (List TocEntry))} {files : MergedTree}
    (hfiles : buildMergedTree sources = some files) :
    (∀ ts, (∃ a m, files.get a = none ∧ (aliasGapfillRecents parseStamp files).1.get a = some m
          ∧ recentsFolder.isPrefixOf a = true ∧ clipTs parseStamp a = some ts) ↔
        ∃ c ∈ selectInteriorFill (timelineMs (recentTs parseStamp files)) (clipsMs (candidates parseStamp files)),
          c.ts = ms ts)
      ∧ (∀ p m, files.get p = some m → (aliasGapfillRecents parseStamp files).1.get p = some m)
      ∧ (∀ a m, files.get a = none → (aliasGapfillRecents parseStamp files).1.get a = some m →
        ∃ c ∈ candidates parseStamp files, a = aliasOf c.2
          ∧ ∃ m₀, files.get c.2 = some m₀ ∧ m.size = m₀.size
            ∧ resolve files c.2 = some (m₀.source, c.2)
            ∧ resolve (aliasGapfillRecents parseStamp files).1 a = some (m₀.source, c.2)) := by
  have hcand : ∀ c ∈ candidates parseStamp files, (files.get c.2).isSome := fun c hc => by
    obtain ⟨m, hm, -⟩ := mem_candidates.mp hc
    exact Option.isSome_iff_exists.mpr ⟨m, hm⟩
  rw [aliasGapfillRecents_eq]
  have haliased := aliased_foldl (admitted (recentTs parseStamp files)
    (sortedSet ((candidates parseStamp files).map Prod.fst))) hcand 0
  refine ⟨fun ts => ?_, haliased.kept, fun a m hnew hget => ?_⟩
  · rw [← mem_admitted_iff (pairwise_recentTs parseStamp files)]
    constructor
    · rintro ⟨a, m, hnew, hget, -, hts⟩
      obtain ⟨c, hc, hminute, rfl, -⟩ := haliased.made a m hnew hget
      obtain ⟨-, -, -, hclip⟩ := mem_candidates.mp hc
      rw [clipTs_aliasOf, hclip] at hts
      rw [← Option.some.inj hts]
      exact hminute
    · intro hts
      have hspacing := spacing_admitted (pairwise_recentTs parseStamp files)
        (pairwise_sortedSet ((candidates parseStamp files).map Prod.fst))
      obtain ⟨hstamp, -, hfree⟩ := ((hspacing ts).mp hts).1
      obtain ⟨c, hc, rfl⟩ := List.mem_map.mp (mem_sortedSet.mp hstamp)
      obtain ⟨-, -, -, hclip⟩ := mem_candidates.mp hc
      obtain ⟨m, hm⟩ := Option.isSome_iff_exists.mp (haliased.present c hc hts)
      have hclip' : clipTs parseStamp (aliasOf c.2) = some c.1 := (clipTs_aliasOf parseStamp c.2).trans hclip
      refine ⟨aliasOf c.2, m, ?_, hm, isPrefixOf_aliasOf _, hclip'⟩
      -- an entry there would be a recent clip of that minute
      by_contra htaken
      obtain ⟨m', hm'⟩ := Option.ne_none_iff_exists'.mp htaken
      have hrecent := mem_recentTs.mpr ⟨aliasOf c.2, m', hm', isPrefixOf_aliasOf _, hclip'⟩
      refine hfree ⟨ms c.1, List.mem_map_of_mem hrecent, le_refl _, ?_⟩
      rw [sub_self]
      exact window_values.2.2.2.2.1 ▸ by decide
  · obtain ⟨c, hc, -, rfl, m₀, hm₀, rfl⟩ := haliased.made a m hnew hget
    obtain ⟨-, -, ⟨folder, hfolder, hpre⟩, hclip⟩ := mem_candidates.mp hc
    have hname := baseName_ne_nil_of_clipTs hclip
    have hcam : "TeslaCam/".toList.isPrefixOf c.2 = true := by
      rw [List.isPrefixOf_iff_prefix] at hpre ⊢
      refine List.IsPrefix.trans ?_ hpre
      fin_cases hfolder
      · exact ⟨"SavedClips/".toList, rfl⟩
      · exact ⟨"SentryClips/".toList, rfl⟩
    have hcam' : "TeslaCam/".toList.isPrefixOf (aliasOf c.2) = true :=
      List.isPrefixOf_iff_prefix.mpr ⟨"RecentClips/".toList ++ baseName c.2, rfl⟩
    have htrim := trimSlashes_of_clip hname hcam
    have htrim' : trimSlashes (aliasOf c.2) = aliasOf c.2 :=
      trimSlashes_of_clip (by rw [baseName_aliasOf]; exact hname) hcam'
    refine ⟨c, hc, rfl, m₀, hm₀, rfl, ?_, ?_⟩
    · rw [resolve, htrim, hm₀, Option.map_some, real_eq_none_of_buildMergedTree hfiles hm₀]
      rfl
    · rw [resolve, htrim', hget]
      rfl

/-- The time a name spells. -/
def stampSeconds (stamp : Text) : Option Int := if stamp.length = 19 then (stampAt stamp).map (· / 1000) else none

/-- The file of a minute that was moved into an event folder. -/
def movedClip : Text := "TeslaCam/SavedClips/2026-07-15_04-59-30/2026-07-15_04-50-00-front.mp4".toList

/-- A snapshot with that minute missing among the recent clips, and a second twin of it in the other event folder. -/
def movedMinute : List (Option (List TocEntry)) :=
  [none, some
    [⟨70, "TeslaCam/RecentClips/2026-07-15_04-49-09-front.mp4".toList⟩,
      ⟨70, "TeslaCam/RecentClips/2026-07-15_04-51-03-front.mp4".toList⟩,
      ⟨71, movedClip⟩,
      ⟨72, "TeslaCam/SentryClips/2026-07-15_04-59-30/2026-07-15_04-50-01-front.mp4".toList⟩]]

theorem aliases_mirror_grouper_movedMinute : ∃ files, buildMergedTree movedMinute = some files
    ∧ (aliasGapfillRecents stampSeconds files).2 = 1
    ∧ ∃ m, (aliasGapfillRecents stampSeconds files).1.get (aliasOf movedClip) = some m
      ∧ ∃ c ∈ selectInteriorFill (timelineMs (recentTs stampSeconds files)) (clipsMs (candidates stampSeconds files)),
        some c.ts = stampAt "2026-07-15_04-50-00".toList := by
  obtain ⟨files, hfiles⟩ := Option.isSome_iff_exists.mp
    (show (buildMergedTree movedMinute).isSome = true by decide +kernel)
  have hrun : (buildMergedTree movedMinute).map (fun files => ((aliasGapfillRecents stampSeconds files).2,
      (aliasGapfillRecents stampSeconds files).1.get (aliasOf movedClip), files.get (aliasOf movedClip)))
      = some (1, some ⟨1, 71, some movedClip⟩, none) := by decide +kernel
  rw [hfiles, Option.map_some] at hrun
  obtain ⟨hcount, hget⟩ := Prod.mk.inj (Option.some.inj hrun)
  obtain ⟨halias, hnew⟩ := Prod.mk.inj hget
  have hts : clipTs stampSeconds (aliasOf movedClip) = some 63951310200 := by decide +kernel
  obtain ⟨c, hc, heq⟩ := ((aliases_mirror_grouper stampSeconds hfiles).1 63951310200).mp
    ⟨_, _, hnew, halias, isPrefixOf_aliasOf movedClip, hts⟩
  refine ⟨files, hfiles, hcount, _, halias, c, hc, ?_⟩
  rw [heq]
  decide +kernel

end SentryUsb.Disk
