import SentryUsb.Cache.DriveList

/-! # Tessie drives and native drives

A trip that was imported from Tessie and recorded by the car stands twice among the drives; the import is hidden when a
native drive overlaps it. The overlap is looked for in the native ranges sorted by their start, up to the first that
starts too late (`grouper.rs`).

* **`overlapsRange_iff`** — the walk over the sorted ranges finds an overlap when there is one;
* **`hideTessieOverlappingSei`** — the filter over drives with their times as texts;
* **`hideTessieOverlappingSei_eq_filter`** — it hides the overlapped imports and nothing else;
* **`hideTessieOverlappingSei_map`** — on the cached list, whose times are instants, it is the filter of that list. -/

namespace SentryUsb

/-! ## The walk -/

/-- A range that starts at `te` or later is followed by none that starts before. -/
theorem not_exists_of_le {te ts : Int} {r : Int × Int} {rest : List (Int × Int)} (hrest : ∀ q ∈ rest, r.1 ≤ q.1)
    (hr : te ≤ r.1) : ¬ ∃ q ∈ r :: rest, q.1 < te ∧ ts < q.2 := by
  rintro ⟨q, hq, hlt, -⟩
  rcases List.mem_cons.mp hq with rfl | hq
  · omega
  · have hle := hrest q hq
    omega

/-- **The walk finds an overlap** in ranges sorted by their start when there is one, however long the ranges before it. -/
theorem overlapsRange_iff {ts te : Int} {ranges : List (Int × Int)} (hsorted : ranges.Pairwise fun a b => a.1 ≤ b.1) :
    overlapsRange ts te ranges = true ↔ ∃ r ∈ ranges, r.1 < te ∧ ts < r.2 := by
  induction ranges with
  | nil => simp [overlapsRange]
  | cons r rest ih =>
    obtain ⟨hrest, htail⟩ := List.pairwise_cons.mp hsorted
    obtain ⟨rs, re⟩ := r
    rw [overlapsRange]
    by_cases hpast : re ≤ ts
    · rw [if_pos hpast, ih htail]
      constructor
      · rintro ⟨q, hq, h⟩
        exact ⟨q, List.mem_cons_of_mem _ hq, h⟩
      · rintro ⟨q, hq, hlt, hend⟩
        rcases List.mem_cons.mp hq with rfl | hq
        · omega
        · exact ⟨q, hq, hlt, hend⟩
    · rw [if_neg hpast]
      by_cases hlate : te ≤ rs
      · rw [if_pos hlate]
        exact iff_of_false Bool.false_ne_true (not_exists_of_le hrest hlate)
      · rw [if_neg hlate]
        exact iff_of_true rfl ⟨(rs, re), List.mem_cons_self, not_le.mp hlate, not_le.mp hpast⟩

/-! ## The filter -/

/-- What the filter reads of a drive in the list. -/
structure ListedDrive where
  id : Nat
  startTime : Text
  endTime : Text
  source : Option Text
  deriving DecidableEq

namespace ListedDrive

/-- A drive that was imported from Tessie (`is_tessie`). -/
def isTessie (d : ListedDrive) : Bool := decide (d.source = some "tessie".toList)

-- `parseIsoSeconds` reads a local time in whole seconds, or refuses the text
variable (parseIsoSeconds : Text → Option Int)

/-- The range of a drive with two times that can be read. -/
def range? (d : ListedDrive) : Option (Int × Int) :=
  (parseIsoSeconds d.startTime).bind fun s => (parseIsoSeconds d.endTime).map fun e => (s, e)

/-- Whether a drive stays beside these native ranges. -/
def stays (seiRanges : List (Int × Int)) (d : ListedDrive) : Bool :=
  if !d.isTessie then true
  else match d.range? parseIsoSeconds with
    | some (ts, te) => !overlapsRange ts te seiRanges
    | none => true

/-- Drops the Tessie drives a native drive overlaps (`hide_tessie_overlapping_sei`). -/
def hideTessieOverlappingSei (summaries : List ListedDrive) : List ListedDrive :=
  let seiRanges := (summaries.filter fun d => !d.isTessie).filterMap (range? parseIsoSeconds)
  if seiRanges.isEmpty then summaries
  else
    let seiRanges := seiRanges.insertionSort fun a b => a.1 ≤ b.1
    summaries.filter (stays parseIsoSeconds seiRanges)

/-- The times of a drive can be read, and so can those of a native drive among these that overlaps it. -/
def Overlapped (summaries : List ListedDrive) (d : ListedDrive) : Prop :=
  ∃ ts te, parseIsoSeconds d.startTime = some ts ∧ parseIsoSeconds d.endTime = some te
    ∧ ∃ n ∈ summaries, n.isTessie = false
      ∧ ∃ rs re, parseIsoSeconds n.startTime = some rs ∧ parseIsoSeconds n.endTime = some re ∧ rs < te ∧ ts < re

variable {parseIsoSeconds : Text → Option Int}

/-- Both times of a drive can be read. -/
theorem range?_eq_some_iff {d : ListedDrive} {s e : Int} : d.range? parseIsoSeconds = some (s, e)
    ↔ parseIsoSeconds d.startTime = some s ∧ parseIsoSeconds d.endTime = some e := by
  simp only [range?, Option.bind_eq_some_iff, Option.map_eq_some_iff, Prod.mk.injEq]
  constructor
  · rintro ⟨s', hs, e', he, rfl, rfl⟩
    exact ⟨hs, he⟩
  · rintro ⟨hs, he⟩
    exact ⟨s, hs, e, he, rfl, rfl⟩

theorem mem_seiRanges {summaries : List ListedDrive} {r : Int × Int} :
    r ∈ (summaries.filter fun d => !d.isTessie).filterMap (range? parseIsoSeconds)
      ↔ ∃ n ∈ summaries, n.isTessie = false ∧ n.range? parseIsoSeconds = some r := by
  simp only [List.mem_filterMap, List.mem_filter, Bool.not_eq_true', and_assoc]

/-- A drive with times is overlapped exactly when one of the native ranges overlaps it. -/
theorem overlapped_iff {summaries : List ListedDrive} {d : ListedDrive} {ts te : Int}
    (hrange : d.range? parseIsoSeconds = some (ts, te)) : Overlapped parseIsoSeconds summaries d
      ↔ ∃ r ∈ (summaries.filter fun d => !d.isTessie).filterMap (range? parseIsoSeconds), r.1 < te ∧ ts < r.2 := by
  obtain ⟨hts, hte⟩ := range?_eq_some_iff.mp hrange
  constructor
  · rintro ⟨ts', te', hts', hte', n, hn, hnative, rs, re, hrs, hre, hlt, hend⟩
    rw [hts] at hts'
    rw [hte] at hte'
    obtain rfl := Option.some.inj hts'
    obtain rfl := Option.some.inj hte'
    exact ⟨(rs, re), mem_seiRanges.mpr ⟨n, hn, hnative, range?_eq_some_iff.mpr ⟨hrs, hre⟩⟩, hlt, hend⟩
  · rintro ⟨⟨rs, re⟩, hr, hlt, hend⟩
    obtain ⟨n, hn, hnative, hnrange⟩ := mem_seiRanges.mp hr
    obtain ⟨hrs, hre⟩ := range?_eq_some_iff.mp hnrange
    exact ⟨ts, te, hts, hte, n, hn, hnative, rs, re, hrs, hre, hlt, hend⟩

/-- Without two times that can be read a drive is not overlapped. -/
theorem not_overlapped_of_range? {summaries : List ListedDrive} {d : ListedDrive}
    (hrange : d.range? parseIsoSeconds = none) : ¬ Overlapped parseIsoSeconds summaries d := by
  rintro ⟨ts, te, hts, hte, -⟩
  rw [range?_eq_some_iff.mpr ⟨hts, hte⟩] at hrange
  exact nomatch hrange

/-- **A drive does not stay** exactly when it is an import and overlapped. -/
theorem stays_eq_false_iff {summaries : List ListedDrive} {d : ListedDrive} :
    stays parseIsoSeconds (((summaries.filter fun d => !d.isTessie).filterMap
        (range? parseIsoSeconds)).insertionSort fun a b => a.1 ≤ b.1) d = false
      ↔ d.isTessie = true ∧ Overlapped parseIsoSeconds summaries d := by
  rw [stays]
  cases htessie : d.isTessie with
  | false => simp
  | true =>
    cases hrange : d.range? parseIsoSeconds with
    | none => simp [not_overlapped_of_range? hrange]
    | some t =>
      have hsorted := List.pairwise_insertionSort (fun a b : Int × Int => a.1 ≤ b.1)
        ((summaries.filter fun d => !d.isTessie).filterMap (range? parseIsoSeconds))
      simp only [Bool.not_true, Bool.false_eq_true, if_false, Bool.not_eq_false', true_and,
        overlapsRange_iff hsorted, List.mem_insertionSort, overlapped_iff hrange]

/-- Without native ranges no drive is overlapped. -/
theorem not_overlapped_of_seiRanges {summaries : List ListedDrive} {d : ListedDrive}
    (h : (summaries.filter fun d => !d.isTessie).filterMap (range? parseIsoSeconds) = []) :
    ¬ Overlapped parseIsoSeconds summaries d := by
  cases hrange : d.range? parseIsoSeconds with
  | none => exact not_overlapped_of_range? hrange
  | some t =>
    rw [overlapped_iff hrange, h]
    rintro ⟨r, hr, -⟩
    exact nomatch hr

open scoped Classical in
/-- **Exactly the overlapped imports are hidden**, and the other drives stay in order. -/
theorem hideTessieOverlappingSei_eq_filter (parseIsoSeconds : Text → Option Int) (summaries : List ListedDrive) :
    hideTessieOverlappingSei parseIsoSeconds summaries
      = summaries.filter fun d => !(d.isTessie && decide (Overlapped parseIsoSeconds summaries d)) := by
  rw [hideTessieOverlappingSei]
  by_cases hnone : (summaries.filter fun d => !d.isTessie).filterMap (range? parseIsoSeconds) = []
  · rw [if_pos (List.isEmpty_iff.mpr hnone)]
    refine (List.filter_eq_self.mpr fun d _ => ?_).symm
    rw [decide_eq_false (not_overlapped_of_seiRanges hnone), Bool.and_false, Bool.not_false]
  · rw [if_neg (fun h => hnone (List.isEmpty_iff.mp h))]
    refine List.filter_congr fun d _ => ?_
    apply Bool.eq_iff_iff.mpr
    apply not_iff_not.mp
    rw [Bool.not_eq_true, stays_eq_false_iff]
    simp only [Bool.not_eq_true', Bool.not_eq_false, Bool.and_eq_true, decide_eq_true_eq]

end ListedDrive

/-! ## The cached list -/

/-- A cached entry as the list shows it. -/
def DriveSummary.listed (iso : Int → Text) (d : DriveSummary) : ListedDrive :=
  { id := d.id, startTime := iso d.startTime, endTime := iso d.endTime, source := some d.source }

variable {iso : Int → Text} {parseIsoSeconds : Text → Option Int}

theorem isTessie_listed (d : DriveSummary) : (d.listed iso).isTessie = isTessie d := by
  simp only [ListedDrive.isTessie, DriveSummary.listed, isTessie, Option.some.injEq]

theorem range?_listed (hparse : ∀ t, parseIsoSeconds (iso t) = some (isoSeconds t)) (d : DriveSummary) :
    (d.listed iso).range? parseIsoSeconds = some (isoSeconds d.startTime, isoSeconds d.endTime) :=
  ListedDrive.range?_eq_some_iff.mpr ⟨hparse d.startTime, hparse d.endTime⟩

theorem seiRanges_listed (hparse : ∀ t, parseIsoSeconds (iso t) = some (isoSeconds t)) (drives : List DriveSummary) :
    ((drives.map (DriveSummary.listed iso)).filter fun d => !d.isTessie).filterMap
        (ListedDrive.range? parseIsoSeconds)
      = (drives.filter fun d => !isTessie d).map fun d => (isoSeconds d.startTime, isoSeconds d.endTime) := by
  rw [List.filter_map, List.filterMap_map]
  have hrange : ListedDrive.range? parseIsoSeconds ∘ DriveSummary.listed iso
      = fun d => some (isoSeconds d.startTime, isoSeconds d.endTime) := funext (range?_listed hparse)
  have hnative : (fun d => !d.isTessie) ∘ DriveSummary.listed iso = fun d => !isTessie d :=
    funext fun d => congrArg Bool.not (isTessie_listed d)
  rw [hrange, hnative, List.filterMap_eq_map']

/-- **On the cached list**, whose times are instants, the filter is that list's. -/
theorem hideTessieOverlappingSei_map (hparse : ∀ t, parseIsoSeconds (iso t) = some (isoSeconds t))
    (drives : List DriveSummary) :
    (hideTessieOverlappingSei drives).map (DriveSummary.listed iso)
      = ListedDrive.hideTessieOverlappingSei parseIsoSeconds (drives.map (DriveSummary.listed iso)) := by
  rw [hideTessieOverlappingSei, ListedDrive.hideTessieOverlappingSei, seiRanges_listed hparse]
  dsimp only
  by_cases hnone : ((drives.filter fun d => !isTessie d).map fun d =>
      (isoSeconds d.startTime, isoSeconds d.endTime)) = []
  · -- nothing overlaps where there is no range
    rw [hnone, List.isEmpty_nil, if_pos rfl, List.insertionSort_nil]
    simp only [overlapsRange, Bool.not_false, Bool.or_true, List.filter_true]
  · rw [if_neg (fun h => hnone (List.isEmpty_iff.mp h)), List.filter_map]
    congr 1
    refine List.filter_congr fun d _ => ?_
    rw [Function.comp_apply, ListedDrive.stays, isTessie_listed, range?_listed hparse]
    cases isTessie d <;> rfl

end SentryUsb
