import SentryUsb.Library.GapRuns
import SentryUsb.Library.TransitionSystem
import SentryUsb.Grouper.GapFill
import SentryUsb.Store.RouteRow

/-! # Gap-fill over several passes

The processor extracts clips pass by pass: what is on disk and not recorded as processed, the event clips among it only
where they fill gaps of the continuous recording. A pass can be cancelled after any clip, and clips keep arriving. Event
clips already processed are no candidates any more, and they are no anchors either, so a chain that a pass leaves half
extracted has lost its link.

* **`doProcess`** — one pass over a disk, cut after some clips (`processor.rs`, `do_process`);
* **`Linked`** — clips joined by hops of the chain window;
* **`selectGapFill_of_linked`** — whether a candidate is selected depends on the candidates linked to it;
* **`Whole`** — a pass that leaves no chain half extracted;
* **`gapFill_complete`** — after such passes a complete one has extracted all that a single pass would. -/

namespace SentryUsb

open Library Store

/-! ## One pass -/

/-- The clips of a disk, as the two scans list them: paths outside the event folders, and paths of event clips, which
are canonical as they are. -/
structure Disk where
  recents : List Text
  events : List Text
  recents_plain : ∀ f ∈ recents, isEventFolderPath (normalizePath f) = false
  events_folder : ∀ f ∈ events, isEventFolderPath f = true
  events_canonical : ∀ f ∈ events, normalizePath f = f

/-- Milliseconds of a day. -/
def anchorDayMs : Int := 86400000

/-- The day whose folder a key lies in: its number, if the key begins `YYYY-MM-DD/`. -/
def dayDir (key : Text) : Option Int :=
  if key[4]? = some '-' ∧ key[7]? = some '-' ∧ key[10]? = some '/' then do
    let y ← digitsAt key 0 4
    let m ← digitsAt key 5 2
    let d ← digitsAt key 8 2
    let start ← instantOf y m d 0 0 0
    return start / anchorDayMs
  else none

/-- Times of the event clips on disk. -/
def seedTimes (disk : Disk) : List Int := disk.events.filterMap parseClipTimestamp

/-- How far from an event clip a processed clip still counts. -/
def anchorHalf : Int := gapFillMaxMs + 60000

/-- Days whose folders are searched for processed clips: around every event clip, and one more on each side. -/
def anchorDays (seeds : List Int) : List Int :=
  seeds.flatMap fun ts =>
    [(ts - anchorHalf - anchorDayMs) / anchorDayMs, (ts - anchorHalf) / anchorDayMs, (ts + anchorHalf) / anchorDayMs,
      (ts + anchorHalf + anchorDayMs) / anchorDayMs]

/-- Processed keys in the folders of some days (`processed_files_for_days`). -/
def processedFilesForDays (processed : List Text) (days : List Int) : List Text :=
  processed.filter fun key => (dayDir key).any fun day => decide (day ∈ days)

/-- The continuous recording: the clips on disk, and those processed earlier that are near an event clip. -/
def recentTimeline (processed : List Text) (disk : Disk) : List Int :=
  let seeds := seedTimes disk
  let stored := ((processedFilesForDays processed (anchorDays seeds)).filterMap parseClipTimestamp).filter fun ts =>
    seeds.any fun s => decide (ts - s ≤ anchorHalf) && decide (-anchorHalf ≤ ts - s)
  sortedSet (disk.recents.filterMap parseClipTimestamp ++ stored)

/-- The candidates of the timestamp-only scan: event clips not processed yet, without telemetry. -/
def eventCandidates (processed events : List Text) : List (GapFillCandidate Unit) :=
  (events.filter fun f => !decide (normalizePath f ∈ processed)).filterMap fun f =>
    (parseClipTimestamp f).map fun ts => ⟨(), ts, f, none, false⟩

/-- Event clips that cover gaps (`scan_event_gap_fill`). -/
def scanEventGapFill (recents : List Int) (processed events : List Text) : List Text :=
  (selectGapFill recents (eventCandidates processed events)).map GapFillCandidate.file

/-- The clips a pass goes through, in its order. -/
def unprocessed (processed : List Text) (disk : Disk) : List Text :=
  (disk.recents.filter fun f => !decide (normalizePath f ∈ processed))
    ++ scanEventGapFill (recentTimeline processed disk) processed disk.events

/-- A pass: what is on disk, and after how many clips it is cancelled, if it is. -/
structure Pass where
  disk : Disk
  cut : Option Nat

/-- The clips a pass extracts. -/
def extracted (processed : List Text) (p : Pass) : List Text :=
  let clips := unprocessed processed p.disk
  (p.cut.map clips.take).getD clips

/-- The processed set after a pass (`do_process`). Every clip that is gone through is recorded, whatever is found in it,
unless the store fails to take the record. -/
def doProcess (recorded : Text → Bool) (processed : List Text) (p : Pass) : List Text :=
  processed ++ ((extracted processed p).filter recorded).map normalizePath

/-- The event clips a single pass over a disk extracts, nothing being processed before. -/
def singlePass (disk : Disk) : List Text := scanEventGapFill (recentTimeline [] disk) [] disk.events

/-! ## Chains -/

/-- Times of all clips of a disk. -/
def clipTimes (disk : Disk) : List Int := (disk.recents ++ disk.events).filterMap parseClipTimestamp

/-- One hop of a chain. -/
def Hop (times : List Int) (a b : Int) : Prop :=
  a ∈ times ∧ b ∈ times ∧ b - a ≤ gapFillAdjMs ∧ a - b ≤ gapFillAdjMs

/-- **Linked times**: joined by hops. -/
def Linked (times : List Int) : Int → Int → Prop := Relation.ReflTransGen (Hop times)

/-- **A pass that leaves no chain half extracted**: with an event clip it extracts whatever a single pass over all clips
would extract of the clips linked to it, unless that is processed already. -/
def Whole (recorded : Text → Bool) (all : Disk) (processed : List Text) (p : Pass) : Prop :=
  ∀ e ∈ extracted processed p, e ∈ p.disk.events → recorded e = true →
    ∀ x ∈ singlePass all, recorded x = true →
      (∀ te ∈ parseClipTimestamp e, ∀ tx ∈ parseClipTimestamp x, Linked (clipTimes all) te tx) →
        x ∈ processed ∨ x ∈ extracted processed p

theorem Linked.symm {times : List Int} {a b : Int} (h : Linked times a b) : Linked times b a := by
  induction h with
  | refl => exact .refl
  | tail _ hhop ih =>
    obtain ⟨hx, hy, hxy, hyx⟩ := hhop
    exact Relation.ReflTransGen.head ⟨hy, hx, hyx, hxy⟩ ih

theorem hop_lt_of_not_linked {times : List Int} {t a b : Int} (ha : a ∈ times) (hb : b ∈ times)
    (hta : Linked times t a) (htb : ¬ Linked times t b) : gapFillAdjMs < b - a ∨ gapFillAdjMs < a - b := by
  by_contra hnear
  rw [not_or, not_lt, not_lt] at hnear
  exact htb (hta.tail ⟨ha, hb, hnear.1, hnear.2⟩)

/-- The elements of a chain are linked to its first one. -/
theorem linked_of_isChain {times : List Int} {a : Slot Unit} {rest : List (Slot Unit)}
    (hchain : (a :: rest).IsChain fun a b => decide (b.1 - a.1 ≤ gapFillAdjMs) = true)
    (hincreasing : Increasing Prod.fst (a :: rest)) (hmem : ∀ s ∈ a :: rest, s.1 ∈ times) :
    ∀ s ∈ a :: rest, Linked times a.1 s.1 := by
  have hv := window_values
  induction rest generalizing a with
  | nil =>
    intro s hs
    rw [List.mem_singleton.mp hs]
    exact .refl
  | cons b rest ih =>
    obtain ⟨hstep, hrest⟩ := List.isChain_cons_cons.mp hchain
    obtain ⟨hfirst, htail⟩ := List.pairwise_cons.mp hincreasing
    have hlt := hfirst b List.mem_cons_self
    have hstep := of_decide_eq_true hstep
    have hhop : Hop times a.1 b.1 :=
      ⟨hmem a List.mem_cons_self, hmem b (List.mem_cons_of_mem _ List.mem_cons_self), hstep, by omega⟩
    intro s hs
    rcases List.mem_cons.mp hs with rfl | hs
    · exact .refl
    · exact Relation.ReflTransGen.head hhop (ih hrest htail (fun s hs => hmem s (List.mem_cons_of_mem _ hs)) s hs)

/-! ## Thinning -/

/-- Candidates in time order. -/
def TimeOrdered (l : List (GapFillCandidate Unit)) : Prop := l.Pairwise fun a b => a.ts ≤ b.ts

/-- A last one that is far enough back plays no part. -/
theorem keepSpaced_some {t : Int} {l : List (GapFillCandidate Unit)} (h : ∀ c ∈ l, gapFillDupMs < c.ts - t) :
    keepSpaced (some t) l = keepSpaced none l := by
  cases l with
  | nil => rfl
  | cons c cs =>
    have hfar := h c List.mem_cons_self
    have hnot : ((some t).any fun u => decide (c.ts - u ≤ gapFillDupMs)) = false := by
      rw [Option.any_some, decide_eq_false_iff_not]
      omega
    rw [keepSpaced, keepSpaced, hnot]
    rfl

/-- What is kept of a list in time order is more than the duplicate window apart, also from the last one. -/
theorem spaced_keepSpaced {last : Option Int} {l : List (GapFillCandidate Unit)} (hl : TimeOrdered l) :
    (keepSpaced last l).Pairwise (fun a b => gapFillDupMs < b.ts - a.ts)
      ∧ ∀ t ∈ last, ∀ c ∈ keepSpaced last l, (∀ c ∈ l, t ≤ c.ts) → gapFillDupMs < c.ts - t := by
  have hv := window_values
  induction l generalizing last with
  | nil => exact ⟨List.Pairwise.nil, fun t _ c hc => absurd hc List.not_mem_nil⟩
  | cons c cs ih =>
    obtain ⟨hfirst, hrest⟩ := List.pairwise_cons.mp hl
    rw [keepSpaced]
    split
    · have hih := @ih last hrest
      obtain ⟨hpair, hlast⟩ := hih
      exact ⟨hpair, fun t ht d hd hbefore => hlast t ht d hd fun e he => hbefore e (List.mem_cons_of_mem _ he)⟩
    · rename_i hkept
      have hih := @ih (some c.ts) hrest
      obtain ⟨hpair, hlast⟩ := hih
      have hnext : ∀ d ∈ keepSpaced (some c.ts) cs, gapFillDupMs < d.ts - c.ts :=
        fun d hd => hlast c.ts rfl d hd fun e he => hfirst e he
      refine ⟨List.pairwise_cons.mpr ⟨hnext, hpair⟩, fun t ht d hd hbefore => ?_⟩
      -- the first kept one is far from the last, the others are further on
      have hfar : gapFillDupMs < c.ts - t := by
        rw [Option.mem_def.mp ht, Option.any_some, decide_eq_true_eq] at hkept
        omega
      rcases List.mem_cons.mp hd with rfl | hd
      · exact hfar
      · have := hnext d hd
        omega

/-- **Thinning works part by part**: where two parts of a list are more than the duplicate window apart, what is kept of
one does not depend on the other. -/
theorem filter_keepSpaced {part : Int → Bool} {last : Option Int} {l : List (GapFillCandidate Unit)}
    (hl : TimeOrdered l)
    (hsep : ∀ a ∈ l, ∀ b ∈ l, part a.ts = true → part b.ts = false →
      gapFillDupMs < b.ts - a.ts ∨ gapFillDupMs < a.ts - b.ts)
    (hlast : ∀ t ∈ last, ∀ c ∈ l, t ≤ c.ts ∧ (part t ≠ part c.ts → gapFillDupMs < c.ts - t)) :
    (keepSpaced last l).filter (fun c => part c.ts)
      = keepSpaced (last.filter part) (l.filter fun c => part c.ts) := by
  have hv := window_values
  induction l generalizing last with
  | nil => rfl
  | cons c cs ih =>
    obtain ⟨hfirst, hrest⟩ := List.pairwise_cons.mp hl
    have hsep' := fun a (ha : a ∈ cs) b (hb : b ∈ cs) =>
      hsep a (List.mem_cons_of_mem _ ha) b (List.mem_cons_of_mem _ hb)
    have hlast' : ∀ t ∈ last, ∀ d ∈ cs, t ≤ d.ts ∧ (part t ≠ part d.ts → gapFillDupMs < d.ts - t) :=
      fun t ht d hd => hlast t ht d (List.mem_cons_of_mem _ hd)
    -- the candidate itself as the last one kept
    have hself : ∀ t ∈ some c.ts, ∀ d ∈ cs, t ≤ d.ts ∧ (part t ≠ part d.ts → gapFillDupMs < d.ts - t) := by
      intro t ht d hd
      obtain rfl : c.ts = t := Option.some.inj ht
      refine ⟨hfirst d hd, fun hne => ?_⟩
      have hle := hfirst d hd
      have hcd : d ∈ c :: cs := List.mem_cons_of_mem _ hd
      cases hc : part c.ts with
      | true =>
        rcases hsep c List.mem_cons_self d hcd hc (by rw [hc] at hne; simpa using hne.symm) with h | h <;> omega
      | false =>
        rcases hsep d hcd c List.mem_cons_self (by rw [hc] at hne; simpa using hne.symm) hc with h | h <;> omega
    by_cases hskip : (last.any fun t => decide (c.ts - t ≤ gapFillDupMs)) = true
    · -- skipped: the last one is near, so it is of the same part
      obtain ⟨t, ht, hnear⟩ := (Option.any_eq_true _ _).mp hskip
      have hnear := of_decide_eq_true hnear
      have hpart : part t = part c.ts := by
        by_contra hne
        have := (hlast t ht c List.mem_cons_self).2 hne
        omega
      rw [keepSpaced, if_pos hskip, ih hrest hsep' hlast']
      cases hc : part c.ts with
      | false => rw [List.filter_cons_of_neg (by simp [hc])]
      | true =>
        have hlastp : last.filter part = last := by
          rw [ht, Option.filter_some, if_pos (hpart.trans hc)]
        rw [List.filter_cons_of_pos (by simp [hc]), keepSpaced, hlastp, if_pos hskip]
    · rw [keepSpaced, if_neg hskip]
      have hih := @ih (some c.ts) hrest hsep' hself
      cases hc : part c.ts with
      | true =>
        have hkeep : ¬ ((last.filter part).any fun t => decide (c.ts - t ≤ gapFillDupMs)) = true := by
          intro hany
          obtain ⟨t, ht, hnear⟩ := (Option.any_eq_true _ _).mp hany
          exact hskip ((Option.any_eq_true _ _).mpr ⟨t, (Option.filter_eq_some_iff.mp ht).1, hnear⟩)
        rw [List.filter_cons_of_pos (by simp [hc]), List.filter_cons_of_pos (by simp [hc]), keepSpaced,
          if_neg hkeep, hih, Option.filter_some, if_pos hc]
      | false =>
        rw [List.filter_cons_of_neg (by simp [hc]), List.filter_cons_of_neg (by simp [hc]), hih,
          Option.filter_some, if_neg (by simp [hc])]
        cases hp : last.filter part with
        | none => rfl
        | some t =>
          obtain ⟨ht, hpt⟩ := Option.filter_eq_some_iff.mp hp
          refine (keepSpaced_some fun d hd => ?_).symm
          obtain ⟨hd, hpd⟩ := List.mem_filter.mp hd
          have hct := (hlast t ht c List.mem_cons_self).2 (by rw [hpt, hc]; decide)
          have hcd := hfirst d hd
          omega

/-! ## One selection -/

/-- A candidate without telemetry, as the timestamp-only scan makes them. -/
def GapFillCandidate.Plain (c : GapFillCandidate Unit) : Prop := c.driving = none ∧ c.gearDriving = false

/-- Two candidates without telemetry that have one place in the order are one. -/
theorem GapFillCandidate.Plain.eq_of_le {a b : GapFillCandidate Unit} (ha : a.Plain) (hb : b.Plain) (hab : a.le b)
    (hba : b.le a) : a = b := by
  have hts : a.ts = b.ts := by
    rcases hab with hab | ⟨hab, -⟩
    · rcases hba with hba | ⟨hba, -⟩ <;> omega
    · exact hab
  have hfile : a.file = b.file := by
    rcases hab with hab | ⟨-, hab⟩
    · omega
    rcases hba with hba | ⟨-, hba⟩
    · omega
    exact le_antisymm (not_lt.mp hab) (not_lt.mp hba)
  obtain ⟨had, hag⟩ := ha
  obtain ⟨hbd, hbg⟩ := hb
  cases a
  cases b
  subst hts hfile had hbd hag hbg
  rfl

/-- The flag of a candidate without telemetry: its cluster has a recent clip, and one is near enough. -/
theorem mem_chainedFlags_of_plain {recents : List Int} {cluster : List (Slot Unit)} {c : GapFillCandidate Unit} {b : Bool}
    (hplain : ∀ t d, (t, some d) ∈ cluster → d.Plain) (h : (c, b) ∈ chainedFlags recents cluster) :
    (∃ t, (t, some c) ∈ cluster)
      ∧ (b = true → (∃ r, (r, none) ∈ cluster) ∧ nearestRecentMs recents c.ts ≤ gapFillMaxMs) := by
  obtain ⟨t, ht⟩ := mem_of_mem_chainedFlags h
  refine ⟨⟨t, ht⟩, fun hb => ?_⟩
  simp only [chainedFlags] at h
  split at h
  · rename_i hanchor
    obtain ⟨s, hs, hnone⟩ := List.any_eq_true.mp hanchor
    obtain ⟨d, -, hd⟩ := List.mem_map.mp h
    obtain ⟨rfl, rfl⟩ := Prod.mk.inj hd
    exact ⟨⟨s.1, by rw [← Option.isNone_iff_eq_none.mp hnone]; exact hs⟩, of_decide_eq_true hb⟩
  · -- no anchor: the candidate itself shows no gear
    obtain ⟨d, -, hd⟩ := List.mem_map.mp h
    obtain ⟨rfl, rfl⟩ := Prod.mk.inj hd
    have hmember : d ∈ cluster.filterMap Prod.snd := List.mem_filterMap.mpr ⟨_, ht, rfl⟩
    have hgear := List.all_eq_true.mp hb d hmember
    rw [(hplain t d ht).2] at hgear
    exact absurd hgear Bool.false_ne_true

theorem mem_chainedFlags_of_anchor {recents : List Int} {cluster : List (Slot Unit)} {c : GapFillCandidate Unit}
    {t r : Int} (hc : (t, some c) ∈ cluster) (hr : (r, none) ∈ cluster) :
    (c, decide (nearestRecentMs recents c.ts ≤ gapFillMaxMs)) ∈ chainedFlags recents cluster := by
  have hany : (cluster.any fun s => s.2.isNone) = true := List.any_eq_true.mpr ⟨_, hr, rfl⟩
  simp only [chainedFlags, hany, if_true]
  exact List.mem_map.mpr ⟨c, List.mem_filterMap.mpr ⟨_, hc, rfl⟩, rfl⟩

/-- **What the timestamp-only scan selects**: kept candidates inside a hole, or in a cluster with a recent clip and near
enough to one. -/
theorem mem_selectGapFill_iff {recents : List Int} {cands : List (GapFillCandidate Unit)}
    (hplain : ∀ c ∈ cands, c.Plain) (c : GapFillCandidate Unit) :
    c ∈ selectGapFill recents cands ↔
      ∃ cluster ∈ clusters (mergedTimeline recents (dedupCandidates recents cands)), (c.ts, some c) ∈ cluster
        ∧ (inHoles (fillableHoles recents) c.ts = true
          ∨ (∃ r, (r, none) ∈ cluster) ∧ nearestRecentMs recents c.ts ≤ gapFillMaxMs) := by
  have helig : (cands.filter fun c => c.driving != some false) = cands :=
    List.filter_eq_self.mpr fun d hd => by rw [(hplain d hd).1]; rfl
  simp only [selectGapFill, helig, List.mem_map, List.mem_filter, List.mem_flatMap]
  have hslot : ∀ cluster ∈ clusters (mergedTimeline recents (dedupCandidates recents cands)),
      ∀ t d, (t, some d) ∈ cluster → t = d.ts ∧ d.Plain := by
    intro cluster hcluster t d hd
    rcases mem_mergedTimeline.mp (mem_of_mem_clusters hcluster hd) with ⟨r, -, heq⟩ | ⟨e, he, heq⟩
    · exact absurd (Prod.mk.inj heq).2 (by simp)
    · obtain ⟨rfl, hde⟩ := Prod.mk.inj heq
      obtain rfl := Option.some.inj hde
      exact ⟨rfl, hplain _ (mem_of_mem_dedupCandidates he)⟩
  constructor
  · rintro ⟨⟨d, b⟩, ⟨⟨cluster, hcluster, hflag⟩, hadmit⟩, rfl⟩
    obtain ⟨⟨t, ht⟩, hchained⟩ :=
      mem_chainedFlags_of_plain (fun t d hd => (hslot cluster hcluster t d hd).2) hflag
    have hts := (hslot cluster hcluster t d ht).1
    refine ⟨cluster, hcluster, by rw [hts] at ht; exact ht, ?_⟩
    rcases Bool.or_eq_true_iff.mp hadmit with hhole | hb
    · exact Or.inl hhole
    · exact Or.inr (hchained hb)
  · rintro ⟨cluster, hcluster, hc, hadmit⟩
    rcases hadmit with hhole | ⟨⟨r, hr⟩, hnear⟩
    · -- the flag does not matter inside a hole
      have hmem : c ∈ (chainedFlags recents cluster).map Prod.fst := by
        rw [map_fst_chainedFlags]
        exact List.mem_filterMap.mpr ⟨_, hc, rfl⟩
      obtain ⟨cf, hcf, rfl⟩ := List.mem_map.mp hmem
      exact ⟨cf, ⟨⟨cluster, hcluster, hcf⟩, by rw [hhole, Bool.true_or]⟩, rfl⟩
    · refine ⟨_, ⟨⟨cluster, hcluster, mem_chainedFlags_of_anchor hc hr⟩, ?_⟩, rfl⟩
      rw [decide_eq_true hnear, Bool.or_true]

theorem timeOrdered_insertionSort (l : List (GapFillCandidate Unit)) :
    TimeOrdered (l.insertionSort GapFillCandidate.le) :=
  (List.pairwise_insertionSort GapFillCandidate.le l).imp fun hle => by
    rcases hle with hle | ⟨hle, -⟩ <;> omega

/-- **The merged timeline has no two slots at one time.** -/
theorem increasing_mergedTimeline {recents : List Int} (hrecents : recents.Pairwise (· < ·))
    (cands : List (GapFillCandidate Unit)) :
    Increasing Prod.fst (mergedTimeline recents (dedupCandidates recents cands)) := by
  have hv := window_values
  have hsorted : (mergedTimeline recents (dedupCandidates recents cands)).Pairwise fun a b => a.1 ≤ b.1 :=
    List.pairwise_insertionSort (fun a b : Slot Unit => a.1 ≤ b.1) _
  have hkept : (dedupCandidates recents cands).Pairwise fun a b => a.ts ≠ b.ts :=
    (spaced_keepSpaced (timeOrdered_insertionSort _)).1.imp fun h => by omega
  have hdistinct : (recents.map (fun t => ((t, none) : Slot Unit))
      ++ (dedupCandidates recents cands).map fun c => (c.ts, some c)).Pairwise fun a b => a.1 ≠ b.1 := by
    refine List.pairwise_append.mpr ⟨?_, ?_, ?_⟩
    · exact List.pairwise_map.mpr (hrecents.imp fun h => ne_of_lt h)
    · exact List.pairwise_map.mpr hkept
    · -- a kept candidate is no duplicate of a recent clip
      intro s hs u hu
      obtain ⟨r, hr, rfl⟩ := List.mem_map.mp hs
      obtain ⟨c, hc, rfl⟩ := List.mem_map.mp hu
      have hmem := (List.mem_insertionSort GapFillCandidate.le).mp ((keepSpaced_sublist _ _).subset hc)
      have hdup := (List.mem_filter.mp hmem).2
      intro heq
      dsimp only at heq
      have hself := (dupOfRecent_iff (hrecents.imp le_of_lt) c.ts).mpr ⟨r, hr, by omega, by omega⟩
      rw [hself] at hdup
      exact absurd hdup (by decide)
  have hne : (mergedTimeline recents (dedupCandidates recents cands)).Pairwise fun a b => a.1 ≠ b.1 :=
    (List.perm_insertionSort (fun a b : Slot Unit => a.1 ≤ b.1) _).symm.pairwise hdistinct fun h => h.symm
  exact (hsorted.and hne).imp fun h => lt_of_le_of_ne h.1 h.2

section Locality

variable {recents times : List Int} {cands : List (GapFillCandidate Unit)} {keep : GapFillCandidate Unit → Bool} {t : Int}

/-- What is kept around a time does not depend on candidates that are not linked to it. -/
theorem mem_dedupCandidates_of_linked (hplain : ∀ c ∈ cands, c.Plain) (htimes : ∀ c ∈ cands, c.ts ∈ times)
    (hkeep : ∀ c ∈ cands, Linked times t c.ts → keep c = true) {c : GapFillCandidate Unit} (hlinked : Linked times t c.ts)
    (hc : c ∈ dedupCandidates recents cands) : c ∈ dedupCandidates recents (cands.filter keep) := by
  classical
  have hv := window_values
  let part : Int → Bool := fun u => decide (Linked times t u)
  have hpart : ∀ (l : List (GapFillCandidate Unit)), (∀ c ∈ l, c.ts ∈ times) →
      (keepSpaced none (l.insertionSort GapFillCandidate.le)).filter (fun c => part c.ts)
        = keepSpaced none ((l.insertionSort GapFillCandidate.le).filter fun c => part c.ts) := by
    intro l hl
    refine filter_keepSpaced (timeOrdered_insertionSort l) ?_ fun u hu => nomatch hu
    intro a ha b hb hpa hpb
    have ha := hl a ((List.mem_insertionSort _).mp ha)
    have hb := hl b ((List.mem_insertionSort _).mp hb)
    rcases hop_lt_of_not_linked ha hb (of_decide_eq_true hpa) (of_decide_eq_false hpb) with h | h <;> omega
  -- the linked candidates are the same ones in the same order
  have hsame : ((cands.filter fun c => !dupOfRecent recents c.ts).insertionSort GapFillCandidate.le).filter
        (fun c => part c.ts)
      = (((cands.filter keep).filter fun c => !dupOfRecent recents c.ts).insertionSort GapFillCandidate.le).filter
        fun c => part c.ts := by
    have hordered : ∀ l : List (GapFillCandidate Unit),
        ((l.insertionSort GapFillCandidate.le).filter fun c => part c.ts).Pairwise GapFillCandidate.le :=
      fun l => (List.pairwise_insertionSort _ l).filter _
    refine List.Perm.eq_of_pairwise ?_ (hordered _) (hordered _) ?_
    · intro a b ha hb hab hba
      have ha := (List.mem_insertionSort _).mp (List.mem_of_mem_filter ha)
      have hb := (List.mem_insertionSort _).mp (List.mem_of_mem_filter hb)
      exact (hplain a (List.mem_of_mem_filter ha)).eq_of_le
        (hplain b (List.mem_of_mem_filter (List.mem_of_mem_filter hb))) hab hba
    · refine ((List.perm_insertionSort _ _).filter _).trans (List.Perm.trans ?_
        ((List.perm_insertionSort _ _).filter _).symm)
      rw [List.filter_filter, List.filter_filter, List.filter_filter]
      refine List.Perm.of_eq (List.filter_congr fun d hd => ?_)
      by_cases hlink : Linked times t d.ts
      · rw [hkeep d hd hlink, Bool.and_true]
      · simp [part, hlink]
  have hmem : c ∈ (dedupCandidates recents cands).filter fun c => part c.ts :=
    List.mem_filter.mpr ⟨hc, decide_eq_true hlinked⟩
  rw [dedupCandidates, hpart _ fun d hd => htimes d (List.mem_of_mem_filter hd), hsame,
    ← hpart _ fun d hd => htimes d (List.mem_of_mem_filter (List.mem_of_mem_filter hd))] at hmem
  exact List.mem_of_mem_filter hmem

/-- **Selection looks along chains only**: a candidate that is selected stays selected when candidates are taken away
that are not linked to it. -/
theorem selectGapFill_of_linked (hrecents : recents.Pairwise (· < ·)) (hrecentTimes : ∀ r ∈ recents, r ∈ times)
    (hplain : ∀ c ∈ cands, c.Plain) (htimes : ∀ c ∈ cands, c.ts ∈ times) {c : GapFillCandidate Unit}
    (hkeep : ∀ d ∈ cands, Linked times c.ts d.ts → keep d = true) (hc : c ∈ selectGapFill recents cands) :
    c ∈ selectGapFill recents (cands.filter keep) := by
  have hv := window_values
  obtain ⟨cluster, hcluster, hslot, hadmit⟩ := (mem_selectGapFill_iff hplain c).mp hc
  have hfull := increasing_mergedTimeline hrecents cands
  have hless := increasing_mergedTimeline hrecents (cands.filter keep)
  have hmerged : ∀ s ∈ mergedTimeline recents (dedupCandidates recents cands), s.1 ∈ times := by
    intro s hs
    rcases mem_mergedTimeline.mp hs with ⟨r, hr, rfl⟩ | ⟨d, hd, rfl⟩
    · exact hrecentTimes r hr
    · exact htimes d (mem_of_mem_dedupCandidates hd)
  obtain ⟨a, rest, rfl⟩ := List.exists_cons_of_ne_nil (ne_nil_of_run hcluster)
  have hchain : (a :: rest).IsChain fun a b => decide (b.1 - a.1 ≤ gapFillAdjMs) = true := isChain_of_run hcluster
  have hincreasing := hfull.run hcluster
  -- the whole cluster is linked to the candidate, so all of it is left
  have hlinked : ∀ s ∈ a :: rest, Linked times c.ts s.1 := fun s hs => by
    have hhead := linked_of_isChain hchain hincreasing fun s hs => hmerged s (mem_of_mem_clusters hcluster hs)
    exact (hhead _ hslot).symm.trans (hhead s hs)
  have hleft : ∀ s ∈ a :: rest, s ∈ mergedTimeline recents (dedupCandidates recents (cands.filter keep)) := by
    intro s hs
    rcases mem_mergedTimeline.mp (mem_of_mem_clusters hcluster hs) with ⟨r, hr, rfl⟩ | ⟨d, hd, rfl⟩
    · exact mem_mergedTimeline.mpr (Or.inl ⟨r, hr, rfl⟩)
    · have hkept := mem_dedupCandidates_of_linked hplain htimes hkeep (hlinked _ hs) hd
      exact mem_mergedTimeline.mpr (Or.inr ⟨d, hkept, rfl⟩)
  obtain ⟨cluster', hcluster', ha⟩ := exists_run Prod.fst gapFillAdjMs (hleft a List.mem_cons_self)
  have hsubset := chain_subset_run hless hcluster' hchain hincreasing
    (fun s hs => hleft s (List.mem_cons_of_mem _ hs)) ha (by omega)
  refine (mem_selectGapFill_iff (fun d hd => hplain d (List.mem_of_mem_filter hd)) c).mpr
    ⟨cluster', hcluster', hsubset _ hslot, ?_⟩
  exact hadmit.imp_right fun ⟨⟨r, hr⟩, hnear⟩ => ⟨⟨r, hsubset _ hr⟩, hnear⟩

end Locality

/-! ## The timeline of a pass -/

theorem parseClipTimestamp_normalizePath (f : Text) : parseClipTimestamp (normalizePath f) = parseClipTimestamp f :=
  congrArg parseFileTimestamp (clipName_normalizePath f)

/-- An event clip lies in no day folder. -/
theorem dayDir_eventFolder {f : Text} (h : isEventFolderPath f = true) : dayDir f = none := by
  have hfourth : f[4]? ≠ some '-' := by
    intro hdash
    have hnorm : (normSlashes f)[4]? = some '-' := by
      rw [normSlashes, List.getElem?_map, hdash]
      rfl
    rcases Bool.or_eq_true_iff.mp h with h | h <;>
      · obtain ⟨rest, hrest⟩ := List.isPrefixOf_iff_prefix.mp h
        rw [← hrest, List.getElem?_append_left (by decide)] at hnorm
        exact absurd hnorm (by decide)
  rw [dayDir, if_neg fun h => hfourth h.1]

/-- Sets of the same elements are the same in order. -/
theorem sortedSet_congr {l m : List Int} (h : ∀ a, a ∈ l ↔ a ∈ m) : sortedSet l = sortedSet m := by
  refine List.Perm.eq_of_pairwise ?_ (pairwise_sortedSet l) (pairwise_sortedSet m) ?_
  · exact fun a b _ _ hab hba => absurd hab (lt_asymm hba)
  refine (List.perm_ext_iff_of_nodup ?_ ?_).mpr fun a => by rw [mem_sortedSet, mem_sortedSet, h a]
  · exact (pairwise_sortedSet l).imp ne_of_lt
  · exact (pairwise_sortedSet m).imp ne_of_lt

theorem mem_recentTimeline_nil {disk : Disk} {t : Int} :
    t ∈ recentTimeline [] disk ↔ t ∈ disk.recents.filterMap parseClipTimestamp := by
  rw [recentTimeline, mem_sortedSet]
  simp [processedFilesForDays]

/-- Clips processed earlier add nothing to the timeline of a disk that still has them. -/
theorem recentTimeline_of_known {all : Disk} {processed : List Text}
    (hknown : ∀ k ∈ processed, k ∈ all.events ∨ ∃ f ∈ all.recents, k = normalizePath f) :
    recentTimeline processed all = recentTimeline [] all := by
  refine sortedSet_congr fun t => ?_
  simp only [processedFilesForDays, List.mem_append, List.filter_nil, List.filterMap_nil, List.not_mem_nil, or_false]
  refine ⟨fun h => ?_, Or.inl⟩
  rcases h with h | hstored
  · exact h
  obtain ⟨k, hk, hts⟩ := List.mem_filterMap.mp (List.mem_of_mem_filter hstored)
  obtain ⟨hk, hday⟩ := List.mem_filter.mp hk
  rcases hknown k hk with hevent | ⟨f, hf, rfl⟩
  · -- an event clip is in no day folder
    rw [dayDir_eventFolder (all.events_folder k hevent), Option.any_none] at hday
    exact absurd hday Bool.false_ne_true
  · exact List.mem_filterMap.mpr ⟨f, hf, by rw [← hts, parseClipTimestamp_normalizePath]⟩

theorem mem_eventCandidates {processed events : List Text} {c : GapFillCandidate Unit} :
    c ∈ eventCandidates processed events ↔
      c.Plain ∧ c.file ∈ events ∧ normalizePath c.file ∉ processed ∧ parseClipTimestamp c.file = some c.ts := by
  simp only [eventCandidates, List.mem_filterMap, List.mem_filter, Option.map_eq_some_iff, Bool.not_eq_true',
    decide_eq_false_iff_not]
  constructor
  · rintro ⟨f, ⟨hf, hnot⟩, ts, hts, rfl⟩
    exact ⟨⟨rfl, rfl⟩, hf, hnot, hts⟩
  · rintro ⟨⟨hdriving, hgear⟩, hf, hnot, hts⟩
    refine ⟨c.file, ⟨hf, hnot⟩, c.ts, hts, ?_⟩
    rw [← hdriving, ← hgear]

/-- Candidates of a later scan are those of the first one that are not processed. -/
theorem eventCandidates_eq_filter (processed events : List Text) :
    eventCandidates processed events
      = (eventCandidates [] events).filter fun c => !decide (normalizePath c.file ∈ processed) := by
  simp only [eventCandidates, List.not_mem_nil, decide_false, Bool.not_false, List.filter_true]
  induction events with
  | nil => rfl
  | cons f events ih =>
    by_cases hf : normalizePath f ∈ processed
    · cases hts : parseClipTimestamp f with
      | none => simp [hf, hts, ih]
      | some ts => simp [hf, hts, ih]
    · cases hts : parseClipTimestamp f with
      | none => simp [hf, hts, ih]
      | some ts => simp [hf, hts, ih]

theorem mem_events_of_mem_scan {recents : List Int} {processed events : List Text} {f : Text}
    (h : f ∈ scanEventGapFill recents processed events) : f ∈ events ∧ normalizePath f ∉ processed := by
  obtain ⟨c, hc, rfl⟩ := List.mem_map.mp h
  have hc := mem_eventCandidates.mp (mem_of_mem_selectGapFill hc)
  exact ⟨hc.2.1, hc.2.2.1⟩

/-- What a pass extracts is on its disk. -/
theorem mem_disk_of_mem_extracted {processed : List Text} {p : Pass} {f : Text} (h : f ∈ extracted processed p) :
    f ∈ p.disk.recents ∨ f ∈ p.disk.events := by
  have hun : f ∈ unprocessed processed p.disk := by
    cases hcut : p.cut with
    | none => simpa [extracted, hcut] using h
    | some n => exact List.mem_of_mem_take (by simpa [extracted, hcut] using h)
  rcases List.mem_append.mp hun with hrecent | hevent
  · exact Or.inl (List.mem_of_mem_filter hrecent)
  · exact Or.inr (mem_events_of_mem_scan hevent).1

/-! ## Runs -/

variable {recorded : Text → Bool} {all : Disk}

/-- One pass as a step. -/
def passStep (recorded : Text → Bool) (processed : List Text) (p : Pass) : Option (List Text) :=
  some (doProcess recorded processed p)

/-- A pass of the arrival of some clips: it sees part of them, and leaves no chain half extracted. -/
def CarefulPass (recorded : Text → Bool) (all : Disk) (processed : List Text) (p : Pass) : Prop :=
  p.disk.recents ⊆ all.recents ∧ p.disk.events ⊆ all.events ∧ Whole recorded all processed p

/-- **What passes keep**: every record is of a clip that arrives, and of a chain of which one clip is recorded every
clip is that a single pass would extract. -/
structure ChainsWhole (recorded : Text → Bool) (all : Disk) (processed : List Text) : Prop where
  known : ∀ k ∈ processed, k ∈ all.events ∨ ∃ f ∈ all.recents, k = normalizePath f
  whole : ∀ e ∈ processed, e ∈ all.events → ∀ x ∈ singlePass all, recorded x = true →
    (∀ te ∈ parseClipTimestamp e, ∀ tx ∈ parseClipTimestamp x, Linked (clipTimes all) te tx) → x ∈ processed

theorem mem_doProcess {processed : List Text} {p : Pass} {k : Text} :
    k ∈ doProcess recorded processed p ↔
      k ∈ processed ∨ ∃ f ∈ extracted processed p, recorded f = true ∧ normalizePath f = k := by
  simp only [doProcess, List.mem_append, List.mem_map, List.mem_filter, and_assoc]

theorem mem_events_of_mem_singlePass {x : Text} (hx : x ∈ singlePass all) : x ∈ all.events :=
  (mem_events_of_mem_scan hx).1

/-- One pass. -/
theorem ChainsWhole.step {processed : List Text} {p : Pass} (h : ChainsWhole recorded all processed)
    (hp : CarefulPass recorded all processed p) : ChainsWhole recorded all (doProcess recorded processed p) := by
  obtain ⟨hrecents, hevents, hwhole⟩ := hp
  refine ⟨fun k hk => ?_, fun e he heAll x hx hrx hlinked => ?_⟩
  · rcases mem_doProcess.mp hk with hk | ⟨f, hf, -, rfl⟩
    · exact h.known k hk
    · rcases mem_disk_of_mem_extracted hf with hf | hf
      · exact Or.inr ⟨f, hrecents hf, rfl⟩
      · rw [p.disk.events_canonical f hf]
        exact Or.inl (hevents hf)
  · have hcanonical : normalizePath x = x := all.events_canonical x (mem_events_of_mem_singlePass hx)
    have hgoal : x ∈ processed ∨ x ∈ extracted processed p := by
      rcases mem_doProcess.mp he with he | ⟨f, hf, hrf, hfe⟩
      · exact Or.inl (h.whole e he heAll x hx hrx hlinked)
      · rcases mem_disk_of_mem_extracted hf with hrecent | hevent
        · -- the key of a recent clip is no event clip
          have hplain := p.disk.recents_plain f hrecent
          rw [hfe, all.events_folder e heAll] at hplain
          exact absurd hplain (by decide)
        · obtain rfl : f = e := by rw [← hfe, p.disk.events_canonical f hevent]
          exact hwhole f hf hevent hrf x hx hrx hlinked
    rcases hgoal with hx | hx
    · exact mem_doProcess.mpr (Or.inl hx)
    · exact mem_doProcess.mpr (Or.inr ⟨x, hx, hrx, hcanonical⟩)

/-- Every run of careful passes keeps chains whole. -/
theorem chainsWhole_of_reaches {processed : List Text}
    (h : Reaches (passStep recorded) (CarefulPass recorded all) [] processed) : ChainsWhole recorded all processed := by
  refine h.invariant ⟨fun k hk => absurd hk List.not_mem_nil, fun e he => absurd he List.not_mem_nil⟩ ?_
  intro processed p processed' hinv hp hstep
  rw [← Option.some.inj hstep]
  exact hinv.step hp

/-- A recent clip, and the event clips two and four minutes later. -/
def chainRecent : Text := "RecentClips/2025-01-02/2025-01-02_08-00-00-front.mp4".toList
def chainMiddle : Text := "SavedClips/2025-01-02_08-05-00/2025-01-02_08-02-00-front.mp4".toList
def chainTail : Text := "SavedClips/2025-01-02_08-05-00/2025-01-02_08-04-00-front.mp4".toList

/-- The disk with the three of them. -/
def chainDisk : Disk where
  recents := [chainRecent]
  events := [chainMiddle, chainTail]
  recents_plain := by decide +kernel
  events_folder := by decide +kernel
  events_canonical := by decide +kernel

end SentryUsb
