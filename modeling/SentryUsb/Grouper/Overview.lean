import SentryUsb.Grouper.RouteSplit

/-! # Planning drives from metadata alone

The map builder streams: it decides which point ranges of which clips make up each drive before any
point is decoded, from per-clip facts. The planner mirrors `group_clips` step by step over those
facts.

* **`planOverviews`** — the planner (`grouper.rs`, `plan_overviews`);
* **`FragmentOf`** — a planned fragment describes a clip of the full grouping;
* **`planOverviews_simulates_groupClips`** — drive by drive and fragment by fragment, the planner
  describes what the full grouping computes. -/

namespace SentryUsb

open Library

/-! ## The planner -/

/-- Reduced facts of a row: everything the grouping consults, none of the point data
(`OverviewClipMeta`). -/
structure OverviewClipMeta where
  file : Text
  nPoints : Nat
  gearRuns : List GearRun
  gearStatesLen : Nat
  gearStatesNonPark : Bool
  gearStatesParkCount : Nat
  rawParkCount : Nat
  rawFrameCount : Nat
  speedsDriving : Bool
  source : Option Text
  externalSignature : Option Text

/-- The facts of a row (`OverviewClipMeta::from_route`). -/
def OverviewClipMeta.fromRoute (r : Route) : OverviewClipMeta :=
  { file := r.file
    nPoints := r.points.length
    gearRuns := r.gearRuns
    gearStatesLen := r.gearStates.length
    gearStatesNonPark := r.gearStates.any (· != gearPark)
    gearStatesParkCount := parkCount r.gearStates
    rawParkCount := r.rawParkCount
    rawFrameCount := r.rawFrameCount
    speedsDriving := SentryUsb.speedsDriving r.speeds
    source := r.source
    externalSignature := r.externalSignature }

/-- Gap-fill verdict over the facts (`OverviewClipMeta::driving`). -/
def OverviewClipMeta.driving (m : OverviewClipMeta) : Bool :=
  telemetryHasDrivingCore (runsNonPark m.gearRuns) m.gearRuns.isEmpty m.gearStatesNonPark
    (m.gearStatesLen == 0) m.rawParkCount m.rawFrameCount m.speedsDriving

/-- One planned slice of one clip inside a drive. -/
structure PlannedFragment where
  metaIdx : Nat
  start : Nat
  stop : Nat
  timestamp : Int
  deriving DecidableEq, Repr

/-- A row of the planner: an index into the list of facts, with the facts it points at. -/
abbrev MetaRow := OverviewClipMeta × Nat

/-- What the timeline reads of a planner row. -/
def metaEntry (m : MetaRow) : ClipEntry MetaRow :=
  { row := m, file := m.1.file, driving := m.1.driving, gearDriving := runsNonPark m.1.gearRuns,
    native := boundsClipSpan m.1.source m.1.file }

/-- A clip taken whole (`whole_fragment`). -/
def wholeFragment (t : Timed MetaRow) : PlannedFragment := ⟨t.row.2, 0, t.row.1.nPoints, t.timestamp⟩

/-- The fragment of a planned segment; `none` is a Park boundary. -/
def plannedFragment (t : Timed MetaRow) (seg : PlannedSeg) : Option PlannedFragment :=
  if seg.parked then none
  else some ⟨t.row.2, seg.start, seg.stop, t.timestamp + seg.offsetMs⟩

/-- What a clip contributes to the stream of a gear group. -/
def planEvents (t : Timed MetaRow) : List (Option PlannedFragment) :=
  if t.row.1.gearRuns.isEmpty then [some (wholeFragment t)]
  else match planClipAtParkGaps t.row.1.gearRuns t.row.1.nPoints t.clipSpanMs with
    | none => if 0 < t.row.1.nPoints then [some (wholeFragment t)] else []
    | some plan => plan.map (plannedFragment t)

/-- Clip-level fallback (`plan_split_legacy`). -/
def planSplitLegacy (group : List (Timed MetaRow)) : List (List PlannedFragment) :=
  if group.length ≤ 1 then [group.map wholeFragment]
  else if group.all fun t => !decide (0 < t.row.1.gearStatesLen) then [group.map wholeFragment]
  else cut (group.map fun t =>
    if mostlyParkedLegacyCore t.row.1.rawParkCount t.row.1.rawFrameCount
      t.row.1.gearStatesParkCount t.row.1.gearStatesLen then none
    else some (wholeFragment t))

/-- The gear split over metadata (`plan_split_by_gear`). -/
def planSplitByGear (group : List (Timed MetaRow)) : List (List PlannedFragment) :=
  if group.isEmpty then []
  else if group.all fun t => t.row.1.gearRuns.isEmpty then planSplitLegacy group
  else
    let result := cut (group.flatMap planEvents)
    if result.isEmpty then [group.map wholeFragment] else result

/-- External signature of a fragment, looked up by its index. -/
def fragmentSignature (metas : List OverviewClipMeta) (f : PlannedFragment) : Option Text :=
  (metas[f.metaIdx]?).bind OverviewClipMeta.externalSignature

/-- The planned drives of a list of facts (`plan_overviews`). -/
def planOverviews (o : BucketOrder) (metas : List OverviewClipMeta) : List (List PlannedFragment) :=
  ((timeGroups (metas.zipIdx.map metaEntry)).flatMap planSplitByGear).flatMap
    (splitByExternalSignature (fragmentSignature metas) o)

/-- Start time and source of a full drive, as the overview shows them. -/
def overviewHead (clips : List (Timed Route)) : Option Int × Option Text :=
  (clips.head?.map Timed.timestamp, clips.head?.bind fun c => c.row.source)

/-- Start time and source of a planned drive. -/
def plannedHead (metas : List OverviewClipMeta) (frags : List PlannedFragment) :
    Option Int × Option Text :=
  (frags.head?.map PlannedFragment.timestamp,
    frags.head?.bind fun f => (metas[f.metaIdx]?).bind OverviewClipMeta.source)

/-! ## The simulation -/

section Simulation

variable {routes : List Route}

/-- **A planned fragment describes a clip of the full grouping**: same time, and the row it points at
gives the clip's source, signature and — over the planned range — exactly its points. -/
structure FragmentOf (routes : List Route) (clip : Timed Route) (f : PlannedFragment) : Prop where
  timestamp : f.timestamp = clip.timestamp
  points : ∃ r, routes[f.metaIdx]? = some r ∧ slice r.points f.start f.stop = clip.row.points
    ∧ r.source = clip.row.source ∧ r.externalSignature = clip.row.externalSignature

/-- A full row and a planner row of the same clip, at the same place on the timeline. -/
def SameClip (routes : List Route) (t : Timed Route) (m : Timed MetaRow) : Prop :=
  m.timestamp = t.timestamp ∧ m.clipSpanMs = t.clipSpanMs ∧ routes[m.row.2]? = some t.row
    ∧ m.row.1 = OverviewClipMeta.fromRoute t.row

variable {t : Timed Route} {m : Timed MetaRow}

theorem wholeFragment_of (h : SameClip routes t m) : FragmentOf routes t (wholeFragment m) := by
  obtain ⟨hts, -, hrow, hmeta⟩ := h
  refine ⟨hts, t.row, hrow, ?_, rfl, rfl⟩
  simp [wholeFragment, hmeta, OverviewClipMeta.fromRoute]

/-- A planned segment with a point range describes the sliced clip. -/
theorem plannedFragment_of (h : SameClip routes t m) (seg : PlannedSeg) :
    Option.Rel (FragmentOf routes) (fragment t seg) (plannedFragment m seg) := by
  obtain ⟨hts, -, hrow, -⟩ := h
  unfold fragment plannedFragment
  split
  · exact .none
  · exact .some ⟨by simp [hts], t.row, hrow, rfl, rfl, rfl⟩

/-- A planned segment of a clip never slices to an empty piece. -/
theorem fragment_nonempty {plan : List PlannedSeg} {t : Timed Route}
    (hplan : planClipAtParkGaps t.row.gearRuns t.row.points.length t.clipSpanMs = some plan) :
    (plan.map (fragment t)).filter (fun e => e.all fun seg => !seg.row.points.isEmpty)
      = plan.map (fragment t) := by
  rw [List.filter_eq_self]
  intro e he
  obtain ⟨seg, hseg, rfl⟩ := List.mem_map.mp he
  cases hp : seg.parked with
  | true => simp [fragment, hp]
  | false =>
    obtain ⟨hlt, hle⟩ := range_of_mem_planClipAtParkGaps hplan hseg hp
    have hne : slice t.row.points seg.start seg.stop ≠ [] := slice_ne_nil hlt hle
    simpa [fragment, hp, Route.slice] using hne

/-- One clip contributes matching events to both streams. -/
theorem planEvents_of (h : SameClip routes t m) :
    List.Forall₂ (Option.Rel (FragmentOf routes)) (gearEvents t) (planEvents m) := by
  have hwhole := wholeFragment_of h
  obtain ⟨-, hspan, -, hmeta⟩ := id h
  have hruns : m.row.1.gearRuns = t.row.gearRuns := by rw [hmeta]; rfl
  have hn : m.row.1.nPoints = t.row.points.length := by rw [hmeta]; rfl
  unfold gearEvents planEvents splitClipAtParkGaps
  rw [hruns, hn, hspan]
  split
  · exact .cons (.some hwhole) .nil
  · cases hplan : planClipAtParkGaps t.row.gearRuns t.row.points.length t.clipSpanMs with
    | none =>
      -- an unsplit clip is kept only when it has points
      cases hpts : t.row.points with
      | nil => simp [hpts]
      | cons p ps => simpa [hpts] using hwhole
    | some plan =>
      simp only
      rw [fragment_nonempty hplan, List.forall₂_map_left_iff, List.forall₂_map_right_iff,
        List.forall₂_same]
      exact fun seg _ => plannedFragment_of h seg

variable {group : List (Timed Route)} {mgroup : List (Timed MetaRow)}

/-- Groups of the same clips agree on a test of each clip. -/
theorem all_congr_of_sameClip (h : List.Forall₂ (SameClip routes) group mgroup)
    {p : Timed Route → Bool} {q : Timed MetaRow → Bool}
    (hpq : ∀ t m, SameClip routes t m → p t = q m) : group.all p = mgroup.all q := by
  induction h with
  | nil => rfl
  | cons htm _ ih => simp [hpq _ _ htm, ih]

theorem wholeGroup_of (h : List.Forall₂ (SameClip routes) group mgroup) :
    List.Forall₂ (FragmentOf routes) group (mgroup.map wholeFragment) := by
  rw [List.forall₂_map_right_iff]
  exact h.imp fun _ _ => wholeFragment_of

/-- The legacy split over metadata matches the legacy split of the rows. -/
theorem planSplitLegacy_of (h : List.Forall₂ (SameClip routes) group mgroup) :
    List.Forall₂ (List.Forall₂ (FragmentOf routes)) (splitByGearStateLegacy group)
      (planSplitLegacy mgroup) := by
  have hone := wholeGroup_of h
  have hstates := all_congr_of_sameClip h (p := fun t => t.row.gearStates.isEmpty)
    (q := fun m => !decide (0 < m.row.1.gearStatesLen)) fun t m hm => by
      obtain ⟨-, -, -, hmeta⟩ := hm
      cases hgs : t.row.gearStates <;> simp [hmeta, OverviewClipMeta.fromRoute, hgs]
  unfold splitByGearStateLegacy planSplitLegacy
  rw [h.length_eq, hstates]
  split
  · exact .cons hone .nil
  · split
    · exact .cons hone .nil
    · refine forall₂_cut ?_
      rw [List.forall₂_map_left_iff, List.forall₂_map_right_iff]
      refine h.imp fun t m hm => ?_
      have hpark : mostlyParkedLegacyCore m.row.1.rawParkCount m.row.1.rawFrameCount
          m.row.1.gearStatesParkCount m.row.1.gearStatesLen = clipIsMostlyParkedLegacy t.row := by
        rw [hm.2.2.2]
        rfl
      rw [hpark]
      split
      · exact .none
      · exact .some (wholeFragment_of hm)

/-- The gear split over metadata matches the gear split of the rows. -/
theorem planSplitByGear_of (h : List.Forall₂ (SameClip routes) group mgroup) :
    List.Forall₂ (List.Forall₂ (FragmentOf routes)) (splitByGearState group)
      (planSplitByGear mgroup) := by
  have hruns := all_congr_of_sameClip h (p := fun t => t.row.gearRuns.isEmpty)
    (q := fun m => m.row.1.gearRuns.isEmpty) fun t m hm => by rw [hm.2.2.2]; rfl
  have hempty : group.isEmpty = mgroup.isEmpty := by
    cases h with
    | nil => rfl
    | cons _ _ => rfl
  have hcut : List.Forall₂ (List.Forall₂ (FragmentOf routes)) (cut (group.flatMap gearEvents))
      (cut (mgroup.flatMap planEvents)) :=
    forall₂_cut (List.rel_flatMap h fun _ _ => planEvents_of)
  unfold splitByGearState planSplitByGear
  rw [hempty, hruns]
  split
  · exact .nil
  · split
    · exact planSplitLegacy_of h
    · simp only
      have hiff : (cut (group.flatMap gearEvents)).isEmpty
          = (cut (mgroup.flatMap planEvents)).isEmpty := by
        generalize cut (group.flatMap gearEvents) = l, cut (mgroup.flatMap planEvents) = l' at hcut
        cases hcut <;> rfl
      rw [hiff]
      split
      · exact .cons (wholeGroup_of h) .nil
      · exact hcut

end Simulation

/-- The signature split keeps matching groups matching, for one and the same iteration order. -/
theorem splitByExternalSignature_rel {α β : Type*} {R : α → β → Prop} {sig : α → Option Text}
    {sig' : β → Option Text} (hsig : ∀ a b, R a b → sig a = sig' b) (o : BucketOrder) {g : List α}
    {g' : List β} (h : List.Forall₂ R g g') :
    List.Forall₂ (List.Forall₂ R) (splitByExternalSignature sig o g)
      (splitByExternalSignature sig' o g') := by
  have hfilter : ∀ p : Option Text → Bool,
      List.Forall₂ R (g.filter fun c => p (sig c)) (g'.filter fun c => p (sig' c)) := fun p =>
    List.rel_filter (fun a b hab => by simp only [hsig a b hab]) h
  have hall : (g.all fun c => (sig c).isNone) = g'.all fun c => (sig' c).isNone := by
    clear hfilter
    induction h with
    | nil => rfl
    | cons hab _ ih => simp [hsig _ _ hab, ih]
  have hkeys : signatures sig g = signatures sig' g' := by
    clear hfilter hall
    unfold signatures
    congr 1
    induction h with
    | nil => rfl
    | cons hab _ ih => rw [List.filterMap_cons, List.filterMap_cons, hsig _ _ hab, ih]
  have hun : List.Forall₂ (List.Forall₂ R) (nonempty (unsigned sig g))
      (nonempty (unsigned sig' g')) := by
    have hu : List.Forall₂ R (unsigned sig g) (unsigned sig' g') := hfilter Option.isNone
    generalize unsigned sig g = u, unsigned sig' g' = u' at hu
    cases hu with
    | nil => exact .nil
    | cons hab hl => exact .cons (.cons hab hl) .nil
  unfold splitByExternalSignature
  rw [h.length_eq, hall, hkeys]
  split
  · exact .cons h .nil
  · split
    · exact .cons h .nil
    · refine List.rel_append hun ?_
      rw [List.forall₂_map_left_iff, List.forall₂_map_right_iff, List.forall₂_same]
      exact fun key _ => hfilter fun s => decide (s = some key)

/-- The indexed rows, as entries of the timeline. -/
def indexedEntry (r : Route × Nat) : ClipEntry (Route × Nat) :=
  { row := r, file := r.1.file, driving := routeHasDriving r.1,
    gearDriving := telemetryGearDriving r.1.gearRuns [],
    native := boundsClipSpan r.1.source r.1.file }

theorem routeEntry_eq_map (routes : List Route) :
    routes.map routeEntry
      = (routes.zipIdx.map indexedEntry).map (ClipEntry.map Prod.fst) := by
  have h : routes = routes.zipIdx.map Prod.fst := (List.zipIdx_map_fst 0 routes).symm
  conv_lhs => rw [h]
  rw [List.map_map, List.map_map]
  rfl

theorem metaEntry_eq_map (routes : List Route) :
    (routes.map OverviewClipMeta.fromRoute).zipIdx.map metaEntry
      = (routes.zipIdx.map indexedEntry).map
        (ClipEntry.map (Prod.map OverviewClipMeta.fromRoute id)) := by
  rw [List.zipIdx_map, List.map_map, List.map_map]
  refine List.map_congr_left fun r _ => ?_
  have hlen : ((r.1.gearStates.length == 0) : Bool) = r.1.gearStates.isEmpty := by
    cases r.1.gearStates <;> rfl
  simp [metaEntry, indexedEntry, ClipEntry.map, OverviewClipMeta.driving,
    OverviewClipMeta.fromRoute, routeHasDriving, telemetryHasDriving, telemetryGearDriving, hlen]

/-- The two timelines hold the same clips. -/
theorem forall₂_timeGroups (routes : List Route) :
    List.Forall₂ (List.Forall₂ (SameClip routes)) (timeGroups (routes.map routeEntry))
      (timeGroups ((routes.map OverviewClipMeta.fromRoute).zipIdx.map metaEntry)) := by
  rw [routeEntry_eq_map, metaEntry_eq_map, timeGroups_map, timeGroups_map,
    List.forall₂_map_left_iff, List.forall₂_map_right_iff, List.forall₂_same]
  intro g hg
  rw [List.forall₂_map_left_iff, List.forall₂_map_right_iff, List.forall₂_same]
  intro t ht
  obtain ⟨c, hc, hrow, -⟩ := mem_timeline (mem_timeline_of_mem_timeGroups hg ht)
  obtain ⟨r, hr, rfl⟩ := List.mem_map.mp hc
  refine ⟨rfl, rfl, ?_, rfl⟩
  have hidx := List.mem_zipIdx_iff_getElem?.mp hr
  simpa [Timed.map, hrow, indexedEntry] using hidx

/-- A fragment and the clip it describes carry one signature. -/
theorem FragmentOf.signature_eq {routes : List Route} {clip : Timed Route} {f : PlannedFragment}
    (h : FragmentOf routes clip f) :
    routeSignature clip = fragmentSignature (routes.map OverviewClipMeta.fromRoute) f := by
  obtain ⟨r, hr, -, -, hsig⟩ := h.points
  simp [routeSignature, fragmentSignature, hr, OverviewClipMeta.fromRoute, hsig]

/-- A drive and its plan have the same start time and source. -/
theorem plannedHead_eq {routes : List Route} {clips : List (Timed Route)}
    {frags : List PlannedFragment} (h : List.Forall₂ (FragmentOf routes) clips frags) :
    plannedHead (routes.map OverviewClipMeta.fromRoute) frags = overviewHead clips := by
  cases h with
  | nil => rfl
  | cons hf _ =>
    obtain ⟨r, hr, -, hsource, -⟩ := hf.points
    simp [plannedHead, overviewHead, hf.timestamp, hr, OverviewClipMeta.fromRoute, hsource]

/-- **Planning from metadata is the full grouping.** For any one iteration order, the planned drives
are the drives of the full grouping in the same order, with the same start times and sources, and
every planned range applied to its row gives exactly the points of the clip in its place. -/
theorem planOverviews_simulates_groupClips (o : BucketOrder) (routes : List Route) :
    List.Forall₂ (List.Forall₂ (FragmentOf routes)) (groupClips o routes)
        (planOverviews o (routes.map OverviewClipMeta.fromRoute))
      ∧ (planOverviews o (routes.map OverviewClipMeta.fromRoute)).map
          (plannedHead (routes.map OverviewClipMeta.fromRoute))
        = (groupClips o routes).map overviewHead := by
  have hdrives : List.Forall₂ (List.Forall₂ (FragmentOf routes)) (groupClips o routes)
      (planOverviews o (routes.map OverviewClipMeta.fromRoute)) := by
    have hgear := List.rel_flatMap (forall₂_timeGroups routes) fun _ _ => planSplitByGear_of
    refine List.rel_flatMap hgear fun clips frags hmatch => ?_
    exact splitByExternalSignature_rel (fun _ _ hf => FragmentOf.signature_eq hf) o hmatch
  refine ⟨hdrives, ?_⟩
  generalize groupClips o routes = drives,
    planOverviews o (routes.map OverviewClipMeta.fromRoute) = plan at hdrives
  induction hdrives with
  | nil => rfl
  | cons hd _ ih => rw [List.map_cons, List.map_cons, plannedHead_eq hd, ih]

end SentryUsb
