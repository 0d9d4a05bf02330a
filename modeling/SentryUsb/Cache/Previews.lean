import SentryUsb.Cache.PreviewStore

/-! # Previews and freshly built overviews

A row of the table belongs to a start time and a point limit, so of the drives that begin at one time it shows one. A
start it answers is right where one drive begins then, the request names it once, and its text reads back as it was.

* **`Inv`** — what is stored under the current revision was drawn from the current rows;
* **`Inv.reachable`** — so it is, whatever is changed, asked, written, lost or restarted in between;
* **`readPreviews_perm`** — the answer is then the full build, cut down to the starts that were asked for. -/

namespace SentryUsb.Preview

open Library

section Invariant

variable {V : Type} (c : Codec V) (o : BucketOrder) (format : Int → Text)

/-- The planned drives with their positions. -/
def planned (routes : RouteTable) : List (List PlannedFragment × Nat) :=
  (planOverviews o (selectOverviewMetas routes.rows)).zipIdx

/-- A body shows a drive that begins at a start. -/
def Shows (routes : RouteTable) (maxPoints : Nat) (start body : Text) : Prop :=
  ∃ d ∈ planned o routes, plannedStart format d.1 = some start
    ∧ body = c.toBody (c.toValue (drawn format routes.rows maxPoints d))

/-- A revision has come, and something holds if it is the current one. -/
def Dated (s : Store) (revision : Nat) (P : Prop) : Prop :=
  revision ≤ s.revision ∧ (revision = s.revision → P)

/-- **What is stored under the current revision was drawn from the current rows.** -/
structure Inv (s : Store) : Prop where
  previews : ∀ row ∈ s.previews,
    Dated s row.revision (Shows c o format s.routes row.maxPoints row.startTime row.body)
  plan : ∀ p ∈ s.plan, Dated s p.revision (p = freshPlan o format s.routes s.revision)
  saving : ∀ w ∈ s.saving,
    Dated s w.revision (∀ e ∈ w.built, Shows c o format s.routes w.maxPoints e.1 e.2)

variable {c o format} {s t : Store}

theorem Inv.opened (routes : RouteTable) (revision : Nat) : Inv c o format (opened routes revision) :=
  ⟨fun _ h => absurd h List.not_mem_nil, fun _ h => absurd h (Option.not_mem_none _),
    fun _ h => absurd h (Option.not_mem_none _)⟩

theorem Dated.of_lt {s t : Store} {revision : Nat} {P Q : Prop} (h : Dated s revision P) (hlt : s.revision < t.revision) :
    Dated t revision Q :=
  ⟨h.1.trans hlt.le, fun heq => absurd (heq ▸ h.1) (Nat.not_le.mpr hlt)⟩

theorem Inv.of_lt (h : Inv c o format s) (hlt : s.revision < t.revision) (hpreviews : t.previews = s.previews)
    (hplan : t.plan = s.plan) (hsaving : t.saving = s.saving) : Inv c o format t where
  previews := fun row hrow => (h.previews row (hpreviews ▸ hrow)).of_lt hlt
  plan := fun p hp => (h.plan p (hplan ▸ hp)).of_lt hlt
  saving := fun w hw => (h.saving w (hsaving ▸ hw)).of_lt hlt

theorem Inv.change (h : Inv c o format s) (change : RouteChange) : Inv c o format (s.change change) := by
  cases change with
  | upsert r => exact h.of_lt (Nat.lt_succ_self _) rfl rfl rfl
  | delete file =>
    by_cases hrow : (s.routes.byFile.get file).isSome = true
    · rw [show s.change (.delete file) = { s with routes := s.routes.delete file, revision := s.revision + 1 } from
        if_pos hrow]
      exact h.of_lt (Nat.lt_succ_self _) rfl rfl rfl
    · rw [show s.change (.delete file) = s from if_neg hrow]
      exact h

/-- The plan of a request is the plan of the rows. -/
theorem Inv.routePreviewPlan_eq (h : Inv c o format s) :
    routePreviewPlan o format s = freshPlan o format s.routes s.revision := by
  unfold routePreviewPlan
  cases hplan : s.plan.filter fun p => p.revision == s.revision with
  | none => rfl
  | some p =>
    obtain ⟨hp, hcurrent⟩ := Option.filter_eq_some_iff.mp hplan
    exact (h.plan p hp).2 (eq_of_beq hcurrent)

/-- The drives of the plan that begin at a start. -/
theorem getD_get_freshPlan (routes : RouteTable) (revision : Nat) (start : Text) :
    ((freshPlan o format routes revision).indicesByStart.get start).getD []
      = (bucket (fun d => plannedStart format d.1) (planned o routes) start).map Prod.snd := by
  have hindices : (freshPlan o format routes revision).indicesByStart
      = (planned o routes).foldl (enterDrive format) .empty := by rw [freshPlan, planned]
  rw [hindices, getD_get_enterDrive, SortedMap.get_empty, Option.getD_none, List.nil_append]

/-- What is drawn for missing starts, with those starts: each of their drives. -/
theorem drawPlanned_perm (routes : RouteTable) (revision maxPoints : Nat) (missing : List Text) :
    ((requestedDrives (freshPlan o format routes revision) missing).map fun e =>
        (e.2, drawPlanned format (freshPlan o format routes revision) routes.rows maxPoints e.1)).Perm
      (missing.flatMap fun start => (bucket (fun d => plannedStart format d.1) (planned o routes) start).map fun d =>
        (start, drawn format routes.rows maxPoints d)) := by
  refine ((List.perm_insertionSort _ _).map _).trans (List.Perm.of_eq ?_)
  rw [List.map_flatMap]
  refine List.flatMap_congr fun start _ => ?_
  rw [getD_get_freshPlan, List.map_map, List.map_map]
  refine List.map_congr_left fun d hd => ?_
  exact congrArg (Prod.mk start) (drawPlanned_freshPlan maxPoints (List.mem_filter.mp hd).1)

/-- What a request leaves to write shows drives of the rows. -/
theorem Inv.built_shows (h : Inv c o format s) {starts : List Text} {maxPoints : Nat} :
    ∀ e ∈ (readPreviews c o format s starts maxPoints).built, Shows c o format s.routes maxPoints e.1 e.2 := by
  intro e he
  unfold readPreviews at he
  dsimp only at he
  split at he
  · exact absurd he List.not_mem_nil
  · rw [h.routePreviewPlan_eq] at he
    obtain ⟨v, hv, rfl⟩ := List.mem_map.mp he
    obtain ⟨r, hr, rfl⟩ := List.mem_map.mp hv
    have hdrawn := (drawPlanned_perm s.routes s.revision maxPoints _).subset (List.mem_map.mpr ⟨r, hr, rfl⟩)
    obtain ⟨start, -, hdrawn⟩ := List.mem_flatMap.mp hdrawn
    obtain ⟨d, hd, heq⟩ := List.mem_map.mp hdrawn
    obtain ⟨hmem, hstart⟩ := List.mem_filter.mp hd
    obtain ⟨hfirst, hview⟩ := Prod.mk.inj heq
    refine ⟨d, hmem, ?_, ?_⟩
    · exact (of_decide_eq_true hstart).trans (congrArg some hfirst)
    · rw [hview]

/-- Every step keeps what is stored under the current revision true. -/
theorem Inv.step {a : Act} (h : Inv c o format s) (ht : step c o format s a = some t) : Inv c o format t := by
  cases a with
  | commit changes =>
    obtain rfl := Option.some.inj ht
    clear ht
    induction changes generalizing s with
    | nil => exact h
    | cons change rest ih => exact ih (h.change change)
  | preview starts maxPoints =>
    by_cases hlen : starts.length ≤ 20
    · rw [step_preview c o format s hlen maxPoints] at ht
      obtain ⟨-, ht⟩ := Option.ite_none_left_eq_some.mp ht
      obtain rfl := Option.some.inj ht
      refine ⟨h.previews, fun p hp => ?_, fun w hw => ?_⟩
      · -- the plan is the old one or the one of the rows
        change p ∈ (readPreviews c o format s starts maxPoints).plan at hp
        unfold readPreviews at hp
        dsimp only at hp
        split at hp
        · exact h.plan p hp
        · obtain rfl := Option.some.inj hp
          rw [h.routePreviewPlan_eq]
          exact ⟨le_rfl, fun _ => rfl⟩
      · obtain ⟨-, hw⟩ := Option.ite_none_left_eq_some.mp hw
        obtain rfl := Option.some.inj hw
        exact ⟨le_rfl, fun _ => h.built_shows⟩
    · rw [step_preview_refused c o format s hlen maxPoints] at ht
      obtain rfl := Option.some.inj ht
      exact h
  | save now =>
    obtain ⟨w, hw, rfl⟩ := Option.map_eq_some_iff.mp ht
    refine ⟨fun row hrow => ?_, h.plan, fun _ hnone => absurd hnone (Option.not_mem_none _)⟩
    change row ∈ (if s.revision = w.revision then written s.previews w now else s.previews) at hrow
    split at hrow
    · rename_i hcurrent
      rcases mem_written hrow with hrow | ⟨hrevision, hmax, hbuilt⟩
      · exact h.previews row hrow
      · have hshows := (h.saving w hw).2 hcurrent.symm _ hbuilt
        refine ⟨(hrevision.trans hcurrent.symm).le, fun _ => ?_⟩
        rw [hmax]
        exact hshows
    · exact h.previews row hrow
  | saveFails =>
    obtain ⟨w, -, rfl⟩ := Option.map_eq_some_iff.mp ht
    exact ⟨h.previews, h.plan, fun _ hnone => absurd hnone (Option.not_mem_none _)⟩
  | restart =>
    obtain rfl := Option.some.inj ht
    exact ⟨h.previews, fun _ hnone => absurd hnone (Option.not_mem_none _),
      fun _ hnone => absurd hnone (Option.not_mem_none _)⟩

/-- **It is true in every state a run reaches.** -/
theorem Inv.reachable {routes : RouteTable} {revision : Nat}
    (h : Reachable (Preview.step c o format) (Preview.opened routes revision) s) : Inv c o format s :=
  Reaches.invariant h (Inv.opened routes revision) fun _ _ _ hinv _ ht => hinv.step ht

end Invariant

/-! ## Answers -/

section Answers

variable {V : Type} (c : Codec V) (o : BucketOrder) (format : Int → Text)

/-- The planned drives that begin at a start. -/
def drivesAt (routes : RouteTable) (start : Text) : List (List PlannedFragment × Nat) :=
  bucket (fun d => plannedStart format d.1) (planned o routes) start

/-- **Every start the table answers is asked for once and begins one drive, whose text reads back as it was.** -/
def SafelyServed (s : Store) (starts : List Text) (maxPoints : Nat) : Prop :=
  ∀ start ∈ starts, (cached c s maxPoints start).isSome → starts.count start = 1
    ∧ ∃ d, drivesAt o format s.routes start = [d]
      ∧ c.ofBody (c.toBody (c.toValue (drawn format s.routes.rows maxPoints d)))
        = some (c.toValue (drawn format s.routes.rows maxPoints d))

variable {c o format} {s : Store}

/-- What the table answers was read from the text of a drive that begins then. -/
theorem Inv.exists_of_cached (h : Inv c o format s) {maxPoints : Nat} {start : Text} {v : V}
    (hv : cached c s maxPoints start = some v) :
    ∃ d ∈ drivesAt o format s.routes start,
      c.ofBody (c.toBody (c.toValue (drawn format s.routes.rows maxPoints d))) = some v := by
  obtain ⟨row, hfind, hbody⟩ := Option.bind_eq_some_iff.mp hv
  have hkey := List.find?_some hfind
  simp only [Bool.and_eq_true, decide_eq_true_eq] at hkey
  obtain ⟨⟨⟨hstart, hmax⟩, hrevision⟩, -⟩ := hkey
  obtain ⟨d, hd, hbegins, hshown⟩ := (h.previews row (List.mem_of_find?_eq_some hfind)).2 hrevision
  rw [hstart] at hbegins
  refine ⟨d, List.mem_filter.mpr ⟨hd, decide_eq_true hbegins⟩, ?_⟩
  rw [← hmax, ← hshown]
  exact hbody

/-- A start that is served safely is answered with its drive. -/
theorem Inv.cached_eq (h : Inv c o format s) {starts : List Text} {maxPoints : Nat}
    (hserved : SafelyServed c o format s starts maxPoints) {start : Text} (hstart : start ∈ starts) {v : V}
    (hv : cached c s maxPoints start = some v) :
    (drivesAt o format s.routes start).map (fun d => c.toValue (drawn format s.routes.rows maxPoints d)) = [v] := by
  obtain ⟨-, d, hone, hreads⟩ := hserved start hstart (by rw [hv]; rfl)
  obtain ⟨d', hd', hbody⟩ := h.exists_of_cached hv
  rw [hone] at hd'
  obtain rfl := List.mem_singleton.mp hd'
  rw [hone, List.map_singleton, Option.some.inj (hreads.symm.trans hbody)]

/-- The answers of the table are the drives at the starts it answers. -/
theorem Inv.filterMap_cached (h : Inv c o format s) {starts : List Text} {maxPoints : Nat}
    (hserved : SafelyServed c o format s starts maxPoints) {part : List Text} (hpart : part ⊆ starts) :
    part.filterMap (cached c s maxPoints)
      = (part.filter fun start => (cached c s maxPoints start).isSome).flatMap fun start =>
        (drivesAt o format s.routes start).map fun d => c.toValue (drawn format s.routes.rows maxPoints d) := by
  induction part with
  | nil => rfl
  | cons start rest ih =>
    have hrest := ih fun k hk => hpart (List.mem_cons_of_mem start hk)
    cases hv : cached c s maxPoints start with
    | none => rw [List.filterMap_cons_none hv, List.filter_cons_of_neg (by simp [hv]), hrest]
    | some v =>
      rw [List.filterMap_cons_some hv, List.filter_cons_of_pos (by simp [hv]), List.flatMap_cons, hrest,
        h.cached_eq hserved (hpart List.mem_cons_self) hv]
      rfl

/-- The starts the table answers and the others, none of them twice. -/
theorem SafelyServed.nodup {starts : List Text} {maxPoints : Nat} (h : SafelyServed c o format s starts maxPoints) :
    ((starts.filter fun start => (cached c s maxPoints start).isSome) ++ missing c s starts maxPoints).Nodup := by
  refine List.nodup_append.mpr ⟨List.nodup_iff_count_le_one.mpr fun start => ?_, List.nodup_dedup _, ?_⟩
  · by_cases hmem : start ∈ starts.filter fun start => (cached c s maxPoints start).isSome
    · obtain ⟨hstart, hsome⟩ := List.mem_filter.mp hmem
      rw [List.count_filter (p := fun start => (cached c s maxPoints start).isSome) hsome, (h start hstart hsome).1]
    · rw [List.count_eq_zero_of_not_mem hmem]
      exact Nat.zero_le 1
  · intro a ha b hb hab
    have hsome := (List.mem_filter.mp ha).2
    have hnone := (List.mem_filter.mp (List.mem_dedup.mp hb)).2
    rw [hab, Option.isNone_iff_eq_none.mp hnone] at hsome
    exact absurd hsome Bool.false_ne_true

/-- A request holds the starts the table answers and the others. -/
theorem mem_served_or_missing {starts : List Text} {maxPoints : Nat} {start : Text} :
    start ∈ (starts.filter fun start => (cached c s maxPoints start).isSome) ++ missing c s starts maxPoints
      ↔ start ∈ starts := by
  unfold missing
  rw [List.mem_append, List.mem_filter, List.mem_dedup, List.mem_filter]
  cases hv : cached c s maxPoints start with
  | none => simp
  | some v => simp

/-- The values of an answer: what the table holds, then what is drawn. -/
theorem Inv.out_perm (h : Inv c o format s) {starts : List Text} {maxPoints : Nat}
    (hserved : SafelyServed c o format s starts maxPoints) :
    (readPreviews c o format s starts maxPoints).out.Perm
      (((starts.filter fun start => (cached c s maxPoints start).isSome) ++ missing c s starts maxPoints).flatMap
        fun start => (drivesAt o format s.routes start).map fun d =>
          c.toValue (drawn format s.routes.rows maxPoints d)) := by
  rw [List.flatMap_append, ← h.filterMap_cached hserved (List.Subset.refl starts)]
  unfold readPreviews
  dsimp only
  split
  · rename_i hempty
    rw [List.isEmpty_iff.mp hempty, List.flatMap_nil, List.append_nil]
  · refine List.Perm.append_left _ ?_
    rw [h.routePreviewPlan_eq, List.map_map]
    have hdrawn := (@drawPlanned_perm o format s.routes s.revision maxPoints
      (missing c s starts maxPoints)).map fun e => c.toValue e.2
    rw [List.map_map, List.map_flatMap] at hdrawn
    refine hdrawn.trans (List.Perm.of_eq (List.flatMap_congr fun start _ => ?_))
    rw [List.map_map]
    rfl

/-- **The answer is the full build, cut down to the starts that were asked for.** -/
theorem Inv.readPreviews_perm (h : Inv c o format s) {starts : List Text} {maxPoints : Nat}
    (hserved : SafelyServed c o format s starts maxPoints) :
    (readPreviews c o format s starts maxPoints).out.Perm
      (((buildOverviewsOn o format s.routes.rows maxPoints).filter fun v => decide (v.startTime ∈ starts)).map
        c.toValue) := by
  refine (h.out_perm hserved).trans ?_
  rw [← List.map_flatMap, buildOverviewsOn_eq o format s.routes.nodup_files, List.filter_map, List.map_map]
  refine ((flatMap_bucket_perm (planned o s.routes) hserved.nodup).map _).trans (List.Perm.of_eq ?_)
  refine congrArg (List.map _) (List.filter_congr fun d hd => ?_)
  -- a drive begins at one of these starts when its overview names a start of the request
  have hbegins : plannedStart format d.1 = some (drawn format s.routes.rows maxPoints d).startTime :=
    plannedStart_eq hd
  rw [Function.comp_apply, decide_eq_decide, hbegins]
  constructor
  · rintro ⟨start, hstart, heq⟩
    rw [Option.some.inj heq]
    exact mem_served_or_missing.mp hstart
  · exact fun hstart => ⟨_, mem_served_or_missing.mpr hstart, rfl⟩

/-- **In every state a run reaches, an answer that is served safely is the full build of the moment**, cut down to the
starts that were asked for, each overview as often as it occurs there. -/
theorem previews_agree {routes : RouteTable} {revision : Nat}
    (hs : Reachable (Preview.step c o format) (Preview.opened routes revision) s) {starts : List Text}
    (hlen : starts.length ≤ 20) {maxPoints : Nat} (hserved : SafelyServed c o format s starts maxPoints) :
    ∃ r, getRoutePreviewsJson c o format s starts maxPoints = .ok r
      ∧ r.out.Perm (((buildOverviewsOn o format s.routes.rows maxPoints).filter fun v =>
          decide (v.startTime ∈ starts)).map c.toValue) :=
  ⟨readPreviews c o format s starts maxPoints, if_pos hlen, (Inv.reachable hs).readPreviews_perm hserved⟩

end Answers

/-! ## Two drives of one time -/

/-- An overview as JSON text; no text of it needs an escape. -/
def overviewText (v : RouteOverview) : Text :=
  let point (p : GpsPoint) : Text := ['['] ++ (toString p.lat).toList ++ [','] ++ (toString p.lng).toList ++ [']']
  let source := (v.source.map fun text => ",\"source\":\"".toList ++ text ++ ['"']).getD []
  "\x7b\"id\":".toList ++ (toString v.id).toList ++ ",\"points\":[".toList
    ++ ((v.points.map point).intersperse [',']).flatten ++ [']'] ++ source
    ++ ",\"startTime\":\"".toList ++ v.startTime ++ "\"\x7d".toList

/-- Overviews as text, which reads back as it was. -/
def textCodec : Codec Text := ⟨overviewText, id, some⟩

def noonStart : Text := "2026-01-01T12:00:00.000".toList

/-- Record a drive, ask for it, and let the answer be written. -/
def askedOnce (changes : List RouteChange) : List Act := [.commit changes, .preview [noonStart] 10, .save fun _ => 0]

/-- A drive of one clip is answered from the table, as the full build has it. -/
theorem previews_agree_noonDrive :
    ∃ s, Reachable (step textCodec .forward noonFormat.millis) (opened .empty 0) s
      ∧ (cached textCodec s 10 noonStart).isSome
      ∧ ∃ r, getRoutePreviewsJson textCodec .forward noonFormat.millis s [noonStart] 10 = .ok r
        ∧ r.out.Perm (((buildOverviewsOn .forward noonFormat.millis s.routes.rows 10).filter fun v =>
          decide (v.startTime ∈ [noonStart])).map textCodec.toValue) := by
  have hrun : (run (step textCodec .forward noonFormat.millis) (opened .empty 0)
      (askedOnce [.upsert (plainRoute "2026-01-01_12-00-00-front.mp4" none)])).map
        (fun s => ((cached textCodec s 10 noonStart).isSome,
          (drivesAt .forward noonFormat.millis s.routes noonStart).length)) = some (true, 1) := by decide +kernel
  obtain ⟨s, hs, hfacts⟩ := Option.map_eq_some_iff.mp hrun
  obtain ⟨hcached, hone⟩ := Prod.mk.inj hfacts
  refine ⟨s, reachable_of_run hs, hcached, previews_agree (reachable_of_run hs) (by decide) ?_⟩
  intro start hstart _
  obtain rfl := List.mem_singleton.mp hstart
  obtain ⟨d, hd⟩ := List.length_eq_one_iff.mp hone
  exact ⟨List.count_singleton_self, d, hd, rfl⟩

/-- A clip of the car and an import of the same second are two drives of one start; the table keeps the later one, so
the second answer lacks the other. -/
theorem not_previews_agree :
    ¬ ∀ s, Reachable (step textCodec .forward noonFormat.millis) (opened .empty 0) s →
      ∀ starts : List Text, starts.length ≤ 20 → ∀ maxPoints,
        ∃ r, getRoutePreviewsJson textCodec .forward noonFormat.millis s starts maxPoints = .ok r
          ∧ r.out.Perm (((buildOverviewsOn .forward noonFormat.millis s.routes.rows maxPoints).filter fun v =>
            decide (v.startTime ∈ starts)).map textCodec.toValue) := by
  intro h
  have hrun : (run (step textCodec .forward noonFormat.millis) (opened .empty 0)
      (askedOnce [.upsert (plainRoute "2026-01-01_12-00-00-front.mp4" none),
        .upsert (plainRoute "2026-01-01_12-00-00-import.mp4" (some "a"))])).map
        (fun s => ((readPreviews textCodec .forward noonFormat.millis s [noonStart] 10).out.length,
          ((buildOverviewsOn .forward noonFormat.millis s.routes.rows 10).filter fun v =>
            decide (v.startTime ∈ [noonStart])).length)) = some (1, 2) := by decide +kernel
  obtain ⟨s, hs, hfacts⟩ := Option.map_eq_some_iff.mp hrun
  obtain ⟨hout, hbuild⟩ := Prod.mk.inj hfacts
  obtain ⟨r, hr, hperm⟩ := h s (reachable_of_run hs) [noonStart] (by decide) 10
  obtain rfl := Except.ok.inj hr
  have hlen := hperm.length_eq
  rw [List.length_map, hbuild, hout] at hlen
  exact absurd hlen (by decide)

end SentryUsb.Preview
