import SentryUsb.Sync.RevisionFeed

/-! # Applying a page of the feed

What `apply` does to the records of a page and to the local tables.

* **`Outcome.Truthful`** — what an outcome says of the tables before and after it;
* **`Work.Moves`** — a step of a work drops no record and tells the truth about those it settles;
* **`Work.moves_take`**, **`Work.moves_write`**, **`Work.moves_fail`** — taking up a change, carrying it
  out, and failing, with groups of routes bisected;
* **`Work.write_protects`** — no queued edit is overwritten. -/

namespace SentryUsb.Sync.Feed

/-! ## Applying changes -/

/-- No drive shows a clip for which there is nothing to freeze. -/
theorem not_shown {st : Drive.Store} {ids : List Text} {id : Text}
    (h : st.snapshotForRoutes ids = some none) (hid : id ∈ ids) {d : Text × List Drive.Window}
    (hd : d ∈ st.groups) {w : Drive.Window} (hw : w ∈ d.2) :
    (st.routes w.file).bind Drive.Route.cloudId ≠ some id := by
  unfold Drive.Store.snapshotForRoutes at h
  dsimp only at h
  split at h
  · rename_i hempty
    intro hshown
    have hnone := List.filter_eq_nil_iff.mp (List.isEmpty_iff.mp hempty) d hd
    refine hnone (List.any_eq_true.mpr ⟨w, hw, ?_⟩)
    simpa [hshown] using hid
  · simp at h

/-- The records a work still has, in whatever state. -/
def Work.targets (w : Work) : List Target :=
  w.items.map Item.target ++ w.routes ++ (w.groups.getD []).flatten
    ++ (w.job.map Job.targets).getD [] ++ w.done.map Prod.fst ++ w.failed

theorem Work.mem_targets {items : List Item} {routes : List Target} {groups : Option (List (List Target))}
    {job : Option Job} {done : List (Target × Outcome)} {failed : List Target} {x : Target} :
    x ∈ (Work.mk items routes groups job done failed).targets
      ↔ (∃ i ∈ items, i.target = x) ∨ x ∈ routes ∨ (∃ g ∈ groups.getD [], x ∈ g)
        ∨ (∃ j, job = some j ∧ x ∈ j.targets) ∨ x ∈ done.map Prod.fst ∨ x ∈ failed := by
  unfold Work.targets
  cases job <;> simp

/-- A finished work has settled or failed everything. -/
theorem Work.targets_of_finished {w : Work} {x : Target} (h : w.finished = true) (hx : x ∈ w.targets) :
    x ∈ w.done.map Prod.fst ∨ x ∈ w.failed := by
  obtain ⟨items, routes, groups, job, done, failed⟩ := w
  simp only [Work.finished, Bool.and_eq_true, List.isEmpty_iff, decide_eq_true_eq,
    Option.isNone_iff_eq_none] at h
  obtain ⟨⟨⟨rfl, rfl⟩, rfl⟩, rfl⟩ := h
  simpa [Work.mem_targets] using hx

/-- What an outcome says of the tables before and after it; `seen` are the tables at earlier times. -/
def Outcome.Truthful (seen : Tables → Prop) (t t' : Tables) (x : Target) : Outcome → Prop
  | .stored session value => x.kind = .charge ∧ t.chargeDirty session = none
      ∧ (∃ key, t.uploads.lookup session = some (x.id, key)) ∧ t'.charges session = value
  | .storedRates doc => x.kind = .rateConfig ∧ t.rateDirty = none ∧ t'.rates = doc
  | .projected p => x.kind = .route ∧ t.drives.applyProjected p = some t'.drives
      ∧ ∃ before ids frozen states, seen before ∧ x.id ∈ ids
        ∧ before.drives.snapshotForRoutes ids = some (some frozen) ∧ Drive.project frozen states = some p
  | .queued => (x.kind = .charge
        ∧ ∃ session key, (session, x.id, key) ∈ t.uploads ∧ (t.chargeDirty session).isSome)
      ∨ (x.kind = .rateConfig ∧ t.rateDirty.isSome)
  | .absent => (x.kind = .charge ∧ ∀ session key, (session, x.id, key) ∉ t.uploads)
      ∨ (x.kind = .route ∧ ∀ d ∈ t.drives.groups, ∀ w ∈ d.2,
        (t.drives.routes w.file).bind Drive.Route.cloudId ≠ some x.id)
  | .removed session => x.kind = .charge ∧ t.uploads.lookup session = none
  | .gone => x.kind = .charge

/-- What a job knows: the kind of its records, and for routes when they were frozen. -/
def Job.Sound (seen : Tables → Prop) : Job → Prop
  | .charge item _ => item.kind = .charge
  | .rate item => item.kind = .rateConfig
  | .group targets frozen => (∀ x ∈ targets, x.kind = .route)
      ∧ ∃ before, seen before ∧ before.drives.snapshotForRoutes (targets.map Target.id) = some (some frozen)

/-- What a work knows of its parts. -/
structure Work.Sound (seen : Tables → Prop) (w : Work) : Prop where
  rates : ∀ i ∈ w.items, i.kind = .rateConfig → i.ciphertext.isSome
  routes : ∀ x ∈ w.routes, x.kind = .route
  groups : ∀ g ∈ w.groups.getD [], ∀ x ∈ g, x.kind = .route
  job : ∀ j, w.job = some j → j.Sound seen

/-- A step of a work: no record is dropped, and what is newly settled is told truthfully. -/
structure Work.Moves (seen : Tables → Prop) (t t' : Tables) (w w' : Work) : Prop where
  kept : w.targets ⊆ w'.targets
  sound : w'.Sound seen
  told : ∀ d ∈ w'.done, d ∈ w.done ∨ d.2.Truthful seen t t' d.1

section Moves

variable {seen : Tables → Prop} {t t' : Tables} {w v : Work}

/-- A move to a work that has every record, only items and groups of the old one or routes, and a sound
job. -/
theorem Work.Moves.of_parts (hw : w.Sound seen) (hkept : w.targets ⊆ v.targets) (hitems : v.items ⊆ w.items)
    (hroutes : ∀ x ∈ v.routes, x ∈ w.routes ∨ x.kind = .route)
    (hgroups : ∀ g ∈ v.groups.getD [], ∀ x ∈ g, x.kind = .route)
    (hjob : ∀ j, v.job = some j → j.Sound seen)
    (htold : ∀ d ∈ v.done, d ∈ w.done ∨ d.2.Truthful seen t t' d.1) : w.Moves seen t t' v where
  kept := hkept
  sound := {
    rates := fun i hi => hw.rates i (hitems hi)
    routes := fun x hx => (hroutes x hx).elim (hw.routes x) id
    groups := hgroups
    job := hjob }
  told := htold

/-- A bisected or failed group keeps its records. -/
theorem Work.moves_failGroup {targets : List Target} {unavailable : Bool} (hv : v.Sound seen)
    (hkind : ∀ x ∈ targets, x.kind = .route) (hdone : v.done = w.done)
    (hkept : ∀ x ∈ w.targets, x ∈ { v with job := none }.targets ∨ x ∈ targets) :
    w.Moves seen t t (v.failGroup targets unavailable) := by
  obtain ⟨items, routes, groups, job, done, failed⟩ := v
  have hsplit := List.take_append_drop (targets.length / 2) targets
  simp only [Work.mem_targets] at hkept
  unfold Work.failGroup
  split
  · refine ⟨fun x hx => ?_, ⟨hv.rates, hv.routes, ?_, by simp⟩, fun d hd => .inl (hdone ▸ hd)⟩
    · have hx' := hkept x hx
      simp only [Work.mem_targets, Option.getD_some]
      grind
    · have hgroups := hv.groups
      simp only [Option.getD_some, List.forall_mem_cons]
      exact ⟨fun x hx => hkind x (List.mem_of_mem_take hx), fun x hx => hkind x (List.mem_of_mem_drop hx),
        hgroups⟩
  · refine ⟨fun x hx => ?_, ⟨hv.rates, hv.routes, hv.groups, by simp⟩, fun d hd => .inl (hdone ▸ hd)⟩
    have hx' := hkept x hx
    simp only [Work.mem_targets]
    grind

/-- A charge or rates whose job ends, settled or failed. -/
theorem Work.moves_single {items : List Item} {routes : List Target} {groups : Option (List (List Target))}
    {job : Job} {done done' : List (Target × Outcome)} {failed failed' : List Target} {x : Target}
    (hw : (Work.mk items routes groups (some job) done failed).Sound seen) (hjob : job.targets = [x])
    (hdone : done ⊆ done') (hfailed : failed ⊆ failed') (hx : x ∈ done'.map Prod.fst ∨ x ∈ failed')
    (htold : ∀ d ∈ done', d ∈ done ∨ d.2.Truthful seen t t' d.1) :
    (Work.mk items routes groups (some job) done failed).Moves seen t t'
      ⟨items, routes, groups, none, done', failed'⟩ := by
  refine .of_parts hw (fun y hy => ?_) (fun i hi => hi) (fun x hx => .inl hx) hw.groups (by simp) htold
  have hmap : y ∈ done.map Prod.fst → y ∈ done'.map Prod.fst := fun h => List.map_subset _ hdone h
  have hsub : y ∈ failed → y ∈ failed' := fun h => hfailed h
  simp only [Work.mem_targets, Option.some.injEq] at hy ⊢
  grind

/-- A charge or rates whose job ends with an outcome. -/
theorem Work.moves_told {items : List Item} {routes : List Target} {groups : Option (List (List Target))}
    {job : Job} {done : List (Target × Outcome)} {failed : List Target} {x : Target} {o : Outcome}
    (hw : (Work.mk items routes groups (some job) done failed).Sound seen) (hjob : job.targets = [x])
    (ho : o.Truthful seen t t' x) :
    (Work.mk items routes groups (some job) done failed).Moves seen t t'
      ⟨items, routes, groups, none, done ++ [(x, o)], failed⟩ := by
  refine Work.moves_single hw hjob (List.subset_append_left _ _) (List.Subset.refl _) (.inl (by simp))
    fun d hd => (List.mem_append.mp hd).imp_right fun hd => ?_
  obtain rfl := List.mem_singleton.mp hd
  exact ho

/-- The current job, or the next change, fails. -/
theorem Work.moves_fail {unavailable : Bool} (hw : w.Sound seen) (h : w.fail unavailable = some v) :
    w.Moves seen t t v := by
  obtain ⟨items, routes, groups, job, done, failed⟩ := w
  unfold Work.fail at h
  dsimp only at h
  split at h
  · obtain rfl := Option.some.inj h
    exact Work.moves_single hw rfl (List.Subset.refl _) (List.subset_append_left _ _) (.inr (by simp))
      fun d hd => .inl hd
  · obtain rfl := Option.some.inj h
    exact Work.moves_single hw rfl (List.Subset.refl _) (List.subset_append_left _ _) (.inr (by simp))
      fun d hd => .inl hd
  · obtain rfl := Option.some.inj h
    refine Work.moves_failGroup hw (hw.job _ rfl).1 rfl fun x hx => ?_
    simp only [Work.mem_targets, Option.some.injEq] at hx ⊢
    grind [Job.targets]
  · split at h
    · exact absurd h (by simp)
    · obtain rfl := Option.some.inj h
      refine .of_parts hw (fun x hx => ?_) (List.subset_cons_self _ _) (fun x hx => .inl hx) hw.groups hw.job
        fun d hd => .inl hd
      simp only [Work.mem_targets] at hx ⊢
      grind
  · exact absurd h (by simp)

/-- The next change is settled without a write. -/
theorem Work.moves_settled {item : Item} {items : List Item} {routes : List Target}
    {groups : Option (List (List Target))} {done : List (Target × Outcome)} {failed : List Target}
    {o : Outcome} (hw : (Work.mk (item :: items) routes groups none done failed).Sound seen)
    (ho : o.Truthful seen t t item.target) :
    (Work.mk (item :: items) routes groups none done failed).Moves seen t t
      ⟨items, routes, groups, none, done ++ [(item.target, o)], failed⟩ := by
  refine .of_parts hw (fun x hx => ?_) (List.subset_cons_self _ _) (fun x hx => .inl hx) hw.groups hw.job
    fun d hd => (List.mem_append.mp hd).imp_right fun hd => ?_
  · simp only [Work.mem_targets, List.map_append] at hx ⊢
    grind
  · obtain rfl := List.mem_singleton.mp hd
    exact ho

/-- The next change becomes the current job. -/
theorem Work.moves_started {item : Item} {items : List Item} {routes : List Target}
    {groups : Option (List (List Target))} {done : List (Target × Outcome)} {failed : List Target}
    {j : Job} (hw : (Work.mk (item :: items) routes groups none done failed).Sound seen)
    (htargets : j.targets = [item.target]) (hj : j.Sound seen) :
    (Work.mk (item :: items) routes groups none done failed).Moves seen t t
      ⟨items, routes, groups, some j, done, failed⟩ := by
  refine .of_parts hw (fun x hx => ?_) (List.subset_cons_self _ _) (fun x hx => .inl hx) hw.groups
    (fun k hk => ?_) fun d hd => .inl hd
  · simp only [Work.mem_targets] at hx ⊢
    grind
  · obtain rfl := Option.some.inj hk
    exact hj

/-- The next change, or group of routes, is taken up. -/
theorem Work.moves_take (hw : w.Sound seen) (hseen : seen t) (h : w.take t = some v) :
    w.Moves seen t t v := by
  obtain ⟨items, routes, groups, job, done, failed⟩ := w
  unfold Work.take at h
  dsimp only at h
  split at h
  · exact absurd h (by simp)
  · rename_i item items
    split at h
    · obtain rfl := Option.some.inj h
      refine .of_parts hw (fun x hx => ?_) (List.subset_cons_self _ _) (fun x hx => ?_) hw.groups hw.job
        fun d hd => .inl hd
      · simp only [Work.mem_targets] at hx ⊢
        grind
      · grind [Item.target]
    · rename_i hkind
      split at h
      · rename_i hsession
        obtain rfl := Option.some.inj h
        refine Work.moves_settled hw (.inl ⟨hkind, fun session key hmem => ?_⟩)
        simp only [Tables.session, Option.map_eq_none_iff, List.find?_eq_none] at hsession
        exact hsession _ hmem (decide_eq_true rfl)
      · rename_i session hsession
        split at h
        · rename_i hdirty
          obtain rfl := Option.some.inj h
          obtain ⟨⟨session, id, key⟩, hfound, rfl⟩ := Option.map_eq_some_iff.mp hsession
          obtain rfl : id = item.id := by simpa using List.find?_some hfound
          exact Work.moves_settled hw
            (.inl ⟨hkind, session, key, List.mem_of_find?_eq_some hfound, hdirty⟩)
        · obtain rfl := Option.some.inj h
          exact Work.moves_started hw rfl hkind
    · rename_i hkind
      split at h
      · rename_i hnone
        exact absurd (hw.rates item List.mem_cons_self hkind) (by simpa using hnone)
      · split at h
        · rename_i hdirty
          obtain rfl := Option.some.inj h
          obtain ⟨at?, hat, -⟩ := (Option.any_eq_true _ _).mp hdirty
          exact Work.moves_settled hw (.inr ⟨hkind, Option.isSome_iff_exists.mpr ⟨at?, hat⟩⟩)
        · obtain rfl := Option.some.inj h
          exact Work.moves_started hw rfl hkind
  · -- the routes collected so far become the first group
    obtain rfl := Option.some.inj h
    have hroutes := hw.routes
    refine .of_parts hw (fun x hx => ?_) (fun i hi => hi) (by simp) (by grind) hw.job fun d hd => .inl hd
    simp only [Work.mem_targets] at hx ⊢
    grind
  · exact absurd h (by simp)
  · rename_i targets groups
    have hkind : ∀ x ∈ targets, x.kind = .route := hw.groups targets (by simp)
    have hgroups : ∀ g ∈ groups, ∀ x ∈ g, x.kind = .route := fun g hg => hw.groups g (by simp [hg])
    split at h
    · rename_i frozen hfrozen
      obtain rfl := Option.some.inj h
      refine .of_parts hw (fun x hx => ?_) (fun i hi => hi) (fun x hx => .inl hx) hgroups (fun j hj => ?_)
        fun d hd => .inl hd
      · simp only [Work.mem_targets] at hx ⊢
        grind [Job.targets]
      · obtain rfl := Option.some.inj hj
        exact ⟨hkind, t, hseen, hfrozen⟩
    · rename_i hfrozen
      obtain rfl := Option.some.inj h
      refine .of_parts hw (fun x hx => ?_) (fun i hi => hi) (fun x hx => .inl hx) hgroups hw.job
        fun d hd => (List.mem_append.mp hd).imp_right fun hd => ?_
      · simp only [Work.mem_targets, List.map_append] at hx ⊢
        grind
      · obtain ⟨x, hx, rfl⟩ := List.mem_map.mp hd
        exact .inr ⟨hkind x hx, fun d hd w hw => not_shown hfrozen (List.mem_map_of_mem hx) hd hw⟩
    · obtain rfl := Option.some.inj h
      refine Work.moves_failGroup ⟨hw.rates, hw.routes, hgroups, by simp⟩ hkind rfl fun x hx => ?_
      simp only [Work.mem_targets] at hx ⊢
      grind

/-- What `applyCharge` reports is true. -/
theorem Tables.applyCharge_truthful {x : Target} (hkind : x.kind = .charge) {session : Int} {key : Text}
    {value : List Text × Option Charge.Cost} {o : Outcome}
    (h : t.applyCharge session x.id key value = some (t', o)) : o.Truthful seen t t' x := by
  unfold Tables.applyCharge at h
  split at h
  · rename_i hremoved
    obtain ⟨rfl, rfl⟩ := Prod.mk.inj (Option.some.inj h)
    exact ⟨hkind, hremoved⟩
  · rename_i id key' hupload
    split at h
    · rename_i hsame
      obtain ⟨rfl, -⟩ := hsame
      split at h
      · rename_i hdirty
        obtain ⟨rfl, rfl⟩ := Prod.mk.inj (Option.some.inj h)
        obtain ⟨before, after, hsplit, -⟩ := List.lookup_eq_some_iff.mp hupload
        exact .inl ⟨hkind, session, key', by simp [hsplit], hdirty⟩
      · rename_i hdirty
        obtain ⟨rfl, rfl⟩ := Prod.mk.inj (Option.some.inj h)
        exact ⟨hkind, by simpa using hdirty, ⟨key', hupload⟩, by simp⟩
    · exact absurd h (by simp)

/-- The current job is carried out. -/
theorem Work.moves_write {states : Drive.States} (hw : w.Sound seen)
    (h : w.write t states = some (t', v)) : w.Moves seen t t' v := by
  obtain ⟨items, routes, groups, job, done, failed⟩ := w
  unfold Work.write at h
  dsimp only at h
  split at h
  · exact absurd h (by simp)
  · rename_i item session
    have hkind : item.target.kind = .charge := hw.job _ rfl
    have hfailed : (Work.mk items routes groups (some (.charge item session)) done failed).Moves seen t t
        ⟨items, routes, groups, none, done, failed ++ [item.target]⟩ :=
      Work.moves_single hw rfl (List.Subset.refl _) (List.subset_append_left _ _) (.inr (by simp))
        fun d hd => .inl hd
    split at h
    · rename_i value key _ _
      split at h
      · rename_i o happly
        obtain ⟨rfl, rfl⟩ := Prod.mk.inj (Option.some.inj h)
        exact Work.moves_told hw rfl (Tables.applyCharge_truthful hkind happly)
      · obtain ⟨rfl, rfl⟩ := Prod.mk.inj (Option.some.inj h)
        exact hfailed
    · obtain ⟨rfl, rfl⟩ := Prod.mk.inj (Option.some.inj h)
      exact hfailed
  · rename_i item
    have hkind : item.target.kind = .rateConfig := hw.job _ rfl
    split at h
    · rename_i doc _
      split at h
      · rename_i hdirty
        obtain ⟨rfl, rfl⟩ := Prod.mk.inj (Option.some.inj h)
        exact Work.moves_told hw rfl (.inr ⟨hkind, hdirty⟩)
      · rename_i hdirty
        obtain ⟨rfl, rfl⟩ := Prod.mk.inj (Option.some.inj h)
        exact Work.moves_told hw rfl ⟨hkind, by simpa using hdirty, rfl⟩
    · obtain ⟨rfl, rfl⟩ := Prod.mk.inj (Option.some.inj h)
      exact Work.moves_single hw rfl (List.Subset.refl _) (List.subset_append_left _ _) (.inr (by simp))
        fun d hd => .inl hd
  · rename_i targets frozen
    obtain ⟨hkind, before, hbefore, hfrozen⟩ := hw.job _ rfl
    split at h
    · obtain ⟨rfl, rfl⟩ := Prod.mk.inj (Option.some.inj h)
      refine Work.moves_failGroup hw hkind rfl fun x hx => ?_
      simp only [Work.mem_targets, Option.some.injEq] at hx ⊢
      grind [Job.targets]
    · rename_i p hproject
      split at h
      · rename_i drives happly
        obtain ⟨rfl, rfl⟩ := Prod.mk.inj (Option.some.inj h)
        refine .of_parts hw (fun x hx => ?_) (fun i hi => hi) (fun x hx => .inl hx) hw.groups (by simp)
          fun d hd => (List.mem_append.mp hd).imp_right fun hd => ?_
        · simp only [Work.mem_targets, Option.some.injEq, List.map_append] at hx ⊢
          grind [Job.targets]
        · obtain ⟨x, hx, rfl⟩ := List.mem_map.mp hd
          exact ⟨hkind x hx, happly, before, targets.map Target.id, frozen, states, hbefore,
            List.mem_map_of_mem hx, hfrozen, hproject⟩
      · obtain ⟨rfl, rfl⟩ := Prod.mk.inj (Option.some.inj h)
        refine .of_parts hw (fun x hx => ?_) (fun i hi => hi) (fun x hx => .inl hx) hw.groups (by simp)
          fun d hd => .inl hd
        simp only [Work.mem_targets, Option.some.injEq] at hx ⊢
        grind [Job.targets]

end Moves

/-! ## Queued edits -/

/-- Queued edits stay as they are, and so do the values they are about. -/
structure Tables.Protects (t t' : Tables) : Prop where
  chargeDirty : t'.chargeDirty = t.chargeDirty
  charges : ∀ session, (t.chargeDirty session).isSome → t'.charges session = t.charges session
  rateDirty : t'.rateDirty = t.rateDirty
  rates : t.rateDirty.isSome → t'.rates = t.rates
  queue : t'.drives.queue = t.drives.queue
  tags : ∀ d, (t.drives.queue d).dirty.isSome → t'.drives.tags d = t.drives.tags d

theorem Tables.Protects.refl (t : Tables) : t.Protects t :=
  ⟨rfl, fun _ _ => rfl, rfl, fun _ => rfl, rfl, fun _ _ => rfl⟩

/-- Refreshing drives leaves those with a queued edit. -/
theorem foldl_refresh_protects (ds : List (Text × List Text)) (st : Drive.Store) :
    (ds.foldl Drive.Store.refresh st).queue = st.queue
      ∧ ∀ d, (st.queue d).dirty.isSome → (ds.foldl Drive.Store.refresh st).tags d = st.tags d := by
  induction ds generalizing st with
  | nil => exact ⟨rfl, fun _ _ => rfl⟩
  | cons e ds ih =>
    have hqueue : (st.refresh e).queue = st.queue := by
      unfold Drive.Store.refresh
      split <;> rfl
    have htags : ∀ d, (st.queue d).dirty.isSome → (st.refresh e).tags d = st.tags d := by
      intro d hd
      unfold Drive.Store.refresh
      split
      · rfl
      · rename_i hclean
        refine Function.update_of_ne ?_ _ _
        rintro rfl
        exact hclean hd
    obtain ⟨hqueue', htags'⟩ := ih (st.refresh e)
    refine ⟨hqueue'.trans hqueue, fun d hd => ?_⟩
    rw [List.foldl_cons, htags' d (by rw [hqueue]; exact hd), htags d hd]

/-- Installing keys touches neither tags nor queues. -/
theorem foldl_installKey_protects (sources : List Drive.VerifiedKey) (st : Drive.Store) :
    (sources.foldl Drive.Store.installKey st).queue = st.queue
      ∧ (sources.foldl Drive.Store.installKey st).tags = st.tags := by
  induction sources generalizing st with
  | nil => exact ⟨rfl, rfl⟩
  | cons v sources ih =>
    have hone : (st.installKey v).queue = st.queue ∧ (st.installKey v).tags = st.tags := by
      unfold Drive.Store.installKey
      split
      · split <;> exact ⟨rfl, rfl⟩
      · exact ⟨rfl, rfl⟩
    obtain ⟨hqueue, htags⟩ := ih (st.installKey v)
    exact ⟨hqueue.trans hone.1, htags.trans hone.2⟩

theorem applyProjected_protects {st st' : Drive.Store} {p : Drive.Projection}
    (h : st.applyProjected p = some st') :
    st'.queue = st.queue ∧ ∀ d, (st.queue d).dirty.isSome → st'.tags d = st.tags d := by
  unfold Drive.Store.applyProjected at h
  split at h
  swap
  · exact absurd h (by simp)
  obtain ⟨keyed, hkeyed, rfl⟩ := Option.map_eq_some_iff.mp h
  unfold Drive.Store.installKeys at hkeyed
  split at hkeyed
  swap
  · exact absurd hkeyed (by simp)
  obtain rfl := Option.some.inj hkeyed
  obtain ⟨hqueue, htags⟩ := foldl_installKey_protects p.sources st
  obtain ⟨hqueue', htags'⟩ := foldl_refresh_protects p.drives (p.sources.foldl Drive.Store.installKey st)
  refine ⟨hqueue'.trans hqueue, fun d hd => ?_⟩
  rw [htags' d (by rw [hqueue]; exact hd), htags]

theorem Tables.applyCharge_protects {t t' : Tables} {session : Int} {id key : Text}
    {value : List Text × Option Charge.Cost} {o : Outcome}
    (h : t.applyCharge session id key value = some (t', o)) : t.Protects t' := by
  unfold Tables.applyCharge at h
  split at h
  · obtain ⟨rfl, -⟩ := Prod.mk.inj (Option.some.inj h)
    exact .refl t
  · split at h
    · split at h
      · obtain ⟨rfl, -⟩ := Prod.mk.inj (Option.some.inj h)
        exact .refl t
      · rename_i hclean
        obtain ⟨rfl, -⟩ := Prod.mk.inj (Option.some.inj h)
        refine ⟨rfl, fun session' hdirty => ?_, rfl, fun _ => rfl, rfl, fun _ _ => rfl⟩
        refine Function.update_of_ne ?_ _ _
        rintro rfl
        exact hclean hdirty
    · exact absurd h (by simp)

/-- **Applying a change overwrites no queued edit.** -/
theorem Work.write_protects {w v : Work} {t t' : Tables} {states : Drive.States}
    (h : w.write t states = some (t', v)) : t.Protects t' := by
  unfold Work.write at h
  dsimp only at h
  split at h
  · exact absurd h (by simp)
  · split at h
    · split at h
      · rename_i happly
        obtain ⟨rfl, -⟩ := Prod.mk.inj (Option.some.inj h)
        exact Tables.applyCharge_protects happly
      · obtain ⟨rfl, -⟩ := Prod.mk.inj (Option.some.inj h)
        exact .refl t
    · obtain ⟨rfl, -⟩ := Prod.mk.inj (Option.some.inj h)
      exact .refl t
  · split at h
    · split at h
      · obtain ⟨rfl, -⟩ := Prod.mk.inj (Option.some.inj h)
        exact .refl t
      · rename_i hclean
        obtain ⟨rfl, -⟩ := Prod.mk.inj (Option.some.inj h)
        exact ⟨rfl, fun _ _ => rfl, rfl, fun hdirty => absurd hdirty hclean, rfl, fun _ _ => rfl⟩
    · obtain ⟨rfl, -⟩ := Prod.mk.inj (Option.some.inj h)
      exact .refl t
  · split at h
    · obtain ⟨rfl, -⟩ := Prod.mk.inj (Option.some.inj h)
      exact .refl t
    · split at h
      · rename_i happly
        obtain ⟨rfl, -⟩ := Prod.mk.inj (Option.some.inj h)
        obtain ⟨hqueue, htags⟩ := applyProjected_protects happly
        exact ⟨rfl, fun _ _ => rfl, rfl, fun _ => rfl, hqueue, htags⟩
      · obtain ⟨rfl, -⟩ := Prod.mk.inj (Option.some.inj h)
        exact .refl t

end SentryUsb.Sync.Feed
