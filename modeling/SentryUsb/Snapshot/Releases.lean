import SentryUsb.Snapshot.Release

/-! # Releases one after the other

Snapshots are released until there is room again. Each release starts from the snapshots and the farm that the one before
it left, and may take away the copy a clip was re-pointed at.

* **`Releases`** — snapshots released in a row;
* **`Attached`** — no link names a snapshot that is gone;
* **`releases_spec`** — the farm stays attached, and no clip is lost that a snapshot outside the row lists. -/

namespace SentryUsb.Snapshot

open Library FileTree

/-- Snapshots released one after the other, while the filesystem stays mounted. -/
inductive Releases : Snapshots → Farm → List Text → Snapshots → Farm → Prop where
  | done (s : Snapshots) (farm : Farm) : Releases s farm [] s farm
  | release {s between after : Snapshots} {farm mid last : Farm} {name : Text} {names : List Text}
      (released : releaseSnapshotFiles (fun _ => true) name s farm = some (between, mid.tree))
      (rest : Releases between mid names after last) : Releases s farm (name :: names) after last

/-- Every link into a snapshot finds it there. -/
def Attached (s : Snapshots) (farm : Farm) : Prop :=
  ∀ p target snap, p.length ≤ walkDepth → linkAt p farm.tree = some target → ownedSnapComponent target = some snap →
    (s.get snap).isSome = true

section

variable {guard : Nat → Bool} {name snap clip : Text} {names : List Text} {s after : Snapshots} {farm last : Farm}
  {tree : FarmTree}

/-- A release takes one directory, and no other. -/
theorem eq_remove_of_release (h : releaseSnapshotFiles guard name s farm = some (after, tree)) : after = s.remove name := by
  obtain ⟨after', hremove, heq⟩ := Option.map_eq_some_iff.mp h
  obtain rfl := (Prod.mk.inj heq).1
  unfold removeDirAll at hremove
  split at hremove
  · exact (Option.some.inj hremove).symm
  · exact (Option.some.inj hremove).symm
  · simp at hremove

theorem get_of_ne (hne : snap ≠ name) : (s.remove name).get snap = s.get snap := by
  rw [SortedMap.get_remove, if_neg hne]

theorem slotAt_of_ne (hne : snap ≠ name) : slotAt (s.remove name) snap = slotAt s snap := by
  rw [slotAt, slotAt, get_of_ne hne]

/-- A snapshot with an image is there. -/
theorem isSome_of_survivor (h : Survivor s name snap) : (s.get snap).isSome = true := by
  cases hget : s.get snap with
  | none => simp [Survivor, hasImage, slotAt, hget] at h
  | some e => rfl

/-- A release leaves the other links. -/
theorem linkAt_of_other (hguard : ∀ i, guard i = true) (h : releaseSnapshotFiles guard name s farm = some (after, tree))
    {p : List Text} (hother : ∀ target, linkAt p farm.tree = some target → ownedSnapComponent target ≠ some name) :
    linkAt p tree = linkAt p farm.tree := by
  rw [linkAt, (releaseSnapshotFiles_leafAt hguard h p).2 fun target hold => ?_]
  · rfl
  · obtain ⟨-, hleaf, howned⟩ := mem_collectLinksInto.mp hold
    exact hother target (linkAt_eq_some.mpr hleaf) howned

/-- **A release leaves no link dangling.** -/
theorem Attached.release (hattached : Attached s farm) (hname : isSnap name = true) {mid : Farm}
    (h : releaseSnapshotFiles (fun _ => true) name s farm = some (after, mid.tree)) : Attached after mid := by
  intro p target snap hlen hlink howned
  by_cases hold : ∃ old, linkAt p farm.tree = some old ∧ ownedSnapComponent old = some name
  · -- a link into the released snapshot names one that stays
    obtain ⟨old, hold, howned'⟩ := hold
    obtain ⟨-, form, clip, hclip, rfl⟩ := ownedSnapComponent_eq_some.mp howned'
    rw [linkAt_of_target (fun _ => rfl) hname h hlen hclip hold] at hlink
    obtain ⟨⟨m, best⟩, hcopy, rfl⟩ := Option.map_eq_some_iff.mp hlink
    obtain ⟨⟨hsurvivor, -⟩, -⟩ := bestCopy_eq_some hcopy
    rw [ownedSnapComponent_eq_some.mpr ⟨hsurvivor.2.1, form, clip, hclip, rfl⟩] at howned
    obtain rfl : best = snap := Option.some.inj howned
    rw [eq_remove_of_release h, get_of_ne hsurvivor.1]
    exact isSome_of_survivor hsurvivor
  · have hother : ∀ old, linkAt p farm.tree = some old → ownedSnapComponent old ≠ some name :=
      fun old hlink howned => hold ⟨old, hlink, howned⟩
    rw [linkAt_of_other (fun _ => rfl) h hother] at hlink
    have hne : snap ≠ name := fun heq => hother target hlink (heq ▸ howned)
    rw [eq_remove_of_release h, get_of_ne hne]
    exact hattached p target snap hlen hlink howned

/-- What is to be released is released. -/
theorem exists_releases (hnodup : names.Nodup) (hdirs : ∀ name ∈ names, (s.get name).any Entry.isDir = true) :
    ∃ after last, Releases s farm names after last := by
  induction names generalizing s farm with
  | nil => exact ⟨s, farm, .done s farm⟩
  | cons name names ih =>
    obtain ⟨hdir, hdirs⟩ := List.forall_mem_cons.mp hdirs
    obtain ⟨hnotMem, hnodup⟩ := List.nodup_cons.mp hnodup
    have hremove : removeDirAll s name = some (s.remove name) := by
      obtain ⟨_ | _ | _, he, hisDir⟩ := (Option.any_eq_true _ _).mp hdir <;> simp_all [removeDirAll, Entry.isDir]
    obtain ⟨tree, htree⟩ : ∃ tree, releaseSnapshotFiles (fun _ => true) name s farm = some (s.remove name, tree) := by
      rw [releaseSnapshotFiles, hremove]
      exact ⟨_, rfl⟩
    have hordered := ordered_release (fun _ => rfl) htree
    have hroot : leafAt [] tree = none := by
      refine ((releaseSnapshotFiles_leafAt (fun _ => rfl) htree []).2 fun target hold => ?_).trans rfl
      exact absurd (mem_collectLinksInto.mp hold).2.1 (Option.some_ne_none _).symm
    cases tree with
    | leaf l => exact absurd hroot (Option.some_ne_none l)
    | dir entries =>
      obtain ⟨after, last, hrest⟩ := @ih (s.remove name) ⟨entries, hordered⟩ hnodup fun other hother => by
        rw [get_of_ne (ne_of_mem_of_not_mem hother hnotMem)]
        exact hdirs other hother
      exact ⟨after, last, .release htree hrest⟩

/-- No link dangles after releases in a row. -/
theorem Releases.attached (h : Releases s farm names after last) (hattached : Attached s farm)
    (hnames : ∀ name ∈ names, isSnap name = true) : Attached after last := by
  induction h with
  | done s farm => exact hattached
  | release hreleased _ ih =>
    obtain ⟨hname, hrest⟩ := List.forall_mem_cons.mp hnames
    exact ih (hattached.release hname hreleased) hrest

/-- A link whose clip a snapshot lists that stays is re-pointed whenever its snapshot goes. -/
theorem Releases.repointed (h : Releases s farm names after last) (hnames : ∀ name ∈ names, isSnap name = true)
    {p : List Text} {form : Form} {cur keeper : Text} {size : Nat} (hlen : p.length ≤ walkDepth) (hclip : Canonical clip)
    (hcur : isSnap cur = true) (hlink : linkAt p farm.tree = some (form.target cur clip)) (hkeeper : keeper ∉ names)
    (hsnap : isSnap keeper = true) (himage : hasImage s keeper = true) (hlists : Lists s keeper clip size) :
    ∃ best, isSnap best = true ∧ linkAt p last.tree = some (form.target best clip) := by
  induction h generalizing cur with
  | done s farm => exact ⟨cur, hcur, hlink⟩
  | @release s between after farm mid last name names hreleased _ ih =>
    obtain ⟨hname, hrest⟩ := List.forall_mem_cons.mp hnames
    obtain ⟨hkeeperName, hstays⟩ := not_or.mp (mt List.mem_cons.mpr hkeeper)
    obtain rfl := eq_remove_of_release hreleased
    have himage' : hasImage (s.remove name) keeper = true := by rwa [hasImage, slotAt_of_ne hkeeperName]
    have hlists' : Lists (s.remove name) keeper clip size := by rwa [Lists, tocText, slotAt_of_ne hkeeperName]
    by_cases heq : cur = name
    · -- its new snapshot may be released in turn
      subst heq
      have hmid := linkAt_of_target (fun _ => rfl) hname hreleased hlen hclip hlink
      cases hcopy : bestCopy s cur clip with
      | none => exact absurd hlists (bestCopy_eq_none hcopy keeper ⟨hkeeperName, hsnap, himage⟩ size)
      | some copy =>
        rw [hcopy] at hmid
        exact ih hrest (bestCopy_eq_some hcopy).1.1.2.1 hmid hstays himage' hlists'
    · have hother : ∀ target, linkAt p farm.tree = some target → ownedSnapComponent target ≠ some name := by
        intro target htarget
        rw [hlink] at htarget
        rw [← Option.some.inj htarget, ownedSnapComponent_eq_some.mpr ⟨hcur, form, clip, hclip, rfl⟩]
        exact fun h => heq (Option.some.inj h)
      exact ih hrest hcur ((linkAt_of_other (fun _ => rfl) hreleased hother).trans hlink) hstays himage' hlists'

/-- **Snapshots released in a row, in any order**: it runs through; no link dangles after it; and a link whose clip is in
the table of contents of a snapshot that stays leads to a snapshot that is there. -/
theorem releases_spec (hattached : Attached s farm) (hnodup : names.Nodup)
    (hnames : ∀ name ∈ names, isSnap name = true ∧ (s.get name).any Entry.isDir = true) :
    (∃ after last, Releases s farm names after last) ∧ ∀ after last, Releases s farm names after last →
      Attached after last ∧ ∀ p (form : Form) cur clip keeper size, p.length ≤ walkDepth → Canonical clip → isSnap cur = true →
        linkAt p farm.tree = some (form.target cur clip) → keeper ∉ names → isSnap keeper = true →
        hasImage s keeper = true → Lists s keeper clip size →
        ∃ best, (after.get best).isSome = true ∧ linkAt p last.tree = some (form.target best clip) := by
  refine ⟨exists_releases hnodup fun name hname => (hnames name hname).2, fun after last h => ?_⟩
  have hsnaps : ∀ name ∈ names, isSnap name = true := fun name hname => (hnames name hname).1
  have hlast := h.attached hattached hsnaps
  refine ⟨hlast, fun p form cur clip keeper size hlen hclip hcur hlink hkeeper hsnap himage hlists => ?_⟩
  obtain ⟨best, hbest, hlink'⟩ := h.repointed hsnaps hlen hclip hcur hlink hkeeper hsnap himage hlists
  exact ⟨best, hlast p _ best hlen hlink' (ownedSnapComponent_eq_some.mpr ⟨hbest, form, clip, hclip, rfl⟩), hlink'⟩

end

/-- Two of three snapshots of a clip are released, the one its link names first. -/
theorem releases_spec_two_of_three : ∃ after last best,
    Releases (snapshotsOf 2 3) oneLinkFarm [snapName 1, snapName 2] after last ∧ (after.get best).isSome = true
      ∧ linkAt ["a".toList] last.tree = some (Form.stable.target best "a".toList) := by
  have hlink : linkAt ["a".toList] oneLinkFarm.tree = some (Form.stable.target (snapName 1) "a".toList) := by decide +kernel
  have hclip : Canonical "a".toList := by
    intro part hpart
    have hparts : ("a".toList.splitOn '/').all properComponent = true := by decide +kernel
    exact List.all_eq_true.mp hparts part hpart
  have hattached : Attached (snapshotsOf 2 3) oneLinkFarm := by
    intro p target snap hlen hlink' howned
    obtain rfl : p = ["a".toList] := by
      have hne : p ≠ [] := by
        rintro rfl
        exact nomatch hlink'
      have hmem : (p, FarmLeaf.link target) ∈ leaves walkDepth [] oneLinkFarm.tree :=
        (mem_leaves oneLinkFarm.ordered).mpr ⟨p, rfl, hne, hlen, linkAt_eq_some.mp hlink'⟩
      exact congrArg Prod.fst (List.mem_singleton.mp hmem)
    rw [hlink] at hlink'
    rw [← Option.some.inj hlink', ownedSnapComponent_eq_some.mpr ⟨by decide +kernel, _, _, hclip, rfl⟩] at howned
    rw [← Option.some.inj howned]
    decide +kernel
  have hnames : ∀ name ∈ [snapName 1, snapName 2],
      isSnap name = true ∧ ((snapshotsOf 2 3).get name).any Entry.isDir = true := by decide +kernel
  obtain ⟨⟨after, last, hrun⟩, hall⟩ := releases_spec hattached (by decide +kernel) hnames
  obtain ⟨-, hkept⟩ := hall after last hrun
  obtain ⟨best, hbest, hlast⟩ := hkept ["a".toList] .stable (snapName 1) "a".toList (snapName 3) 5 (by decide) hclip
    (by decide +kernel) hlink (by decide +kernel) (by decide +kernel) (by decide +kernel) ⟨"5 a".toList, by decide +kernel, by decide +kernel⟩
  exact ⟨after, last, best, hrun, hbest, hlast⟩

end SentryUsb.Snapshot
