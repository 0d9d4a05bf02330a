import SentryUsb.Library.TransitionSystem
import SentryUsb.Snapshot.Capture

/-! # Link debts over runs

Captures, runs of owed links, boot markings and reboots follow each other in any order, and each of them may be stopped
between any two file operations.

* **`makeSnapshot_debts`** — a capture into a free slot loses no debt, wherever it is stopped;
* **`Step`**, **`stepTo`**, **`IntoFreeSlot`** — the steps, and when a capture finds its slot free;
* **`LinksKept`** — re-linking a snapshot that is not the highest committed one changes no link;
* **`linkDebts_of_reaches`** — what every run keeps;
* **`debt_lost_and_links_undone`** — what goes wrong otherwise. -/

namespace SentryUsb.Snapshot

open Library FileTree

/-! ## A capture -/

/-- A slot whose table of contents is not committed. -/
def Unlisted (name : Text) (d : Device) : Prop := ∀ c, captureAt d.snapshots name = some c → c.2 = none

theorem unlisted_farmBlind (name : Text) : FarmBlind (Unlisted name) := fun _ _ h => h

theorem unlisted_markerBlind (name : Text) : MarkerBlind (Unlisted name) := by
  intro d d' hsame h c hc
  rw [hsame.captures] at hc
  exact h c hc

theorem Unlisted.toc_eq_none {name : Text} {d : Device} (h : Unlisted name d) {slot : SlotDir}
    (hslot : slotAt d.snapshots name = some slot) : slot.toc = none :=
  h (slot.image, slot.toc) (by rw [captureAt, hslot]; rfl)

/-- A slot that owes nothing yet: it has no image or no table of contents. -/
theorem SlotDebts.of_uncommitted {linked failed : List Text} {name : Text} {slot : SlotDir}
    (h : slot.image = none ∨ slot.toc = none) (hgave : slot.gaveUp.isSome = true → relinkMaxFailures ≤ failed.count name)
    (hcounted : ∀ text, slot.pending = some text → (lines text).length ≤ failed.count name) :
    SlotDebts linked failed name slot := by
  refine ⟨fun himage htoc => ?_, hgave, hcounted⟩
  rcases h with h | h
  · rw [h] at himage
    simp at himage
  · rw [h] at htoc
    simp at htoc

/-- What a capture keeps of its slot until it commits: the debts, and no table of contents. -/
def Capturing (name : Text) (d : Device) : Prop := LinkDebts d ∧ Unlisted name d

theorem capturing_farmBlind (name : Text) : FarmBlind (Capturing name) := fun _ _ h => h

section

variable {name : Text}

/-- A change of the capture's slot before it commits. -/
theorem onSlot_capturing {ok : Bool} {f : SlotDir → SlotDir} (htoc : ∀ slot, slot.toc = none → (f slot).toc = none)
    (hgave : ∀ slot, (f slot).gaveUp = slot.gaveUp) (hpending : ∀ slot, (f slot).pending = slot.pending ∨ (f slot).pending = some []) :
    Stoppable.Keeps (Capturing name) (onSlot ok name f : Stoppable Device Unit Bool) := by
  refine keeps_onSlot fun d s hd hs => ⟨hd.1.update hs fun slot hslot => ?_, fun c hc => ?_⟩
  · obtain ⟨-, hold, hcounted⟩ := hd.1 name slot hslot
    refine .of_uncommitted (Or.inr (htoc slot (hd.2.toc_eq_none hslot))) (by rw [hgave]; exact hold) fun text htext => ?_
    rcases hpending slot with hsame | hempty
    · exact hcounted text (hsame ▸ htext)
    · rw [← Option.some.inj (hempty.symm.trans htext)]
      exact Nat.zero_le _
  · have hc : captureAt s name = some c := hc
    obtain ⟨slot, hslot⟩ := exists_slotAt_of_updateSlot hs
    rw [captureAt, slotAt_updateSlot hs, if_pos rfl, hslot] at hc
    rw [← Option.some.inj hc]
    exact htoc slot (hd.2.toc_eq_none hslot)

/-- Dropping a file keeps the markers that are left, and commits nothing. -/
theorem SlotDir.drop_spec (slot : SlotDir) (file : SlotFile) :
    ((slot.drop file).image = slot.image ∨ (slot.drop file).image = none)
      ∧ ((slot.drop file).toc = slot.toc ∨ (slot.drop file).toc = none)
      ∧ ((slot.drop file).gaveUp = slot.gaveUp ∨ (slot.drop file).gaveUp = none)
      ∧ ((slot.drop file).pending = slot.pending ∨ (slot.drop file).pending = none) := by
  cases file <;> simp [SlotDir.drop]

/-- The debts of a slot's directory that is not committed, without a file. -/
theorem SlotDebts.drop {linked failed : List Text} {slot : SlotDir} (h : SlotDebts linked failed name slot)
    (hun : slot.image = none ∨ slot.toc = none) (file : SlotFile) : SlotDebts linked failed name (slot.drop file) := by
  obtain ⟨himage, htoc, hgave, hpending⟩ := slot.drop_spec file
  refine .of_uncommitted ?_ (fun hg => ?_) fun text ht => ?_
  · rcases hun with hun | hun
    · exact Or.inl (by rcases himage with h | h <;> simp [h, hun])
    · exact Or.inr (by rcases htoc with h | h <;> simp [h, hun])
  · rcases hgave with hsame | hnone
    · exact h.gaveUp (hsame ▸ hg)
    · rw [hnone] at hg
      simp at hg
  · rcases hpending with hsame | hnone
    · exact h.counted text (hsame ▸ ht)
    · rw [hnone] at ht
      simp at ht

/-- A slot that is not committed. -/
def Uncommitted (name : Text) (d : Device) : Prop :=
  ∀ slot, slotAt d.snapshots name = some slot → slot.image = none ∨ slot.toc = none

theorem slotAt_insert (s : Snapshots) (name n : Text) (e : Entry) :
    slotAt (s.insert name e) n = if n = name then e.slot? else slotAt s n := by
  unfold slotAt
  rw [SortedMap.get_insert]
  by_cases hn : n = name
  · rw [if_pos hn, if_pos hn]
    rfl
  · rw [if_neg hn, if_neg hn]

theorem slotAt_removeDirAll_of_ne {s s' : Snapshots} {n : Text} (h : removeDirAll s name = some s') (hn : n ≠ name) :
    slotAt s' n = slotAt s n := by
  have hget := get_removeDirAll s name n hn
  rw [h, Option.getD_some] at hget
  unfold slotAt
  rw [hget]

/-- **Removing a slot that is not committed loses no debt.** -/
theorem removeSlot_debts (removal : Removal) :
    Stoppable.Keeps (fun d => LinkDebts d ∧ Uncommitted name d) (removeSlot removal name) := by
  unfold removeSlot dropFile
  refine Stoppable.Keeps.bind (Stoppable.Keeps.foldlM _ fun _ file _ => Stoppable.Keeps.attempt fun d d' hd hd' => ?_)
    fun _ => Stoppable.Keeps.attempt fun d d' hd hd' => ?_
  · split at hd'
    · rename_i slot hget
      obtain rfl := Option.some.inj hd'
      have hslot : slotAt d.snapshots name = some slot := by
        rw [slotAt, hget]
        rfl
      have hun := hd.2 slot hslot
      refine ⟨fun n slot' hslot' => ?_, fun slot' hslot' => ?_⟩
      · have hslot' : slotAt (d.snapshots.insert name (.dir (slot.drop file))) n = some slot' := hslot'
        rw [slotAt_insert] at hslot'
        split at hslot'
        · rename_i hn
          rw [← Option.some.inj hslot', hn]
          exact (hd.1 name slot hslot).drop hun file
        · exact hd.1 n slot' hslot'
      · have hslot' : slotAt (d.snapshots.insert name (.dir (slot.drop file))) name = some slot' := hslot'
        rw [slotAt_insert, if_pos rfl] at hslot'
        rw [← Option.some.inj hslot']
        obtain ⟨himage, htoc, -⟩ := slot.drop_spec file
        rcases hun with hun | hun
        · exact Or.inl (by rcases himage with h | h <;> simp [h, hun])
        · exact Or.inr (by rcases htoc with h | h <;> simp [h, hun])
    · simp at hd'
  · split at hd'
    · obtain ⟨s, hs, rfl⟩ := Option.map_eq_some_iff.mp hd'
      have hgone : slotAt s name = none := by
        have hnone := slotAt_removeDirAll d.snapshots name
        rw [hs] at hnone
        exact hnone
      refine ⟨fun n slot hslot => ?_, fun slot hslot => ?_⟩
      · have hslot : slotAt s n = some slot := hslot
        have hn : n ≠ name := by
          rintro rfl
          rw [hgone] at hslot
          simp at hslot
        rw [slotAt_removeDirAll_of_ne hs hn] at hslot
        exact hd.1 n slot hslot
      · have hslot : slotAt s name = some slot := hslot
        rw [hgone] at hslot
        simp at hslot
    · simp at hd'

/-- A removal that succeeds, or finds nothing, leaves nothing. -/
theorem removeSlot_gone (removal : Removal) :
    Stoppable.Triple (fun _ => True) (fun d => removal.done = true ∨ slotAt d.snapshots name = none)
      (removeSlot removal name) fun r d => ∀ ok, r = .ok ok → slotAt d.snapshots name = none := by
  unfold removeSlot dropFile
  refine Stoppable.Triple.bind (Q := fun _ d => removal.done = true ∨ slotAt d.snapshots name = none)
    (Stoppable.Keeps.ends (Stoppable.Keeps.foldlM _ fun _ file _ => Stoppable.Keeps.attempt fun d d' hd hd' => ?_))
    (fun _ => Stoppable.Triple.attempt (fun _ _ => trivial) (fun d hd hnone _ _ => ?_) fun d d' hd hd' => ⟨trivial, fun _ _ => ?_⟩)
    fun _ _ _ ok h => by simp at h
  · rcases hd with hdone | hslot
    · exact Or.inl hdone
    · split at hd'
      · rename_i slot hget
        rw [slotAt, hget] at hslot
        simp [Entry.slot?] at hslot
      · simp at hd'
  · rcases hd with hdone | hslot
    · rw [if_pos hdone, Option.map_eq_none_iff] at hnone
      have hgone := slotAt_removeDirAll d.snapshots name
      rw [hnone] at hgone
      exact hgone
    · exact hslot
  · split at hd'
    · obtain ⟨s, hs, rfl⟩ := Option.map_eq_some_iff.mp hd'
      have hgone := slotAt_removeDirAll d.snapshots name
      rw [hs] at hgone
      exact hgone
    · simp at hd'

/-- A slot made anew owes nothing. -/
theorem createSlot_capturing (ok : Bool) :
    Stoppable.Triple LinkDebts (fun d => LinkDebts d ∧ slotAt d.snapshots name = none) (createSlot ok name)
      fun _ d => Capturing name d := by
  refine Stoppable.Triple.attempt (fun _ hd => hd.1) (fun d hd _ => ⟨hd.1, fun c hc => ?_⟩) fun d d' hd hd' => ?_
  · rw [captureAt, hd.2] at hc
    simp at hc
  · split at hd'
    · split at hd'
      · obtain rfl := Option.some.inj hd'
        have hdebts : LinkDebts { d with
            snapshots := d.snapshots.insert name (.dir SlotDir.empty)
            failed := d.failed.filter fun n => decide (n ≠ name) } := by
          intro n slot hslot
          have hslot : slotAt (d.snapshots.insert name (.dir SlotDir.empty)) n = some slot := hslot
          rw [slotAt_insert] at hslot
          split at hslot
          · rw [← Option.some.inj hslot]
            exact .of_uncommitted (Or.inl rfl) (fun h => by simp [SlotDir.empty] at h) fun text h => by simp [SlotDir.empty] at h
          · rename_i hn
            have hcount : (d.failed.filter fun n => decide (n ≠ name)).count n = d.failed.count n :=
              List.count_filter (by simp [hn])
            exact (hd.1 n slot hslot).mono (List.Subset.refl _) (le_of_eq hcount.symm)
        refine ⟨hdebts, hdebts, fun c hc => ?_⟩
        have hc : captureAt (d.snapshots.insert name (.dir SlotDir.empty)) name = some c := hc
        rw [captureAt, slotAt_insert, if_pos rfl] at hc
        rw [← Option.some.inj hc]
        rfl
      · rename_i e he
        split at hd'
        · rename_i hsome
          have hslot := hd.2
          rw [slotAt, he, Option.bind_some] at hslot
          rw [hslot] at hsome
          simp at hsome
        · simp at hd'
    · simp at hd'

theorem Capturing.uncommitted {d : Device} (h : Capturing name d) : Uncommitted name d :=
  fun _ hslot => Or.inr (h.2.toc_eq_none hslot)

theorem removeSlot_capturing (removal : Removal) :
    Stoppable.Triple LinkDebts (Capturing name) (removeSlot removal name) fun _ d => LinkDebts d :=
  ((removeSlot_debts removal).triple.weaken fun _ hd => hd.1).conseq (fun _ hd => ⟨hd.1, hd.uncommitted⟩) fun _ _ hd => hd.1

theorem recordFailed_debts (name : Text) : Stoppable.Keeps LinkDebts (recordFailed name) := by
  refine Stoppable.Keeps.attempt fun d d' hd hd' => ?_
  obtain rfl := Option.some.inj hd'
  exact fun n slot hslot => (hd n slot hslot).mono (List.Subset.refl _) List.count_le_count_cons

/-- **The links are marked as owed before the table of contents is committed.** -/
theorem commitToc_debts (ok : Bool) :
    Stoppable.Triple LinkDebts (fun d => LinkDebts d ∧ hasPending d.snapshots name = true) (commitToc ok name)
      fun _ d => LinkDebts d := by
  refine Stoppable.Triple.attempt (fun _ hd => hd.1) (fun _ hd _ => hd.1) fun d d' hd hd' => ?_
  split at hd'
  · obtain ⟨s, hs, rfl⟩ := Option.map_eq_some_iff.mp hd'
    have hdebts : LinkDebts { d with snapshots := s, linked := d.linked.filter fun n => decide (n ≠ name) } := by
      intro n slot hslot
      have hslot : slotAt s n = some slot := hslot
      rw [slotAt_updateSlot hs] at hslot
      split at hslot
      · rename_i hn
        obtain ⟨old, hold, rfl⟩ := Option.map_eq_some_iff.mp hslot
        obtain ⟨-, hgave, hcounted⟩ := hd.1 name old hold
        have hpending := hd.2
        rw [hasPending, hold] at hpending
        rw [hn]
        exact ⟨fun _ _ => Or.inr (Or.inl hpending), hgave, hcounted⟩
      · -- the passes of the other snapshots stay recorded
        rename_i hn
        obtain ⟨hmarked, hgave, hcounted⟩ := hd.1 n slot hslot
        refine ⟨fun himage htoc => ?_, hgave, hcounted⟩
        rcases hmarked himage htoc with hmem | hmarker
        · exact Or.inl (List.mem_filter.mpr ⟨hmem, by simp [hn]⟩)
        · exact Or.inr hmarker
    exact ⟨hdebts, hdebts⟩
  · simp at hd'

theorem linkCapture_debts (w : CaptureWorld) (name : Text) : Stoppable.Keeps LinkDebts (linkCapture w name) := by
  unfold linkCapture
  refine Stoppable.Keeps.bind (Stoppable.Keeps.caught ((ensureStableMntLink_debts w.mount name).bind fun _ =>
    makeLinks_keeps linkDebts_farmBlind w.mount name _ false)) fun linked => ?_
  cases linked with
  | ok made =>
    exact Stoppable.Keeps.of_triple (Stoppable.Triple.bind (R := fun _ d => LinkDebts d) (recordLinked_debts name)
      (fun _ => unpend_debts w.unpendOk name) fun _ _ hd => hd.1)
  | error e => exact recordFailed_debts name

/-- A pass of the rebuild is recorded like any other. -/
theorem rebuildSnapshotLinks_debts (mount : Mount) (gapfill : List Text) (name : Text) :
    Stoppable.Keeps LinkDebts (rebuildSnapshotLinks mount gapfill name) := by
  unfold rebuildSnapshotLinks
  refine Stoppable.Keeps.get.bind fun d => ?_
  split
  · exact Stoppable.Keeps.pure _
  · refine Stoppable.Keeps.bind (keeps_onSlot fun d s hd hs => hd.update hs fun slot hslot => ?_) fun _ => ?_
    · obtain ⟨hmarked, hgave, hcounted⟩ := hd name slot hslot
      exact ⟨hmarked, hgave, hcounted⟩
    · split
      · exact Stoppable.Keeps.pure _
      · refine Stoppable.Keeps.bind (Stoppable.Keeps.caught (makeLinks_keeps linkDebts_farmBlind mount name gapfill false))
          fun linked => ?_
        cases linked with
        | ok made =>
          exact Stoppable.Keeps.of_triple ((recordLinked_debts name).conseq (fun _ hd => hd) fun _ _ hd => hd.1)
        | error e => exact recordFailed_debts name

theorem rebuildIfFlagged_debts (w : CaptureWorld) : Stoppable.Keeps LinkDebts (rebuildIfFlagged w) := by
  unfold rebuildIfFlagged rebuildAllSnapshotLinks
  refine Stoppable.Keeps.get.bind fun d => ?_
  split
  · refine Stoppable.Keeps.bind (Stoppable.Keeps.foldlM _ fun _ name _ => rebuildSnapshotLinks_debts _ _ name) fun _ =>
      Stoppable.Keeps.attempt fun d d' hd hd' => ?_
    split at hd'
    · obtain rfl := Option.some.inj hd'
      exact hd
    · simp at hd'
  · exact Stoppable.Keeps.pure _

/-- The purge changes only the farm and its own marker. -/
theorem purgeOnce_debts (w : CaptureWorld) : Stoppable.Keeps LinkDebts (purgeOnce w) := by
  have hfarm : ∀ (ok : Bool) (f : FarmTree → Option FarmTree),
      Stoppable.Keeps LinkDebts (onFarm ok f : Stoppable Device Unit Bool) := fun ok f => keeps_onFarm fun _ _ hd _ => hd
  unfold purgeOnce purgeEventLinks
  refine Stoppable.Keeps.get.bind fun d => ?_
  split
  · exact Stoppable.Keeps.pure _
  · refine Stoppable.Keeps.bind (Stoppable.Keeps.get.bind fun d => ?_) fun _ => Stoppable.Keeps.attempt fun d d' hd hd' => ?_
    · split
      · refine Stoppable.Keeps.foldlM _ fun _ date _ => ?_
        split
        · exact Stoppable.Keeps.bind (Stoppable.Keeps.foldlM _ fun _ _ _ => hfarm _ _) fun _ => hfarm _ _
        · exact Stoppable.Keeps.pure _
      · exact Stoppable.Keeps.pure _
    · split at hd'
      · obtain rfl := Option.some.inj hd'
        exact hd
      · simp at hd'

/-- A capture that is kept. -/
theorem keepCapture_debts (w : CaptureWorld) :
    Stoppable.Triple LinkDebts (Capturing name) (keepCapture w name) fun _ d => LinkDebts d := by
  have hbail : ∀ {P : Device → Prop}, (∀ d, P d → LinkDebts d) → Stoppable.Triple LinkDebts P
      (bail : Stoppable Device Unit (Option Text)) fun _ d => LinkDebts d := fun hP =>
    Stoppable.Triple.lift fun d hd => ⟨hP d hd, hP d hd⟩
  unfold keepCapture
  refine Stoppable.Triple.bind (Q := fun r d => LinkDebts d ∧ (r = .ok true → hasPending d.snapshots name = true)) ?_
    (fun owed => ?_) fun _ _ hd => hd.1
  · refine triple_onSlot (fun _ hd => hd.1) (fun _ hd => ⟨hd.1, fun h => by simp at h⟩) fun d s hd hs => ?_
    have hdebts := hd.1.update hs fun slot hslot => (hd.1 name slot hslot).withPending (fun _ => rfl)
      fun text htext => by rw [← Option.some.inj htext]; exact Nat.zero_le _
    refine ⟨hdebts, hdebts, fun _ => ?_⟩
    show ((slotAt s name).bind SlotDir.pending).isSome = true
    obtain ⟨slot, hslot⟩ := exists_slotAt_of_updateSlot hs
    rw [slotAt_updateSlot hs, if_pos rfl, hslot]
    rfl
  · cases owed with
    | false => exact hbail fun _ hd => hd.1
    | true =>
      refine Stoppable.Triple.bind ((commitToc_debts w.renameOk).conseq (fun d hd => ⟨hd.1, hd.2 rfl⟩) fun _ _ hd => hd)
        (fun done => ?_) fun _ _ hd => hd
      cases done with
      | false => exact hbail fun _ hd => hd
      | true =>
        exact ((linkCapture_debts w name).bind fun _ => (rebuildIfFlagged_debts w).bind fun _ =>
          (purgeOnce_debts w).bind fun _ => Stoppable.Keeps.pure _).triple

/-- A capture in its slot. -/
theorem finishCapture_debts (w : CaptureWorld) (prevToc : Option Text) :
    Stoppable.Triple LinkDebts (Capturing name) (finishCapture w prevToc name) fun _ d => LinkDebts d := by
  have htmp : ∀ {ok : Bool} {toc : Option (Option Text)}, Stoppable.Keeps (Capturing name)
      (onSlot ok name (fun slot => { slot with tocTmp := toc }) : Stoppable Device Unit Bool) :=
    onSlot_capturing (fun _ h => h) (fun _ => rfl) fun _ => Or.inl rfl
  have hkeeps : ∀ {α : Type} {x : Stoppable Device Unit α}, Stoppable.Keeps (Capturing name) x →
      Stoppable.Triple LinkDebts (Capturing name) x fun _ d => Capturing name d := fun h => h.triple.weaken fun _ hd => hd.1
  unfold finishCapture
  refine Stoppable.Triple.bind (hkeeps ((relinkPendingSnapshot_debts w.run).and (relinkPendingSnapshot_keeps
    (unlisted_markerBlind name) (unlisted_farmBlind name) w.run))) (fun _ => ?_) fun _ _ hd => hd.1
  refine Stoppable.Triple.bind (R := fun _ d => LinkDebts d) (hkeeps (Stoppable.Keeps.bind htmp fun _ => htmp))
    (fun listed => ?_) fun _ _ hd => hd.1
  split
  · exact Stoppable.Triple.bind (R := fun _ d => LinkDebts d) (hkeeps htmp)
      (fun _ => Stoppable.Triple.lift fun d hd => ⟨hd.1, hd.1⟩) fun _ _ hd => hd.1
  · refine Stoppable.Triple.bind (hkeeps Stoppable.Keeps.get) (fun d => ?_) fun _ _ hd => hd.1
    dsimp only
    refine Stoppable.Triple.bind (hkeeps (backfill_keeps (capturing_farmBlind name) (fun _ _ hd => hd) _ _ _)) (fun _ => ?_)
      fun _ _ hd => hd.1
    split
    · refine Stoppable.Triple.bind (Q := fun _ d => LinkDebts d) (R := fun _ d => LinkDebts d) ?_
        (fun _ => Stoppable.Triple.pure fun d hd => ⟨hd, hd⟩) fun _ _ hd => hd
      refine Stoppable.Triple.bind (R := fun _ d => LinkDebts d) (hkeeps htmp) (fun _ => ?_) fun _ _ hd => hd.1
      exact Stoppable.Triple.bind (R := fun _ d => LinkDebts d) (hkeeps (onSlot_capturing (fun _ h => h) (fun _ => rfl)
        fun _ => Or.inl rfl)) (fun _ => removeSlot_capturing w.discard) fun _ _ hd => hd.1
    · exact keepCapture_debts w

end

/-- A slot that is reused holds no image. -/
theorem hasImage_of_reuse {mounts : Text → Bool} {s : Snapshots} (h : (chooseSlot mounts s).reuse = true) :
    hasImage s (snapName (chooseSlot mounts s).slot) = false := by
  rcases chooseSlot_cases mounts s with ⟨-, hc⟩ | ⟨n, -, ⟨-, hc⟩ | ⟨-, -, himage, -, hc⟩ | ⟨-, -, hc⟩⟩
  · rw [hc] at h
    simp at h
  · rw [hc] at h
    simp at h
  · rw [hc]
    exact himage
  · rw [hc] at h
    simp at h

/-- Where the next slot is free, clearing it leaves nothing there. -/
theorem clearSlot_debts (w : CaptureWorld) {s : Snapshots} (hfree : NextSlotFree w.mounts w.reuse.done s) :
    Stoppable.Triple LinkDebts (fun d => LinkDebts d ∧ d.snapshots = s) (clearSlot w (chooseSlot w.mounts s))
      fun r d => LinkDebts d ∧ ∀ ok, r = .ok ok → slotAt d.snapshots (snapName (chooseSlot w.mounts s).slot) = none := by
  have hfresh := pick_fresh_iff.mpr hfree
  unfold clearSlot
  split
  · rename_i hreuse
    have himage := hasImage_of_reuse hreuse
    have hremoves : w.reuse.done = true ∨ slotAt s (snapName (chooseSlot w.mounts s).slot) = none := by
      rw [pick_fst, hreuse] at hfresh
      cases hdone : w.reuse.done with
      | true => exact Or.inl rfl
      | false =>
        rw [hdone] at hfresh
        exact Or.inr hfresh
    refine Stoppable.Triple.and (((removeSlot_debts w.reuse).triple.weaken fun _ hd => hd.1).conseq (fun d hd => ?_)
      fun _ _ hd => hd.1) ((removeSlot_gone w.reuse).conseq (fun d hd => by rw [hd.2]; exact hremoves) fun _ _ hd => hd)
    refine ⟨hd.1, fun slot hslot => Or.inl ?_⟩
    rw [hd.2] at hslot
    rw [hasImage, hslot] at himage
    simpa using himage
  · rename_i hreuse
    refine Stoppable.Triple.pure fun d hd => ⟨hd.1, hd.1, fun _ _ => ?_⟩
    rw [pick_of_not_reuse (Bool.eq_false_of_not_eq_true hreuse)] at hfresh
    rw [hd.2]
    exact hfresh

/-- **A capture into a free slot loses no debt, wherever it is stopped.** -/
theorem makeSnapshot_debts (w : CaptureWorld) {d : Device} (hd : LinkDebts d)
    (hfree : NextSlotFree w.mounts w.reuse.done d.snapshots) : ∀ t ∈ (makeSnapshot w).stops d, LinkDebts t := by
  have htriple : Stoppable.Triple LinkDebts (fun d' => d' = d) (makeSnapshot w) fun _ d => LinkDebts d := by
    unfold makeSnapshot
    refine Stoppable.Triple.bind (Q := fun _ d' => d' = d)
      (Stoppable.Triple.lift fun d' hd' => ⟨by rw [hd']; exact hd, hd'⟩) (fun _ => ?_) fun _ d' hd' => by rw [hd']; exact hd
    refine Stoppable.Triple.bind (Q := fun r d' => d' = d ∧ r = .ok d) (Stoppable.Triple.get fun d' hd' =>
      ⟨by rw [hd']; exact hd, hd', by rw [hd']⟩) (fun d' => ?_) fun _ d' hd' => by rw [hd'.1]; exact hd
    intro d'' hd''
    obtain ⟨rfl, heq⟩ := hd''
    obtain rfl := Except.ok.inj heq
    refine Stoppable.Triple.bind (R := fun _ d => LinkDebts d) (clearSlot_debts w hfree) (fun cleared => ?_)
      (fun _ _ hd => hd.1) d' ⟨hd, rfl⟩
    refine Stoppable.Triple.bind ((createSlot_capturing w.mkdirOk).conseq (fun d hd => ⟨hd.1, hd.2 cleared rfl⟩)
      fun _ _ hd => hd) (fun there => ?_) fun _ _ hd => hd.1
    split
    · exact Stoppable.Triple.lift fun d hd => ⟨hd.1, hd.1⟩
    refine Stoppable.Triple.bind (Q := fun _ d => Capturing (snapName (chooseSlot w.mounts d'.snapshots).slot) d)
      (Stoppable.Triple.weaken (Stoppable.Keeps.triple (Stoppable.Keeps.bind (onSlot_capturing (fun _ h => h) (fun _ => rfl)
        fun _ => Or.inl rfl) fun _ => Stoppable.Keeps.pure _)) fun _ hd => hd.1) (fun copied => ?_) fun _ _ hd => hd.1
    split
    · exact Stoppable.Triple.bind (R := fun _ d => LinkDebts d) (removeSlot_capturing w.cleanup)
        (fun _ => Stoppable.Triple.lift fun d hd => ⟨hd, hd⟩) fun _ _ hd => hd
    · exact finishCapture_debts w _
  exact (htriple d rfl).1

/-! ## Runs -/

/-- A step of the device: a capture, a run of owed links or a boot's marking, each stopped after so many file operations,
or a reboot, which loses the files of `/tmp`. -/
inductive Step where
  | capture (w : CaptureWorld) (stop : Nat)
  | relink (w : RunWorld) (stop : Nat)
  | markBoot (w : BootWorld) (stop : Nat)
  | reboot

/-- The state a step leaves. -/
def stepTo (d : Device) : Step → Option Device
  | .capture w stop => ((makeSnapshot w).stops d)[stop]?
  | .relink w stop => ((relinkPendingSnapshot w).stops d)[stop]?
  | .markBoot w stop => ((markRelinksForBootIn w).stops d)[stop]?
  | .reboot => some { d with bootMarked := false, failedThisBoot := [] }

/-- A capture finds its slot free. -/
def IntoFreeSlot (d : Device) : Step → Prop
  | .capture w _ => NextSlotFree w.mounts w.reuse.done d.snapshots
  | _ => True

/-- **Every step keeps the debts.** -/
theorem linkDebts_of_step {d d' : Device} {a : Step} (hd : LinkDebts d) (hfree : IntoFreeSlot d a)
    (hstep : stepTo d a = some d') : LinkDebts d' := by
  cases a with
  | capture w stop => exact makeSnapshot_debts w hd hfree d' (List.mem_of_getElem? hstep)
  | relink w stop => exact relinkPendingSnapshot_debts w d hd d' (List.mem_of_getElem? hstep)
  | markBoot w stop => exact markRelinksForBootIn_debts w d hd d' (List.mem_of_getElem? hstep)
  | reboot =>
    obtain rfl := Option.some.inj hstep
    exact hd

/-- A committed snapshot of the highest slot. -/
structure HighestCommitted (s : Snapshots) (name : Text) : Prop where
  isSnap : isSnap name = true
  committed : committed s name = true
  highest : ∀ n, Snapshot.isSnap n = true → Snapshot.committed s n = true → slotValue n ≤ slotValue name

/-- The committed snapshot whose name sorts last is one of the highest slot. -/
def NewestIsHighest (s : Snapshots) : Prop := ∀ newest, newestCommittedSnapshotIn s = some newest → HighestCommitted s newest

theorem mem_committedSnapshotsNewestFirst {s : Snapshots} {name : Text} :
    name ∈ committedSnapshotsNewestFirst s ↔ isSnap name = true ∧ committed s name = true := by
  unfold committedSnapshotsNewestFirst
  rw [List.mem_reverse, List.mem_filter, Bool.and_eq_true]
  constructor
  · intro h
    exact h.2
  · intro h
    refine ⟨?_, h⟩
    cases hget : s.get name with
    | none =>
      rw [committed, hasImage, slotAt, hget] at h
      simp at h
    | some e => exact List.mem_map.mpr ⟨(name, e), SortedMap.mem_entries.mpr hget, rfl⟩

/-- It is enough to compare the committed snapshots. -/
theorem newestIsHighest_of_slotValue {s : Snapshots}
    (h : ∀ newest ∈ newestCommittedSnapshotIn s, ∀ n ∈ committedSnapshotsNewestFirst s, slotValue n ≤ slotValue newest) :
    NewestIsHighest s := by
  intro newest hnewest
  obtain ⟨hsnap, hdone⟩ := mem_committedSnapshotsNewestFirst.mp (List.mem_of_head? hnewest)
  exact ⟨hsnap, hdone, fun n hn hcommitted => h newest hnewest n (mem_committedSnapshotsNewestFirst.mpr ⟨hn, hcommitted⟩)⟩

/-- **Re-linking a snapshot that is not the newest committed one changes no link**: neither the passes of a run of owed
links, which are chosen at its start and made one after the other, nor those of a rebuild. -/
structure LinksKept (d : Device) : Prop where
  relink : ∀ (failed : List Text) (pick : Text × Bool), pick ∈ pendingRelinksIn d.snapshots failed →
    ¬ HighestCommitted d.snapshots pick.1 →
      ∀ d' : Device, (∀ name, captureAt d'.snapshots name = captureAt d.snapshots name) → ∀ (w : RelinkWorld) (gapfill : List Text),
        ∀ t ∈ (relinkSnapshot w gapfill pick.1 pick.2).stops d', KeepsLinks d' t
  rebuild : d.rebuildFlag = true → ∀ name, ¬ HighestCommitted d.snapshots name → ∀ (mount : Mount) (gapfill : List Text),
    ∀ t ∈ (rebuildSnapshotLinks mount gapfill name).stops d, KeepsLinks d t

/-- Only the snapshot whose name sorts last is re-linked in full. -/
theorem fillOnly_of_pick {s : Snapshots} {failed : List Text} {pick : Text × Bool} (h : pick ∈ pendingRelinksIn s failed)
    (hnot : newestCommittedSnapshotIn s ≠ some pick.1) : pick.2 = true := by
  unfold pendingRelinksIn at h
  cases hnewest : newestCommittedSnapshotIn s with
  | none =>
    rw [hnewest] at h
    simp at h
  | some newest =>
    rw [hnewest] at h hnot
    dsimp only at h
    have hne : ∀ name, pick = (name, decide (name ≠ newest)) → pick.2 = true := by
      rintro name rfl
      exact decide_eq_true fun heq => hnot (by rw [heq])
    split at h
    · rcases List.mem_cons.mp h with h | h
      · exact hne _ h
      · split at h
        · exact hne _ (List.mem_singleton.mp h)
        · simp at h
    · simp at h

theorem linksKept_of_newestIsHighest {d : Device} (hnewest : NewestIsHighest d.snapshots) (hflag : d.rebuildFlag = false) :
    LinksKept d where
  relink failed pick hpick hnot d' _ w gapfill := by
    have hfill : pick.2 = true := fillOnly_of_pick hpick fun h => hnot (hnewest pick.1 h)
    rw [hfill]
    exact relinkSnapshot_fillOnly w gapfill pick.1 d' d' fun _ _ h => h
  rebuild hset := by
    rw [hflag] at hset
    simp at hset

/-- **In every run whose captures find their slots free, every committed snapshot without a completed pass carries a
marker and none is given up on early. Where the last name is that of the highest slot and no rebuild is asked for,
re-linking any other snapshot changes no link.** -/
theorem linkDebts_of_reaches {d₀ d : Device} (h₀ : LinkDebts d₀) (h : Reaches stepTo IntoFreeSlot d₀ d) :
    LinkDebts d ∧ (NewestIsHighest d.snapshots → d.rebuildFlag = false → LinksKept d) :=
  ⟨h.invariant h₀ fun _ _ _ hd hfree hstep => linkDebts_of_step hd hfree hstep,
    fun hnewest hflag => linksKept_of_newestIsHighest hnewest hflag⟩

theorem linkDebts_of_no_slot {d : Device} (h : ∀ name, slotAt d.snapshots name = none) : LinkDebts d := by
  intro name slot hslot
  rw [h name] at hslot
  simp at hslot

/-- A first capture whose links cannot be made leaves them owed. -/
theorem linkDebts_first_capture :
    ∃ d, stepTo (deviceOf SortedMap.empty (.dir [])) (.capture (captureOf oneClip) 7) = some d
      ∧ committed d.snapshots (snapName 1) = true ∧ LinkDebts d ∧ LinksKept d := by
  obtain ⟨d, hd⟩ : ∃ d, stepTo (deviceOf SortedMap.empty (.dir [])) (.capture (captureOf oneClip) 7) = some d :=
    Option.isSome_iff_exists.mp (by decide +kernel)
  have hleft : ∀ d ∈ stepTo (deviceOf SortedMap.empty (.dir [])) (.capture (captureOf oneClip) 7),
      committed d.snapshots (snapName 1) = true ∧ d.rebuildFlag = false
        ∧ ∀ newest ∈ newestCommittedSnapshotIn d.snapshots, ∀ n ∈ committedSnapshotsNewestFirst d.snapshots,
          slotValue n ≤ slotValue newest := by decide +kernel
  obtain ⟨hcommitted, hflag, hnewest⟩ := hleft d hd
  have hstep : Reaches stepTo IntoFreeSlot (deviceOf SortedMap.empty (.dir [])) d :=
    .tail (.capture (captureOf oneClip) 7) .refl
      (nextSlotFree_of_no_links (fun name slot h => by simp [deviceOf, SortedMap.get, SortedMap.empty] at h)
        fun n hn => by simp [deviceOf, maxSlot, SortedMap.empty] at hn) hd
  obtain ⟨hdebts, hkept⟩ := linkDebts_of_reaches (linkDebts_of_no_slot fun _ => rfl) hstep
  exact ⟨d, hd, hcommitted, hdebts, hkept (newestIsHighest_of_slotValue hnewest) hflag⟩

/-! ## What goes wrong otherwise -/

/-- The name of a clip. -/
def dayClip : Text := "2024-01-01_00-00-00-front.mp4".toList

/-- Where its link stands. -/
def dayLink : List Text := [recentClips, "2024-01-01".toList, dayClip]

/-- Where it leads to, for a snapshot. -/
def dayTarget (snap : Text) : Text := Form.stable.target snap (joinPath [teslaCam, recentClips, dayClip])

/-- A farm whose only link leads to the clip in a snapshot. -/
def dayFarm (snap : Text) : FarmTree :=
  .dir [(recentClips, .dir [("2024-01-01".toList, .dir [(dayClip, .leaf (.link (dayTarget snap)))])])]

/-- A mount that holds the clip. -/
def dayMount : Mount where
  linkable := true
  readable := true
  list path := if path = [teslaCam, recentClips] then ⟨[⟨dayClip, some false⟩], 0⟩ else ⟨[], 0⟩
  faults _ := false

/-- Two committed snapshots, of which the first owes its links. -/
def twoSnapshots (first second : Nat) : Snapshots :=
  (SortedMap.empty.insert (snapName first)
    (.dir { SlotDir.empty with image := some 0, toc := some (some oneClip), pending := some [] })).insert (snapName second)
      (.dir { SlotDir.empty with image := some 0, toc := some (some oneClip) })

/-- A slot that lists a clip and has no image. -/
def tocOnly : Device := deviceOf (SortedMap.empty.insert (snapName 5) (.dir { SlotDir.empty with toc := some (some oneClip) })) (.dir [])

/-- Whether a snapshot is committed without a completed pass and without a marker. -/
def unmarked (d : Device) (name : Text) : Bool :=
  decide (name ∉ d.linked) && (slotAt d.snapshots name).any fun slot =>
    slot.image.isSome && slot.toc.isSome && slot.pending.isNone && !slot.verify && slot.gaveUp.isNone

theorem not_linkDebts_of_unmarked {d : Device} {name : Text} (h : unmarked d name = true) : ¬ LinkDebts d := by
  intro hd
  unfold unmarked at h
  rw [Bool.and_eq_true, decide_eq_true_iff] at h
  cases hslot : slotAt d.snapshots name with
  | none =>
    rw [hslot] at h
    simp at h
  | some slot =>
    rw [hslot, Option.any_some] at h
    simp only [Bool.and_eq_true, Bool.not_eq_true', Option.isNone_iff_eq_none] at h
    obtain ⟨hnot, ⟨⟨⟨himage, htoc⟩, hpending⟩, hverify⟩, hgave⟩ := h
    rcases (hd name slot hslot).marked himage htoc with hmem | hmarker | hmarker | hmarker
    · exact hnot hmem
    · simp [hpending] at hmarker
    · simp [hverify] at hmarker
    · simp [hgave] at hmarker

theorem not_keepsLinks {d t : Device} (p : List Text) (target : Text) (h : linkAt p d.farm = some target)
    (h' : linkAt p t.farm ≠ some target) : ¬ KeepsLinks d t :=
  fun hkeeps => h' (hkeeps p target h)

/-- **A reused slot that is not removed keeps its listing and is committed by the copy alone; a rebuild, and past six
digits a run of owed links, puts an older snapshot's link in the place of a newer one's.** -/
theorem debt_lost_and_links_undone :
    (LinkDebts tocOnly ∧ ∃ t ∈ (makeSnapshot { captureOf oneClip with reuse := ⟨[], false⟩ }).stops tocOnly, ¬ LinkDebts t)
      ∧ ¬ LinksKept { deviceOf (twoSnapshots 1 2) (dayFarm (snapName 2)) with rebuildFlag := true }
      ∧ ¬ LinksKept (deviceOf (twoSnapshots 999999 1000000) (dayFarm (snapName 1000000))) := by
  have hlower : ∀ {s : Snapshots} {m n : Nat}, committed s (snapName n) = true → m < n → ¬ HighestCommitted s (snapName m) := by
    intro s m n hn hlt h
    have hle := h.highest (snapName n) (by rw [isSnap, slotDigits_snapName]; rfl) hn
    rw [slotValue_snapName, slotValue_snapName] at hle
    omega
  refine ⟨⟨fun name slot hslot => ?_, ?_⟩, fun h => ?_, fun h => ?_⟩
  · have hslot : slotAt (SortedMap.empty.insert (snapName 5)
        (.dir { SlotDir.empty with toc := some (some oneClip) })) name = some slot := hslot
    rw [slotAt_insert] at hslot
    split at hslot
    · rw [← Option.some.inj hslot]
      exact .of_uncommitted (Or.inl rfl) (fun h => by simp [SlotDir.empty] at h) fun text h => by simp [SlotDir.empty] at h
    · simp [slotAt, SortedMap.get, SortedMap.empty] at hslot
  · have hany : ((makeSnapshot { captureOf oneClip with reuse := ⟨[], false⟩ }).stops tocOnly).any
        (fun t => unmarked t (snapName 5)) = true := by decide +kernel
    obtain ⟨t, ht, hun⟩ := List.any_eq_true.mp hany
    exact ⟨t, ht, not_linkDebts_of_unmarked hun⟩
  · refine not_keepsLinks dayLink (dayTarget (snapName 2)) (by decide +kernel) ?_ (h.rebuild rfl (snapName 1)
      (hlower (n := 2) (by decide +kernel) (by decide)) dayMount [] _ (Stoppable.final_mem_stops _ _))
    decide +kernel
  · refine not_keepsLinks dayLink (dayTarget (snapName 1000000)) (by decide +kernel) ?_ (h.relink [] (snapName 999999, false) (by decide +kernel)
      (hlower (n := 1000000) (by decide +kernel) (by decide)) _ (fun _ => rfl) ⟨dayMount, true, true, true, 3, 3⟩ [] _
      (Stoppable.final_mem_stops _ _))
    decide +kernel

end SentryUsb.Snapshot
