import SentryUsb.Snapshot.Slots
import SentryUsb.Snapshot.Relinking

/-! # Taking a snapshot

A snapshot copies the cam disk into the next slot, lists its clips, and is discarded when the listing adds nothing to
the one before. Otherwise its links are marked as owed, its table of contents is committed, and the links are made
(`make_snapshot`). It may be stopped between any two file operations.

* **`makeSnapshot`** — the capture, with the maintenance of the farm that goes with it;
* **`tocHasAdditions`** — whether a listing adds anything;
* **`DiscardSafe`** — a capture is discarded only if another image is kept that lists all of it;
* **`captureContract_iff`** — when the choice of the slot and the discard are safe;
* **`discard_without_image`** — below an incomplete slot a table of contents may outlive its image. -/

namespace SentryUsb.Snapshot

open Library FileTree

/-! ## Removing a slot -/

/-- The files of a slot's directory. -/
inductive SlotFile where
  | image
  | toc
  | tocTmp
  | pending
  | verify
  | gaveUp
  | mnt
  deriving DecidableEq

/-- The directory without a file. -/
def SlotDir.drop (slot : SlotDir) : SlotFile → SlotDir
  | .image => { slot with image := none }
  | .toc => { slot with toc := none }
  | .tocTmp => { slot with tocTmp := none }
  | .pending => { slot with pending := none }
  | .verify => { slot with verify := false }
  | .gaveUp => { slot with gaveUp := none }
  | .mnt => { slot with mnt := false }

/-- Remove a file of a directory that is no link. -/
def dropFile (name : Text) (file : SlotFile) : Stoppable Device Unit Bool :=
  Stoppable.attempt fun d =>
    match d.snapshots.get name with
    | some (.dir slot) => some { d with snapshots := d.snapshots.insert name (.dir (slot.drop file)) }
    | _ => none

/-- How the removal of a directory goes: the files in the order they are removed, and whether the directory itself goes
in the end. -/
structure Removal where
  files : List SlotFile
  done : Bool

/-- Remove a slot's directory, file by file (`remove_dir_all`). -/
def removeSlot (removal : Removal) (name : Text) : Stoppable Device Unit Bool := do
  let _ ← removal.files.foldlM (fun _ file => dropFile name file) true
  Stoppable.attempt fun d =>
    if removal.done then (removeDirAll d.snapshots name).map fun s => { d with snapshots := s } else none

/-! ## Maintenance of the farm -/

/-- `/mutable/TeslaCam`. -/
def teslaCamDir : Text := "/mutable/TeslaCam".toList

/-- An entry of an event folder that the manifest lists, with the target its RecentClips link gets. -/
def backfillClip (root evt : Text) (gapfill : List Text) (clip : Text × FarmTree) : Option (Text × Text) :=
  (clipStamp clip.1).bind fun stamp =>
    if stamp ∈ gapfill then
      match clip.2 with
      | .leaf (.link target) => some (clip.1, target)
      | _ => some (clip.1, teslaCamDir ++ '/' :: joinPath [root, evt, clip.1])
    else none

/-- The clips of the event folders that the manifest lists. -/
def backfillClips (gapfill : List Text) (farm : FarmTree) : List (Text × Text) :=
  [savedClips, sentryClips].flatMap fun root =>
    match lookup [root] farm with
    | some (.dir events) => events.flatMap fun evt =>
      match evt.2 with
      | .dir clips => clips.filterMap (backfillClip root evt.1 gapfill)
      | .leaf _ => []
    | _ => []

/-- Link one of them, unless something stands there or its snapshot is gone; the count is of those to retry. -/
def backfillRecentLink (faults : Nat → Bool) (retry : Nat) (clip : Text × Text) : Stoppable Device Unit Nat := do
  let d ← Stoppable.get
  let link := [recentClips, clip.1.take 10, clip.1]
  if (lookup link d.farm).isSome
      || (ownedSnapComponent clip.2).any (fun snap => decide (snapshotState d.snapshots snap = .gone)) then pure retry
  else do
    let _ ← onFarm (!faults 0) (mkdirs link.dropLast)
    let ok ← onFarm (!faults 1) (putLeaf link (.link clip.2))
    pure (if ok then retry else retry + 1)

/-- Link what a changed manifest lists (`backfill_gapfill_links`). -/
def backfillGapfillLinks (manifest : Option Text) (faults : Text → Nat → Bool) (ok : Bool) :
    Stoppable Device Unit Bool := do
  let d ← Stoppable.get
  if d.applied = manifest.getD [] then pure true
  else do
    let retry ← (backfillClips (loadGapfillStamps manifest) d.farm).foldlM
      (fun retry clip => backfillRecentLink (faults clip.1) retry clip) 0
    Stoppable.attempt fun d => if ok && decide (retry = 0) then some { d with applied := manifest.getD [] } else none

/-- A legacy link of an event in RecentClips that the manifest does not list. -/
def isEventLink (gapfill : List Text) (clip : Text × FarmTree) : Bool :=
  match clip.2 with
  | .leaf (.link target) =>
    !(clipStamp clip.1).any (fun stamp => decide (stamp ∈ gapfill))
      && (containsText "/SavedClips/".toList (normSlashes target) || containsText "/SentryClips/".toList (normSlashes target))
  | _ => false

/-- Remove an empty directory. -/
def dropDir (p : List Text) (t : FarmTree) : Option FarmTree :=
  alter (fun c => match c with
    | some (.dir []) => some none
    | _ => none) p t

/-- Remove the legacy event links of RecentClips, and the dates they leave empty (`purge_event_links_in`). -/
def purgeEventLinks (gapfill : List Text) (faults : Text → Bool) : Stoppable Device Unit Bool := do
  let d ← Stoppable.get
  match lookup [recentClips] d.farm with
  | some (.dir dates) =>
    dates.foldlM (fun _ date =>
      match date.2 with
      | .dir clips => do
        let _ ← (clips.filter (isEventLink gapfill)).foldlM
          (fun _ clip => onFarm (!faults clip.1) (dropLeaf [recentClips, date.1, clip.1])) true
        onFarm true (dropDir [recentClips, date.1])
      | .leaf _ => pure true) true
  | _ => pure true

/-- Whether a link of the farm points into a snapshot. -/
def hasExistingLinksInto (farm : FarmTree) (snap : Text) : Bool :=
  (leaves walkDepth [] farm).any fun found =>
    match found.2 with
    | .link target => containsText ('/' :: snap ++ ['/']) target
    | .file => false

/-- Link one committed snapshot that no link points into. -/
def rebuildSnapshotLinks (mount : Mount) (gapfill : List Text) (name : Text) : Stoppable Device Unit Bool := do
  let d ← Stoppable.get
  if !snapWord.isPrefixOf name || !committed d.snapshots name then pure false
  else do
    let _ ← onSlot mount.linkable name fun slot => { slot with mnt := true }
    if hasExistingLinksInto d.farm name || !mount.readable then pure false
    else do
      let linked ← Stoppable.caught (makeLinksForSnapshotMode mount name gapfill false)
      match linked with
      | .ok _ => recordLinked name
      | .error _ => recordFailed name

/-- Link every such snapshot, in the order the directory is read (`rebuild_all_snapshot_links`). -/
def rebuildAllSnapshotLinks (mounts : Text → Mount) (gapfill order : List Text) : Stoppable Device Unit Bool :=
  order.foldlM (fun _ name => rebuildSnapshotLinks (mounts name) gapfill name) true

/-! ## The capture -/

/-- Whether a listing adds a line to another; `none` is a listing that cannot be read. A reference that cannot be read
lists nothing. -/
def tocHasAdditions (old new : Option Text) : Option Bool :=
  new.map fun text => (lines text).any fun line => decide (line ≠ []) && decide (line ∉ lines (old.getD []))

/-- What a capture meets: the lock, the disk, the mounts, and how each file operation goes. -/
structure CaptureWorld where
  locked : Bool
  camDisk : Bool
  mounts : Text → Bool
  reuse : Removal
  mkdirOk : Bool
  image : Option Nat
  copied : Bool
  cleanup : Removal
  run : RunWorld
  tocStarted : Bool
  toc : Option (Option Text)
  tocDropOk : Bool
  backfill : Text → Nat → Bool
  appliedOk : Bool
  discardToc : Bool
  discardImage : Bool
  discard : Removal
  pendingOk : Bool
  renameOk : Bool
  mount : Mount
  unpendOk : Bool
  rebuild : Text → Mount
  order : List Text
  unflagOk : Bool
  purge : Text → Bool
  purgedOk : Bool

/-- Stop with an error. -/
def bail {α : Type} : Stoppable Device Unit α := Stoppable.lift (.error ())

/-- Make the directory of a slot; one that is there serves. Its failed passes are counted from here. -/
def createSlot (ok : Bool) (name : Text) : Stoppable Device Unit Bool :=
  Stoppable.attempt fun d =>
    if ok then
      match d.snapshots.get name with
      | none => some { d with
        snapshots := d.snapshots.insert name (.dir SlotDir.empty)
        failed := d.failed.filter fun n => decide (n ≠ name) }
      | some e => if e.slot?.isSome then some d else none
    else none

/-- Copy the disk into the slot. -/
def copyImage (w : CaptureWorld) (name : Text) : Stoppable Device Unit Bool := do
  let started ← onSlot w.image.isSome name fun slot => { slot with image := w.image }
  pure (started && w.copied)

/-- List the clips of the slot's image (`generate_toc`). -/
def generateToc (w : CaptureWorld) (name : Text) : Stoppable Device Unit Bool := do
  let _ ← onSlot w.tocStarted name fun slot => { slot with tocTmp := some none }
  onSlot (w.tocStarted && w.toc.isSome) name fun slot => { slot with tocTmp := w.toc }

/-- Whether the capture is new: it adds something to the listing before it, or there is none to compare with. -/
def isNewCapture (s : Snapshots) (prevToc : Option Text) (name : Text) : Bool :=
  match prevToc with
  | some prev => (tocHasAdditions (tocText s prev) ((slotAt s name).bind SlotDir.tocTmp).join).getD true
  | none => true

/-- Throw a capture away. -/
def discardCapture (w : CaptureWorld) (name : Text) : Stoppable Device Unit Bool := do
  let _ ← onSlot w.discardToc name fun slot => { slot with tocTmp := none }
  let _ ← onSlot w.discardImage name fun slot => { slot with image := none }
  removeSlot w.discard name

/-- Commit the table of contents. From here on the snapshot owes its links. -/
def commitToc (ok : Bool) (name : Text) : Stoppable Device Unit Bool :=
  Stoppable.attempt fun d =>
    if ok then
      (updateSlot d.snapshots name fun slot => { slot with toc := slot.tocTmp, tocTmp := none }).map fun s =>
        { d with snapshots := s, linked := d.linked.filter fun n => decide (n ≠ name) }
    else none

/-- Make the links of a snapshot just committed. -/
def linkCapture (w : CaptureWorld) (name : Text) : Stoppable Device Unit Bool := do
  let linked ← Stoppable.caught do
    ensureStableMntLink w.mount name
    makeLinksForSnapshotMode w.mount name (loadGapfillStamps w.run.manifest) false
  match linked with
  | .ok _ => do
    let _ ← recordLinked name
    onSlot w.unpendOk name fun slot => { slot with pending := none }
  | .error _ => recordFailed name

/-- Rebuild the farm when the flag is set. -/
def rebuildIfFlagged (w : CaptureWorld) : Stoppable Device Unit Bool := do
  let d ← Stoppable.get
  if d.rebuildFlag then do
    let _ ← rebuildAllSnapshotLinks w.rebuild (loadGapfillStamps w.run.manifest) w.order
    Stoppable.attempt fun d => if w.unflagOk then some { d with rebuildFlag := false } else none
  else pure true

/-- Purge legacy links once. -/
def purgeOnce (w : CaptureWorld) : Stoppable Device Unit Bool := do
  let d ← Stoppable.get
  if d.purged then pure true
  else do
    let _ ← purgeEventLinks (loadGapfillStamps w.run.manifest) w.purge
    Stoppable.attempt fun d => if w.purgedOk then some { d with purged := true } else none

/-- A capture that is new: its links are marked as owed, it is committed, and linked. -/
def keepCapture (w : CaptureWorld) (name : Text) : Stoppable Device Unit (Option Text) := do
  let owed ← onSlot w.pendingOk name fun slot => { slot with pending := some [] }
  if !owed then bail
  else do
    let done ← commitToc w.renameOk name
    if !done then bail
    else do
      let _ ← linkCapture w name
      let _ ← rebuildIfFlagged w
      let _ ← purgeOnce w
      pure (some name)

/-- A capture in its slot: it is listed and compared, the farm's backfill runs either way, and it is thrown away or
kept. -/
def finishCapture (w : CaptureWorld) (prevToc : Option Text) (name : Text) : Stoppable Device Unit (Option Text) := do
  let _ ← relinkPendingSnapshot w.run
  let listed ← generateToc w name
  if !listed then do
    let _ ← onSlot w.tocDropOk name fun slot => { slot with tocTmp := none }
    bail
  else do
    let d ← Stoppable.get
    let isNew := isNewCapture d.snapshots prevToc name
    let _ ← backfillGapfillLinks w.run.manifest w.backfill w.appliedOk
    if !isNew then do
      let _ ← discardCapture w name
      pure none
    else keepCapture w name

/-- Clear a slot that is reused. -/
def clearSlot (w : CaptureWorld) (choice : SlotChoice) : Stoppable Device Unit Bool :=
  if choice.reuse then removeSlot w.reuse (snapName choice.slot) else pure true

/-- Take a snapshot; `none` is a duplicate thrown away (`make_snapshot`). -/
def makeSnapshot (w : CaptureWorld) : Stoppable Device Unit (Option Text) := do
  Stoppable.check (w.locked && w.camDisk) ()
  let d ← Stoppable.get
  let choice := chooseSlot w.mounts d.snapshots
  let name := snapName choice.slot
  let _ ← clearSlot w choice
  let there ← createSlot w.mkdirOk name
  if !there then bail
  else do
    let copied ← copyImage w name
    if !copied then do
      let _ ← removeSlot w.cleanup name
      bail
    else finishCapture w choice.prevToc name

/-! ## What a capture leaves of the other slots -/

/-- The number of a slot's directory has 32 bits. -/
theorem maxSlot_lt {s : Snapshots} {n : Nat} (h : maxSlot s = some n) : n < 2 ^ 32 := by
  rcases highest_maxSlot s with ⟨hnone, -⟩ | ⟨k, hk, ⟨e, -, -, hnum⟩, -⟩
  · rw [h] at hnone
    simp at hnone
  · rw [Option.some.inj (h.symm.trans hk)]
    exact (slotNum_eq_some.mp hnum).2.2

/-- The snapshot a capture is compared with stands in another slot. -/
theorem prevToc_ne {mounts : Text → Bool} {s : Snapshots} {prev : Text}
    (h : (chooseSlot mounts s).prevToc = some prev) : prev ≠ snapName (chooseSlot mounts s).slot := by
  rcases chooseSlot_cases mounts s with ⟨-, hc⟩ | ⟨n, hmax, ⟨-, hc⟩ | ⟨-, -, -, -, hc⟩ | ⟨-, -, hc⟩⟩
  · rw [hc] at h
    simp at h
  · rw [hc] at h ⊢
    obtain rfl := Option.some.inj h
    intro heq
    have heq : n = slotAfter n := snapName_injective heq
    have hlt := maxSlot_lt hmax
    unfold slotAfter at heq
    omega
  · rw [hc] at h ⊢
    obtain ⟨hpos, -, rfl⟩ := backstop_eq_some.mp h
    intro heq
    have heq : n - 1 = n := snapName_injective heq
    omega
  · rw [hc] at h ⊢
    obtain ⟨hpos, -, rfl⟩ := backstop_eq_some.mp h
    intro heq
    have heq : n - 1 = slotAfter n := snapName_injective heq
    have hlt := maxSlot_lt hmax
    unfold slotAfter at heq
    omega

/-- The image and the table of contents of a slot are as given. -/
def CaptureIs (n : Text) (c : Option (Option Nat × Option (Option Text))) (d : Device) : Prop :=
  captureAt d.snapshots n = c

section

variable {n : Text} {c : Option (Option Nat × Option (Option Text))}

theorem captureIs_farmBlind : FarmBlind (CaptureIs n c) := fun _ _ h => h

theorem captureIs_markerBlind : MarkerBlind (CaptureIs n c) := fun _ _ hsame h => (hsame.captures n).trans h

theorem captureIs_of_get {d d' : Device} (h : CaptureIs n c d) (hget : d'.snapshots.get n = d.snapshots.get n) :
    CaptureIs n c d' := by
  unfold CaptureIs captureAt slotAt at h ⊢
  rw [hget]
  exact h

variable {name : Text} (hne : n ≠ name)

include hne

theorem onSlot_captureIs {ok : Bool} {f : SlotDir → SlotDir} :
    Stoppable.Keeps (CaptureIs n c) (onSlot ok name f : Stoppable Device Unit Bool) := by
  refine keeps_onSlot fun d s hd hs => ?_
  unfold CaptureIs captureAt at hd ⊢
  rw [slotAt_updateSlot hs, if_neg hne]
  exact hd

theorem removeSlot_captureIs (removal : Removal) : Stoppable.Keeps (CaptureIs n c) (removeSlot removal name) := by
  unfold removeSlot dropFile
  refine Stoppable.Keeps.bind (Stoppable.Keeps.foldlM _ fun _ file _ => Stoppable.Keeps.attempt fun d d' hd hd' => ?_)
    fun _ => Stoppable.Keeps.attempt fun d d' hd hd' => ?_
  · split at hd'
    · obtain rfl := Option.some.inj hd'
      exact captureIs_of_get hd (by rw [SortedMap.get_insert, if_neg hne])
    · simp at hd'
  · split at hd'
    · obtain ⟨s, hs, rfl⟩ := Option.map_eq_some_iff.mp hd'
      refine captureIs_of_get hd ?_
      have hget := get_removeDirAll d.snapshots name n hne
      rw [hs] at hget
      exact hget
    · simp at hd'

theorem createSlot_captureIs (ok : Bool) : Stoppable.Keeps (CaptureIs n c) (createSlot ok name) := by
  refine Stoppable.Keeps.attempt fun d d' hd hd' => ?_
  split at hd'
  · split at hd'
    · obtain rfl := Option.some.inj hd'
      exact captureIs_of_get hd (by rw [SortedMap.get_insert, if_neg hne])
    · split at hd'
      · obtain rfl := Option.some.inj hd'
        exact hd
      · simp at hd'
  · simp at hd'

end

/-- The backfill changes only the farm and the record of the manifest. -/
theorem backfill_keeps {I : Device → Prop} (hfarm : FarmBlind I) (happlied : ∀ d text, I d → I { d with applied := text })
    (manifest : Option Text) (faults : Text → Nat → Bool) (ok : Bool) :
    Stoppable.Keeps I (backfillGapfillLinks manifest faults ok) := by
  unfold backfillGapfillLinks
  refine Stoppable.Keeps.get.bind fun d => ?_
  split
  · exact Stoppable.Keeps.pure _
  · refine Stoppable.Keeps.bind (Stoppable.Keeps.foldlM _ fun retry clip _ => ?_) fun retry =>
      Stoppable.Keeps.attempt fun d d' hd hd' => ?_
    · unfold backfillRecentLink
      refine Stoppable.Keeps.get.bind fun d => ?_
      dsimp only
      split
      · exact Stoppable.Keeps.pure _
      · refine Stoppable.Keeps.bind ?_ fun _ => Stoppable.Keeps.bind ?_ fun _ => Stoppable.Keeps.pure _
        · exact keeps_onFarm fun d t hd _ => hfarm d t hd
        · exact keeps_onFarm fun d t hd _ => hfarm d t hd
    · split at hd'
      · obtain rfl := Option.some.inj hd'
        exact happlied d _ hd
      · simp at hd'

/-! ## The contract of a capture -/

/-- **A capture is thrown away only if another image is kept that lists every line of it.** -/
def DiscardSafe (mounts : Text → Bool) (removes : Bool) (s : Snapshots) : Prop :=
  ∀ (w : CaptureWorld) (d : Device), w.mounts = mounts → w.reuse.done = removes → d.snapshots = s →
    (makeSnapshot w).result d = .ok none → ∃ text, w.toc = some (some text) ∧
      ∀ line ∈ lines text, line ≠ [] → ∃ kept toc, hasImage ((makeSnapshot w).final d).snapshots kept = true
        ∧ tocText ((makeSnapshot w).final d).snapshots kept = some toc ∧ line ∈ lines toc

/-- **What taking a snapshot is expected to do**: choose its slot safely, and throw away no only copy. -/
structure CaptureContract (mounts : Text → Bool) (removes : Bool) (s : Snapshots) : Prop where
  slot : SlotContract mounts removes s
  discard : DiscardSafe mounts removes s

/-- A capture that is not new adds no line to the listing it is compared with. -/
theorem isNewCapture_eq_false {s : Snapshots} {prevToc : Option Text} {name : Text}
    (h : isNewCapture s prevToc name = false) : ∃ prev text, prevToc = some prev
      ∧ (slotAt s name).bind SlotDir.tocTmp = some (some text)
      ∧ ∀ line ∈ lines text, line ≠ [] → line ∈ lines ((tocText s prev).getD []) := by
  unfold isNewCapture at h
  cases prevToc with
  | none => simp at h
  | some prev =>
    dsimp only at h
    cases htmp : (slotAt s name).bind SlotDir.tocTmp with
    | none =>
      rw [htmp] at h
      simp [tocHasAdditions] at h
    | some toc =>
      cases toc with
      | none =>
        rw [htmp] at h
        simp [tocHasAdditions] at h
      | some text =>
        refine ⟨prev, text, rfl, rfl, fun line hline hne => ?_⟩
        rw [htmp, tocHasAdditions, Option.join_some, Option.map_some, Option.getD_some, List.any_eq_false] at h
        have hnot := h line hline
        by_contra hmem
        exact hnot (by simp [hne, hmem])

/-- What a listing leaves when it succeeds. -/
theorem generateToc_listed {I : Device → Prop} (w : CaptureWorld) (name : Text)
    (hI : ∀ {ok : Bool} {f : SlotDir → SlotDir}, Stoppable.Keeps I (onSlot ok name f : Stoppable Device Unit Bool)) :
    Stoppable.Triple (fun _ => True) I (generateToc w name)
      fun r d => I d ∧ (r = .ok true → (slotAt d.snapshots name).bind SlotDir.tocTmp = w.toc) := by
  unfold generateToc
  refine Stoppable.Triple.bind (Q := fun _ d => I d) hI.ends (fun _ d hd => ⟨fun _ _ => trivial, ?_⟩)
    fun _ _ hd => ⟨hd, fun h => by simp at h⟩
  refine ⟨(hI.ends d hd).2, fun hok => ?_⟩
  have hlast : Stoppable.Triple (fun _ => True) (fun _ => True)
      (onSlot (w.tocStarted && w.toc.isSome) name (fun slot => { slot with tocTmp := w.toc }) : Stoppable Device Unit Bool)
      fun r d => r = .ok true → (slotAt d.snapshots name).bind SlotDir.tocTmp = w.toc := by
    refine triple_onSlot (fun _ _ => trivial) (fun _ _ h => by simp at h) fun d s _ hs => ⟨trivial, fun _ => ?_⟩
    obtain ⟨slot, hslot⟩ := exists_slotAt_of_updateSlot hs
    show (slotAt s name).bind SlotDir.tocTmp = w.toc
    rw [slotAt_updateSlot hs, if_pos rfl, hslot]
    rfl
  exact (hlast d trivial).2 hok

/-- A capture that is kept is no duplicate. -/
theorem keepCapture_ne_none (w : CaptureWorld) (name : Text) :
    Stoppable.Triple (fun _ => True) (fun _ => True) (keepCapture w name) fun r _ => r ≠ .ok none := by
  have hany : ∀ {α : Type} (x : Stoppable Device Unit α),
      Stoppable.Triple (fun _ => True) (fun _ => True) x fun _ _ => True := fun x d _ => ⟨fun _ _ => trivial, trivial⟩
  have hbail : Stoppable.Triple (fun _ => True) (fun _ => True) (bail : Stoppable Device Unit (Option Text))
      fun r _ => r ≠ .ok none := Stoppable.Triple.lift fun d _ => ⟨trivial, by simp⟩
  unfold keepCapture
  refine Stoppable.Triple.bind (hany _) (fun owed => ?_) fun _ _ _ => by simp
  split
  · exact hbail
  · refine Stoppable.Triple.bind (hany _) (fun done => ?_) fun _ _ _ => by simp
    split
    · exact hbail
    · refine Stoppable.Triple.bind (hany _) (fun _ => Stoppable.Triple.bind (hany _) (fun _ => Stoppable.Triple.bind (hany _)
        (fun _ => ?_) fun _ _ _ => by simp) fun _ _ _ => by simp) fun _ _ _ => by simp
      exact Stoppable.Triple.pure fun d _ => ⟨trivial, by simp⟩

/-- The snapshot a capture is compared with, if any, is as it was. -/
def PrevIs (prevToc : Option Text) (s : Snapshots) (d : Device) : Prop :=
  ∀ n, prevToc = some n → CaptureIs n (captureAt s n) d

/-- A capture thrown away: it was compared with a snapshot that is as before, and adds nothing to its listing. -/
def Discarded (w : CaptureWorld) (prevToc : Option Text) (s : Snapshots) (d : Device) : Prop :=
  ∃ prev text, prevToc = some prev ∧ w.toc = some (some text) ∧ captureAt d.snapshots prev = captureAt s prev
    ∧ ∀ line ∈ lines text, line ≠ [] → line ∈ lines ((tocText s prev).getD [])

/-- The text of a table of contents, from the image and the table of a slot. -/
theorem tocText_of_captureAt {s s' : Snapshots} {n : Text} (h : captureAt s n = captureAt s' n) :
    tocText s n = tocText s' n ∧ hasImage s n = hasImage s' n := by
  unfold captureAt at h
  unfold tocText hasImage
  cases hs : slotAt s n with
  | none =>
    cases hs' : slotAt s' n with
    | none => exact ⟨rfl, rfl⟩
    | some slot' => rw [hs, hs'] at h; simp at h
  | some slot =>
    cases hs' : slotAt s' n with
    | none => rw [hs, hs'] at h; simp at h
    | some slot' =>
      rw [hs, hs', Option.map_some, Option.map_some] at h
      obtain ⟨himage, htoc⟩ := Prod.mk.inj (Option.some.inj h)
      rw [Option.bind_some, Option.bind_some, Option.bind_some, Option.bind_some, himage, htoc]
      exact ⟨rfl, rfl⟩

section

variable {prevToc : Option Text} {name : Text} {s : Snapshots}

theorem prevIs_keeps {α : Type} {x : Stoppable Device Unit α}
    (h : ∀ n, prevToc = some n → Stoppable.Keeps (CaptureIs n (captureAt s n)) x) :
    Stoppable.Keeps (PrevIs prevToc s) x :=
  fun d hd t ht n hn => h n hn d (hd n hn) t ht

theorem finishCapture_discarded (w : CaptureWorld) (hname : ∀ n, prevToc = some n → n ≠ name) :
    Stoppable.Triple (fun _ => True) (PrevIs prevToc s) (finishCapture w prevToc name)
      fun r d => r = .ok none → Discarded w prevToc s d := by
  have hslot : ∀ {ok : Bool} {f : SlotDir → SlotDir},
      Stoppable.Keeps (PrevIs prevToc s) (onSlot ok name f : Stoppable Device Unit Bool) :=
    prevIs_keeps fun n hn => onSlot_captureIs (hname n hn)
  have hany : ∀ {α : Type} {P : Device → Prop} (x : Stoppable Device Unit α),
      Stoppable.Triple (fun _ => True) P x fun _ _ => True := fun x d _ => ⟨fun _ _ => trivial, trivial⟩
  unfold finishCapture
  refine Stoppable.Triple.bind (Stoppable.Keeps.ends (prevIs_keeps fun n hn =>
    relinkPendingSnapshot_keeps captureIs_markerBlind captureIs_farmBlind w.run)) (fun _ => ?_) fun _ _ _ h => by simp at h
  refine Stoppable.Triple.bind (generateToc_listed w name hslot) (fun listed => ?_) fun _ _ _ h => by simp at h
  split
  · exact Stoppable.Triple.bind (hany _) (fun _ => Stoppable.Triple.lift fun d _ => ⟨trivial, fun h => by simp at h⟩)
      fun _ _ _ h => by simp at h
  · rename_i hlisted
    refine Stoppable.Triple.bind (Q := fun r d => PrevIs prevToc s d ∧ (slotAt d.snapshots name).bind SlotDir.tocTmp = w.toc
        ∧ r = .ok d) (Stoppable.Triple.get fun d hd => ⟨trivial, hd.1, hd.2 ?_, rfl⟩) (fun d => ?_) fun _ _ _ h => by simp at h
    · cases listed with
      | true => rfl
      | false => simp at hlisted
    · dsimp only
      -- what the comparison read is still so when the capture is thrown away
      refine Stoppable.Triple.bind (Q := fun _ d' => PrevIs prevToc s d' ∧ PrevIs prevToc s d
        ∧ (slotAt d.snapshots name).bind SlotDir.tocTmp = w.toc) ?_ (fun _ => ?_) fun _ _ _ h => by simp at h
      · intro d' hd'
        obtain ⟨hprev, htmp, heq⟩ := hd'
        obtain rfl := Except.ok.inj heq
        exact ⟨fun _ _ => trivial, (Stoppable.Keeps.ends (prevIs_keeps fun n hn => backfill_keeps captureIs_farmBlind
          (fun _ _ h => h) _ _ _) d hprev).2, hprev, htmp⟩
      · split
        · rename_i hdup
          refine Stoppable.Triple.bind (Q := fun _ d' => PrevIs prevToc s d' ∧ PrevIs prevToc s d
            ∧ (slotAt d.snapshots name).bind SlotDir.tocTmp = w.toc) ?_ (fun _ => ?_) fun _ _ _ h => by simp at h
          · intro d' hd'
            refine ⟨fun _ _ => trivial, ?_, hd'.2⟩
            refine (Stoppable.Keeps.ends (Stoppable.Keeps.bind hslot fun _ => Stoppable.Keeps.bind hslot fun _ => ?_) d' hd'.1).2
            exact prevIs_keeps fun n hn => removeSlot_captureIs (hname n hn) w.discard
          · refine Stoppable.Triple.pure fun d' hd' => ⟨trivial, fun _ => ?_⟩
            obtain ⟨prev, text, hprev, htext, hlines⟩ := isNewCapture_eq_false (by simpa using hdup)
            have hthen := hd'.2.1 prev hprev
            refine ⟨prev, text, hprev, hd'.2.2.symm.trans htext, hd'.1 prev hprev, fun line hline hne => ?_⟩
            rw [← (tocText_of_captureAt hthen).1]
            exact hlines line hline hne
        · exact (keepCapture_ne_none w name).conseq (fun _ _ => trivial) fun r d hr h => absurd h hr

/-- **A capture thrown away adds nothing to the snapshot it was compared with, which is as before.** -/
theorem makeSnapshot_discarded (w : CaptureWorld) (d : Device) (h : (makeSnapshot w).result d = .ok none) :
    Discarded w (chooseSlot w.mounts d.snapshots).prevToc d.snapshots ((makeSnapshot w).final d) := by
  set choice := chooseSlot w.mounts d.snapshots with hchoice
  have hname : ∀ n, choice.prevToc = some n → n ≠ snapName choice.slot := fun n hn => prevToc_ne hn
  have hany : ∀ {α : Type} {P : Device → Prop} (x : Stoppable Device Unit α),
      Stoppable.Triple (fun _ => True) P x fun _ _ => True := fun x d _ => ⟨fun _ _ => trivial, trivial⟩
  have htriple : Stoppable.Triple (fun _ => True) (fun d' => d' = d) (makeSnapshot w)
      fun r d' => r = .ok none → Discarded w choice.prevToc d.snapshots d' := by
    unfold makeSnapshot
    refine Stoppable.Triple.bind (Q := fun _ d' => d' = d) (Stoppable.Triple.lift fun d' hd' => ⟨trivial, hd'⟩) (fun _ => ?_)
      fun _ _ _ h => by simp at h
    refine Stoppable.Triple.bind (Q := fun r d' => d' = d ∧ r = .ok d)
      (Stoppable.Triple.get fun d' hd' => ⟨trivial, hd', by rw [hd']⟩) (fun d' => ?_) fun _ _ _ h => by simp at h
    intro d'' hd''
    obtain ⟨rfl, heq⟩ := hd''
    obtain rfl := Except.ok.inj heq
    have hstart : PrevIs choice.prevToc d'.snapshots d' := fun n _ => rfl
    refine Stoppable.Triple.bind (P := PrevIs choice.prevToc d'.snapshots) (Q := fun _ d => PrevIs choice.prevToc d'.snapshots d)
      (R := fun r d'' => r = .ok none → Discarded w choice.prevToc d'.snapshots d'') (Stoppable.Keeps.ends ?_) (fun _ => ?_)
      (fun _ _ _ h => by simp at h) d' hstart
    · unfold clearSlot
      split
      · exact prevIs_keeps fun n hn => removeSlot_captureIs (hname n hn) w.reuse
      · exact Stoppable.Keeps.pure _
    refine Stoppable.Triple.bind (Stoppable.Keeps.ends (prevIs_keeps fun n hn => createSlot_captureIs (hname n hn) w.mkdirOk))
      (fun there => ?_) fun _ _ _ h => by simp at h
    split
    · exact Stoppable.Triple.lift fun d _ => ⟨trivial, fun h => by simp at h⟩
    refine Stoppable.Triple.bind (Stoppable.Keeps.ends (prevIs_keeps fun n hn =>
      (onSlot_captureIs (hname n hn)).bind fun _ => Stoppable.Keeps.pure _)) (fun copied => ?_) fun _ _ _ h => by simp at h
    split
    · exact Stoppable.Triple.bind (hany _) (fun _ => Stoppable.Triple.lift fun d _ => ⟨trivial, fun h => by simp at h⟩)
        fun _ _ _ h => by simp at h
    · exact finishCapture_discarded w hname
  exact (htriple d rfl).2 h

end

/-- Where the chosen listing belongs to an image, no only copy is thrown away. -/
theorem discardSafe_of_backstopped {mounts : Text → Bool} {removes : Bool} {s : Snapshots} (h : Backstopped s) :
    DiscardSafe mounts removes s := by
  intro w d hmounts hremoves hs hnone
  subst hmounts
  subst hs
  obtain ⟨prev, text, hprev, htoc, hsame, hlines⟩ := makeSnapshot_discarded w d hnone
  obtain ⟨htext, himage⟩ := tocText_of_captureAt hsame
  -- the listing compared with has its image, before the capture and so after it
  have hbacked : committed d.snapshots prev = true := by
    have hpick : committed (pickNextSnapshotSlotWith w.mounts false d.snapshots).1 prev = true :=
      pick_backed_iff.mpr h prev hprev
    rw [committed_pick (prevToc_ne hprev)] at hpick
    exact hpick
  rw [committed, Bool.and_eq_true] at hbacked
  refine ⟨text, htoc, fun line hline hne => ⟨prev, (tocText d.snapshots prev).getD [], ?_, ?_, hlines line hline hne⟩⟩
  · rw [himage]
    exact hbacked.1
  · rw [htext]
    cases hlisted : tocText d.snapshots prev with
    | some toc => rfl
    | none =>
      -- a table that cannot be read lists nothing
      have hmem := hlines line hline hne
      rw [hlisted] at hmem
      exact absurd hmem List.not_mem_nil

/-- **Taking a snapshot does what is expected of it exactly when the next slot is free and, below an incomplete highest
slot, a table of contents comes with its image.** -/
theorem captureContract_iff {mounts : Text → Bool} {removes : Bool} {s : Snapshots} :
    CaptureContract mounts removes s ↔ NextSlotFree mounts removes s ∧ Backstopped s := by
  constructor
  · intro h
    exact slotContract_iff.mp h.slot
  · intro h
    exact ⟨slotContract_iff.mpr h, discardSafe_of_backstopped h.2⟩

/-- A mount that cannot be read. -/
def noMount : Mount := ⟨false, false, fun _ => ⟨[], 0⟩, fun _ => false⟩

/-- A run in which no marker operation succeeds. -/
def noRun : RunWorld := ⟨⟨fun _ => false, fun _ => false, false⟩, false, none, fun _ => ⟨noMount, false, false, false, 0, 0⟩⟩

/-- A capture that lists the given text, in a world without mounts where every other file operation works. -/
def captureOf (toc : Text) : CaptureWorld where
  locked := true
  camDisk := true
  mounts _ := false
  reuse := ⟨[], true⟩
  mkdirOk := true
  image := some 1
  copied := true
  cleanup := ⟨[], true⟩
  run := noRun
  tocStarted := true
  toc := some (some toc)
  tocDropOk := true
  backfill _ _ := false
  appliedOk := true
  discardToc := true
  discardImage := true
  discard := ⟨[], true⟩
  pendingOk := true
  renameOk := true
  mount := noMount
  unpendOk := true
  rebuild _ := noMount
  order := []
  unflagOk := true
  purge _ := false
  purgedOk := true

/-- A listing of one clip. -/
def oneClip : Text := ['7', ' ', 'a']

/-- A device with these snapshots and this farm, on which nothing has happened since the boot's marking. -/
def deviceOf (snapshots : Snapshots) (farm : FarmTree) : Device where
  snapshots := snapshots
  farm := farm
  rebuildFlag := false
  purged := true
  applied := []
  bootMarked := true
  failedThisBoot := []
  linked := []
  failed := []

/-- The slot below the highest lists the clip but has lost its image; the highest has an image but no listing. -/
def tocOnlyBelow : Device :=
  deviceOf ((SortedMap.empty.insert (snapName 10) (.dir { SlotDir.empty with toc := some (some oneClip) })).insert
    (snapName 11) (.dir { SlotDir.empty with image := some 0 })) (.dir [])

/-- **A capture is thrown away though no snapshot with an image lists its clip.** -/
theorem discard_without_image :
    ¬ CaptureContract (fun _ => false) true tocOnlyBelow.snapshots
      ∧ (makeSnapshot (captureOf oneClip)).result tocOnlyBelow = .ok none
      ∧ committedSnapshotsNewestFirst ((makeSnapshot (captureOf oneClip)).final tocOnlyBelow).snapshots = [] := by
  have hresult : (makeSnapshot (captureOf oneClip)).result tocOnlyBelow = .ok none := by decide +kernel
  refine ⟨fun h => ?_, hresult, by decide +kernel⟩
  obtain ⟨text, htext, hkept⟩ := h.discard (captureOf oneClip) tocOnlyBelow rfl rfl rfl hresult
  obtain rfl : oneClip = text := Option.some.inj (Option.some.inj htext)
  obtain ⟨kept, toc, himage, htoc, -⟩ := hkept oneClip (by decide +kernel) (by decide)
  -- each slot left has an image or a listing, not both
  have hnone : ∀ e ∈ ((makeSnapshot (captureOf oneClip)).final tocOnlyBelow).snapshots.entries,
      (e.2.slot?.bind SlotDir.image).isSome = true → (e.2.slot?.bind SlotDir.toc).join = none := by decide +kernel
  unfold hasImage slotAt at himage
  unfold tocText slotAt at htoc
  cases hget : ((makeSnapshot (captureOf oneClip)).final tocOnlyBelow).snapshots.get kept with
  | none =>
    rw [hget] at himage
    simp at himage
  | some e =>
    rw [hget] at himage htoc
    rw [Option.bind_some] at himage htoc
    rw [hnone _ (SortedMap.mem_entries.mpr hget) himage] at htoc
    simp at htoc

end SentryUsb.Snapshot
