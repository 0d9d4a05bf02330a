import SentryUsb.Library.Stoppable
import SentryUsb.Snapshot.Release

/-! # Linking a snapshot

The clips of a committed snapshot are linked into the TeslaCam farm by a pass over its mount. A pass counts its
failures; it completes when there are none. `fill_only` passes leave the links that are there alone
(`Linker`, `make_links_for_snapshot_mode`).

* **`Device`** — the state snapshot bookkeeping works on;
* **`linkOps`** — the operations of a pass, in order, **`Linker.perform`** — one of them,
  **`makeLinksForSnapshotMode`** — the pass;
* **`fillOnly_keeps_links`** — a pass that only fills in changes no link, wherever it is stopped. -/

namespace SentryUsb.Snapshot

open Library FileTree

/-! ## The device -/

/-- The snapshots, the farm and the markers outside them. `linked` and `failed` are not stored anywhere: they record
which snapshots completed a pass since their commit, and every failed pass since. -/
structure Device where
  snapshots : Snapshots
  farm : FarmTree
  rebuildFlag : Bool
  purged : Bool
  applied : Text
  bootMarked : Bool
  failedThisBoot : Text
  linked : List Text
  failed : List Text

/-- Change the directory of a slot, also through a link. -/
def updateSlot (s : Snapshots) (name : Text) (f : SlotDir → SlotDir) : Option Snapshots :=
  match s.get name with
  | some (.dir slot) => some (s.insert name (.dir (f slot)))
  | some (.link (some slot)) => some (s.insert name (.link (some (f slot))))
  | _ => none

/-- One operation on a file of a slot's directory; `ok` says whether it succeeds. -/
def onSlot {ε : Type} (ok : Bool) (name : Text) (f : SlotDir → SlotDir) : Stoppable Device ε Bool :=
  Stoppable.attempt fun d =>
    if ok then (updateSlot d.snapshots name f).map fun s => { d with snapshots := s } else none

/-- One operation on the farm. -/
def onFarm {ε : Type} (ok : Bool) (f : FarmTree → Option FarmTree) : Stoppable Device ε Bool :=
  Stoppable.attempt fun d => if ok then (f d.farm).map fun t => { d with farm := t } else none

theorem slotAt_updateSlot {s s' : Snapshots} {name : Text} {f : SlotDir → SlotDir}
    (h : updateSlot s name f = some s') (n : Text) :
    slotAt s' n = if n = name then (slotAt s name).map f else slotAt s n := by
  unfold updateSlot at h
  split at h
  · rename_i slot hget
    obtain rfl := Option.some.inj h
    unfold slotAt
    rw [SortedMap.get_insert]
    by_cases hn : n = name
    · rw [if_pos hn, if_pos hn, hget]
      rfl
    · rw [if_neg hn, if_neg hn]
  · rename_i slot hget
    obtain rfl := Option.some.inj h
    unfold slotAt
    rw [SortedMap.get_insert]
    by_cases hn : n = name
    · rw [if_pos hn, if_pos hn, hget]
      rfl
    · rw [if_neg hn, if_neg hn]
  · simp at h

/-- Only a directory that is there is changed. -/
theorem exists_slotAt_of_updateSlot {s s' : Snapshots} {name : Text} {f : SlotDir → SlotDir}
    (h : updateSlot s name f = some s') : ∃ slot, slotAt s name = some slot := by
  unfold updateSlot at h
  split at h
  · rename_i slot hget
    exact ⟨slot, by rw [slotAt, hget]; rfl⟩
  · rename_i slot hget
    exact ⟨slot, by rw [slotAt, hget]; rfl⟩
  · simp at h

/-! ## Clip names -/

/-- The text of a path below a mount. -/
def joinPath (parts : List Text) : Text := ['/'].intercalate parts

def teslaCam : Text := "TeslaCam".toList

def recentClips : Text := "RecentClips".toList

def savedClips : Text := "SavedClips".toList

def sentryClips : Text := "SentryClips".toList

def teslaTrackMode : Text := "TeslaTrackMode".toList

/-- A clip's name that starts with its date. -/
def looksLikeDatedClip (name : Text) : Bool :=
  (digitsAt name 0 4).isSome && decide (name[4]? = some '-') && (digitsAt name 5 2).isSome
    && decide (name[7]? = some '-') && (digitsAt name 8 2).isSome

/-- The minute all cameras of a clip share. -/
def clipStamp (name : Text) : Option Text :=
  if decide (19 ≤ name.length) && looksLikeDatedClip name then some (name.take 19) else none

/-- The timestamps of a gap-fill manifest; one that cannot be read has none. -/
def loadGapfillStamps (manifest : Option Text) : List Text :=
  match manifest with
  | some text => ((lines text).map trim).filter fun line => decide (line ≠ [])
  | none => []

/-! ## The operations of a pass -/

/-- A name in a mounted snapshot; whether it is a directory may not be readable. -/
structure MountEntry where
  name : Text
  isDir : Option Bool

/-- A directory of a mounted snapshot: its entries, and how many reads failed. A missing one has neither. -/
structure MountListing where
  entries : List MountEntry
  errors : Nat

/-- What a pass meets: whether the stable link can be made, whether the image mounts, what it holds, and which of the
pass's operations on the farm fail. -/
structure Mount where
  linkable : Bool
  readable : Bool
  list : List Text → MountListing
  faults : Nat → Bool

/-- An operation of a pass: make directories, place a link, or count a failed read. -/
inductive LinkOp where
  | dir (path : List Text)
  | place (target : Text) (link : List Text)
  | fail

/-- The operations for the entries of a directory, a failed read counted each time (`Linker::entries`). -/
def overEntries (listing : MountListing) (f : MountEntry → List LinkOp) : List LinkOp :=
  List.replicate listing.errors .fail ++ listing.entries.flatMap f

/-- A dated link in RecentClips. -/
def recentLink (target name : Text) : List LinkOp :=
  [.dir [recentClips, name.take 10], .place target [recentClips, name.take 10, name]]

/-- Date-bucket a flat RecentClips file (`link_clip_into_recents`). -/
def linkClipIntoRecents (snap : Text) (file : MountEntry) : List LinkOp :=
  if looksLikeDatedClip file.name then
    recentLink (Form.stable.target snap (joinPath [teslaCam, recentClips, file.name])) file.name
  else []

/-- Link an event's clip into RecentClips when the manifest lists it (`maybe_gapfill_recent_link`). -/
def maybeGapfillRecentLink (target name : Text) (gapfill : List Text) : List LinkOp :=
  match clipStamp name with
  | some stamp => if decide (stamp ∈ gapfill) then recentLink target name else []
  | none => []

/-- One event folder of SavedClips or SentryClips. -/
def linkEvent (mount : Mount) (snap root : Text) (gapfill : List Text) (evt : MountEntry) : List LinkOp :=
  match evt.isDir with
  | none => [.fail]
  | some false => []
  | some true =>
    .dir [root, evt.name] :: overEntries (mount.list [teslaCam, root, evt.name]) fun clip =>
      let target := Form.stable.target snap (joinPath [teslaCam, root, evt.name, clip.name])
      .place target [root, evt.name, clip.name] :: maybeGapfillRecentLink target clip.name gapfill

/-- The flat TrackMode files, with their original mount target. -/
def linkTrackMode (mount : Mount) (snap : Text) : List LinkOp :=
  let listing := mount.list [teslaTrackMode]
  List.replicate listing.errors .fail
    ++ (if listing.entries.isEmpty then [] else [.dir [teslaTrackMode]])
    ++ listing.entries.map fun entry =>
        .place (Form.autofs.target snap (joinPath [teslaTrackMode, entry.name])) [teslaTrackMode, entry.name]

/-- The operations of a pass, in order. -/
def linkOps (mount : Mount) (snap : Text) (gapfill : List Text) : List LinkOp :=
  [.dir [savedClips], .dir [sentryClips]]
    ++ overEntries (mount.list [teslaCam, recentClips]) (linkClipIntoRecents snap)
    ++ [savedClips, sentryClips].flatMap (fun root =>
        overEntries (mount.list [teslaCam, root]) (linkEvent mount snap root gapfill))
    ++ linkTrackMode mount snap

/-! ## The pass -/

/-- A pass under way; `clock` counts its operations on the farm. -/
structure Linker where
  fillOnly : Bool
  failures : Nat
  made : Nat
  clock : Nat

namespace Linker

variable {ε : Type} (faults : Nat → Bool) (l : Linker)

/-- Make directories, or count a failure. -/
def dir (path : List Text) : Stoppable Device ε Linker := do
  let ok ← onFarm (!faults l.clock) (mkdirs path)
  pure { l with failures := if ok then l.failures else l.failures + 1, clock := l.clock + 1 }

/-- Replace what stands at a path by a link, or count a failure. A pass that only fills in passes over what is there. -/
def place (target : Text) (link : List Text) : Stoppable Device ε Linker := do
  let d ← Stoppable.get
  if l.fillOnly && (lookup link d.farm).isSome then pure l
  else do
    let _ ← onFarm (!faults l.clock) (dropLeaf link)
    let ok ← onFarm (!faults (l.clock + 1)) (putLeaf link (.link target))
    pure { l with
      failures := if ok then l.failures else l.failures + 1
      made := if ok then l.made + 1 else l.made
      clock := l.clock + 2 }

/-- One operation. -/
def perform : LinkOp → Stoppable Device ε Linker
  | .dir path => l.dir faults path
  | .place target link => l.place faults target link
  | .fail => pure { l with failures := l.failures + 1 }

end Linker

/-- A pass over a mounted snapshot, with the number of links made; any failure fails it. -/
def makeLinksForSnapshotMode (mount : Mount) (snap : Text) (gapfill : List Text) (fillOnly : Bool) :
    Stoppable Device Unit Nat := do
  let l ← (linkOps mount snap gapfill).foldlM (fun l op => Linker.perform mount.faults l op) ⟨fillOnly, 0, 0, 0⟩
  if 0 < l.failures then Stoppable.lift (.error ()) else pure l.made

/-- The stable link of a slot's directory, made where it is missing (`ensure_stable_mnt_link`). -/
def ensureStableMntLink (mount : Mount) (snap : Text) : Stoppable Device Unit Unit := do
  let d ← Stoppable.get
  if ((slotAt d.snapshots snap).map SlotDir.mnt).getD false then pure ()
  else do
    let ok ← onSlot mount.linkable snap fun slot => { slot with mnt := true }
    if ok then pure () else Stoppable.lift (.error ())

/-! ## What a pass changes -/

/-- Every link that was there still is. -/
def KeepsLinks (d₀ d : Device) : Prop := ∀ p target, linkAt p d₀.farm = some target → linkAt p d.farm = some target

section

variable {ε : Type} {C P : Device → Prop}

/-- An operation on the farm: what holds if it does not happen, and if it does. -/
theorem triple_onFarm {ok : Bool} {f : FarmTree → Option FarmTree} {Q : Except ε Bool → Device → Prop}
    (hC : ∀ d, P d → C d) (hfails : ∀ d, P d → Q (.ok false) d)
    (hworks : ∀ d t, P d → f d.farm = some t → C { d with farm := t } ∧ Q (.ok true) { d with farm := t }) :
    Stoppable.Triple C P (onFarm ok f : Stoppable Device ε Bool) Q := by
  refine Stoppable.Triple.attempt hC (fun d hd _ => hfails d hd) fun d d' hd hd' => ?_
  split at hd'
  · obtain ⟨t, ht, rfl⟩ := Option.map_eq_some_iff.mp hd'
    exact hworks d t hd ht
  · simp at hd'

/-- An operation on a slot's directory: what holds if it does not happen, and if it does. -/
theorem triple_onSlot {ok : Bool} {name : Text} {f : SlotDir → SlotDir} {Q : Except ε Bool → Device → Prop}
    (hC : ∀ d, P d → C d) (hfails : ∀ d, P d → Q (.ok false) d)
    (hworks : ∀ d s, P d → updateSlot d.snapshots name f = some s →
      C { d with snapshots := s } ∧ Q (.ok true) { d with snapshots := s }) :
    Stoppable.Triple C P (onSlot ok name f : Stoppable Device ε Bool) Q := by
  refine Stoppable.Triple.attempt hC (fun d hd _ => hfails d hd) fun d d' hd hd' => ?_
  split at hd'
  · obtain ⟨s, hs, rfl⟩ := Option.map_eq_some_iff.mp hd'
    exact hworks d s hd hs
  · simp at hd'

theorem keeps_onFarm {I : Device → Prop} {ok : Bool} {f : FarmTree → Option FarmTree}
    (h : ∀ d t, I d → f d.farm = some t → I { d with farm := t }) :
    Stoppable.Keeps I (onFarm ok f : Stoppable Device ε Bool) :=
  Stoppable.Keeps.of_triple (triple_onFarm (Q := fun _ d => I d) (fun _ hd => hd) (fun _ hd => hd) fun d t hd ht =>
    ⟨h d t hd ht, h d t hd ht⟩)

theorem keeps_onSlot {I : Device → Prop} {ok : Bool} {name : Text} {f : SlotDir → SlotDir}
    (h : ∀ d s, I d → updateSlot d.snapshots name f = some s → I { d with snapshots := s }) :
    Stoppable.Keeps I (onSlot ok name f : Stoppable Device ε Bool) :=
  Stoppable.Keeps.of_triple (triple_onSlot (Q := fun _ d => I d) (fun _ hd => hd) (fun _ hd => hd) fun d s hd hs =>
    ⟨h d s hd hs, h d s hd hs⟩)

/-- An invariant that does not depend on the farm. -/
def FarmBlind (I : Device → Prop) : Prop := ∀ d t, I d → I { d with farm := t }

/-- An operation of a pass changes only the farm. -/
theorem perform_keeps {I : Device → Prop} (hI : FarmBlind I) (faults : Nat → Bool) (l : Linker) (op : LinkOp) :
    Stoppable.Keeps I (l.perform faults op : Stoppable Device ε Linker) := by
  have hfarm : ∀ (ok : Bool) (f : FarmTree → Option FarmTree),
      Stoppable.Keeps I (onFarm ok f : Stoppable Device ε Bool) := fun ok f => keeps_onFarm fun d t hd _ => hI d t hd
  cases op with
  | dir path => exact (hfarm _ _).bind fun _ => Stoppable.Keeps.pure _
  | place target link =>
    refine Stoppable.Keeps.get.bind fun d => ?_
    split
    · exact Stoppable.Keeps.pure l
    · exact (hfarm _ _).bind fun _ => (hfarm _ _).bind fun _ => Stoppable.Keeps.pure _
  | fail => exact Stoppable.Keeps.pure _

/-- A pass changes only the farm. -/
theorem makeLinks_keeps {I : Device → Prop} (hI : FarmBlind I) (mount : Mount) (snap : Text) (gapfill : List Text)
    (fillOnly : Bool) : Stoppable.Keeps I (makeLinksForSnapshotMode mount snap gapfill fillOnly) := by
  unfold makeLinksForSnapshotMode
  refine (Stoppable.Keeps.foldlM _ fun l op _ => perform_keeps hI mount.faults l op).bind fun l => ?_
  split
  · exact Stoppable.Keeps.lift _
  · exact Stoppable.Keeps.pure _

/-! ## Passes that only fill in -/

/-- A new link where nothing stands keeps the links that are there. -/
theorem keepsLinks_putLeaf {d₀ d : Device} (h : KeepsLinks d₀ d) {link : List Text} {target : Text} {t : FarmTree}
    (ht : putLeaf link (FarmLeaf.link target) d.farm = some t) (hfree : lookup link d.farm = none) :
    KeepsLinks d₀ { d with farm := t } := by
  intro p old hold
  have hp := linkAt_eq_some.mp (h p old hold)
  have hne : p ≠ link := by
    rintro rfl
    rw [leafAt, hfree] at hp
    simp at hp
  rw [linkAt_eq_some, leafAt_putLeaf ht, if_neg hne]
  exact hp

theorem keepsLinks_mkdirs {d₀ d : Device} (h : KeepsLinks d₀ d) {path : List Text} {t : FarmTree}
    (ht : mkdirs path d.farm = some t) : KeepsLinks d₀ { d with farm := t } := by
  intro p old hold
  rw [linkAt_eq_some, leafAt_mkdirs ht]
  exact linkAt_eq_some.mp (h p old hold)

/-- An operation of a pass that only fills in changes no link. -/
theorem perform_keepsLinks (faults : Nat → Bool) (d₀ : Device) (l : Linker) (hfill : l.fillOnly = true) (op : LinkOp) :
    Stoppable.Triple (KeepsLinks d₀) (KeepsLinks d₀) (l.perform faults op : Stoppable Device ε Linker)
      fun r d => KeepsLinks d₀ d ∧ ∀ l', r = .ok l' → l'.fillOnly = true := by
  have hdone : ∀ l' : Linker, l'.fillOnly = true → Stoppable.Triple (KeepsLinks d₀) (KeepsLinks d₀)
      (pure l' : Stoppable Device ε Linker) fun r d => KeepsLinks d₀ d ∧ ∀ l', r = .ok l' → l'.fillOnly = true :=
    fun l' hl' => Stoppable.Triple.pure fun d hd => ⟨hd, hd, fun l'' hl'' => by rw [← Except.ok.inj hl'']; exact hl'⟩
  have herr : ∀ (e : ε) (d : Device), KeepsLinks d₀ d →
      KeepsLinks d₀ d ∧ ∀ l', (Except.error e : Except ε Linker) = .ok l' → l'.fillOnly = true :=
    fun e d hd => ⟨hd, fun l' hl' => by simp at hl'⟩
  cases op with
  | dir path =>
    refine Stoppable.Triple.bind (Q := fun _ d => KeepsLinks d₀ d) ?_ (fun _ => hdone _ hfill) herr
    exact triple_onFarm (fun _ hd => hd) (fun _ hd => hd) fun d t hd ht => ⟨keepsLinks_mkdirs hd ht, keepsLinks_mkdirs hd ht⟩
  | place target link =>
    refine Stoppable.Triple.bind (Q := fun r d => KeepsLinks d₀ d ∧ r = .ok d)
      (Stoppable.Triple.get fun d hd => ⟨hd, hd, rfl⟩) (fun d => ?_) fun e d hd => herr e d hd.1
    split
    · exact (hdone l hfill).conseq (fun _ hd => hd.1) fun _ _ h => h
    · rename_i hthere
      have hfree : lookup link d.farm = none := by
        rw [hfill, Bool.true_and] at hthere
        exact Option.not_isSome_iff_eq_none.mp hthere
      -- nothing stands there, so nothing is removed
      have hdrop : dropLeaf link d.farm = none := by
        cases hdrop : dropLeaf link d.farm with
        | none => rfl
        | some t =>
          have hat := (lookup_alter hdrop).1
          rw [hfree] at hat
          simp at hat
      refine Stoppable.Triple.bind (Q := fun _ d' => KeepsLinks d₀ d' ∧ lookup link d'.farm = none) ?_ (fun _ => ?_)
        fun e d' hd' => herr e d' hd'.1
      · refine triple_onFarm (fun _ hd' => hd'.1) (fun d' hd' => ?_) fun d' t hd' ht => ?_
        · obtain ⟨hkeeps, heq⟩ := hd'
          rw [← Except.ok.inj heq]
          exact ⟨Except.ok.inj heq ▸ hkeeps, hfree⟩
        · obtain ⟨-, heq⟩ := hd'
          rw [← Except.ok.inj heq, hdrop] at ht
          simp at ht
      · refine Stoppable.Triple.bind (Q := fun _ d' => KeepsLinks d₀ d') ?_ (fun _ => hdone _ hfill) herr
        exact triple_onFarm (fun _ hd' => hd'.1) (fun _ hd' => hd'.1) fun d' t hd' ht =>
          ⟨keepsLinks_putLeaf hd'.1 ht hd'.2, keepsLinks_putLeaf hd'.1 ht hd'.2⟩
  | fail => exact hdone _ hfill

/-- **A pass that only fills in changes no link, wherever it is stopped.** -/
theorem fillOnly_keeps_links (mount : Mount) (snap : Text) (gapfill : List Text) (d₀ : Device) :
    Stoppable.Triple (KeepsLinks d₀) (KeepsLinks d₀) (makeLinksForSnapshotMode mount snap gapfill true)
      fun _ d => KeepsLinks d₀ d := by
  unfold makeLinksForSnapshotMode
  have hloop := Stoppable.Triple.foldlM (ε := Unit) (C := KeepsLinks d₀)
    (I := fun (l : Linker) d => l.fillOnly = true ∧ KeepsLinks d₀ d) (E := fun _ => KeepsLinks d₀)
    (f := fun l op => Linker.perform mount.faults l op) (l := linkOps mount snap gapfill) (b := ⟨true, 0, 0, 0⟩)
    (fun _ _ hd => hd.2) fun l op _ => by
      intro d hd
      obtain ⟨hstops, hkeeps, hfill⟩ := perform_keepsLinks mount.faults d₀ l hd.1 op d hd.2
      exact ⟨hstops, fun l' hl' => ⟨hfill l' hl', hkeeps⟩, fun _ _ => hkeeps⟩
  refine Stoppable.Triple.bind (hloop.conseq (fun _ hd => ⟨rfl, hd⟩) fun _ _ h => h) (fun l => ?_) fun e d hd => hd.2 e rfl
  split
  · exact Stoppable.Triple.lift fun d hd => ⟨(hd.1 l rfl).2, (hd.1 l rfl).2⟩
  · exact Stoppable.Triple.pure fun d hd => ⟨(hd.1 l rfl).2, (hd.1 l rfl).2⟩

end

end SentryUsb.Snapshot
