import SentryUsb.Snapshot.Linking

/-! # Links owed

A committed snapshot that still owes links carries a marker. Each run makes the links of at most two of them, and
records in the markers what is still to be done, so that a stop between any two file operations loses no debt
(`mark_relinks_for_boot_in`, `pending_relinks_in`, `relink_snapshot`).

* **`committedSnapshotsNewestFirst`**, **`pendingRelinksIn`** — which snapshots a run links;
* **`relinkSnapshot`**, **`markRelinksForBootIn`**, **`relinkPendingSnapshot`** — what it does;
* **`LinkDebts`** — every committed snapshot without a completed pass carries a marker, and none is given up on early;
* **`relinkPendingSnapshot_debts`** — wherever a run is stopped, that holds. -/

namespace SentryUsb.Snapshot

open Library FileTree

/-! ## Which snapshots -/

/-- The committed snapshots, the last name first. -/
def committedSnapshotsNewestFirst (s : Snapshots) : List Text :=
  ((s.entries.map Prod.fst).filter fun n => isSnap n && committed s n).reverse

/-- The committed snapshot whose name sorts last. -/
def newestCommittedSnapshotIn (s : Snapshots) : Option Text := (committedSnapshotsNewestFirst s).head?

/-- Whether a slot's marker of owed links is there. -/
def hasPending (s : Snapshots) (name : Text) : Bool := ((slotAt s name).bind SlotDir.pending).isSome

/-- The snapshots a run links, the newest and the oldest debt, each with whether it only fills in. -/
def pendingRelinksIn (s : Snapshots) (failedThisBoot : List Text) : List (Text × Bool) :=
  match newestCommittedSnapshotIn s with
  | none => []
  | some newest =>
    let owing := (committedSnapshotsNewestFirst s).filter fun n => hasPending s n && decide (n ∉ failedThisBoot)
    match owing.head?, owing.getLast? with
    | some first, some oldest =>
      (first, decide (first ≠ newest)) :: if oldest ≠ first then [(oldest, decide (oldest ≠ newest))] else []
    | _, _ => []

/-! ## One snapshot -/

/-- `RELINK_MAX_FAILURES`. -/
def relinkMaxFailures : Nat := 5

/-- The line a failed pass leaves. -/
def failedWord : Text := ['f', 'a', 'i', 'l', 'e', 'd']

/-- The failed attempts a pending marker counts. -/
def relinkFailures (s : Snapshots) (name : Text) : Nat :=
  match (slotAt s name).bind SlotDir.pending with
  | some text => (lines text).length
  | none => 0

/-- What re-linking one snapshot meets besides its mount: which marker operations succeed, and how far the two appended
lines get (opened, text written, newline written). -/
structure RelinkWorld where
  mount : Mount
  verifyOk : Bool
  unpendOk : Bool
  renameOk : Bool
  failedLine : Nat
  pendingLine : Nat

/-- Record that a snapshot completed a pass. -/
def recordLinked (name : Text) : Stoppable Device Unit Bool :=
  Stoppable.attempt fun d => some { d with linked := name :: d.linked }

/-- Record that a snapshot's pass failed. -/
def recordFailed (name : Text) : Stoppable Device Unit Bool :=
  Stoppable.attempt fun d => some { d with failed := name :: d.failed }

/-- Append a line to the list of this boot's failures. -/
def appendFailedThisBoot (reach : Nat) (name : Text) : Stoppable Device Unit Bool := do
  let _ ← Stoppable.attempt fun d =>
    if 2 ≤ reach then some { d with failedThisBoot := d.failedThisBoot ++ name } else none
  Stoppable.attempt fun d =>
    if 3 ≤ reach then some { d with failedThisBoot := d.failedThisBoot ++ ['\n'] } else none

/-- Append a line to a pending marker, which is made where it is missing. -/
def appendPending (reach : Nat) (name : Text) : Stoppable Device Unit Bool := do
  let _ ← onSlot (decide (1 ≤ reach)) name fun slot => { slot with pending := some (slot.pending.getD []) }
  let _ ← onSlot (decide (2 ≤ reach)) name fun slot => { slot with pending := slot.pending.map (· ++ failedWord) }
  onSlot (decide (3 ≤ reach)) name fun slot => { slot with pending := slot.pending.map (· ++ ['\n']) }

/-- The pending marker becomes the marker of a snapshot given up on. -/
def SlotDir.giveUp (slot : SlotDir) : SlotDir :=
  if slot.pending.isSome then { slot with gaveUp := slot.pending, pending := none } else slot

/-- A pass that starts from the snapshot's mount. -/
def relinkPass (mount : Mount) (gapfill : List Text) (name : Text) (fillOnly : Bool) : Stoppable Device Unit Nat := do
  ensureStableMntLink mount name
  Stoppable.check mount.readable ()
  makeLinksForSnapshotMode mount name gapfill fillOnly

/-- Links just made are checked again after the next boot. -/
def scheduleCheck (w : RelinkWorld) (name : Text) (made : Nat) : Stoppable Device Unit Bool :=
  if 0 < made then onSlot w.verifyOk name fun slot => { slot with verify := true } else pure true

/-- After a pass without failures. -/
def relinkDone (w : RelinkWorld) (name : Text) (made : Nat) : Stoppable Device Unit Bool := do
  let _ ← recordLinked name
  let scheduled ← scheduleCheck w name made
  if scheduled then onSlot w.unpendOk name fun slot => { slot with pending := none } else pure false

/-- After a failed pass: it is counted, and too many give the snapshot up. -/
def relinkFailed (w : RelinkWorld) (name : Text) : Stoppable Device Unit Bool := do
  let _ ← recordFailed name
  let _ ← appendFailedThisBoot w.failedLine name
  let _ ← appendPending w.pendingLine name
  let d ← Stoppable.get
  if relinkMaxFailures ≤ relinkFailures d.snapshots name then onSlot w.renameOk name SlotDir.giveUp else pure false

/-- Make the links of one snapshot (`relink_snapshot`). -/
def relinkSnapshot (w : RelinkWorld) (gapfill : List Text) (name : Text) (fillOnly : Bool) :
    Stoppable Device Unit Bool := do
  let result ← Stoppable.caught (relinkPass w.mount gapfill name fillOnly)
  match result with
  | .ok made => relinkDone w name made
  | .error _ => relinkFailed w name

/-! ## A run -/

/-- Which marker operations succeed once a boot. -/
structure BootWorld where
  pendingOk : Text → Bool
  verifyOk : Text → Bool
  newestOk : Bool

/-- The marker of owed links, made where it is missing. -/
def owePending (ok there : Bool) (name : Text) : Stoppable Device Unit Bool :=
  if there then pure true else onSlot ok name fun slot => { slot with pending := some [] }

/-- A snapshot to be checked again owes its links. -/
def markVerified (w : BootWorld) (name : Text) : Stoppable Device Unit Bool := do
  let d ← Stoppable.get
  if ((slotAt d.snapshots name).map SlotDir.verify).getD false then do
    let owed ← owePending (w.pendingOk name) (hasPending d.snapshots name) name
    if owed then onSlot (w.verifyOk name) name fun slot => { slot with verify := false } else pure false
  else pure false

/-- The newest committed snapshot owes its links, unless it was given up on. -/
def markNewest (w : BootWorld) : Stoppable Device Unit Bool := do
  let d ← Stoppable.get
  match newestCommittedSnapshotIn d.snapshots with
  | some newest =>
    if !hasPending d.snapshots newest && ((slotAt d.snapshots newest).bind SlotDir.gaveUp).isNone then
      onSlot w.newestOk newest fun slot => { slot with pending := some [] }
    else pure false
  | none => pure false

/-- Once a boot (`mark_relinks_for_boot_in`). -/
def markRelinksForBootIn (w : BootWorld) : Stoppable Device Unit Bool := do
  let d ← Stoppable.get
  let _ ← (committedSnapshotsNewestFirst d.snapshots).foldlM (fun _ name => markVerified w name) true
  markNewest w

/-- What a run meets: the boot's marking, whether it is recorded, the gap-fill manifest and the snapshots it links. -/
structure RunWorld where
  boot : BootWorld
  markOk : Bool
  manifest : Option Text
  relink : Text → RelinkWorld

/-- Mark the debts of a new boot. -/
def bootMarking (w : RunWorld) : Stoppable Device Unit Bool := do
  let d ← Stoppable.get
  if d.bootMarked then pure true
  else do
    let _ ← markRelinksForBootIn w.boot
    Stoppable.attempt fun d => if w.markOk then some { d with bootMarked := true } else none

/-- Make the links owed by up to two snapshots (`relink_pending_snapshot`). -/
def relinkPendingSnapshot (w : RunWorld) : Stoppable Device Unit Bool := do
  let _ ← bootMarking w
  let d ← Stoppable.get
  (pendingRelinksIn d.snapshots (lines d.failedThisBoot)).foldlM
    (fun _ pick => relinkSnapshot (w.relink pick.1) (loadGapfillStamps w.manifest) pick.1 pick.2) true

/-! ## Debts -/

/-- **The debts of one slot**: committed without a completed pass, it carries a marker; given up on, it had its failed
passes; and its pending marker counts no more of them than there were. -/
structure SlotDebts (linked failed : List Text) (name : Text) (slot : SlotDir) : Prop where
  marked : slot.image.isSome = true → slot.toc.isSome = true →
    name ∈ linked ∨ slot.pending.isSome = true ∨ slot.verify = true ∨ slot.gaveUp.isSome = true
  gaveUp : slot.gaveUp.isSome = true → relinkMaxFailures ≤ failed.count name
  counted : ∀ text, slot.pending = some text → (lines text).length ≤ failed.count name

/-- The debts of every slot. -/
def LinkDebts (d : Device) : Prop :=
  ∀ name slot, slotAt d.snapshots name = some slot → SlotDebts d.linked d.failed name slot

/-- A change of one slot's directory that keeps its debts keeps them all. -/
theorem LinkDebts.update {d : Device} (h : LinkDebts d) {name : Text} {f : SlotDir → SlotDir} {s : Snapshots}
    (hs : updateSlot d.snapshots name f = some s)
    (hf : ∀ slot, slotAt d.snapshots name = some slot → SlotDebts d.linked d.failed name (f slot)) :
    LinkDebts { d with snapshots := s } := by
  intro n slot hslot
  have hslot : slotAt s n = some slot := hslot
  rw [slotAt_updateSlot hs] at hslot
  split at hslot
  · rename_i hn
    obtain ⟨old, hold, rfl⟩ := Option.map_eq_some_iff.mp hslot
    rw [hn]
    exact hf old hold
  · exact h n slot hslot

theorem linkDebts_farmBlind : FarmBlind LinkDebts := fun _ _ h => h

/-- Debts stay when more passes are completed or fail. -/
theorem SlotDebts.mono {linked linked' failed failed' : List Text} {name : Text} {slot : SlotDir}
    (h : SlotDebts linked failed name slot) (hlinked : linked ⊆ linked') (hfailed : failed.count name ≤ failed'.count name) :
    SlotDebts linked' failed' name slot where
  marked himage htoc := by
    rcases h.marked himage htoc with hmem | hmarker
    · exact Or.inl (hlinked hmem)
    · exact Or.inr hmarker
  gaveUp hg := le_trans (h.gaveUp hg) hfailed
  counted text ht := le_trans (h.counted text ht) hfailed

section

theorem onSlot_debts {ok : Bool} {name : Text} {f : SlotDir → SlotDir} {P : Device → Prop} (hP : ∀ d, P d → LinkDebts d)
    (hf : ∀ d slot, P d → slotAt d.snapshots name = some slot → SlotDebts d.linked d.failed name (f slot)) :
    Stoppable.Triple LinkDebts P (onSlot ok name f : Stoppable Device Unit Bool) fun _ d => LinkDebts d :=
  triple_onSlot hP hP fun d _ hd hs => ⟨(hP d hd).update hs (hf d · hd), (hP d hd).update hs (hf d · hd)⟩

theorem ensureStableMntLink_debts (mount : Mount) (snap : Text) :
    Stoppable.Keeps LinkDebts (ensureStableMntLink mount snap) := by
  unfold ensureStableMntLink
  refine Stoppable.Keeps.get.bind fun d => ?_
  split
  · exact Stoppable.Keeps.pure _
  · refine Stoppable.Keeps.bind (keeps_onSlot fun d s hd hs => hd.update hs fun slot hslot => ?_) fun ok => ?_
    · obtain ⟨hmarked, hgave, hcounted⟩ := hd snap slot hslot
      exact ⟨hmarked, hgave, hcounted⟩
    · split
      · exact Stoppable.Keeps.pure _
      · exact Stoppable.Keeps.lift _

theorem relinkPass_debts (mount : Mount) (gapfill : List Text) (name : Text) (fillOnly : Bool) :
    Stoppable.Keeps LinkDebts (relinkPass mount gapfill name fillOnly) :=
  (ensureStableMntLink_debts mount name).bind fun _ => (Stoppable.Keeps.lift _).bind fun _ =>
    makeLinks_keeps linkDebts_farmBlind mount name gapfill fillOnly

/-- A completed pass, recorded. -/
theorem recordLinked_debts (name : Text) : Stoppable.Triple LinkDebts LinkDebts (recordLinked name)
    fun _ d => LinkDebts d ∧ name ∈ d.linked := by
  refine Stoppable.Triple.attempt (fun _ hd => hd) (fun d hd hnone => by simp at hnone) fun d d' hd hd' => ?_
  obtain rfl := Option.some.inj hd'
  have hdebts : LinkDebts { d with linked := name :: d.linked } := fun n slot hslot =>
    (hd n slot hslot).mono (List.subset_cons_self _ _) le_rfl
  exact ⟨hdebts, hdebts, List.mem_cons_self⟩

theorem unpend_debts (ok : Bool) (name : Text) : Stoppable.Triple LinkDebts (fun d => LinkDebts d ∧ name ∈ d.linked)
    (onSlot ok name (fun slot => { slot with pending := none }) : Stoppable Device Unit Bool) fun _ d => LinkDebts d := by
  refine onSlot_debts (fun _ hd => hd.1) fun d slot hd hslot => ?_
  obtain ⟨-, hgave, -⟩ := hd.1 name slot hslot
  exact ⟨fun _ _ => Or.inl hd.2, hgave, fun text ht => by simp at ht⟩

/-- A completed pass is recorded, then the markers change. -/
theorem relinkDone_debts (w : RelinkWorld) (name : Text) (made : Nat) :
    Stoppable.Triple LinkDebts LinkDebts (relinkDone w name made) fun _ d => LinkDebts d := by
  unfold relinkDone
  refine Stoppable.Triple.bind (recordLinked_debts name) (fun _ => ?_) fun _ _ hd => hd.1
  refine Stoppable.Triple.bind (Q := fun _ d => LinkDebts d ∧ name ∈ d.linked) (R := fun _ d => LinkDebts d) ?_
    (fun scheduled => ?_) fun _ _ hd => hd.1
  · unfold scheduleCheck
    split
    · have hverify : ∀ (d : Device) (slot : SlotDir), LinkDebts d ∧ name ∈ d.linked → slotAt d.snapshots name = some slot →
          SlotDebts d.linked d.failed name { slot with verify := true } := by
        intro d slot hd hslot
        obtain ⟨-, hgave, hcounted⟩ := hd.1 name slot hslot
        exact ⟨fun _ _ => Or.inl hd.2, hgave, hcounted⟩
      exact triple_onSlot (fun _ hd => hd.1) (fun _ hd => hd) fun d s hd hs =>
        ⟨hd.1.update hs (hverify d · hd), hd.1.update hs (hverify d · hd), hd.2⟩
    · exact Stoppable.Triple.pure fun d hd => ⟨hd.1, hd⟩
  · split
    · exact unpend_debts w.unpendOk name
    · exact Stoppable.Triple.pure fun d hd => ⟨hd.1, hd.1⟩

/-- A failed pass is counted before its line is written. -/
def FailureCounted (name : Text) (d : Device) : Prop :=
  LinkDebts d ∧ 1 ≤ d.failed.count name ∧ ∀ slot text, slotAt d.snapshots name = some slot → slot.pending = some text →
    (lines text).length + 1 ≤ d.failed.count name

/-- Its line lacks at most the line end. -/
def FailureWritten (name : Text) (d : Device) : Prop :=
  LinkDebts d ∧ ∀ slot text, slotAt d.snapshots name = some slot → slot.pending = some text →
    (lines (text ++ ['\n'])).length ≤ d.failed.count name

theorem FailureCounted.written {name : Text} {d : Device} (h : FailureCounted name d) : FailureWritten name d := by
  refine ⟨h.1, fun slot text hslot htext => le_trans ?_ (h.2.2 slot text hslot htext)⟩
  exact length_linesFrom_append_line (w := []) List.not_mem_nil [] text

/-- Debts with another pending marker, which is there if the old one was. -/
theorem SlotDebts.withPending {linked failed : List Text} {name : Text} {slot : SlotDir} {pending : Option Text}
    (h : SlotDebts linked failed name slot) (hthere : slot.pending.isSome = true → pending.isSome = true)
    (hcounted : ∀ text, pending = some text → (lines text).length ≤ failed.count name) :
    SlotDebts linked failed name { slot with pending := pending } where
  marked himage htoc := by
    rcases h.marked himage htoc with hmem | hpending | hmarker
    · exact Or.inl hmem
    · exact Or.inr (Or.inl (hthere hpending))
    · exact Or.inr (Or.inr hmarker)
  gaveUp := h.gaveUp
  counted := hcounted

theorem appendPending_debts (reach : Nat) (name : Text) :
    Stoppable.Triple LinkDebts (FailureCounted name) (appendPending reach name) fun _ d => LinkDebts d := by
  unfold appendPending
  refine Stoppable.Triple.bind (Q := fun _ d => FailureCounted name d) ?_ (fun _ => ?_) fun _ _ hd => hd.1
  · -- a marker that is missing counts nothing yet
    refine triple_onSlot (fun _ hd => hd.1) (fun _ hd => hd) fun d s hd hs => ?_
    have hcount : ∀ slot text, slotAt d.snapshots name = some slot → some (slot.pending.getD []) = some text →
        (lines text).length + 1 ≤ d.failed.count name := by
      intro slot text hslot htext
      cases hp : slot.pending with
      | none =>
        rw [hp] at htext
        obtain rfl := Option.some.inj htext
        exact hd.2.1
      | some old =>
        rw [hp] at htext
        obtain rfl := Option.some.inj htext
        exact hd.2.2 slot old hslot hp
    have hdebts := hd.1.update hs fun slot hslot => (hd.1 name slot hslot).withPending (fun _ => rfl)
      fun text htext => le_trans (Nat.le_succ _) (hcount slot text hslot htext)
    refine ⟨hdebts, hdebts, hd.2.1, fun slot text hslot htext => ?_⟩
    have hslot : slotAt s name = some slot := hslot
    rw [slotAt_updateSlot hs, if_pos rfl] at hslot
    obtain ⟨old, hold, rfl⟩ := Option.map_eq_some_iff.mp hslot
    exact hcount old text hold htext
  refine Stoppable.Triple.bind (Q := fun _ d => FailureWritten name d) (R := fun _ d => LinkDebts d) ?_ (fun _ => ?_)
    fun _ _ hd => hd.1
  · refine triple_onSlot (fun _ hd => hd.1) (fun _ hd => hd.written) fun d s hd hs => ?_
    have hdebts := hd.1.update hs fun slot hslot => (hd.1 name slot hslot).withPending
      (fun hthere => by rw [Option.isSome_map]; exact hthere) fun text htext => by
        obtain ⟨old, hold, rfl⟩ := Option.map_eq_some_iff.mp htext
        exact le_trans (length_linesFrom_append (by decide) [] old) (hd.2.2 slot old hslot hold)
    refine ⟨hdebts, hdebts, fun slot text hslot htext => ?_⟩
    have hslot : slotAt s name = some slot := hslot
    rw [slotAt_updateSlot hs, if_pos rfl] at hslot
    obtain ⟨old, hold, rfl⟩ := Option.map_eq_some_iff.mp hslot
    obtain ⟨before, hbefore, rfl⟩ := Option.map_eq_some_iff.mp htext
    rw [List.append_assoc]
    exact le_trans (length_linesFrom_append_line (by decide) [] before) (hd.2.2 old before hold hbefore)
  · refine onSlot_debts (fun _ hd => hd.1) fun d slot hd hslot => ?_
    refine (hd.1 name slot hslot).withPending (fun hthere => by rw [Option.isSome_map]; exact hthere) fun text htext => ?_
    obtain ⟨old, hold, rfl⟩ := Option.map_eq_some_iff.mp htext
    exact hd.2 slot old hslot hold

/-- A snapshot is given up on only when its marker counts enough failures. -/
theorem giveUp_debts {linked failed : List Text} {name : Text} {slot : SlotDir} (h : SlotDebts linked failed name slot)
    (hmany : ∀ text, slot.pending = some text → relinkMaxFailures ≤ (lines text).length) :
    SlotDebts linked failed name slot.giveUp := by
  unfold SlotDir.giveUp
  split
  · rename_i hpending
    obtain ⟨text, htext⟩ := Option.isSome_iff_exists.mp hpending
    refine ⟨fun _ _ => Or.inr (Or.inr (Or.inr hpending)), fun _ => ?_, fun text' htext' => by simp at htext'⟩
    exact le_trans (hmany text htext) (h.counted text htext)
  · exact h

theorem relinkFailed_debts (w : RelinkWorld) (name : Text) :
    Stoppable.Triple LinkDebts LinkDebts (relinkFailed w name) fun _ d => LinkDebts d := by
  unfold relinkFailed
  refine Stoppable.Triple.bind (Q := fun _ d => FailureCounted name d) ?_ (fun _ => ?_) fun _ _ hd => hd.1
  · refine Stoppable.Triple.attempt (fun _ hd => hd) (fun d hd hnone => by simp at hnone) fun d d' hd hd' => ?_
    obtain rfl := Option.some.inj hd'
    have hdebts : LinkDebts { d with failed := name :: d.failed } := fun n slot hslot =>
      (hd n slot hslot).mono (List.Subset.refl _) (List.count_le_count_cons)
    refine ⟨hdebts, hdebts, ?_, fun slot text hslot htext => ?_⟩
    · show 1 ≤ (name :: d.failed).count name
      rw [List.count_cons_self]
      exact Nat.succ_pos _
    · show (lines text).length + 1 ≤ (name :: d.failed).count name
      rw [List.count_cons_self]
      exact Nat.succ_le_succ ((hd name slot hslot).counted text htext)
  refine Stoppable.Triple.bind (Q := fun _ d => FailureCounted name d) (R := fun _ d => LinkDebts d) ?_ (fun _ => ?_)
    fun _ _ hd => hd.1
  · -- the list of this boot's failures is no part of the debts
    have hboot : ∀ {d : Device} (text : Text), FailureCounted name d → FailureCounted name { d with failedThisBoot := text } :=
      fun text hd => hd
    have happend : ∀ (reach : Nat) (more : Text), Stoppable.Triple LinkDebts (FailureCounted name)
        (Stoppable.attempt (fun d => if reach ≤ w.failedLine then some { d with failedThisBoot := d.failedThisBoot ++ more }
          else none) : Stoppable Device Unit Bool) fun _ d => FailureCounted name d := by
      intro reach more
      refine Stoppable.Triple.attempt (fun _ hd => hd.1) (fun _ hd _ => hd) fun d d' hd hd' => ?_
      split at hd'
      · obtain rfl := Option.some.inj hd'
        exact ⟨hd.1, hboot _ hd⟩
      · simp at hd'
    exact Stoppable.Triple.bind (happend 2 name) (fun _ => happend 3 ['\n']) fun _ _ hd => hd
  refine Stoppable.Triple.bind (appendPending_debts w.pendingLine name) (fun _ => ?_) fun _ _ hd => hd
  refine Stoppable.Triple.bind (Q := fun r d => LinkDebts d ∧ r = .ok d) (R := fun _ d => LinkDebts d)
    (Stoppable.Triple.get fun d hd => ⟨hd, hd, rfl⟩) (fun d => ?_) fun _ _ hd => hd.1
  split
  · rename_i hmany
    refine onSlot_debts (fun _ hd => hd.1) fun d' slot hd hslot => ?_
    obtain rfl := Except.ok.inj hd.2
    refine giveUp_debts (hd.1 name slot hslot) fun text htext => ?_
    rw [relinkFailures, hslot, Option.bind_some, htext] at hmany
    exact hmany
  · exact Stoppable.Triple.pure fun d hd => ⟨hd.1, hd.1⟩

/-- **Re-linking a snapshot loses no debt, wherever it is stopped.** -/
theorem relinkSnapshot_debts (w : RelinkWorld) (gapfill : List Text) (name : Text) (fillOnly : Bool) :
    Stoppable.Keeps LinkDebts (relinkSnapshot w gapfill name fillOnly) := by
  unfold relinkSnapshot
  refine (relinkPass_debts w.mount gapfill name fillOnly).caught.bind fun result => ?_
  cases result with
  | ok made => exact Stoppable.Keeps.of_triple (relinkDone_debts w name made)
  | error e => exact Stoppable.Keeps.of_triple (relinkFailed_debts w name)

theorem markVerified_debts (w : BootWorld) (name : Text) : Stoppable.Keeps LinkDebts (markVerified w name) := by
  unfold markVerified
  refine Stoppable.Keeps.of_triple (Stoppable.Triple.bind (Q := fun r d => LinkDebts d ∧ r = .ok d)
    (R := fun _ d => LinkDebts d) (Stoppable.Triple.get fun d hd => ⟨hd, hd, rfl⟩) (fun d => ?_) fun _ _ hd => hd.1)
  split
  · refine Stoppable.Triple.bind
      (Q := fun r d => LinkDebts d ∧ (r = .ok true → hasPending d.snapshots name = true)) ?_ (fun owed => ?_)
      fun _ _ hd => hd.1
    · unfold owePending
      split
      · rename_i hthere
        refine Stoppable.Triple.pure fun d' hd => ⟨hd.1, hd.1, fun _ => ?_⟩
        rw [← Except.ok.inj hd.2]
        exact hthere
      · -- an empty marker counts nothing
        refine triple_onSlot (fun _ hd => hd.1) (fun d' hd => ⟨hd.1, fun h => by simp at h⟩) fun d' s hd hs => ?_
        have hdebts := hd.1.update hs fun slot hslot => (hd.1 name slot hslot).withPending (fun _ => rfl)
          fun text htext => by rw [← Option.some.inj htext]; exact Nat.zero_le _
        refine ⟨hdebts, hdebts, fun _ => ?_⟩
        show ((slotAt s name).bind SlotDir.pending).isSome = true
        obtain ⟨slot, hslot⟩ := exists_slotAt_of_updateSlot hs
        rw [slotAt_updateSlot hs, if_pos rfl, hslot]
        rfl
    · split
      · rename_i howed
        refine onSlot_debts (fun _ hd => hd.1) fun d' slot hd hslot => ?_
        obtain ⟨-, hgave, hcounted⟩ := hd.1 name slot hslot
        have hpending := hd.2 (by rw [howed])
        rw [hasPending, hslot] at hpending
        exact ⟨fun _ _ => Or.inr (Or.inl hpending), hgave, hcounted⟩
      · exact Stoppable.Triple.pure fun d' hd => ⟨hd.1, hd.1⟩
  · exact Stoppable.Triple.pure fun d' hd => ⟨hd.1, hd.1⟩

theorem markNewest_debts (w : BootWorld) : Stoppable.Keeps LinkDebts (markNewest w) := by
  unfold markNewest
  refine Stoppable.Keeps.get.bind fun d => ?_
  split
  · split
    · refine keeps_onSlot fun d s hd hs => hd.update hs fun slot hslot => ?_
      exact (hd _ slot hslot).withPending (fun _ => rfl) fun text htext => by
        rw [← Option.some.inj htext]
        exact Nat.zero_le _
    · exact Stoppable.Keeps.pure _
  · exact Stoppable.Keeps.pure _

theorem markRelinksForBootIn_debts (w : BootWorld) : Stoppable.Keeps LinkDebts (markRelinksForBootIn w) :=
  Stoppable.Keeps.get.bind fun _ => (Stoppable.Keeps.foldlM _ fun _ name _ => markVerified_debts w name).bind fun _ =>
    markNewest_debts w

theorem bootMarking_debts (w : RunWorld) : Stoppable.Keeps LinkDebts (bootMarking w) := by
  unfold bootMarking
  refine Stoppable.Keeps.get.bind fun d => ?_
  split
  · exact Stoppable.Keeps.pure _
  · refine (markRelinksForBootIn_debts w.boot).bind fun _ => Stoppable.Keeps.attempt fun d d' hd hd' => ?_
    split at hd'
    · obtain rfl := Option.some.inj hd'
      exact hd
    · simp at hd'

/-- **A run of owed links loses no debt, wherever it is stopped.** -/
theorem relinkPendingSnapshot_debts (w : RunWorld) : Stoppable.Keeps LinkDebts (relinkPendingSnapshot w) :=
  (bootMarking_debts w).bind fun _ => Stoppable.Keeps.get.bind fun _ => Stoppable.Keeps.foldlM _ fun _ pick _ =>
    relinkSnapshot_debts _ _ pick.1 pick.2

/-! ## What the markers leave alone -/

/-- The image and the table of contents of a slot. -/
def captureAt (s : Snapshots) (name : Text) : Option (Option Nat × Option (Option Text)) :=
  (slotAt s name).map fun slot => (slot.image, slot.toc)

/-- Two states that differ in markers only. -/
structure SameButMarkers (d d' : Device) : Prop where
  farm : d'.farm = d.farm
  captures : ∀ name, captureAt d'.snapshots name = captureAt d.snapshots name
  rebuildFlag : d'.rebuildFlag = d.rebuildFlag

/-- An invariant that does not depend on the markers. -/
def MarkerBlind (I : Device → Prop) : Prop := ∀ d d', SameButMarkers d d' → I d → I d'

section

variable {I : Device → Prop} (hI : MarkerBlind I)

include hI

/-- A change of a slot's markers. -/
theorem keeps_marker {ok : Bool} {name : Text} {f : SlotDir → SlotDir}
    (hf : ∀ slot, (f slot).image = slot.image ∧ (f slot).toc = slot.toc) :
    Stoppable.Keeps I (onSlot ok name f : Stoppable Device Unit Bool) := by
  refine keeps_onSlot fun d s hd hs => hI d _ ⟨rfl, fun n => ?_, rfl⟩ hd
  show captureAt s n = captureAt d.snapshots n
  unfold captureAt
  rw [slotAt_updateSlot hs]
  by_cases hn : n = name
  · rw [if_pos hn, hn]
    cases slotAt d.snapshots name with
    | none => rfl
    | some slot =>
      obtain ⟨himage, htoc⟩ := hf slot
      simp [himage, htoc]
  · rw [if_neg hn]

theorem ensureStableMntLink_keeps (mount : Mount) (snap : Text) : Stoppable.Keeps I (ensureStableMntLink mount snap) := by
  unfold ensureStableMntLink
  refine Stoppable.Keeps.get.bind fun d => ?_
  split
  · exact Stoppable.Keeps.pure _
  · refine Stoppable.Keeps.bind ?_ fun ok => ?_
    · exact keeps_marker hI fun slot => ⟨rfl, rfl⟩
    · split
      · exact Stoppable.Keeps.pure _
      · exact Stoppable.Keeps.lift _

theorem relinkDone_keeps (w : RelinkWorld) (name : Text) (made : Nat) : Stoppable.Keeps I (relinkDone w name made) := by
  unfold relinkDone recordLinked scheduleCheck
  refine Stoppable.Keeps.bind (Stoppable.Keeps.attempt fun d d' hd hd' => ?_) fun _ => Stoppable.Keeps.bind ?_ fun ok => ?_
  · obtain rfl := Option.some.inj hd'
    exact hI d _ ⟨rfl, fun _ => rfl, rfl⟩ hd
  · split
    · exact keeps_marker hI fun slot => ⟨rfl, rfl⟩
    · exact Stoppable.Keeps.pure _
  · split
    · exact keeps_marker hI fun slot => ⟨rfl, rfl⟩
    · exact Stoppable.Keeps.pure _

theorem relinkFailed_keeps (w : RelinkWorld) (name : Text) : Stoppable.Keeps I (relinkFailed w name) := by
  unfold relinkFailed recordFailed appendFailedThisBoot appendPending
  have hboot : ∀ (reach : Nat) (more : Text), Stoppable.Keeps I
      (Stoppable.attempt (fun d => if reach ≤ w.failedLine then some { d with failedThisBoot := d.failedThisBoot ++ more }
        else none) : Stoppable Device Unit Bool) := by
    intro reach more
    refine Stoppable.Keeps.attempt fun d d' hd hd' => ?_
    split at hd'
    · obtain rfl := Option.some.inj hd'
      exact hI d _ ⟨rfl, fun _ => rfl, rfl⟩ hd
    · simp at hd'
  refine Stoppable.Keeps.bind (Stoppable.Keeps.attempt fun d d' hd hd' => ?_) fun _ =>
    ((hboot 2 name).bind fun _ => hboot 3 ['\n']).bind fun _ => Stoppable.Keeps.bind ?_ fun _ =>
      Stoppable.Keeps.get.bind fun d => ?_
  · obtain rfl := Option.some.inj hd'
    exact hI d _ ⟨rfl, fun _ => rfl, rfl⟩ hd
  · refine Stoppable.Keeps.bind ?_ fun _ => Stoppable.Keeps.bind ?_ fun _ => ?_
    · exact keeps_marker hI fun slot => ⟨rfl, rfl⟩
    · exact keeps_marker hI fun slot => ⟨rfl, rfl⟩
    · exact keeps_marker hI fun slot => ⟨rfl, rfl⟩
  · split
    · refine keeps_marker hI fun slot => ?_
      unfold SlotDir.giveUp
      split
      · exact ⟨rfl, rfl⟩
      · exact ⟨rfl, rfl⟩
    · exact Stoppable.Keeps.pure _

/-- Re-linking a snapshot, when its pass keeps the invariant. -/
theorem relinkSnapshot_keeps {w : RelinkWorld} {gapfill : List Text} {name : Text} {fillOnly : Bool}
    (hpass : Stoppable.Keeps I (makeLinksForSnapshotMode w.mount name gapfill fillOnly)) :
    Stoppable.Keeps I (relinkSnapshot w gapfill name fillOnly) := by
  unfold relinkSnapshot relinkPass
  refine ((ensureStableMntLink_keeps hI w.mount name).bind fun _ => (Stoppable.Keeps.lift _).bind fun _ =>
    hpass).caught.bind fun result => ?_
  cases result with
  | ok made => exact relinkDone_keeps hI w name made
  | error e => exact relinkFailed_keeps hI w name

theorem markRelinksForBootIn_keeps (w : BootWorld) : Stoppable.Keeps I (markRelinksForBootIn w) := by
  unfold markRelinksForBootIn
  refine Stoppable.Keeps.get.bind fun d => Stoppable.Keeps.bind (Stoppable.Keeps.foldlM _ fun _ name _ => ?_) fun _ => ?_
  · unfold markVerified owePending
    refine Stoppable.Keeps.get.bind fun d => ?_
    split
    · refine Stoppable.Keeps.bind ?_ fun owed => ?_
      · split
        · exact Stoppable.Keeps.pure _
        · exact keeps_marker hI fun slot => ⟨rfl, rfl⟩
      · split
        · exact keeps_marker hI fun slot => ⟨rfl, rfl⟩
        · exact Stoppable.Keeps.pure _
    · exact Stoppable.Keeps.pure _
  · unfold markNewest
    refine Stoppable.Keeps.get.bind fun d => ?_
    split
    · split
      · exact keeps_marker hI fun slot => ⟨rfl, rfl⟩
      · exact Stoppable.Keeps.pure _
    · exact Stoppable.Keeps.pure _

/-- A run of owed links leaves the images and tables of contents alone. -/
theorem relinkPendingSnapshot_keeps (hfarm : FarmBlind I) (w : RunWorld) :
    Stoppable.Keeps I (relinkPendingSnapshot w) := by
  unfold relinkPendingSnapshot bootMarking
  refine Stoppable.Keeps.bind (Stoppable.Keeps.get.bind fun d => ?_) fun _ => Stoppable.Keeps.get.bind fun d =>
    Stoppable.Keeps.foldlM _ fun _ pick _ =>
      relinkSnapshot_keeps hI (makeLinks_keeps hfarm (w.relink pick.1).mount pick.1 _ pick.2)
  split
  · exact Stoppable.Keeps.pure _
  · refine (markRelinksForBootIn_keeps hI w.boot).bind fun _ => Stoppable.Keeps.attempt fun d d' hd hd' => ?_
    split at hd'
    · obtain rfl := Option.some.inj hd'
      exact hI d _ ⟨rfl, fun _ => rfl, rfl⟩ hd
    · simp at hd'

end

/-- **Filling in the links of a snapshot changes no link, wherever it is stopped.** -/
theorem relinkSnapshot_fillOnly (w : RelinkWorld) (gapfill : List Text) (name : Text) (d₀ : Device) :
    Stoppable.Keeps (KeepsLinks d₀) (relinkSnapshot w gapfill name true) := by
  have hblind : MarkerBlind (KeepsLinks d₀) := by
    intro d d' hsame hd
    unfold KeepsLinks
    rw [hsame.farm]
    exact hd
  exact relinkSnapshot_keeps hblind (Stoppable.Keeps.of_triple (fillOnly_keeps_links w.mount name gapfill d₀))

end

end SentryUsb.Snapshot
