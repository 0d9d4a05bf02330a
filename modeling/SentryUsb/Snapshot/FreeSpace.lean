import SentryUsb.Library.TransitionSystem
import SentryUsb.Snapshot.Capture

/-! # Keeping space free

Old snapshots are released while the disk is short of bytes or the clip index is short of inodes. When releases free no
inodes the verdict is latched, so that the next run does not go on (`manage_free_space`).

* **`listSnapshotsByAge`**, **`releasable`** — what may be released, oldest first;
* **`StallGuard.record`**, **`releaseEach`**, **`manageFreeSpace`** — the run;
* **`ReleasedWell`**, **`manageFreeSpace_releasedWell`** — what every run releases, and what it never does;
* **`Stalled`**, **`Decisive`** — runs under inode pressure that releases do not relieve, and those that settle it;
* **`released_le_of_reaches`** — over any sequence of settled runs few snapshots go;
* **`short_runs_release_more`** — a run that ends short of the verdict leaves no trace of it. -/

namespace SentryUsb.Snapshot

open Library

/-! ## Candidates -/

/-- The time of a candidate's image: of a slot's own directory with an image. -/
def imageTime (s : Snapshots) (name : Text) : Option Nat :=
  match s.get name with
  | some (.dir slot) => if isSnap name then slot.image else none
  | _ => none

/-- Age: the time of the image, then the name. -/
abbrev Age := Nat ×ₗ Text

/-- The candidates, oldest first. -/
def agedSnapshots (s : Snapshots) : List Age :=
  ((s.entries.map Prod.fst).filterMap fun name => (imageTime s name).map fun t => toLex (t, name)).insertionSort (· ≤ ·)

/-- The names of the candidates, oldest first (`list_snapshots_by_age_in`). -/
def listSnapshotsByAge (s : Snapshots) : List Text := (agedSnapshots s).map fun age => (ofLex age).2

/-- Of two names the one with the higher slot; of the same slot the later one. -/
def higherSlot (best : Option Text) (name : Text) : Option Text :=
  match slotNum name with
  | none => best
  | some n => if (best.bind slotNum).any (fun m => decide (n < m)) then best else some name

/-- The name with the highest slot, the last one of several. -/
def highestSlot (names : List Text) : Option Text := names.foldl higherSlot none

/-- What may be released of names in age order: neither the newest nor the highest slot (`releasable`). -/
def releasable (inAgeOrder : List Text) : List Text :=
  if inAgeOrder.length < 2 then []
  else inAgeOrder.dropLast.filter fun n => decide (some n ≠ highestSlot inAgeOrder)

/-! ## Targets -/

/-- `FIXED_RESERVE_BYTES`. -/
def fixedReserveBytes : Nat := 10 * 1024 * 1024 * 1024

/-- `default_reserve_bytes`, in 64 bits. -/
def defaultReserveBytes (total : Nat) : Nat := min (fixedReserveBytes + total / 33) (2 ^ 64 - 1)

/-- `inode_reserve`. -/
def inodeReserve (totalInodes : Nat) : Nat := min (max (totalInodes / 20) 20000) (totalInodes / 4)

/-- `MAX_STALE_INODE_RELEASES`. -/
def maxStaleInodeReleases : Nat := 3

/-- Both targets; an unknown inode count counts as enough (`targets_met`). -/
def targetsMet (free reserve : Nat) (freeInodes : Option Nat) (ireserve : Nat) : Bool :=
  decide (reserve ≤ free) && freeInodes.all fun f => decide (ireserve < f)

/-- Record a release, with the count of consecutive ones without gain: the new count, and whether the guard trips. -/
def StallGuard.record (consecutive : Nat) (blockTargetMet : Bool) (inodesBefore inodesAfter : Option Nat) : Nat × Bool :=
  if blockTargetMet then
    match inodesBefore, inodesAfter with
    | some before, some after =>
      if after ≤ before then (consecutive + 1, decide (maxStaleInodeReleases ≤ consecutive + 1)) else (0, false)
    | _, _ => (0, false)
  else (0, false)

/-! ## The run -/

/-- What the release of one snapshot meets: the free inodes before it, how its removal goes, and the free bytes and
inodes after it. A count that cannot be read is `none`. -/
structure Attempt where
  before : Option Nat
  removal : Removal
  space : Option Nat
  after : Option Nat

/-- What a run meets: the lock, the caller's target, the bytes (total and free), whether `/mutable` is mounted for
writing, its inodes (total and free), whether the latch can be written and removed, and each release. -/
structure SpaceWorld where
  locked : Bool
  reserveBytes : Option Nat
  space : Option (Nat × Nat)
  rwMounted : Bool
  inodes : Option (Nat × Nat)
  latchOk : Bool
  unlatchOk : Bool
  attempt : Text → Attempt

/-- How a run fails. -/
inductive SpaceError where
  | locked
  | unreadable
  | reserveTooLarge
  | indexLowWithoutSnapshots
  | noSnapshots
  | indexLowOnlyProtected
  | onlyProtected
  | notRelieved
  | stillBelow
  deriving DecidableEq

/-- What a run leaves: the snapshots, the latched count of free inodes, the snapshots released in order, and how it
ends. -/
structure SpaceRun where
  snapshots : Snapshots
  latch : Option Nat
  released : List Text
  result : Except SpaceError Unit

/-- The inode target: the free inodes, if they count, and the reserve. -/
structure InodePolicy where
  free : Option Nat
  reserve : Nat

/-- The inode target as read. -/
def inodePolicy (w : SpaceWorld) : InodePolicy :=
  match if w.rwMounted then w.inodes else none with
  | some (total, free) => if total ≤ inodeReserve total then ⟨none, 0⟩ else ⟨some free, inodeReserve total⟩
  | none => ⟨none, 0⟩

/-- Whether the free inodes rose above the latched count. -/
def risenAbove (w : SpaceWorld) (latch : Option Nat) : Bool :=
  latch.any fun latched => (inodePolicy w).free.any fun now => decide (latched < now)

/-- The inode target under a latched verdict, which stands until the free inodes rise above it. -/
def policyUnder (w : SpaceWorld) (latch : Option Nat) : InodePolicy :=
  if latch.isSome && !risenAbove w latch then ⟨none, 0⟩ else inodePolicy w

/-- The latch after it was read. -/
def latchUnder (w : SpaceWorld) (latch : Option Nat) : Option Nat :=
  if risenAbove w latch && w.unlatchOk then none else latch

/-- Write the latch. -/
def writeLatch (w : SpaceWorld) (free : Nat) (latch : Option Nat) : Option Nat := if w.latchOk then some free else latch

/-- The byte target. -/
def reserveOf (w : SpaceWorld) (total : Nat) : Nat := w.reserveBytes.getD (defaultReserveBytes total)

/-- The release of one snapshot: what is left, and whether it succeeds. -/
def releaseSnapshotLocked (a : Attempt) (s : Snapshots) (name : Text) : Snapshots × Bool :=
  match s.get name with
  | some (.dir slot) =>
    if a.removal.done then (s.remove name, true)
    else (s.insert name (.dir (a.removal.files.foldl SlotDir.drop slot)), false)
  | _ => (s, false)

/-- Inode counts are asked for only where the inode target is on. -/
def ifPolicy (ireserve : Nat) (count : Option Nat) : Option Nat := if 0 < ireserve then count else none

/-- Release one snapshot after the other until both targets are met or the guard trips. -/
def releaseEach (w : SpaceWorld) (reserve ireserve : Nat) : Nat → List Text → SpaceRun → SpaceRun
  | _, [], run => { run with result := .error .stillBelow }
  | stale, snap :: rest, run =>
    let a := w.attempt snap
    let released := releaseSnapshotLocked a run.snapshots snap
    let before := ifPolicy ireserve a.before
    let after := ifPolicy ireserve a.after
    if released.2 then
      let run := { run with snapshots := released.1, released := run.released ++ [snap] }
      match a.space with
      | none => { run with result := .error .unreadable }
      | some newFree =>
        if targetsMet newFree reserve after ireserve then { run with result := .ok () }
        else
          let guard := StallGuard.record stale (decide (reserve ≤ newFree)) before after
          if decide (0 < ireserve) && guard.2 then
            { run with latch := after.elim run.latch (writeLatch w · run.latch), result := .error .notRelieved }
          else releaseEach w reserve ireserve (if 0 < ireserve then guard.1 else stale) rest run
    else releaseEach w reserve ireserve stale rest { run with snapshots := released.1 }

/-- A run with a target unmet. -/
def evict (w : SpaceWorld) (free reserve : Nat) (policy : InodePolicy) (run : SpaceRun) : SpaceRun :=
  let halted := { run with latch := writeLatch w (policy.free.getD 0) run.latch }
  let snapshots := listSnapshotsByAge run.snapshots
  if snapshots.isEmpty then
    if reserve ≤ free then { halted with result := .error .indexLowWithoutSnapshots }
    else { run with result := .error .noSnapshots }
  else if (releasable snapshots).isEmpty then
    if reserve ≤ free then { halted with result := .error .indexLowOnlyProtected }
    else { run with result := .error .onlyProtected }
  else releaseEach w reserve policy.reserve 0 (releasable snapshots) run

/-- Release old snapshots until the targets are met (`manage_free_space`). -/
def manageFreeSpace (w : SpaceWorld) (s : Snapshots) (latch : Option Nat) : SpaceRun :=
  let failed := fun e => (⟨s, latch, [], .error e⟩ : SpaceRun)
  if !w.locked then failed .locked
  else
    match w.space with
    | none => failed .unreadable
    | some (total, free) =>
      if total ≤ reserveOf w total then failed .reserveTooLarge
      else
        let policy := policyUnder w latch
        let run : SpaceRun := ⟨s, latchUnder w latch, [], .ok ()⟩
        if targetsMet free (reserveOf w total) policy.free policy.reserve then run
        else evict w free (reserveOf w total) policy run

/-! ## Age order -/

/-- One candidate is older than another: by the time of the image, then by name. -/
def Older (s : Snapshots) (a b : Text) : Prop :=
  ∃ ta tb, imageTime s a = some ta ∧ imageTime s b = some tb ∧ toLex (ta, a) < toLex (tb, b)

theorem mem_agedSnapshots {s : Snapshots} {t : Nat} {name : Text} :
    toLex (t, name) ∈ agedSnapshots s ↔ imageTime s name = some t := by
  unfold agedSnapshots
  rw [List.mem_insertionSort, List.mem_filterMap]
  constructor
  · rintro ⟨n, -, hn⟩
    obtain ⟨t', ht', heq⟩ := Option.map_eq_some_iff.mp hn
    obtain ⟨rfl, rfl⟩ := Prod.mk.inj (toLex.injective heq)
    exact ht'
  · intro h
    refine ⟨name, ?_, by rw [h]; rfl⟩
    unfold imageTime at h
    split at h
    · rename_i slot hget
      exact List.mem_map.mpr ⟨(name, .dir slot), SortedMap.mem_entries.mpr hget, rfl⟩
    · simp at h

theorem pairwise_agedSnapshots (s : Snapshots) : (agedSnapshots s).Pairwise (· < ·) := by
  have hle : (agedSnapshots s).Pairwise (· ≤ ·) := List.pairwise_insertionSort _ _
  have hnames : (s.entries.map Prod.fst).Nodup := by
    refine List.pairwise_map.mpr (s.sorted.imp fun h => ne_of_lt h)
  have hnodup : (agedSnapshots s).Nodup := by
    refine (List.perm_insertionSort _ _).nodup_iff.mpr (hnames.filterMap fun a b c ha hb => ?_)
    obtain ⟨ta, -, rfl⟩ := Option.map_eq_some_iff.mp ha
    obtain ⟨tb, -, heq⟩ := Option.map_eq_some_iff.mp hb
    exact (Prod.mk.inj (toLex.injective heq)).2.symm
  exact hle.imp₂ (fun _ _ hle hne => lt_of_le_of_ne hle hne) hnodup

theorem mem_listSnapshotsByAge {s : Snapshots} {name : Text} :
    name ∈ listSnapshotsByAge s ↔ ∃ t, imageTime s name = some t := by
  unfold listSnapshotsByAge
  rw [List.mem_map]
  constructor
  · rintro ⟨age, hage, rfl⟩
    exact ⟨(ofLex age).1, mem_agedSnapshots.mp hage⟩
  · rintro ⟨t, ht⟩
    exact ⟨toLex (t, name), mem_agedSnapshots.mpr ht, rfl⟩

/-- **The candidates stand in age order.** -/
theorem pairwise_listSnapshotsByAge (s : Snapshots) : (listSnapshotsByAge s).Pairwise (Older s) := by
  refine List.pairwise_map.mpr ((pairwise_agedSnapshots s).imp_of_mem fun {a b} ha hb hlt => ?_)
  exact ⟨(ofLex a).1, (ofLex b).1, mem_agedSnapshots.mp ha, mem_agedSnapshots.mp hb, hlt⟩

theorem Older.asymm {s : Snapshots} {a b : Text} (h : Older s a b) : ¬ Older s b a := by
  rintro ⟨tb', ta', hb', ha', hlt'⟩
  obtain ⟨ta, tb, ha, hb, hlt⟩ := h
  obtain rfl := Option.some.inj (ha.symm.trans ha')
  obtain rfl := Option.some.inj (hb.symm.trans hb')
  exact lt_asymm hlt hlt'

theorem Older.ne {s : Snapshots} {a b : Text} (h : Older s a b) : a ≠ b := by
  rintro rfl
  exact h.asymm h

theorem nodup_listSnapshotsByAge (s : Snapshots) : (listSnapshotsByAge s).Nodup :=
  (pairwise_listSnapshotsByAge s).imp fun h => h.ne

/-- **The highest slot is the last of those with the highest number.** -/
theorem highestSlot_spec {R : Text → Text → Prop} {names : List Text} (hR : names.Pairwise R) :
    (highestSlot names = none ∧ ∀ c ∈ names, slotNum c = none)
      ∨ ∃ h m, highestSlot names = some h ∧ h ∈ names ∧ slotNum h = some m
        ∧ ∀ c ∈ names, ∀ n, slotNum c = some n → c = h ∨ n < m ∨ n = m ∧ R c h := by
  induction names using List.reverseRecOn with
  | nil => exact Or.inl ⟨rfl, fun c hc => absurd hc List.not_mem_nil⟩
  | append_singleton l x ih =>
    obtain ⟨hl, -, hx⟩ := List.pairwise_append.mp hR
    have hstep : highestSlot (l ++ [x]) = higherSlot (highestSlot l) x := by
      unfold highestSlot
      rw [List.foldl_append]
      rfl
    rw [hstep]
    unfold higherSlot
    cases hnum : slotNum x with
    | none =>
      rcases ih hl with ⟨hnone, hall⟩ | ⟨h, m, hh, hmem, hm, hall⟩
      · refine Or.inl ⟨hnone, fun c hc => ?_⟩
        rcases List.mem_append.mp hc with hc | hc
        · exact hall c hc
        · rw [List.mem_singleton.mp hc]
          exact hnum
      · refine Or.inr ⟨h, m, hh, List.mem_append_left _ hmem, hm, fun c hc n hn => ?_⟩
        rcases List.mem_append.mp hc with hc | hc
        · exact hall c hc n hn
        · rw [List.mem_singleton.mp hc, hnum] at hn
          simp at hn
    | some n =>
      dsimp only
      have hlast : x ∈ l ++ [x] := List.mem_append_right _ (List.mem_singleton.mpr rfl)
      rcases ih hl with ⟨hnone, hall⟩ | ⟨h, m, hh, hmem, hm, hall⟩
      · rw [hnone, if_neg (by simp)]
        refine Or.inr ⟨x, n, rfl, hlast, hnum, fun c hc k hk => ?_⟩
        rcases List.mem_append.mp hc with hc | hc
        · rw [hall c hc] at hk
          simp at hk
        · exact Or.inl (List.mem_singleton.mp hc)
      · rw [hh, Option.bind_some, hm, Option.any_some]
        split
        · rename_i hlt
          have hlt : n < m := of_decide_eq_true hlt
          refine Or.inr ⟨h, m, rfl, List.mem_append_left _ hmem, hm, fun c hc k hk => ?_⟩
          rcases List.mem_append.mp hc with hc | hc
          · exact hall c hc k hk
          · rw [List.mem_singleton.mp hc, hnum] at hk
            exact Or.inr (Or.inl (by rw [← Option.some.inj hk]; exact hlt))
        · rename_i hle
          have hle : m ≤ n := not_lt.mp fun hlt => hle (decide_eq_true hlt)
          refine Or.inr ⟨x, n, rfl, hlast, hnum, fun c hc k hk => ?_⟩
          rcases List.mem_append.mp hc with hc | hc
          · have hkm : k ≤ m := by
              rcases hall c hc k hk with rfl | hlt | ⟨rfl, -⟩
              · exact le_of_eq (Option.some.inj (hk.symm.trans hm))
              · exact le_of_lt hlt
              · exact le_rfl
            rcases lt_or_eq_of_le (le_trans hkm hle) with hlt | heq
            · exact Or.inr (Or.inl hlt)
            · exact Or.inr (Or.inr ⟨heq, hx c hc x (List.mem_singleton.mpr rfl)⟩)
          · exact Or.inl (List.mem_singleton.mp hc)

theorem releasable_sublist (names : List Text) : (releasable names).Sublist names.dropLast := by
  unfold releasable
  split
  · exact List.nil_sublist _
  · exact List.filter_sublist

/-- What is older than something releasable is releasable, unless it is the highest slot. -/
theorem mem_releasable {names : List Text} {c : Text} (hlen : 2 ≤ names.length) (hc : c ∈ names.dropLast)
    (hne : some c ≠ highestSlot names) : c ∈ releasable names := by
  unfold releasable
  rw [if_neg (not_lt.mpr hlen)]
  exact List.mem_filter.mpr ⟨hc, decide_eq_true hne⟩

/-! ## What a run releases -/

/-- Whether the removal of a snapshot succeeds. -/
def removes (w : SpaceWorld) (name : Text) : Bool := (w.attempt name).removal.done

/-- After the release of a snapshot some target is unmet. -/
def UnmetAfter (w : SpaceWorld) (reserve ireserve : Nat) (name : Text) : Prop :=
  ∃ newFree, (w.attempt name).space = some newFree
    ∧ targetsMet newFree reserve (ifPolicy ireserve (w.attempt name).after) ireserve = false

/-- The names of a list are directories. -/
def AllDirs (s : Snapshots) (names : List Text) : Prop := ∀ name ∈ names, ∃ slot, s.get name = some (.dir slot)

theorem releaseSnapshotLocked_spec {w : SpaceWorld} {s : Snapshots} {snap : Text} {rest : List Text}
    (hdirs : AllDirs s (snap :: rest)) (hnodup : (snap :: rest).Nodup) :
    (releaseSnapshotLocked (w.attempt snap) s snap).2 = removes w snap
      ∧ AllDirs (releaseSnapshotLocked (w.attempt snap) s snap).1 rest := by
  obtain ⟨slot, hslot⟩ := hdirs snap List.mem_cons_self
  have hrest : ∀ name ∈ rest, name ≠ snap ∧ ∃ slot, s.get name = some (.dir slot) := fun name hname =>
    ⟨fun heq => (List.nodup_cons.mp hnodup).1 (heq ▸ hname), hdirs name (List.mem_cons_of_mem _ hname)⟩
  unfold releaseSnapshotLocked removes
  rw [hslot]
  dsimp only
  split
  · rename_i hdone
    refine ⟨hdone.symm, fun name hname => ?_⟩
    obtain ⟨hne, hdir⟩ := hrest name hname
    rw [SortedMap.get_remove, if_neg hne]
    exact hdir
  · rename_i hdone
    refine ⟨(Bool.eq_false_of_not_eq_true hdone).symm, fun name hname => ?_⟩
    obtain ⟨hne, hdir⟩ := hrest name hname
    rw [SortedMap.get_insert, if_neg hne]
    exact hdir

/-- **The loop releases, in order, what can be removed of the first so many names, and goes on only while a target is
unmet.** -/
theorem releaseEach_released (w : SpaceWorld) (reserve ireserve : Nat) (l : List Text) (stale : Nat) (run : SpaceRun)
    (hdirs : AllDirs run.snapshots l) (hnodup : l.Nodup) :
    ∃ k, (releaseEach w reserve ireserve stale l run).released = run.released ++ (l.take k).filter (removes w)
      ∧ ∀ r ∈ ((l.take k).filter (removes w)).dropLast, UnmetAfter w reserve ireserve r := by
  induction l generalizing stale run with
  | nil => exact ⟨0, by simp [releaseEach], by simp⟩
  | cons snap rest ih =>
    obtain ⟨hdone, hleft⟩ := releaseSnapshotLocked_spec (w := w) hdirs hnodup
    have hrest := (List.nodup_cons.mp hnodup).2
    -- the loop ends with this release
    have hend : removes w snap = true → run.released ++ [snap] = run.released ++ ((snap :: rest).take 1).filter (removes w)
        ∧ ∀ r ∈ (((snap :: rest).take 1).filter (removes w)).dropLast, UnmetAfter w reserve ireserve r := by
      intro h
      simp [h]
    rw [releaseEach]
    dsimp only
    rw [hdone]
    split
    · rename_i hremoves
      split
      · exact ⟨1, hend hremoves⟩
      · rename_i newFree hspace
        split
        · exact ⟨1, hend hremoves⟩
        · rename_i hunmet
          split
          · exact ⟨1, hend hremoves⟩
          · obtain ⟨k, hk, hall⟩ := ih (if 0 < ireserve then
                (StallGuard.record stale (decide (reserve ≤ newFree)) (ifPolicy ireserve (w.attempt snap).before)
                  (ifPolicy ireserve (w.attempt snap).after)).1 else stale)
              { run with
                snapshots := (releaseSnapshotLocked (w.attempt snap) run.snapshots snap).1
                released := run.released ++ [snap] } hleft hrest
            refine ⟨k + 1, ?_, ?_⟩
            · rw [hk, List.take_succ_cons, List.filter_cons_of_pos hremoves, List.append_assoc]
              rfl
            · rw [List.take_succ_cons, List.filter_cons_of_pos hremoves]
              intro r hr
              cases hnext : (rest.take k).filter (removes w) with
              | nil =>
                rw [hnext] at hr
                simp at hr
              | cons r' l' =>
                rw [hnext, List.dropLast_cons_cons] at hr
                rcases List.mem_cons.mp hr with rfl | hr
                · exact ⟨newFree, hspace, Bool.eq_false_of_not_eq_true hunmet⟩
                · exact hall r (by rw [hnext]; exact hr)
    · rename_i hkept
      obtain ⟨k, hk, hall⟩ := ih stale { run with
        snapshots := (releaseSnapshotLocked (w.attempt snap) run.snapshots snap).1 } hleft hrest
      refine ⟨k + 1, ?_, ?_⟩
      · rw [hk, List.take_succ_cons, List.filter_cons_of_neg hkept]
      · rw [List.take_succ_cons, List.filter_cons_of_neg hkept]
        exact hall

/-- The candidates are directories. -/
theorem allDirs_of_sublist {s : Snapshots} {names : List Text} (h : names.Sublist (listSnapshotsByAge s)) : AllDirs s names := by
  intro name hname
  obtain ⟨t, ht⟩ := mem_listSnapshotsByAge.mp (h.subset hname)
  unfold imageTime at ht
  split at ht
  · rename_i slot hslot
    exact ⟨slot, hslot⟩
  · simp at ht

theorem releasable_sublist_list (names : List Text) : (releasable names).Sublist names :=
  (releasable_sublist names).trans (List.dropLast_sublist names)

/-- **What a run releases**: only while some target is unmet, at the start and after each release but the last; oldest
first, with none of the releasable passed over but those that cannot be removed; never the newest, and never the highest
slot. -/
structure ReleasedWell (w : SpaceWorld) (s : Snapshots) (latch : Option Nat) (released : List Text) : Prop where
  unmet : released ≠ [] → ∃ total free, w.space = some (total, free)
    ∧ targetsMet free (reserveOf w total) (policyUnder w latch).free (policyUnder w latch).reserve = false
    ∧ ∀ r ∈ released.dropLast, UnmetAfter w (reserveOf w total) (policyUnder w latch).reserve r
  oldestFirst : released.Pairwise (Older s)
  noneSkipped : ∀ r ∈ released, ∀ c, Older s c r → c ∈ released ∨ removes w c = false ∨ highestSlot (listSnapshotsByAge s) = some c
  newest : ∀ r ∈ released, ∃ c, Older s r c
  highest : ∀ r ∈ released, ∀ n, slotNum r = some n →
    ∃ c m, (∃ t, imageTime s c = some t) ∧ slotNum c = some m ∧ (n < m ∨ n = m ∧ Older s r c)

theorem releasedWell_nil (w : SpaceWorld) (s : Snapshots) (latch : Option Nat) : ReleasedWell w s latch [] where
  unmet h := absurd rfl h
  oldestFirst := List.Pairwise.nil
  noneSkipped _ hr := absurd hr List.not_mem_nil
  newest _ hr := absurd hr List.not_mem_nil
  highest _ hr := absurd hr List.not_mem_nil

/-- What is taken from the front of the releasable. -/
theorem releasedWell_take {w : SpaceWorld} {s : Snapshots} {latch : Option Nat} {total free k : Nat} {released : List Text}
    (hspace : w.space = some (total, free))
    (hunmet : targetsMet free (reserveOf w total) (policyUnder w latch).free (policyUnder w latch).reserve = false)
    (hreleased : released = ((releasable (listSnapshotsByAge s)).take k).filter (removes w))
    (hafter : ∀ r ∈ released.dropLast, UnmetAfter w (reserveOf w total) (policyUnder w latch).reserve r) :
    ReleasedWell w s latch released := by
  have hpairs := pairwise_listSnapshotsByAge s
  have hsub : released.Sublist (releasable (listSnapshotsByAge s)) := by
    rw [hreleased]
    exact List.filter_sublist.trans (List.take_sublist _ _)
  have hlast : ∀ r ∈ releasable (listSnapshotsByAge s), 2 ≤ (listSnapshotsByAge s).length
      ∧ r ∈ (listSnapshotsByAge s).dropLast ∧ highestSlot (listSnapshotsByAge s) ≠ some r := by
    intro r hr
    unfold releasable at hr
    split at hr
    · simp at hr
    · rename_i hlen
      obtain ⟨hmem, hne⟩ := List.mem_filter.mp hr
      exact ⟨not_lt.mp hlen, hmem, fun heq => of_decide_eq_true hne heq.symm⟩
  refine ⟨fun _ => ⟨total, free, hspace, hunmet, hafter⟩, hpairs.sublist (hsub.trans (releasable_sublist_list _)), ?_, ?_, ?_⟩
  · intro r hr c hc
    obtain ⟨hlen, hmem, -⟩ := hlast r (hsub.subset hr)
    by_cases hhighest : highestSlot (listSnapshotsByAge s) = some c
    · exact Or.inr (Or.inr hhighest)
    -- an older candidate stands before it in the list, and among the releasable
    have hcmem : c ∈ (listSnapshotsByAge s).dropLast := by
      obtain ⟨t, ht⟩ : ∃ t, imageTime s c = some t := hc.elim fun t h => ⟨t, h.choose_spec.1⟩
      have hc' : c ∈ listSnapshotsByAge s := mem_listSnapshotsByAge.mpr ⟨t, ht⟩
      have hne : listSnapshotsByAge s ≠ [] := List.ne_nil_of_mem hc'
      rw [← List.dropLast_concat_getLast hne] at hc'
      rcases List.mem_append.mp hc' with hfront | hend
      · exact hfront
      · have hsplit := hpairs
        rw [← List.dropLast_concat_getLast hne] at hsplit
        exact absurd hc (((List.pairwise_append.mp hsplit).2.2 r hmem c hend).asymm)
    have hcrel := mem_releasable hlen hcmem fun heq => hhighest heq.symm
    rw [hreleased] at hr ⊢
    have hrtake := (List.mem_filter.mp hr).1
    have hsplit := hpairs.sublist (releasable_sublist_list (listSnapshotsByAge s))
    rw [← List.take_append_drop k (releasable (listSnapshotsByAge s))] at hsplit hcrel
    rcases List.mem_append.mp hcrel with hctake | hcdrop
    · cases hremoves : removes w c with
      | true => exact Or.inl (List.mem_filter.mpr ⟨hctake, hremoves⟩)
      | false => exact Or.inr (Or.inl rfl)
    · exact absurd hc (((List.pairwise_append.mp hsplit).2.2 r hrtake c hcdrop).asymm)
  · intro r hr
    obtain ⟨hlen, hmem, -⟩ := hlast r (hsub.subset hr)
    have hne : listSnapshotsByAge s ≠ [] := by
      intro hnil
      rw [hnil] at hlen
      simp at hlen
    refine ⟨(listSnapshotsByAge s).getLast hne, ?_⟩
    have hsplit := hpairs
    rw [← List.dropLast_concat_getLast hne] at hsplit
    exact (List.pairwise_append.mp hsplit).2.2 r hmem _ (List.mem_singleton.mpr rfl)
  · intro r hr n hn
    obtain ⟨hlen, hmem, hnot⟩ := hlast r (hsub.subset hr)
    have hr : r ∈ listSnapshotsByAge s := (List.dropLast_sublist _).subset hmem
    rcases highestSlot_spec hpairs with ⟨-, hall⟩ | ⟨h, m, hh, hhmem, hm, hall⟩
    · rw [hall r hr] at hn
      simp at hn
    · refine ⟨h, m, mem_listSnapshotsByAge.mp hhmem, hm, ?_⟩
      rcases hall r hr n hn with rfl | hlt
      · exact absurd hh hnot
      · exact hlt

/-- **Every run releases only what it may, in order.** -/
theorem manageFreeSpace_releasedWell (w : SpaceWorld) (s : Snapshots) (latch : Option Nat) :
    ReleasedWell w s latch (manageFreeSpace w s latch).released := by
  have hnil := releasedWell_nil w s latch
  unfold manageFreeSpace
  dsimp only
  split
  · exact hnil
  · split
    · exact hnil
    · rename_i total free hspace
      split
      · exact hnil
      · split
        · exact hnil
        · rename_i hunmet
          unfold evict
          dsimp only
          split
          · split
            · exact hnil
            · exact hnil
          · split
            · split
              · exact hnil
              · exact hnil
            · have hsub := releasable_sublist_list (listSnapshotsByAge s)
              obtain ⟨k, hk, hall⟩ := releaseEach_released w (reserveOf w total) (policyUnder w latch).reserve
                (releasable (listSnapshotsByAge s)) 0 ⟨s, latchUnder w latch, [], .ok ()⟩ (allDirs_of_sublist hsub)
                ((nodup_listSnapshotsByAge s).sublist hsub)
              rw [List.nil_append] at hk
              refine releasedWell_take hspace (Bool.eq_false_of_not_eq_true hunmet) hk ?_
              rw [hk]
              exact hall

/-! ## Runs under inode pressure -/

/-- The snapshots, the latched count, and how many snapshots were released since the start or since the free inodes last
rose above the latched count. -/
structure SpaceState where
  snapshots : Snapshots
  latch : Option Nat
  released : Nat

/-- What happens: a run, or any change of the snapshots between runs. -/
inductive SpaceStep where
  | run (w : SpaceWorld)
  | change (snapshots : Snapshots)

/-- The state a step leaves. -/
def stepSpace (st : SpaceState) : SpaceStep → Option SpaceState
  | .run w =>
    let run := manageFreeSpace w st.snapshots st.latch
    some ⟨run.snapshots, run.latch, (if risenAbove w st.latch then 0 else st.released) + run.released.length⟩
  | .change snapshots => some { st with snapshots := snapshots }

/-- Releases free no inodes: the byte target is met throughout, no count after a release is above the one before it, and
none of the run is above its first. -/
structure Stalled (w : SpaceWorld) : Prop where
  block : ∀ total free, w.space = some (total, free) → reserveOf w total ≤ free
    ∧ ∀ snap newFree, (w.attempt snap).space = some newFree → reserveOf w total ≤ newFree
  gain : ∀ snap before after, (w.attempt snap).before = some before → (w.attempt snap).after = some after → after ≤ before
  first : ∀ total free, w.inodes = some (total, free) → ∀ snap before, (w.attempt snap).before = some before → before ≤ free

/-- Whether the run is driven by inodes: they count, and are at or below their reserve. -/
def inodeDriven (w : SpaceWorld) (latch : Option Nat) : Bool :=
  (policyUnder w latch).free.any fun free => decide (free ≤ (policyUnder w latch).reserve)

/-- Every count a release asks for can be read. -/
def readable (a : Attempt) : Bool := a.before.isSome && a.space.isSome && a.after.isSome

/-- A run driven by inodes either releases nothing, because no releasable snapshot can be removed, or has enough of them
to reach the verdict: the inode target is on, the latch can be written and the counts can be read. -/
def Decisive (w : SpaceWorld) (s : Snapshots) (latch : Option Nat) : Prop :=
  inodeDriven w latch = true →
    (∀ snap ∈ releasable (listSnapshotsByAge s), removes w snap = false)
      ∨ 0 < (policyUnder w latch).reserve ∧ w.latchOk = true
        ∧ (∀ snap ∈ releasable (listSnapshotsByAge s), readable (w.attempt snap) = true)
        ∧ maxStaleInodeReleases ≤ (releasable (listSnapshotsByAge s)).countP (removes w)

/-- A settled step under such pressure. -/
def Settled (st : SpaceState) : SpaceStep → Prop
  | .run w => Stalled w ∧ Decisive w st.snapshots st.latch
  | .change _ => True

/-- **Three releases without gain trip the guard.** -/
theorem releaseEach_stalled {w : SpaceWorld} (reserve : Nat) {ireserve : Nat} (hlatch : w.latchOk = true) (hpolicy : 0 < ireserve)
    (l : List Text) (stale : Nat) (run : SpaceRun) (hstale : stale < maxStaleInodeReleases) (hdirs : AllDirs run.snapshots l) (hnodup : l.Nodup)
    (hread : ∀ snap ∈ l, ∃ before newFree after, (w.attempt snap).before = some before ∧ (w.attempt snap).space = some newFree
      ∧ (w.attempt snap).after = some after ∧ reserve ≤ newFree ∧ after ≤ before ∧ after ≤ ireserve) :
    (releaseEach w reserve ireserve stale l run).released.length
        = run.released.length + min (l.countP (removes w)) (maxStaleInodeReleases - stale)
      ∧ (maxStaleInodeReleases ≤ stale + l.countP (removes w) → ∃ f, (releaseEach w reserve ireserve stale l run).latch = some f) := by
  induction l generalizing stale run with
  | nil =>
    refine ⟨by simp [releaseEach], fun h => ?_⟩
    simp at h
    omega
  | cons snap rest ih =>
    obtain ⟨hdone, hleft⟩ := releaseSnapshotLocked_spec (w := w) hdirs hnodup
    have hrest := (List.nodup_cons.mp hnodup).2
    have hreadRest := fun snap' h => hread snap' (List.mem_cons_of_mem _ h)
    obtain ⟨before, newFree, after, hbefore, hspace, hafter, hblock, hgain, hlow⟩ := hread snap List.mem_cons_self
    rw [releaseEach]
    dsimp only
    rw [hdone]
    split
    · rename_i hremoves
      have hunmet : targetsMet newFree reserve (some after) ireserve = false := by
        simp [targetsMet, hlow]
      have hrecord : StallGuard.record stale (decide (reserve ≤ newFree)) (some before) (some after)
          = (stale + 1, decide (maxStaleInodeReleases ≤ stale + 1)) := by
        rw [StallGuard.record, if_pos (decide_eq_true hblock)]
        simp [hgain]
      rw [hspace, hafter, hbefore, ifPolicy, ifPolicy, List.countP_cons_of_pos hremoves]
      dsimp only
      rw [if_pos hpolicy, if_pos hpolicy, hrecord, hunmet, if_neg Bool.false_ne_true]
      split
      · rename_i htrip
        have htrip : maxStaleInodeReleases ≤ stale + 1 := by simpa [hpolicy] using htrip
        refine ⟨?_, fun _ => ⟨after, ?_⟩⟩
        · rw [List.length_append, List.length_singleton]
          omega
        · simp [writeLatch, hlatch]
      · rename_i hgo
        have hgo : stale + 1 < maxStaleInodeReleases := by simpa [hpolicy] using hgo
        obtain ⟨hlen, hsome⟩ := ih (stale + 1) { run with
          snapshots := (releaseSnapshotLocked (w.attempt snap) run.snapshots snap).1
          released := run.released ++ [snap] } hgo hleft hrest hreadRest
        refine ⟨?_, fun h => hsome (by omega)⟩
        rw [hlen, List.length_append, List.length_singleton]
        omega
    · rename_i hkept
      rw [List.countP_cons_of_neg hkept]
      exact ih stale _ hstale hleft hrest hreadRest

/-- Names none of which can be removed leave the list as it was. -/
theorem releaseEach_none {w : SpaceWorld} {reserve ireserve : Nat} (l : List Text) (stale : Nat) (run : SpaceRun)
    (hdirs : AllDirs run.snapshots l) (hnodup : l.Nodup) (hnone : ∀ snap ∈ l, removes w snap = false) :
    (releaseEach w reserve ireserve stale l run).released = run.released := by
  obtain ⟨k, hk, -⟩ := releaseEach_released w reserve ireserve l stale run hdirs hnodup
  have hempty : (l.take k).filter (removes w) = [] := List.filter_eq_nil_iff.mpr fun snap hsnap => by
    rw [hnone snap (List.take_subset k l hsnap)]
    exact Bool.false_ne_true
  rw [hk, hempty, List.append_nil]

/-- The inode target that counts is the one that was read. -/
theorem policyUnder_free {w : SpaceWorld} {latch : Option Nat} {free : Nat} (h : (policyUnder w latch).free = some free) :
    (latch = none ∨ risenAbove w latch = true) ∧ ∃ total, w.inodes = some (total, free) := by
  unfold policyUnder at h
  split at h
  · simp at h
  · rename_i hnot
    refine ⟨?_, ?_⟩
    · cases latch with
      | none => exact Or.inl rfl
      | some latched => exact Or.inr (by simpa using hnot)
    · unfold inodePolicy at h
      split at h
      · rename_i total free' heq
        split at h
        · simp at h
        · split at heq
          · exact ⟨total, by rw [heq, Option.some.inj h]⟩
          · simp at heq
      · simp at h

/-- **A settled run**: it releases at most three snapshots, and only where no verdict stood; with three of them it leaves
one. -/
theorem manageFreeSpace_settled {w : SpaceWorld} {s : Snapshots} {latch : Option Nat} (hstalled : Stalled w)
    (hdecisive : Decisive w s latch) :
    (manageFreeSpace w s latch).released = []
        ∧ ((manageFreeSpace w s latch).latch = none → latch = none ∨ risenAbove w latch = true)
      ∨ (manageFreeSpace w s latch).released.length ≤ maxStaleInodeReleases
        ∧ (latch = none ∨ risenAbove w latch = true) ∧ ∃ f, (manageFreeSpace w s latch).latch = some f := by
  have hunder : latchUnder w latch = none → latch = none ∨ risenAbove w latch = true := by
    intro h
    unfold latchUnder at h
    split at h
    · rename_i hrisen
      rw [Bool.and_eq_true] at hrisen
      exact Or.inr hrisen.1
    · exact Or.inl h
  unfold manageFreeSpace
  dsimp only
  split
  · exact Or.inl ⟨rfl, fun h => Or.inl h⟩
  · split
    · exact Or.inl ⟨rfl, fun h => Or.inl h⟩
    · rename_i total free hspace
      obtain ⟨hblock, hblockAfter⟩ := hstalled.block total free hspace
      split
      · exact Or.inl ⟨rfl, fun h => Or.inl h⟩
      · split
        · exact Or.inl ⟨rfl, hunder⟩
        · rename_i hunmet
          -- the byte target is met, so it is the inodes that are short
          obtain ⟨ifree, hifree, hlow⟩ : ∃ ifree, (policyUnder w latch).free = some ifree ∧ ifree ≤ (policyUnder w latch).reserve := by
            rw [targetsMet, decide_eq_true hblock, Bool.true_and] at hunmet
            cases hfree : (policyUnder w latch).free with
            | none =>
              rw [hfree] at hunmet
              simp at hunmet
            | some ifree =>
              rw [hfree] at hunmet
              exact ⟨ifree, rfl, by simpa using hunmet⟩
          obtain ⟨hverdict, itotal, hinodes⟩ := policyUnder_free hifree
          unfold evict
          dsimp only
          split
          · exact Or.inl ⟨rfl, fun _ => hverdict⟩
          · split
            · exact Or.inl ⟨rfl, fun _ => hverdict⟩
            · have hsub := releasable_sublist_list (listSnapshotsByAge s)
              have hdirs := allDirs_of_sublist hsub
              have hnodup := (nodup_listSnapshotsByAge s).sublist hsub
              have hdriven : inodeDriven w latch = true := by
                rw [inodeDriven, hifree]
                exact decide_eq_true hlow
              rcases hdecisive hdriven with hnone | ⟨hpolicy, hlatch, hread, hmany⟩
              · exact Or.inl ⟨releaseEach_none _ _ ⟨s, latchUnder w latch, [], .ok ()⟩ hdirs hnodup hnone, fun _ => hverdict⟩
              · obtain ⟨hlen, hsome⟩ := releaseEach_stalled (w := w) (reserveOf w total) hlatch hpolicy
                  (releasable (listSnapshotsByAge s)) 0 ⟨s, latchUnder w latch, [], .ok ()⟩ (by decide) hdirs hnodup
                  fun snap hsnap => by
                    have hreads := hread snap hsnap
                    rw [readable, Bool.and_eq_true, Bool.and_eq_true] at hreads
                    obtain ⟨before, hbefore⟩ := Option.isSome_iff_exists.mp hreads.1.1
                    obtain ⟨newFree, hnewFree⟩ := Option.isSome_iff_exists.mp hreads.1.2
                    obtain ⟨after, hafter⟩ := Option.isSome_iff_exists.mp hreads.2
                    have hgain := hstalled.gain snap before after hbefore hafter
                    have hfirst := hstalled.first itotal ifree hinodes snap before hbefore
                    exact ⟨before, newFree, after, hbefore, hnewFree, hafter, hblockAfter snap newFree hnewFree, hgain,
                      le_trans hgain (le_trans hfirst hlow)⟩
                refine Or.inr ⟨?_, hverdict, hsome (by omega)⟩
                rw [hlen, List.length_nil, Nat.zero_add, Nat.sub_zero]
                exact min_le_right _ _

/-- What a settled sequence keeps: few were released, and none where no verdict stands. -/
def FewReleased (st : SpaceState) : Prop := st.released ≤ maxStaleInodeReleases ∧ (st.latch = none → st.released = 0)

theorem fewReleased_step {st st' : SpaceState} {a : SpaceStep} (h : FewReleased st) (hok : Settled st a)
    (hstep : stepSpace st a = some st') : FewReleased st' := by
  cases a with
  | change snapshots =>
    obtain rfl := Option.some.inj hstep
    exact h
  | run w =>
    obtain rfl := Option.some.inj hstep
    obtain ⟨hstalled, hdecisive⟩ := hok
    -- what was released before this run and still counts
    have hbase : (if risenAbove w st.latch then 0 else st.released) ≤ maxStaleInodeReleases := by
      split
      · exact Nat.zero_le _
      · exact h.1
    have hzero : st.latch = none ∨ risenAbove w st.latch = true → (if risenAbove w st.latch then 0 else st.released) = 0 := by
      rintro (hlatch | hrisen)
      · rw [h.2 hlatch]
        split
        · rfl
        · rfl
      · rw [if_pos hrisen]
    unfold FewReleased
    dsimp only
    rcases manageFreeSpace_settled hstalled hdecisive with ⟨hnone, hverdict⟩ | ⟨hlen, hverdict, f, hf⟩
    · rw [hnone, List.length_nil, Nat.add_zero]
      exact ⟨hbase, fun hlatch => hzero (hverdict hlatch)⟩
    · rw [hzero hverdict, Nat.zero_add]
      refine ⟨hlen, fun hlatch => ?_⟩
      rw [hf] at hlatch
      simp at hlatch

/-- **Over any settled sequence of runs at most three snapshots are released until the free inodes rise above the latched
count, and every run releases only while a target is unmet, oldest first, and neither the newest nor the highest slot.** -/
theorem released_le_of_reaches {s : Snapshots} {latch : Option Nat} {st : SpaceState}
    (h : Reaches stepSpace Settled ⟨s, latch, 0⟩ st) :
    st.released ≤ maxStaleInodeReleases
      ∧ ∀ w, ReleasedWell w st.snapshots st.latch (manageFreeSpace w st.snapshots st.latch).released := by
  have hfew : FewReleased st := h.invariant ⟨Nat.zero_le _, fun _ => rfl⟩ fun _ _ _ hst hok hstep =>
    fewReleased_step hst hok hstep
  exact ⟨hfew.1, fun w => manageFreeSpace_releasedWell w st.snapshots st.latch⟩

/-- Five free inodes of a thousand, whatever is released, and bytes enough. -/
def stalledWorld : SpaceWorld where
  locked := true
  reserveBytes := some 0
  space := some (10, 10)
  rwMounted := true
  inodes := some (1000, 5)
  latchOk := true
  unlatchOk := true
  attempt _ := ⟨some 5, ⟨[], true⟩, some 10, some 5⟩

theorem stalledWorld_stalled : Stalled stalledWorld where
  block total free h := by
    refine ⟨Nat.zero_le _, fun snap newFree _ => Nat.zero_le _⟩
  gain snap before after hbefore hafter := by
    rw [← Option.some.inj hbefore, ← Option.some.inj hafter]
  first total free hinodes snap before hbefore := by
    rw [← Option.some.inj hbefore, ← (Prod.mk.inj (Option.some.inj hinodes)).2]

/-- Snapshots of these slots, taken in that order. -/
def takenInOrder (slots : List Nat) : Snapshots :=
  slots.foldl (fun s n => s.insert (snapName n) (.dir { SlotDir.empty with image := some n, toc := some (some oneClip) }))
    SortedMap.empty

/-- With five snapshots a run releases three and leaves its verdict. -/
theorem released_le_five_snapshots :
    ∃ st, stepSpace ⟨takenInOrder [1, 2, 3, 4, 5], none, 0⟩ (.run stalledWorld) = some st
      ∧ st.latch = some 5 ∧ st.released = 3 ∧ st.released ≤ maxStaleInodeReleases := by
  obtain ⟨st, hst⟩ : ∃ st, stepSpace ⟨takenInOrder [1, 2, 3, 4, 5], none, 0⟩ (.run stalledWorld) = some st := ⟨_, rfl⟩
  have hleft : ∀ st ∈ stepSpace ⟨takenInOrder [1, 2, 3, 4, 5], none, 0⟩ (.run stalledWorld),
      st.latch = some 5 ∧ st.released = 3 := by decide +kernel
  have hdecisive : Decisive stalledWorld (takenInOrder [1, 2, 3, 4, 5]) none := fun _ =>
    Or.inr ⟨by decide +kernel, rfl, by decide +kernel, by decide +kernel⟩
  obtain ⟨hlatch, hreleased⟩ := hleft st hst
  exact ⟨st, hst, hlatch, hreleased,
    (released_le_of_reaches (.tail (.run stalledWorld) .refl ⟨stalledWorld_stalled, hdecisive⟩ hst)).1⟩

/-- **Runs with one or two releasable snapshots leave no verdict**: as new snapshots are taken between them, more than
three go. -/
theorem short_runs_release_more :
    Stalled stalledWorld
      ∧ ∃ st, run stepSpace ⟨takenInOrder [1, 2, 3], none, 0⟩ [.run stalledWorld, .change (takenInOrder [3, 4]),
          .run stalledWorld, .change (takenInOrder [4, 5]), .run stalledWorld] = some st
        ∧ st.latch = none ∧ maxStaleInodeReleases < st.released := by
  refine ⟨stalledWorld_stalled, ?_⟩
  obtain ⟨st, hst⟩ : ∃ st, run stepSpace ⟨takenInOrder [1, 2, 3], none, 0⟩ [.run stalledWorld,
      .change (takenInOrder [3, 4]), .run stalledWorld, .change (takenInOrder [4, 5]), .run stalledWorld] = some st := ⟨_, rfl⟩
  have hleft : ∀ st ∈ run stepSpace ⟨takenInOrder [1, 2, 3], none, 0⟩ [.run stalledWorld,
      .change (takenInOrder [3, 4]), .run stalledWorld, .change (takenInOrder [4, 5]), .run stalledWorld],
      st.latch = none ∧ maxStaleInodeReleases < st.released := by decide +kernel
  exact ⟨st, hst, hleft st hst⟩

end SentryUsb.Snapshot
