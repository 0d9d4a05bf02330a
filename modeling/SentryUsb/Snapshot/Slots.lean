import SentryUsb.Snapshot.Release

/-! # The next slot

A new capture goes into the slot after the highest one. After a power cut the highest slot may be incomplete: it is
reused when it holds no image and is not mounted, and passed over otherwise. The table of contents the capture is
compared with is chosen along the way (`pick_next_snapshot_slot_with`).

* **`maxSlot`**, **`chooseSlot`**, **`pickNextSnapshotSlotWith`** — the choice;
* **`SlotContract`** — what it is expected to do;
* **`NextSlotFree`**, **`Backstopped`** — when it does: **`slotContract_iff`**. -/

namespace SentryUsb.Snapshot

open Library

/-- One entry of the directory: a slot's directory with a higher number. Links and other files do not count. -/
def considerEntry (highest : Option Nat) (e : Text × Entry) : Option Nat :=
  match slotNum e.1 with
  | some n => if e.2.isDir && highest.all (fun m => decide (m < n)) then some n else highest
  | none => highest

/-- The highest number of a slot's directory. -/
def maxSlot (s : Snapshots) : Option Nat := s.entries.foldl considerEntry none

/-- The number after a slot's, in 32 bits. -/
def slotAfter (n : Nat) : Nat := (n + 1) % 2 ^ 32

/-- A choice of slot: whether what is left of its directory goes first, its number, and the snapshot whose table of
contents the capture is compared with. -/
structure SlotChoice where
  reuse : Bool
  slot : Nat
  prevToc : Option Text
  deriving DecidableEq

/-- The table of contents of the slot below, if there is one. -/
def backstop (s : Snapshots) (n : Nat) : Option Text :=
  if decide (0 < n) && hasToc s (snapName (n - 1)) then some (snapName (n - 1)) else none

/-- The choice, from the state of the highest slot. -/
def chooseSlot (hasMounts : Text → Bool) (s : Snapshots) : SlotChoice :=
  match maxSlot s with
  | none => ⟨false, 1, none⟩
  | some n =>
    let prev := snapName n
    if !hasToc s prev || !hasImage s prev then
      if hasMounts prev || hasImage s prev then ⟨false, slotAfter n, backstop s n⟩
      else ⟨true, n, backstop s n⟩
    else ⟨false, slotAfter n, some prev⟩

/-- The choice carried out (`pick_next_snapshot_slot_with`): the directory after it, the slot, and the snapshot whose
table of contents is compared. `removes` says whether the removal of a reused directory succeeds; its failure is
ignored. -/
def pickNextSnapshotSlotWith (hasMounts : Text → Bool) (removes : Bool) (s : Snapshots) : Snapshots × Nat × Option Text :=
  let choice := chooseSlot hasMounts s
  let after := if choice.reuse && removes then (removeDirAll s (snapName choice.slot)).getD s else s
  (after, choice.slot, choice.prevToc)

/-! ## The highest slot -/

/-- A number is the highest among some entries. -/
def Highest (l : List (Text × Entry)) (m : Option Nat) : Prop :=
  (m = none ∧ ∀ e ∈ l, e.2.isDir = true → slotNum e.1 = none)
    ∨ ∃ k, m = some k ∧ (∃ e ∈ l, e.2.isDir = true ∧ slotNum e.1 = some k)
      ∧ ∀ e ∈ l, e.2.isDir = true → ∀ n, slotNum e.1 = some n → n ≤ k

theorem highest_considerEntry {l : List (Text × Entry)} {m : Option Nat} (h : Highest l m) (e : Text × Entry) :
    Highest (l ++ [e]) (considerEntry m e) := by
  -- an entry that is no slot's directory, or has no higher number, changes nothing
  have hkeep : (∀ n, e.2.isDir = true → slotNum e.1 = some n → ∃ k, m = some k ∧ n ≤ k) → Highest (l ++ [e]) m := by
    intro he
    rcases h with ⟨rfl, hnone⟩ | ⟨k, rfl, ⟨e', he', hdir, hnum⟩, hall⟩
    · refine Or.inl ⟨rfl, fun e' he' hdir => ?_⟩
      rcases List.mem_append.mp he' with he' | he'
      · exact hnone e' he' hdir
      · rw [List.mem_singleton.mp he'] at hdir ⊢
        cases hnum : slotNum e.1 with
        | none => rfl
        | some n =>
          obtain ⟨k, hk, -⟩ := he n hdir hnum
          simp at hk
    · refine Or.inr ⟨k, rfl, ⟨e', List.mem_append_left _ he', hdir, hnum⟩, fun e'' he'' hdir'' n hn => ?_⟩
      rcases List.mem_append.mp he'' with he'' | he''
      · exact hall e'' he'' hdir'' n hn
      · rw [List.mem_singleton.mp he''] at hdir'' hn
        obtain ⟨k', hk', hle⟩ := he n hdir'' hn
        rw [Option.some.inj hk']
        exact hle
  unfold considerEntry
  cases hnum : slotNum e.1 with
  | none =>
    refine hkeep fun n _ hn => ?_
    rw [hnum] at hn
    simp at hn
  | some n =>
    dsimp only
    split
    · rename_i hbeats
      rw [Bool.and_eq_true] at hbeats
      refine Or.inr ⟨n, rfl, ⟨e, List.mem_append_right _ (List.mem_singleton.mpr rfl), hbeats.1, hnum⟩, ?_⟩
      intro e' he' hdir' n' hn'
      rcases List.mem_append.mp he' with he' | he'
      · rcases h with ⟨-, hnone⟩ | ⟨k, rfl, -, hall⟩
        · rw [hnone e' he' hdir'] at hn'
          simp at hn'
        · have hlt : k < n := by simpa using hbeats.2
          exact le_trans (hall e' he' hdir' n' hn') (le_of_lt hlt)
      · rw [List.mem_singleton.mp he', hnum] at hn'
        exact le_of_eq (Option.some.inj hn').symm
    · rename_i hnot
      refine hkeep fun n' hdir hn' => ?_
      obtain rfl := Option.some.inj (hnum.symm.trans hn')
      cases m with
      | none => exact absurd (by rw [hdir]; rfl) hnot
      | some k => exact ⟨k, rfl, not_lt.mp fun hlt => hnot (by rw [hdir]; simpa using hlt)⟩

theorem highest_maxSlot (s : Snapshots) : Highest s.entries (maxSlot s) := by
  unfold maxSlot
  induction s.entries using List.reverseRecOn with
  | nil => exact Or.inl ⟨rfl, fun e he => absurd he List.not_mem_nil⟩
  | append_singleton l e ih =>
    rw [List.foldl_append]
    exact highest_considerEntry ih e

/-- A slot above the highest has no directory of its own. -/
theorem not_isDir_of_maxSlot_lt {s : Snapshots} {n : Nat} (hn : n < 2 ^ 32) (h : ∀ m, maxSlot s = some m → m < n)
    {e : Entry} (he : s.get (snapName n) = some e) : e.isDir = false := by
  by_contra hdir
  have hdir : e.isDir = true := Bool.eq_true_of_not_eq_false hdir
  have hmem := SortedMap.mem_entries.mpr he
  rcases highest_maxSlot s with ⟨-, hnone⟩ | ⟨k, hk, -, hall⟩
  · have hnum := hnone _ hmem hdir
    rw [slotNum_snapName hn] at hnum
    simp at hnum
  · exact absurd (hall _ hmem hdir n (slotNum_snapName hn)) (not_le.mpr (h k hk))

/-! ## The contract -/

/-- **What the choice of a slot is expected to do**: it removes no directory that holds an image or may be mounted, the
slot it returns has no directory, and the table of contents it returns belongs to a snapshot with an image. -/
structure SlotContract (hasMounts : Text → Bool) (removes : Bool) (s : Snapshots) : Prop where
  keeps : ∀ name, (pickNextSnapshotSlotWith hasMounts removes s).1.get name ≠ s.get name →
    hasImage s name = false ∧ hasMounts name = false
  fresh : slotAt (pickNextSnapshotSlotWith hasMounts removes s).1
    (snapName (pickNextSnapshotSlotWith hasMounts removes s).2.1) = none
  backed : ∀ name, (pickNextSnapshotSlotWith hasMounts removes s).2.2 = some name →
    committed (pickNextSnapshotSlotWith hasMounts removes s).1 name = true

/-- Whether the highest slot is reused: it has no image and may not be mounted. -/
def reusesHighest (hasMounts : Text → Bool) (s : Snapshots) : Bool :=
  (maxSlot s).any fun n => !hasImage s (snapName n) && !hasMounts (snapName n)

/-- The name of the next slot leads to no directory: to none of its own, which only the slot after the last 32-bit
number has, and to none through a link. A reused slot is removed first. -/
def NextSlotFree (hasMounts : Text → Bool) (removes : Bool) (s : Snapshots) : Prop :=
  if reusesHighest hasMounts s then removes = true ∨ ∀ n, maxSlot s = some n → slotAt s (snapName n) = none
  else slotAt s (snapName ((maxSlot s).elim 1 slotAfter)) = none

/-- Below an incomplete highest slot, a table of contents comes with its image. -/
def Backstopped (s : Snapshots) : Prop :=
  ∀ n, maxSlot s = some n → committed s (snapName n) = false → 0 < n →
    hasToc s (snapName (n - 1)) = true → hasImage s (snapName (n - 1)) = true

/-- Removing a directory leaves the others. -/
theorem get_removeDirAll (s : Snapshots) (name other : Text) (h : other ≠ name) :
    ((removeDirAll s name).getD s).get other = s.get other := by
  unfold removeDirAll
  split
  · rw [Option.getD_some, SortedMap.get_remove, if_neg h]
  · rw [Option.getD_some, SortedMap.get_remove, if_neg h]
  · rfl

/-- A name whose directory was removed leads nowhere. -/
theorem slotAt_removeDirAll (s : Snapshots) (name : Text) : slotAt ((removeDirAll s name).getD s) name = none := by
  unfold removeDirAll slotAt
  cases hget : s.get name with
  | none => simp [hget]
  | some e =>
    cases e with
    | dir slot => simp [SortedMap.get_remove]
    | link slot => simp [SortedMap.get_remove]
    | file => simp [hget, Entry.slot?]

section

variable {hasMounts : Text → Bool} {removes : Bool} {s : Snapshots}

/-- The choice with no slot, in a reused slot, past an incomplete one and past a complete one. -/
theorem chooseSlot_cases (hasMounts : Text → Bool) (s : Snapshots) :
    (maxSlot s = none ∧ chooseSlot hasMounts s = ⟨false, 1, none⟩)
      ∨ ∃ n, maxSlot s = some n ∧
        ((committed s (snapName n) = true ∧ chooseSlot hasMounts s = ⟨false, slotAfter n, some (snapName n)⟩)
          ∨ (committed s (snapName n) = false ∧ reusesHighest hasMounts s = true
            ∧ hasImage s (snapName n) = false ∧ hasMounts (snapName n) = false
            ∧ chooseSlot hasMounts s = ⟨true, n, backstop s n⟩)
          ∨ (committed s (snapName n) = false ∧ reusesHighest hasMounts s = false
            ∧ chooseSlot hasMounts s = ⟨false, slotAfter n, backstop s n⟩)) := by
  unfold chooseSlot
  cases hmax : maxSlot s with
  | none => exact Or.inl ⟨rfl, rfl⟩
  | some n =>
    refine Or.inr ⟨n, rfl, ?_⟩
    dsimp only
    unfold committed reusesHighest
    rw [hmax]
    cases hasToc s (snapName n) <;> cases himage : hasImage s (snapName n) <;>
      cases hmounts : hasMounts (snapName n) <;> simp [himage, hmounts]

theorem backstop_eq_some {n : Nat} {name : Text} :
    backstop s n = some name ↔ 0 < n ∧ hasToc s (snapName (n - 1)) = true ∧ snapName (n - 1) = name := by
  unfold backstop
  split
  · rename_i h
    rw [Bool.and_eq_true, decide_eq_true_iff] at h
    simp [h.1, h.2]
  · rename_i h
    rw [Bool.and_eq_true, decide_eq_true_iff] at h
    constructor
    · intro hsome
      simp at hsome
    · rintro ⟨hpos, htoc, -⟩
      exact absurd ⟨hpos, htoc⟩ h

theorem pick_fst :
    (pickNextSnapshotSlotWith hasMounts removes s).1
      = if (chooseSlot hasMounts s).reuse && removes then (removeDirAll s (snapName (chooseSlot hasMounts s).slot)).getD s
        else s := rfl

/-- The slots but a reused one are as before. -/
theorem get_pick {name : Text} (h : name ≠ snapName (chooseSlot hasMounts s).slot) :
    (pickNextSnapshotSlotWith hasMounts removes s).1.get name = s.get name := by
  rw [pick_fst]
  split
  · exact get_removeDirAll s _ name h
  · rfl

theorem slotAt_pick {name : Text} (h : name ≠ snapName (chooseSlot hasMounts s).slot) :
    slotAt (pickNextSnapshotSlotWith hasMounts removes s).1 name = slotAt s name := by
  rw [slotAt, get_pick h]
  rfl

theorem committed_pick {name : Text} (h : name ≠ snapName (chooseSlot hasMounts s).slot) :
    committed (pickNextSnapshotSlotWith hasMounts removes s).1 name = committed s name := by
  unfold committed hasImage hasToc
  rw [slotAt_pick h]

/-- The choice never removes a directory with an image, or one that may be mounted. -/
theorem pick_keeps {name : Text} (h : (pickNextSnapshotSlotWith hasMounts removes s).1.get name ≠ s.get name) :
    hasImage s name = false ∧ hasMounts name = false := by
  have hreuse : (chooseSlot hasMounts s).reuse = true := by
    by_contra hnot
    refine h ?_
    rw [pick_fst, Bool.eq_false_of_not_eq_true hnot]
    rfl
  have hname : name = snapName (chooseSlot hasMounts s).slot := by
    by_contra hne
    exact h (get_pick hne)
  rcases chooseSlot_cases hasMounts s with ⟨-, hc⟩ | ⟨n, -, ⟨-, hc⟩ | ⟨-, -, himage, hmounts, hc⟩ | ⟨-, -, hc⟩⟩
  · rw [hc] at hreuse
    simp at hreuse
  · rw [hc] at hreuse
    simp at hreuse
  · rw [hname, hc]
    exact ⟨himage, hmounts⟩
  · rw [hc] at hreuse
    simp at hreuse

theorem pick_of_not_reuse (h : (chooseSlot hasMounts s).reuse = false) :
    (pickNextSnapshotSlotWith hasMounts removes s).1 = s := by
  rw [pick_fst, h]
  rfl

/-- Whether the slot returned has no directory. -/
theorem pick_fresh_iff :
    slotAt (pickNextSnapshotSlotWith hasMounts removes s).1 (snapName (chooseSlot hasMounts s).slot) = none
      ↔ NextSlotFree hasMounts removes s := by
  unfold NextSlotFree
  rcases chooseSlot_cases hasMounts s with ⟨hmax, hc⟩ | ⟨n, hmax, ⟨hdone, hc⟩ | ⟨-, hreuse, -, -, hc⟩ | ⟨-, hreuse, hc⟩⟩
  · have hreuse : reusesHighest hasMounts s = false := by rw [reusesHighest, hmax]; rfl
    rw [pick_of_not_reuse (by rw [hc]), hc, hreuse, hmax]
    rfl
  · have hreuse : reusesHighest hasMounts s = false := by
      rw [committed, Bool.and_eq_true] at hdone
      rw [reusesHighest, hmax, Option.any_some, hdone.1]
      rfl
    rw [pick_of_not_reuse (by rw [hc]), hc, hreuse, hmax]
    rfl
  · rw [pick_fst, hc, hreuse, if_pos rfl]
    cases removes with
    | true =>
      simp only [Bool.and_true, if_true, true_or, iff_true]
      exact slotAt_removeDirAll s (snapName n)
    | false =>
      simp only [Bool.and_false, Bool.false_eq_true, if_false, false_or]
      constructor
      · intro hnone n' hn'
        rw [hmax] at hn'
        rw [← Option.some.inj hn']
        exact hnone
      · intro hall
        exact hall n hmax
  · rw [pick_of_not_reuse (by rw [hc]), hc, hreuse, hmax]
    rfl

/-- The next slot is free where no link leads to a directory, the numbers have not run out and the removal works. -/
theorem nextSlotFree_of_no_links (hlinks : ∀ name slot, s.get name ≠ some (.link (some slot)))
    (hmax : ∀ n, maxSlot s = some n → n + 1 < 2 ^ 32) : NextSlotFree hasMounts true s := by
  have hnone : ∀ n, n < 2 ^ 32 → (∀ m, maxSlot s = some m → m < n) → slotAt s (snapName n) = none := by
    intro n hn hlt
    rw [slotAt]
    cases he : s.get (snapName n) with
    | none => rfl
    | some e =>
      have hdir := not_isDir_of_maxSlot_lt hn hlt he
      cases e with
      | dir slot => simp [Entry.isDir] at hdir
      | file => rfl
      | link slot =>
        cases slot with
        | none => rfl
        | some d => exact absurd he (hlinks _ _)
  unfold NextSlotFree
  split
  · exact Or.inl rfl
  · cases hm : maxSlot s with
    | none => exact hnone 1 (by decide) fun m hm' => by rw [hm] at hm'; simp at hm'
    | some n =>
      have hlast := hmax n hm
      rw [Option.elim_some, slotAfter, Nat.mod_eq_of_lt hlast]
      refine hnone (n + 1) hlast fun m hm' => ?_
      rw [← Option.some.inj (hm.symm.trans hm')]
      exact Nat.lt_succ_self n

/-- Whether the table of contents returned belongs to a snapshot with an image. -/
theorem pick_backed_iff :
    (∀ name, (chooseSlot hasMounts s).prevToc = some name →
        committed (pickNextSnapshotSlotWith hasMounts removes s).1 name = true)
      ↔ Backstopped s := by
  -- the slot below an incomplete one
  have hback : ∀ n, maxSlot s = some n → committed s (snapName n) = false →
      ((∀ name, backstop s n = some name → committed s name = true) ↔ Backstopped s) := by
    intro n hmax hnot
    constructor
    · intro hall n' hn' _ hpos htoc
      obtain rfl : n = n' := Option.some.inj (hmax.symm.trans hn')
      have hdone := hall _ (backstop_eq_some.mpr ⟨hpos, htoc, rfl⟩)
      rw [committed, Bool.and_eq_true] at hdone
      exact hdone.1
    · intro hbacked name hname
      obtain ⟨hpos, htoc, rfl⟩ := backstop_eq_some.mp hname
      rw [committed, hbacked n hmax hnot hpos htoc, htoc]
      rfl
  rcases chooseSlot_cases hasMounts s with ⟨hmax, hc⟩ | ⟨n, hmax, ⟨hdone, hc⟩ | ⟨hnot, -, -, -, hc⟩ | ⟨hnot, -, hc⟩⟩
  · rw [hc]
    constructor
    · intro _ n hn
      rw [hmax] at hn
      simp at hn
    · intro _ name hname
      simp at hname
  · rw [pick_of_not_reuse (by rw [hc]), hc]
    constructor
    · intro _ n' hn' hnot
      rw [← Option.some.inj (hmax.symm.trans hn'), hdone] at hnot
      simp at hnot
    · intro _ name hname
      rw [← Option.some.inj hname]
      exact hdone
  · rw [← hback n hmax hnot]
    have hsame : ∀ name, backstop s n = some name →
        committed (pickNextSnapshotSlotWith hasMounts removes s).1 name = committed s name := by
      intro name hname
      obtain ⟨hpos, -, rfl⟩ := backstop_eq_some.mp hname
      refine committed_pick fun heq => ?_
      rw [hc] at heq
      have := snapName_injective heq
      dsimp only at this
      omega
    rw [hc]
    constructor
    · intro hall name hname
      rw [← hsame name hname]
      exact hall name hname
    · intro hall name hname
      rw [hsame name hname]
      exact hall name hname
  · rw [pick_of_not_reuse (by rw [hc]), hc]
    exact hback n hmax hnot

/-- **The choice does what is expected of it exactly when the next slot is free and, below an incomplete highest slot,
a table of contents comes with its image.** -/
theorem slotContract_iff :
    SlotContract hasMounts removes s ↔ NextSlotFree hasMounts removes s ∧ Backstopped s := by
  constructor
  · rintro ⟨-, hfresh, hbacked⟩
    exact ⟨pick_fresh_iff.mp hfresh, pick_backed_iff.mp hbacked⟩
  · rintro ⟨hfree, hbacked⟩
    exact ⟨fun _ h => pick_keeps h, pick_fresh_iff.mpr hfree, pick_backed_iff.mpr hbacked⟩

end

end SentryUsb.Snapshot
