import SentryUsb.Library.PathText
import SentryUsb.Snapshot.Store

/-! # Targets of clip links

A link of the TeslaCam farm names the snapshot that holds its clip by its stored target, in one of two shapes: through
the stable `mnt` link of the snapshot's directory, or through its autofs mount.

* **`Form`**, **`Form.target`** — the two shapes;
* **`ownedSnapComponent`** — the snapshot a target names; **`ownedSnapComponent_eq_some`** — which targets name it;
* **`clipOf`** — the shape and the clip of a target; **`clipOf_target`**. -/

namespace SentryUsb.Snapshot

open Library

/-- `SNAPSHOTS_DIR`. -/
def snapshotsDir : Text :=
  ['/', 'b', 'a', 'c', 'k', 'i', 'n', 'g', 'f', 'i', 'l', 'e', 's', '/', 's', 'n', 'a', 'p', 's', 'h', 'o', 't', 's']

/-- `AUTOFS_SNAPSHOTS`. -/
def autofsSnapshots : Text := ['/', 't', 'm', 'p', '/', 's', 'n', 'a', 'p', 's', 'h', 'o', 't', 's']

/-- The stable link in a slot's directory. -/
def mntWord : Text := ['m', 'n', 't']

/-- A component that does not leave or repeat its directory. -/
def properComponent (c : Text) : Bool := decide (c ≠ []) && decide (c ≠ ['.']) && decide (c ≠ ['.', '.'])

/-- The rest of a path below a directory. -/
def under (root target : Text) : Option Text := (target.dropPrefix? root).bind fun rest => rest.dropPrefix? ['/']

/-- The snapshot of a path `<snap>/mnt/...`. -/
def stableComponent (rest : Text) : Option Text :=
  let parts := rest.splitOn '/'
  (parts.head?.filter isSnap).filter fun _ => decide (parts[1]? = some mntWord) && parts[2]?.isSome

/-- The snapshot of a path `<snap>/...`. -/
def autofsComponent (rest : Text) : Option Text :=
  let parts := rest.splitOn '/'
  (parts.head?.filter isSnap).filter fun _ => parts[1]?.isSome

/-- The snapshot a target names, in one of the shapes minted here. -/
def ownedSnapComponent (target : Text) : Option Text :=
  if target.head? ≠ some '/' || (target.tail.splitOn '/').any (fun part => !properComponent part) then none
  else
    match under snapshotsDir target with
    | some rest => stableComponent rest
    | none => (under autofsSnapshots target).bind autofsComponent

/-- The two shapes of a target. -/
inductive Form where
  | stable
  | autofs
  deriving DecidableEq

/-- The target of a clip in a snapshot. -/
def Form.target (form : Form) (snap clip : Text) : Text :=
  match form with
  | .stable => snapshotsDir ++ '/' :: (snap ++ '/' :: (mntWord ++ '/' :: clip))
  | .autofs => autofsSnapshots ++ '/' :: (snap ++ '/' :: clip)

/-- A clip's path below its mount, without components that leave or repeat a directory. -/
def Canonical (clip : Text) : Prop := ∀ part ∈ clip.splitOn '/', properComponent part = true

/-- The rest of a target below a released snapshot. -/
def below (released root target : Text) : Option Text :=
  (under root target).bind fun rest => (rest.dropPrefix? released).bind fun rest => rest.dropPrefix? ['/']

/-- The shape of a link into a released snapshot and the clip it leads to. -/
def clipOf (released target : Text) : Option (Form × Text) :=
  let shaped :=
    match below released snapshotsDir target with
    | some rest => (rest.dropPrefix? (mntWord ++ ['/'])).map fun clip => (Form.stable, clip)
    | none => (below released autofsSnapshots target).map fun clip => (Form.autofs, clip)
  shaped.filter fun wanted => (wanted.2.splitOn '/').all properComponent

/-! ## Reading targets -/

theorem dropPrefix?_eq_some {pre t rest : Text} : t.dropPrefix? pre = some rest ↔ t = pre ++ rest := by
  rw [List.dropPrefix?_eq_some_iff]
  constructor
  · rintro ⟨p, rfl, hp⟩
    rw [beq_iff_eq.mp hp]
  · rintro rfl
    exact ⟨pre, rfl, beq_iff_eq.mpr rfl⟩

@[simp] theorem dropPrefix?_append (pre rest : Text) : (pre ++ rest).dropPrefix? pre = some rest :=
  dropPrefix?_eq_some.mpr rfl

theorem under_eq_some {root t rest : Text} : under root t = some rest ↔ t = root ++ '/' :: rest := by
  rw [under, Option.bind_eq_some_iff]
  constructor
  · rintro ⟨a, ha, hrest⟩
    rw [dropPrefix?_eq_some.mp ha, dropPrefix?_eq_some.mp hrest, List.singleton_append]
  · rintro rfl
    exact ⟨'/' :: rest, dropPrefix?_append _ _, dropPrefix?_append ['/'] rest⟩

theorem below_eq_some {released root t rest : Text} :
    below released root t = some rest ↔ t = root ++ '/' :: (released ++ '/' :: rest) := by
  rw [below, Option.bind_eq_some_iff]
  constructor
  · rintro ⟨a, ha, h⟩
    obtain ⟨b, hb, hrest⟩ := Option.bind_eq_some_iff.mp h
    rw [under_eq_some.mp ha, dropPrefix?_eq_some.mp hb, dropPrefix?_eq_some.mp hrest, List.singleton_append]
  · rintro rfl
    exact ⟨_, under_eq_some.mpr rfl, Option.bind_eq_some_iff.mpr
      ⟨'/' :: rest, dropPrefix?_append _ _, dropPrefix?_append ['/'] rest⟩⟩

/-- The two directories do not meet. -/
theorem under_snapshotsDir_autofs (rest : Text) : under snapshotsDir (autofsSnapshots ++ '/' :: rest) = none := by
  rw [Option.eq_none_iff_forall_ne_some]
  intro a ha
  have hroot := under_eq_some.mp ha
  have hsecond : some 't' = some 'b' := congrArg (fun t : Text => t[1]?) hroot
  exact absurd hsecond (by decide)

theorem properComponent_of_isSnap {name : Text} (h : isSnap name = true) : properComponent name = true := by
  obtain ⟨d, rfl, -⟩ := isSnap_spec h
  simp [properComponent, snapWord]

/-- The first of several components, a slot name, and the others. -/
theorem head_splitOn {rest snap : Text} (h : (rest.splitOn '/').head?.filter isSnap = some snap) :
    isSnap snap = true ∧ ∃ parts, rest.splitOn '/' = snap :: parts := by
  obtain ⟨hhead, hsnap⟩ := Option.filter_eq_some_iff.mp h
  refine ⟨hsnap, ?_⟩
  cases hrest : rest.splitOn '/' with
  | nil => exact absurd hrest (List.splitOn_ne_nil '/' rest)
  | cons a parts =>
    rw [hrest] at hhead
    exact ⟨parts, by rw [Option.some.inj hhead]⟩

theorem stableComponent_eq_some {rest snap : Text} :
    stableComponent rest = some snap ↔ isSnap snap = true ∧ ∃ clip, rest = snap ++ '/' :: (mntWord ++ '/' :: clip) := by
  unfold stableComponent
  constructor
  · intro h
    obtain ⟨hhead, hparts⟩ := Option.filter_eq_some_iff.mp h
    obtain ⟨hsnap, parts, hcons⟩ := head_splitOn hhead
    rw [hcons, Bool.and_eq_true, decide_eq_true_iff] at hparts
    obtain ⟨hmnt, hmore⟩ := hparts
    refine ⟨hsnap, ?_⟩
    cases parts with
    | nil => simp at hmnt
    | cons a parts =>
      obtain rfl : a = mntWord := by simpa using hmnt
      cases parts with
      | nil => simp at hmore
      | cons b parts =>
        obtain ⟨rest₁, rfl, h₁⟩ := eq_of_splitOn_cons hcons
        obtain ⟨clip, rfl, -⟩ := eq_of_splitOn_cons h₁
        exact ⟨clip, rfl⟩
  · rintro ⟨hsnap, clip, rfl⟩
    obtain ⟨d, -, hslash⟩ := isSnap_spec hsnap
    obtain ⟨part, parts, hparts⟩ := List.exists_cons_of_ne_nil (List.splitOn_ne_nil '/' clip)
    rw [splitOn_component hslash, splitOn_component (by decide), hparts]
    simp [hsnap]

theorem autofsComponent_eq_some {rest snap : Text} :
    autofsComponent rest = some snap ↔ isSnap snap = true ∧ ∃ clip, rest = snap ++ '/' :: clip := by
  unfold autofsComponent
  constructor
  · intro h
    obtain ⟨hhead, hmore⟩ := Option.filter_eq_some_iff.mp h
    obtain ⟨hsnap, parts, hcons⟩ := head_splitOn hhead
    rw [hcons] at hmore
    refine ⟨hsnap, ?_⟩
    cases parts with
    | nil => simp at hmore
    | cons b parts =>
      obtain ⟨clip, rfl, -⟩ := eq_of_splitOn_cons hcons
      exact ⟨clip, rfl⟩
  · rintro ⟨hsnap, clip, rfl⟩
    obtain ⟨d, -, hslash⟩ := isSnap_spec hsnap
    obtain ⟨part, parts, hparts⟩ := List.exists_cons_of_ne_nil (List.splitOn_ne_nil '/' clip)
    rw [splitOn_component hslash, hparts]
    simp [hsnap]

/-- The components of a target of either shape are proper when those of its clip are. -/
theorem proper_target (form : Form) {snap clip : Text} (hsnap : isSnap snap = true) :
    ((form.target snap clip).tail.splitOn '/').any (fun part => !properComponent part) = false
      ↔ Canonical clip := by
  obtain ⟨d, -, hslash⟩ := isSnap_spec hsnap
  have hproper := properComponent_of_isSnap hsnap
  have hcanonical : Canonical clip ↔ (clip.splitOn '/').any (fun part => !properComponent part) = false := by
    simp [Canonical]
  rw [hcanonical]
  cases form with
  | stable =>
    have htail : (Form.stable.target snap clip).tail
        = snapshotsDir.tail ++ '/' :: (snap ++ '/' :: (mntWord ++ '/' :: clip)) := rfl
    have hroot : (snapshotsDir.tail.splitOn '/').any (fun part => !properComponent part) = false := by decide
    have hmnt : properComponent mntWord = true := by decide
    rw [htail, List.splitOn_append_cons_self, splitOn_component hslash, splitOn_component (by decide),
      List.any_append, List.any_cons, List.any_cons, hproper, hroot, hmnt]
    simp
  | autofs =>
    have htail : (Form.autofs.target snap clip).tail = autofsSnapshots.tail ++ '/' :: (snap ++ '/' :: clip) := rfl
    have hroot : (autofsSnapshots.tail.splitOn '/').any (fun part => !properComponent part) = false := by decide
    rw [htail, List.splitOn_append_cons_self, splitOn_component hslash, List.any_append, List.any_cons, hproper, hroot]
    simp

/-- **A target names a snapshot when it is one of the shapes minted here, without a component that leaves or repeats
a directory.** -/
theorem ownedSnapComponent_eq_some {target snap : Text} :
    ownedSnapComponent target = some snap
      ↔ isSnap snap = true ∧ ∃ form clip, Canonical clip ∧ target = Form.target form snap clip := by
  constructor
  · intro h
    unfold ownedSnapComponent at h
    split at h
    · simp at h
    · rename_i hpath
      rw [Bool.or_eq_true, not_or] at hpath
      cases hstable : under snapshotsDir target with
      | some rest =>
        rw [hstable] at h
        obtain ⟨hsnap, clip, rfl⟩ := stableComponent_eq_some.mp h
        obtain rfl : target = Form.stable.target snap clip := under_eq_some.mp hstable
        exact ⟨hsnap, .stable, clip, (proper_target .stable hsnap).mp (Bool.eq_false_of_not_eq_true hpath.2), rfl⟩
      | none =>
        rw [hstable] at h
        obtain ⟨rest, hauto, h⟩ := Option.bind_eq_some_iff.mp h
        obtain ⟨hsnap, clip, rfl⟩ := autofsComponent_eq_some.mp h
        obtain rfl : target = Form.autofs.target snap clip := under_eq_some.mp hauto
        exact ⟨hsnap, .autofs, clip, (proper_target .autofs hsnap).mp (Bool.eq_false_of_not_eq_true hpath.2), rfl⟩
  · rintro ⟨hsnap, form, clip, hclip, rfl⟩
    have hhead : (form.target snap clip).head? = some '/' := by cases form <;> rfl
    have hproper := (proper_target form hsnap).mpr hclip
    unfold ownedSnapComponent
    rw [if_neg (by rw [hproper, hhead]; simp)]
    cases form with
    | stable =>
      have hunder : under snapshotsDir (Form.stable.target snap clip) = some (snap ++ '/' :: (mntWord ++ '/' :: clip)) :=
        under_eq_some.mpr rfl
      rw [hunder]
      exact stableComponent_eq_some.mpr ⟨hsnap, clip, rfl⟩
    | autofs =>
      have hunder : under snapshotsDir (Form.autofs.target snap clip) = none := under_snapshotsDir_autofs _
      have hauto : under autofsSnapshots (Form.autofs.target snap clip) = some (snap ++ '/' :: clip) :=
        under_eq_some.mpr rfl
      rw [hunder, hauto]
      exact autofsComponent_eq_some.mpr ⟨hsnap, clip, rfl⟩

theorem target_injective (form : Form) {a b clip : Text} (h : form.target a clip = form.target b clip) : a = b := by
  cases form with
  | stable => exact List.append_cancel_right (List.cons.inj (List.append_cancel_left h)).2
  | autofs => exact List.append_cancel_right (List.cons.inj (List.append_cancel_left h)).2

/-- A link into a released snapshot is read back as the shape and the clip it was made of. -/
theorem clipOf_target (form : Form) {released clip : Text} (hclip : Canonical clip) :
    clipOf released (form.target released clip) = some (form, clip) := by
  have hall : (clip.splitOn '/').all properComponent = true := List.all_eq_true.mpr hclip
  unfold clipOf
  cases form with
  | stable =>
    have hbelow : below released snapshotsDir (Form.stable.target released clip) = some (mntWord ++ '/' :: clip) :=
      below_eq_some.mpr rfl
    have hmnt : (mntWord ++ '/' :: clip).dropPrefix? (mntWord ++ ['/']) = some clip :=
      dropPrefix?_eq_some.mpr (by rw [List.append_assoc, List.singleton_append])
    rw [hbelow]
    dsimp only
    rw [hmnt, Option.map_some, Option.filter_some, if_pos hall]
  | autofs =>
    have hbelow : below released snapshotsDir (Form.autofs.target released clip) = none := by
      unfold below
      have hunder : under snapshotsDir (Form.autofs.target released clip) = none := under_snapshotsDir_autofs _
      rw [hunder, Option.bind_none]
    have hauto : below released autofsSnapshots (Form.autofs.target released clip) = some clip :=
      below_eq_some.mpr rfl
    rw [hbelow, hauto]
    dsimp only
    rw [Option.map_some, Option.filter_some, if_pos hall]

end SentryUsb.Snapshot
