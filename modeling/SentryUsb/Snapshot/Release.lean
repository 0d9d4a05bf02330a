import SentryUsb.Library.FileTree
import SentryUsb.Snapshot.LinkTargets

/-! # Releasing a snapshot

A released snapshot leaves the links of its clips behind. They are collected, a copy of each clip is looked for in the
tables of contents of the snapshots that stay, the dead links are pruned with the directories they leave empty, and
the planned links are made (`release_snapshot_files`).

* **`Farm`** — the tree of clip links;
* **`planRelinks`**, **`pruneFarmLinks`**, **`applyRelinks`** — the parts of a release, **`releaseSnapshotFiles`** — the
  release;
* **`Released`** — what a release is expected to do;
* **`releaseSnapshotFiles_released_iff`** — when it does;
* **`releaseSnapshotFiles_lower_slot`** — past six digits the names no longer sort by slot. -/

namespace SentryUsb.Snapshot

open Library FileTree

/-! ## The farm -/

/-- What stands in the farm besides directories. -/
inductive FarmLeaf where
  | link (target : Text)
  | file
  deriving DecidableEq

/-- A part of the farm. -/
abbrev FarmTree := FileTree Text FarmLeaf

/-- The TeslaCam link farm. Every directory lists each name once. -/
structure Farm where
  entries : List (Text × FarmTree)
  ordered : Ordered (FileTree.dir entries)

/-- The farm as a tree. -/
def Farm.tree (farm : Farm) : FarmTree := .dir farm.entries

/-- The stored target of the link at a path. -/
def linkAt (p : List Text) (t : FarmTree) : Option Text :=
  (leafAt p t).bind fun
    | .link target => some target
    | .file => none

/-- How many directories deep the walks go. -/
def walkDepth : Nat := 5

/-- A link whose stored target names a snapshot. -/
def linkInto (snap : Text) (found : List Text × FarmLeaf) : Option (List Text × Text) :=
  match found.2 with
  | .link target => if ownedSnapComponent target = some snap then some (found.1, target) else none
  | .file => none

/-- The links into a snapshot, with their targets (`collect_links_into`). -/
def collectLinksInto (farm : Farm) (snap : Text) : List (List Text × Text) :=
  (leaves walkDepth [] farm.tree).filterMap (linkInto snap)

/-! ## The plan -/

/-- The snapshots with an image that stay, the last name first. -/
def survivors (s : Snapshots) (released : Text) : List Text :=
  ((s.entries.map Prod.fst).filter fun n => decide (n ≠ released) && isSnap n && hasImage s n).reverse

/-- One line of a table of contents: a larger copy of the clip is better. -/
def considerRow (clip snap : Text) (best : Option (Nat × Text)) (row : Nat × Text) : Option (Nat × Text) :=
  if row.2 = clip ∧ best.all (fun b => decide (b.1 < row.1)) = true then some (row.1, snap) else best

/-- One surviving snapshot. A table that cannot be read in full does not count. -/
def considerSnap (s : Snapshots) (clip : Text) (best : Option (Nat × Text)) (snap : Text) : Option (Nat × Text) :=
  match tocText s snap with
  | some toc => (tocRows toc).foldl (considerRow clip snap) best
  | none => best

/-- The copy of a clip to point at: its size and its snapshot. -/
def bestCopy (s : Snapshots) (released clip : Text) : Option (Nat × Text) :=
  (survivors s released).foldl (considerSnap s clip) none

/-- The new target of a link into a released snapshot: none where no snapshot that stays lists the clip. -/
def newTarget (s : Snapshots) (released target : Text) : Option Text :=
  (clipOf released target).bind fun wanted =>
    (bestCopy s released wanted.2).map fun best => wanted.1.target best.2 wanted.2

/-- New targets for the links into a released snapshot (`plan_relinks`). -/
def planRelinks (s : Snapshots) (released : Text) (orphans : List (List Text × Text)) : List (List Text × Text) :=
  orphans.filterMap fun orphan => (newTarget s released orphan.2).map fun new => (orphan.1, new)

/-! ## The prune -/

/-- Whether a snapshot's directory is there. -/
inductive SnapState where
  | live
  | gone
  deriving DecidableEq

/-- `snapshot_state`, on a directory that can be read. -/
def snapshotState (s : Snapshots) (name : Text) : SnapState := if (slotAt s name).isSome then .live else .gone

/-- A link into a snapshot proven absent. -/
def releasedLinkIsDead (s : Snapshots) (snap target : Text) : Bool :=
  decide (ownedSnapComponent target = some snap) && decide (snapshotState s snap = .gone)

/-- A walk over a directory: what it leaves of it, the links removed, how often the guard was asked, and whether the
guard let it finish. -/
structure Walk where
  entries : List (Text × FarmTree)
  removed : Nat
  clock : Nat
  completed : Bool

section

variable (dead : Text → Bool) (guard : Nat → Bool) (dryRun : Bool)

/-- The entries of one directory, with the walk over a subdirectory. The guard is asked before every unlink. -/
def pruneEntries (sub : Nat → List (Text × FarmTree) → Walk) (depth : Nat) : Nat → List (Text × FarmTree) → Walk
  | clock, [] => ⟨[], 0, clock, true⟩
  | clock, (n, .leaf .file) :: rest =>
    let r := pruneEntries sub depth clock rest
    { r with entries := (n, .leaf .file) :: r.entries }
  | clock, (n, .leaf (.link target)) :: rest =>
    if dead target then
      if guard clock then
        let r := pruneEntries sub depth (clock + 1) rest
        { r with
          entries := if dryRun then (n, .leaf (.link target)) :: r.entries else r.entries
          removed := r.removed + 1 }
      else ⟨(n, .leaf (.link target)) :: rest, 0, clock + 1, false⟩
    else
      let r := pruneEntries sub depth clock rest
      { r with entries := (n, .leaf (.link target)) :: r.entries }
  | clock, (n, .dir es) :: rest =>
    let d := sub clock es
    if d.completed then
      let r := pruneEntries sub depth d.clock rest
      -- only date and event directories go, and only when they are empty
      let gone := !dryRun && decide (1 ≤ depth) && d.entries.isEmpty
      { r with
        entries := if gone then r.entries else (n, .dir d.entries) :: r.entries
        removed := d.removed + r.removed }
    else ⟨(n, .dir d.entries) :: rest, d.removed, d.clock, false⟩

/-- A walk that may still go `k` directories deep, asking the guard on entry. -/
def pruneWalk : Nat → Nat → Nat → List (Text × FarmTree) → Walk
  | 0, _, clock, es => ⟨es, 0, clock, true⟩
  | k + 1, depth, clock, es =>
    if guard clock then pruneEntries dead guard dryRun (pruneWalk k (depth + 1)) depth (clock + 1) es
    else ⟨es, 0, clock + 1, false⟩

/-- `prune_farm_links`. -/
def pruneFarmLinks (farm : Farm) : Walk := pruneWalk dead guard dryRun walkDepth 0 0 farm.entries

end

/-! ## The release -/

/-- Make one planned link, unless something stands there already. -/
def applyRelink (t : FarmTree) (link : List Text × Text) : FarmTree :=
  if (lookup link.1 t).isSome then t
  else
    let t := (mkdirs link.1.dropLast t).getD t
    (putLeaf link.1 (.link link.2) t).getD t

/-- `apply_relinks`. -/
def applyRelinks (links : List (List Text × Text)) (t : FarmTree) : FarmTree := links.foldl applyRelink t

/-- Remove a slot's directory, or the link that stands for it. -/
def removeDirAll (s : Snapshots) (name : Text) : Option Snapshots :=
  match s.get name with
  | some (.dir _) => some (s.remove name)
  | some (.link _) => some (s.remove name)
  | _ => none

/-- Release a snapshot (`release_snapshot_files`). `guard` says whether `/backingfiles` is mounted each time it is
asked; `none` is a directory that cannot be removed. -/
def releaseSnapshotFiles (guard : Nat → Bool) (name : Text) (s : Snapshots) (farm : Farm) :
    Option (Snapshots × FarmTree) :=
  let plan := planRelinks s name (collectLinksInto farm name)
  (removeDirAll s name).map fun after =>
    let walk := pruneFarmLinks (releasedLinkIsDead after name) guard false farm
    let pruned : FarmTree := .dir walk.entries
    (after, if decide (0 < walk.removed) && guard walk.clock then applyRelinks plan pruned else pruned)

/-! ## What the prune leaves -/

section

variable (dead : Text → Bool)

/-- What is left of one entry: nothing of a dead link, and nothing of a directory below the categories that ends up
empty. -/
def keptTree (sub : List (Text × FarmTree) → List (Text × FarmTree)) (depth : Nat) : FarmTree → Option FarmTree
  | .leaf .file => some (.leaf .file)
  | .leaf (.link target) => if dead target then none else some (.leaf (.link target))
  | .dir es => if decide (1 ≤ depth) && (sub es).isEmpty then none else some (.dir (sub es))

/-- What a walk that is let finish leaves of a directory. -/
def keptEntries : Nat → Nat → List (Text × FarmTree) → List (Text × FarmTree)
  | 0, _, es => es
  | k + 1, depth, es => es.filterMap fun e => (keptTree dead (keptEntries k (depth + 1)) depth e.2).map fun c => (e.1, c)

/-- **A walk while the filesystem stays mounted**: it finishes, leaves what it should, and counts a dead link it meets. -/
theorem pruneWalk_mounted {guard : Nat → Bool} (hguard : ∀ i, guard i = true) (k depth clock : Nat) (es : List (Text × FarmTree)) :
    (pruneWalk dead guard false k depth clock es).completed = true
      ∧ (pruneWalk dead guard false k depth clock es).entries = keptEntries dead k depth es
      ∧ ((pruneWalk dead guard false k depth clock es).removed = 0 →
          ∀ here q target, (q, FarmLeaf.link target) ∈ leaves k here (.dir es) → dead target = false) := by
  induction k generalizing depth clock es with
  | zero => exact ⟨rfl, rfl, fun _ here q target hmem => absurd hmem List.not_mem_nil⟩
  | succ k ih =>
    rw [pruneWalk, if_pos (hguard clock)]
    generalize clock + 1 = clock
    induction es generalizing clock with
    | nil => exact ⟨rfl, rfl, fun _ here q target hmem => absurd hmem List.not_mem_nil⟩
    | cons e rest ihrest =>
      obtain ⟨n, c⟩ := e
      rw [keptEntries, List.filterMap_cons, ← keptEntries]
      cases c with
      | leaf l =>
        cases l with
        | file =>
          obtain ⟨hcompleted, hentries, hcount⟩ := ihrest clock
          refine ⟨hcompleted, ?_, fun hremoved here q target hmem => ?_⟩
          · exact congrArg _ hentries
          · rw [leaves, List.flatMap_cons, List.mem_append] at hmem
            rcases hmem with hmem | hmem
            · simp at hmem
            · exact hcount hremoved here q target hmem
        | link t =>
          by_cases hdead : dead t = true
          · obtain ⟨hcompleted, hentries, -⟩ := ihrest (clock + 1)
            have hstep : pruneEntries dead guard false (pruneWalk dead guard false k (depth + 1)) depth clock
                ((n, .leaf (.link t)) :: rest)
                = let r := pruneEntries dead guard false (pruneWalk dead guard false k (depth + 1)) depth
                    (clock + 1) rest
                  { r with entries := r.entries, removed := r.removed + 1 } := by
              rw [pruneEntries, if_pos hdead, if_pos (hguard clock)]
              rfl
            rw [hstep, keptTree, if_pos hdead]
            refine ⟨hcompleted, hentries, fun hremoved => ?_⟩
            exact absurd hremoved (Nat.succ_ne_zero _)
          · obtain ⟨hcompleted, hentries, hcount⟩ := ihrest clock
            rw [pruneEntries, if_neg hdead, keptTree, if_neg hdead]
            refine ⟨hcompleted, congrArg _ hentries, fun hremoved here q target hmem => ?_⟩
            rw [leaves, List.flatMap_cons, List.mem_append] at hmem
            rcases hmem with hmem | hmem
            · obtain ⟨-, htarget⟩ := Prod.mk.inj (List.mem_singleton.mp hmem)
              rw [FarmLeaf.link.inj htarget]
              exact Bool.eq_false_of_not_eq_true hdead
            · exact hcount hremoved here q target hmem
      | dir sub =>
        obtain ⟨hsubDone, hsubEntries, hsubCount⟩ := ih (depth + 1) clock sub
        obtain ⟨hcompleted, hentries, hcount⟩ := ihrest (pruneWalk dead guard false k (depth + 1) clock sub).clock
        rw [pruneEntries, if_pos hsubDone, keptTree, ← hsubEntries]
        refine ⟨hcompleted, ?_, fun hremoved here q target hmem => ?_⟩
        · dsimp only
          rw [Bool.not_false, Bool.true_and]
          split
          · exact hentries
          · exact congrArg _ hentries
        · obtain ⟨hsub0, hrest0⟩ := Nat.add_eq_zero_iff.mp hremoved
          rw [leaves, List.flatMap_cons, List.mem_append] at hmem
          rcases hmem with hmem | hmem
          · exact hsubCount hsub0 _ q target hmem
          · exact hcount hrest0 here q target hmem

end

section

variable {dead : Text → Bool}

theorem lookup_kept_dir {es : List (Text × FarmTree)} (h : Ordered (FileTree.dir es)) (k depth : Nat) (n : Text)
    (q : List Text) :
    lookup (n :: q) (.dir (keptEntries dead (k + 1) depth es))
      = ((getEntry n es).bind (keptTree dead (keptEntries dead k (depth + 1)) depth)).bind (lookup q) := by
  rw [lookup_cons_dir, keptEntries,
    getEntry_filterMap (fun _ c => keptTree dead (keptEntries dead k (depth + 1)) depth c) (h [] es rfl) n]

theorem leafAt_leaf (q : List Text) (l : FarmLeaf) : leafAt q (.leaf l) = if q = [] then some l else none := by
  cases q with
  | nil => rfl
  | cons n q => rfl

/-- **The links a walk leaves**: a dead link it reaches is gone; every other link, and every file, stays. -/
theorem kept_spec {es : List (Text × FarmTree)} (h : Ordered (FileTree.dir es)) (k depth : Nat) (p : List Text) :
    (∀ target, leafAt p (.dir es) = some (.link target) → dead target = true → p.length ≤ k →
        lookup p (.dir (keptEntries dead k depth es)) = none)
      ∧ ((∀ target, leafAt p (.dir es) = some (.link target) → dead target = true → k < p.length) →
        leafAt p (.dir (keptEntries dead k depth es)) = leafAt p (.dir es)) := by
  induction k generalizing depth p es with
  | zero =>
    refine ⟨fun target hleaf _ hlen => ?_, fun _ => rfl⟩
    rw [List.length_eq_zero_iff.mp (Nat.le_zero.mp hlen)] at hleaf
    simp [leafAt, leaf?] at hleaf
  | succ k ih =>
    cases p with
    | nil => exact ⟨fun target hleaf => by simp [leafAt, leaf?] at hleaf, fun _ => rfl⟩
    | cons n q =>
      have hbefore : leafAt (n :: q) (.dir es) = (getEntry n es).bind (leafAt q) := by
        rw [leafAt, lookup_cons_dir, Option.bind_assoc]
        rfl
      have hafter : leafAt (n :: q) (.dir (keptEntries dead (k + 1) depth es))
          = (((getEntry n es).bind (keptTree dead (keptEntries dead k (depth + 1)) depth)).bind (lookup q)).bind
            leaf? := by
        rw [leafAt, lookup_kept_dir h]
      rw [hafter, lookup_kept_dir h, hbefore]
      cases hget : getEntry n es with
      | none => exact ⟨fun _ _ _ _ => rfl, fun _ => rfl⟩
      | some c =>
        obtain ⟨-, hc⟩ := h.entry (mem_of_getEntry hget)
        rw [Option.bind_some, Option.bind_some]
        cases c with
        | leaf l =>
          cases l with
          | file =>
            refine ⟨fun target hleaf => ?_, fun _ => rfl⟩
            rw [leafAt_leaf] at hleaf
            split at hleaf <;> simp at hleaf
          | link t =>
            rw [leafAt_leaf, keptTree]
            by_cases hdead : dead t = true
            · rw [if_pos hdead]
              refine ⟨fun _ _ _ _ => rfl, fun hfar => ?_⟩
              by_cases hq : q = []
              · have hlt := hfar t (by rw [if_pos hq]) hdead
                rw [hq] at hlt
                simp at hlt
              · rw [if_neg hq]
                rfl
            · rw [if_neg hdead]
              refine ⟨fun target hleaf hdead' => ?_, fun _ => ?_⟩
              · split at hleaf
                · obtain rfl : t = target := by simpa using hleaf
                  exact absurd hdead' hdead
                · simp at hleaf
              · rw [Option.bind_some, ← leafAt_leaf]
                rfl
        | dir sub =>
          obtain ⟨hgone, hstays⟩ := ih hc (depth + 1) q
          rw [keptTree]
          split
          · rename_i hempty
            -- the directory goes: nothing was left in it
            have hnil : keptEntries dead k (depth + 1) sub = [] :=
              List.isEmpty_iff.mp (Bool.and_eq_true_iff.mp hempty).2
            refine ⟨fun _ _ _ _ => rfl, fun hfar => ?_⟩
            rw [← hstays fun target hleaf hdead => Nat.lt_of_succ_lt_succ (hfar target hleaf hdead), hnil]
            cases q with
            | nil => rfl
            | cons m q => rfl
          · rw [Option.bind_some]
            refine ⟨fun target hleaf hdead hlen => ?_, fun hfar => ?_⟩
            · exact hgone target hleaf hdead (Nat.le_of_succ_le_succ hlen)
            · exact hstays fun target hleaf hdead => Nat.lt_of_succ_lt_succ (hfar target hleaf hdead)

theorem ordered_kept {es : List (Text × FarmTree)} (h : Ordered (FileTree.dir es)) (k depth : Nat) :
    Ordered (FileTree.dir (keptEntries dead k depth es)) := by
  induction k generalizing depth es with
  | zero => exact h
  | succ k ih =>
    obtain ⟨hsorted, hsub⟩ := ordered_dir.mp h
    refine ordered_dir.mpr ⟨?_, fun e he => ?_⟩
    · rw [keptEntries, List.pairwise_filterMap]
      refine hsorted.imp fun hlt b hb b' hb' => ?_
      obtain ⟨_, -, rfl⟩ := Option.map_eq_some_iff.mp hb
      obtain ⟨_, -, rfl⟩ := Option.map_eq_some_iff.mp hb'
      exact hlt
    · obtain ⟨e', he', hkept⟩ := List.mem_filterMap.mp he
      obtain ⟨c, hc, rfl⟩ := Option.map_eq_some_iff.mp hkept
      have he' := hsub e' he'
      generalize e'.2 = t at he' hc
      cases t with
      | leaf l =>
        cases l with
        | file =>
          obtain rfl := Option.some.inj hc
          exact ordered_leaf _
        | link target =>
          rw [keptTree] at hc
          split at hc
          · simp at hc
          · obtain rfl := Option.some.inj hc
            exact ordered_leaf _
      | dir sub =>
        rw [keptTree] at hc
        split at hc
        · simp at hc
        · obtain rfl := Option.some.inj hc
          exact ih he' (depth + 1)

end

/-! ## What the new links are -/

/-- Making one planned link, where nothing stands and no leaf is above. -/
theorem leafAt_applyRelink {t : FarmTree} {link : List Text} (target : Text) (hne : link ≠ [])
    (hfree : lookup link t = none) (hopen : ∀ q, q <+: link → leafAt q t = none) (q : List Text) :
    leafAt q (applyRelink t (link, target)) = (if q = link then some (.link target) else leafAt q t)
      ∧ (¬ q <+: link → lookup q (applyRelink t (link, target)) = lookup q t) := by
  obtain ⟨p, n, rfl⟩ : ∃ p n, link = p ++ [n] := ⟨_, _, (List.dropLast_append_getLast hne).symm⟩
  have hparent : p <+: p ++ [n] := List.prefix_append p [n]
  obtain ⟨u, hu⟩ := exists_mkdirs (p := p) (t := t) fun q hq => hopen q (hq.trans hparent)
  obtain ⟨hon, hoff⟩ := lookup_mkdirs hu
  obtain ⟨es, hes⟩ := (hon p List.prefix_rfl).2
  have hlong : ¬ (p ++ [n]) <+: p := fun hh => absurd hh.length_le (by simp)
  have hnone : lookup (p ++ [n]) u = none := by rw [hoff _ hlong, hfree]
  have hentry : getEntry n es = none := by
    rw [lookup_append, hes, Option.bind_some, lookup_cons_dir] at hnone
    cases hget : getEntry n es with
    | none => rfl
    | some c => rw [hget, Option.bind_some, lookup_nil] at hnone; simp at hnone
  obtain ⟨v, hv⟩ : ∃ v, putLeaf (p ++ [n]) (FarmLeaf.link target) u = some v :=
    exists_alter hes (by rw [hentry]; rfl)
  have happly : applyRelink t (p ++ [n], target) = v := by
    unfold applyRelink
    rw [if_neg (by rw [hfree]; simp), List.dropLast_concat, hu, Option.getD_some]
    dsimp only
    rw [hv, Option.getD_some]
  rw [happly]
  refine ⟨?_, fun hq => ?_⟩
  · rw [leafAt_putLeaf hv, leafAt_mkdirs hu]
    by_cases hq : q = p ++ [n]
    · rw [if_pos hq, if_pos hq]
    · rw [if_neg hq, if_neg hq]
  · have hq' : ¬ q <+: p := fun hh => hq (hh.trans hparent)
    by_cases hbelow : (p ++ [n]) <+: q
    · -- below the new link nothing is found, as before
      obtain ⟨r, rfl⟩ := hbelow
      have hr : r ≠ [] := fun hh => hq (by rw [hh, List.append_nil])
      have hleaf : leafAt (p ++ [n]) v = some (.link target) := by rw [leafAt_putLeaf hv, if_pos rfl]
      rw [lookup_append_of_leafAt hleaf hr, lookup_append, hfree]
      rfl
    · rw [(lookup_alter hv).2 q hbelow hq, hoff q hq']

/-- **Planned links, one after the other**: each is made, and no other leaf changes. -/
theorem applyRelinks_spec {links : List (List Text × Text)} {t : FarmTree}
    (hapart : links.Pairwise fun a b => ¬ a.1 <+: b.1 ∧ ¬ b.1 <+: a.1)
    (hfree : ∀ l ∈ links, l.1 ≠ [] ∧ lookup l.1 t = none ∧ ∀ q, q <+: l.1 → leafAt q t = none) :
    (∀ l ∈ links, leafAt l.1 (applyRelinks links t) = some (.link l.2))
      ∧ ∀ q, (∀ l ∈ links, l.1 ≠ q) → leafAt q (applyRelinks links t) = leafAt q t := by
  induction links generalizing t with
  | nil => exact ⟨fun l hl => absurd hl List.not_mem_nil, fun _ _ => rfl⟩
  | cons l links ih =>
    obtain ⟨hfirst, hrest⟩ := List.pairwise_cons.mp hapart
    obtain ⟨hne, hnone, hopen⟩ := hfree l List.mem_cons_self
    have hstep := leafAt_applyRelink l.2 hne hnone hopen
    have hfree' : ∀ l' ∈ links, l'.1 ≠ [] ∧ lookup l'.1 (applyRelink t l) = none
        ∧ ∀ q, q <+: l'.1 → leafAt q (applyRelink t l) = none := by
      intro l' hl'
      obtain ⟨hne', hnone', hopen'⟩ := hfree l' (List.mem_cons_of_mem _ hl')
      obtain ⟨hll', hl'l⟩ := hfirst l' hl'
      refine ⟨hne', ?_, fun q hq => ?_⟩
      · rw [← hnone']
        exact (hstep l'.1).2 hl'l
      · have hql : q ≠ l.1 := fun hh => hll' (hh ▸ hq)
        refine (hstep q).1.trans ?_
        rw [if_neg hql, hopen' q hq]
    obtain ⟨hmade, hother⟩ := ih hrest hfree'
    constructor
    · intro l' hl'
      rcases List.mem_cons.mp hl' with rfl | hl'
      · refine (hother l'.1 fun l'' hl'' heq => ?_).trans ?_
        · exact (hfirst l'' hl'').1 (by rw [heq])
        · exact (hstep l'.1).1.trans (if_pos rfl)
      · exact hmade l' hl'
    · intro q hq
      refine (hother q fun l' hl' => hq l' (List.mem_cons_of_mem _ hl')).trans ?_
      exact (hstep q).1.trans (if_neg (Ne.symm (hq l List.mem_cons_self)))

/-! ## The copy to point at -/

/-- A snapshot with an image that stays. -/
def Survivor (s : Snapshots) (released snap : Text) : Prop :=
  snap ≠ released ∧ isSnap snap = true ∧ hasImage s snap = true

/-- A snapshot's table of contents can be read in full and lists a clip with a size. -/
def Lists (s : Snapshots) (snap clip : Text) (size : Nat) : Prop :=
  ∃ toc, tocText s snap = some toc ∧ (size, clip) ∈ tocRows toc

/-- A surviving snapshot that lists a clip with its largest size. -/
def Largest (s : Snapshots) (released clip : Text) (size : Nat) (snap : Text) : Prop :=
  Survivor s released snap ∧ Lists s snap clip size
    ∧ ∀ other, Survivor s released other → ∀ size', Lists s other clip size' → size' ≤ size

theorem mem_survivors {s : Snapshots} {released snap : Text} :
    snap ∈ survivors s released ↔ Survivor s released snap := by
  unfold survivors Survivor
  rw [List.mem_reverse, List.mem_filter, Bool.and_eq_true, Bool.and_eq_true, decide_eq_true_iff]
  constructor
  · rintro ⟨-, ⟨hne, hsnap⟩, himage⟩
    exact ⟨hne, hsnap, himage⟩
  · rintro ⟨hne, hsnap, himage⟩
    refine ⟨?_, ⟨hne, hsnap⟩, himage⟩
    -- a name with an image is an entry
    cases hget : s.get snap with
    | none => simp [hasImage, slotAt, hget] at himage
    | some e => exact List.mem_map.mpr ⟨(snap, e), SortedMap.mem_entries.mpr hget, rfl⟩

theorem pairwise_survivors (s : Snapshots) (released : Text) : (survivors s released).Pairwise fun a b => b < a := by
  unfold survivors
  rw [List.pairwise_reverse]
  exact (List.pairwise_map.mpr s.sorted).filter _

/-- The lines of one table: the best copy stays, and no line beats it, or it is the largest line and beats what was
there. -/
theorem considerRows_spec (clip snap : Text) (best : Option (Nat × Text)) (rows : List (Nat × Text)) :
    (rows.foldl (considerRow clip snap) best = best
        ∧ ∀ size, (size, clip) ∈ rows → ∃ b, best = some b ∧ size ≤ b.1)
      ∨ ∃ m, rows.foldl (considerRow clip snap) best = some (m, snap) ∧ (m, clip) ∈ rows
        ∧ (∀ size, (size, clip) ∈ rows → size ≤ m) ∧ ∀ b, best = some b → b.1 < m := by
  induction rows generalizing best with
  | nil => exact Or.inl ⟨rfl, fun size hmem => absurd hmem List.not_mem_nil⟩
  | cons row rows ih =>
    rw [List.foldl_cons, considerRow]
    by_cases hbeats : row.2 = clip ∧ best.all (fun b => decide (b.1 < row.1)) = true
    · rw [if_pos hbeats]
      obtain ⟨rfl, hall⟩ := hbeats
      have hbest : ∀ b, best = some b → b.1 < row.1 := by
        rintro b rfl
        simpa using hall
      rcases ih (some (row.1, snap)) with ⟨hsame, hrows⟩ | ⟨m, hout, hmem, hmax, hlt⟩
      · refine Or.inr ⟨row.1, hsame, List.mem_cons_self, fun size hsize => ?_, hbest⟩
        rcases List.mem_cons.mp hsize with hrow | hsize
        · rw [← hrow]
        · obtain ⟨b, hb, hle⟩ := hrows size hsize
          rw [← Option.some.inj hb] at hle
          exact hle
      · have hm : row.1 < m := hlt (row.1, snap) rfl
        refine Or.inr ⟨m, hout, List.mem_cons_of_mem _ hmem, fun size hsize => ?_, fun b hb => ?_⟩
        · rcases List.mem_cons.mp hsize with hrow | hsize
          · rw [← hrow] at hm
            exact le_of_lt hm
          · exact hmax size hsize
        · exact lt_trans (hbest b hb) hm
    · rw [if_neg hbeats]
      have hrow : ∀ size, (size, clip) = row → ∃ b, best = some b ∧ size ≤ b.1 := by
        rintro size rfl
        cases best with
        | none => exact absurd ⟨rfl, rfl⟩ hbeats
        | some b =>
          refine ⟨b, rfl, not_lt.mp fun hlt => hbeats ⟨rfl, ?_⟩⟩
          simpa using hlt
      rcases ih best with ⟨hsame, hrows⟩ | ⟨m, hout, hmem, hmax, hlt⟩
      · refine Or.inl ⟨hsame, fun size hsize => ?_⟩
        rcases List.mem_cons.mp hsize with heq | hsize
        · exact hrow size heq
        · exact hrows size hsize
      · refine Or.inr ⟨m, hout, List.mem_cons_of_mem _ hmem, fun size hsize => ?_, hlt⟩
        rcases List.mem_cons.mp hsize with heq | hsize
        · obtain ⟨b, hb, hle⟩ := hrow size heq
          exact le_trans hle (le_of_lt (hlt b hb))
        · exact hmax size hsize

/-- The state of the search after some snapshots, in the order they are read: nothing found, or the largest copy, the
first of its size. -/
def Searched (s : Snapshots) (clip : Text) (read : List Text) (best : Option (Nat × Text)) : Prop :=
  (best = none ∧ ∀ snap ∈ read, ∀ size, ¬ Lists s snap clip size)
    ∨ ∃ m b before after, best = some (m, b) ∧ read = before ++ b :: after ∧ Lists s b clip m
      ∧ (∀ snap ∈ before, ∀ size, Lists s snap clip size → size < m)
      ∧ ∀ snap ∈ b :: after, ∀ size, Lists s snap clip size → size ≤ m

theorem searched_considerSnap {s : Snapshots} {clip : Text} {read : List Text} {best : Option (Nat × Text)}
    (h : Searched s clip read best) (snap : Text) :
    Searched s clip (read ++ [snap]) (considerSnap s clip best snap) := by
  -- a snapshot that lists no larger copy changes nothing
  have hkeep : (∀ size, Lists s snap clip size → ∃ b, best = some b ∧ size ≤ b.1) → Searched s clip (read ++ [snap]) best := by
    intro hsnap
    rcases h with ⟨rfl, hnone⟩ | ⟨m, b, before, after, rfl, rfl, hb, hbefore, hafter⟩
    · refine Or.inl ⟨rfl, fun other hother size hlists => ?_⟩
      rcases List.mem_append.mp hother with hother | hother
      · exact hnone other hother size hlists
      · rw [List.mem_singleton.mp hother] at hlists
        obtain ⟨b, hb, -⟩ := hsnap size hlists
        simp at hb
    · refine Or.inr ⟨m, b, before, after ++ [snap], rfl, by simp, hb, hbefore, fun other hother size hlists => ?_⟩
      rw [← List.cons_append] at hother
      rcases List.mem_append.mp hother with hother | hother
      · exact hafter other hother size hlists
      · rw [List.mem_singleton.mp hother] at hlists
        obtain ⟨b', hb', hle⟩ := hsnap size hlists
        rw [← Option.some.inj hb'] at hle
        exact hle
  unfold considerSnap
  cases htoc : tocText s snap with
  | none =>
    refine hkeep fun size hlists => ?_
    obtain ⟨toc, htoc', -⟩ := hlists
    rw [htoc] at htoc'
    simp at htoc'
  | some toc =>
    have hrows : ∀ size, Lists s snap clip size ↔ (size, clip) ∈ tocRows toc := by
      intro size
      constructor
      · rintro ⟨toc', htoc', hmem⟩
        rw [htoc] at htoc'
        rw [Option.some.inj htoc']
        exact hmem
      · intro hmem
        exact ⟨toc, htoc, hmem⟩
    dsimp only
    rcases considerRows_spec clip snap best (tocRows toc) with ⟨hsame, hle⟩ | ⟨m, hout, hmem, hmax, hlt⟩
    · rw [hsame]
      exact hkeep fun size hlists => hle size ((hrows size).mp hlists)
    · rw [hout]
      refine Or.inr ⟨m, snap, read, [], rfl, rfl, (hrows m).mpr hmem, fun other hother size hlists => ?_,
        fun other hother size hlists => ?_⟩
      · rcases h with ⟨-, hnone⟩ | ⟨m', b, before, after, rfl, rfl, -, hbefore, hafter⟩
        · exact absurd hlists (hnone other hother size)
        · have hm := hlt _ rfl
          rcases List.mem_append.mp hother with hother | hother
          · exact lt_trans (hbefore other hother size hlists) hm
          · exact lt_of_le_of_lt (hafter other hother size hlists) hm
      · rw [List.mem_singleton.mp hother] at hlists
        exact hmax size ((hrows size).mp hlists)

/-- The search over all surviving snapshots. -/
theorem searched_bestCopy (s : Snapshots) (released clip : Text) :
    Searched s clip (survivors s released) (bestCopy s released clip) := by
  unfold bestCopy
  induction survivors s released using List.reverseRecOn with
  | nil => exact Or.inl ⟨rfl, fun snap hsnap => absurd hsnap List.not_mem_nil⟩
  | append_singleton read snap ih =>
    rw [List.foldl_append]
    exact searched_considerSnap ih snap

theorem bestCopy_eq_none {s : Snapshots} {released clip : Text} (h : bestCopy s released clip = none) :
    ∀ snap, Survivor s released snap → ∀ size, ¬ Lists s snap clip size := by
  rcases searched_bestCopy s released clip with ⟨-, hnone⟩ | ⟨m, b, before, after, hsome, -⟩
  · exact fun snap hsnap => hnone snap (mem_survivors.mpr hsnap)
  · rw [h] at hsome
    simp at hsome

/-- **The copy found is the largest; of several it is the one whose name sorts last.** -/
theorem bestCopy_eq_some {s : Snapshots} {released clip : Text} {m : Nat} {b : Text}
    (h : bestCopy s released clip = some (m, b)) :
    Largest s released clip m b ∧ ∀ a, Largest s released clip m a → a ≤ b := by
  rcases searched_bestCopy s released clip with ⟨hnone, -⟩ | ⟨m', b', before, after, hsome, hread, hb, hbefore, hafter⟩
  · rw [h] at hnone
    simp at hnone
  · rw [h] at hsome
    obtain ⟨rfl, rfl⟩ := Prod.mk.inj (Option.some.inj hsome)
    have hall : ∀ other, Survivor s released other → ∀ size, Lists s other clip size → size ≤ m := by
      intro other hother size hlists
      have hmem := mem_survivors.mpr hother
      rw [hread] at hmem
      rcases List.mem_append.mp hmem with hmem | hmem
      · exact le_of_lt (hbefore other hmem size hlists)
      · exact hafter other hmem size hlists
    have hsurvives : Survivor s released b := by
      refine mem_survivors.mp ?_
      rw [hread]
      exact List.mem_append_right _ List.mem_cons_self
    refine ⟨⟨hsurvives, hb, hall⟩, fun a ha => ?_⟩
    have hmem := mem_survivors.mpr ha.1
    have hsorted := pairwise_survivors s released
    rw [hread] at hmem hsorted
    rcases List.mem_append.mp hmem with hmem | hmem
    · exact absurd (hbefore a hmem m ha.2.1) (lt_irrefl m)
    · rcases List.mem_cons.mp hmem with rfl | hmem
      · exact le_rfl
      · exact le_of_lt ((List.pairwise_cons.mp (List.pairwise_append.mp hsorted).2.1).1 a hmem)

/-! ## The farm after a release -/

theorem linkInto_eq_some {snap : Text} {found : List Text × FarmLeaf} {link : List Text × Text} :
    linkInto snap found = some link
      ↔ found = (link.1, .link link.2) ∧ ownedSnapComponent link.2 = some snap := by
  obtain ⟨q, l⟩ := found
  obtain ⟨p, target⟩ := link
  unfold linkInto
  cases l with
  | file => simp
  | link t =>
    dsimp only
    by_cases howned : ownedSnapComponent t = some snap
    · rw [if_pos howned]
      constructor
      · intro h
        obtain ⟨rfl, rfl⟩ := Prod.mk.inj (Option.some.inj h)
        exact ⟨rfl, howned⟩
      · rintro ⟨h, -⟩
        obtain ⟨rfl, ht⟩ := Prod.mk.inj h
        rw [FarmLeaf.link.inj ht]
    · rw [if_neg howned]
      constructor
      · intro h
        simp at h
      · rintro ⟨h, howned'⟩
        obtain ⟨-, ht⟩ := Prod.mk.inj h
        rw [FarmLeaf.link.inj ht] at howned
        exact absurd howned' howned

theorem mem_collectLinksInto {farm : Farm} {snap target : Text} {p : List Text} :
    (p, target) ∈ collectLinksInto farm snap
      ↔ p.length ≤ walkDepth ∧ leafAt p farm.tree = some (.link target) ∧ ownedSnapComponent target = some snap := by
  unfold collectLinksInto
  rw [List.mem_filterMap]
  constructor
  · rintro ⟨found, hmem, hl⟩
    obtain ⟨rfl, howned⟩ := linkInto_eq_some.mp hl
    obtain ⟨p', hp', -, hlen, hleaf⟩ := (mem_leaves farm.ordered).mp hmem
    rw [List.nil_append] at hp'
    dsimp only at hp'
    rw [hp']
    exact ⟨hlen, hleaf, howned⟩
  · rintro ⟨hlen, hleaf, howned⟩
    refine ⟨(p, .link target), (mem_leaves farm.ordered).mpr ⟨p, rfl, ?_, hlen, hleaf⟩,
      linkInto_eq_some.mpr ⟨rfl, howned⟩⟩
    rintro rfl
    simp [Farm.tree, leafAt, leaf?] at hleaf

theorem mem_planRelinks {s : Snapshots} {farm : Farm} {released new : Text} {p : List Text} :
    (p, new) ∈ planRelinks s released (collectLinksInto farm released)
      ↔ ∃ target, (p, target) ∈ collectLinksInto farm released ∧ newTarget s released target = some new := by
  unfold planRelinks
  rw [List.mem_filterMap]
  constructor
  · rintro ⟨⟨q, target⟩, hmem, h⟩
    obtain ⟨new', hnew, h⟩ := Option.map_eq_some_iff.mp h
    obtain ⟨rfl, rfl⟩ := Prod.mk.inj h
    exact ⟨target, hmem, hnew⟩
  · rintro ⟨target, hmem, h⟩
    exact ⟨(p, target), hmem, by rw [h]; rfl⟩

/-- The paths of the planned links do not meet. -/
theorem planRelinks_apart (s : Snapshots) (farm : Farm) (released : Text) :
    (planRelinks s released (collectLinksInto farm released)).Pairwise fun a b => ¬ a.1 <+: b.1 ∧ ¬ b.1 <+: a.1 := by
  have hcollected : (collectLinksInto farm released).Pairwise fun a b => a.1 ≠ b.1 := by
    unfold collectLinksInto
    rw [List.pairwise_filterMap]
    refine (pairwise_leaves farm.ordered).imp fun {a b} hne x hx y hy hxy => hne ?_
    rw [(linkInto_eq_some.mp hx).1, (linkInto_eq_some.mp hy).1]
    exact hxy
  unfold planRelinks
  rw [List.pairwise_filterMap]
  refine hcollected.imp_of_mem fun {a b} ha hb hne x hx y hy => ?_
  obtain ⟨-, -, rfl⟩ := Option.map_eq_some_iff.mp hx
  obtain ⟨-, -, rfl⟩ := Option.map_eq_some_iff.mp hy
  -- both are leaves of the farm
  obtain ⟨-, hleafa, -⟩ := mem_collectLinksInto.mp (show (a.1, a.2) ∈ _ from ha)
  obtain ⟨-, hleafb, -⟩ := mem_collectLinksInto.mp (show (b.1, b.2) ∈ _ from hb)
  exact ⟨fun hab => hne (eq_of_leaves hleafa hleafb hab).symm, fun hba => hne (eq_of_leaves hleafb hleafa hba)⟩

/-- After its directory is removed a snapshot is gone. -/
theorem releasedLinkIsDead_after {s after : Snapshots} {name target : Text} (h : removeDirAll s name = some after) :
    releasedLinkIsDead after name target = true ↔ ownedSnapComponent target = some name := by
  have hafter : after = s.remove name := by
    unfold removeDirAll at h
    split at h
    · exact (Option.some.inj h).symm
    · exact (Option.some.inj h).symm
    · simp at h
  have hgone : snapshotState after name = .gone := by
    unfold snapshotState slotAt
    rw [hafter, SortedMap.get_remove, if_pos rfl]
    rfl
  rw [releasedLinkIsDead, hgone]
  simp

/-- **The farm after a release**: a link the walks reach that names the snapshot has its new target, or is gone; every
other link, and every file, stays. -/
theorem releaseSnapshotFiles_leafAt {guard : Nat → Bool} (hguard : ∀ i, guard i = true) {name : Text}
    {s after : Snapshots} {farm : Farm} {tree : FarmTree}
    (h : releaseSnapshotFiles guard name s farm = some (after, tree)) (p : List Text) :
    (∀ target, (p, target) ∈ collectLinksInto farm name →
        leafAt p tree = (newTarget s name target).map FarmLeaf.link)
      ∧ ((∀ target, (p, target) ∉ collectLinksInto farm name) → leafAt p tree = leafAt p farm.tree) := by
  unfold releaseSnapshotFiles at h
  obtain ⟨after', hremove, h⟩ := Option.map_eq_some_iff.mp h
  obtain ⟨rfl, htree⟩ := Prod.mk.inj h
  have hdead : ∀ target, releasedLinkIsDead after' name target = true ↔ ownedSnapComponent target = some name :=
    fun target => releasedLinkIsDead_after hremove
  obtain ⟨-, hentries, hcount⟩ := pruneWalk_mounted (releasedLinkIsDead after' name) hguard walkDepth 0 0 farm.entries
  set pruned : FarmTree := .dir (keptEntries (releasedLinkIsDead after' name) walkDepth 0 farm.entries) with hpruned
  set plan := planRelinks s name (collectLinksInto farm name) with hplan
  -- without a dead link there is nothing to make
  have hmade : tree = applyRelinks plan pruned := by
    rw [← htree, pruneFarmLinks, hentries, hguard, Bool.and_true]
    split
    · rfl
    · rename_i hzero
      have hnone : plan = [] := by
        refine List.eq_nil_iff_forall_not_mem.mpr fun l hl => ?_
        obtain ⟨target, hcollected, -⟩ := mem_planRelinks.mp (show (l.1, l.2) ∈ plan from hl)
        obtain ⟨hlen, hleaf, howned⟩ := mem_collectLinksInto.mp hcollected
        have hvisited : (l.1, FarmLeaf.link target) ∈ leaves walkDepth [] (.dir farm.entries) := by
          refine (mem_leaves farm.ordered).mpr ⟨l.1, rfl, ?_, hlen, hleaf⟩
          intro hnil
          rw [hnil] at hleaf
          simp [Farm.tree, leafAt, leaf?] at hleaf
        have halive := hcount (Nat.eq_zero_of_not_pos (by simpa using hzero)) [] l.1 target hvisited
        rw [(hdead target).mpr howned] at halive
        simp at halive
      rw [hnone]
      rfl
  have hgone : ∀ q target, (q, target) ∈ collectLinksInto farm name → lookup q pruned = none := by
    intro q target hcollected
    obtain ⟨hlen, hleaf, howned⟩ := mem_collectLinksInto.mp hcollected
    exact (kept_spec farm.ordered walkDepth 0 q).1 target hleaf ((hdead target).mpr howned) hlen
  have hstays : ∀ q, (∀ target, (q, target) ∉ collectLinksInto farm name) → leafAt q pruned = leafAt q farm.tree := by
    intro q hq
    refine (kept_spec farm.ordered walkDepth 0 q).2 fun target hleaf hdead' => ?_
    by_contra hlen
    exact hq target (mem_collectLinksInto.mpr ⟨not_lt.mp hlen, hleaf, (hdead target).mp hdead'⟩)
  -- the places of the planned links are free, and reached through directories
  have hfree : ∀ l ∈ plan, l.1 ≠ [] ∧ lookup l.1 pruned = none ∧ ∀ q, q <+: l.1 → leafAt q pruned = none := by
    intro l hl
    obtain ⟨target, hcollected, -⟩ := mem_planRelinks.mp (show (l.1, l.2) ∈ plan from hl)
    obtain ⟨hlen, hleaf, howned⟩ := mem_collectLinksInto.mp hcollected
    refine ⟨fun hnil => ?_, hgone l.1 target hcollected, fun q hq => ?_⟩
    · rw [hnil] at hleaf
      simp [Farm.tree, leafAt, leaf?] at hleaf
    · by_cases heq : q = l.1
      · rw [heq, leafAt, hgone l.1 target hcollected]
        rfl
      · have hnone : leafAt q farm.tree = none := by
          by_contra hsome
          obtain ⟨a, ha⟩ := Option.ne_none_iff_exists'.mp hsome
          exact heq (eq_of_leaves ha hleaf hq).symm
        rw [hstays q fun target' hcollected' => ?_, hnone]
        rw [(mem_collectLinksInto.mp hcollected').2.1] at hnone
        simp at hnone
  obtain ⟨hnew, hother⟩ := applyRelinks_spec (planRelinks_apart s farm name) hfree
  rw [hmade]
  constructor
  · intro target hcollected
    cases htarget : newTarget s name target with
    | some new => exact hnew (p, new) (mem_planRelinks.mpr ⟨target, hcollected, htarget⟩)
    | none =>
      rw [hother p, leafAt, hgone p target hcollected]
      · rfl
      · rintro ⟨p', new⟩ hl rfl
        obtain ⟨target', hcollected', htarget'⟩ := mem_planRelinks.mp hl
        -- one link stands at a path
        have hleaf := (mem_collectLinksInto.mp hcollected).2.1
        rw [(mem_collectLinksInto.mp hcollected').2.1] at hleaf
        rw [FarmLeaf.link.inj (Option.some.inj hleaf), htarget] at htarget'
        simp at htarget'
  · intro hnot
    rw [hother p, hstays p hnot]
    rintro ⟨p', new⟩ hl rfl
    obtain ⟨target', hcollected', -⟩ := mem_planRelinks.mp hl
    exact hnot target' hcollected'

theorem ordered_applyRelinks {links : List (List Text × Text)} {t : FarmTree} (h : Ordered t) :
    Ordered (applyRelinks links t) := by
  induction links generalizing t with
  | nil => exact h
  | cons l links ih =>
    refine ih ?_
    unfold applyRelink
    split
    · exact h
    · have hdirs : Ordered ((mkdirs l.1.dropLast t).getD t) := by
        cases hu : mkdirs l.1.dropLast t with
        | none => exact h
        | some u => exact h.mkdirs hu
      dsimp only
      cases hv : putLeaf l.1 (FarmLeaf.link l.2) ((mkdirs l.1.dropLast t).getD t) with
      | none => exact hdirs
      | some v => exact hdirs.putLeaf hv

/-- A release leaves a farm again. -/
theorem ordered_release {guard : Nat → Bool} (hguard : ∀ i, guard i = true) {name : Text} {s after : Snapshots}
    {farm : Farm} {tree : FarmTree} (h : releaseSnapshotFiles guard name s farm = some (after, tree)) : Ordered tree := by
  unfold releaseSnapshotFiles at h
  obtain ⟨after', -, h⟩ := Option.map_eq_some_iff.mp h
  obtain ⟨rfl, rfl⟩ := Prod.mk.inj h
  obtain ⟨-, hentries, -⟩ := pruneWalk_mounted (releasedLinkIsDead after' name) hguard walkDepth 0 0 farm.entries
  have hpruned : Ordered (FileTree.dir (pruneFarmLinks (releasedLinkIsDead after' name) guard false farm).entries) := by
    rw [pruneFarmLinks, hentries]
    exact ordered_kept farm.ordered walkDepth 0
  split
  · exact ordered_applyRelinks hpruned
  · exact hpruned

/-! ## The contract -/

/-- **What a release is expected to do to the farm**: no link names the snapshot any more, a link whose clip is listed
by a snapshot that stays points at the largest copy, of several at the one with the highest slot, every other link into
the snapshot is gone, and the rest stays. -/
structure Released (s : Snapshots) (released : Text) (farm : Farm) (tree : FarmTree) : Prop where
  unnamed : ∀ p target, p.length ≤ walkDepth → linkAt p tree = some target → ownedSnapComponent target ≠ some released
  repointed : ∀ p form clip snap size, p.length ≤ walkDepth → Canonical clip →
    linkAt p farm.tree = some (Form.target form released clip) → Survivor s released snap → Lists s snap clip size →
    ∃ m best, Largest s released clip m best ∧ (∀ a, Largest s released clip m a → slotValue a ≤ slotValue best)
      ∧ linkAt p tree = some (form.target best clip)
  dropped : ∀ p form clip, p.length ≤ walkDepth → Canonical clip →
    linkAt p farm.tree = some (Form.target form released clip) →
    (∀ snap, Survivor s released snap → ∀ size, ¬ Lists s snap clip size) → linkAt p tree = none
  kept : ∀ p target, linkAt p farm.tree = some target → ownedSnapComponent target ≠ some released →
    linkAt p tree = some target

/-- For every clip to point elsewhere: of the snapshots with its largest copy, the one whose name sorts last has the
highest slot. -/
def NamesSortBySlot (s : Snapshots) (released : Text) (farm : Farm) : Prop :=
  ∀ p form clip m b, p.length ≤ walkDepth → Canonical clip →
    linkAt p farm.tree = some (Form.target form released clip) → Largest s released clip m b →
    (∀ a, Largest s released clip m a → a ≤ b) → ∀ a, Largest s released clip m a → slotValue a ≤ slotValue b

theorem namesSortBySlot_of_length {s : Snapshots} {released : Text} {farm : Farm} {n : Nat}
    (h : ∀ snap, Survivor s released snap → snap.length = n) : NamesSortBySlot s released farm := by
  intro p form clip m b _ _ _ hb hlast a ha
  refine slotValue_le_of_le ha.1.2.1 hb.1.2.1 ?_ (hlast a ha)
  rw [h a ha.1, h b hb.1]

theorem linkAt_eq_some {p : List Text} {t : FarmTree} {target : Text} :
    linkAt p t = some target ↔ leafAt p t = some (.link target) := by
  unfold linkAt
  constructor
  · intro h
    obtain ⟨l, hl, hlink⟩ := Option.bind_eq_some_iff.mp h
    cases l with
    | file => simp at hlink
    | link t =>
      rw [hl]
      exact congrArg (some ∘ FarmLeaf.link) (Option.some.inj hlink)
  · intro h
    rw [h]
    rfl

theorem largest_unique {s : Snapshots} {released clip a b : Text} {m m' : Nat} (ha : Largest s released clip m a)
    (hb : Largest s released clip m' b) : m = m' :=
  le_antisymm (hb.2.2 a ha.1 m ha.2.1) (ha.2.2 b hb.1 m' hb.2.1)

section

variable {guard : Nat → Bool} {name : Text} {s after : Snapshots} {farm : Farm} {tree : FarmTree}

/-- The fate of a link in one of the shapes minted here. -/
theorem linkAt_of_target (hguard : ∀ i, guard i = true) (hname : isSnap name = true)
    (h : releaseSnapshotFiles guard name s farm = some (after, tree)) {p : List Text} {form : Form} {clip : Text}
    (hlen : p.length ≤ walkDepth) (hclip : Canonical clip)
    (hlink : linkAt p farm.tree = some (form.target name clip)) :
    linkAt p tree = (bestCopy s name clip).map fun best => form.target best.2 clip := by
  have hcollected : (p, form.target name clip) ∈ collectLinksInto farm name :=
    mem_collectLinksInto.mpr ⟨hlen, linkAt_eq_some.mp hlink, ownedSnapComponent_eq_some.mpr ⟨hname, form, clip, hclip, rfl⟩⟩
  rw [linkAt, (releaseSnapshotFiles_leafAt hguard h p).1 _ hcollected, newTarget, clipOf_target form hclip, Option.bind_some]
  cases bestCopy s name clip with
  | none => rfl
  | some best => rfl

/-- **A release does what is expected of it exactly when the names sort by slot.** -/
theorem released_iff (hguard : ∀ i, guard i = true) (hname : isSnap name = true)
    (h : releaseSnapshotFiles guard name s farm = some (after, tree)) :
    Released s name farm tree ↔ NamesSortBySlot s name farm := by
  have hleaf := releaseSnapshotFiles_leafAt hguard h
  constructor
  · intro hreleased p form clip m b hlen hclip hlink hb hlast a ha
    obtain ⟨m', best, hbest, hhighest, htree⟩ :=
      hreleased.repointed p form clip b m hlen hclip hlink hb.1 hb.2.1
    obtain rfl := largest_unique hb hbest
    rw [linkAt_of_target hguard hname h hlen hclip hlink] at htree
    obtain ⟨⟨m', b'⟩, hcopy, htarget⟩ := Option.map_eq_some_iff.mp htree
    obtain ⟨hb', hlast'⟩ := bestCopy_eq_some hcopy
    obtain rfl := largest_unique hb hb'
    -- the copy found is the one whose name sorts last
    obtain rfl : b' = best := target_injective form htarget
    rw [le_antisymm (hlast' b hb) (hlast b' hb')]
    exact hhighest a ha
  · intro hnames
    refine ⟨fun p target hlen hlink howned => ?_, fun p form clip snap size hlen hclip hlink hsnap hlists => ?_,
      fun p form clip hlen hclip hlink hnone => ?_, fun p target hlink howned => ?_⟩
    · -- a link that named the snapshot was re-pointed, and no other does
      by_cases hcollected : ∃ old, (p, old) ∈ collectLinksInto farm name
      · obtain ⟨old, hcollected⟩ := hcollected
        obtain ⟨-, hold, hname'⟩ := mem_collectLinksInto.mp hcollected
        obtain ⟨-, form, clip, hclip, rfl⟩ := ownedSnapComponent_eq_some.mp hname'
        rw [linkAt_of_target hguard hname h hlen hclip (linkAt_eq_some.mpr hold)] at hlink
        obtain ⟨⟨m, best⟩, hcopy, rfl⟩ := Option.map_eq_some_iff.mp hlink
        obtain ⟨⟨⟨hne, hsnap, -⟩, -⟩, -⟩ := bestCopy_eq_some hcopy
        rw [ownedSnapComponent_eq_some.mpr ⟨hsnap, form, clip, hclip, rfl⟩] at howned
        exact hne (Option.some.inj howned)
      · have hnot : ∀ old, (p, old) ∉ collectLinksInto farm name := fun old hold => hcollected ⟨old, hold⟩
        rw [linkAt_eq_some, (hleaf p).2 hnot] at hlink
        exact hnot target (mem_collectLinksInto.mpr ⟨hlen, hlink, howned⟩)
    · cases hcopy : bestCopy s name clip with
      | none => exact absurd hlists (bestCopy_eq_none hcopy snap hsnap size)
      | some best =>
        obtain ⟨m, best⟩ := best
        obtain ⟨hbest, hlast⟩ := bestCopy_eq_some hcopy
        refine ⟨m, best, hbest, hnames p form clip m best hlen hclip hlink hbest hlast, ?_⟩
        rw [linkAt_of_target hguard hname h hlen hclip hlink, hcopy]
        rfl
    · rw [linkAt_of_target hguard hname h hlen hclip hlink]
      cases hcopy : bestCopy s name clip with
      | none => rfl
      | some best =>
        obtain ⟨hbest, -⟩ := bestCopy_eq_some hcopy
        exact absurd hbest.2.1 (hnone best.2 hbest.1 best.1)
    · rw [linkAt_eq_some, (hleaf p).2 fun old hold => ?_]
      · exact linkAt_eq_some.mp hlink
      · obtain ⟨-, hold, hname'⟩ := mem_collectLinksInto.mp hold
        rw [linkAt_eq_some.mp hlink] at hold
        rw [← FarmLeaf.link.inj (Option.some.inj hold)] at hname'
        exact howned hname'

end

/-- **Releasing a snapshot re-points its links as expected exactly when, among the largest copies of each clip, the
name that sorts last has the highest slot.** -/
theorem releaseSnapshotFiles_released_iff {guard : Nat → Bool} (hguard : ∀ i, guard i = true) {name : Text}
    (hname : isSnap name = true) {s : Snapshots} (hdir : (s.get name).any Entry.isDir = true) (farm : Farm) :
    ∃ after tree, releaseSnapshotFiles guard name s farm = some (after, tree)
      ∧ (Released s name farm tree ↔ NamesSortBySlot s name farm) := by
  have hremove : ∃ after, removeDirAll s name = some after := by
    unfold removeDirAll
    cases hget : s.get name with
    | none => rw [hget] at hdir; simp at hdir
    | some e =>
      rw [hget] at hdir
      cases e with
      | dir slot => exact ⟨_, rfl⟩
      | file => simp [Entry.isDir] at hdir
      | link slot => simp [Entry.isDir] at hdir
  obtain ⟨after, hafter⟩ := hremove
  have hrelease : ∃ tree, releaseSnapshotFiles guard name s farm = some (after, tree) := by
    unfold releaseSnapshotFiles
    rw [hafter]
    exact ⟨_, rfl⟩
  obtain ⟨tree, htree⟩ := hrelease
  exact ⟨after, tree, htree, released_iff hguard hname htree⟩

/-! ## Past six digits -/

/-- A slot with an image and a table of contents. -/
def slotWith (toc : Text) : Entry := .dir { SlotDir.empty with image := some 0, toc := some (some toc) }

/-- A first snapshot and two others of the same clip. -/
def snapshotsOf (second third : Nat) : Snapshots :=
  ((SortedMap.empty.insert (snapName 1) (slotWith "5 a".toList)).insert (snapName second) (slotWith "5 a".toList)).insert
    (snapName third) (slotWith "5 a".toList)

/-- A farm with one link, to the clip in the first snapshot. -/
def oneLinkFarm : Farm where
  entries := [("a".toList, .leaf (.link (Form.stable.target (snapName 1) "a".toList)))]
  ordered := ordered_dir.mpr ⟨List.pairwise_singleton _ _, fun e he => by
    rw [List.mem_singleton.mp he]
    exact ordered_leaf _⟩

/-- With names of six digits the link is re-pointed as expected. -/
theorem releaseSnapshotFiles_released_six_digits :
    ∃ after tree, releaseSnapshotFiles (fun _ => true) (snapName 1) (snapshotsOf 2 3) oneLinkFarm = some (after, tree)
      ∧ Released (snapshotsOf 2 3) (snapName 1) oneLinkFarm tree := by
  obtain ⟨after, tree, hrelease, hiff⟩ : ∃ after tree,
      releaseSnapshotFiles (fun _ => true) (snapName 1) (snapshotsOf 2 3) oneLinkFarm = some (after, tree)
      ∧ (Released (snapshotsOf 2 3) (snapName 1) oneLinkFarm tree
        ↔ NamesSortBySlot (snapshotsOf 2 3) (snapName 1) oneLinkFarm) :=
    releaseSnapshotFiles_released_iff (fun _ => rfl) (by decide +kernel) (by decide +kernel) oneLinkFarm
  have hlength : ∀ snap ∈ survivors (snapshotsOf 2 3) (snapName 1), snap.length = 11 := by decide +kernel
  exact ⟨after, tree, hrelease, hiff.mpr (namesSortBySlot_of_length fun snap hsnap => hlength snap (mem_survivors.mpr hsnap))⟩

/-- **Past six digits a link goes to the lower slot.** -/
theorem releaseSnapshotFiles_lower_slot :
    ∃ after tree,
      releaseSnapshotFiles (fun _ => true) (snapName 1) (snapshotsOf 999999 1000000) oneLinkFarm = some (after, tree)
      ∧ ¬ Released (snapshotsOf 999999 1000000) (snapName 1) oneLinkFarm tree := by
  obtain ⟨⟨after, tree⟩, hrelease⟩ : ∃ x,
      releaseSnapshotFiles (fun _ => true) (snapName 1) (snapshotsOf 999999 1000000) oneLinkFarm = some x := ⟨_, rfl⟩
  refine ⟨after, tree, hrelease, fun hreleased => ?_⟩
  have hnames := (released_iff (fun _ => rfl) (by decide +kernel) hrelease).mp hreleased
  -- the largest copies are those of both snapshots, and 999999 sorts last
  have hcopy : bestCopy (snapshotsOf 999999 1000000) (snapName 1) "a".toList = some (5, snapName 999999) := by
    decide +kernel
  obtain ⟨hlower, hlast⟩ := bestCopy_eq_some hcopy
  have hhigher : Largest (snapshotsOf 999999 1000000) (snapName 1) "a".toList 5 (snapName 1000000) := by
    refine ⟨mem_survivors.mp (by decide +kernel), ⟨"5 a".toList, by decide +kernel, by decide +kernel⟩, hlower.2.2⟩
  have hclip : Canonical "a".toList := by
    intro part hpart
    have hparts : ("a".toList.splitOn '/').all properComponent = true := by decide +kernel
    exact List.all_eq_true.mp hparts part hpart
  have hle := hnames ["a".toList] .stable "a".toList 5 (snapName 999999) (by decide) hclip (by decide +kernel) hlower hlast
    (snapName 1000000) hhigher
  rw [slotValue_snapName, slotValue_snapName] at hle
  exact absurd hle (by decide)

end SentryUsb.Snapshot
