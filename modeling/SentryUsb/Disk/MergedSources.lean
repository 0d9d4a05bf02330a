import SentryUsb.Disk.RecentAliases
import SentryUsb.Snapshot.Store

/-! # The newest source of each path

The merged tree of a removed disk is built from the snapshots in the order of their age, the later replacing the earlier,
and is shown directory by directory (`disk_reader/src/archive.rs`).

* **`sortSnapshotSources`** — the order of the snapshots, those of unknown age first;
* **`Newest`**, **`get_buildMergedTree`** — the entry of a path is that of the last source that lists it;
* **`readDir`** — a directory of the merged tree, **`mem_readDir_dir`**, **`mem_readDir_file`** — what it lists;
* **`mergedTree_newest`** — both together. -/

namespace SentryUsb.Disk

open Library
open Snapshot (splitOnce)

/-! ## Sources -/

/-- A snapshot: its slot, when it was frozen if that is known, and its table of contents if it has one. -/
structure Source where
  slot : Nat
  mtime : Option Int
  label : Text
  toc : Option (List TocEntry)

/-- The key snapshots are sorted by: unknown ages come first, and equal ones in the order of the slots. -/
def Source.age (s : Source) : WithBot Int ×ₗ Nat := toLex ((s.mtime : WithBot Int), s.slot)

/-- Snapshots oldest first (`sort_snapshot_sources`). -/
def sortSnapshotSources (sources : List Source) : List Source := sources.insertionSort fun s t => s.age ≤ t.age

-- what a walk through the file system of a snapshot finds, unless it cannot be read
variable (walkCam : Source → Option (List TocEntry))

/-- The files of a snapshot: those of its table of contents, or those a walk finds. -/
def Source.listing (s : Source) : Option (List TocEntry) := s.toc.or (walkCam s)

/-- A snapshot has a file under this path. -/
def Source.Lists (s : Source) (path : Text) : Prop := ∃ toc, s.listing walkCam = some toc ∧ ∃ e ∈ toc, e.path = path

/-- The last entry of a table of contents under a path. -/
def lastEntry (path : Text) (toc : List TocEntry) : Option TocEntry := toc.reverse.find? fun e => decide (e.path = path)

/-- The source at this place lists the path with this size, and none after it lists it. -/
def Newest (sources : List Source) (path : Text) (i size : Nat) : Prop :=
  ∃ s toc e, sources[i]? = some s ∧ s.listing walkCam = some toc ∧ lastEntry path toc = some e ∧ e.size = size
    ∧ ∀ j t, i < j → sources[j]? = some t → ¬ t.Lists walkCam path

variable {walkCam : Source → Option (List TocEntry)}

theorem lastEntry_eq_none {path : Text} {toc : List TocEntry} :
    lastEntry path toc = none ↔ ∀ e ∈ toc, e.path ≠ path := by
  rw [lastEntry, List.find?_eq_none]
  simp only [List.mem_reverse, decide_eq_true_eq, ne_eq]

theorem lastEntry_concat (path : Text) (toc : List TocEntry) (e : TocEntry) :
    lastEntry path (toc ++ [e]) = if e.path = path then some e else lastEntry path toc := by
  rw [lastEntry, List.reverse_append, List.reverse_singleton, List.singleton_append, List.find?_cons, lastEntry]
  by_cases hpath : e.path = path
  · rw [if_pos hpath, decide_eq_true hpath]
  · rw [if_neg hpath, decide_eq_false hpath]

theorem lists_iff {s : Source} {path : Text} :
    s.Lists walkCam path ↔ ∃ toc e, s.listing walkCam = some toc ∧ lastEntry path toc = some e := by
  constructor
  · rintro ⟨toc, hlisting, e, he, hpath⟩
    cases hlast : lastEntry path toc with
    | none => exact absurd hpath (lastEntry_eq_none.mp hlast e he)
    | some e' => exact ⟨toc, e', hlisting, hlast⟩
  · rintro ⟨toc, e, hlisting, hlast⟩
    refine ⟨toc, hlisting, e, List.mem_reverse.mp (List.mem_of_find?_eq_some hlast), ?_⟩
    have hpath := List.find?_some (p := fun e : TocEntry => decide (e.path = path)) hlast
    exact of_decide_eq_true hpath

/-- **One source**: its paths get its last entries, the others stay. -/
theorem get_addSource_eq (files : MergedTree) (toc : List TocEntry) (idx : Nat) (path : Text) :
    (addSource files toc idx).get path
      = ((lastEntry path toc).map fun e => ⟨idx, e.size, none⟩).or (files.get path) := by
  induction toc using List.reverseRecOn with
  | nil => rfl
  | append_singleton toc e ih =>
    rw [addSource] at ih ⊢
    rw [List.foldl_append, List.foldl_cons, List.foldl_nil, SortedMap.get_insert, ih, lastEntry_concat]
    by_cases hpath : path = e.path
    · rw [if_pos hpath, if_pos hpath.symm]
      rfl
    · rw [if_neg hpath, if_neg (Ne.symm hpath)]

theorem get_addListing (files : MergedTree) (s : Source) (idx : Nat) (path : Text) :
    (addListing files (s.listing walkCam, idx)).get path
      = (((s.listing walkCam).bind (lastEntry path)).map fun e => ⟨idx, e.size, none⟩).or (files.get path) := by
  cases hlisting : s.listing walkCam with
  | none => rfl
  | some toc => exact get_addSource_eq files toc idx path

/-- The newest of some sources and one more: the one more if it lists the path. -/
theorem newest_append_singleton {sources : List Source} {s : Source} {path : Text} {i size : Nat} :
    Newest walkCam (sources ++ [s]) path i size
      ↔ (i = sources.length ∧ ∃ e, (s.listing walkCam).bind (lastEntry path) = some e ∧ e.size = size)
        ∨ ¬ s.Lists walkCam path ∧ Newest walkCam sources path i size := by
  constructor
  · rintro ⟨t, toc, e, ht, hlisting, he, hsize, hlater⟩
    have hi : i < sources.length + 1 := by
      have hlt := (List.getElem?_eq_some_iff.mp ht).1
      rwa [List.length_append, List.length_singleton] at hlt
    rcases Nat.lt_succ_iff_lt_or_eq.mp hi with hlt | rfl
    · rw [List.getElem?_append_left hlt] at ht
      refine .inr ⟨hlater sources.length s hlt List.getElem?_concat_length, t, toc, e, ht, hlisting, he, hsize, ?_⟩
      intro j t' hij ht'
      apply hlater j t' hij
      rw [List.getElem?_append_left (List.getElem?_eq_some_iff.mp ht').1]
      exact ht'
    · rw [List.getElem?_concat_length] at ht
      obtain rfl := Option.some.inj ht
      exact .inl ⟨rfl, e, by rw [hlisting, Option.bind_some, he], hsize⟩
  · rintro (⟨rfl, e, he, hsize⟩ | ⟨hnot, t, toc, e, ht, hlisting, he, hsize, hlater⟩)
    · obtain ⟨toc, hlisting, he⟩ := Option.bind_eq_some_iff.mp he
      refine ⟨s, toc, e, List.getElem?_concat_length, hlisting, he, hsize, fun j t hij ht => ?_⟩
      have hlt := (List.getElem?_eq_some_iff.mp ht).1
      rw [List.length_append, List.length_singleton] at hlt
      omega
    · refine ⟨t, toc, e, ?_, hlisting, he, hsize, fun j t' hij ht' => ?_⟩
      · rw [List.getElem?_append_left (List.getElem?_eq_some_iff.mp ht).1]
        exact ht
      · by_cases hj : j < sources.length
        · rw [List.getElem?_append_left hj] at ht'
          exact hlater j t' hij ht'
        · -- past the others stands the one more
          rw [List.getElem?_append_right (not_lt.mp hj), List.getElem?_singleton] at ht'
          rw [← Option.some.inj (Option.ite_none_right_eq_some.mp ht').2]
          exact hnot

/-- **All sources**: the entry of a path is that of the last source that lists it. -/
theorem get_foldl_addListing (sources : List Source) (path : Text) (m : FileMeta) :
    ((sources.map fun s => s.listing walkCam).zipIdx.foldl addListing SortedMap.empty).get path = some m
      ↔ m.real = none ∧ Newest walkCam sources path m.source m.size := by
  induction sources using List.reverseRecOn with
  | nil =>
    rw [List.map_nil, List.zipIdx_nil, List.foldl_nil, SortedMap.get_empty]
    apply iff_of_false (fun h => nomatch h)
    rintro ⟨-, s, toc, e, hs, -⟩
    exact nomatch hs
  | append_singleton sources s ih =>
    rw [List.map_append, List.zipIdx_append, List.foldl_append, List.map_singleton, List.zipIdx_singleton,
      List.foldl_cons, List.foldl_nil, get_addListing, List.length_map, Nat.zero_add, newest_append_singleton]
    cases hlast : (s.listing walkCam).bind (lastEntry path) with
    | none =>
      have hnot : ¬ s.Lists walkCam path := by
        rw [lists_iff]
        rintro ⟨toc, e, hlisting, he⟩
        rw [hlisting, Option.bind_some, he] at hlast
        exact nomatch hlast
      rw [Option.map_none, Option.none_or, ih]
      constructor
      · rintro ⟨hreal, h⟩
        exact ⟨hreal, .inr ⟨hnot, h⟩⟩
      · rintro ⟨hreal, ⟨-, e, he, -⟩ | ⟨-, h⟩⟩
        · exact nomatch he
        · exact ⟨hreal, h⟩
    | some e =>
      have hlists : s.Lists walkCam path := by
        obtain ⟨toc, hlisting, he⟩ := Option.bind_eq_some_iff.mp hlast
        exact lists_iff.mpr ⟨toc, e, hlisting, he⟩
      rw [Option.map_some, Option.some_or, Option.some.injEq]
      constructor
      · rintro rfl
        exact ⟨rfl, .inl ⟨rfl, e, rfl, rfl⟩⟩
      · obtain ⟨source, size, real⟩ := m
        rintro ⟨rfl, ⟨rfl, e', he', rfl⟩ | ⟨hnot, -⟩⟩
        · rw [Option.some.inj he']
        · exact absurd hlists hnot

/-- A path that some source lists has a newest source. -/
theorem exists_newest {sources : List Source} {path : Text} (h : ∃ s ∈ sources, s.Lists walkCam path) :
    ∃ i size, Newest walkCam sources path i size := by
  induction sources using List.reverseRecOn with
  | nil =>
    obtain ⟨s, hs, -⟩ := h
    exact nomatch hs
  | append_singleton sources s ih =>
    by_cases hlists : s.Lists walkCam path
    · obtain ⟨toc, e, hlisting, he⟩ := lists_iff.mp hlists
      exact ⟨sources.length, e.size, newest_append_singleton.mpr
        (.inl ⟨rfl, e, by rw [hlisting, Option.bind_some, he], rfl⟩)⟩
    · obtain ⟨t, ht, htlists⟩ := h
      rcases List.mem_append.mp ht with ht | ht
      · obtain ⟨i, size, hnewest⟩ := ih ⟨t, ht, htlists⟩
        exact ⟨i, size, newest_append_singleton.mpr (.inr ⟨hlists, hnewest⟩)⟩
      · rw [List.mem_singleton.mp ht] at htlists
        exact absurd htlists hlists

theorem Newest.lists {sources : List Source} {path : Text} {i size : Nat} (h : Newest walkCam sources path i size) :
    ∃ s, sources[i]? = some s ∧ s.Lists walkCam path := by
  obtain ⟨s, toc, e, hs, hlisting, he, -⟩ := h
  exact ⟨s, hs, lists_iff.mpr ⟨toc, e, hlisting, he⟩⟩

theorem get_buildMergedTree {sources : List Source} {files : MergedTree}
    (h : buildMergedTree (sources.map fun s => s.listing walkCam) = some files) (path : Text) (m : FileMeta) :
    files.get path = some m ↔ m.real = none ∧ Newest walkCam sources path m.source m.size := by
  have hfiles := (Option.ite_none_left_eq_some.mp h).2
  rw [← Option.some.inj hfiles]
  exact get_foldl_addListing sources path m

/-! ## Ages -/

theorem perm_sortSnapshotSources (sources : List Source) : (sortSnapshotSources sources).Perm sources :=
  List.perm_insertionSort _ _

theorem pairwise_sortSnapshotSources (sources : List Source) :
    (sortSnapshotSources sources).Pairwise fun s t => s.age ≤ t.age := by
  have htotal : Std.Total fun s t : Source => s.age ≤ t.age := ⟨fun s t => le_total s.age t.age⟩
  have htrans : IsTrans Source fun s t => s.age ≤ t.age := ⟨fun _ _ _ => le_trans⟩
  exact List.pairwise_insertionSort _ sources

/-- Nothing but an unknown age comes before one. -/
theorem mtime_of_age_le {s t : Source} (h : s.age ≤ t.age) (ht : t.mtime = none) : s.mtime = none := by
  have hmtime : @LE.le (WithBot Int) _ s.mtime t.mtime := by
    rcases Prod.Lex.toLex_le_toLex.mp h with hlt | ⟨heq, -⟩
    · exact le_of_lt hlt
    · exact le_of_eq heq
  rw [ht] at hmtime
  exact le_bot_iff.mp hmtime

/-- **A known age beats an unknown one**: where the newest source of a path is of unknown age, so are all that list it. -/
theorem mtime_of_newest {sources : List Source} (hsorted : sources.Pairwise fun s t => s.age ≤ t.age) {path : Text}
    {i size : Nat} (h : Newest walkCam sources path i size) {s t : Source} (hs : sources[i]? = some s)
    (hunknown : s.mtime = none) (ht : t ∈ sources) (hlists : t.Lists walkCam path) : t.mtime = none := by
  obtain ⟨-, -, -, -, -, -, -, hlater⟩ := h
  obtain ⟨j, hj⟩ := List.mem_iff_getElem?.mp ht
  have hji : j ≤ i := not_lt.mp fun hij => hlater j t hij hj hlists
  obtain ⟨hjlt, rfl⟩ := List.getElem?_eq_some_iff.mp hj
  obtain ⟨hilt, rfl⟩ := List.getElem?_eq_some_iff.mp hs
  rcases lt_or_eq_of_le hji with hlt | rfl
  · exact mtime_of_age_le (List.pairwise_iff_getElem.mp hsorted j i hjlt hilt hlt) hunknown
  · exact hunknown

/-! ## Directories -/

/-- An entry of a directory. -/
structure CamEntry where
  name : Text
  isDir : Bool
  size : Nat
  deriving DecidableEq

/-- What the paths below a directory begin with; the root is the empty text. -/
def dirPrefix (dir : Text) : Text := if dir = [] then [] else trimSlashes dir ++ ['/']

/-- The paths below a directory, from there on. -/
def below (files : MergedTree) (dir : Text) : List (Text × FileMeta) :=
  (prefixRange (dirPrefix dir) files).map fun e => (e.1.drop (dirPrefix dir).length, e.2)

/-- The entries of a directory: those with deeper paths in the order of their names, and then the files (`read_dir`). -/
def readDir (files : MergedTree) (dir : Text) : List CamEntry :=
  let dirs := sortedSet ((below files dir).filterMap fun e => (splitOnce '/' e.1).map Prod.fst)
  dirs.map (fun name => ⟨name, true, 0⟩)
    ++ (below files dir).filterMap fun e => if splitOnce '/' e.1 = none then some ⟨e.1, false, e.2.size⟩ else none

theorem mem_below {files : MergedTree} {dir rest : Text} {m : FileMeta} :
    (rest, m) ∈ below files dir ↔ files.get (dirPrefix dir ++ rest) = some m := by
  rw [below, List.mem_map]
  constructor
  · rintro ⟨⟨path, m'⟩, hmem, heq⟩
    obtain ⟨rfl, rfl⟩ := Prod.mk.inj heq
    obtain ⟨hentry, hpre⟩ := mem_prefixRange.mp hmem
    obtain ⟨rest, rfl⟩ := List.isPrefixOf_iff_prefix.mp hpre
    rw [List.drop_left]
    exact SortedMap.mem_entries.mp hentry
  · intro h
    refine ⟨(dirPrefix dir ++ rest, m), mem_prefixRange.mpr ⟨SortedMap.mem_entries.mpr h, ?_⟩, ?_⟩
    · exact List.isPrefixOf_iff_prefix.mpr (List.prefix_append _ _)
    · rw [List.drop_left]

/-- **The directories of a directory** are the names with deeper paths. -/
theorem mem_readDir_dir {files : MergedTree} {dir name : Text} {size : Nat} :
    (⟨name, true, size⟩ : CamEntry) ∈ readDir files dir
      ↔ size = 0 ∧ '/' ∉ name ∧ ∃ rest, (files.get (dirPrefix dir ++ (name ++ '/' :: rest))).isSome = true := by
  rw [readDir, List.mem_append, List.mem_map]
  simp only [mem_sortedSet, List.mem_filterMap, Option.map_eq_some_iff]
  constructor
  · rintro (⟨name', ⟨⟨t, m⟩, hbelow, ⟨a, b⟩, hsplit, rfl⟩, heq⟩ | ⟨⟨t, m⟩, -, hfile⟩)
    · obtain ⟨rfl, -, rfl⟩ := CamEntry.mk.inj heq
      obtain ⟨hnot, rfl⟩ := Snapshot.splitOnce_eq_some_iff.mp hsplit
      exact ⟨rfl, hnot, b, by rw [mem_below.mp hbelow]; rfl⟩
    · have hfalse := congrArg CamEntry.isDir (Option.some.inj (Option.ite_none_right_eq_some.mp hfile).2)
      exact absurd hfalse Bool.false_ne_true
  · rintro ⟨rfl, hnot, rest, hsome⟩
    obtain ⟨m, hm⟩ := Option.isSome_iff_exists.mp hsome
    exact .inl ⟨name, ⟨(name ++ '/' :: rest, m), mem_below.mpr hm, (name, rest),
      Snapshot.splitOnce_append hnot rest, rfl⟩, rfl⟩

/-- **The files of a directory** are the paths that end there. -/
theorem mem_readDir_file {files : MergedTree} {dir name : Text} {size : Nat} :
    (⟨name, false, size⟩ : CamEntry) ∈ readDir files dir
      ↔ '/' ∉ name ∧ ∃ m, files.get (dirPrefix dir ++ name) = some m ∧ m.size = size := by
  rw [readDir, List.mem_append, List.mem_map]
  simp only [List.mem_filterMap]
  constructor
  · rintro (⟨name', -, heq⟩ | ⟨⟨t, m⟩, hbelow, hfile⟩)
    · exact absurd (congrArg CamEntry.isDir heq).symm Bool.false_ne_true
    · obtain ⟨hnone, heq⟩ := Option.ite_none_right_eq_some.mp hfile
      obtain ⟨rfl, -, rfl⟩ := CamEntry.mk.inj (Option.some.inj heq)
      exact ⟨Snapshot.splitOnce_eq_none.mp hnone, m, mem_below.mp hbelow, rfl⟩
  · rintro ⟨hnot, m, hm, rfl⟩
    exact .inr ⟨(name, m), mem_below.mpr hm, if_pos (Snapshot.splitOnce_eq_none.mpr hnot)⟩

/-- Below a directory no path comes twice. -/
theorem pairwise_below (files : MergedTree) (dir : Text) : (below files dir).Pairwise fun a b => a.1 ≠ b.1 := by
  have hsorted : (prefixRange (dirPrefix dir) files).Pairwise fun a b => a.1 < b.1 :=
    (files.sorted.sublist (List.dropWhile_sublist _)).sublist (List.takeWhile_sublist _)
  refine List.pairwise_map.mpr (hsorted.imp_of_mem fun {a b} ha hb hlt heq => ?_)
  obtain ⟨left, hleft⟩ := List.isPrefixOf_iff_prefix.mp (mem_prefixRange.mp ha).2
  obtain ⟨right, hright⟩ := List.isPrefixOf_iff_prefix.mp (mem_prefixRange.mp hb).2
  rw [← hleft, ← hright, List.drop_left, List.drop_left] at heq
  obtain rfl : left = right := heq
  rw [← hleft, ← hright] at hlt
  exact absurd hlt (lt_irrefl _)

/-- **No name comes twice** among the directories, nor among the files. -/
theorem nodup_readDir (files : MergedTree) (dir : Text) :
    ((readDir files dir).map fun e => (e.name, e.isDir)).Nodup := by
  apply List.pairwise_map.mpr
  apply List.pairwise_append.mpr
  refine ⟨List.pairwise_map.mpr ?_, (pairwise_below files dir).filterMap _ ?_, ?_⟩
  · -- the names of the directories are in order
    exact (pairwise_sortedSet _).imp fun hlt heq => absurd (Prod.mk.inj heq).1 (ne_of_lt hlt)
  · intro a b hne e he e' he' heq
    rw [Option.ite_none_right_eq_some, Option.some.injEq] at he he'
    rw [← he.2, ← he'.2] at heq
    exact hne (Prod.mk.inj heq).1
  · intro d hd f hf heq
    obtain ⟨name, -, rfl⟩ := List.mem_map.mp hd
    obtain ⟨e, -, he⟩ := List.mem_filterMap.mp hf
    rw [← (Option.some.inj (Option.ite_none_right_eq_some.mp he).2)] at heq
    exact absurd (Prod.mk.inj heq).2.symm Bool.false_ne_true

/-! ## The merged tree and its directories -/

/-- **The newest source of each path, and what the directories list.** The snapshots are taken oldest first, those of unknown
age before the others. A path of the merged tree has the entry of the last of them that lists it, and one of unknown age only
where no other lists it. A directory lists each name with deeper paths once as a directory, and each path that ends there
once as a file. -/
theorem mergedTree_newest (walkCam : Source → Option (List TocEntry)) (sources : List Source) :
    ((sortSnapshotSources sources).Perm sources ∧ (sortSnapshotSources sources).Pairwise fun s t => s.age ≤ t.age)
      ∧ (∀ files, buildMergedTree ((sortSnapshotSources sources).map fun s => s.listing walkCam) = some files →
          (∀ path m, files.get path = some m
            ↔ m.real = none ∧ Newest walkCam (sortSnapshotSources sources) path m.source m.size)
          ∧ (∀ path, (files.get path).isSome = true ↔ ∃ s ∈ sources, s.Lists walkCam path)
          ∧ ∀ path m s, files.get path = some m → (sortSnapshotSources sources)[m.source]? = some s → s.mtime = none →
            ∀ t ∈ sources, t.Lists walkCam path → t.mtime = none)
      ∧ ∀ (files : MergedTree) (dir : Text),
          (∀ name size, (⟨name, true, size⟩ : CamEntry) ∈ readDir files dir
            ↔ size = 0 ∧ '/' ∉ name ∧ ∃ rest, (files.get (dirPrefix dir ++ (name ++ '/' :: rest))).isSome = true)
          ∧ (∀ name size, (⟨name, false, size⟩ : CamEntry) ∈ readDir files dir
            ↔ '/' ∉ name ∧ ∃ m, files.get (dirPrefix dir ++ name) = some m ∧ m.size = size)
          ∧ ((readDir files dir).map fun e => (e.name, e.isDir)).Nodup := by
  have hperm := perm_sortSnapshotSources sources
  have hsorted := pairwise_sortSnapshotSources sources
  refine ⟨⟨hperm, hsorted⟩, fun files hfiles => ⟨get_buildMergedTree hfiles, fun path => ⟨fun hsome => ?_, fun hlists => ?_⟩,
    fun path m s hm hs hunknown t ht hlists => ?_⟩,
    fun files dir => ⟨fun _ _ => mem_readDir_dir, fun _ _ => mem_readDir_file, nodup_readDir files dir⟩⟩
  · obtain ⟨m, hm⟩ := Option.isSome_iff_exists.mp hsome
    obtain ⟨s, hs, hlists⟩ := ((get_buildMergedTree hfiles path m).mp hm).2.lists
    exact ⟨s, hperm.mem_iff.mp (List.mem_of_getElem? hs), hlists⟩
  · obtain ⟨s, hs, hlists⟩ := hlists
    obtain ⟨i, size, hnewest⟩ := exists_newest ⟨s, hperm.mem_iff.mpr hs, hlists⟩
    rw [(get_buildMergedTree hfiles path ⟨i, size, none⟩).mpr ⟨rfl, hnewest⟩]
    rfl
  · exact mtime_of_newest hsorted ((get_buildMergedTree hfiles path m).mp hm).2 hs hunknown (hperm.mem_iff.mpr ht) hlists

/-- A snapshot with one file. -/
def oneFile (slot : Nat) (path : Text) : Source := ⟨slot, some 0, [], some [⟨7, path⟩]⟩

/-- The older snapshot has a file where the newer one has a directory: the name is listed as both. -/
theorem readDir_twice :
    ((buildMergedTree ((sortSnapshotSources [oneFile 1 ['a'], oneFile 2 ['a', '/', 'b']]).map fun s =>
        s.listing fun _ => none)).map fun files => (readDir files []).map CamEntry.name) = some [['a'], ['a']] := by
  decide +kernel

end SentryUsb.Disk
