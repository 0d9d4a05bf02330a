import SentryUsb.Grouper.Clip

/-! # Replacing the installed files

An update stages its files and then moves each over its destination, after a copy of what stood there; when a step fails,
what was replaced is moved back (`replace_files`, `api/src/auto_update_install.rs`). The copy is named after the source
with its extension changed, so it may fall on a path that is in use.

* **`backUp`**, **`replacePair`**, **`rollBack`**, **`replaceFiles`** — the replacement, with a step that may fail;
* **`Midway`** — what holds between two files; **`Restorable`** — what the roll-back needs; **`rollBack_spec`** — what it does;
* **`Apart`** — no copy falls on a path in use; **`allOrNothing_of_apart`** — then replacement is all or nothing. -/

namespace SentryUsb.Api.FileReplacement

/-! ## The file tree -/

/-- A file name in its directory. -/
structure Path where
  dir : Text
  name : Text
  deriving DecidableEq

/-- A regular file or a symbolic link. -/
inductive Node where
  | file (content : Text)
  | link (target : Text)
  deriving DecidableEq

abbrev Tree := Path → Option Node

/-- A name up to its last dot, unless it starts with that dot. -/
def fileStem (name : Text) : Text :=
  match name.reverse.dropWhile (· ≠ '.') with
  | _ :: c :: before => (c :: before).reverse
  | _ => name

def Path.withExtension (p : Path) (extension : Text) : Path :=
  if p.name = "..".toList then p else { p with name := fileStem p.name ++ '.' :: extension }

/-- Where the destination of a source is copied to. -/
def backupPath (source : Path) : Path := source.withExtension "previous".toList

/-- Move what stands at a path, over what stands at another. -/
def rename (t : Tree) (p q : Path) : Option Tree :=
  (t p).map fun node => Function.update (Function.update t p none) q (some node)

/-! ## The replacement -/

/-- A step that fails: making the copy, which may leave part of it; flushing it; moving the source; and flushing after
that. -/
inductive Fault where
  | backup (left : Option Text)
  | flushBackup
  | rename
  | flush
  deriving DecidableEq

section
variable (follow : Path → Text → Path)

/-- The file a write goes to: links are followed, up to a number of them. -/
def writtenAt (t : Tree) : Nat → Path → Option Path
  | 0, _ => none
  | hops + 1, p =>
    match t p with
    | some (.link target) => writtenAt t hops (follow p target)
    | _ => some p

/-- Copy a link as a link, where nothing may stand. -/
def copyLink (fault : Option Fault) (t : Tree) (path : Path) (target : Text) : Tree × Bool :=
  match t path with
  | some _ => (t, false)
  | none =>
    match fault with
    | some (.backup _) => (t, false)
    | _ => (Function.update t path (some (.link target)), true)

/-- Copy a file by its content, which is lost when it is copied onto itself. -/
def copyFile (fault : Option Fault) (t : Tree) (dest path : Path) (content : Text) : Tree × Bool :=
  match writtenAt follow t 40 path with
  | none => (t, false)
  | some p =>
    match fault with
    | some (.backup none) => (t, false)
    | some (.backup (some left)) => (Function.update t p (some (.file left)), false)
    | _ => (Function.update t p (some (.file (if p = dest then [] else content))), true)

/-- Copy what stands at the destination. -/
def makeBackup (fault : Option Fault) (t : Tree) (dest path : Path) : Node → Tree × Bool
  | .link target => copyLink fault t path target
  | .file content => copyFile follow fault t dest path content

/-- Save what stands at the destination, if anything does: the tree, and the copy unless that fails. -/
def backUp (fault : Option Fault) (t : Tree) (source dest : Path) : Tree × Option (Option Path) :=
  match t dest with
  | none => (t, some none)
  | some node =>
    match makeBackup follow fault t dest (backupPath source) node with
    | (t, true) => (t, if fault = some .flushBackup then none else some (some (backupPath source)))
    | (t, false) => (t, none)

/-- A replaced destination, and the copy of what stood there. -/
abbrev Replaced := Path × Option Path

/-- What becomes of one file: it fails before it is replaced, or after, or it is done. -/
inductive Turn where
  | fails (t : Tree)
  | stops (t : Tree) (entry : Replaced)
  | goesOn (t : Tree) (entry : Replaced)

/-- Move the source over its destination. -/
def install (fault : Option Fault) (t : Tree) (source dest : Path) (backup : Option Path) : Turn :=
  match rename t source dest with
  | none => .fails t
  | some moved =>
    if fault = some .rename then .fails t
    else if fault = some .flush then .stops moved (dest, backup) else .goesOn moved (dest, backup)

/-- **Replace one file.** -/
def replacePair (fault : Option Fault) (t : Tree) (source dest : Path) : Turn :=
  match backUp follow fault t source dest with
  | (t, none) => .fails t
  | (t, some backup) => install fault t source dest backup

/-- Replace the files one after another: the tree, what was replaced, the last one first, and whether all were. -/
def replaceFrom (faults : Nat → Option Fault) : List (Path × Path) → List Replaced → Tree → Tree × List Replaced × Bool
  | [], replaced, t => (t, replaced, true)
  | f :: files, replaced, t =>
    match replacePair follow (faults 0) t f.1 f.2 with
    | .fails t => (t, replaced, false)
    | .stops t entry => (t, entry :: replaced, false)
    | .goesOn t entry => replaceFrom (fun n => faults (n + 1)) files (entry :: replaced) t

end

/-- Move a copy back, or remove what was installed where nothing stood. -/
def undo (t : Tree) : Replaced → Option Tree
  | (dest, some backup) => rename t backup dest
  | (dest, none) => (t dest).map fun _ => Function.update t dest none

/-- Move everything back, the last one first; and whether that succeeds. -/
def rollBack : List Replaced → Tree → Tree × Bool
  | [], t => (t, true)
  | entry :: replaced, t =>
    match undo t entry with
    | some t => rollBack replaced t
    | none => ((rollBack replaced t).1, false)

/-- The tree after a call, whether the call succeeds, and whether the roll-back does. -/
structure Outcome where
  tree : Tree
  ok : Bool
  undone : Bool

/-- **Replace the files**, or move everything back. -/
def replaceFiles (follow : Path → Text → Path) (faults : Nat → Option Fault) (files : List (Path × Path)) (t : Tree) :
    Outcome :=
  match replaceFrom follow faults files [] t with
  | (t, _, true) => ⟨t, true, true⟩
  | (t, replaced, false) => ⟨(rollBack replaced t).1, false, (rollBack replaced t).2⟩

/-- **All or nothing**: whichever steps fail, either every destination holds what its source held, or, if the roll-back
succeeds, what it held before. -/
def AllOrNothing (follow : Path → Text → Path) (files : List (Path × Path)) (t : Tree) : Prop :=
  ∀ faults,
    ((replaceFiles follow faults files t).ok = true →
        ∀ f ∈ files, ∃ node, t f.1 = some node ∧ (replaceFiles follow faults files t).tree f.2 = some node)
      ∧ ((replaceFiles follow faults files t).ok = false → (replaceFiles follow faults files t).undone = true →
        ∀ f ∈ files, (replaceFiles follow faults files t).tree f.2 = t f.2)

/-- What the caller gives: no path twice. -/
structure Separate (files : List (Path × Path)) : Prop where
  sources : (files.map Prod.fst).Nodup
  dests : (files.map Prod.snd).Nodup
  source_ne_dest : ∀ f ∈ files, ∀ g ∈ files, f.1 ≠ g.2

/-- **No copy falls on a path in use**: on a destination, on its own source or one that is still to be moved, or on
another copy. -/
structure Apart (files : List (Path × Path)) : Prop where
  dests : ∀ f ∈ files, ∀ g ∈ files, backupPath f.1 ≠ g.2
  own : ∀ f ∈ files, backupPath f.1 ≠ f.1
  later : files.Pairwise fun f g => backupPath f.1 ≠ g.1 ∧ backupPath f.1 ≠ backupPath g.1

/-- No copy of a file goes to where a link stands, unless that is an earlier source, which was moved away. -/
def Clear (files : List (Path × Path)) (t : Tree) : Prop :=
  ∀ before f after, files = before ++ f :: after → ∀ content, t f.2 = some (.file content) →
    backupPath f.1 ∉ before.map Prod.fst → ∀ target, t (backupPath f.1) ≠ some (.link target)

/-! ## Rolling back -/

/-- What was replaced can be moved back: each copy is where it was made, and holds what stood at its destination. -/
structure Restorable (t : Tree) (replaced : List Replaced) (u : Tree) : Prop where
  distinct : (replaced.map Prod.fst).Nodup
  apart : ∀ e ∈ replaced, ∀ b ∈ e.2, ∀ e' ∈ replaced, b ≠ e'.1
  copies : replaced.Pairwise fun e e' => ∀ b ∈ e.2, b ∉ e'.2
  saved : ∀ e ∈ replaced, ∀ b ∈ e.2, (t e.1).isSome = true ∧ u b = t e.1
  fresh : ∀ e ∈ replaced, e.2 = none → t e.1 = none ∧ (u e.1).isSome = true

section
variable {t u v : Tree} {p q : Path} {e : Replaced} {replaced : List Replaced}

theorem rename_eq_some : rename t p q = some v ↔
    ∃ node, t p = some node ∧ v = Function.update (Function.update t p none) q (some node) := by
  rw [rename, Option.map_eq_some_iff]
  exact exists_congr fun node => and_congr_right fun _ => eq_comm

theorem rename_target (h : rename t p q = some v) : v q = t p := by
  obtain ⟨node, hnode, rfl⟩ := rename_eq_some.mp h
  rw [Function.update_self, hnode]

theorem rename_source (h : rename t p q = some v) (hpq : p ≠ q) : v p = none := by
  obtain ⟨node, -, rfl⟩ := rename_eq_some.mp h
  rw [Function.update_of_ne hpq, Function.update_self]

theorem rename_other (h : rename t p q = some v) {r : Path} (hp : r ≠ p) (hq : r ≠ q) : v r = t r := by
  obtain ⟨node, -, rfl⟩ := rename_eq_some.mp h
  rw [Function.update_of_ne hq, Function.update_of_ne hp]

/-- One destination is moved back. -/
theorem undo_spec (hsaved : ∀ b ∈ e.2, (t e.1).isSome = true ∧ u b = t e.1)
    (hfresh : e.2 = none → t e.1 = none ∧ (u e.1).isSome = true) :
    ∃ v, undo u e = some v ∧ v e.1 = t e.1 ∧ ∀ p, p ≠ e.1 → p ∉ e.2 → v p = u p := by
  obtain ⟨dest, backup⟩ := e
  cases backup with
  | none =>
    obtain ⟨hnone, hsome⟩ := hfresh rfl
    obtain ⟨node, hnode⟩ := Option.isSome_iff_exists.mp hsome
    refine ⟨Function.update u dest none, ?_, ?_, fun p hp _ => Function.update_of_ne hp _ _⟩
    · rw [undo, hnode]
      rfl
    · rw [Function.update_self]
      exact hnone.symm
  | some b =>
    obtain ⟨hsome, hb⟩ := hsaved b rfl
    obtain ⟨node, hnode⟩ := Option.isSome_iff_exists.mp hsome
    have hmove : undo u (dest, some b) = some (Function.update (Function.update u b none) dest (some node)) :=
      rename_eq_some.mpr ⟨node, hb.trans hnode, rfl⟩
    refine ⟨_, hmove, (rename_target hmove).trans hb, fun p hp hpb => rename_other hmove ?_ hp⟩
    rintro rfl
    exact hpb rfl

/-- **Rolling back** restores every destination that was replaced, and touches nothing but these and their copies. -/
theorem rollBack_spec (h : Restorable t replaced u) :
    (rollBack replaced u).2 = true ∧ (∀ e ∈ replaced, (rollBack replaced u).1 e.1 = t e.1)
      ∧ ∀ p, (∀ e ∈ replaced, p ≠ e.1 ∧ p ∉ e.2) → (rollBack replaced u).1 p = u p := by
  induction replaced generalizing u with
  | nil => exact ⟨rfl, fun e he => (nomatch he), fun p _ => rfl⟩
  | cons e replaced ih =>
    obtain ⟨v, hv, hrestored, hsame⟩ :=
      undo_spec (h.saved e List.mem_cons_self) (h.fresh e List.mem_cons_self)
    obtain ⟨hnew, hdistinct⟩ := List.nodup_cons.mp h.distinct
    obtain ⟨hcopies, hrest⟩ := List.pairwise_cons.mp h.copies
    have hne : ∀ e' ∈ replaced, e'.1 ≠ e.1 := fun e' he' heq => hnew (heq ▸ List.mem_map_of_mem he')
    have hin : ∀ e' ∈ replaced, e' ∈ e :: replaced := fun e' he' => List.mem_cons_of_mem e he'
    have hmid : Restorable t replaced v := by
      refine ⟨hdistinct, fun e' he' b hb e'' he'' => h.apart e' (hin e' he') b hb e'' (hin e'' he''), hrest,
        fun e' he' b hb => ?_, fun e' he' hnone => ?_⟩
      · obtain ⟨hsome, hb'⟩ := h.saved e' (hin e' he') b hb
        refine ⟨hsome, (hsame b ?_ ?_).trans hb'⟩
        · exact h.apart e' (hin e' he') b hb e List.mem_cons_self
        · exact fun hbe => hcopies e' he' b hbe hb
      · obtain ⟨hnone', hsome⟩ := h.fresh e' (hin e' he') hnone
        refine ⟨hnone', ?_⟩
        rw [hsame e'.1 (hne e' he') fun hb => h.apart e List.mem_cons_self e'.1 hb e' (hin e' he') rfl]
        exact hsome
    obtain ⟨hok, hall, hother⟩ := ih hmid
    have hroll : rollBack (e :: replaced) u = rollBack replaced v := by rw [rollBack, hv]
    rw [hroll]
    refine ⟨hok, fun e' he' => ?_, fun p hp => ?_⟩
    · rcases List.mem_cons.mp he' with rfl | he'
      · rw [hother e'.1 fun e'' he'' => ⟨(hne e'' he'').symm, fun hb => ?_⟩]
        · exact hrestored
        · exact h.apart e'' (hin e'' he'') e'.1 hb e' List.mem_cons_self rfl
      · exact hall e' he'
    · obtain ⟨hpe, hpb⟩ := hp e List.mem_cons_self
      rw [hother p fun e' he' => hp e' (hin e' he')]
      exact hsame p hpe hpb

end

/-! ## One file -/

section
variable {follow : Path → Text → Path} {fault : Option Fault} {t u : Tree} {source dest : Path}

theorem writtenAt_of_not_link {p : Path} (h : ∀ target, u p ≠ some (.link target)) : writtenAt follow u 40 p = some p := by
  rw [writtenAt]
  split
  · rename_i target htarget
    exact absurd htarget (h target)
  · rfl

theorem copyLink_spec (fault : Option Fault) (u : Tree) (path : Path) (target : Text) :
    (∀ p, p ≠ path → (copyLink fault u path target).1 p = u p) ∧
      ((copyLink fault u path target).2 = true → (copyLink fault u path target).1 path = some (.link target)) := by
  unfold copyLink
  split
  · exact ⟨fun _ _ => rfl, fun h => (nomatch h)⟩
  · split
    · exact ⟨fun _ _ => rfl, fun h => (nomatch h)⟩
    · exact ⟨fun p hp => Function.update_of_ne hp _ _, fun _ => Function.update_self _ _ _⟩

theorem copyFile_spec {path : Path} {content : Text} (hfree : ∀ target, u path ≠ some (.link target)) (hne : path ≠ dest) :
    (∀ p, p ≠ path → (copyFile follow fault u dest path content).1 p = u p) ∧
      ((copyFile follow fault u dest path content).2 = true →
        (copyFile follow fault u dest path content).1 path = some (.file content)) := by
  rw [copyFile, writtenAt_of_not_link hfree]
  dsimp only
  rw [if_neg hne]
  split
  · exact ⟨fun _ _ => rfl, fun h => (nomatch h)⟩
  · exact ⟨fun p hp => Function.update_of_ne hp _ _, fun h => (nomatch h)⟩
  · exact ⟨fun p hp => Function.update_of_ne hp _ _, fun _ => Function.update_self _ _ _⟩

/-- **Saving** what stands at a destination changes no path but that of the copy. -/
theorem backUp_spec (follow : Path → Text → Path) (fault : Option Fault) (hfree : ∀ content, u dest = some (.file content) →
      ∀ target, u (backupPath source) ≠ some (.link target)) (hne : backupPath source ≠ dest) :
    (∀ p, p ≠ backupPath source → (backUp follow fault u source dest).1 p = u p)
      ∧ (u dest = none → (backUp follow fault u source dest).1 = u)
      ∧ ∀ backup, (backUp follow fault u source dest).2 = some backup →
          backup = (if (u dest).isSome then some (backupPath source) else none)
            ∧ ((u dest).isSome = true → (backUp follow fault u source dest).1 (backupPath source) = u dest) := by
  rw [backUp]
  cases hdest : u dest with
  | none =>
    exact ⟨fun p _ => rfl, fun _ => rfl, fun backup hbackup => ⟨(Option.some.inj hbackup).symm, fun h => (nomatch h)⟩⟩
  | some node =>
    have hmake : (∀ p, p ≠ backupPath source → (makeBackup follow fault u dest (backupPath source) node).1 p = u p)
        ∧ ((makeBackup follow fault u dest (backupPath source) node).2 = true →
            (makeBackup follow fault u dest (backupPath source) node).1 (backupPath source) = some node) := by
      cases node with
      | link target => exact copyLink_spec fault u (backupPath source) target
      | file content => exact copyFile_spec (hfree content hdest) hne
    obtain ⟨hsame, hmade⟩ := hmake
    dsimp only
    cases hresult : makeBackup follow fault u dest (backupPath source) node with
    | mk v ok =>
      rw [hresult] at hsame hmade
      cases ok with
      | false => exact ⟨hsame, fun h => (nomatch h), fun backup h => (nomatch h)⟩
      | true =>
        refine ⟨hsame, fun h => (nomatch h), fun backup hbackup => ?_⟩
        dsimp only at hbackup
        split at hbackup
        · exact nomatch hbackup
        · exact ⟨(Option.some.inj hbackup).symm, fun _ => hmade rfl⟩

/-- What is recorded of a file that is replaced. -/
def entryOf (t : Tree) (f : Path × Path) : Replaced := (f.2, if (t f.2).isSome then some (backupPath f.1) else none)

theorem mem_entryOf {f : Path × Path} {b : Path} : b ∈ (entryOf t f).2 ↔ b = backupPath f.1 ∧ (t f.2).isSome = true := by
  rw [entryOf, Option.mem_def, Option.ite_none_right_eq_some, Option.some.injEq, and_comm, eq_comm]

/-- Moving a source fails, or the source is moved. -/
theorem install_cases (fault : Option Fault) (u : Tree) (source dest : Path) (backup : Option Path) :
    install fault u source dest backup = .fails u ∨
      ∃ moved, rename u source dest = some moved ∧ (install fault u source dest backup = .stops moved (dest, backup) ∨
        install fault u source dest backup = .goesOn moved (dest, backup)) := by
  rw [install]
  cases rename u source dest with
  | none => exact Or.inl rfl
  | some moved =>
    dsimp only
    split
    · exact Or.inl rfl
    · split
      · exact Or.inr ⟨moved, rfl, Or.inl rfl⟩
      · exact Or.inr ⟨moved, rfl, Or.inr rfl⟩

/-- A source is at its destination, and the copy holds what stood there. -/
structure Moved (u : Tree) (f : Path × Path) (v : Tree) : Prop where
  source : (u f.1).isSome = true
  installed : v f.2 = u f.1
  gone : v f.1 = none
  saved : (u f.2).isSome = true → v (backupPath f.1) = u f.2
  rest : ∀ p, p ≠ f.1 → p ≠ f.2 → ((u f.2).isSome = true → p ≠ backupPath f.1) → v p = u p

/-- **Replacing one file**: what fails before the source is moved changes no path but that of the copy. -/
theorem replacePair_spec (follow : Path → Text → Path) (fault : Option Fault) {f : Path × Path}
    (hfree : ∀ content, u f.2 = some (.file content) → ∀ target, u (backupPath f.1) ≠ some (.link target)) (hdest : backupPath f.1 ≠ f.2)
    (hsource : backupPath f.1 ≠ f.1) (hf : f.1 ≠ f.2) :
    (∀ v, replacePair follow fault u f.1 f.2 = .fails v →
        ∀ p, ((u f.2).isSome = true → p ≠ backupPath f.1) → v p = u p)
      ∧ ∀ v entry,
          replacePair follow fault u f.1 f.2 = .stops v entry ∨ replacePair follow fault u f.1 f.2 = .goesOn v entry →
          entry = entryOf u f ∧ Moved u f v := by
  obtain ⟨hsame, hnone, hsaved⟩ := backUp_spec follow fault hfree hdest
  have hsave : ∀ p, ((u f.2).isSome = true → p ≠ backupPath f.1) →
      (backUp follow fault u f.1 f.2).1 p = u p := by
    intro p hp
    cases hd : u f.2 with
    | none => rw [hnone hd]
    | some node => exact hsame p (hp (by rw [hd]; rfl))
  unfold replacePair
  cases hback : backUp follow fault u f.1 f.2 with
  | mk w result =>
    rw [hback] at hsave hsaved
    cases result with
    | none =>
      refine ⟨fun v hv => ?_, fun v entry hv => ?_⟩
      · rw [← Turn.fails.inj hv]
        exact hsave
      · exact hv.elim (fun hv => (nomatch hv)) fun hv => nomatch hv
    | some backup =>
      obtain ⟨hbackup, hcopy⟩ := hsaved backup rfl
      have hentry : (f.2, backup) = entryOf u f := congrArg (Prod.mk f.2) hbackup
      show (∀ v, install fault w f.1 f.2 backup = .fails v → _) ∧
        ∀ v entry, install fault w f.1 f.2 backup = .stops v entry ∨ install fault w f.1 f.2 backup = .goesOn v entry → _
      rcases install_cases fault w f.1 f.2 backup with hfails | ⟨moved, hmove, hmoves⟩
      · rw [hfails]
        refine ⟨fun v hv => ?_, fun v entry hv => ?_⟩
        · rw [← Turn.fails.inj hv]
          exact hsave
        · exact hv.elim (fun hv => (nomatch hv)) fun hv => nomatch hv
      · have hwsource : w f.1 = u f.1 := hsave f.1 fun _ => hsource.symm
        have hmoved : Moved u f moved := by
          refine ⟨?_, (rename_target hmove).trans hwsource, rename_source hmove hf, fun hsome => ?_,
            fun p hp hq hb => (rename_other hmove hp hq).trans (hsave p hb)⟩
          · obtain ⟨node, hnode, -⟩ := rename_eq_some.mp hmove
            rw [← hwsource, hnode]
            rfl
          · exact (rename_other hmove hsource hdest).trans (hcopy hsome)
        rcases hmoves with hturn | hturn
        · rw [hturn]
          refine ⟨fun v hv => (nomatch hv), fun v entry hv => ?_⟩
          rcases hv with hv | hv
          · obtain ⟨rfl, rfl⟩ := Turn.stops.inj hv
            exact ⟨hentry, hmoved⟩
          · exact nomatch hv
        · rw [hturn]
          refine ⟨fun v hv => (nomatch hv), fun v entry hv => ?_⟩
          rcases hv with hv | hv
          · exact nomatch hv
          · obtain ⟨rfl, rfl⟩ := Turn.goesOn.inj hv
            exact ⟨hentry, hmoved⟩

end

/-! ## All or nothing -/

/-- Between two files: `done` are those replaced, the last one first. -/
structure Midway (t : Tree) (done : List (Path × Path)) (u : Tree) : Prop where
  source : ∀ f ∈ done, (t f.1).isSome = true
  installed : ∀ f ∈ done, u f.2 = t f.1
  saved : ∀ f ∈ done, (t f.2).isSome = true → u (backupPath f.1) = t f.2
  moved : ∀ f ∈ done, (∀ g ∈ done, backupPath g.1 ≠ f.1) → u f.1 = none
  rest : ∀ p, (∀ f ∈ done, p ≠ f.1 ∧ p ≠ f.2 ∧ p ≠ backupPath f.1) → u p = t p

section
variable {follow : Path → Text → Path} {t u v : Tree} {files before after done : List (Path × Path)} {f : Path × Path}

theorem midway_nil : Midway t [] t where
  source := fun _ h => nomatch h
  installed := fun _ h => nomatch h
  saved := fun _ h => nomatch h
  moved := fun _ h => nomatch h
  rest := fun _ _ => rfl

theorem Midway.dest (h : Midway t done u) (hsep : Separate files) (hapart : Apart files) (hdone : ∀ g ∈ done, g ∈ files)
    (hf : f ∈ files) (hnew : ∀ g ∈ done, f.2 ≠ g.2) : u f.2 = t f.2 :=
  h.rest f.2 fun g hg => ⟨(hsep.source_ne_dest g (hdone g hg) f hf).symm, hnew g hg, (hapart.dests g (hdone g hg) f hf).symm⟩

/-- One more file is replaced. -/
theorem Midway.cons (h : Midway t done u) (hmoved : Moved u f v) (hdest : u f.2 = t f.2) (hsource : u f.1 = t f.1)
    (hapart : Apart files) (hsep : Separate files) (hdone : ∀ g ∈ done, g ∈ files) (hf : f ∈ files)
    (hnew : ∀ g ∈ done, g.1 ≠ f.1 ∧ g.2 ≠ f.2 ∧ backupPath g.1 ≠ f.1 ∧ backupPath g.1 ≠ backupPath f.1) :
    Midway t (f :: done) v where
  source := List.forall_mem_cons.mpr ⟨hsource ▸ hmoved.source, h.source⟩
  installed := by
    refine List.forall_mem_cons.mpr ⟨hmoved.installed.trans hsource, fun g hg => ?_⟩
    rw [hmoved.rest g.2 (hsep.source_ne_dest f hf g (hdone g hg)).symm (hnew g hg).2.1
      fun _ => (hapart.dests f hf g (hdone g hg)).symm]
    exact h.installed g hg
  saved := by
    refine List.forall_mem_cons.mpr ⟨fun hsome => (hmoved.saved (hdest ▸ hsome)).trans hdest, fun g hg hsome => ?_⟩
    rw [hmoved.rest _ (hnew g hg).2.2.1 (hapart.dests g (hdone g hg) f hf) fun _ => (hnew g hg).2.2.2]
    exact h.saved g hg hsome
  moved := by
    refine List.forall_mem_cons.mpr ⟨fun _ => hmoved.gone, fun g hg hfree => ?_⟩
    rw [hmoved.rest g.1 (hnew g hg).1 (hsep.source_ne_dest g (hdone g hg) f hf)
      fun _ => (hfree f List.mem_cons_self).symm]
    exact h.moved g hg fun g' hg' => hfree g' (List.mem_cons_of_mem f hg')
  rest := by
    intro p hp
    obtain ⟨hp1, hp2, hpb⟩ := hp f List.mem_cons_self
    rw [hmoved.rest p hp1 hp2 fun _ => hpb]
    exact h.rest p fun g hg => hp g (List.mem_cons_of_mem f hg)

/-- What was recorded of replaced files can be moved back to a tree that agrees with their copies. -/
theorem restorable_entries {t' : Tree} (hdests : (done.map Prod.snd).Nodup)
    (hapart : ∀ g ∈ done, (t g.2).isSome = true → ∀ g' ∈ done, backupPath g.1 ≠ g'.2)
    (hcopies : done.Pairwise fun g g' => (t g.2).isSome = true → (t g'.2).isSome = true → backupPath g.1 ≠ backupPath g'.1)
    (hsaved : ∀ g ∈ done, (t g.2).isSome = true → (t' g.2).isSome = true ∧ v (backupPath g.1) = t' g.2)
    (hfresh : ∀ g ∈ done, t g.2 = none → t' g.2 = none ∧ (v g.2).isSome = true) :
    Restorable t' (done.map (entryOf t)) v := by
  refine ⟨?_, fun e he b hb e' he' => ?_, ?_, fun e he b hb => ?_, fun e he hnone => ?_⟩
  · rw [List.map_map]
    exact hdests
  · obtain ⟨g, hg, rfl⟩ := List.mem_map.mp he
    obtain ⟨g', hg', rfl⟩ := List.mem_map.mp he'
    obtain ⟨rfl, hsome⟩ := mem_entryOf.mp hb
    exact hapart g hg hsome g' hg'
  · rw [List.pairwise_map]
    refine hcopies.imp fun hne b hb hb' => ?_
    obtain ⟨rfl, hsome⟩ := mem_entryOf.mp hb
    obtain ⟨heq, hsome'⟩ := mem_entryOf.mp hb'
    exact hne hsome hsome' heq
  · obtain ⟨g, hg, rfl⟩ := List.mem_map.mp he
    obtain ⟨rfl, hsome⟩ := mem_entryOf.mp hb
    exact hsaved g hg hsome
  · obtain ⟨g, hg, rfl⟩ := List.mem_map.mp he
    refine hfresh g hg ?_
    by_contra hsome
    have hback := mem_entryOf.mpr ⟨rfl, Option.isSome_iff_ne_none.mpr hsome⟩
    rw [hnone] at hback
    exact nomatch hback

/-- **Between two files everything can be moved back**, even after a copy that fails. -/
theorem Midway.restores (h : Midway t done u) (hsep : Separate files) (hapart : Apart files)
    (hdone : files = done.reverse ++ after) (hdests : ∀ g ∈ files, v g.2 = u g.2)
    (hcopies : ∀ g ∈ done, v (backupPath g.1) = u (backupPath g.1)) :
    ∀ g ∈ files, (rollBack (done.map (entryOf t)) v).1 g.2 = t g.2 := by
  have hin : ∀ g ∈ done, g ∈ files := fun g hg => hdone ▸ List.mem_append_left _ (List.mem_reverse.mpr hg)
  have hrestorable : Restorable t (done.map (entryOf t)) v := by
    refine restorable_entries ?_ (fun g hg _ g' hg' => hapart.dests g (hin g hg) g' (hin g' hg')) ?_
      (fun g hg hsome => ⟨hsome, (hcopies g hg).trans (h.saved g hg hsome)⟩) fun g hg hnone => ⟨hnone, ?_⟩
    · have hdests := hsep.dests
      rw [hdone, List.map_append, List.map_reverse] at hdests
      exact List.nodup_reverse.mp hdests.of_append_left
    · have hlater := hapart.later
      rw [hdone, List.pairwise_append, List.pairwise_reverse] at hlater
      exact hlater.1.imp fun hne _ _ => hne.2.symm
    · rw [hdests g (hin g hg), h.installed g hg]
      exact h.source g hg
  obtain ⟨-, hrestored, hother⟩ := rollBack_spec hrestorable
  intro g hg
  by_cases hmem : ∃ g' ∈ done, g'.2 = g.2
  · obtain ⟨g', hg', heq⟩ := hmem
    rw [← heq]
    exact hrestored (entryOf t g') (List.mem_map_of_mem hg')
  · rw [hother g.2, hdests g hg]
    · exact h.dest hsep hapart hin hg fun g' hg' heq => hmem ⟨g', hg', heq.symm⟩
    · intro e he
      obtain ⟨g', hg', rfl⟩ := List.mem_map.mp he
      refine ⟨fun heq => hmem ⟨g', hg', heq.symm⟩, fun hb => ?_⟩
      exact hapart.dests g' (hin g' hg') g hg (mem_entryOf.mp hb).1.symm

/-- **Replacing the rest**: all are replaced, or rolling back restores every destination. -/
theorem replaceFrom_spec (follow : Path → Text → Path) (hsep : Separate files) (hapart : Apart files) (hclear : Clear files t)
    (faults : Nat → Option Fault) (hfiles : files = done.reverse ++ after) (h : Midway t done u) :
    ((replaceFrom follow faults after (done.map (entryOf t)) u).2.2 = true →
        ∀ f ∈ files, (t f.1).isSome = true ∧ (replaceFrom follow faults after (done.map (entryOf t)) u).1 f.2 = t f.1)
      ∧ ((replaceFrom follow faults after (done.map (entryOf t)) u).2.2 = false → ∀ f ∈ files,
        (rollBack (replaceFrom follow faults after (done.map (entryOf t)) u).2.1
          (replaceFrom follow faults after (done.map (entryOf t)) u).1).1 f.2 = t f.2) := by
  induction after generalizing done u faults with
  | nil =>
    rw [replaceFrom]
    refine ⟨fun _ f hf => ?_, fun hok => (nomatch hok)⟩
    rw [hfiles, List.append_nil, List.mem_reverse] at hf
    exact ⟨h.source f hf, h.installed f hf⟩
  | cons f after ih =>
    have hf : f ∈ files := hfiles ▸ List.mem_append_right _ List.mem_cons_self
    have hin : ∀ g ∈ done, g ∈ files := fun g hg => hfiles ▸ List.mem_append_left _ (List.mem_reverse.mpr hg)
    have hnew : ∀ g ∈ done, g.1 ≠ f.1 ∧ g.2 ≠ f.2 ∧ backupPath g.1 ≠ f.1 ∧ backupPath g.1 ≠ backupPath f.1 := by
      intro g hg
      have hsources := hsep.sources
      have hdests := hsep.dests
      have hlater := hapart.later
      rw [hfiles, List.map_append, List.nodup_append] at hsources hdests
      rw [hfiles, List.pairwise_append] at hlater
      have hg' := List.mem_reverse.mpr hg
      exact ⟨hsources.2.2 g.1 (List.mem_map_of_mem hg') f.1 List.mem_cons_self,
        hdests.2.2 g.2 (List.mem_map_of_mem hg') f.2 List.mem_cons_self, hlater.2.2 g hg' f List.mem_cons_self⟩
    have hdest : u f.2 = t f.2 := h.dest hsep hapart hin hf fun g hg => (hnew g hg).2.1.symm
    have hsource : u f.1 = t f.1 := h.rest f.1 fun g hg =>
      ⟨(hnew g hg).1.symm, hsep.source_ne_dest f hf g (hin g hg), (hnew g hg).2.2.1.symm⟩
    have hfree : ∀ content, u f.2 = some (.file content) → ∀ target, u (backupPath f.1) ≠ some (.link target) := by
      intro content hcontent target hlink
      by_cases hmoved : ∃ g ∈ done, g.1 = backupPath f.1
      · -- an earlier source stood there, and it was moved away
        obtain ⟨g, hg, heq⟩ := hmoved
        have hgone := h.moved g hg fun g' hg' => heq ▸ (hnew g' hg').2.2.2
        rw [heq, hlink] at hgone
        exact nomatch hgone
      · have hsame : u (backupPath f.1) = t (backupPath f.1) := h.rest _ fun g hg =>
          ⟨fun heq => hmoved ⟨g, hg, heq.symm⟩, hapart.dests f hf g (hin g hg), (hnew g hg).2.2.2.symm⟩
        refine hclear done.reverse f after hfiles content (hdest ▸ hcontent) ?_ target (hsame ▸ hlink)
        intro hmem
        obtain ⟨g, hg, heq⟩ := List.mem_map.mp hmem
        exact hmoved ⟨g, List.mem_reverse.mp hg, heq⟩
    obtain ⟨hfails, hmoves⟩ := replacePair_spec follow (faults 0) hfree (hapart.dests f hf f hf)
      (hapart.own f hf) (hsep.source_ne_dest f hf f hf)
    have hentry : entryOf u f = entryOf t f := by rw [entryOf, hdest, entryOf]
    have hfiles' : files = (f :: done).reverse ++ after := by
      rw [hfiles, List.reverse_cons, List.append_assoc, List.singleton_append]
    rw [replaceFrom]
    split
    · rename_i v hturn
      have hsame := hfails v hturn
      refine ⟨fun hok => (nomatch hok), fun _ => h.restores hsep hapart hfiles (fun g hg => ?_) fun g hg => ?_⟩
      · exact hsame g.2 fun _ => (hapart.dests f hf g hg).symm
      · exact hsame _ fun _ => (hnew g hg).2.2.2
    · rename_i v entry hturn
      obtain ⟨rfl, hmoved⟩ := hmoves v entry (Or.inl hturn)
      have hmid := h.cons hmoved hdest hsource hapart hsep hin hf hnew
      rw [hentry, ← List.map_cons]
      exact ⟨fun hok => (nomatch hok), fun _ => hmid.restores hsep hapart hfiles' (fun _ _ => rfl) fun _ _ => rfl⟩
    · rename_i v entry hturn
      obtain ⟨rfl, hmoved⟩ := hmoves v entry (Or.inr hturn)
      rw [hentry, ← List.map_cons]
      exact ih _ hfiles' (h.cons hmoved hdest hsource hapart hsep hin hf hnew)

/-- **While no copy falls on a path in use, replacement is all or nothing.** -/
theorem allOrNothing_of_apart (hsep : Separate files) (hapart : Apart files) (hclear : Clear files t) :
    AllOrNothing follow files t := by
  intro faults
  obtain ⟨hall, hnothing⟩ := replaceFrom_spec follow hsep hapart hclear faults rfl midway_nil
  unfold replaceFiles
  cases hresult : replaceFrom follow faults files [] t with
  | mk w result =>
    obtain ⟨replaced, ok⟩ := result
    rw [List.map_nil, hresult] at hall hnothing
    cases ok with
    | true =>
      refine ⟨fun _ f hf => ?_, fun hok => (nomatch hok)⟩
      obtain ⟨hsome, hinstalled⟩ := hall rfl f hf
      obtain ⟨node, hnode⟩ := Option.isSome_iff_exists.mp hsome
      exact ⟨node, hnode, hinstalled.trans hnode⟩
    | false => exact ⟨fun hok => (nomatch hok), fun _ _ f hf => hnothing rfl f hf⟩

end

end SentryUsb.Api.FileReplacement
