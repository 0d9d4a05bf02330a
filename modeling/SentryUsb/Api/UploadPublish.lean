import SentryUsb.Api.FilePaths
import SentryUsb.Library.TransitionSystem

/-! # Putting an uploaded file in its place

An upload is staged next to its destination and then published under its name, by a hard link, or on media without links by a
file that must be new. Other requests work on the same directory in between (`publish_upload`).

* **`Disk`** — files and the names they go by;
* **`step`** — one step of the upload, or of another party;
* **`Harmless`** — a step keeps every file that the upload did not make;
* **`Careful`** — a failed upload finds its own file, or none, where it cleans up;
* **`upload_confined`** — paths of requests and uploads stay in the served directories, and the steps of an upload in careful
runs are harmless. -/

namespace SentryUsb.Api.Files

open Library

/-! ## The disk -/

/-- A file: whether the upload made it, and its bytes. -/
structure FileNode where
  own : Bool
  bytes : List UInt8
  deriving DecidableEq

/-- The files that were ever made, and the file each name stands for. -/
structure Disk where
  nodes : List FileNode
  entries : List Char → Option Nat
  allocated : ∀ path i, entries path = some i → i < nodes.length

namespace Disk

variable (d : Disk)

/-- The upload made the file. -/
def own (i : Nat) : Bool := (d.nodes[i]?).any FileNode.own

/-- A new file under a name. -/
def create (path : List Char) (node : FileNode) : Disk where
  nodes := d.nodes ++ [node]
  entries := Function.update d.entries path (some d.nodes.length)
  allocated p i h := by
    rw [List.length_append]
    by_cases hp : p = path
    · rw [hp, Function.update_self] at h
      exact Option.some.inj h ▸ Nat.lt_succ_self _
    · rw [Function.update_of_ne hp] at h
      exact Nat.lt_succ_of_lt (d.allocated p i h)

/-- A name stands for nothing. -/
def unlink (path : List Char) : Disk where
  nodes := d.nodes
  entries := Function.update d.entries path none
  allocated p i h := by
    by_cases hp : p = path
    · rw [hp, Function.update_self] at h
      exact nomatch h
    · rw [Function.update_of_ne hp] at h
      exact d.allocated p i h

/-- A second name for a file. -/
def hardLink (source target : List Char) : Disk where
  nodes := d.nodes
  entries := Function.update d.entries target (d.entries source)
  allocated p i h := by
    by_cases hp : p = target
    · rw [hp, Function.update_self] at h
      exact d.allocated source i h
    · rw [Function.update_of_ne hp] at h
      exact d.allocated p i h

/-- What a file holds, changed. -/
def write (i : Nat) (f : List UInt8 → List UInt8) : Disk where
  nodes := d.nodes.modify i fun node => { node with bytes := f node.bytes }
  entries := d.entries
  allocated p j h := by
    rw [List.length_modify]
    exact d.allocated p j h

end Disk

/-! ## The upload -/

/-- Where an upload goes, the name it is staged under, and whether it may replace what is there. -/
structure Upload where
  destination : List Char
  staged : List Char
  overwrite : Bool

/-- How far an upload is. -/
inductive Phase where
  /-- Before the directory is made. -/
  | start
  | staging
  | copying (node : Nat)
  | publishing
  /-- There are no hard links here. -/
  | fallback
  | filling (node : Nat)
  /-- The file that could not be filled is to be removed. -/
  | cleaning
  /-- The staged file is to be removed. -/
  | dropping (ok : Bool)
  | done (ok : Bool)
  deriving DecidableEq

/-- What an operation of the upload comes back with. -/
inductive Answer where
  | ok
  /-- Some more bytes of a copy. -/
  | more (bytes : List UInt8)
  | alreadyExists
  | error
  deriving DecidableEq

/-- A step: of the upload, or of another party, which puts a new file in place, removes one or writes to one. -/
inductive Action where
  | upload (answer : Answer)
  | put (path : List Char) (bytes : List UInt8)
  | remove (path : List Char)
  | change (path : List Char) (bytes : List UInt8)
  deriving DecidableEq

structure State where
  disk : Disk
  phase : Phase

namespace State

variable (s : State) (u : Upload)

/-- A copy truncates what it finds under its name. -/
def openStaged : State :=
  match s.disk.entries u.staged with
  | some i => ⟨s.disk.write i fun _ => [], .copying i⟩
  | none => ⟨s.disk.create u.staged ⟨true, []⟩, .copying s.disk.nodes.length⟩

/-- The staged file takes its place: by its name when it may replace, else by a link to a name that is free. -/
def publish : Option State :=
  if (s.disk.entries u.staged).isNone then none
  else if u.overwrite then some ⟨(s.disk.hardLink u.staged u.destination).unlink u.staged, .dropping true⟩
  else if (s.disk.entries u.destination).isNone then some ⟨s.disk.hardLink u.staged u.destination, .dropping true⟩
  else none

/-- A file that must be new. -/
def createNew : Option State :=
  if (s.disk.entries u.destination).isNone then
    some ⟨s.disk.create u.destination ⟨true, []⟩, .filling s.disk.nodes.length⟩
  else none

/-- One step of the upload (`publish_upload`). A replacing upload that fails is given up; else an error other than that the
name is taken leads to the fallback. -/
def advance : Answer → Option State :=
  match s.phase with
  | .start => fun
    | .ok => some { s with phase := .staging }
    | .error => some { s with phase := .done false }
    | _ => none
  | .staging => fun
    | .ok => some (s.openStaged u)
    | .error => some { s with phase := .dropping false }
    | _ => none
  | .copying i => fun
    | .more bytes => some { s with disk := s.disk.write i (· ++ bytes) }
    | .ok => some { s with phase := .publishing }
    | .error => some { s with phase := .dropping false }
    | .alreadyExists => none
  | .publishing => fun
    | .ok => s.publish u
    | .alreadyExists => some { s with phase := .dropping false }
    | .error => some { s with phase := if u.overwrite then .dropping false else .fallback }
    | .more _ => none
  | .fallback => fun
    | .ok => s.createNew u
    | .alreadyExists | .error => some { s with phase := .dropping false }
    | .more _ => none
  | .filling i => fun
    | .more bytes => some { s with disk := s.disk.write i (· ++ bytes) }
    | .ok => some { s with phase := .dropping true }
    | .error => some { s with phase := .cleaning }
    | .alreadyExists => none
  | .cleaning => fun
    | .ok => some ⟨s.disk.unlink u.destination, .dropping false⟩
    | .error => some { s with phase := .dropping false }
    | _ => none
  | .dropping ok => fun
    | .ok => some ⟨s.disk.unlink u.staged, .done ok⟩
    | .error => some { s with phase := .done ok }
    | _ => none
  | .done _ => fun _ => none

end State

/-- One step of the upload or of another party. -/
def step (u : Upload) (s : State) : Action → Option State
  | .upload answer => s.advance u answer
  | .put path bytes => some { s with disk := s.disk.create path ⟨false, bytes⟩ }
  | .remove path => some { s with disk := s.disk.unlink path }
  | .change path bytes => (s.disk.entries path).map fun i => { s with disk := s.disk.write i fun _ => bytes }

/-! ## What an upload must not do -/

/-- Every file that the upload did not make keeps its names and its bytes. -/
structure Harmless (d d' : Disk) : Prop where
  names : ∀ path i, d.entries path = some i → d.own i = false → d'.entries path = some i
  files : ∀ (i : Nat) (node : FileNode), d.nodes[i]? = some node → node.own = false → d'.nodes[i]? = some node

/-- The staged name is free, and no file is the upload's. -/
structure Fresh (u : Upload) (d : Disk) : Prop where
  staged : d.entries u.staged = none
  others : ∀ node ∈ d.nodes, node.own = false

/-- The upload removes its own file, or none, where it cleans up; the other parties leave the staged name alone. -/
def Careful (u : Upload) (s : State) : Action → Bool
  | .upload answer =>
    decide (s.phase ≠ .cleaning ∨ answer ≠ .ok) || (s.disk.entries u.destination).all s.disk.own
  | .put path _ => decide (path ≠ u.staged)
  | .remove path => decide (path ≠ u.staged)
  | .change path _ => decide (path ≠ u.staged)

variable {u : Upload} {d : Disk} {s s' : State} {path : List Char} {i : Nat}

namespace Disk

@[simp] theorem create_entries_self (path : List Char) (node : FileNode) :
    (d.create path node).entries path = some d.nodes.length := Function.update_self ..

theorem create_entries_of_ne {p : List Char} (hp : p ≠ path) (node : FileNode) :
    (d.create path node).entries p = d.entries p := Function.update_of_ne hp ..

@[simp] theorem unlink_entries_self (path : List Char) : (d.unlink path).entries path = none := Function.update_self ..

theorem unlink_entries_of_ne {p : List Char} (hp : p ≠ path) : (d.unlink path).entries p = d.entries p :=
  Function.update_of_ne hp ..

@[simp] theorem hardLink_entries_self (source path : List Char) : (d.hardLink source path).entries path = d.entries source :=
  Function.update_self ..

theorem hardLink_entries_of_ne {p : List Char} (hp : p ≠ path) (source : List Char) :
    (d.hardLink source path).entries p = d.entries p := Function.update_of_ne hp ..

theorem lt_of_own (h : d.own i = true) : i < d.nodes.length := by
  by_contra hle
  rw [own, List.getElem?_eq_none (Nat.le_of_not_lt hle)] at h
  exact nomatch h

theorem own_create (path : List Char) (node : FileNode) (h : d.own i = true) : (d.create path node).own i = true := by
  rw [own, create, List.getElem?_append_left (lt_of_own h)]
  exact h

@[simp] theorem own_write (f : List UInt8 → List UInt8) (j : Nat) : (d.write i f).own j = d.own j := by
  rw [own, write, List.getElem?_modify, own]
  cases d.nodes[j]? with
  | none => rfl
  | some node =>
    by_cases h : i = j
    · simp [h]
    · simp [h]

end Disk

theorem Harmless.refl (d : Disk) : Harmless d d := ⟨fun _ _ h _ => h, fun _ _ h _ => h⟩

/-- A new file under a free name. -/
theorem harmless_create (hfree : d.entries path = none) (node : FileNode) : Harmless d (d.create path node) where
  names p i h _ := by
    have hp : p ≠ path := by
      rintro rfl
      rw [hfree] at h
      exact nomatch h
    rw [Disk.create_entries_of_ne hp]
    exact h
  files i node h _ := by
    rw [Disk.create, List.getElem?_append_left (List.getElem?_eq_some_iff.mp h).1]
    exact h

/-- A free name for a file. -/
theorem harmless_hardLink (hfree : d.entries path = none) (source : List Char) : Harmless d (d.hardLink source path) where
  names p i h _ := by
    have hp : p ≠ path := by
      rintro rfl
      rw [hfree] at h
      exact nomatch h
    rw [Disk.hardLink_entries_of_ne hp]
    exact h
  files _ _ h _ := h

/-- A name of the upload's file, or of none, that goes. -/
theorem harmless_unlink (hown : ∀ i, d.entries path = some i → d.own i = true) : Harmless d (d.unlink path) where
  names p i h hother := by
    have hp : p ≠ path := by
      rintro rfl
      rw [hown i h] at hother
      exact nomatch hother
    rw [Disk.unlink_entries_of_ne hp]
    exact h
  files _ _ h _ := h

/-- Bytes of the upload's own file. -/
theorem harmless_write (hown : d.own i = true) (f : List UInt8 → List UInt8) : Harmless d (d.write i f) where
  names _ _ h _ := h
  files j node h hother := by
    have hj : i ≠ j := by
      rintro rfl
      rw [Disk.own, h, Option.any_some, hother] at hown
      exact nomatch hown
    rw [Disk.write, List.getElem?_modify, h]
    simp [hj]

/-! ## Steps -/

/-- The file an upload is writing to. -/
def Phase.node? : Phase → Option Nat
  | .copying i => some i
  | .filling i => some i
  | _ => none

/-- The staged name stands for a file of the upload, and so does what it writes to. -/
structure Inv (u : Upload) (s : State) : Prop where
  staged : ∀ i, s.disk.entries u.staged = some i → s.disk.own i = true
  node : ∀ i, s.phase.node? = some i → s.disk.own i = true

theorem Inv.moves (h : Inv u s) {p : Phase} (hp : p.node? = none) :
    Inv u { s with phase := p } ∧ Harmless s.disk s.disk :=
  ⟨⟨h.staged, fun i hi => by rw [hp] at hi; exact nomatch hi⟩, Harmless.refl _⟩

/-- It writes to its file. -/
theorem Inv.writes (h : Inv u s) (hi : s.phase.node? = some i) (f : List UInt8 → List UInt8) :
    Inv u { s with disk := s.disk.write i f } ∧ Harmless s.disk (s.disk.write i f) := by
  refine ⟨⟨fun j hj => ?_, fun j hj => ?_⟩, harmless_write (h.node i hi) f⟩
  · rw [Disk.own_write]
    exact h.staged j hj
  · rw [Disk.own_write]
    exact h.node j hj

/-- It makes a file under a name that is free. -/
theorem Inv.creates (h : Inv u s) (hfree : s.disk.entries path = none) {p : Phase} (hp : p.node? = some s.disk.nodes.length) :
    Inv u ⟨s.disk.create path ⟨true, []⟩, p⟩ ∧ Harmless s.disk (s.disk.create path ⟨true, []⟩) := by
  have hnew : (s.disk.create path ⟨true, []⟩).own s.disk.nodes.length = true := by
    rw [Disk.own, Disk.create, List.getElem?_concat_length]
    rfl
  refine ⟨⟨fun i hi => ?_, fun i hi => ?_⟩, harmless_create hfree _⟩
  · by_cases hstaged : u.staged = path
    · rw [hstaged, Disk.create_entries_self] at hi
      exact Option.some.inj hi ▸ hnew
    · rw [Disk.create_entries_of_ne hstaged] at hi
      exact Disk.own_create _ _ (h.staged i hi)
  · exact Option.some.inj (hp.symm.trans hi) ▸ hnew

/-- It removes a name of its own file, or of none. -/
theorem Inv.unlinks (h : Inv u s) (hown : ∀ i, s.disk.entries path = some i → s.disk.own i = true) {p : Phase}
    (hp : p.node? = none) : Inv u ⟨s.disk.unlink path, p⟩ ∧ Harmless s.disk (s.disk.unlink path) := by
  refine ⟨⟨fun i hi => ?_, fun i hi => by rw [hp] at hi; exact nomatch hi⟩, harmless_unlink hown⟩
  by_cases hstaged : u.staged = path
  · rw [hstaged, Disk.unlink_entries_self] at hi
    exact nomatch hi
  · rw [Disk.unlink_entries_of_ne hstaged] at hi
    exact h.staged i hi

/-- It gives its staged file a name that is free. -/
theorem Inv.links (h : Inv u s) (hfree : s.disk.entries path = none) {p : Phase} (hp : p.node? = none) :
    Inv u ⟨s.disk.hardLink u.staged path, p⟩ ∧ Harmless s.disk (s.disk.hardLink u.staged path) := by
  refine ⟨⟨fun i hi => ?_, fun i hi => by rw [hp] at hi; exact nomatch hi⟩, harmless_hardLink hfree _⟩
  by_cases hstaged : u.staged = path
  · rw [hstaged, Disk.hardLink_entries_self] at hi
    exact h.staged i (hstaged ▸ hi)
  · rw [Disk.hardLink_entries_of_ne hstaged] at hi
    exact h.staged i hi

theorem Inv.openStaged (h : Inv u s) : Inv u (s.openStaged u) ∧ Harmless s.disk (s.openStaged u).disk := by
  rw [State.openStaged]
  cases hstaged : s.disk.entries u.staged with
  | none => exact h.creates hstaged rfl
  | some i =>
    have hown := h.staged i hstaged
    dsimp only
    refine ⟨⟨fun j hj => ?_, fun j hj => ?_⟩, harmless_write hown _⟩
    · rw [Disk.own_write]
      exact h.staged j hj
    · rw [Disk.own_write, ← Option.some.inj hj]
      exact hown

theorem Inv.publish (h : Inv u s) (hover : u.overwrite = false) (htaken : s.publish u = some s') :
    Inv u s' ∧ Harmless s.disk s'.disk := by
  rw [State.publish, hover, if_neg (by simp : ¬ false = true)] at htaken
  split at htaken
  · exact nomatch htaken
  · split at htaken
    · next hfree =>
      exact Option.some.inj htaken ▸ h.links (Option.isNone_iff_eq_none.mp hfree) rfl
    · exact nomatch htaken

theorem Inv.createNew (h : Inv u s) (htaken : s.createNew u = some s') : Inv u s' ∧ Harmless s.disk s'.disk := by
  rw [State.createNew] at htaken
  split at htaken
  · next hfree =>
    exact Option.some.inj htaken ▸ h.creates (Option.isNone_iff_eq_none.mp hfree) rfl
  · exact nomatch htaken

/-- A step of an upload that may not replace anything keeps the invariant, and is harmless when it is careful. -/
theorem Inv.advance (h : Inv u s) (hover : u.overwrite = false) {answer : Answer}
    (hcareful : Careful u s (.upload answer) = true)
    (htaken : s.advance u answer = some s') : Inv u s' ∧ Harmless s.disk s'.disk := by
  obtain ⟨disk, phase⟩ := s
  cases phase with
  | start =>
    cases answer with
    | ok => exact Option.some.inj htaken ▸ h.moves rfl
    | error => exact Option.some.inj htaken ▸ h.moves rfl
    | more bytes => exact nomatch htaken
    | alreadyExists => exact nomatch htaken
  | staging =>
    cases answer with
    | ok => exact Option.some.inj htaken ▸ h.openStaged
    | error => exact Option.some.inj htaken ▸ h.moves rfl
    | more bytes => exact nomatch htaken
    | alreadyExists => exact nomatch htaken
  | copying i =>
    cases answer with
    | ok => exact Option.some.inj htaken ▸ h.moves rfl
    | error => exact Option.some.inj htaken ▸ h.moves rfl
    | more bytes => exact Option.some.inj htaken ▸ h.writes rfl (· ++ bytes)
    | alreadyExists => exact nomatch htaken
  | publishing =>
    cases answer with
    | ok => exact h.publish hover htaken
    | error => exact Option.some.inj htaken ▸ h.moves (by rw [hover]; rfl)
    | more bytes => exact nomatch htaken
    | alreadyExists => exact Option.some.inj htaken ▸ h.moves rfl
  | fallback =>
    cases answer with
    | ok => exact h.createNew htaken
    | error => exact Option.some.inj htaken ▸ h.moves rfl
    | more bytes => exact nomatch htaken
    | alreadyExists => exact Option.some.inj htaken ▸ h.moves rfl
  | filling i =>
    cases answer with
    | ok => exact Option.some.inj htaken ▸ h.moves rfl
    | error => exact Option.some.inj htaken ▸ h.moves rfl
    | more bytes => exact Option.some.inj htaken ▸ h.writes rfl (· ++ bytes)
    | alreadyExists => exact nomatch htaken
  | cleaning =>
    cases answer with
    | ok =>
      have hall : (disk.entries u.destination).all disk.own = true := hcareful
      exact Option.some.inj htaken ▸ h.unlinks (fun i hi => by rw [hi] at hall; exact hall) rfl
    | error => exact Option.some.inj htaken ▸ h.moves rfl
    | more bytes => exact nomatch htaken
    | alreadyExists => exact nomatch htaken
  | dropping ok =>
    cases answer with
    | ok => exact Option.some.inj htaken ▸ h.unlinks h.staged rfl
    | error => exact Option.some.inj htaken ▸ h.moves rfl
    | more bytes => exact nomatch htaken
    | alreadyExists => exact nomatch htaken
  | done ok => exact nomatch htaken

/-- A step of another party that leaves the staged name alone keeps the invariant. -/
theorem Inv.others (h : Inv u s) {a : Action} (hother : ∀ answer, a ≠ .upload answer) (hcareful : Careful u s a = true)
    (htaken : step u s a = some s') : Inv u s' := by
  cases a with
  | upload answer => exact absurd rfl (hother answer)
  | put path bytes =>
    have hne : u.staged ≠ path := Ne.symm (of_decide_eq_true hcareful)
    rw [← Option.some.inj htaken]
    refine ⟨fun i hi => ?_, fun i hi => Disk.own_create _ _ (h.node i hi)⟩
    rw [Disk.create_entries_of_ne hne] at hi
    exact Disk.own_create _ _ (h.staged i hi)
  | remove path =>
    have hne : u.staged ≠ path := Ne.symm (of_decide_eq_true hcareful)
    rw [← Option.some.inj htaken]
    refine ⟨fun i hi => ?_, h.node⟩
    rw [Disk.unlink_entries_of_ne hne] at hi
    exact h.staged i hi
  | change path bytes =>
    obtain ⟨i, -, hi⟩ := Option.map_eq_some_iff.mp htaken
    rw [← hi]
    refine ⟨fun j hj => ?_, fun j hj => ?_⟩
    · rw [Disk.own_write]
      exact h.staged j hj
    · rw [Disk.own_write]
      exact h.node j hj

theorem Inv.step (h : Inv u s) (hover : u.overwrite = false) {a : Action} (hcareful : Careful u s a = true)
    (htaken : step u s a = some s') : Inv u s' := by
  by_cases ha : ∃ answer, a = .upload answer
  · obtain ⟨answer, rfl⟩ := ha
    exact (h.advance hover hcareful htaken).1
  · exact h.others (fun answer heq => ha ⟨answer, heq⟩) hcareful htaken

/-- **Uploads are harmless.** In careful runs, no step of an upload that may not replace anything touches a file it did not
make. -/
theorem upload_harmless (hover : u.overwrite = false) (hfresh : Fresh u d)
    (hrun : Reaches (step u) (fun s a => Careful u s a = true) ⟨d, .start⟩ s) {answer : Answer}
    (hcareful : Careful u s (.upload answer) = true) (htaken : step u s (.upload answer) = some s') :
    Harmless s.disk s'.disk := by
  have hstart : Inv u ⟨d, .start⟩ := by
    refine ⟨fun i hi => ?_, fun i hi => (nomatch hi)⟩
    rw [hfresh.staged] at hi
    exact nomatch hi
  have hinv : Inv u s := hrun.invariant hstart fun _ _ _ hinv hok hstep => hinv.step hover hok hstep
  exact (hinv.advance hover hcareful htaken).2

/-- Paths of requests and uploads stay in the served directories, normalizing twice is normalizing once, and the steps of an
upload in careful runs are harmless. -/
theorem upload_confined (u : Upload) (d : Disk) :
    (∀ reqPath b, isPathAllowed reqPath = (b, true) → Confined b) ∧
      (∀ reqPath b value v, isPathAllowed reqPath = (b, true) → uploadRelativePath value = .ok v →
        lexicalNormalize (push b v) = push b v ∧ StrictlyBelow b (push b v)) ∧
      (∀ reqPath, lexicalNormalize (lexicalNormalize reqPath) = lexicalNormalize reqPath) ∧
      ∀ (s s' : State) (answer : Answer), u.overwrite = false → Fresh u d →
        Reaches (step u) (fun s a => Careful u s a = true) ⟨d, .start⟩ s → Careful u s (.upload answer) = true →
          step u s (.upload answer) = some s' → Harmless s.disk s'.disk :=
  ⟨fun _ _ h => isPathAllowed_confined h, fun _ _ _ _ hb hv => lexicalNormalize_push hb hv, lexicalNormalize_idem,
    fun _ _ _ hover hfresh hrun hcareful htaken => upload_harmless hover hfresh hrun hcareful htaken⟩

/-- A disk without files. -/
def emptyDisk : Disk := ⟨[], fun _ => none, fun _ _ h => nomatch h⟩

/-- An upload to `/b`, staged as `/s`. -/
def toB : Upload := ⟨['/', 'b'], ['/', 's'], false⟩

/-- The file is staged, and cannot be linked. -/
def unlinked : List Action := [.upload .ok, .upload .ok, .upload .ok, .upload .error]

/-- The fallback makes its file, and cannot fill it. -/
def unfilled : List Action := unlinked ++ [.upload .ok, .upload (.more [1]), .upload .error]

theorem isSome_unfilled :
    (run (guarded (step toB) fun s a => Careful toB s a = true) ⟨emptyDisk, .start⟩ unfilled).isSome = true := by decide

theorem isSome_cleaned :
    (step toB ((run (guarded (step toB) fun s a => Careful toB s a = true) ⟨emptyDisk, .start⟩ unfilled).get isSome_unfilled)
      (.upload .ok)).isSome = true := by decide

/-- A request that goes up and down, an uploaded file below it, and an upload that cleans up what it could not fill. -/
theorem upload_confined_toB :
    Confined (pathOf [['m', 'n', 't'], ['c', 'a', 'm']]) ∧
      StrictlyBelow (pathOf [['m', 'n', 't'], ['c', 'a', 'm']]) (pathOf [['m', 'n', 't'], ['c', 'a', 'm'], ['b']]) ∧
      Harmless
        ((run (guarded (step toB) fun s a => Careful toB s a = true) ⟨emptyDisk, .start⟩ unfilled).get isSome_unfilled).disk
        ((step toB ((run (guarded (step toB) fun s a => Careful toB s a = true) ⟨emptyDisk, .start⟩ unfilled).get
          isSome_unfilled) (.upload .ok)).get isSome_cleaned).disk := by
  have hcam : isPathAllowed ['/', 'm', 'n', 't', '/', 'x', '/', '.', '.', '/', '.', '/', 'c', 'a', 'm'] =
      (pathOf [['m', 'n', 't'], ['c', 'a', 'm']], true) := by decide
  have hconfined := upload_confined toB emptyDisk
  refine ⟨hconfined.1 _ _ hcam, ?_, ?_⟩
  · exact (hconfined.2.1 _ _ ['b'] ['b'] hcam (by rfl)).2
  · exact hconfined.2.2.2 _ _ .ok rfl ⟨rfl, fun _ h => nomatch h⟩
      (reaches_of_run_guarded (Option.some_get _).symm) (by decide) (Option.some_get _).symm

/-- While the fallback fills its file, another party puts its own in that place. -/
def replaced : List Action :=
  unlinked ++ [.upload .ok, .put ['/', 'b'] [2], .upload .error]

theorem isSome_replaced : (run (step toB) ⟨emptyDisk, .start⟩ replaced).isSome = true := by decide

/-- The clean-up of a failed upload removes the file of the other party. -/
theorem not_upload_confined :
    ¬ ∀ (u : Upload) (d : Disk) (actions : List Action) (s s' : State) (answer : Answer), u.overwrite = false →
      u.staged ≠ u.destination → Fresh u d →
        (∀ a ∈ actions, ∀ path bytes, a = .put path bytes → path = u.destination) →
        (∀ a ∈ actions, ∀ path, a ≠ .remove path) → (∀ a ∈ actions, ∀ path bytes, a ≠ .change path bytes) →
          run (step u) ⟨d, .start⟩ actions = some s → step u s (.upload answer) = some s' → Harmless s.disk s'.disk := by
  intro h
  have hharmless := h toB emptyDisk replaced _ _ .ok rfl (by decide) ⟨rfl, fun _ h => nomatch h⟩
    (by simp [replaced, unlinked, toB]) (by simp [replaced, unlinked]) (by simp [replaced, unlinked])
    (Option.some_get isSome_replaced).symm rfl
  have hkept := hharmless.names ['/', 'b'] 2 (by decide) (by decide)
  exact absurd ((Disk.unlink_entries_self toB.destination).symm.trans hkept) (by simp)

end SentryUsb.Api.Files
