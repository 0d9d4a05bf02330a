import SentryUsb.Library.PathText

/-! # Paths of the file API

A request names a path as it likes. It is resolved without looking at the disk, and must then be one of the served
directories or below one. A file of an uploaded folder is named by a path relative to the directory it goes to (`files.rs`).

* **`lexicalNormalize`**, **`isPathAllowed`** — the path of a request, and whether it is served;
* **`uploadRelativePath`** — where a file of an uploaded folder goes;
* **`isPathAllowed_confined`** — what is served is below a served directory;
* **`lexicalNormalize_push`** — an upload stays below its directory. -/

namespace SentryUsb.Api.Files

open Library

/-! ## The code -/

/-- `ALLOWED_BASES`, by their names. -/
def allowedNames : List (List (List Char)) :=
  let mutable := ['m', 'u', 't', 'a', 'b', 'l', 'e']
  let mnt := ['m', 'n', 't']
  let cam := ['c', 'a', 'm']
  [[mutable],
   [mnt, cam],
   [mnt, cam, ['T', 'e', 's', 'l', 'a', 'C', 'a', 'm']],
   [mutable, ['L', 'i', 'c', 'e', 'n', 's', 'e', 'P', 'l', 'a', 't', 'e']],
   [mutable, ['L', 'o', 'c', 'k', 'C', 'h', 'i', 'm', 'e']],
   [mnt, ['m', 'u', 's', 'i', 'c']],
   [mnt, ['l', 'i', 'g', 'h', 't', 's', 'h', 'o', 'w']],
   [mnt, ['b', 'o', 'o', 'm', 'b', 'o', 'x']],
   [['v', 'a', 'r'], ['w', 'w', 'w'], ['h', 't', 'm', 'l'], ['f', 's']]]

/-- `ALLOWED_BASES`. -/
def allowedBases : List (List Char) := allowedNames.map pathOf

/-- What a component does to the names so far; the result is anchored at the root anyway. -/
def resolve (parts : List (List Char)) : Component → List (List Char)
  | .normal name => parts ++ [name]
  | .parentDir => parts.dropLast
  | _ => parts

/-- The names that are left of a path. -/
def normalizedParts (reqPath : List Char) : List (List Char) := (components reqPath).foldl resolve []

/-- A path without dots, below the root (`lexical_normalize`). -/
def lexicalNormalize (reqPath : List Char) : List Char := (normalizedParts reqPath).foldl push ['/']

/-- The path of a request, and whether it is served (`is_path_allowed`). -/
def isPathAllowed (reqPath : List Char) : List Char × Bool :=
  let clean := lexicalNormalize reqPath
  (clean, allowedBases.any fun base => decide (clean = base) || (base ++ ['/']).isPrefixOf clean)

/-- A relative path that stays below where it is joined, as it is; the error otherwise (`upload_relative_path`). -/
def uploadRelativePath (value : List Char) : Except String (List Char) :=
  if value = [] ∨ '\\' ∈ value ∨ '\x00' ∈ value ∨
      (value.splitOn '/').any (fun part => part = [] || part = ['.'] || part = ['.', '.']) ∨ value.head? = some '/' then
    .error "Invalid relative upload path"
  else .ok value

/-! ## What the paths are for -/

/-- A path of names, at a served directory or below. -/
def Confined (p : List Char) : Prop :=
  ∃ base below, pathOf base ∈ allowedBases ∧ p = pathOf (base ++ below) ∧ ∀ part ∈ base ++ below, Proper part

/-- A path strictly below another, both of names. -/
def StrictlyBelow (dir p : List Char) : Prop :=
  ∃ parts below, below ≠ [] ∧ dir = pathOf parts ∧ p = pathOf (parts ++ below) ∧ ∀ part ∈ parts ++ below, Proper part

variable {reqPath value b v : List Char} {parts : List (List Char)}

/-! ## Normalizing -/

/-- Only names are left. -/
theorem proper_normalizedParts : ∀ part ∈ normalizedParts reqPath, Proper part := by
  have hgeneral : ∀ (cs : List Component) (parts : List (List Char)), (∀ name, .normal name ∈ cs → Proper name) →
      (∀ part ∈ parts, Proper part) → ∀ part ∈ cs.foldl resolve parts, Proper part := by
    intro cs
    induction cs with
    | nil => exact fun parts _ hparts => hparts
    | cons c cs ih =>
      intro parts hcs hparts
      refine ih (resolve parts c) (fun name hname => hcs name (List.mem_cons_of_mem _ hname)) fun part hpart => ?_
      cases c with
      | normal name =>
        rcases List.mem_append.mp hpart with hpart | hpart
        · exact hparts part hpart
        · rw [List.mem_singleton.mp hpart]
          exact hcs name List.mem_cons_self
      | parentDir => exact hparts part (List.dropLast_subset parts hpart)
      | rootDir => exact hparts part hpart
      | curDir => exact hparts part hpart
  exact hgeneral _ [] (fun _ => proper_of_mem_components) fun _ h => absurd h List.not_mem_nil

theorem lexicalNormalize_eq (reqPath : List Char) : lexicalNormalize reqPath = pathOf (normalizedParts reqPath) :=
  foldl_push_pathOf (fun _ h => absurd h List.not_mem_nil) proper_normalizedParts

/-- A path of names has nothing to resolve. -/
theorem normalizedParts_pathOf (h : ∀ part ∈ parts, Proper part) : normalizedParts (pathOf parts) = parts := by
  have hgeneral : ∀ names before : List (List Char),
      (names.map Component.normal).foldl resolve before = before ++ names := by
    intro names
    induction names with
    | nil => exact fun before => (List.append_nil before).symm
    | cons name names ih =>
      intro before
      rw [List.map_cons, List.foldl_cons, ih, resolve, List.append_assoc, List.singleton_append]
  rw [normalizedParts, components_pathOf h, List.foldl_cons]
  exact hgeneral parts []

theorem lexicalNormalize_pathOf (h : ∀ part ∈ parts, Proper part) : lexicalNormalize (pathOf parts) = pathOf parts := by
  rw [lexicalNormalize_eq, normalizedParts_pathOf h]

theorem lexicalNormalize_idem (reqPath : List Char) :
    lexicalNormalize (lexicalNormalize reqPath) = lexicalNormalize reqPath := by
  rw [lexicalNormalize_eq reqPath]
  exact lexicalNormalize_pathOf proper_normalizedParts

/-! ## Served paths -/

instance (part : List Char) : Decidable (Proper part) :=
  decidable_of_iff (part ≠ [] ∧ part ≠ ['.'] ∧ part ≠ ['.', '.'] ∧ '/' ∉ part)
    ⟨fun h => ⟨h.1, h.2.1, h.2.2.1, h.2.2.2⟩, fun h => ⟨h.ne_nil, h.ne_dot, h.ne_dots, h.no_slash⟩⟩

theorem proper_allowedNames : ∀ names ∈ allowedNames, names ≠ [] ∧ ∀ part ∈ names, Proper part := by decide

/-- What is served is a path of names at a served directory or below. -/
theorem isPathAllowed_confined (h : isPathAllowed reqPath = (b, true)) : Confined b := by
  obtain ⟨hclean, hany⟩ := Prod.mk.inj h
  obtain ⟨base, hbase, hmatch⟩ := List.any_eq_true.mp hany
  obtain ⟨names, hnames, rfl⟩ := List.mem_map.mp hbase
  obtain ⟨hne, hproper⟩ := proper_allowedNames names hnames
  rw [lexicalNormalize_eq] at hclean hmatch
  rcases Bool.or_eq_true_iff.mp hmatch with heq | hprefix
  · refine ⟨names, [], hbase, ?_, by simpa using hproper⟩
    rw [List.append_nil, ← hclean]
    exact of_decide_eq_true heq
  · obtain ⟨tail, htail⟩ := List.isPrefixOf_iff_prefix.mp hprefix
    rw [List.append_assoc, List.singleton_append] at htail
    obtain ⟨below, -, hparts⟩ := append_of_pathOf_prefix hproper hne proper_normalizedParts htail.symm
    exact ⟨names, below, hbase, by rw [← hclean, hparts], hparts ▸ proper_normalizedParts⟩

/-- An accepted relative path is one of names. -/
theorem uploadRelativePath_names (h : uploadRelativePath value = .ok v) :
    ∃ names, names ≠ [] ∧ (∀ part ∈ names, Proper part) ∧ v = ['/'].intercalate names := by
  rw [uploadRelativePath] at h
  split at h
  · exact nomatch h
  · next hvalid =>
    obtain rfl := Except.ok.inj h
    simp only [not_or] at hvalid
    refine ⟨value.splitOn '/', List.splitOn_ne_nil '/' value, fun part hpart => ?_, (List.intercalate_splitOn '/').symm⟩
    have hok : ¬ (part = [] || part = ['.'] || part = ['.', '.']) = true := fun hbad =>
      hvalid.2.2.2.1 (List.any_eq_true.mpr ⟨part, hpart, hbad⟩)
    simp only [Bool.or_eq_true, decide_eq_true_eq, not_or] at hok
    exact ⟨hok.1.1, hok.1.2, hok.2, slash_notMem_of_mem_splitOn hpart⟩

/-- An upload goes strictly below the directory it was sent to, and its path has nothing to resolve. -/
theorem lexicalNormalize_push (hb : isPathAllowed reqPath = (b, true)) (hv : uploadRelativePath value = .ok v) :
    lexicalNormalize (push b v) = push b v ∧ StrictlyBelow b (push b v) := by
  obtain ⟨base, below, -, rfl, hproper⟩ := isPathAllowed_confined hb
  obtain ⟨names, hne, hnames, rfl⟩ := uploadRelativePath_names hv
  have hall : ∀ part ∈ (base ++ below) ++ names, Proper part := fun part hpart =>
    (List.mem_append.mp hpart).elim (hproper part) (hnames part)
  rw [push_pathOf hproper hnames hne]
  exact ⟨lexicalNormalize_pathOf hall, _, names, hne, rfl, rfl, hall⟩

end SentryUsb.Api.Files
