import Mathlib

/-! # Paths as texts

A path is a text whose components are parted by `/`; seen through its components it is a list of names. The two views agree
on the paths whose components are all proper.

* **`components`** — the components of a path, without repeated separators and dots;
* **`push`** — a path behind another;
* **`pathOf`** — the absolute path of some names; **`components_pathOf`** — it is read back; **`push_pathOf`** — it grows. -/

namespace SentryUsb.Library

/-! ## Splitting at the separator -/

/-- A path and a component before it. -/
theorem splitOn_component {name : List Char} (h : '/' ∉ name) (rest : List Char) :
    (name ++ '/' :: rest).splitOn '/' = name :: rest.splitOn '/' :=
  List.splitOn_append_cons_self_of_not_mem h rest

/-- No component holds the separator. -/
theorem slash_notMem_of_mem_splitOn {t part : List Char} (h : part ∈ t.splitOn '/') : '/' ∉ part := by
  induction t generalizing part with
  | nil =>
    rw [List.splitOn_nil, List.mem_singleton] at h
    rw [h]
    exact List.not_mem_nil
  | cons c t ih =>
    rw [List.splitOn_cons_eq_if_modifyHead] at h
    by_cases hc : c = '/'
    · rw [if_pos (beq_iff_eq.mpr hc)] at h
      rcases List.mem_cons.mp h with rfl | h
      · exact List.not_mem_nil
      · exact ih h
    · rw [if_neg (by simpa using hc)] at h
      cases hsplit : t.splitOn '/' with
      | nil => exact absurd hsplit (List.splitOn_ne_nil '/' t)
      | cons first parts =>
        rw [hsplit] at h ih
        rcases List.mem_cons.mp h with rfl | h
        · have hfirst := ih List.mem_cons_self
          rw [List.mem_cons]
          rintro (hslash | hslash)
          · exact hc hslash.symm
          · exact hfirst hslash
        · exact ih (List.mem_cons_of_mem _ h)

/-- A path from its components, the first apart. -/
theorem eq_of_splitOn_cons {t name part : List Char} {parts : List (List Char)}
    (h : t.splitOn '/' = name :: part :: parts) :
    ∃ rest, t = name ++ '/' :: rest ∧ rest.splitOn '/' = part :: parts := by
  refine ⟨['/'].intercalate (part :: parts), ?_, List.splitOn_intercalate '/' (fun l hl => ?_) (by simp)⟩
  · have hjoin : ['/'].intercalate (t.splitOn '/') = t := List.intercalate_splitOn '/'
    rw [← hjoin, h, List.intercalate_cons_cons, List.append_assoc, List.singleton_append]
  · exact slash_notMem_of_mem_splitOn (h ▸ List.mem_cons_of_mem _ hl)

/-! ## Components -/

/-- A component of a path. -/
inductive Component where
  | rootDir
  | curDir
  | parentDir
  | normal (name : List Char)
  deriving DecidableEq

/-- What is between two separators, as a component; nothing and a dot are none. -/
def component? (part : List Char) : Option Component :=
  if part = [] ∨ part = ['.'] then none else if part = ['.', '.'] then some .parentDir else some (.normal part)

/-- The components of a path. A dot counts only at the start of a relative one. -/
def components (p : List Char) : List Component :=
  (if p.head? = some '/' then [.rootDir] else if (p.splitOn '/').head? = some ['.'] then [.curDir] else []) ++
    (p.splitOn '/').filterMap component?

/-- A path behind another; an absolute one takes its place. -/
def push (buf p : List Char) : List Char :=
  if p.head? = some '/' then p else if buf.getLast?.any (· ≠ '/') then buf ++ '/' :: p else buf ++ p

/-- A name: a component that does not leave or repeat its directory, and holds no separator. -/
structure Proper (part : List Char) : Prop where
  ne_nil : part ≠ []
  ne_dot : part ≠ ['.']
  ne_dots : part ≠ ['.', '.']
  no_slash : '/' ∉ part

/-- The absolute path of some names. -/
def pathOf (parts : List (List Char)) : List Char := '/' :: ['/'].intercalate parts

variable {part name : List Char} {parts rest : List (List Char)}

theorem component?_of_proper (h : Proper part) : component? part = some (.normal part) := by
  rw [component?, if_neg (not_or.mpr ⟨h.ne_nil, h.ne_dot⟩), if_neg h.ne_dots]

/-- The names among the components of a path are proper. -/
theorem proper_of_mem_components {p : List Char} (h : .normal name ∈ components p) : Proper name := by
  have hmem : .normal name ∈ (p.splitOn '/').filterMap component? := by
    rcases List.mem_append.mp h with hhead | hmem
    · split at hhead
      · exact absurd (List.mem_singleton.mp hhead) (by simp)
      · split at hhead
        · exact absurd (List.mem_singleton.mp hhead) (by simp)
        · exact absurd hhead List.not_mem_nil
    · exact hmem
  obtain ⟨part, hpart, hcomponent⟩ := List.mem_filterMap.mp hmem
  rw [component?] at hcomponent
  split at hcomponent
  · exact nomatch hcomponent
  · next hne =>
    split at hcomponent
    · exact nomatch Option.some.inj hcomponent
    · next hdots =>
      obtain ⟨hnil, hdot⟩ := not_or.mp hne
      obtain rfl := Component.normal.inj (Option.some.inj hcomponent)
      exact ⟨hnil, hdot, hdots, slash_notMem_of_mem_splitOn hpart⟩

/-- The components of an absolute path of names. -/
theorem components_pathOf (h : ∀ part ∈ parts, Proper part) :
    components (pathOf parts) = .rootDir :: parts.map .normal := by
  have hhead : (pathOf parts).head? = some '/' := rfl
  have hsplit : (pathOf parts).splitOn '/' = [] :: (['/'].intercalate parts).splitOn '/' :=
    splitOn_component List.not_mem_nil _
  have hempty : component? [] = none := rfl
  rw [components, if_pos hhead, hsplit, List.filterMap_cons, hempty]
  cases hparts : parts with
  | nil => rfl
  | cons first others =>
    rw [← hparts, List.splitOn_intercalate '/' (fun part hpart => (h part hpart).no_slash) (by simp [hparts])]
    have hmap : parts.filterMap component? = parts.map .normal := by
      rw [← List.filterMap_eq_map]
      exact List.filterMap_congr fun part hpart => component?_of_proper (h part hpart)
    rw [hmap]
    rfl

/-! ## Growing a path -/

theorem intercalate_append (hparts : parts ≠ []) (hrest : rest ≠ []) :
    ['/'].intercalate (parts ++ rest) = ['/'].intercalate parts ++ '/' :: ['/'].intercalate rest := by
  induction parts with
  | nil => exact absurd rfl hparts
  | cons first others ih =>
    cases hothers : others with
    | nil =>
      rw [List.singleton_append, List.intercalate_cons_of_ne_nil hrest, List.intercalate_singleton,
        List.append_assoc, List.singleton_append]
    | cons second more =>
      rw [← hothers, List.cons_append, List.intercalate_cons_of_ne_nil (by simp [hothers]),
        List.intercalate_cons_of_ne_nil (by simp [hothers]), ih (by simp [hothers])]
      simp only [List.append_assoc]

/-- A path of names begins with a letter of the first. -/
theorem head?_intercalate (h : ∀ part ∈ parts, Proper part) (hparts : parts ≠ []) :
    ∃ c, (['/'].intercalate parts).head? = some c ∧ c ≠ '/' := by
  cases parts with
  | nil => exact absurd rfl hparts
  | cons first others =>
    have hfirst := h first List.mem_cons_self
    obtain ⟨c, letters, rfl⟩ := List.exists_cons_of_ne_nil hfirst.ne_nil
    refine ⟨c, ?_, fun hslash => hfirst.no_slash (hslash ▸ List.mem_cons_self)⟩
    cases others with
    | nil => rw [List.intercalate_singleton]; rfl
    | cons second more => rw [List.intercalate_cons_cons]; rfl

/-- It ends with a letter of the last. -/
theorem getLast?_pathOf (h : ∀ part ∈ parts, Proper part) (hparts : parts ≠ []) :
    ∃ c, (pathOf parts).getLast? = some c ∧ c ≠ '/' := by
  obtain rfl | ⟨before, last, rfl⟩ := List.eq_nil_or_concat' parts
  · exact absurd rfl hparts
  · have hlast := h last (by simp)
    have hend : ∃ start, pathOf (before ++ [last]) = start ++ last := by
      by_cases hbefore : before = []
      · exact ⟨['/'], by rw [hbefore, pathOf, List.nil_append, List.intercalate_singleton]; rfl⟩
      · refine ⟨pathOf before ++ ['/'], ?_⟩
        rw [pathOf, intercalate_append hbefore (by simp), List.intercalate_singleton, pathOf, List.append_assoc]
        rfl
    obtain ⟨start, hstart⟩ := hend
    refine ⟨last.getLast hlast.ne_nil, ?_, fun hslash => hlast.no_slash (hslash ▸ List.getLast_mem hlast.ne_nil)⟩
    rw [hstart, List.getLast?_append_of_ne_nil _ hlast.ne_nil, List.getLast?_eq_some_getLast hlast.ne_nil]

/-- A relative path of names behind an absolute one. -/
theorem push_pathOf (hparts : ∀ part ∈ parts, Proper part) (hrest : ∀ part ∈ rest, Proper part) (hne : rest ≠ []) :
    push (pathOf parts) (['/'].intercalate rest) = pathOf (parts ++ rest) := by
  obtain ⟨c, hhead, hc⟩ := head?_intercalate hrest hne
  rw [push, if_neg (by rw [hhead]; simpa using hc)]
  by_cases hnil : parts = []
  · rw [hnil]
    rfl
  · obtain ⟨d, hlast, hd⟩ := getLast?_pathOf hparts hnil
    rw [hlast, Option.any_some, if_pos (decide_eq_true hd), pathOf, pathOf, intercalate_append hnil hne]
    rfl

/-- Names pushed one after another. -/
theorem foldl_push_pathOf (hparts : ∀ part ∈ parts, Proper part) (hrest : ∀ part ∈ rest, Proper part) :
    rest.foldl push (pathOf parts) = pathOf (parts ++ rest) := by
  induction rest generalizing parts with
  | nil => rw [List.append_nil]; rfl
  | cons first others ih =>
    have hfirst := hrest first List.mem_cons_self
    have hone : push (pathOf parts) first = pathOf (parts ++ [first]) := by
      have hpush : push (pathOf parts) (['/'].intercalate [first]) = pathOf (parts ++ [first]) :=
        push_pathOf hparts (by simpa using hfirst) (by simp)
      rw [List.intercalate_singleton] at hpush
      exact hpush
    rw [List.foldl_cons, hone, ih (fun part hpart => ?_) fun part hpart => hrest part (List.mem_cons_of_mem _ hpart),
      List.append_assoc, List.singleton_append]
    rcases List.mem_append.mp hpart with hpart | hpart
    · exact hparts part hpart
    · rw [List.mem_singleton.mp hpart]
      exact hfirst

/-- A path that starts with a path of names and a separator is below it. -/
theorem append_of_pathOf_prefix {base : List (List Char)} (hbase : ∀ part ∈ base, Proper part) (hne : base ≠ [])
    (hparts : ∀ part ∈ parts, Proper part) {tail : List Char} (h : pathOf parts = pathOf base ++ '/' :: tail) :
    ∃ below, below ≠ [] ∧ parts = base ++ below := by
  have hsplit : ∀ {l : List (List Char)}, (∀ part ∈ l, Proper part) → l ≠ [] → (pathOf l).splitOn '/' = [] :: l :=
    fun {l} hl hl' => by
      have hcons : (pathOf l).splitOn '/' = [] :: (['/'].intercalate l).splitOn '/' :=
        splitOn_component List.not_mem_nil _
      rw [hcons, List.splitOn_intercalate '/' (fun part hpart => (hl part hpart).no_slash) hl']
  have hparts' : parts ≠ [] := by
    rintro rfl
    have hlength := congrArg List.length h
    rw [List.length_append] at hlength
    simp [pathOf] at hlength
    omega
  refine ⟨tail.splitOn '/', List.splitOn_ne_nil '/' tail, ?_⟩
  have hboth := congrArg (List.splitOn '/') h
  rw [List.splitOn_append_cons_self, hsplit hparts hparts', hsplit hbase hne] at hboth
  exact (List.cons.inj hboth).2

end SentryUsb.Library
