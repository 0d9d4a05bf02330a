import SentryUsb.Library.SortedMap

/-! # Directory trees

A tree of directories with values at its leaves, read and changed along paths.

* **`FileTree.lookup`**, **`FileTree.leafAt`** — what stands at a path;
* **`FileTree.alter`** — change what stands at a path, in a directory that is there; **`FileTree.lookup_alter`**,
  **`FileTree.leafAt_alter`** — what is found afterwards;
* **`FileTree.mkdirs`** — the directories along a path; **`FileTree.leafAt_mkdirs`** — no leaf changes;
* **`FileTree.leaves`** — the leaves a walk of bounded depth visits; **`FileTree.mem_leaves`**. -/

namespace SentryUsb.Library

/-- A leaf, or a directory of named trees. -/
inductive FileTree (κ α : Type) where
  | leaf (a : α)
  | dir (entries : List (κ × FileTree κ α))

namespace FileTree

variable {κ α : Type} [LinearOrder κ]

/-- The value of a leaf. -/
def leaf? : FileTree κ α → Option α
  | .leaf a => some a
  | .dir _ => none

/-- What stands at a path. -/
def lookup : List κ → FileTree κ α → Option (FileTree κ α)
  | [], t => some t
  | _ :: _, .leaf _ => none
  | n :: p, .dir es => (getEntry n es).bind (lookup p)

/-- The leaf at a path. -/
def leafAt (p : List κ) (t : FileTree κ α) : Option α := (lookup p t).bind leaf?

@[simp] theorem lookup_nil (t : FileTree κ α) : lookup [] t = some t := by
  cases t <;> rfl

@[simp] theorem lookup_cons_leaf (n : κ) (p : List κ) (a : α) : lookup (n :: p) (.leaf a) = none := rfl

theorem lookup_cons_dir (n : κ) (p : List κ) (es : List (κ × FileTree κ α)) :
    lookup (n :: p) (.dir es) = (getEntry n es).bind (lookup p) := rfl

/-- A path is read from its first part on. -/
theorem lookup_append (p q : List κ) (t : FileTree κ α) : lookup (p ++ q) t = (lookup p t).bind (lookup q) := by
  induction p generalizing t with
  | nil => rw [List.nil_append, lookup_nil, Option.bind_some]
  | cons n p ih =>
    cases t with
    | leaf a => rfl
    | dir es =>
      rw [List.cons_append, lookup_cons_dir, lookup_cons_dir, Option.bind_assoc]
      congr 1
      funext c
      exact ih c

/-- Below a leaf there is nothing. -/
theorem lookup_append_of_leafAt {p q : List κ} {t : FileTree κ α} {a : α} (h : leafAt p t = some a) (hq : q ≠ []) :
    lookup (p ++ q) t = none := by
  obtain ⟨c, hc, ha⟩ := Option.bind_eq_some_iff.mp h
  rw [lookup_append, hc, Option.bind_some]
  cases c with
  | dir es => simp [leaf?] at ha
  | leaf b =>
    cases q with
    | nil => exact absurd rfl hq
    | cons n q => rfl

/-- Two leaves stand at the same path, or neither above the other. -/
theorem eq_of_leaves {p q : List κ} {t : FileTree κ α} {a b : α} (hp : leafAt p t = some a) (hq : leafAt q t = some b)
    (h : p <+: q) : q = p := by
  obtain ⟨r, rfl⟩ := h
  by_cases hr : r = []
  · rw [hr, List.append_nil]
  · rw [leafAt, lookup_append_of_leafAt hp hr] at hq
    simp at hq

/-! ## One change -/

/-- Change what stands at a path; the directory that holds it must be there. -/
def alter (f : Option (FileTree κ α) → Option (Option (FileTree κ α))) :
    List κ → FileTree κ α → Option (FileTree κ α)
  | [], _ => none
  | _ :: _, .leaf _ => none
  | [n], .dir es =>
    match f (getEntry n es) with
    | none => none
    | some none => some (.dir (dropEntry n es))
    | some (some c) => some (.dir (putEntry n c es))
  | n :: m :: p, .dir es =>
    (getEntry n es).bind fun c => (alter f (m :: p) c).map fun c => .dir (putEntry n c es)

/-- A new leaf, where nothing stands. -/
def putLeaf (p : List κ) (a : α) (t : FileTree κ α) : Option (FileTree κ α) :=
  alter (fun c => if c.isSome then none else some (some (.leaf a))) p t

/-- Remove a leaf. -/
def dropLeaf (p : List κ) (t : FileTree κ α) : Option (FileTree κ α) :=
  alter (fun c => if (c.bind leaf?).isSome then some none else none) p t

section

variable {f : Option (FileTree κ α) → Option (Option (FileTree κ α))}

/-- **What is found after a change**: what it put at its path, and anywhere that does not meet the path what was there. -/
theorem lookup_alter {p : List κ} {t u : FileTree κ α} (h : alter f p t = some u) :
    f (lookup p t) = some (lookup p u) ∧ ∀ q, ¬ p <+: q → ¬ q <+: p → lookup q u = lookup q t := by
  induction p generalizing t u with
  | nil => simp [alter] at h
  | cons n p ih =>
    cases t with
    | leaf a => cases p <;> simp [alter] at h
    | dir es =>
      cases p with
      | nil =>
        have hat : ∀ es : List (κ × FileTree κ α), lookup [n] (.dir es) = getEntry n es := by
          intro es
          rw [lookup_cons_dir]
          cases getEntry n es <;> simp
        have hoff : ∀ {es' : List (κ × FileTree κ α)}, (∀ m, m ≠ n → getEntry m es' = getEntry m es) →
            ∀ q, ¬ [n] <+: q → ¬ q <+: [n] → lookup q (.dir es') = lookup q (.dir es) := by
          intro es' hes q hnq hqn
          cases q with
          | nil => exact absurd List.nil_prefix hqn
          | cons m q =>
            rw [lookup_cons_dir, lookup_cons_dir, hes m]
            rintro rfl
            exact hnq ⟨q, rfl⟩
        rw [hat]
        cases hf : f (getEntry n es) with
        | none => simp [alter, hf] at h
        | some o =>
          cases o with
          | none =>
            obtain rfl : FileTree.dir (dropEntry n es) = u := by simpa [alter, hf] using h
            refine ⟨?_, hoff fun m hm => ?_⟩
            · rw [hat, getEntry_dropEntry, if_pos rfl]
            · rw [getEntry_dropEntry, if_neg hm]
          | some c =>
            obtain rfl : FileTree.dir (putEntry n c es) = u := by simpa [alter, hf] using h
            refine ⟨?_, hoff fun m hm => ?_⟩
            · rw [hat, getEntry_putEntry, if_pos rfl]
            · rw [getEntry_putEntry, if_neg hm]
      | cons m p =>
        rw [alter] at h
        obtain ⟨c, hc, h⟩ := Option.bind_eq_some_iff.mp h
        obtain ⟨c', hc', rfl⟩ := Option.map_eq_some_iff.mp h
        obtain ⟨hat, hoff⟩ := ih hc'
        refine ⟨?_, fun q hpq hqp => ?_⟩
        · rw [lookup_cons_dir, hc, lookup_cons_dir, getEntry_putEntry, if_pos rfl]
          exact hat
        · cases q with
          | nil => exact absurd List.nil_prefix hqp
          | cons k q =>
            rw [lookup_cons_dir, lookup_cons_dir, getEntry_putEntry]
            by_cases hk : k = n
            · subst hk
              rw [if_pos rfl, hc, Option.bind_some, Option.bind_some]
              refine hoff q (fun hh => hpq ?_) (fun hh => hqp ?_)
              · exact List.cons_prefix_cons.mpr ⟨rfl, hh⟩
              · exact List.cons_prefix_cons.mpr ⟨rfl, hh⟩
            · rw [if_neg hk]

/-- Above a change there are directories, before and after. -/
theorem dir_of_alter {p q : List κ} {t u : FileTree κ α} (h : alter f p t = some u) (hqp : q <+: p) (hne : q ≠ p) :
    (∃ es, lookup q t = some (.dir es)) ∧ ∃ es, lookup q u = some (.dir es) := by
  induction p generalizing t u q with
  | nil => simp [alter] at h
  | cons n p ih =>
    cases t with
    | leaf a => cases p <;> simp [alter] at h
    | dir es =>
      cases q with
      | nil =>
        refine ⟨⟨es, lookup_nil _⟩, ?_⟩
        cases p with
        | nil =>
          cases hf : f (getEntry n es) with
          | none => simp [alter, hf] at h
          | some o =>
            cases o with
            | none => exact ⟨_, by rw [lookup_nil]; simp [alter, hf] at h; rw [← h]⟩
            | some c => exact ⟨_, by rw [lookup_nil]; simp [alter, hf] at h; rw [← h]⟩
        | cons m p =>
          rw [alter] at h
          obtain ⟨c, -, h⟩ := Option.bind_eq_some_iff.mp h
          obtain ⟨c', -, rfl⟩ := Option.map_eq_some_iff.mp h
          exact ⟨_, lookup_nil _⟩
      | cons k q =>
        obtain ⟨rfl, hq⟩ := List.cons_prefix_cons.mp hqp
        have hne' : q ≠ p := fun hh => hne (by rw [hh])
        cases p with
        | nil => exact absurd (List.prefix_nil.mp hq) hne'
        | cons m p =>
          rw [alter] at h
          obtain ⟨c, hc, h⟩ := Option.bind_eq_some_iff.mp h
          obtain ⟨c', hc', rfl⟩ := Option.map_eq_some_iff.mp h
          obtain ⟨⟨es₁, h₁⟩, es₂, h₂⟩ := ih hc' hq hne'
          refine ⟨⟨es₁, ?_⟩, es₂, ?_⟩
          · rw [lookup_cons_dir, hc]
            exact h₁
          · rw [lookup_cons_dir, getEntry_putEntry, if_pos rfl]
            exact h₂

/-- **The leaves after a change**: away from its path they stay. -/
theorem leafAt_alter {p q : List κ} {t u : FileTree κ α} (h : alter f p t = some u) (hpq : ¬ p <+: q) :
    leafAt q u = leafAt q t := by
  by_cases hqp : q <+: p
  · -- above the path there are directories
    have hne : q ≠ p := fun hh => hpq (by rw [hh])
    obtain ⟨⟨es₁, h₁⟩, es₂, h₂⟩ := dir_of_alter h hqp hne
    rw [leafAt, leafAt, h₁, h₂]
    rfl
  · rw [leafAt, leafAt, (lookup_alter h).2 q hpq hqp]

/-- A change fails only where there is no directory to change, or where the change itself does. -/
theorem exists_alter {p : List κ} {n : κ} {t : FileTree κ α} {es : List (κ × FileTree κ α)}
    (hdir : lookup p t = some (.dir es)) (hf : (f (getEntry n es)).isSome) : ∃ u, alter f (p ++ [n]) t = some u := by
  induction p generalizing t with
  | nil =>
    obtain rfl : t = .dir es := Option.some.inj ((lookup_nil t).symm.trans hdir)
    obtain ⟨o, ho⟩ := Option.isSome_iff_exists.mp hf
    cases o with
    | none => exact ⟨_, by rw [List.nil_append, alter, ho]⟩
    | some c => exact ⟨_, by rw [List.nil_append, alter, ho]⟩
  | cons m p ih =>
    cases t with
    | leaf a => simp at hdir
    | dir es' =>
      rw [lookup_cons_dir] at hdir
      obtain ⟨c, hc, hdir⟩ := Option.bind_eq_some_iff.mp hdir
      obtain ⟨u, hu⟩ := ih hdir
      cases p with
      | nil =>
        rw [List.nil_append] at hu
        exact ⟨_, by rw [List.cons_append, List.nil_append, alter, hc, Option.bind_some, hu]; rfl⟩
      | cons k p =>
        rw [List.cons_append] at hu
        exact ⟨_, by rw [List.cons_append, List.cons_append, alter, hc, Option.bind_some, hu]; rfl⟩

end

/-- A new leaf is there, and no other leaf changes. -/
theorem leafAt_putLeaf {p q : List κ} {a : α} {t u : FileTree κ α} (h : putLeaf p a t = some u) :
    leafAt q u = if q = p then some a else leafAt q t := by
  obtain ⟨hat, -⟩ := lookup_alter h
  have hnone : lookup p t = none := by
    by_contra hsome
    rw [if_pos (Option.isSome_iff_ne_none.mpr hsome)] at hat
    simp at hat
  rw [hnone] at hat
  have hleaf : lookup p u = some (.leaf a) := (Option.some.inj hat).symm
  by_cases hpq : p <+: q
  · obtain ⟨r, rfl⟩ := hpq
    cases r with
    | nil =>
      rw [List.append_nil, if_pos rfl, leafAt, hleaf]
      rfl
    | cons n r =>
      have hne : p ++ n :: r ≠ p := by simp
      rw [if_neg hne, leafAt, leafAt, lookup_append, hleaf, lookup_append, hnone]
      rfl
  · have hne : q ≠ p := fun hh => hpq (by rw [hh])
    rw [if_neg hne, leafAt_alter h hpq]

/-! ## Directories along a path -/

/-- The directories along a path, those that are missing made. -/
def mkdirs : List κ → FileTree κ α → Option (FileTree κ α)
  | [], .leaf _ => none
  | [], .dir es => some (.dir es)
  | _ :: _, .leaf _ => none
  | n :: p, .dir es => (mkdirs p ((getEntry n es).getD (.dir []))).map fun c => .dir (putEntry n c es)

/-- **Directories made along a path**: they are all there, and what does not lie on the path stays. -/
theorem lookup_mkdirs {p : List κ} {t u : FileTree κ α} (h : mkdirs p t = some u) :
    (∀ q, q <+: p → leafAt q t = none ∧ ∃ es, lookup q u = some (.dir es))
      ∧ ∀ q, ¬ q <+: p → lookup q u = lookup q t := by
  induction p generalizing t u with
  | nil =>
    cases t with
    | leaf a => simp [mkdirs] at h
    | dir es =>
      obtain rfl : FileTree.dir es = u := Option.some.inj h
      refine ⟨fun q hq => ?_, fun q _ => rfl⟩
      rw [List.prefix_nil.mp hq]
      exact ⟨rfl, es, rfl⟩
  | cons n p ih =>
    cases t with
    | leaf a => simp [mkdirs] at h
    | dir es =>
      rw [mkdirs] at h
      obtain ⟨c, hc, rfl⟩ := Option.map_eq_some_iff.mp h
      obtain ⟨hon, hoff⟩ := ih hc
      -- an empty directory stands in for a missing one: nothing is found in either
      have hgetD : ∀ m q, lookup (m :: q) ((getEntry n es).getD (.dir [])) = (getEntry n es).bind (lookup (m :: q)) := by
        intro m q
        cases getEntry n es <;> rfl
      have hleafD : ∀ q, leafAt q ((getEntry n es).getD (.dir [])) = ((getEntry n es).bind (lookup q)).bind leaf? := by
        intro q
        cases q with
        | cons m q => rw [leafAt, hgetD]
        | nil => cases getEntry n es <;> simp [leafAt, leaf?]
      constructor
      · intro q hq
        cases q with
        | nil => exact ⟨rfl, _, rfl⟩
        | cons k q =>
          obtain ⟨rfl, hsub⟩ := List.cons_prefix_cons.mp hq
          obtain ⟨hnone, es', hes'⟩ := hon q hsub
          refine ⟨?_, es', ?_⟩
          · rw [leafAt, lookup_cons_dir, ← hleafD]
            exact hnone
          · rw [lookup_cons_dir, getEntry_putEntry, if_pos rfl]
            exact hes'
      · intro q hq
        cases q with
        | nil => exact absurd List.nil_prefix hq
        | cons k q =>
          rw [lookup_cons_dir, lookup_cons_dir, getEntry_putEntry]
          by_cases hk : k = n
          · subst hk
            have hq' : ¬ q <+: p := fun hh => hq (List.cons_prefix_cons.mpr ⟨rfl, hh⟩)
            cases q with
            | nil => exact absurd List.nil_prefix hq'
            | cons m q =>
              rw [if_pos rfl, Option.bind_some, hoff _ hq', hgetD]
          · rw [if_neg hk]

/-- Making directories changes no leaf. -/
theorem leafAt_mkdirs {p q : List κ} {t u : FileTree κ α} (h : mkdirs p t = some u) : leafAt q u = leafAt q t := by
  obtain ⟨hon, hoff⟩ := lookup_mkdirs h
  by_cases hq : q <+: p
  · obtain ⟨hnone, es, hes⟩ := hon q hq
    rw [hnone, leafAt, hes]
    rfl
  · rw [leafAt, leafAt, hoff q hq]

/-- Directories are made along every path that no leaf blocks. -/
theorem exists_mkdirs {p : List κ} {t : FileTree κ α} (h : ∀ q, q <+: p → leafAt q t = none) :
    ∃ u, mkdirs p t = some u := by
  induction p generalizing t with
  | nil =>
    cases t with
    | leaf a => exact absurd (h [] List.nil_prefix) (by simp [leafAt, leaf?])
    | dir es => exact ⟨_, rfl⟩
  | cons n p ih =>
    cases t with
    | leaf a => exact absurd (h [] List.nil_prefix) (by simp [leafAt, leaf?])
    | dir es =>
      have hsub : ∀ q, q <+: p → leafAt q ((getEntry n es).getD (.dir [])) = none := by
        intro q hq
        have hnq := h (n :: q) (List.cons_prefix_cons.mpr ⟨rfl, hq⟩)
        rw [leafAt, lookup_cons_dir] at hnq
        cases hc : getEntry n es with
        | none =>
          cases q with
          | nil => rfl
          | cons m q => rfl
        | some c =>
          rw [hc] at hnq
          exact hnq
      obtain ⟨c, hc⟩ := ih hsub
      exact ⟨_, by rw [mkdirs, hc]; rfl⟩

/-! ## Walks -/

/-- Every directory lists each name once, in order. -/
def Ordered (t : FileTree κ α) : Prop :=
  ∀ p es, lookup p t = some (.dir es) → es.Pairwise fun a b => a.1 < b.1

theorem ordered_leaf (a : α) : Ordered (.leaf a : FileTree κ α) := by
  intro p es h
  cases p with
  | nil => simp at h
  | cons n p => simp at h

theorem Ordered.entry {n : κ} {c : FileTree κ α} {es : List (κ × FileTree κ α)} (h : Ordered (.dir es))
    (hc : (n, c) ∈ es) : getEntry n es = some c ∧ Ordered c := by
  have hget : getEntry n es = some c := (SortedMap.mem_entries (m := ⟨es, h [] es rfl⟩)).mp hc
  refine ⟨hget, fun p es' hes' => h (n :: p) es' ?_⟩
  rw [lookup_cons_dir, hget]
  exact hes'

/-- An ordered directory is ordered itself, and so is everything in it. -/
theorem ordered_dir {es : List (κ × FileTree κ α)} :
    Ordered (.dir es) ↔ es.Pairwise (fun a b => a.1 < b.1) ∧ ∀ e ∈ es, Ordered e.2 := by
  constructor
  · intro h
    exact ⟨h [] es rfl, fun e he => (h.entry (c := e.2) he).2⟩
  · rintro ⟨hsorted, hsub⟩ p es' h
    cases p with
    | nil =>
      obtain rfl : es = es' := by simpa using h
      exact hsorted
    | cons n p =>
      rw [lookup_cons_dir] at h
      obtain ⟨c, hc, h⟩ := Option.bind_eq_some_iff.mp h
      exact hsub (n, c) (mem_of_getEntry hc) p es' h

theorem Ordered.put {n : κ} {c : FileTree κ α} {es : List (κ × FileTree κ α)} (h : Ordered (.dir es)) (hc : Ordered c) :
    Ordered (.dir (putEntry n c es)) := by
  obtain ⟨hsorted, hsub⟩ := ordered_dir.mp h
  refine ordered_dir.mpr ⟨sorted_putEntry hsorted, fun e he => ?_⟩
  rcases mem_putEntry he with rfl | he
  · exact hc
  · exact hsub e he

/-- A change keeps the order when what it puts there has it. -/
theorem Ordered.alter {f : Option (FileTree κ α) → Option (Option (FileTree κ α))} {p : List κ} {t u : FileTree κ α}
    (h : Ordered t) (hu : FileTree.alter f p t = some u) (hf : ∀ o c, f o = some (some c) → Ordered c) : Ordered u := by
  induction p generalizing t u with
  | nil => simp [FileTree.alter] at hu
  | cons n p ih =>
    cases t with
    | leaf a => cases p <;> simp [FileTree.alter] at hu
    | dir es =>
      cases p with
      | nil =>
        cases hfn : f (getEntry n es) with
        | none => simp [FileTree.alter, hfn] at hu
        | some o =>
          cases o with
          | none =>
            obtain rfl : FileTree.dir (dropEntry n es) = u := by simpa [FileTree.alter, hfn] using hu
            obtain ⟨hsorted, hsub⟩ := ordered_dir.mp h
            exact ordered_dir.mpr ⟨hsorted.filter _, fun e he => hsub e (List.mem_of_mem_filter he)⟩
          | some c =>
            obtain rfl : FileTree.dir (putEntry n c es) = u := by simpa [FileTree.alter, hfn] using hu
            exact h.put (hf _ _ hfn)
      | cons m p =>
        rw [FileTree.alter] at hu
        obtain ⟨c, hc, hu⟩ := Option.bind_eq_some_iff.mp hu
        obtain ⟨c', hc', rfl⟩ := Option.map_eq_some_iff.mp hu
        exact h.put (ih (h.entry (mem_of_getEntry hc)).2 hc')

theorem Ordered.putLeaf {p : List κ} {a : α} {t u : FileTree κ α} (h : Ordered t)
    (hu : FileTree.putLeaf p a t = some u) : Ordered u := by
  refine h.alter hu fun o c hc => ?_
  split at hc
  · simp at hc
  · rw [← Option.some.inj (Option.some.inj hc)]
    exact ordered_leaf a

theorem Ordered.mkdirs {p : List κ} {t u : FileTree κ α} (h : Ordered t) (hu : FileTree.mkdirs p t = some u) :
    Ordered u := by
  induction p generalizing t u with
  | nil =>
    cases t with
    | leaf a => simp [FileTree.mkdirs] at hu
    | dir es =>
      obtain rfl : FileTree.dir es = u := Option.some.inj hu
      exact h
  | cons n p ih =>
    cases t with
    | leaf a => simp [FileTree.mkdirs] at hu
    | dir es =>
      rw [FileTree.mkdirs] at hu
      obtain ⟨c, hc, rfl⟩ := Option.map_eq_some_iff.mp hu
      refine h.put (ih ?_ hc)
      cases hget : getEntry n es with
      | none => exact ordered_dir.mpr ⟨List.Pairwise.nil, fun e he => absurd he List.not_mem_nil⟩
      | some d => exact (h.entry (mem_of_getEntry hget)).2

/-- The leaves a walk visits that goes at most `k` directories deep, with their paths from `here`. -/
def leaves : Nat → List κ → FileTree κ α → List (List κ × α)
  | _, _, .leaf _ => []
  | 0, _, .dir _ => []
  | k + 1, here, .dir es => es.flatMap fun e =>
    match e.2 with
    | .leaf a => [(here ++ [e.1], a)]
    | .dir sub => leaves k (here ++ [e.1]) (.dir sub)

/-- **A walk visits the leaves that are not too deep, each at its path.** -/
theorem mem_leaves {k : Nat} {here : List κ} {t : FileTree κ α} (h : Ordered t) {q : List κ} {a : α} :
    (q, a) ∈ leaves k here t ↔ ∃ p, q = here ++ p ∧ p ≠ [] ∧ p.length ≤ k ∧ leafAt p t = some a := by
  induction k generalizing here t with
  | zero =>
    have hempty : leaves 0 here t = [] := by cases t <;> rfl
    rw [hempty]
    constructor
    · intro hmem
      exact absurd hmem List.not_mem_nil
    · rintro ⟨p, -, hne, hlen, -⟩
      exact absurd (List.length_eq_zero_iff.mp (Nat.le_zero.mp hlen)) hne
  | succ k ih =>
    cases t with
    | leaf b =>
      constructor
      · intro hmem
        exact absurd hmem List.not_mem_nil
      · rintro ⟨p, -, hne, -, hp⟩
        cases p with
        | nil => exact absurd rfl hne
        | cons n p => simp [leafAt] at hp
    | dir es =>
      rw [leaves, List.mem_flatMap]
      constructor
      · rintro ⟨⟨n, c⟩, hc, hmem⟩
        obtain ⟨hget, hsub⟩ := h.entry hc
        cases c with
        | leaf b =>
          obtain ⟨rfl, rfl⟩ := Prod.mk.inj (List.mem_singleton.mp hmem)
          refine ⟨[n], rfl, by simp, by simp, ?_⟩
          rw [leafAt, lookup_cons_dir, hget]
          rfl
        | dir sub =>
          obtain ⟨p, rfl, hne, hlen, hp⟩ := (ih hsub).mp hmem
          refine ⟨n :: p, by simp, by simp, by simpa using hlen, ?_⟩
          rw [leafAt, lookup_cons_dir, hget]
          exact hp
      · rintro ⟨p, rfl, hne, hlen, hp⟩
        cases p with
        | nil => exact absurd rfl hne
        | cons n p =>
          rw [leafAt, lookup_cons_dir] at hp
          obtain ⟨c', hbind, hleaf⟩ := Option.bind_eq_some_iff.mp hp
          obtain ⟨c, hget, hlookup⟩ := Option.bind_eq_some_iff.mp hbind
          refine ⟨(n, c), mem_of_getEntry hget, ?_⟩
          obtain ⟨-, hsub⟩ := h.entry (mem_of_getEntry hget)
          have hat : leafAt p c = some a := by rw [leafAt, hlookup]; exact hleaf
          cases c with
          | leaf b =>
            cases p with
            | cons m p => simp [leafAt] at hat
            | nil =>
              obtain rfl : b = a := by simpa [leafAt, leaf?] using hat
              exact List.mem_singleton.mpr rfl
          | dir sub =>
            refine (ih hsub).mpr ⟨p, by simp, ?_, by simpa using hlen, hat⟩
            rintro rfl
            simp [leafAt, leaf?] at hat

/-- A walk visits each leaf once. -/
theorem pairwise_leaves {k : Nat} {here : List κ} {t : FileTree κ α} (h : Ordered t) :
    (leaves k here t).Pairwise fun a b => a.1 ≠ b.1 := by
  induction k generalizing here t with
  | zero =>
    have hempty : leaves 0 here t = [] := by cases t <;> rfl
    rw [hempty]
    exact List.Pairwise.nil
  | succ k ih =>
    cases t with
    | leaf b => exact List.Pairwise.nil
    | dir es =>
      obtain ⟨hsorted, hsub⟩ := ordered_dir.mp h
      -- what is visited through an entry lies below its name
      have hbelow : ∀ e ∈ es, ∀ x, x ∈ leaves (k + 1) here (.dir [e]) → here ++ [e.1] <+: x.1 := by
        intro e he x hx
        have hone : Ordered (FileTree.dir [e]) :=
          ordered_dir.mpr ⟨List.pairwise_singleton _ _, fun e' he' => by
            rw [List.mem_singleton.mp he']
            exact hsub e he⟩
        obtain ⟨p, hp, hne, -, hleaf⟩ := (mem_leaves hone).mp (show (x.1, x.2) ∈ _ from hx)
        cases p with
        | nil => exact absurd rfl hne
        | cons n p =>
          rw [leafAt, lookup_cons_dir, getEntry] at hleaf
          by_cases hn : e.1 = n
          · rw [hp, hn]
            exact ⟨p, by simp⟩
          · rw [if_neg hn] at hleaf
            simp at hleaf
      rw [leaves, List.pairwise_flatMap]
      constructor
      · intro e he
        obtain ⟨n, c⟩ := e
        cases c with
        | leaf b => exact List.pairwise_singleton _ _
        | dir sub => exact ih (hsub _ he)
      · refine hsorted.imp_of_mem fun {a b} ha hb hlt x hx y hy hxy => ?_
        have hx := hbelow a ha x (by rw [leaves, List.flatMap_singleton]; exact hx)
        have hy := hbelow b hb y (by rw [leaves, List.flatMap_singleton]; exact hy)
        rw [hxy] at hx
        have heq := (List.prefix_of_prefix_length_le hx hy (by simp)).eq_of_length (by simp)
        rw [List.append_cancel_left_eq, List.cons.injEq] at heq
        rw [heq.1] at hlt
        exact absurd hlt (lt_irrefl _)

end FileTree

end SentryUsb.Library
