import Mathlib

/-! # Maps as sorted entries

A map kept in key order, entry by entry. The operations are given on lists of entries, where what they do to a lookup
needs no order, and packed into a structure that carries the order.

* **`getEntry_putEntry`**, **`getEntry_dropEntry`** — what a write and a removal do to a lookup;
* **`SortedMap`** — entries in key order; **`SortedMap.mem_entries`** — its entries are its lookups;
* **`sortedSet`** — the elements of a list in order, each once. -/

namespace SentryUsb.Library

variable {κ α : Type*} [LinearOrder κ]

/-! ## Entries -/

/-- The value under a key. -/
@[grind =] def getEntry (k : κ) : List (κ × α) → Option α
  | [] => none
  | e :: l => if e.1 = k then some e.2 else getEntry k l

/-- Write a value under a key, in its place. -/
@[grind =] def putEntry (k : κ) (v : α) : List (κ × α) → List (κ × α)
  | [] => [(k, v)]
  | e :: l => if k < e.1 then (k, v) :: e :: l else if e.1 = k then (k, v) :: l else e :: putEntry k v l

/-- Remove a key. -/
def dropEntry (k : κ) (l : List (κ × α)) : List (κ × α) := l.filter fun e => decide (e.1 ≠ k)

@[simp] theorem getEntry_nil (k : κ) : getEntry k ([] : List (κ × α)) = none := rfl

theorem getEntry_putEntry (k k' : κ) (v : α) (l : List (κ × α)) :
    getEntry k' (putEntry k v l) = if k' = k then some v else getEntry k' l := by
  have hhead : ∀ rest : List (κ × α), getEntry k' ((k, v) :: rest) = if k' = k then some v else getEntry k' rest := by
    intro rest
    rw [getEntry]
    by_cases hkk : k' = k
    · rw [if_pos hkk, if_pos hkk.symm]
    · rw [if_neg hkk, if_neg (Ne.symm hkk)]
  induction l with
  | nil => exact hhead []
  | cons e l ih =>
    rw [putEntry]
    split
    · exact hhead _
    · split
      · rename_i hk
        rw [hhead, getEntry, hk]
        by_cases hkk : k' = k
        · rw [if_pos hkk, if_pos hkk]
        · rw [if_neg hkk, if_neg hkk, if_neg (Ne.symm hkk)]
      · rename_i hk
        show (if e.1 = k' then some e.2 else getEntry k' (putEntry k v l))
          = if k' = k then some v else if e.1 = k' then some e.2 else getEntry k' l
        rw [ih]
        by_cases hkk : k' = k
        · rw [if_pos hkk, if_pos hkk, hkk, if_neg hk]
        · rw [if_neg hkk, if_neg hkk]

theorem getEntry_dropEntry (k k' : κ) (l : List (κ × α)) :
    getEntry k' (dropEntry k l) = if k' = k then none else getEntry k' l := by
  unfold dropEntry
  induction l with
  | nil => simp
  | cons e l ih =>
    rw [List.filter_cons]
    by_cases hk : e.1 = k
    · rw [if_neg (by simp [hk]), ih, getEntry, hk]
      by_cases hkk : k' = k
      · rw [if_pos hkk, if_pos hkk]
      · rw [if_neg hkk, if_neg hkk, if_neg (Ne.symm hkk)]
    · rw [if_pos (by simp [hk]), getEntry, ih, getEntry]
      by_cases hkk : k' = k
      · rw [if_pos hkk, if_pos hkk, hkk, if_neg hk]
      · rw [if_neg hkk, if_neg hkk]

theorem getEntry_map {β : Type*} (f : α → β) (k : κ) (l : List (κ × α)) :
    getEntry k (l.map fun e => (e.1, f e.2)) = (getEntry k l).map f := by
  induction l with
  | nil => rfl
  | cons e l ih =>
    rw [List.map_cons, getEntry, getEntry, ih]
    split <;> rfl

/-- A lookup finds an entry. -/
theorem mem_of_getEntry {k : κ} {v : α} {l : List (κ × α)} (h : getEntry k l = some v) : (k, v) ∈ l := by
  induction l with
  | nil => simp at h
  | cons e l ih =>
    rw [getEntry] at h
    split at h
    · rename_i hk
      rw [← Option.some.inj h, ← hk]
      exact List.mem_cons_self
    · exact List.mem_cons_of_mem _ (ih h)

theorem getEntry_eq_none {k : κ} {l : List (κ × α)} : getEntry k l = none ↔ ∀ e ∈ l, e.1 ≠ k := by
  induction l with
  | nil => simp
  | cons e l ih =>
    rw [getEntry, List.forall_mem_cons, ← ih]
    by_cases hk : e.1 = k
    · simp [hk]
    · simp [hk]

theorem mem_putEntry {k : κ} {v : α} {l : List (κ × α)} {e : κ × α} (h : e ∈ putEntry k v l) :
    e = (k, v) ∨ e ∈ l := by
  induction l with
  | nil => exact Or.inl (List.mem_singleton.mp h)
  | cons e' l ih =>
    rw [putEntry] at h
    split at h
    · rcases List.mem_cons.mp h with rfl | h
      · exact Or.inl rfl
      · exact Or.inr h
    · split at h
      · rcases List.mem_cons.mp h with rfl | h
        · exact Or.inl rfl
        · exact Or.inr (List.mem_cons_of_mem _ h)
      · rcases List.mem_cons.mp h with rfl | h
        · exact Or.inr List.mem_cons_self
        · rcases ih h with rfl | h
          · exact Or.inl rfl
          · exact Or.inr (List.mem_cons_of_mem _ h)

/-- Writing keeps the order. -/
theorem sorted_putEntry {k : κ} {v : α} {l : List (κ × α)} (h : l.Pairwise fun a b => a.1 < b.1) :
    (putEntry k v l).Pairwise fun a b => a.1 < b.1 := by
  induction l with
  | nil => exact List.pairwise_singleton _ _
  | cons e l ih =>
    obtain ⟨hfirst, hrest⟩ := List.pairwise_cons.mp h
    rw [putEntry]
    split
    · rename_i hlt
      refine List.pairwise_cons.mpr ⟨fun e' he' => ?_, h⟩
      rcases List.mem_cons.mp he' with rfl | he'
      · exact hlt
      · exact lt_trans hlt (hfirst e' he')
    · rename_i hge
      split
      · rename_i hk
        refine List.pairwise_cons.mpr ⟨fun e' he' => ?_, hrest⟩
        exact hk ▸ hfirst e' he'
      · rename_i hne
        refine List.pairwise_cons.mpr ⟨fun e' he' => ?_, ih hrest⟩
        rcases mem_putEntry he' with rfl | he'
        · exact lt_of_le_of_ne (not_lt.mp hge) hne
        · exact hfirst e' he'

/-- A value written twice under a key is written once. -/
theorem putEntry_putEntry (k : κ) (v w : α) (l : List (κ × α)) : putEntry k w (putEntry k v l) = putEntry k w l := by
  induction l with
  | nil => simp [putEntry]
  | cons e l ih =>
    rw [putEntry, putEntry]
    by_cases hlt : k < e.1
    · rw [if_pos hlt, if_pos hlt, putEntry, if_neg (lt_irrefl k), if_pos rfl]
    · by_cases heq : e.1 = k
      · rw [if_neg hlt, if_neg hlt, if_pos heq, if_pos heq, putEntry, if_neg (lt_irrefl k), if_pos rfl]
      · rw [if_neg hlt, if_neg hlt, if_neg heq, if_neg heq, putEntry, if_neg hlt, if_neg heq, ih]

/-- Writing under a key, then changing every value. -/
theorem map_putEntry (f : α → α) (k : κ) (v : α) (l : List (κ × α)) :
    (putEntry k v l).map (fun e => (e.1, f e.2)) = putEntry k (f v) (l.map fun e => (e.1, f e.2)) := by
  induction l with
  | nil => rfl
  | cons e l ih =>
    rw [putEntry, List.map_cons, putEntry]
    by_cases hlt : k < e.1
    · rw [if_pos hlt, if_pos hlt]
      rfl
    · by_cases heq : e.1 = k
      · rw [if_neg hlt, if_neg hlt, if_pos heq, if_pos heq]
        rfl
      · rw [if_neg hlt, if_neg hlt, if_neg heq, if_neg heq, List.map_cons, ih]

/-- Removing a key, then changing every value. -/
theorem map_dropEntry (f : α → α) (k : κ) (l : List (κ × α)) :
    (dropEntry k l).map (fun e => (e.1, f e.2)) = dropEntry k (l.map fun e => (e.1, f e.2)) := by
  unfold dropEntry
  rw [List.filter_map]
  rfl

/-- Keeping, changing and dropping entries by their key, where no key comes twice. -/
theorem getEntry_filterMap {β : Type*} (f : κ → α → Option β) {l : List (κ × α)}
    (h : l.Pairwise fun a b => a.1 < b.1) (k : κ) :
    getEntry k (l.filterMap fun e => (f e.1 e.2).map fun v => (e.1, v)) = (getEntry k l).bind (f k) := by
  induction l with
  | nil => rfl
  | cons e l ih =>
    obtain ⟨hfirst, hrest⟩ := List.pairwise_cons.mp h
    rw [List.filterMap_cons, getEntry]
    by_cases hk : e.1 = k
    · rw [if_pos hk, Option.bind_some, ← hk]
      cases hf : f e.1 e.2 with
      | some v =>
        rw [Option.map_some]
        show (if e.1 = e.1 then some v else _) = some v
        rw [if_pos rfl]
      | none =>
        -- the key comes only once
        have hnone : getEntry e.1 l = none := getEntry_eq_none.mpr fun e' he' hk' =>
          absurd (hfirst e' he') (by rw [hk']; exact lt_irrefl _)
        rw [hk] at hnone ⊢
        rw [Option.map_none]
        show getEntry k _ = none
        rw [ih hrest, hnone]
        rfl
    · rw [if_neg hk, ← ih hrest]
      cases hf : f e.1 e.2 with
      | none => rfl
      | some v =>
        rw [Option.map_some]
        show (if e.1 = k then some v else _) = _
        rw [if_neg hk]

/-- A lookup finds every entry of a list in key order. -/
theorem getEntry_of_mem {l : List (κ × α)} (h : l.Pairwise fun a b => a.1 < b.1) {e : κ × α} (he : e ∈ l) :
    getEntry e.1 l = some e.2 := by
  induction l with
  | nil => exact nomatch he
  | cons d l ih =>
    obtain ⟨hfirst, hrest⟩ := List.pairwise_cons.mp h
    rw [getEntry]
    rcases List.mem_cons.mp he with rfl | he
    · rw [if_pos rfl]
    · rw [if_neg (ne_of_lt (hfirst _ he)), ih hrest he]

/-- **Lists in key order with the same lookups are the same.** -/
theorem entries_ext {l l' : List (κ × α)} (hl : l.Pairwise fun a b => a.1 < b.1) (hl' : l'.Pairwise fun a b => a.1 < b.1)
    (hget : ∀ k, getEntry k l = getEntry k l') : l = l' := by
  have hmem : ∀ e, e ∈ l ↔ e ∈ l' := by
    intro e
    constructor
    · intro he
      exact mem_of_getEntry ((hget e.1).symm.trans (getEntry_of_mem hl he))
    · intro he
      exact mem_of_getEntry ((hget e.1).trans (getEntry_of_mem hl' he))
  have hperm : l.Perm l' := by
    refine (List.perm_ext_iff_of_nodup ?_ ?_).mpr hmem
    · exact hl.imp fun hlt heq => absurd (heq ▸ hlt) (lt_irrefl _)
    · exact hl'.imp fun hlt heq => absurd (heq ▸ hlt) (lt_irrefl _)
  exact hperm.eq_of_pairwise (fun a b _ _ hab hba => absurd (lt_trans hab hba) (lt_irrefl _)) hl hl'

/-! ## Sorted sets -/

/-- The elements of a list in order, each once. -/
def sortedSet (l : List κ) : List κ := l.dedup.insertionSort (· ≤ ·)

@[simp] theorem mem_sortedSet {l : List κ} {a : κ} : a ∈ sortedSet l ↔ a ∈ l := by
  rw [sortedSet, List.mem_insertionSort, List.mem_dedup]

theorem pairwise_sortedSet (l : List κ) : (sortedSet l).Pairwise (· < ·) := by
  have hle : (sortedSet l).Pairwise (· ≤ ·) := List.pairwise_insertionSort _ _
  have hnodup : (sortedSet l).Nodup := (List.perm_insertionSort _ _).nodup_iff.mpr (List.nodup_dedup l)
  exact hle.imp₂ (fun _ _ hle hne => lt_of_le_of_ne hle hne) hnodup

/-! ## Sorted maps -/

/-- A map: entries in key order, no key twice. -/
structure SortedMap (κ α : Type*) [LinearOrder κ] where
  entries : List (κ × α)
  sorted : entries.Pairwise fun a b => a.1 < b.1

namespace SortedMap

/-- The map without entries. -/
def empty : SortedMap κ α := ⟨[], List.Pairwise.nil⟩

def get (m : SortedMap κ α) (k : κ) : Option α := getEntry k m.entries

def insert (m : SortedMap κ α) (k : κ) (v : α) : SortedMap κ α := ⟨putEntry k v m.entries, sorted_putEntry m.sorted⟩

@[simp] theorem get_empty (k : κ) : (empty : SortedMap κ α).get k = none := rfl

theorem get_insert (m : SortedMap κ α) (k k' : κ) (v : α) :
    (m.insert k v).get k' = if k' = k then some v else m.get k' := getEntry_putEntry k k' v m.entries

@[simp] theorem get_insert_self (m : SortedMap κ α) (k : κ) (v : α) : (m.insert k v).get k = some v := by
  rw [get_insert, if_pos rfl]

/-- Remove a key. -/
def remove (m : SortedMap κ α) (k : κ) : SortedMap κ α := ⟨dropEntry k m.entries, m.sorted.filter _⟩

theorem get_remove (m : SortedMap κ α) (k k' : κ) : (m.remove k).get k' = if k' = k then none else m.get k' :=
  getEntry_dropEntry k k' m.entries

/-- Change every value. -/
def mapValues (m : SortedMap κ α) (f : α → α) : SortedMap κ α :=
  ⟨m.entries.map fun e => (e.1, f e.2), List.pairwise_map.mpr m.sorted⟩

theorem get_mapValues (m : SortedMap κ α) (f : α → α) (k : κ) : (m.mapValues f).get k = (m.get k).map f :=
  getEntry_map f k m.entries

/-- **The entries of a map are its lookups.** -/
theorem mem_entries {m : SortedMap κ α} {k : κ} {v : α} : (k, v) ∈ m.entries ↔ m.get k = some v :=
  ⟨fun h => getEntry_of_mem m.sorted h, mem_of_getEntry⟩

/-- The entries whose value meets a condition. -/
def filterValues (m : SortedMap κ α) (p : α → Bool) : SortedMap κ α :=
  ⟨m.entries.filter fun e => p e.2, m.sorted.filter _⟩

theorem get_filterValues_eq_some {m : SortedMap κ α} {p : α → Bool} {k : κ} {v : α} :
    (m.filterValues p).get k = some v ↔ m.get k = some v ∧ p v = true := by
  rw [← mem_entries, ← mem_entries]
  exact List.mem_filter

/-- Change the values, and drop those without a new one. -/
def filterMapValues {β : Type*} (m : SortedMap κ α) (f : α → Option β) : SortedMap κ β :=
  ⟨m.entries.filterMap fun e => (f e.2).map fun v => (e.1, v), by
    refine List.Pairwise.filterMap _ (fun a a' hlt b hb b' hb' => ?_) m.sorted
    obtain ⟨v, -, rfl⟩ := Option.map_eq_some_iff.mp hb
    obtain ⟨v', -, rfl⟩ := Option.map_eq_some_iff.mp hb'
    exact hlt⟩

theorem get_filterMapValues {β : Type*} (m : SortedMap κ α) (f : α → Option β) (k : κ) :
    (m.filterMapValues f).get k = (m.get k).bind f := getEntry_filterMap (fun _ => f) m.sorted k

/-- Entries written one by one, no key twice: each is there, and the rest is as before. -/
theorem get_foldl_insert {l : List (κ × α)} (h : l.Pairwise fun a b => a.1 < b.1) (m : SortedMap κ α) (k : κ) :
    (l.foldl (fun m e => m.insert e.1 e.2) m).get k = (getEntry k l).or (m.get k) := by
  induction l generalizing m with
  | nil => rfl
  | cons e l ih =>
    obtain ⟨hfirst, hrest⟩ := List.pairwise_cons.mp h
    rw [List.foldl_cons, ih hrest, getEntry, get_insert]
    by_cases hk : e.1 = k
    · -- the key comes once
      have hnone : getEntry k l = none := getEntry_eq_none.mpr fun e' he' hk' =>
        absurd (hfirst e' he') (by rw [hk, hk']; exact lt_irrefl k)
      rw [if_pos hk, hnone, if_pos hk.symm]
      rfl
    · rw [if_neg hk, if_neg (Ne.symm hk)]

/-- The last key. -/
def lastKey (m : SortedMap κ α) : Option κ := m.entries.getLast?.map Prod.fst

/-- **The last key** has a value, and no later key has one. -/
theorem lastKey_eq_some {m : SortedMap κ α} {k : κ} :
    m.lastKey = some k ↔ (m.get k).isSome = true ∧ ∀ k', k < k' → m.get k' = none := by
  have hlast : ∀ {entries : List (κ × α)} {e : κ × α}, entries.Pairwise (fun a b => a.1 < b.1) →
      entries.getLast? = some e → ∀ e' ∈ entries, e'.1 ≤ e.1 := by
    intro entries e hsorted hget e' he'
    obtain ⟨before, rfl⟩ := List.getLast?_eq_some_iff.mp hget
    rcases List.mem_append.mp he' with hbefore | hsame
    · exact ((List.pairwise_append.mp hsorted).2.2 e' hbefore e (List.mem_singleton_self e)).le
    · rw [List.mem_singleton.mp hsame]
  rw [lastKey, Option.map_eq_some_iff]
  constructor
  · rintro ⟨e, he, rfl⟩
    refine ⟨Option.isSome_iff_exists.mpr ⟨e.2, mem_entries.mp (List.mem_of_getLast? he)⟩, fun k' hk' => ?_⟩
    by_contra hsome
    obtain ⟨v, hv⟩ := Option.ne_none_iff_exists'.mp hsome
    exact absurd (hlast m.sorted he (k', v) (mem_entries.mpr hv)) (not_le.mpr hk')
  · rintro ⟨hsome, hlater⟩
    obtain ⟨v, hv⟩ := Option.isSome_iff_exists.mp hsome
    have hmem := mem_entries.mpr hv
    cases hget : m.entries.getLast? with
    | none =>
      rw [List.getLast?_eq_none_iff.mp hget] at hmem
      exact nomatch hmem
    | some e =>
      refine ⟨e, rfl, le_antisymm ?_ (hlast m.sorted hget (k, v) hmem)⟩
      by_contra hlt
      have hnone := hlater e.1 (not_le.mp hlt)
      rw [mem_entries.mp (List.mem_of_getLast? hget)] at hnone
      exact nomatch hnone

end SortedMap

end SentryUsb.Library
