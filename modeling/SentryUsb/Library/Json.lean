import SentryUsb.Library.SortedMap

/-! # JSON values and paths of fields

Values over a type of texts and a type of numbers. An object is its entries in key order, which a value built from
sorted maps keeps at every depth. A path names a field inside nested objects.

* **`Json.Sorted`** — the entries of every object stand in key order;
* **`Json.getPath`**, **`Json.setFields`** — read the value at a path, and write or remove it, making the objects on the
  way;
* **`Json.getPath_setFields_below`**, **`Json.getPath_setFields_apart`**, **`Json.getPath_setFields_above`** — what a
  write does at and below its path, beside it, and above it. -/

namespace SentryUsb.Library

/-- A JSON value. -/
inductive Json (τ N : Type) where
  | null
  | bool (b : Bool)
  | number (n : N)
  | string (t : τ)
  | array (items : List (Json τ N))
  /-- An object, as its entries. -/
  | object (fields : List (τ × Json τ N))

namespace Json

variable {τ N : Type}

/-! ## Equality -/

section Equality

variable [DecidableEq τ] [DecidableEq N]

mutual

/-- Whether two values are the same. -/
def same : Json τ N → Json τ N → Bool
  | null, null => true
  | bool a, bool b => decide (a = b)
  | number a, number b => decide (a = b)
  | string a, string b => decide (a = b)
  | array a, array b => sameItems a b
  | object a, object b => sameFields a b
  | _, _ => false

/-- Whether two lists of items are the same. -/
def sameItems : List (Json τ N) → List (Json τ N) → Bool
  | [], [] => true
  | a :: as, b :: bs => same a b && sameItems as bs
  | _, _ => false

/-- Whether two lists of entries are the same. -/
def sameFields : List (τ × Json τ N) → List (τ × Json τ N) → Bool
  | [], [] => true
  | (k, a) :: as, (k', b) :: bs => decide (k = k') && same a b && sameFields as bs
  | _, _ => false

end

mutual

theorem same_iff : ∀ a b : Json τ N, same a b = true ↔ a = b
  | array a, b => by
    cases b with
    | array b => simp [same, sameItems_iff a b]
    | _ => simp [same]
  | object a, b => by
    cases b with
    | object b => simp [same, sameFields_iff a b]
    | _ => simp [same]
  | null, b => by cases b <;> simp [same]
  | bool a, b => by cases b <;> simp [same]
  | number a, b => by cases b <;> simp [same]
  | string a, b => by cases b <;> simp [same]

theorem sameItems_iff : ∀ a b : List (Json τ N), sameItems a b = true ↔ a = b
  | [], b => by cases b <;> simp [sameItems]
  | a :: as, [] => by simp [sameItems]
  | a :: as, b :: bs => by simp [sameItems, same_iff a b, sameItems_iff as bs]

theorem sameFields_iff : ∀ a b : List (τ × Json τ N), sameFields a b = true ↔ a = b
  | [], b => by cases b <;> simp [sameFields]
  | a :: as, [] => by simp [sameFields]
  | (k, a) :: as, (k', b) :: bs => by
    simp [sameFields, same_iff a b, sameFields_iff as bs, and_assoc]

end

instance : DecidableEq (Json τ N) := fun a b => decidable_of_iff (same a b = true) (same_iff a b)

end Equality

/-! ## Objects -/

mutual

/-- How deep objects are nested. -/
def depth : Json τ N → Nat
  | object fields => depthFields fields + 1
  | _ => 0

/-- The depth of the deepest entry. -/
def depthFields : List (τ × Json τ N) → Nat
  | [] => 0
  | (_, v) :: l => max (depth v) (depthFields l)

end

/-- The entries of an object. -/
def asObject : Json τ N → Option (List (τ × Json τ N))
  | object l => some l
  | _ => none

@[simp] theorem asObject_object (l : List (τ × Json τ N)) : (object l).asObject = some l := rfl

variable [LinearOrder τ]

/-- An entry is less deep than its object. -/
theorem depth_lt_of_getEntry {k : τ} {v : Json τ N} {l : List (τ × Json τ N)} (h : getEntry k l = some v) :
    v.depth < (object l).depth := by
  rw [depth, Nat.lt_succ_iff]
  induction l with
  | nil => simp at h
  | cons e l ih =>
    obtain ⟨k', v'⟩ := e
    rw [depthFields]
    rw [getEntry] at h
    split at h
    · rw [← Option.some.inj h]
      exact le_max_left _ _
    · exact le_trans (ih h) (le_max_right _ _)

/-! ## Key order -/

/-- The entries of every object stand in key order. -/
inductive Sorted : Json τ N → Prop
  | null : Sorted null
  | bool (b : Bool) : Sorted (bool b)
  | number (n : N) : Sorted (number n)
  | string (t : τ) : Sorted (string t)
  | array {items : List (Json τ N)} (items_sorted : ∀ v ∈ items, Sorted v) : Sorted (array items)
  | object {fields : List (τ × Json τ N)} (ordered : fields.Pairwise fun a b => a.1 < b.1)
      (fields_sorted : ∀ e ∈ fields, Sorted e.2) : Sorted (object fields)

theorem sorted_object {l : List (τ × Json τ N)} :
    Sorted (object l) ↔ (l.Pairwise fun a b => a.1 < b.1) ∧ ∀ e ∈ l, Sorted e.2 := by
  constructor
  · intro h
    cases h with
    | object hl hv => exact ⟨hl, hv⟩
  · intro h
    exact .object h.1 h.2

/-- **Sorted objects with the same lookups are the same.** -/
theorem object_ext {l l' : List (τ × Json τ N)} (h : Sorted (object l)) (h' : Sorted (object l'))
    (hget : ∀ k, getEntry k l = getEntry k l') : object l = object l' := by
  rw [entries_ext (sorted_object.mp h).1 (sorted_object.mp h').1 hget]

/-! ## Paths -/

/-- The value of a field of an object. -/
def get (k : τ) (v : Json τ N) : Option (Json τ N) := v.asObject.bind (getEntry k)

@[simp] theorem get_object (k : τ) (l : List (τ × Json τ N)) : get k (object l) = getEntry k l := rfl

/-- The value at a path. -/
def getPath : List τ → Json τ N → Option (Json τ N)
  | [], v => some v
  | k :: p, v => (get k v).bind (getPath p)

theorem getPath_cons (k : τ) (p : List τ) (v : Json τ N) : getPath (k :: p) v = (get k v).bind (getPath p) := rfl

@[simp] theorem getPath_singleton (k : τ) (v : Json τ N) : getPath [k] v = get k v := by
  rw [getPath_cons]
  cases get k v <;> rfl

/-- Reading along a path, and on from there. -/
theorem getPath_append (p q : List τ) (v : Json τ N) : getPath (p ++ q) v = (getPath p v).bind (getPath q) := by
  induction p generalizing v with
  | nil => rfl
  | cons k p ih =>
    rw [List.cons_append, getPath_cons, getPath_cons, Option.bind_assoc]
    congr 1
    funext c
    exact ih c

/-- What is above a value is there too. -/
theorem isSome_getPath_of_prefix {p q : List τ} {v : Json τ N} (hpq : p <+: q) (h : (getPath q v).isSome) :
    (getPath p v).isSome := by
  obtain ⟨t, rfl⟩ := hpq
  rw [getPath_append] at h
  exact Option.isSome_of_isSome_bind h

/-- What is inside a sorted value is sorted. -/
theorem sorted_getPath {p : List τ} {v u : Json τ N} (h : v.Sorted) (hu : getPath p v = some u) : u.Sorted := by
  induction p generalizing v with
  | nil =>
    rw [← Option.some.inj hu]
    exact h
  | cons k p ih =>
    obtain ⟨c, hc, hu⟩ := Option.bind_eq_some_iff.mp hu
    refine ih ?_ hu
    cases v with
    | object l => exact (sorted_object.mp h).2 _ (mem_of_getEntry hc)
    | _ => exact absurd hc (by simp [get, asObject])

/-! ## Writing at a path -/

/-- Write a value under a key, or remove it. -/
def writeEntry (k : τ) (v : Option (Json τ N)) (l : List (τ × Json τ N)) : List (τ × Json τ N) :=
  match v with
  | some v => putEntry k v l
  | none => dropEntry k l

theorem getEntry_writeEntry (k k' : τ) (v : Option (Json τ N)) (l : List (τ × Json τ N)) :
    getEntry k' (writeEntry k v l) = if k' = k then v else getEntry k' l := by
  cases v with
  | none => exact getEntry_dropEntry k k' l
  | some v => exact getEntry_putEntry k k' v l

/-- The entries of the object under a key: none of an absent one, nothing when it is no object. -/
def child (k : τ) (l : List (τ × Json τ N)) : Option (List (τ × Json τ N)) :=
  match getEntry k l with
  | none => some []
  | some v => v.asObject

/-- A child just written. -/
@[simp] theorem child_putEntry (k : τ) (c l : List (τ × Json τ N)) : child k (putEntry k (object c) l) = some c := by
  rw [child, getEntry_putEntry, if_pos rfl]
  rfl

/-- Write or remove the value at a path. Absent objects on the way are made; a parent that is no object refuses. -/
def setFields : List τ → Option (Json τ N) → List (τ × Json τ N) → Option (List (τ × Json τ N))
  | [], _, _ => none
  | [k], v, l => some (writeEntry k v l)
  | k :: k' :: p, v, l =>
    (child k l).bind fun c => (setFields (k' :: p) v c).map fun c' => putEntry k (object c') l

/-- The last step of a write sets an entry; the others set the entry to an object written further down. -/
theorem setFields_cons {k : τ} {p : List τ} {v : Option (Json τ N)} {l l' : List (τ × Json τ N)}
    (h : setFields (k :: p) v l = some l') :
    (p = [] ∧ l' = writeEntry k v l)
      ∨ ∃ c c', p ≠ [] ∧ child k l = some c ∧ setFields p v c = some c' ∧ l' = putEntry k (object c') l := by
  cases p with
  | nil => exact Or.inl ⟨rfl, (Option.some.inj h).symm⟩
  | cons k' p =>
    obtain ⟨c, hc, hset⟩ := Option.bind_eq_some_iff.mp h
    obtain ⟨c', hc', rfl⟩ := Option.map_eq_some_iff.mp hset
    exact Or.inr ⟨c, c', List.cons_ne_nil _ _, hc, hc', rfl⟩

/-- A write changes one field of the root, whatever the other fields are. -/
theorem setFields_root {k : τ} {p : List τ} {v : Option (Json τ N)} {l l' : List (τ × Json τ N)}
    (h : setFields (k :: p) v l = some l') : ∃ x, (∀ j, getEntry j l' = if j = k then x else getEntry j l)
      ∧ ∀ m, getEntry k m = getEntry k l →
        ∃ m', setFields (k :: p) v m = some m' ∧ ∀ j, getEntry j m' = if j = k then x else getEntry j m := by
  obtain ⟨rfl, rfl⟩ | ⟨c, c', hp, hchild, hset, rfl⟩ := setFields_cons h
  · exact ⟨v, fun j => getEntry_writeEntry k j v l, fun m _ => ⟨_, rfl, fun j => getEntry_writeEntry k j v m⟩⟩
  · refine ⟨some (object c'), fun j => getEntry_putEntry k j _ l, fun m hm => ⟨putEntry k (object c') m, ?_, ?_⟩⟩
    · obtain ⟨k', p, rfl⟩ := List.exists_cons_of_ne_nil hp
      have hchild' : child k m = some c := by
        rw [child, hm]
        exact hchild
      rw [setFields, hchild', Option.bind_some, hset]
      rfl
    · exact fun j => getEntry_putEntry k j _ m

/-- A child's fields are the fields below its key. -/
theorem getPath_of_child {k : τ} {p : List τ} {l c : List (τ × Json τ N)} (h : child k l = some c) (hp : p ≠ []) :
    getPath (k :: p) (object l) = getPath p (object c) := by
  rw [getPath_cons, get_object]
  unfold child at h
  cases hget : getEntry k l with
  | none =>
    rw [hget] at h
    obtain rfl := Option.some.inj h
    obtain ⟨k', p, rfl⟩ := List.exists_cons_of_ne_nil hp
    rfl
  | some v =>
    rw [hget] at h
    cases v with
    | object l' =>
      obtain rfl := Option.some.inj h
      rfl
    | _ => exact absurd h (by simp [asObject])

/-- Writing a sorted value keeps an object sorted. -/
theorem sorted_writeEntry {k : τ} {v : Option (Json τ N)} {l : List (τ × Json τ N)} (hl : (object l).Sorted)
    (hv : ∀ x, v = some x → x.Sorted) : (object (writeEntry k v l)).Sorted := by
  obtain ⟨hordered, hfields⟩ := sorted_object.mp hl
  cases v with
  | none => exact .object (hordered.filter _) fun e he => hfields e (List.mem_of_mem_filter he)
  | some x =>
    refine .object (sorted_putEntry hordered) fun e he => ?_
    rcases mem_putEntry he with rfl | he
    · exact hv x rfl
    · exact hfields e he

theorem sorted_putEntry_object {k : τ} {v : Json τ N} {l : List (τ × Json τ N)} (hl : (object l).Sorted)
    (hv : v.Sorted) : (object (putEntry k v l)).Sorted :=
  sorted_writeEntry (v := some v) hl fun _ hx => Option.some.inj hx ▸ hv

/-- **Writing a sorted value at a path keeps the document sorted.** -/
theorem sorted_setFields {p : List τ} {v : Option (Json τ N)} {l l' : List (τ × Json τ N)} (hl : (object l).Sorted)
    (hv : ∀ x, v = some x → x.Sorted) (h : setFields p v l = some l') : (object l').Sorted := by
  induction p generalizing l l' with
  | nil => simp [setFields] at h
  | cons k p ih =>
    obtain ⟨-, rfl⟩ | ⟨c, c', -, hchild, hset, rfl⟩ := setFields_cons h
    · exact sorted_writeEntry hl hv
    · refine sorted_putEntry_object hl (ih ?_ hset)
      unfold child at hchild
      cases hget : getEntry k l with
      | none =>
        rw [hget] at hchild
        obtain rfl := Option.some.inj hchild
        exact .object List.Pairwise.nil (by simp)
      | some u =>
        rw [hget] at hchild
        have hu := (sorted_object.mp hl).2 _ (mem_of_getEntry hget)
        cases u with
        | object l' =>
          obtain rfl := Option.some.inj hchild
          exact hu
        | _ => exact absurd hchild (by simp [asObject])

/-- **At and below its path a write shows what it wrote.** -/
theorem getPath_setFields_below {p t : List τ} {v : Option (Json τ N)} {l l' : List (τ × Json τ N)}
    (h : setFields p v l = some l') : getPath (p ++ t) (object l') = v.bind (getPath t) := by
  induction p generalizing l l' with
  | nil => simp [setFields] at h
  | cons k p ih =>
    rw [List.cons_append, getPath_cons, get_object]
    obtain ⟨rfl, rfl⟩ | ⟨c, c', -, -, hset, rfl⟩ := setFields_cons h
    · rw [getEntry_writeEntry, if_pos rfl, List.nil_append]
    · rw [getEntry_putEntry, if_pos rfl]
      exact ih hset

/-- **Beside its path a write changes nothing.** -/
theorem getPath_setFields_apart {p q : List τ} {v : Option (Json τ N)} {l l' : List (τ × Json τ N)}
    (h : setFields p v l = some l') (hpq : ¬ p <+: q) (hqp : ¬ q <+: p) :
    getPath q (object l') = getPath q (object l) := by
  induction p generalizing q l l' with
  | nil => exact absurd (List.nil_prefix) hpq
  | cons k p ih =>
    cases q with
    | nil => exact absurd (List.nil_prefix) hqp
    | cons k' q =>
      by_cases hk : k' = k
      · subst hk
        rw [List.prefix_cons_inj] at hpq hqp
        obtain ⟨rfl, -⟩ | ⟨c, c', -, hchild, hset, rfl⟩ := setFields_cons h
        · exact absurd (List.nil_prefix) hpq
        · have hq : q ≠ [] := fun hnil => hqp (hnil ▸ List.nil_prefix)
          rw [getPath_of_child hchild hq, getPath_cons, get_object, getEntry_putEntry, if_pos rfl]
          exact ih hset hpq hqp
      · obtain ⟨-, rfl⟩ | ⟨c, c', -, -, -, rfl⟩ := setFields_cons h
        · rw [getPath_cons, getPath_cons, get_object, get_object, getEntry_writeEntry, if_neg hk]
        · rw [getPath_cons, getPath_cons, get_object, get_object, getEntry_putEntry, if_neg hk]

/-- **Above its path a write leaves objects.** -/
theorem getPath_setFields_above {p q : List τ} {v : Option (Json τ N)} {l l' : List (τ × Json τ N)}
    (h : setFields p v l = some l') (hqp : q <+: p) (hne : q ≠ p) : ∃ c, getPath q (object l') = some (object c) := by
  induction p generalizing q l l' with
  | nil => exact absurd (List.prefix_nil.mp hqp) hne
  | cons k p ih =>
    cases q with
    | nil => exact ⟨l', rfl⟩
    | cons k' q =>
      obtain ⟨rfl, hbelow⟩ := List.cons_prefix_cons.mp hqp
      obtain ⟨rfl, -⟩ | ⟨c, c', -, -, hset, rfl⟩ := setFields_cons h
      · exact absurd (by rw [List.prefix_nil.mp hbelow]) hne
      · rw [getPath_cons, get_object, getEntry_putEntry, if_pos rfl]
        exact ih hset hbelow fun heq => hne (heq ▸ rfl)

/-- A write keeps what is there, unless it is at or above it. -/
theorem isSome_getPath_setFields {p q : List τ} {v : Option (Json τ N)} {l l' : List (τ × Json τ N)}
    (h : setFields p v l = some l') (hpq : ¬ p <+: q) (hq : (getPath q (object l)).isSome) :
    (getPath q (object l')).isSome := by
  by_cases hqp : q <+: p
  · obtain ⟨c, hc⟩ := getPath_setFields_above h hqp fun heq => hpq (heq ▸ List.prefix_rfl)
    rw [hc]
    rfl
  · rw [getPath_setFields_apart h hpq hqp]
    exact hq

end Json

end SentryUsb.Library
