import SentryUsb.Library.TransitionSystem
import SentryUsb.Rates.RateIntent

/-! # Rate fields: what values mean, where documents differ, what a write does

* **`meaning`** — values at a field mean the same when their meanings are equal;
* **`equal_trans`**, **`equal_below`** — meaning the same is an equivalence, and passes down to the fields;
* **`Agree`** — two values have no difference; **`diff_eq_nil`** — it is what `diff` finds;
* **`agree_of_apart`** — beside the paths at which two values differ, they agree;
* **`view_set`** — a write, seen through `view`, is a plain write of the field. -/

set_option linter.unusedSectionVars false

namespace SentryUsb.Rates

open SentryUsb.Library

variable {N R : Type} [DecidableEq N] [DecidableEq R] {f : Reading N R}

/-! ## Meaning -/

/-- What a field stands for. -/
inductive Meaning (N R : Type) where
  | price (r : Option R)
  | text (t : Text)
  | value (v : Option (Json Text N))

variable (f) in
/-- What a value at a path stands for, plans apart. -/
def meaning (path : Path) (a : Option (Json Text N)) : Meaning N R :=
  if path = [defaultRate] ∨ isPlanField flat path then (number f a).elim (.value a) .price
  else if path = [currency] then (currencyText a).elim (.value a) .text
  else if isPlanField schedules path then .value (emptySchedules a)
  else .value a

/-- Values mean the same when both are read as the same, or are the same. -/
theorem sameReading_iff {A : Type} [DecidableEq A] {g : Option (Json Text N) → Option A} {mk : A → Meaning N R}
    (hmk : Function.Injective mk) (hvalue : ∀ x v, mk x ≠ .value v) {a b : Option (Json Text N)} (hne : a ≠ b) :
    sameReading (g a) (g b) = true ↔ (g a).elim (.value a) mk = (g b).elim (.value b) mk := by
  unfold sameReading
  cases ha : g a with
  | none =>
    cases hb : g b with
    | none => simp [hne]
    | some y => simpa using (hvalue y a).symm
  | some x =>
    cases hb : g b with
    | none => simpa using hvalue x b
    | some y => simp [hmk.eq_iff]

theorem equalField_iff {path : Path} {a b : Option (Json Text N)} :
    equalField f path a b = true ↔ meaning f path a = meaning f path b := by
  unfold equalField meaning
  by_cases hab : a = b
  · simp [hab]
  rw [if_neg hab]
  split
  · exact sameReading_iff (fun _ _ h => by simpa using h) (by simp) hab
  · split
    · exact sameReading_iff (fun _ _ h => by simpa using h) (by simp) hab
    · split
      · simp
      · simp [hab]

/-- An object stands for itself alone. -/
theorem eq_of_meaning_object {path : Path} {a : Option (Json Text N)} {l : List (Text × Json Text N)}
    (h : meaning f path a = meaning f path (some (.object l))) : a = some (.object l) := by
  have hself : meaning f path (some (.object l)) = .value (some (.object l)) := by
    unfold meaning
    split
    · rfl
    · split
      · rfl
      · split <;> rfl
  rw [hself] at h
  unfold meaning at h
  split at h
  · cases hn : number f a with
    | none => rw [hn] at h; simpa using h
    | some x => rw [hn] at h; simp at h
  · split at h
    · cases hn : currencyText a with
      | none => rw [hn] at h; simpa using h
      | some x => rw [hn] at h; simp at h
    · split at h
      · have hfilter : emptySchedules a = some (.object l) := by simpa using h
        exact (Option.filter_eq_some_iff.mp hfilter).1
      · simpa using h

/-- The keys of two objects. -/
theorem mem_keysOf {left right : List (Text × Json Text N)} {k : Text} (h : k ∉ keysOf left right) :
    getEntry k left = none ∧ getEntry k right = none := by
  rw [keysOf, mem_sortedSet, List.mem_append, not_or] at h
  constructor
  · exact getEntry_eq_none.mpr fun e he hk => h.1 (hk ▸ List.mem_map_of_mem he)
  · exact getEntry_eq_none.mpr fun e he hk => h.2 (hk ▸ List.mem_map_of_mem he)

/-- **When two values mean the same.** -/
theorem equal_iff {path : Path} {a b : Option (Json Text N)} :
    equal f path a b = true ↔ meaning f path a = meaning f path b
      ∨ isPlan path = true ∧ ∃ l r, a = some (.object l) ∧ b = some (.object r)
        ∧ ∀ k, meaning f (path ++ [k]) (getEntry k l) = meaning f (path ++ [k]) (getEntry k r) := by
  unfold equal
  rw [Bool.or_eq_true, equalField_iff, Bool.and_eq_true]
  refine or_congr_right (and_congr_right fun _ => ?_)
  split
  · rename_i l r
    rw [List.all_eq_true]
    constructor
    · intro h
      refine ⟨l, r, rfl, rfl, fun k => ?_⟩
      by_cases hk : k ∈ keysOf l r
      · have hfield := h k hk
        rwa [equalField_iff] at hfield
      · rw [(mem_keysOf hk).1, (mem_keysOf hk).2]
    · rintro ⟨l', r', hl, hr, h⟩ k -
      obtain rfl : l = l' := by simpa using hl
      obtain rfl : r = r' := by simpa using hr
      rw [equalField_iff]
      exact h k
  · rename_i hno
    constructor
    · intro h
      exact absurd h (by simp)
    · rintro ⟨l, r, rfl, rfl, -⟩
      exact absurd rfl (hno l r rfl)

theorem equal_refl (path : Path) (a : Option (Json Text N)) : equal f path a a = true := by
  rw [equal_iff]
  exact Or.inl rfl

theorem equal_symm {path : Path} {a b : Option (Json Text N)} (h : equal f path a b = true) :
    equal f path b a = true := by
  rw [equal_iff] at h ⊢
  rcases h with h | ⟨hplan, l, r, rfl, rfl, hfields⟩
  · exact Or.inl h.symm
  · exact Or.inr ⟨hplan, r, l, rfl, rfl, fun k => (hfields k).symm⟩

theorem equal_trans {path : Path} {a b c : Option (Json Text N)} (hab : equal f path a b = true)
    (hbc : equal f path b c = true) : equal f path a c = true := by
  have hab' := hab
  have hbc' := hbc
  rw [equal_iff] at hab' hbc'
  rcases hab' with hab' | ⟨hplan, l, r, rfl, rfl, hlr⟩
  · rcases hbc' with hbc' | ⟨hplan, l, r, rfl, rfl, hlr⟩
    · rw [equal_iff]
      exact Or.inl (hab'.trans hbc')
    · rw [eq_of_meaning_object hab']
      exact hbc
  · rcases hbc' with hbc' | ⟨-, l', s, hl', rfl, hrs⟩
    · rw [eq_of_meaning_object hbc'.symm]
      exact hab
    · obtain rfl : r = l' := by simpa using hl'
      rw [equal_iff]
      exact Or.inr ⟨hplan, l, s, rfl, rfl, fun k => (hlr k).trans (hrs k)⟩

/-! ## Down the fields -/

/-- A field of a value that may be absent. -/
theorem bind_get_of_not_object {a : Option (Json Text N)} (h : ∀ l, a ≠ some (.object l)) (k : Text) :
    a.bind (Json.get k) = none := by
  cases a with
  | none => rfl
  | some v =>
    cases v with
    | object l => exact absurd rfl (h l)
    | _ => rfl

/-- What means the same has fields that mean the same. -/
theorem equal_get {path : Path} {a b : Option (Json Text N)} (h : equal f path a b = true) (k : Text) :
    equal f (path ++ [k]) (a.bind (Json.get k)) (b.bind (Json.get k)) = true := by
  rw [equal_iff] at h
  rcases h with h | ⟨-, l, r, rfl, rfl, hfields⟩
  · by_cases ha : ∃ l, a = some (.object l)
    · obtain ⟨l, rfl⟩ := ha
      rw [eq_of_meaning_object h.symm]
      exact equal_refl _ _
    · by_cases hb : ∃ l, b = some (.object l)
      · obtain ⟨l, rfl⟩ := hb
        rw [eq_of_meaning_object h]
        exact equal_refl _ _
      · rw [bind_get_of_not_object (not_exists.mp ha), bind_get_of_not_object (not_exists.mp hb)]
        exact equal_refl _ _
  · rw [equal_iff]
    exact Or.inl (hfields k)

theorem bind_getPath_cons (k : Text) (t : Path) (a : Option (Json Text N)) :
    a.bind (Json.getPath (k :: t)) = (a.bind (Json.get k)).bind (Json.getPath t) := by
  cases a <;> rfl

/-- **What means the same does so all the way down.** -/
theorem equal_below {path : Path} {a b : Option (Json Text N)} (h : equal f path a b = true) (t : Path) :
    equal f (path ++ t) (a.bind (Json.getPath t)) (b.bind (Json.getPath t)) = true := by
  induction t generalizing path a b with
  | nil =>
    rw [List.append_nil]
    cases a <;> cases b <;> exact h
  | cons k t ih =>
    rw [bind_getPath_cons, bind_getPath_cons, List.append_cons]
    exact ih (equal_get h k)

/-- Only an object means the same as an object. -/
theorem object_of_equal {path : Path} {a : Option (Json Text N)} {r : List (Text × Json Text N)}
    (h : equal f path a (some (.object r)) = true) : ∃ l, a = some (.object l) := by
  rw [equal_iff] at h
  rcases h with h | ⟨-, l, -, hl, -⟩
  · exact ⟨r, eq_of_meaning_object h⟩
  · exact ⟨l, hl⟩

/-! ## Agreement -/

variable (f) in
/-- Two values without a difference: they mean the same, or are objects whose fields have none. -/
inductive Agree : Path → Option (Json Text N) → Option (Json Text N) → Prop
  | same {path : Path} {a b : Option (Json Text N)} (h : equal f path a b = true) : Agree path a b
  | fields {path : Path} {l r : List (Text × Json Text N)}
      (h : ∀ k, Agree (path ++ [k]) (getEntry k l) (getEntry k r)) :
      Agree path (some (.object l)) (some (.object r))

namespace Agree

variable {path : Path} {a b c : Option (Json Text N)}

theorem refl (path : Path) (a : Option (Json Text N)) : Agree f path a a := same (equal_refl path a)

theorem symm (h : Agree f path a b) : Agree f path b a := by
  induction h with
  | same h => exact same (equal_symm h)
  | fields _ ih => exact fields ih

/-- What means the same may stand in for a side. -/
theorem of_equal (hab : equal f path a b = true) (hbc : Agree f path b c) : Agree f path a c := by
  induction hbc generalizing a with
  | same h => exact same (equal_trans hab h)
  | fields _ ih =>
    obtain ⟨l, rfl⟩ := object_of_equal hab
    exact fields fun k => ih k (equal_get hab k)

theorem trans (hab : Agree f path a b) (hbc : Agree f path b c) : Agree f path a c := by
  induction hab generalizing c with
  | same h => exact of_equal h hbc
  | fields hab ih =>
    cases hbc with
    | same h =>
      obtain ⟨s, rfl⟩ := object_of_equal (equal_symm h)
      exact fields fun k => ih k (same (equal_get h k))
    | fields h => exact fields fun k => ih k (h k)

theorem get (h : Agree f path a b) (k : Text) : Agree f (path ++ [k]) (a.bind (Json.get k)) (b.bind (Json.get k)) := by
  cases h with
  | same h => exact same (equal_get h k)
  | fields h => exact h k

/-- **What agrees does so all the way down.** -/
theorem down (h : Agree f path a b) (t : Path) :
    Agree f (path ++ t) (a.bind (Json.getPath t)) (b.bind (Json.getPath t)) := by
  induction t generalizing path a b with
  | nil =>
    rw [List.append_nil]
    cases a <;> cases b <;> exact h
  | cons k t ih =>
    rw [bind_getPath_cons, bind_getPath_cons, List.append_cons]
    exact ih (h.get k)

end Agree

/-- Below a field that is no plan, values stand for themselves. -/
theorem meaning_concat {path : Path} (hne : path ≠ []) (hplan : isPlan path = false) (k : Text)
    (a : Option (Json Text N)) : meaning f (path ++ [k]) a = .value a := by
  have hfield : ∀ name, isPlanField name (path ++ [k]) = false := by
    intro name
    rcases path with _ | ⟨key, _ | ⟨tag, _ | ⟨field, _ | ⟨next, rest⟩⟩⟩⟩
    · exact absurd rfl hne
    · rfl
    · have hkey : decide (key = tagRates) = false := hplan
      show (decide (key = tagRates) && decide (k = name)) = false
      rw [hkey, Bool.false_and]
    · rfl
    · rfl
  have hlong : ∀ key, path ++ [k] ≠ [key] := by
    intro key heq
    have hlen := congrArg List.length heq
    rw [List.length_append] at hlen
    exact hne (List.length_eq_zero_iff.mp (by simpa using hlen))
  unfold meaning
  rw [if_neg (by simp [hlong, hfield]), if_neg (hlong _), if_neg (by simp [hfield])]

/-- Only a field of the map of plans is a plan. -/
theorem isPlan_concat {path : Path} (hne : path ≠ []) (hmap : path ≠ [tagRates]) (k : Text) :
    isPlan (path ++ [k]) = false := by
  rcases path with _ | ⟨key, _ | ⟨tag, _ | ⟨field, rest⟩⟩⟩
  · exact absurd rfl hne
  · exact decide_eq_false fun heq => hmap (heq ▸ rfl)
  · rfl
  · rfl

/-- **Sorted values that agree mean the same**, the map of all plans apart. -/
theorem equal_of_agree {path : Path} {a b : Option (Json Text N)} (h : Agree f path a b) (hne : path ≠ [])
    (hmap : path ≠ [tagRates]) (ha : ∀ v, a = some v → v.Sorted) (hb : ∀ v, b = some v → v.Sorted) :
    equal f path a b = true := by
  induction h with
  | same h => exact h
  | @fields path l r _ ih =>
    have hl := ha _ rfl
    have hr := hb _ rfl
    have hchild : ∀ k, meaning f (path ++ [k]) (getEntry k l) = meaning f (path ++ [k]) (getEntry k r) := by
      intro k
      have hequal := ih k (by simp) (fun heq => hne (by simpa using congrArg List.dropLast heq))
        (fun v hv => (Json.sorted_object.mp hl).2 _ (mem_of_getEntry hv))
        (fun v hv => (Json.sorted_object.mp hr).2 _ (mem_of_getEntry hv))
      rcases equal_iff.mp hequal with h | ⟨hplan, -⟩
      · exact h
      · rw [isPlan_concat hne hmap] at hplan
        exact absurd hplan (by simp)
    by_cases hplan : isPlan path = true
    · exact equal_iff.mpr (Or.inr ⟨hplan, l, r, rfl, rfl, hchild⟩)
    · have hget : ∀ k, getEntry k l = getEntry k r := by
        intro k
        have hk := hchild k
        rw [meaning_concat hne (by simpa using hplan), meaning_concat hne (by simpa using hplan)] at hk
        exact Meaning.value.inj hk
      rw [Json.object_ext hl hr hget]
      exact equal_refl _ _

/-! ## Differences -/

/-- More depth than needed changes nothing. -/
theorem diffWithin_eq {n m : Nat} {path : Path} {a b : Option (Json Text N)} (hn : (a.map Json.depth).getD 0 ≤ n)
    (hm : (a.map Json.depth).getD 0 ≤ m) : diffWithin f n path a b = diffWithin f m path a b := by
  induction n generalizing m path a b with
  | zero =>
    unfold diffWithin
    split
    · rfl
    · cases m with
      | zero => rfl
      | succ m =>
        cases a with
        | none => rfl
        | some v =>
          cases v with
          | object l => simp [Json.depth] at hn
          | _ => rfl
  | succ n ih =>
    unfold diffWithin
    split
    · rfl
    · cases a with
      | none => cases m <;> rfl
      | some v =>
        cases v with
        | object l =>
          cases m with
          | zero => simp [Json.depth] at hm
          | succ m =>
            cases b with
            | none => rfl
            | some w =>
              cases w with
              | object r =>
                refine congrArg List.flatten (List.map_congr_left fun k _ => ?_)
                have hdepth : ((getEntry k l).map Json.depth).getD 0 < (Json.object l).depth := by
                  cases hget : getEntry k l with
                  | none => simp [Json.depth]
                  | some u => exact Json.depth_lt_of_getEntry hget
                exact ih (Nat.le_of_lt_succ (lt_of_lt_of_le hdepth hn))
                  (Nat.le_of_lt_succ (lt_of_lt_of_le hdepth hm))
              | _ => rfl
        | _ => cases m <;> rfl

theorem diff_of_equal {path : Path} {a b : Option (Json Text N)} (h : equal f path a b = true) :
    diff f path a b = [] := by
  unfold diff diffWithin
  rw [if_pos h]

theorem diff_object {path : Path} {l r : List (Text × Json Text N)}
    (h : equal f path (some (.object l)) (some (.object r)) = false) :
    diff f path (some (.object l)) (some (.object r))
      = (keysOf l r).flatMap fun k => diff f (path ++ [k]) (getEntry k l) (getEntry k r) := by
  conv_lhs => unfold diff diffWithin
  rw [if_neg (by simp [h])]
  refine congrArg List.flatten (List.map_congr_left fun k _ => ?_)
  refine diffWithin_eq (f := f) ?_ (le_refl _)
  cases hget : getEntry k l with
  | none => simp
  | some v => exact Nat.le_of_lt_succ (Json.depth_lt_of_getEntry hget)

theorem diff_whole {path : Path} {a b : Option (Json Text N)} (h : equal f path a b = false)
    (hno : ∀ l r, ¬ (a = some (.object l) ∧ b = some (.object r))) : diff f path a b = [path] := by
  unfold diff diffWithin
  rw [if_neg (by simp [h])]
  split
  · rename_i l r _
    exact absurd ⟨rfl, rfl⟩ (hno l r)
  · rfl

/-- **Induction over a comparison**: values that mean the same, objects compared field by field, and values compared as
a whole. -/
theorem diff_induction {motive : Path → Option (Json Text N) → Option (Json Text N) → Prop}
    (same : ∀ path a b, equal f path a b = true → motive path a b)
    (fields : ∀ path l r, equal f path (some (.object l)) (some (.object r)) = false →
      (∀ k, motive (path ++ [k]) (getEntry k l) (getEntry k r)) → motive path (some (.object l)) (some (.object r)))
    (whole : ∀ path a b, equal f path a b = false → (∀ l r, ¬ (a = some (.object l) ∧ b = some (.object r))) →
      motive path a b)
    (path : Path) (a b : Option (Json Text N)) : motive path a b := by
  induction hn : (a.map Json.depth).getD 0 using Nat.strong_induction_on generalizing path a b with
  | _ n ih =>
    cases hequal : equal f path a b with
    | true => exact same path a b hequal
    | false =>
      by_cases hobjects : ∃ l r, a = some (.object l) ∧ b = some (.object r)
      · obtain ⟨l, r, rfl, rfl⟩ := hobjects
        refine fields path l r hequal fun k => ih _ ?_ _ _ _ rfl
        rw [← hn]
        cases hget : getEntry k l with
        | none => simp [Json.depth]
        | some v => exact Json.depth_lt_of_getEntry hget
      · exact whole path a b hequal fun l r h => hobjects ⟨l, r, h⟩

theorem agree_of_not_mem_keysOf {path : Path} {l r : List (Text × Json Text N)} {k : Text} (h : k ∉ keysOf l r) :
    Agree f path (getEntry k l) (getEntry k r) := by
  rw [(mem_keysOf h).1, (mem_keysOf h).2]
  exact Agree.refl _ _

/-- **No difference is agreement.** -/
theorem diff_eq_nil {path : Path} {a b : Option (Json Text N)} : diff f path a b = [] ↔ Agree f path a b := by
  constructor
  · induction path, a, b using diff_induction (f := f) with
    | same path a b h => exact fun _ => Agree.same h
    | fields path l r h ih =>
      intro hnil
      rw [diff_object h, List.flatMap_eq_nil_iff] at hnil
      refine Agree.fields fun k => ?_
      by_cases hk : k ∈ keysOf l r
      · exact ih k (hnil k hk)
      · exact agree_of_not_mem_keysOf hk
    | whole path a b h hno =>
      intro hnil
      rw [diff_whole h hno] at hnil
      exact absurd hnil (List.cons_ne_nil _ _)
  · intro h
    induction h with
    | same h => exact diff_of_equal h
    | @fields path l r _ ih =>
      cases hequal : equal f path (some (.object l)) (some (.object r)) with
      | true => exact diff_of_equal hequal
      | false =>
        rw [diff_object hequal, List.flatMap_eq_nil_iff]
        exact fun k _ => ih k

/-- What is compared as objects on the way to a difference. -/
structure Differs (a b : Option (Json Text N)) (t : Path) : Prop where
  above : ∀ s, s <+: t → s ≠ t →
    ∃ l r, a.bind (Json.getPath s) = some (.object l) ∧ b.bind (Json.getPath s) = some (.object r)
  whole : ∀ l r, ¬ (a.bind (Json.getPath t) = some (.object l) ∧ b.bind (Json.getPath t) = some (.object r))

/-- **Where two values differ**: below objects of both, at something that is not an object of both. -/
theorem mem_diff {path c : Path} {a b : Option (Json Text N)} (h : c ∈ diff f path a b) :
    ∃ t, c = path ++ t ∧ Differs a b t := by
  induction path, a, b using diff_induction (f := f) with
  | same path a b hequal =>
    rw [diff_of_equal hequal] at h
    exact absurd h List.not_mem_nil
  | fields path l r hequal ih =>
    rw [diff_object hequal, List.mem_flatMap] at h
    obtain ⟨k, -, hk⟩ := h
    obtain ⟨t, rfl, hdiffers⟩ := ih k hk
    refine ⟨k :: t, by rw [List.append_assoc]; rfl, fun s hs hne => ?_, hdiffers.whole⟩
    cases s with
    | nil => exact ⟨l, r, rfl, rfl⟩
    | cons k' s =>
      obtain ⟨rfl, hbelow⟩ := List.cons_prefix_cons.mp hs
      exact hdiffers.above s hbelow fun heq => hne (heq ▸ rfl)
  | whole path a b hequal hno =>
    rw [diff_whole hequal hno, List.mem_singleton] at h
    refine ⟨[], by rw [h, List.append_nil], fun s hs hne => absurd (List.prefix_nil.mp hs) hne, fun l r hlr => ?_⟩
    refine hno l r ⟨?_, ?_⟩
    · exact (Option.bind_fun_some a).symm.trans hlr.1
    · exact (Option.bind_fun_some b).symm.trans hlr.2

/-- Neither path is above the other. -/
def Apart (p q : Path) : Prop := ¬ p <+: q ∧ ¬ q <+: p

/-- **Beside the paths at which they differ, two values agree.** -/
theorem agree_of_apart {path t : Path} {a b : Option (Json Text N)} (h : ∀ c ∈ diff f path a b, Apart c (path ++ t)) :
    Agree f (path ++ t) (a.bind (Json.getPath t)) (b.bind (Json.getPath t)) := by
  induction path, a, b using diff_induction (f := f) generalizing t with
  | same path a b hequal => exact Agree.same (equal_below hequal t)
  | fields path l r hequal ih =>
    cases t with
    | nil =>
      -- every difference is below the path itself
      refine Agree.down (diff_eq_nil.mp (List.eq_nil_iff_forall_not_mem.mpr fun c hc => ?_)) []
      obtain ⟨t, rfl, -⟩ := mem_diff hc
      exact (h _ hc).2 (by simp)
    | cons k t =>
      rw [bind_getPath_cons, bind_getPath_cons, List.append_cons]
      by_cases hk : k ∈ keysOf l r
      · refine ih k fun c hc => ?_
        rw [← List.append_cons]
        exact h c (by rw [diff_object hequal]; exact List.mem_flatMap.mpr ⟨k, hk, hc⟩)
      · exact (agree_of_not_mem_keysOf hk).down t
  | whole path a b hequal hno =>
    have hself := h path (by rw [diff_whole hequal hno]; exact List.mem_singleton_self _)
    exact absurd (List.prefix_append path t) hself.1

/-! ## Views -/

/-- A plan spelled as an object. -/
def asPlan (value : Json Text N) : Json Text N :=
  match value with
  | .object fields => .object fields
  | value => .object [(flat, value)]

theorem object_of_plan {value : Json Text N} {fields : List (Text × Json Text N)} (h : plan f value = .ok fields) :
    asPlan value = .object fields := by
  cases value with
  | object l => rw [← Except.ok.inj h]; rfl
  | _ =>
    simp only [plan] at h
    split at h
    · rw [← Except.ok.inj h]
      rfl
    · exact absurd h (by simp)

/-- Whether a plan can be read. -/
def Readable (f : Reading N R) (value : Json Text N) : Prop := ∃ fields, plan f value = .ok fields

theorem readable_object (l : List (Text × Json Text N)) : Readable f (.object l) := ⟨l, rfl⟩

theorem exists_asPlan (v : Json Text N) : ∃ l, asPlan v = .object l := by
  cases v with
  | object l => exact ⟨l, rfl⟩
  | _ => exact ⟨_, rfl⟩

/-- The plans spelled as objects. -/
theorem mapM_normalized {values m : List (Text × Json Text N)} :
    values.mapM (normalized f) = .ok m
      ↔ (∀ e ∈ values, Readable f e.2) ∧ m = values.map fun e => (e.1, asPlan e.2) := by
  rw [mapM_eq_ok]
  induction values generalizing m with
  | nil => simp
  | cons e values ih =>
    rw [List.forall₂_cons_left_iff, List.forall_mem_cons, List.map_cons]
    constructor
    · rintro ⟨b, rest, hb, hrest, rfl⟩
      obtain ⟨fields, hfields, rfl⟩ := map_eq_ok.mp hb
      obtain ⟨hread, rfl⟩ := ih.mp hrest
      exact ⟨⟨⟨fields, hfields⟩, hread⟩, by rw [object_of_plan hfields]⟩
    · rintro ⟨⟨⟨fields, hfields⟩, hread⟩, rfl⟩
      exact ⟨_, _, map_eq_ok.mpr ⟨fields, hfields, by rw [object_of_plan hfields]⟩, ih.mpr ⟨hread, rfl⟩, rfl⟩

/-- **What a view is**: the root, with every plan of a readable map spelled as an object. -/
theorem view_eq_ok {document w : Json Text N} :
    view f document = .ok w ↔ ∃ root values, document = .object root ∧ plans f (getEntry tagRates root) = .ok values
      ∧ (∀ e ∈ values, Readable f e.2)
      ∧ w = .object (putEntry tagRates (.object (values.map fun e => (e.1, asPlan e.2))) root) := by
  cases document with
  | object root =>
    unfold view
    rw [bind_eq_ok]
    constructor
    · rintro ⟨values, hvalues, h⟩
      obtain ⟨m, hm, h⟩ := bind_eq_ok.mp h
      obtain ⟨hread, rfl⟩ := mapM_normalized.mp hm
      exact ⟨root, values, rfl, hvalues, hread, (Except.ok.inj h).symm⟩
    · rintro ⟨root', values, hroot, hvalues, hread, rfl⟩
      obtain rfl : root = root' := by simpa using hroot
      exact ⟨values, hvalues, bind_eq_ok.mpr ⟨_, mapM_normalized.mpr ⟨hread, rfl⟩, rfl⟩⟩
  | _ => simp [view]

/-- The map of plans of a view is an object of objects. -/
theorem get_view_tagRates {document w : Json Text N} (h : view f document = .ok w) :
    ∃ values, w.get tagRates = some (.object values) ∧ ∀ tag v, getEntry tag values = some v → ∃ l, v = .object l := by
  obtain ⟨root, values, rfl, -, -, rfl⟩ := view_eq_ok.mp h
  refine ⟨_, by rw [Json.get_object, getEntry_putEntry, if_pos rfl], fun tag v hv => ?_⟩
  rw [getEntry_map] at hv
  obtain ⟨u, -, rfl⟩ := Option.map_eq_some_iff.mp hv
  exact exists_asPlan u

/-- A plan of a view is an object. -/
theorem object_of_view_plan {document w v : Json Text N} {path : Path} (h : view f document = .ok w)
    (hplan : isPlan path = true) (hv : w.getPath path = some v) : ∃ l, v = .object l := by
  obtain ⟨values, hmap, hobjects⟩ := get_view_tagRates h
  rcases path with _ | ⟨key, _ | ⟨tag, _ | ⟨field, rest⟩⟩⟩
  · exact absurd hplan (by simp [isPlan])
  · exact absurd hplan (by simp [isPlan])
  · obtain rfl : key = tagRates := of_decide_eq_true hplan
    rw [Json.getPath_cons, hmap] at hv
    exact hobjects tag v (by rw [← Json.get_object, ← Json.getPath_singleton]; exact hv)
  · exact absurd hplan (by simp [isPlan])

theorem sorted_asPlan {v : Json Text N} (h : v.Sorted) : (asPlan v).Sorted := by
  cases v with
  | object l => exact h
  | _ =>
    refine .object (List.pairwise_singleton _ _) fun e he => ?_
    rw [List.mem_singleton.mp he]
    exact h

/-- The plans of a sorted document are sorted. -/
theorem sorted_plans {v : Option (Json Text N)} {values : List (Text × Json Text N)}
    (hv : ∀ x, v = some x → x.Sorted) (h : plans f v = .ok values) : (Json.object values).Sorted := by
  have hempty : (Json.object ([] : List (Text × Json Text N))).Sorted := .object List.Pairwise.nil (by simp)
  cases v with
  | none => exact Except.ok.inj h ▸ hempty
  | some v =>
    cases v with
    | null => exact Except.ok.inj h ▸ hempty
    | object l => exact Except.ok.inj h ▸ hv _ rfl
    | string t =>
      simp only [plans] at h
      split at h
      · rename_i l hl
        exact Except.ok.inj h ▸ f.fromStr_sorted t l hl
      · exact absurd h (by simp)
    | _ => exact absurd h (by simp [plans])

/-- Views of sorted documents are sorted. -/
theorem sorted_view {document w : Json Text N} (hsorted : document.Sorted) (h : view f document = .ok w) :
    w.Sorted := by
  obtain ⟨root, values, rfl, hplans, -, rfl⟩ := view_eq_ok.mp h
  have hfields := (Json.sorted_object.mp hsorted).2
  have hvalues := sorted_plans (fun x hx => hfields _ (mem_of_getEntry hx)) hplans
  obtain ⟨hordered, hplansSorted⟩ := Json.sorted_object.mp hvalues
  refine Json.sorted_putEntry_object hsorted (.object (List.pairwise_map.mpr hordered) fun e he => ?_)
  obtain ⟨e', he', rfl⟩ := List.mem_map.mp he
  exact sorted_asPlan (hplansSorted e' he')

/-! ## Writes -/

/-- What a write of `v` at `path` does to a document. -/
structure Written (path : Path) (v : Option (Json Text N)) (w w' : Json Text N) : Prop where
  below : ∀ t, w'.getPath (path ++ t) = v.bind (Json.getPath t)
  apart : ∀ q, Apart path q → w'.getPath q = w.getPath q
  kept : ∀ q, ¬ path <+: q → (w.getPath q).isSome → (w'.getPath q).isSome

/-- A write at a path, known by the fields of the root. -/
theorem written_of_setFields {path : Path} {v : Option (Json Text N)} {w s w' : List (Text × Json Text N)}
    (h : Json.setFields path v w = some s) (hget : ∀ k, getEntry k w' = getEntry k s) :
    Written path v (.object w) (.object w') := by
  have hpath : ∀ q, q ≠ [] → Json.getPath q (.object w') = Json.getPath q (.object s) := by
    intro q hq
    obtain ⟨k, q, rfl⟩ := List.exists_cons_of_ne_nil hq
    rw [Json.getPath_cons, Json.getPath_cons, Json.get_object, Json.get_object, hget]
  have hne : path ≠ [] := by
    rintro rfl
    exact absurd h (by simp [Json.setFields])
  refine ⟨fun t => ?_, fun q hq => ?_, fun q hq hsome => ?_⟩
  · rw [hpath _ (by simp [hne]), Json.getPath_setFields_below h]
  · have hnil : q ≠ [] := fun hnil => hq.2 (hnil ▸ List.nil_prefix)
    rw [hpath q hnil, Json.getPath_setFields_apart h hq.1 hq.2]
  · by_cases hnil : q = []
    · rw [hnil]
      rfl
    · rw [hpath _ hnil]
      exact Json.isSome_getPath_setFields h hq hsome

/-- A write beside the plans. -/
theorem set_written_root {root root' values : List (Text × Json Text N)} {key : Text} {below : Path}
    {v : Option (Json Text N)} (hkey : key ≠ tagRates) (hplans : plans f (getEntry tagRates root) = .ok values)
    (hread : ∀ e ∈ values, Readable f e.2) (hset : Json.setFields (key :: below) v root = some root') :
    ∃ w', view f (.object root') = .ok w' ∧ Written (key :: below) v
      (.object (putEntry tagRates (.object (values.map fun e => (e.1, asPlan e.2))) root)) w' := by
  obtain ⟨x, hroot', hany⟩ := Json.setFields_root hset
  obtain ⟨s, hs, hsget⟩ := hany (putEntry tagRates (.object (values.map fun e => (e.1, asPlan e.2))) root)
    (by rw [getEntry_putEntry, if_neg hkey])
  refine ⟨_, view_eq_ok.mpr ⟨root', values, rfl, ?_, hread, rfl⟩, written_of_setFields hs fun j => ?_⟩
  · rw [hroot', if_neg (Ne.symm hkey)]
    exact hplans
  · rw [hsget, getEntry_putEntry, getEntry_putEntry, hroot']
    by_cases hj : j = tagRates
    · rw [if_pos hj, if_neg (fun heq => hkey (heq.symm.trans hj)), if_pos hj]
    · rw [if_neg hj, if_neg hj]

/-- A write inside the plans changes the map of plans, which is seen with its plans spelled as objects. -/
theorem set_written_plans {root root₁ values values' : List (Text × Json Text N)} {tag : Text} {below : Path}
    {v : Option (Json Text N)} {c : List (Text × Json Text N)}
    (hroot₁ : ∀ j, j ≠ tagRates → getEntry j root₁ = getEntry j root)
    (hread : ∀ e ∈ values', Readable f e.2) (hc : values'.map (fun e => (e.1, asPlan e.2)) = c)
    (hset : Json.setFields (tag :: below) v (values.map fun e => (e.1, asPlan e.2)) = some c) :
    ∃ w', view f (.object (putEntry tagRates (.object values') root₁)) = .ok w' ∧ Written (tagRates :: tag :: below) v
      (.object (putEntry tagRates (.object (values.map fun e => (e.1, asPlan e.2))) root)) w' := by
  have hplans : plans f (getEntry tagRates (putEntry tagRates (.object values') root₁)) = .ok values' := by
    rw [getEntry_putEntry, if_pos rfl]
    rfl
  refine ⟨_, view_eq_ok.mpr ⟨_, values', rfl, hplans, hread, rfl⟩, ?_⟩
  rw [hc]
  have hwrite : Json.setFields (tagRates :: tag :: below) v
      (putEntry tagRates (.object (values.map fun e => (e.1, asPlan e.2))) root)
        = some (putEntry tagRates (.object c)
          (putEntry tagRates (.object (values.map fun e => (e.1, asPlan e.2))) root)) := by
    rw [Json.setFields, Json.child_putEntry, Option.bind_some, hset]
    rfl
  refine written_of_setFields hwrite fun j => ?_
  rw [putEntry_putEntry, putEntry_putEntry, getEntry_putEntry, getEntry_putEntry]
  by_cases hj : j = tagRates
  · rw [if_pos hj, if_pos hj]
  · rw [if_neg hj, if_neg hj, hroot₁ j hj]

/-- The plan on the way of a write, spelled as an object. -/
theorem child_normalized {values value : List (Text × Json Text N)} {tag : Text}
    (h : planAt f tag values = .ok value) :
    Json.child tag (values.map fun e => (e.1, asPlan e.2)) = some value := by
  rw [Json.child, getEntry_map]
  unfold planAt at h
  cases hget : getEntry tag values with
  | none =>
    rw [hget] at h
    rw [← Except.ok.inj h]
    rfl
  | some u =>
    rw [hget] at h
    show (asPlan u).asObject = some value
    rw [object_of_plan h]
    rfl

/-- **A write, seen through `view`, is a plain write of the field.** -/
theorem set_written {document document' w : Json Text N} {path : Path} {v : Option (Json Text N)}
    (hview : view f document = .ok w) (hset : set f document path v = .ok document') (hmap : path ≠ [tagRates])
    (hv : isPlan path = true → ∀ x, v = some x → ∃ l, x = .object l) :
    ∃ w', view f document' = .ok w' ∧ Written path v w w' := by
  obtain ⟨root, values, rfl, hplans, hread, rfl⟩ := view_eq_ok.mp hview
  cases path with
  | nil => exact absurd hset (by simp [set])
  | cons key below =>
    obtain ⟨root₁, hroot₁, hset⟩ := bind_eq_ok.mp hset
    split at hset
    case h_2 => exact absurd hset (by simp)
    rename_i root' hset'
    obtain rfl := Except.ok.inj hset
    by_cases hkey : key = tagRates
    · subst hkey
      rw [if_pos rfl] at hroot₁
      rcases below with _ | ⟨tag, _ | ⟨field, rest⟩⟩
      · exact absurd rfl hmap
      · -- the whole plan
        obtain ⟨values₁, hvalues₁, rfl⟩ := map_eq_ok.mp hroot₁
        obtain rfl : values₁ = values := Except.ok.inj (hvalues₁.symm.trans hplans)
        rw [Json.setFields, Json.child_putEntry] at hset'
        obtain rfl := Option.some.inj hset'
        refine set_written_plans (fun j hj => by rw [getEntry_putEntry, if_neg hj]) ?_ rfl ?_
        · intro e he
          cases v with
          | none => exact hread e (List.mem_of_mem_filter he)
          | some x =>
            rcases mem_putEntry he with rfl | he
            · obtain ⟨l, rfl⟩ := hv (by simp [isPlan]) x rfl
              exact readable_object l
            · exact hread e he
        · cases v with
          | none => rw [Json.writeEntry, map_dropEntry]; rfl
          | some x =>
            obtain ⟨l, rfl⟩ := hv (by simp [isPlan]) x rfl
            rw [Json.writeEntry, map_putEntry]
            rfl
      · -- a field of a plan
        obtain ⟨values₁, hvalues₁, hroot₁⟩ := bind_eq_ok.mp hroot₁
        obtain rfl : values₁ = values := Except.ok.inj (hvalues₁.symm.trans hplans)
        obtain ⟨value, hvalue, rfl⟩ := map_eq_ok.mp hroot₁
        rw [Json.setFields, Json.child_putEntry, Option.bind_some, Json.setFields, Json.child_putEntry,
          Option.bind_some] at hset'
        obtain ⟨c, hc, rfl⟩ := Option.map_eq_some_iff.mp hset'
        obtain ⟨c', hc', rfl⟩ := Option.map_eq_some_iff.mp hc
        rw [putEntry_putEntry tag]
        refine set_written_plans (fun j hj => by rw [getEntry_putEntry, if_neg hj]) ?_ (map_putEntry _ _ _ _) ?_
        · intro e he
          rcases mem_putEntry he with rfl | he
          · exact readable_object c'
          · exact hread e he
        · rw [Json.setFields, child_normalized hvalue, Option.bind_some, hc']
          rfl
    · rw [if_neg hkey] at hroot₁
      obtain rfl := Except.ok.inj hroot₁
      exact set_written_root hkey hplans hread hset'

/-- Writes keep documents sorted. -/
theorem sorted_set {document document' : Json Text N} {path : Path} {v : Option (Json Text N)}
    (hsorted : document.Sorted) (hv : ∀ x, v = some x → x.Sorted) (h : set f document path v = .ok document') :
    document'.Sorted := by
  cases path with
  | nil => exact absurd h (by simp [set])
  | cons key below =>
    cases document with
    | object root =>
      obtain ⟨root₁, hroot₁, h⟩ := bind_eq_ok.mp h
      have hfields := (Json.sorted_object.mp hsorted).2
      have hopen : (Json.object root₁).Sorted := by
        split at hroot₁
        · rcases below with _ | ⟨tag, _ | ⟨field, rest⟩⟩
          · exact Except.ok.inj hroot₁ ▸ hsorted
          · obtain ⟨values, hvalues, rfl⟩ := map_eq_ok.mp hroot₁
            exact Json.sorted_putEntry_object hsorted
              (sorted_plans (fun x hx => hfields _ (mem_of_getEntry hx)) hvalues)
          · obtain ⟨values, hvalues, hroot₁⟩ := bind_eq_ok.mp hroot₁
            obtain ⟨value, hvalue, rfl⟩ := map_eq_ok.mp hroot₁
            have hplans := sorted_plans (fun x hx => hfields _ (mem_of_getEntry hx)) hvalues
            refine Json.sorted_putEntry_object hsorted (Json.sorted_putEntry_object hplans ?_)
            unfold planAt at hvalue
            split at hvalue
            · rename_i u hu
              rw [← object_of_plan hvalue]
              exact sorted_asPlan ((Json.sorted_object.mp hplans).2 _ (mem_of_getEntry hu))
            · exact Except.ok.inj hvalue ▸ .object List.Pairwise.nil (by simp)
        · exact Except.ok.inj hroot₁ ▸ hsorted
      split at h
      · rename_i root₂ hroot₂
        exact Except.ok.inj h ▸ Json.sorted_setFields hopen hv hroot₂
      · exact absurd h (by simp)
    | _ => exact absurd h (by simp [set])

end SentryUsb.Rates
