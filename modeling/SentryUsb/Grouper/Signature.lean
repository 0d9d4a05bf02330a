import SentryUsb.Grouper.Clip

/-! # Splitting a gear group by external signature

Imported drives carry a signature, and clips of different signatures never share a drive. The source
collects them in a hash map and reads the buckets back in the map's own iteration order, which a
randomly seeded hasher changes from call to call. That order is a parameter here.

* **`BucketOrder`** — an iteration order: any rearrangement of the keys of a map;
* **`splitByExternalSignature`** — the split (`grouper.rs`, `split_by_external_signature`,
  `split_summary_by_external_signature`, `plan_split_by_signature`);
* **`splitByExternalSignature_of_single`** — with at most one signature the order plays no part;
* **`splitByExternalSignature_reverse_ne`** — with two it does. -/

namespace SentryUsb

/-- An iteration order of a hash map: the order in which its keys are visited. -/
structure BucketOrder where
  run : List Text → List Text
  perm : ∀ keys, (run keys).Perm keys

/-- Visit the keys as listed. -/
def BucketOrder.forward : BucketOrder := ⟨id, fun _ => List.Perm.refl _⟩

/-- Visit the keys backwards. -/
def BucketOrder.backward : BucketOrder := ⟨List.reverse, fun keys => keys.reverse_perm⟩

section Split

variable {α β : Type*} (sig : α → Option Text)

/-- The keys of the buckets. -/
def signatures (group : List α) : List Text := (group.filterMap sig).dedup

/-- The bucket of one key. -/
def bucket (group : List α) (key : Text) : List α := group.filter fun c => sig c = some key

/-- The clips without a signature. -/
def unsigned (group : List α) : List α := group.filter fun c => (sig c).isNone

/-- The clips with a signature. -/
def signed (group : List α) : List α := group.filter fun c => (sig c).isSome

/-- A list of groups holding `g` unless it is empty. -/
def nonempty (g : List α) : List (List α) := if g.isEmpty then [] else [g]

/-- Split a group by signature: the unsigned clips first, then one group per bucket in the map's
order. -/
def splitByExternalSignature (o : BucketOrder) (group : List α) : List (List α) :=
  if group.length ≤ 1 then [group]
  else if group.all fun c => (sig c).isNone then [group]
  else nonempty (unsigned sig group) ++ (o.run (signatures sig group)).map (bucket sig group)

variable {sig}

theorem mem_signatures {group : List α} {key : Text} :
    key ∈ signatures sig group ↔ ∃ c ∈ group, sig c = some key := by
  simp [signatures]

theorem bucket_ne_nil {group : List α} {key : Text} (h : key ∈ signatures sig group) :
    bucket sig group key ≠ [] := by
  rw [mem_signatures] at h
  obtain ⟨c, hc, hsig⟩ := h
  exact List.ne_nil_of_mem (List.mem_filter.mpr ⟨hc, by simpa using hsig⟩)

/-- Buckets of different keys differ. -/
theorem bucket_injOn {group : List α} {k k' : Text} (h : k ∈ signatures sig group)
    (he : bucket sig group k = bucket sig group k') : k = k' := by
  obtain ⟨c, hc⟩ := List.exists_mem_of_ne_nil _ (bucket_ne_nil h)
  have h1 := (List.mem_filter.mp hc).2
  rw [he] at hc
  have h2 := (List.mem_filter.mp hc).2
  simp only [decide_eq_true_eq] at h1 h2
  exact Option.some.inj (h1.symm.trans h2)

/-- A group holds a signed clip exactly when it has a bucket. -/
theorem signatures_eq_nil_iff {group : List α} :
    signatures sig group = [] ↔ ∀ c ∈ group, (sig c).isNone = true := by
  rw [List.eq_nil_iff_forall_not_mem]
  constructor
  · intro h c hc
    cases hsig : sig c with
    | none => rfl
    | some key =>
      refine absurd ?_ (h key)
      rw [mem_signatures]
      exact ⟨c, hc, hsig⟩
  · intro h key hkey
    rw [mem_signatures] at hkey
    obtain ⟨c, hc, hsig⟩ := hkey
    have := h c hc
    rw [hsig] at this
    exact Bool.false_ne_true this

/-- With one signature, its bucket is the signed part of the group. -/
theorem bucket_eq_signed {group : List α} {key : Text} (h : signatures sig group = [key]) :
    bucket sig group key = signed sig group := by
  refine List.filter_congr fun c hc => ?_
  cases hsig : sig c with
  | none => simp
  | some k =>
    have hk : k ∈ signatures sig group := by
      rw [mem_signatures]
      exact ⟨c, hc, hsig⟩
    rw [h, List.mem_singleton] at hk
    simp [hk]

/-- **With at most one signature the split is the unsigned part and the signed part**, whatever the
iteration order. -/
theorem splitByExternalSignature_of_single (o : BucketOrder) {group : List α} (hne : group ≠ [])
    (h : (signatures sig group).length ≤ 1) :
    splitByExternalSignature sig o group
      = nonempty (unsigned sig group) ++ nonempty (signed sig group) := by
  have hparts : ∀ {g : List α}, g ≠ [] → nonempty g = [g] := fun hg => by simp [nonempty, hg]
  have hnil : nonempty ([] : List α) = [] := rfl
  have hall : signatures sig group = [] → unsigned sig group = group ∧ signed sig group = [] := by
    intro hs
    rw [signatures_eq_nil_iff] at hs
    refine ⟨List.filter_eq_self.mpr hs, List.filter_eq_nil_iff.mpr fun c hc => ?_⟩
    simp [Option.isNone_iff_eq_none.mp (hs c hc)]
  rcases hs : signatures sig group with _ | ⟨key, _ | ⟨key', rest⟩⟩
  · obtain ⟨hu, hsd⟩ := hall hs
    have hnone : (group.all fun c => (sig c).isNone) = true :=
      List.all_eq_true.mpr (by rwa [← signatures_eq_nil_iff])
    simp [splitByExternalSignature, hnone, hu, hsd, hparts hne, hnil]
  · have hb := bucket_eq_signed hs
    have hsd : signed sig group ≠ [] := by
      rw [← hb]
      exact bucket_ne_nil (by rw [hs]; exact List.mem_singleton_self key)
    have hsome : (group.all fun c => (sig c).isNone) = false := by
      rw [Bool.eq_false_iff]
      intro hall'
      rw [List.all_eq_true, ← signatures_eq_nil_iff, hs] at hall'
      exact List.cons_ne_nil _ _ hall'
    have hrun : o.run [key] = [key] := List.perm_singleton.mp (o.perm [key])
    by_cases hlen : group.length ≤ 1
    · -- a single signed clip: the unsigned part is empty
      obtain ⟨c, rfl⟩ : ∃ c, group = [c] := by
        match group, hne, hlen with
        | [c], _, _ => exact ⟨c, rfl⟩
      have hcs : (sig c).isNone = false := by simpa using hsome
      have hu : unsigned sig [c] = [] := by simp [unsigned, hcs]
      have hc : signed sig [c] = [c] := by
        cases hsig : sig c with
        | none => simp [hsig] at hcs
        | some k => simp [signed, hsig]
      simp [splitByExternalSignature, hu, hc, hnil, hparts]
    · simp [splitByExternalSignature, hlen, hsome, hs, hrun, hb, hparts hsd]
  · rw [hs] at h
    simp at h

/-- With two signatures, two iteration orders give two different lists. -/
theorem splitByExternalSignature_reverse_ne {group : List α}
    (h : 1 < (signatures sig group).length) :
    splitByExternalSignature sig .forward group ≠ splitByExternalSignature sig .backward group := by
  intro heq
  have hsome : (group.all fun c => (sig c).isNone) = false := by
    rw [Bool.eq_false_iff]
    intro hall
    rw [List.all_eq_true, ← signatures_eq_nil_iff] at hall
    simp [hall] at h
  have hlen : ¬ group.length ≤ 1 := by
    have h1 : (signatures sig group).length ≤ (group.filterMap sig).length :=
      (List.dedup_sublist _).length_le
    have h2 : (group.filterMap sig).length ≤ group.length := List.length_filterMap_le sig group
    omega
  simp only [splitByExternalSignature, hlen, if_false, hsome, Bool.false_eq_true,
    List.append_cancel_left_eq] at heq
  obtain ⟨key, key', rest, hkeys⟩ : ∃ key key' rest, signatures sig group = key :: key' :: rest := by
    match hs : signatures sig group, h with
    | key :: key' :: rest, _ => exact ⟨key, key', rest, rfl⟩
  -- the first bucket would be the last one, but the keys of a map are distinct
  have hnodup : (key :: key' :: rest).Nodup := hkeys ▸ List.nodup_dedup _
  have hhead := congrArg List.head? heq
  simp only [BucketOrder.forward, BucketOrder.backward, id, List.head?_map, List.head?_reverse,
    hkeys, List.head?_cons, List.getLast?_cons_cons, Option.map_some] at hhead
  rw [List.getLast?_eq_some_getLast (List.cons_ne_nil _ _), Option.map_some] at hhead
  have hlast : key = (key' :: rest).getLast (List.cons_ne_nil _ _) :=
    bucket_injOn (by rw [hkeys]; exact List.mem_cons_self) (Option.some.inj hhead)
  have hmem : key ∈ key' :: rest := by
    rw [hlast]
    exact List.getLast_mem _
  exact (List.nodup_cons.mp hnodup).1 hmem

/-- A part of the split is the group itself, or what one bucket keeps of it. -/
theorem exists_filter_of_mem_split {o : BucketOrder}
    {g d : List α} (hg : g ≠ []) (hd : d ∈ splitByExternalSignature sig o g) :
    d ≠ [] ∧ ∃ p : α → Bool, d = g.filter p := by
  have hself : ∃ p : α → Bool, g = g.filter p := ⟨fun _ => true, by simp⟩
  unfold splitByExternalSignature at hd
  split at hd
  · obtain rfl := List.mem_singleton.mp hd
    exact ⟨hg, hself⟩
  · split at hd
    · obtain rfl := List.mem_singleton.mp hd
      exact ⟨hg, hself⟩
    · rcases List.mem_append.mp hd with hd | hd
      · unfold nonempty at hd
        split at hd
        · simp at hd
        · next hne =>
            obtain rfl := List.mem_singleton.mp hd
            exact ⟨by simpa using hne, _, rfl⟩
      · obtain ⟨key, hkey, rfl⟩ := List.mem_map.mp hd
        exact ⟨bucket_ne_nil ((o.perm _).subset hkey), _, rfl⟩

/-- Either way the split has the same number of groups. -/
theorem length_splitByExternalSignature (o o' : BucketOrder) (group : List α) :
    (splitByExternalSignature sig o group).length
      = (splitByExternalSignature sig o' group).length := by
  unfold splitByExternalSignature
  split
  · rfl
  · split
    · rfl
    · simp [(o.perm _).length_eq, (o'.perm _).length_eq]

/-- The buckets of some of the keys hold what has one of them. -/
theorem flatMap_bucket_perm (group : List α) {keys : List Text} (hnodup : keys.Nodup) :
    (keys.flatMap (bucket sig group)).Perm (group.filter fun c => decide (∃ k ∈ keys, sig c = some k)) := by
  induction keys with
  | nil => simp
  | cons key keys ih =>
    obtain ⟨hnew, hrest⟩ := List.nodup_cons.mp hnodup
    rw [List.flatMap_cons]
    -- those of the first key, and those of a later one
    have hsplit := List.filter_append_perm (fun c => decide (sig c = some key))
      (group.filter fun c => decide (∃ k ∈ key :: keys, sig c = some k))
    rw [List.filter_filter, List.filter_filter] at hsplit
    have hfirst : group.filter (fun c => decide (sig c = some key) && decide (∃ k ∈ key :: keys, sig c = some k))
        = bucket sig group key := by
      refine List.filter_congr fun c _ => ?_
      by_cases hsig : sig c = some key
      · simp [hsig]
      · simp [hsig]
    have hlater : group.filter (fun c => (!decide (sig c = some key)) && decide (∃ k ∈ key :: keys, sig c = some k))
        = group.filter fun c => decide (∃ k ∈ keys, sig c = some k) := by
      refine List.filter_congr fun c _ => ?_
      by_cases hsig : sig c = some key
      · simp [hsig, hnew]
      · simp [hsig]
    rw [hfirst, hlater] at hsplit
    exact ((ih hrest).append_left _).trans hsplit

/-- **The split rearranges the clips of the group**, whatever the iteration order. -/
theorem flatten_splitByExternalSignature_perm (o : BucketOrder) (group : List α) :
    (splitByExternalSignature sig o group).flatten.Perm group := by
  unfold splitByExternalSignature
  split
  · simp
  · split
    · simp
    · have hnonempty : ∀ g : List α, (nonempty g).flatten = g := by
        intro g
        cases g <;> simp [nonempty]
      rw [List.flatten_append, hnonempty, ← List.flatMap_def]
      have hkeys : ((o.run (signatures sig group)).flatMap (bucket sig group)).Perm (signed sig group) := by
        refine ((o.perm _).flatMap_right _).trans ?_
        refine (flatMap_bucket_perm group (List.nodup_dedup _)).trans (List.Perm.of_eq ?_)
        refine List.filter_congr fun c hc => ?_
        cases hsig : sig c with
        | none => simp
        | some key =>
          have hkey : key ∈ signatures sig group := mem_signatures.mpr ⟨c, hc, hsig⟩
          exact decide_eq_true ⟨key, hkey, rfl⟩
      refine (hkeys.append_left _).trans ?_
      have hsplit := List.filter_append_perm (fun c => (sig c).isNone) group
      have hsigned : group.filter (fun c => !(sig c).isNone) = signed sig group := by
        refine List.filter_congr fun c _ => ?_
        cases sig c <;> rfl
      rw [hsigned] at hsplit
      exact hsplit

/-- **The signature split keeps the order of clips that have one signature.** -/
theorem filter_flatten_splitByExternalSignature (o : BucketOrder) (group : List α)
    {p : α → Bool} {s : Option Text} (hp : ∀ c ∈ group, p c = true → sig c = s) :
    (splitByExternalSignature sig o group).flatten.filter p = group.filter p := by
  have hnonempty : ∀ g : List α, (nonempty g).flatten = g := fun g => by cases g <;> simp [nonempty]
  have hnone : ∀ q : α → Bool, (∀ c ∈ group, p c = true → q c = false) → (group.filter q).filter p = [] :=
    fun q hq => List.filter_eq_nil_iff.mpr fun c hc hpc => by
      obtain ⟨hc, hqc⟩ := List.mem_filter.mp hc
      exact absurd hqc (by rw [hq c hc hpc]; simp)
  have hall : ∀ q : α → Bool, (∀ c ∈ group, p c = true → q c = true) → (group.filter q).filter p = group.filter p := by
    intro q hq
    rw [List.filter_filter]
    refine List.filter_congr fun c hc => ?_
    cases hpc : p c with
    | false => rfl
    | true => rw [hq c hc hpc]; rfl
  unfold splitByExternalSignature
  split
  · rw [List.flatten_singleton]
  · split
    · rw [List.flatten_singleton]
    · rw [List.flatten_append, hnonempty, List.filter_append, ← List.flatMap_def, List.filter_flatMap]
      cases s with
      | none =>
        have hbuckets : ((o.run (signatures sig group)).flatMap fun key => (bucket sig group key).filter p) = [] :=
          List.flatMap_eq_nil_iff.mpr fun key _ => hnone _ fun c hc hpc => by
            rw [hp c hc hpc]
            rfl
        rw [hbuckets, List.append_nil]
        exact hall _ fun c hc hpc => by rw [hp c hc hpc]; rfl
      | some key =>
        have hunsigned : (unsigned sig group).filter p = [] := hnone _ fun c hc hpc => by rw [hp c hc hpc]; rfl
        rw [hunsigned, List.nil_append]
        -- only the bucket of their signature holds them
        have hother : ∀ k, k ≠ key → (bucket sig group k).filter p = [] := fun k hk =>
          hnone _ fun c hc hpc => by
            rw [hp c hc hpc, decide_eq_false_iff_not]
            exact fun heq => hk (Option.some.inj heq).symm
        have hown : (bucket sig group key).filter p = group.filter p :=
          hall _ fun c hc hpc => by rw [hp c hc hpc]; simp
        have hkeys : ∀ keys : List Text, keys.Nodup →
            (keys.flatMap fun k => (bucket sig group k).filter p) = if key ∈ keys then group.filter p else [] := by
          intro keys
          induction keys with
          | nil => intro _; rfl
          | cons k keys ih =>
            intro hnodup
            obtain ⟨hnew, hrest⟩ := List.nodup_cons.mp hnodup
            rw [List.flatMap_cons, ih hrest]
            by_cases hk : k = key
            · rw [hk, hown, if_neg (hk ▸ hnew), List.append_nil, if_pos List.mem_cons_self]
            · rw [hother k hk, List.nil_append]
              have hmem : key ∈ k :: keys ↔ key ∈ keys := by
                rw [List.mem_cons]
                exact or_iff_right fun heq => hk heq.symm
              simp only [hmem]
        have hnodup : (signatures sig group).Nodup := List.nodup_dedup _
        rw [hkeys _ ((o.perm _).nodup_iff.mpr hnodup)]
        split
        · rfl
        · rename_i habsent
          refine (List.filter_eq_nil_iff.mpr fun c hc hpc => habsent ?_).symm
          exact (o.perm _).mem_iff.mpr (mem_signatures.mpr ⟨c, hc, hp c hc hpc⟩)

end Split

end SentryUsb
