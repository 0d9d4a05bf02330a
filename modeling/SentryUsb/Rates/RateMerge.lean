import SentryUsb.Rates.RateHistory

/-! # The rate merge is a three-way merge

A merge takes recorded edits to a Cloud document that may have moved on. Where the edits changed something for good, the
result has their last value; everywhere else it has the Cloud's; a Cloud value that the edits never saw is a conflict;
and merging again changes nothing.

* **`mergeChange_cases`**, **`mergeAsserted_cases`**, **`mergeRequired_cases`** — what one step of the merge can do;
* **`Merging`** — what holds of the merged document after some of the steps;
* **`Merging.change`**, **`Merging.fill`** — what the steps keep of it;
* **`merge_threeWay`** — the merge as a whole. -/

set_option linter.unusedSectionVars false

namespace SentryUsb.Rates

open SentryUsb.Library

variable {N R : Type} [DecidableEq N] [DecidableEq R] {f : Reading N R}

/-! ## Steps -/

/-- No parent is gone: every prefix of at least two keys that was there before is there now. -/
theorem parentRemoved_eq_false {before observed : Json Text N} {p : Path} :
    parentRemoved before observed p = false ↔ ∀ q, q <+: p → q ≠ p → 2 ≤ q.length →
      (before.getPath q).isSome → (observed.getPath q).isSome := by
  unfold parentRemoved
  rw [List.any_eq_false]
  constructor
  · intro h q hq hne hlen hbefore
    have hlt : q.length < p.length :=
      lt_of_le_of_ne hq.length_le fun heq => hne (List.IsPrefix.eq_of_length hq heq)
    have hstep := h q.length (List.mem_range'_1.mpr ⟨hlen, by omega⟩)
    rw [← List.prefix_iff_eq_take.mp hq, hbefore, Bool.true_and, Option.isNone_iff_eq_none] at hstep
    exact Option.isSome_iff_ne_none.mpr hstep
  · intro h n hn
    obtain ⟨hlow, hhigh⟩ := List.mem_range'_1.mp hn
    have hlt : n < p.length := by omega
    have hlen : (p.take n).length = n := by rw [List.length_take]; omega
    rw [Bool.and_eq_true, not_and, Option.isNone_iff_eq_none]
    intro hbefore hnone
    have hsome := h (p.take n) (List.take_prefix n p) (fun heq => by rw [heq] at hlen; omega) (by omega) hbefore
    rw [hnone] at hsome
    exact absurd hsome (by simp)

section Steps

variable {evs : List (Event N)} {p : Path} {document document' : Json Text N}

/-- The Cloud value is one that the edits know: the first one, or one that an edit gave. -/
def Known (f : Reading N R) (evs : List (Event N)) (w : Json Text N) (p : Path) : Prop :=
  equal f p (w.getPath p) (firstBefore evs p) = true
    ∨ ∃ e ∈ touching evs p, equal f p (w.getPath p) (e.after.getPath p) = true

/-- **What merging the changes of a path can do.** -/
theorem mergeChange_cases (hp : touching evs p ≠ []) (h : mergeChange f evs true document p = .ok document') :
    (Cancelled f evs p ∧ document' = document) ∨ (¬ Cancelled f evs p ∧ ∃ w first, view f document = .ok w
      ∧ (touching evs p).head? = some first ∧ parentRemoved first.before w p = false ∧ Known f evs w p
      ∧ ((equal f p (w.getPath p) (lastAfter evs p) = true ∧ document' = document)
        ∨ (equal f p (w.getPath p) (lastAfter evs p) = false ∧ set f document p (lastAfter evs p) = .ok document'))) := by
  obtain ⟨first, rest, htouching⟩ := List.exists_cons_of_ne_nil hp
  have hfirst : firstBefore evs p = first.before.getPath p := by
    rw [firstBefore, htouching]
    rfl
  have hlast : lastAfter evs p = ((first :: rest).getLast (List.cons_ne_nil _ _)).after.getPath p := by
    rw [lastAfter, htouching, List.getLast?_eq_some_getLast (List.cons_ne_nil _ _)]
    rfl
  unfold mergeChange at h
  rw [htouching] at h
  dsimp only at h
  rw [← hfirst, ← hlast] at h
  split at h
  · rename_i hcancel
    exact Or.inl ⟨hcancel, (Except.ok.inj h).symm⟩
  · rename_i hactive
    obtain ⟨w, hw, h⟩ := bind_eq_ok.mp h
    split at h
    · exact absurd h (by simp)
    · rename_i hparents
      split at h
      · exact absurd h (by simp)
      · rename_i hknown
        refine Or.inr ⟨hactive, w, first, hw, by rw [htouching]; rfl, by simpa using hparents, ?_, ?_⟩
        · rw [Bool.true_and, Bool.not_eq_true', Bool.not_eq_false, Bool.or_eq_true, List.any_eq_true] at hknown
          unfold Known
          rw [htouching]
          exact hknown
        · split at h
          · rename_i hequal
            exact Or.inl ⟨hequal, (Except.ok.inj h).symm⟩
          · rename_i hequal
            exact Or.inr ⟨by simpa using hequal, h⟩

/-- Changes that cancel out, or are there already, change nothing. -/
theorem mergeChange_fixed (hp : touching evs p ≠ []) (h : ¬ Cancelled f evs p → ∃ w, view f document = .ok w
      ∧ equal f p (w.getPath p) (lastAfter evs p) = true
      ∧ ∀ first, (touching evs p).head? = some first → parentRemoved first.before w p = false) :
    mergeChange f evs true document p = .ok document := by
  obtain ⟨first, rest, htouching⟩ := List.exists_cons_of_ne_nil hp
  have hfirst : firstBefore evs p = first.before.getPath p := by
    rw [firstBefore, htouching]
    rfl
  have hlast : lastAfter evs p = ((first :: rest).getLast (List.cons_ne_nil _ _)).after.getPath p := by
    rw [lastAfter, htouching, List.getLast?_eq_some_getLast (List.cons_ne_nil _ _)]
    rfl
  unfold mergeChange
  rw [htouching]
  dsimp only
  rw [← hfirst, ← hlast]
  split
  · rfl
  · rename_i hactive
    obtain ⟨w, hw, hequal, hparents⟩ := h hactive
    have hany : (first :: rest).any (fun e => equal f p (w.getPath p) (e.after.getPath p)) = true := by
      refine List.any_eq_true.mpr ⟨_, List.getLast_mem (List.cons_ne_nil _ _), ?_⟩
      rw [← hlast]
      exact hequal
    have hremoved := hparents first (by rw [htouching]; rfl)
    rw [hw]
    simp [Except.bind, hremoved, hany, hequal]

/-- **What publishing an asserted value can do.** -/
theorem mergeAsserted_cases {last : Event N} (h : mergeAsserted f last true document p = .ok document') :
    (last.after.getPath p = none ∧ document' = document) ∨ ∃ desired w, last.after.getPath p = some desired
      ∧ view f document = .ok w ∧ ((equal f p (w.getPath p) (some desired) = true ∧ document' = document)
        ∨ (w.getPath p = none ∧ set f document p (some desired) = .ok document')) := by
  unfold mergeAsserted at h
  split at h
  · rename_i hnone
    exact Or.inl ⟨hnone, (Except.ok.inj h).symm⟩
  · rename_i desired hdesired
    obtain ⟨w, hw, h⟩ := bind_eq_ok.mp h
    refine Or.inr ⟨desired, w, hdesired, hw, ?_⟩
    dsimp only at h
    split at h
    · exact absurd h (by simp)
    · rename_i hcheck
      split at h
      · rename_i hequal
        exact Or.inl ⟨hequal, (Except.ok.inj h).symm⟩
      · rename_i hequal
        refine Or.inr ⟨?_, h⟩
        simpa [hequal] using hcheck

theorem mergeAsserted_fixed {last : Event N} (h : ∀ desired, last.after.getPath p = some desired →
      ∃ w, view f document = .ok w ∧ equal f p (w.getPath p) (some desired) = true) :
    mergeAsserted f last true document p = .ok document := by
  unfold mergeAsserted
  split
  · rfl
  · rename_i desired hdesired
    obtain ⟨w, hw, hequal⟩ := h desired hdesired
    rw [hw]
    simp [Except.bind, hequal]

/-- **What publishing a required plan can do.** -/
theorem mergeRequired_cases {last : Event N} {tag : Text} (h : mergeRequired f last true document tag = .ok document') :
    (last.after.getPath [tagRates, tag] = none ∧ document' = document)
      ∨ ∃ desired w, last.after.getPath [tagRates, tag] = some desired ∧ view f document = .ok w
        ∧ ((w.getPath [tagRates, tag] = none ∧ set f document [tagRates, tag] (some desired) = .ok document')
          ∨ (∃ c, w.getPath [tagRates, tag] = some c ∧ agrees f tag (some c) desired = true ∧ document' = document)) := by
  unfold mergeRequired at h
  split at h
  · rename_i hnone
    exact Or.inl ⟨hnone, (Except.ok.inj h).symm⟩
  · rename_i desired hdesired
    obtain ⟨w, hw, h⟩ := bind_eq_ok.mp h
    refine Or.inr ⟨desired, w, hdesired, hw, ?_⟩
    dsimp only at h
    split at h
    · rename_i hnone
      exact Or.inl ⟨Option.isNone_iff_eq_none.mp hnone, h⟩
    · rename_i hsome
      rw [if_pos rfl] at h
      obtain ⟨c, hc⟩ := Option.ne_none_iff_exists'.mp (fun hnone => hsome (Option.isNone_iff_eq_none.mpr hnone))
      split at h
      · rename_i hagrees
        rw [hc] at hagrees
        exact Or.inr ⟨c, hc, hagrees, (Except.ok.inj h).symm⟩
      · exact absurd h (by simp)

theorem mergeRequired_fixed {last : Event N} {tag : Text}
    (h : ∀ desired, last.after.getPath [tagRates, tag] = some desired → ∃ w c, view f document = .ok w
      ∧ w.getPath [tagRates, tag] = some c ∧ agrees f tag (some c) desired = true) :
    mergeRequired f last true document tag = .ok document := by
  unfold mergeRequired
  split
  · rfl
  · rename_i desired hdesired
    obtain ⟨w, c, hw, hc, hagrees⟩ := h desired hdesired
    rw [hw]
    simp [Except.bind, hc, hagrees]

end Steps

/-! ## Invariant -/

/-- What holds of the view of the document after the changes of `C`, the assertions `A` and the requirements `T`, when
the Cloud's view was `w₀`. -/
structure Merging (f : Reading N R) (evs : List (Event N)) (last : Event N) (w₀ : Json Text N) (C A : List Path)
    (T : List Text) (w : Json Text N) : Prop where
  /-- A change that is not cancelled is there, and so is everything above it. -/
  changes : ∀ p ∈ C, ¬ Cancelled f evs p → equal f p (w.getPath p) (lastAfter evs p) = true
    ∧ ∀ q, q <+: p → q ≠ p → 2 ≤ q.length → (w.getPath q).isSome
  /-- An asserted value is there. -/
  asserts : ∀ p ∈ A, ∀ desired, last.after.getPath p = some desired → equal f p (w.getPath p) (some desired) = true
  /-- A required plan is there with its prices. -/
  requires : ∀ tag ∈ T, ∀ desired, last.after.getPath [tagRates, tag] = some desired →
    ∃ c, w.getPath [tagRates, tag] = some c ∧ agrees f tag (some c) desired = true
  /-- Beside all these the document is the Cloud's. -/
  frame : ∀ q, (∀ p ∈ C, ¬ Cancelled f evs p → Apart p q) → (∀ p ∈ A, Apart p q) →
    (∀ tag ∈ T, Apart [tagRates, tag] q) → w.getPath q = w₀.getPath q

/-- What the first pass knows of the Cloud document: nothing above a change was made by the merge, and the Cloud's value
at a change was known. -/
structure Checked (f : Reading N R) (evs : List (Event N)) (w₀ : Json Text N) (C : List Path) (w : Json Text N) :
    Prop where
  origin : ∀ q, 2 ≤ q.length → (∀ p ∈ C, ¬ Cancelled f evs p → ¬ p <+: q) → (w.getPath q).isSome →
    (w₀.getPath q).isSome
  known : ∀ p ∈ C, ¬ Cancelled f evs p → Known f evs w₀ p ∧ ∀ q, q <+: p → q ≠ p → 2 ≤ q.length → (w₀.getPath q).isSome

section Invariant

variable {evs : List (Event N)} {last : Event N} {w₀ w : Json Text N} {C A : List Path} {T : List Text}
  {document document' : Json Text N}

theorem Merging.start : Merging f evs last w₀ [] [] [] w₀ :=
  ⟨by simp, by simp, by simp, fun _ _ _ _ => rfl⟩

theorem Checked.start : Checked f evs w₀ [] w₀ := ⟨fun _ _ _ h => h, by simp⟩

/-- A change that was made already, or cancelled, adds nothing. -/
theorem Merging.skip_change (h : Merging f evs last w₀ C A T w) {p : Path}
    (hp : ¬ Cancelled f evs p → equal f p (w.getPath p) (lastAfter evs p) = true
      ∧ ∀ q, q <+: p → q ≠ p → 2 ≤ q.length → (w.getPath q).isSome) : Merging f evs last w₀ (C ++ [p]) A T w := by
  refine ⟨fun p' hp' => ?_, h.asserts, h.requires, fun q hC hA hT => ?_⟩
  · rcases List.mem_append.mp hp' with hp' | hp'
    · exact h.changes p' hp'
    · rw [List.mem_singleton.mp hp']
      exact hp
  · exact h.frame q (fun p' hp' => hC p' (List.mem_append_left _ hp')) hA hT

theorem Checked.skip (h : Checked f evs w₀ C w) {p : Path} (hp : ¬ Cancelled f evs p → Known f evs w₀ p
      ∧ ∀ q, q <+: p → q ≠ p → 2 ≤ q.length → (w₀.getPath q).isSome) : Checked f evs w₀ (C ++ [p]) w := by
  refine ⟨fun q hlen hC => h.origin q hlen fun p' hp' => hC p' (List.mem_append_left _ hp'), fun p' hp' => ?_⟩
  rcases List.mem_append.mp hp' with hp' | hp'
  · exact h.known p' hp'
  · rw [List.mem_singleton.mp hp']
    exact hp

/-- **A change is made**: the changes beside it stay. -/
theorem Merging.change {w' : Json Text N} {p : Path} (h : Merging f evs last w₀ C [] [] w)
    (happart : ∀ p' ∈ C, ¬ Cancelled f evs p' → Apart p p') (hactive : ¬ Cancelled f evs p)
    (hparents : ∀ q, q <+: p → q ≠ p → 2 ≤ q.length → (w.getPath q).isSome)
    (hwritten : Written p (lastAfter evs p) w w') : Merging f evs last w₀ (C ++ [p]) [] [] w' := by
  refine ⟨fun p' hp' hactive' => ?_, by simp, by simp, fun q hC _ _ => ?_⟩
  · rcases List.mem_append.mp hp' with hp' | hp'
    · obtain ⟨hequal, habove⟩ := h.changes p' hp' hactive'
      have hpp' := happart p' hp' hactive'
      refine ⟨by rw [hwritten.apart p' hpp']; exact hequal, fun q hq hne hlen => ?_⟩
      exact hwritten.kept q (fun hpq => hpp'.1 (hpq.trans hq)) (habove q hq hne hlen)
    · rw [List.mem_singleton.mp hp']
      have hat := hwritten.below []
      rw [List.append_nil] at hat
      refine ⟨?_, fun q hq hne hlen => hwritten.kept q ?_ (hparents q hq hne hlen)⟩
      · rw [hat, show Json.getPath ([] : Path) = (some : Json Text N → _) from rfl, Option.bind_fun_some]
        exact equal_refl _ _
      · exact fun hpq => hne (List.IsPrefix.eq_of_length_le hq hpq.length_le)
  · rw [hwritten.apart q (hC p (List.mem_append_right _ (List.mem_singleton_self _)) hactive)]
    exact h.frame q (fun p' hp' => hC p' (List.mem_append_left _ hp')) (by simp) (by simp)

theorem Checked.change {w' : Json Text N} {p : Path} (h : Checked f evs w₀ C w) (hactive : ¬ Cancelled f evs p)
    (hknown : Known f evs w₀ p ∧ ∀ q, q <+: p → q ≠ p → 2 ≤ q.length → (w₀.getPath q).isSome)
    (hparents : ∀ q, q <+: p → q ≠ p → 2 ≤ q.length → (w.getPath q).isSome)
    (hwritten : Written p (lastAfter evs p) w w') : Checked f evs w₀ (C ++ [p]) w' := by
  refine ⟨fun q hlen hC hsome => ?_, (h.skip fun _ => hknown).known⟩
  have hpq := hC p (List.mem_append_right _ (List.mem_singleton_self _)) hactive
  refine h.origin q hlen (fun p' hp' => hC p' (List.mem_append_left _ hp')) ?_
  by_cases hqp : q <+: p
  · exact hparents q hqp (fun heq => hpq (heq ▸ List.prefix_rfl)) hlen
  · rw [← hwritten.apart q ⟨hpq, hqp⟩]
    exact hsome

/-- A path under which a value may be filled in: a field of the root, or a plan. -/
def IsFill (P : Path) : Prop := (∃ key, key ≠ tagRates ∧ P = [key]) ∨ ∃ tag, P = [tagRates, tag]

/-- A place to fill in is at or above a field, or beside it. -/
theorem IsFill.cases {P p : Path} (hP : IsFill P) (hne : p ≠ []) (hmap : p ≠ [tagRates]) : P <+: p ∨ Apart P p := by
  by_cases hPp : P <+: p
  · exact Or.inl hPp
  · refine Or.inr ⟨hPp, fun hpP => hPp ?_⟩
    obtain ⟨k, p, rfl⟩ := List.exists_cons_of_ne_nil hne
    rcases hP with ⟨key, -, rfl⟩ | ⟨tag, rfl⟩
    · obtain ⟨rfl, hnil⟩ := List.cons_prefix_cons.mp hpP
      rw [List.prefix_nil.mp hnil]
    · obtain ⟨rfl, hrest⟩ := List.cons_prefix_cons.mp hpP
      rcases List.prefix_cons_iff.mp hrest with rfl | ⟨t, rfl, ht⟩
      · exact absurd rfl hmap
      · rw [List.prefix_nil.mp ht]

theorem IsFill.ne_nil {P : Path} (hP : IsFill P) : P ≠ [] := by
  rcases hP with ⟨key, -, rfl⟩ | ⟨tag, rfl⟩ <;> simp

theorem IsFill.ne_tagRates {P : Path} (hP : IsFill P) : P ≠ [tagRates] := by
  rcases hP with ⟨key, hkey, rfl⟩ | ⟨tag, rfl⟩
  · simpa using hkey
  · simp

/-- What the fill steps rely on: the recorded edits are a chain that ends with `last`, and the paths are of theirs. -/
structure Setting (f : Reading N R) (evs : List (Event N)) (last : Event N) (C A : List Path) : Prop where
  read : ∀ e ∈ evs, e.IsRead f
  chain : Chained f evs
  last : evs.getLast? = some last
  changes : C ⊆ collapse (changedPaths evs)
  asserts : ∀ p ∈ A, IsFill p

/-- **An absent value is filled in from the last edit**: everything that holds so far stays. -/
theorem Merging.fill {w' desired : Json Text N} {P : Path} (hset : Setting f evs last C A)
    (h : Merging f evs last w₀ C A T w) (hP : IsFill P) (hdesired : last.after.getPath P = some desired)
    (habsent : w.getPath P = none) (hwritten : Written P (some desired) w w') :
    (∀ p ∈ C, ¬ Cancelled f evs p → equal f p (w'.getPath p) (lastAfter evs p) = true
        ∧ ∀ q, q <+: p → q ≠ p → 2 ≤ q.length → (w'.getPath q).isSome)
      ∧ (∀ p ∈ A, ∀ desired, last.after.getPath p = some desired → equal f p (w'.getPath p) (some desired) = true)
      ∧ (∀ tag ∈ T, ∀ desired, last.after.getPath [tagRates, tag] = some desired →
        ∃ c, w'.getPath [tagRates, tag] = some c ∧ agrees f tag (some c) desired = true) := by
  have hbelow : ∀ t, w'.getPath (P ++ t) = last.after.getPath (P ++ t) := by
    intro t
    rw [hwritten.below t, Json.getPath_append, hdesired]
  have hpresent : ∀ q, (w.getPath q).isSome → ¬ P <+: q := by
    intro q hsome hPq
    have hsome := Json.isSome_getPath_of_prefix hPq hsome
    rw [habsent] at hsome
    exact absurd hsome (by simp)
  refine ⟨fun p hp hactive => ?_, fun p hp desired' hdesired' => ?_, fun tag htag desired' hdesired' => ?_⟩
  · obtain ⟨hequal, habove⟩ := h.changes p hp hactive
    have hcollapse := hset.changes hp
    obtain ⟨key, -, t, hrate⟩ := isRatePath_collapse hcollapse hset.read List.prefix_rfl
    refine ⟨?_, fun q hq hne hlen => ?_⟩
    · rcases hP.cases (by simp [hrate]) (ne_tagRates_collapse hcollapse hset.read List.prefix_rfl) with hPp | hapart
      · obtain ⟨t, rfl⟩ := hPp
        rw [hbelow t]
        exact equal_symm (equal_lastAfter hcollapse hset.read hset.chain hset.last)
      · rw [hwritten.apart p hapart]
        exact hequal
    · have hsome := habove q hq hne hlen
      exact hwritten.kept q (hpresent q hsome) hsome
  · have hfill := hset.asserts p hp
    rcases hP.cases hfill.ne_nil hfill.ne_tagRates with hPp | hapart
    · obtain ⟨t, rfl⟩ := hPp
      rw [hbelow t, hdesired']
      exact equal_refl _ _
    · rw [hwritten.apart p hapart]
      exact h.asserts p hp desired' hdesired'
  · obtain ⟨c, hc, hagrees⟩ := h.requires tag htag desired' hdesired'
    have hno := hpresent [tagRates, tag] (by rw [hc]; rfl)
    rcases hP.cases (p := [tagRates, tag]) (by simp) (by simp) with hPp | hapart
    · exact absurd hPp hno
    · exact ⟨c, by rw [hwritten.apart _ hapart]; exact hc, hagrees⟩

/-! ## Passes -/

/-- **First pass.** -/
theorem merging_changes (hread : ∀ e ∈ evs, e.IsRead f) (hcloud : view f document = .ok w₀)
    (h : (collapse (changedPaths evs)).foldlM (mergeChange f evs true) document = .ok document') :
    ∃ w, view f document' = .ok w ∧ Merging f evs last w₀ (collapse (changedPaths evs)) [] [] w
      ∧ Checked f evs w₀ (collapse (changedPaths evs)) w := by
  have hinv := foldlM_invariant (fun done document => done ⊆ collapse (changedPaths evs)
    ∧ ∃ w, view f document = .ok w ∧ Merging f evs last w₀ done [] [] w ∧ Checked f evs w₀ done w) h
    ⟨List.nil_subset _, w₀, hcloud, Merging.start, Checked.start⟩ ?_
  · exact hinv.2
  rintro done p document document' hp ⟨hdone, w, hw, hmerging, hchecked⟩ hstep
  refine ⟨List.append_subset.mpr ⟨hdone, by simpa using hp⟩, ?_⟩
  rcases mergeChange_cases (touching_ne_nil hp) hstep with ⟨hcancel, rfl⟩ | ⟨hactive, w', first, hw', hfirst, hremoved, hknown, hresult⟩
  · exact ⟨w, hw, hmerging.skip_change (absurd hcancel), hchecked.skip (absurd hcancel)⟩
  obtain rfl : w = w' := Except.ok.inj (hw.symm.trans hw')
  by_cases hmem : p ∈ done
  · -- the path was merged before
    obtain ⟨hequal, habove⟩ := hmerging.changes p hmem hactive
    rcases hresult with ⟨-, rfl⟩ | ⟨hdiffers, -⟩
    · exact ⟨w, hw, hmerging.skip_change fun _ => ⟨hequal, habove⟩, hchecked.skip (hchecked.known p hmem)⟩
    · rw [hequal] at hdiffers
      exact absurd hdiffers (by simp)
  · have happart : ∀ p' ∈ done, Apart p p' := fun p' hp' =>
      collapse_apart hp (hdone hp') fun heq => hmem (heq ▸ hp')
    have hparents : ∀ q, q <+: p → q ≠ p → 2 ≤ q.length → (w.getPath q).isSome := fun q hq hne hlen =>
      parentRemoved_eq_false.mp hremoved q hq hne hlen (isSome_above_first hp hread hfirst hq hne)
    have hcloudAt : w.getPath p = w₀.getPath p :=
      hmerging.frame p (fun p' hp' _ => ⟨(happart p' hp').2, (happart p' hp').1⟩) (by simp) (by simp)
    have hknown₀ : Known f evs w₀ p ∧ ∀ q, q <+: p → q ≠ p → 2 ≤ q.length → (w₀.getPath q).isSome := by
      refine ⟨by unfold Known at hknown ⊢; rwa [hcloudAt] at hknown, fun q hq hne hlen => ?_⟩
      refine hchecked.origin q hlen (fun p' hp' _ hpq => ?_) (hparents q hq hne hlen)
      exact (happart p' hp').2 (hpq.trans hq)
    rcases hresult with ⟨hequal, rfl⟩ | ⟨-, hset⟩
    · exact ⟨w, hw, hmerging.skip_change fun _ => ⟨hequal, hparents⟩, hchecked.skip fun _ => hknown₀⟩
    · have hplan : isPlan p = true → ∀ x, lastAfter evs p = some x → ∃ l, x = .object l := by
        intro hplan x hx
        obtain ⟨e, he, hx⟩ := Option.bind_eq_some_iff.mp hx
        obtain ⟨d, hd⟩ := (hread e (List.mem_of_mem_filter (List.mem_of_getLast? he))).after
        exact object_of_view_plan hd hplan hx
      obtain ⟨w', hw', hwritten⟩ :=
        set_written hw hset (ne_tagRates_collapse hp hread List.prefix_rfl) hplan
      exact ⟨w', hw', hmerging.change (fun p' hp' _ => happart p' hp') hactive hparents hwritten,
        hchecked.change hactive hknown₀ hparents hwritten⟩

/-- A value filled in is seen as a plain write. -/
theorem written_fill {desired : Json Text N} {P : Path} (hset : Setting f evs last C A) (hP : IsFill P)
    (hw : view f document = .ok w) (hdesired : last.after.getPath P = some desired)
    (h : set f document P (some desired) = .ok document') :
    ∃ w', view f document' = .ok w' ∧ Written P (some desired) w w' := by
  refine set_written hw h hP.ne_tagRates fun hplan x hx => ?_
  obtain rfl : desired = x := by simpa using hx
  obtain ⟨d, hd⟩ := (hset.read last (List.mem_of_getLast? hset.last)).after
  exact object_of_view_plan hd hplan hdesired

/-- **Second pass.** -/
theorem merging_asserts (hset : Setting f evs last C A) (hw : view f document = .ok w)
    (hmerging : Merging f evs last w₀ C [] [] w) (h : A.foldlM (mergeAsserted f last true) document = .ok document') :
    ∃ w', view f document' = .ok w' ∧ Merging f evs last w₀ C A [] w' := by
  have hinv := foldlM_invariant (fun done document => done ⊆ A
    ∧ ∃ w, view f document = .ok w ∧ Merging f evs last w₀ C done [] w) h
    ⟨List.nil_subset _, w, hw, hmerging⟩ ?_
  · exact hinv.2
  rintro done P document document' hP ⟨hdone, w, hw, hmerging⟩ hstep
  refine ⟨List.append_subset.mpr ⟨hdone, by simpa using hP⟩, ?_⟩
  have hset' : Setting f evs last C done := { hset with asserts := fun p hp => hset.asserts p (hdone hp) }
  -- what is asserted already stays, and the step settles one path more
  have hfinish : ∀ {w' : Json Text N}, (∀ p ∈ C, ¬ Cancelled f evs p →
        equal f p (w'.getPath p) (lastAfter evs p) = true
          ∧ ∀ q, q <+: p → q ≠ p → 2 ≤ q.length → (w'.getPath q).isSome) →
      (∀ p ∈ done, ∀ desired, last.after.getPath p = some desired → equal f p (w'.getPath p) (some desired) = true) →
      (∀ desired, last.after.getPath P = some desired → equal f P (w'.getPath P) (some desired) = true) →
      (∀ q, Apart P q → w'.getPath q = w.getPath q) → Merging f evs last w₀ C (done ++ [P]) [] w' := by
    intro w' hchanges hasserts hnew hframe
    refine ⟨hchanges, fun p hp => ?_, by simp, fun q hC hA hT => ?_⟩
    · rcases List.mem_append.mp hp with hp | hp
      · exact hasserts p hp
      · rw [List.mem_singleton.mp hp]
        exact hnew
    · rw [hframe q (hA P (List.mem_append_right _ (List.mem_singleton_self _)))]
      exact hmerging.frame q hC (fun p hp => hA p (List.mem_append_left _ hp)) hT
  rcases mergeAsserted_cases hstep with ⟨hnone, rfl⟩ | ⟨desired, w', hdesired, hw', hresult⟩
  · exact ⟨w, hw, hfinish hmerging.changes hmerging.asserts (fun d hd => by rw [hnone] at hd; exact absurd hd (by simp))
      fun _ _ => rfl⟩
  obtain rfl : w = w' := Except.ok.inj (hw.symm.trans hw')
  rcases hresult with ⟨hequal, rfl⟩ | ⟨habsent, hwrite⟩
  · refine ⟨w, hw, hfinish hmerging.changes hmerging.asserts (fun d hd => ?_) fun _ _ => rfl⟩
    rw [← hd, hdesired]
    exact hequal
  · obtain ⟨w', hw', hwritten⟩ := written_fill hset' (hset.asserts P hP) hw hdesired hwrite
    obtain ⟨hchanges, hasserts, -⟩ := hmerging.fill hset' (hset.asserts P hP) hdesired habsent hwritten
    refine ⟨w', hw', hfinish hchanges hasserts (fun d hd => ?_) hwritten.apart⟩
    have hat := hwritten.below []
    rw [List.append_nil] at hat
    rw [hat, ← hd, hdesired]
    exact equal_refl _ _

theorem agrees_refl (tag : Text) (v : Json Text N) : agrees f tag (some v) v = true :=
  List.all_eq_true.mpr fun _ _ => equal_refl _ _

/-- **Third pass.** -/
theorem merging_requires (hset : Setting f evs last C A) (hw : view f document = .ok w)
    (hmerging : Merging f evs last w₀ C A [] w) (h : T.foldlM (mergeRequired f last true) document = .ok document') :
    ∃ w', view f document' = .ok w' ∧ Merging f evs last w₀ C A T w' := by
  refine foldlM_invariant (fun done document => ∃ w, view f document = .ok w ∧ Merging f evs last w₀ C A done w) h
    ⟨w, hw, hmerging⟩ ?_
  rintro done tag document document' htag ⟨w, hw, hmerging⟩ hstep
  have hfinish : ∀ {w' : Json Text N}, (∀ p ∈ C, ¬ Cancelled f evs p →
        equal f p (w'.getPath p) (lastAfter evs p) = true
          ∧ ∀ q, q <+: p → q ≠ p → 2 ≤ q.length → (w'.getPath q).isSome) →
      (∀ p ∈ A, ∀ desired, last.after.getPath p = some desired → equal f p (w'.getPath p) (some desired) = true) →
      (∀ tag ∈ done, ∀ desired, last.after.getPath [tagRates, tag] = some desired →
        ∃ c, w'.getPath [tagRates, tag] = some c ∧ agrees f tag (some c) desired = true) →
      (∀ desired, last.after.getPath [tagRates, tag] = some desired →
        ∃ c, w'.getPath [tagRates, tag] = some c ∧ agrees f tag (some c) desired = true) →
      (∀ q, Apart [tagRates, tag] q → w'.getPath q = w.getPath q) → Merging f evs last w₀ C A (done ++ [tag]) w' := by
    intro w' hchanges hasserts hrequires hnew hframe
    refine ⟨hchanges, hasserts, fun t ht => ?_, fun q hC hA hT => ?_⟩
    · rcases List.mem_append.mp ht with ht | ht
      · exact hrequires t ht
      · rw [List.mem_singleton.mp ht]
        exact hnew
    · rw [hframe q (hT tag (List.mem_append_right _ (List.mem_singleton_self _)))]
      exact hmerging.frame q hC hA fun t ht => hT t (List.mem_append_left _ ht)
  rcases mergeRequired_cases hstep with ⟨hnone, rfl⟩ | ⟨desired, w', hdesired, hw', hresult⟩
  · exact ⟨w, hw, hfinish hmerging.changes hmerging.asserts hmerging.requires
      (fun d hd => by rw [hnone] at hd; exact absurd hd (by simp)) fun _ _ => rfl⟩
  obtain rfl : w = w' := Except.ok.inj (hw.symm.trans hw')
  have hfill : IsFill [tagRates, tag] := Or.inr ⟨tag, rfl⟩
  rcases hresult with ⟨habsent, hwrite⟩ | ⟨c, hc, hagrees, rfl⟩
  · obtain ⟨w', hw', hwritten⟩ := written_fill hset hfill hw hdesired hwrite
    obtain ⟨hchanges, hasserts, hrequires⟩ := hmerging.fill hset hfill hdesired habsent hwritten
    refine ⟨w', hw', hfinish hchanges hasserts hrequires (fun d hd => ⟨desired, hwritten.below [], ?_⟩) hwritten.apart⟩
    obtain rfl : desired = d := by simpa [hdesired] using hd
    exact agrees_refl tag desired
  · refine ⟨w, hw, hfinish hmerging.changes hmerging.asserts hmerging.requires (fun d hd => ⟨c, hc, ?_⟩) fun _ _ => rfl⟩
    obtain rfl : desired = d := by simpa [hdesired] using hd
    exact hagrees

end Invariant

/-! ## The whole merge -/

section Merge

variable {evs : List (Event N)} {intent : Intent N} {cloud r : Json Text N} {w₀ : Json Text N}

/-- What is asserted are fields of the root and plans. -/
theorem isFill_of_asserted {paths : List Path} (h : asserted f evs = .ok paths) : ∀ p ∈ paths, IsFill p := by
  obtain ⟨lists, hlists, rfl⟩ := map_eq_ok.mp h
  intro p hp
  obtain ⟨l, hl, hp⟩ := List.mem_flatten.mp (mem_sortedSet.mp hp)
  obtain ⟨n, hn, rfl⟩ := List.getElem_of_mem hl
  have hforall := List.forall₂_iff_get.mp (mapM_eq_ok.mp hlists)
  obtain ⟨values, -, heq⟩ := map_eq_ok.mp (hforall.2 n (hforall.1 ▸ hn) hn)
  have hp : p ∈ lists.get ⟨n, hn⟩ := hp
  rw [← heq, List.mem_append, List.mem_map, List.mem_map] at hp
  rcases hp with ⟨key, hkey, rfl⟩ | ⟨e, -, rfl⟩
  · refine Or.inl ⟨key, ?_, rfl⟩
    have hmem := List.mem_of_mem_filter hkey
    rintro rfl
    exact absurd hmem (by decide +kernel)
  · exact Or.inr ⟨e.1, rfl⟩

/-- The passes of a merge. -/
theorem mergeEvents_eq_ok : mergeEvents f evs true cloud = .ok r ↔ ∃ r₁ paths,
    (collapse (changedPaths evs)).foldlM (mergeChange f evs true) cloud = .ok r₁ ∧ asserted f evs = .ok paths
      ∧ ((evs.getLast? = none ∧ r = r₁) ∨ ∃ last r₂, evs.getLast? = some last
        ∧ paths.foldlM (mergeAsserted f last true) r₁ = .ok r₂
        ∧ (required evs).foldlM (mergeRequired f last true) r₂ = .ok r) := by
  unfold mergeEvents
  rw [bind_eq_ok]
  refine exists_congr fun r₁ => ?_
  rw [bind_eq_ok, ← exists_and_left]
  refine exists_congr fun paths => and_congr_right fun _ => and_congr_right fun _ => ?_
  cases hlast : evs.getLast? with
  | none => simp [eq_comm]
  | some last => simp [bind_eq_ok]

/-- A merge of tracked edits runs the passes on an object. -/
theorem merge_eq_ok (hlegacy : intent.legacy = false) (hevents : events f intent none = .ok evs) :
    merge f intent cloud = .ok r ↔ (∃ root, cloud = .object root) ∧ mergeEvents f evs true cloud = .ok r := by
  unfold merge apply
  rw [hlegacy, Bool.false_and, if_neg (by simp), hevents]
  cases cloud with
  | object root => simp [Except.bind]
  | _ => simp [Except.bind]

/-- On a Cloud document whose plans cannot be read, a merge that succeeds has nothing to do. -/
theorem mergeEvents_unreadable {message : String} (hcloud : view f cloud = .error message)
    (h : mergeEvents f evs true cloud = .ok r) : r = cloud ∧ ∀ p ∈ collapse (changedPaths evs), Cancelled f evs p := by
  obtain ⟨r₁, paths, hchanges, -, hrest⟩ := mergeEvents_eq_ok.mp h
  have hno : ∀ w, view f cloud ≠ .ok w := by
    intro w hw
    rw [hcloud] at hw
    exact absurd hw (by simp)
  obtain ⟨rfl, hcancelled⟩ := foldlM_invariant
    (fun done document => document = cloud ∧ ∀ p ∈ done, Cancelled f evs p) hchanges ⟨rfl, by simp⟩ (by
      rintro done p document document' hp ⟨rfl, hdone⟩ hstep
      rcases mergeChange_cases (touching_ne_nil hp) hstep with ⟨hcancel, rfl⟩ | ⟨-, w, first, hw, -⟩
      · exact ⟨rfl, List.forall_mem_append.mpr ⟨hdone, by simpa using hcancel⟩⟩
      · exact absurd hw (hno w))
  refine ⟨?_, hcancelled⟩
  rcases hrest with ⟨-, rfl⟩ | ⟨last, r₂, -, hasserts, hrequires⟩
  · rfl
  have hr₂ := foldlM_invariant (fun _ document => document = r₁) hasserts rfl (by
    rintro done p document document' - rfl hstep
    rcases mergeAsserted_cases hstep with ⟨-, rfl⟩ | ⟨desired, w, -, hw, -⟩
    · rfl
    · exact absurd hw (hno w))
  subst hr₂
  refine foldlM_invariant (fun _ document => document = r₂) hrequires rfl ?_
  rintro done tag document document' - rfl hstep
  rcases mergeRequired_cases hstep with ⟨-, rfl⟩ | ⟨desired, w, -, hw, -⟩
  · rfl
  · exact absurd hw (hno w)

/-- On a readable Cloud document, the result of a merge is merged. -/
theorem merging_of_mergeEvents (hread : ∀ e ∈ evs, e.IsRead f) (hchain : Chained f evs) {last : Event N}
    (hlast : evs.getLast? = some last) {paths : List Path} (hpaths : asserted f evs = .ok paths)
    (hcloud : view f cloud = .ok w₀) (h : mergeEvents f evs true cloud = .ok r) :
    ∃ w, view f r = .ok w ∧ Merging f evs last w₀ (collapse (changedPaths evs)) paths (required evs) w
      ∧ ∀ p ∈ collapse (changedPaths evs), ¬ Cancelled f evs p →
        Known f evs w₀ p ∧ ∀ q, q <+: p → q ≠ p → 2 ≤ q.length → (w₀.getPath q).isSome := by
  obtain ⟨r₁, paths', hchanges, hpaths', hrest⟩ := mergeEvents_eq_ok.mp h
  obtain rfl : paths = paths' := Except.ok.inj (hpaths.symm.trans hpaths')
  rcases hrest with ⟨hnone, -⟩ | ⟨last', r₂, hlast', hasserts, hrequires⟩
  · rw [hlast] at hnone
    exact absurd hnone (by simp)
  obtain rfl : last = last' := Option.some.inj (hlast.symm.trans hlast')
  obtain ⟨w₁, hw₁, hmerging₁, hchecked⟩ : ∃ w, view f r₁ = .ok w
      ∧ Merging f evs last w₀ (collapse (changedPaths evs)) [] [] w
      ∧ Checked f evs w₀ (collapse (changedPaths evs)) w := merging_changes hread hcloud hchanges
  have hset : Setting f evs last (collapse (changedPaths evs)) paths :=
    ⟨hread, hchain, hlast, List.Subset.refl _, isFill_of_asserted hpaths⟩
  obtain ⟨w₂, hw₂, hmerging₂⟩ := merging_asserts hset hw₁ hmerging₁ hasserts
  obtain ⟨w, hw, hmerging⟩ := merging_requires hset hw₂ hmerging₂ hrequires
  exact ⟨w, hw, hmerging, hchecked.known⟩

/-- **Merging again changes nothing.** -/
theorem mergeEvents_fixed {last : Event N} (hlast : evs.getLast? = some last) {paths : List Path}
    (hpaths : asserted f evs = .ok paths) {w : Json Text N} (hw : view f r = .ok w)
    (h : Merging f evs last w₀ (collapse (changedPaths evs)) paths (required evs) w) :
    mergeEvents f evs true r = .ok r := by
  refine mergeEvents_eq_ok.mpr ⟨r, paths, foldlM_fixed fun p hp => ?_, hpaths, Or.inr ⟨last, r, hlast, ?_, ?_⟩⟩
  · refine mergeChange_fixed (touching_ne_nil hp) fun hactive => ?_
    obtain ⟨hequal, habove⟩ := h.changes p hp hactive
    exact ⟨w, hw, hequal, fun first _ => parentRemoved_eq_false.mpr fun q hq hne hlen _ => habove q hq hne hlen⟩
  · exact foldlM_fixed fun p hp => mergeAsserted_fixed fun desired hdesired =>
      ⟨w, hw, h.asserts p hp desired hdesired⟩
  · refine foldlM_fixed fun tag htag => mergeRequired_fixed fun desired hdesired => ?_
    obtain ⟨c, hc, hagrees⟩ := h.requires tag htag desired hdesired
    exact ⟨w, c, hw, hc, hagrees⟩

/-- Recorded values are sorted. -/
theorem sorted_recorded (hread : ∀ e ∈ evs, e.IsRead f) {q : Path} {u : Option (Json Text N)}
    (hu : u ∈ recorded evs q) {v : Json Text N} (hv : u = some v) : v.Sorted := by
  unfold recorded at hu
  split at hu
  · exact absurd hu List.not_mem_nil
  · rename_i first rest htouched
    have hmem : ∀ e ∈ first :: rest, e.IsRead f := fun e he =>
      hread e (List.mem_of_mem_filter (htouched ▸ he : e ∈ touched evs q))
    rcases List.mem_cons.mp hu with rfl | hu
    · exact Json.sorted_getPath (hmem first List.mem_cons_self).sorted_before hv
    · obtain ⟨e, he, rfl⟩ := List.mem_map.mp hu
      exact Json.sorted_getPath (hmem e he).sorted_after hv

/-- A known Cloud value is a recorded one at and below the collapsed path. -/
theorem Known.among (hread : ∀ e ∈ evs, e.IsRead f) (hchain : Chained f evs) {p q : Path}
    (hp : p ∈ collapse (changedPaths evs)) (hpq : p <+: q) (h : Known f evs w₀ p) :
    ∃ u ∈ recorded evs q, equal f q (w₀.getPath q) u = true := by
  have hq := isRatePath_collapse hp hread hpq
  have hmap := ne_tagRates_collapse hp hread hpq
  have hne : q ≠ [] := by
    obtain ⟨key, -, t, rfl⟩ := hq
    simp
  have hfinish : ∀ {v : Option (Json Text N)}, equal f q (w₀.getPath q) v = true → Among f q (recorded evs q) v →
      (∀ x, v = some x → x.Sorted) → ∃ u ∈ recorded evs q, equal f q (w₀.getPath q) u = true := by
    rintro v hequal ⟨u, hu, hagree⟩ hsorted
    exact ⟨u, hu, equal_trans hequal (equal_of_agree hagree hne hmap hsorted fun x hx => sorted_recorded hread hu hx)⟩
  obtain ⟨t, rfl⟩ := hpq
  rcases h with h | ⟨e, he, h⟩
  · obtain ⟨first, hfirst⟩ : ∃ e, (touching evs p).head? = some e :=
      Option.ne_none_iff_exists'.mp (by simpa using touching_ne_nil hp)
    have hmem : first ∈ evs := List.mem_of_mem_filter (List.mem_of_mem_head? hfirst)
    rw [firstBefore, hfirst] at h
    have hbelow := equal_below h t
    rw [Option.bind_some, ← Json.getPath_append, ← Json.getPath_append] at hbelow
    exact hfinish hbelow (among_recorded hread hchain hq (touched_ne_nil hp (List.prefix_append _ _)) hmem).1
      fun x hx => Json.sorted_getPath (hread first hmem).sorted_before hx
  · have hmem : e ∈ evs := List.mem_of_mem_filter he
    have hbelow := equal_below h t
    rw [← Json.getPath_append, ← Json.getPath_append] at hbelow
    exact hfinish hbelow (among_recorded hread hchain hq (touched_ne_nil hp (List.prefix_append _ _)) hmem).2
      fun x hx => Json.sorted_getPath (hread e hmem).sorted_after hx

/-- Where the result of a merge stands: at a changed path that is not cancelled it has the last recorded value, beside
all changed, asserted and required paths it has the Cloud's, and it is merged already. -/
structure ThreeWay (f : Reading N R) (intent : Intent N) (evs : List (Event N)) (cloud r : Json Text N) : Prop where
  changes : ∀ p ∈ collapse (changedPaths evs), ¬ Cancelled f evs p → ∃ w, view f r = .ok w ∧ ∀ q, p <+: q →
    ∃ last, (touched evs q).getLast? = some last ∧ equal f q (w.getPath q) (last.after.getPath q) = true
  frame : ∀ paths, asserted f evs = .ok paths → ∀ q,
    (∀ p ∈ collapse (changedPaths evs), ¬ Cancelled f evs p → Apart p q) → (∀ p ∈ paths, Apart p q) →
    (∀ tag ∈ required evs, Apart [tagRates, tag] q) → (view f r).map (Json.getPath q) = (view f cloud).map (Json.getPath q)
  again : merge f intent r = .ok r

theorem threeWay_of_merge (hlegacy : intent.legacy = false) (hevents : events f intent none = .ok evs)
    (hchain : Chained f evs) (h : merge f intent cloud = .ok r) : ThreeWay f intent evs cloud r := by
  have hread := isRead_of_events hevents
  obtain ⟨-, hmerge⟩ := (merge_eq_ok hlegacy hevents).mp h
  obtain ⟨r₁, paths, hchanges, hpaths, hrest⟩ := mergeEvents_eq_ok.mp hmerge
  cases hcloud : view f cloud with
  | error message =>
    obtain ⟨rfl, hcancelled⟩ := mergeEvents_unreadable hcloud hmerge
    exact ⟨fun p hp hactive => absurd (hcancelled p hp) hactive, fun _ _ _ _ _ _ => rfl, h⟩
  | ok w₀ =>
    cases hlast : evs.getLast? with
    | none =>
      -- without an event the passes have nothing to go through
      obtain rfl := List.getLast?_eq_none_iff.mp hlast
      obtain rfl : r = cloud := by
        rcases hrest with ⟨-, rfl⟩ | ⟨last, r₂, hsome, -⟩
        · exact (Except.ok.inj hchanges).symm
        · exact absurd hsome (by simp)
      exact ⟨fun p hp => absurd hp (by simp [changedPaths, sortedSet, collapse]), fun _ _ _ _ _ _ => rfl, h⟩
    | some last =>
      obtain ⟨w, hw, hmerging, -⟩ := merging_of_mergeEvents hread hchain hlast hpaths hcloud hmerge
      refine ⟨fun p hp hactive => ⟨w, hw, fun q hpq => ?_⟩, fun paths' hpaths' q hC hA hT => ?_, ?_⟩
      · obtain ⟨t, ht⟩ := hpq
        obtain ⟨lastTouched, htouched, hequal⟩ := equal_lastAfter_below hp hread hchain ⟨t, ht⟩ ht.symm
        refine ⟨lastTouched, htouched, equal_trans ?_ hequal⟩
        have hbelow := equal_below (hmerging.changes p hp hactive).1 t
        rwa [← Json.getPath_append, ht] at hbelow
      · obtain rfl : paths = paths' := Except.ok.inj (hpaths.symm.trans hpaths')
        rw [hw, hcloud]
        exact congrArg Except.ok (hmerging.frame q hC hA hT)
      · obtain ⟨root, values, hroot, -⟩ := view_eq_ok.mp hw
        exact (merge_eq_ok hlegacy hevents).mpr ⟨⟨root, hroot⟩, mergeEvents_fixed hlast hpaths hw hmerging⟩

/-- A merge that succeeds found a known value at every change that is not cancelled, with everything above it. -/
theorem known_of_merge (hlegacy : intent.legacy = false) (hevents : events f intent none = .ok evs)
    (hchain : Chained f evs) (h : merge f intent cloud = .ok r) {p : Path} (hp : p ∈ collapse (changedPaths evs))
    (hactive : ¬ Cancelled f evs p) (hcloud : view f cloud = .ok w₀) :
    (∀ q, p <+: q → ∃ u ∈ recorded evs q, equal f q (w₀.getPath q) u = true)
      ∧ ∀ q, q <+: p → q ≠ p → 2 ≤ q.length → (w₀.getPath q).isSome := by
  have hread := isRead_of_events hevents
  obtain ⟨-, hmerge⟩ := (merge_eq_ok hlegacy hevents).mp h
  obtain ⟨r₁, paths, -, hpaths, -⟩ := mergeEvents_eq_ok.mp hmerge
  obtain ⟨last, hlast⟩ : ∃ e, evs.getLast? = some e := by
    obtain ⟨e, he, -⟩ := mem_collapse hp
    exact Option.ne_none_iff_exists'.mp (by simpa using List.ne_nil_of_mem he)
  obtain ⟨w, -, -, hknown⟩ := merging_of_mergeEvents hread hchain hlast hpaths hcloud hmerge
  obtain ⟨hat, habove⟩ := hknown p hp hactive
  exact ⟨fun q hpq => hat.among hread hchain hp hpq, habove⟩

/-- **The rate merge is a three-way merge.** Every path that a chain of edits changed lies at or below a collapsed path.
A merge that succeeds is `ThreeWay`. It fails when, at or below a collapsed path whose changes do not cancel out, the
Cloud's value is none that was recorded there, or something above the path that the first edit started from is gone. -/
theorem merge_threeWay (hlegacy : intent.legacy = false) (hevents : events f intent none = .ok evs)
    (hchain : Chained f evs) (cloud : Json Text N) :
    (∀ q ∈ changedPaths evs, ∃ p ∈ collapse (changedPaths evs), p <+: q)
      ∧ (∀ r, merge f intent cloud = .ok r → ThreeWay f intent evs cloud r)
      ∧ ∀ p ∈ collapse (changedPaths evs), ¬ Cancelled f evs p → ∀ w, view f cloud = .ok w →
        ((∃ q, p <+: q ∧ ∀ u ∈ recorded evs q, equal f q (w.getPath q) u = false)
          ∨ ∃ first q, (touching evs p).head? = some first ∧ q <+: p ∧ q ≠ p ∧ 2 ≤ q.length
            ∧ (first.before.getPath q).isSome ∧ w.getPath q = none) →
        ∃ message, merge f intent cloud = .error message := by
  refine ⟨fun q hq => ?_, fun r h => threeWay_of_merge hlegacy hevents hchain h, fun p hp hactive w hw hconflict => ?_⟩
  · obtain ⟨e, he, hqe⟩ := List.mem_flatMap.mp (mem_sortedSet.mp hq)
    exact exists_collapse he hqe
  · cases h : merge f intent cloud with
    | error message => exact ⟨message, rfl⟩
    | ok r =>
      obtain ⟨hknown, habove⟩ := known_of_merge hlegacy hevents hchain h hp hactive hw
      rcases hconflict with ⟨q, hpq, hno⟩ | ⟨first, q, -, hqp, hne, hlen, -, hgone⟩
      · obtain ⟨u, hu, hequal⟩ := hknown q hpq
        rw [hno u hu] at hequal
        exact absurd hequal (by simp)
      · have hsome := habove q hqp hne hlen
        rw [hgone] at hsome
        exact absurd hsome (by simp)

end Merge

/-! ## Edits of one plan -/

def homeTag : Text := "Home".toList

/-- A document without plans. -/
def noPlans : Value ℕ := ⟨.object [(tagRates, .object [])], by
  refine .object (List.pairwise_singleton _ _) fun e he => ?_
  rw [List.mem_singleton.mp he]
  exact .object List.Pairwise.nil (by simp)⟩

/-- A document with one flat price. -/
def homePlan (price : ℕ) : Value ℕ := ⟨.object [(tagRates, .object [(homeTag, .object [(flat, .number price)])])], by
  refine .object (List.pairwise_singleton _ _) fun e he => ?_
  rw [List.mem_singleton.mp he]
  refine .object (List.pairwise_singleton _ _) fun e he => ?_
  rw [List.mem_singleton.mp he]
  refine .object (List.pairwise_singleton _ _) fun e he => ?_
  rw [List.mem_singleton.mp he]
  exact .number price⟩

/-- Two edits, one after the other. -/
def twoEdits (a b c : Value ℕ) : Intent ℕ :=
  ⟨false, [(1, .rateConfig a b false none), (2, .rateConfig b c false none)]⟩

/-- The events of two edits that change one path each. -/
def twoEvents (a b c : Value ℕ) (p q : Path) : List (Event ℕ) :=
  [⟨a, b, [p], false, none⟩, ⟨b, c, [q], false, none⟩]

/-- A plan added and then priced anew reaches a Cloud without plans. -/
theorem merge_threeWay_home :
    merge wholePrices (twoEdits noPlans (homePlan 1) (homePlan 2)) noPlans.1 = .ok (homePlan 2).1
      ∧ ThreeWay wholePrices (twoEdits noPlans (homePlan 1) (homePlan 2))
        (twoEvents noPlans (homePlan 1) (homePlan 2) [tagRates, homeTag] [tagRates, homeTag, flat]) noPlans.1
        (homePlan 2).1 := by
  have hmerge : merge wholePrices (twoEdits noPlans (homePlan 1) (homePlan 2)) noPlans.1 = .ok (homePlan 2).1 := by
    decide +kernel
  have hchain : Chained wholePrices
      (twoEvents noPlans (homePlan 1) (homePlan 2) [tagRates, homeTag] [tagRates, homeTag, flat]) := by
    unfold Chained
    decide +kernel
  exact ⟨hmerge, (merge_threeWay rfl (by decide +kernel) hchain noPlans.1).2.1 _ hmerge⟩

/-- **Cancelled changes keep the Cloud's value, and a deleted plan may be gone.** A plan that was added and removed again
is in the Cloud with a price that no edit knows: the merge succeeds and keeps it, though the last edit of the plan left
none. A plan whose price was edited before the plan was removed may be gone from the Cloud. -/
theorem merge_cancelled_keeps_cloud :
    (events wholePrices (twoEdits noPlans (homePlan 1) noPlans) none
        = .ok (twoEvents noPlans (homePlan 1) noPlans [tagRates, homeTag] [tagRates, homeTag])
      ∧ merge wholePrices (twoEdits noPlans (homePlan 1) noPlans) (homePlan 2).1 = .ok (homePlan 2).1
      ∧ (touched (twoEvents noPlans (homePlan 1) noPlans [tagRates, homeTag] [tagRates, homeTag])
          [tagRates, homeTag]).getLast?.map (fun last => equal wholePrices [tagRates, homeTag]
            ((homePlan 2).1.getPath [tagRates, homeTag]) (last.after.getPath [tagRates, homeTag])) = some false
      ∧ ∀ u ∈ recorded (twoEvents noPlans (homePlan 1) noPlans [tagRates, homeTag] [tagRates, homeTag])
          [tagRates, homeTag], equal wholePrices [tagRates, homeTag] ((homePlan 2).1.getPath [tagRates, homeTag]) u = false)
      ∧ (events wholePrices (twoEdits (homePlan 1) (homePlan 2) noPlans) none
          = .ok (twoEvents (homePlan 1) (homePlan 2) noPlans [tagRates, homeTag, flat] [tagRates, homeTag])
        ∧ merge wholePrices (twoEdits (homePlan 1) (homePlan 2) noPlans) noPlans.1 = .ok noPlans.1
        ∧ ((homePlan 1).1.getPath [tagRates, homeTag]).isSome = true ∧ noPlans.1.getPath [tagRates, homeTag] = none) := by
  decide +kernel

end SentryUsb.Rates
