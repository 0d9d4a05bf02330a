import SentryUsb.Rates.RateFields

/-! # A history of rate edits

What a chain of recorded edits says about one path: where an edit changed it, what it was before the first change and
after the last one, and that between changes it stayed the same.

* **`Event.IsRead`** — an event as it is read from a recorded edit;
* **`mem_collapse`**, **`exists_collapse`**, **`collapse_apart`** — the collapsed paths cover every changed path, and
  lie beside each other;
* **`Chained`** — each edit starts where the one before it ended;
* **`equal_after_last`** — after its last change a path keeps its value;
* **`exists_recorded`** — every value a path ever had is its first one or one that an edit gave it. -/

set_option linter.unusedSectionVars false

namespace SentryUsb.Rates

open SentryUsb.Library

variable {N R : Type} [DecidableEq N] [DecidableEq R] {f : Reading N R}

/-! ## Events -/

variable (f) in
/-- An event between the views of two sorted documents, with the paths at which they differ. -/
structure Event.IsRead (e : Event N) : Prop where
  before : ∃ d : Value N, view f d = .ok e.before
  after : ∃ d : Value N, view f d = .ok e.after
  paths : e.paths = changed f e.before e.after

theorem isRead_of_events {intent : Intent N} {after : Option Int} {evs : List (Event N)}
    (h : events f intent after = .ok evs) : ∀ e ∈ evs, e.IsRead f := by
  have hread : ∀ edit e, readEvent f edit = .ok e → e.IsRead f := by
    intro edit e he
    cases edit with
    | rateConfig before after force requiredTag =>
      obtain ⟨b, hb, he⟩ := bind_eq_ok.mp he
      obtain ⟨a, ha, he⟩ := bind_eq_ok.mp he
      obtain rfl := Except.ok.inj he
      exact ⟨⟨before, hb⟩, ⟨after, ha⟩, rfl⟩
    | _ => exact absurd he (by simp [readEvent])
  intro e he
  obtain ⟨n, hn, rfl⟩ := List.getElem_of_mem he
  have hforall := List.forall₂_iff_get.mp (mapM_eq_ok.mp h)
  exact hread _ _ (hforall.2 n (hforall.1 ▸ hn) hn)

/-- A path under one of the keys of the rate document. -/
def IsRatePath (q : Path) : Prop := ∃ key ∈ rateKeys, ∃ t, q = key :: t

theorem getPath_key (key : Text) (t : Path) (v : Json Text N) :
    v.getPath (key :: t) = (v.get key).bind (Json.getPath t) := rfl

namespace Event.IsRead

variable {e : Event N} (h : e.IsRead f)

include h

theorem sorted_before : e.before.Sorted := by
  obtain ⟨d, hd⟩ := h.before
  exact sorted_view d.2 hd

theorem sorted_after : e.after.Sorted := by
  obtain ⟨d, hd⟩ := h.after
  exact sorted_view d.2 hd

/-- A change is under a rate key, below objects on both sides, at something that is not an object on both. -/
theorem differs {c : Path} (hc : c ∈ e.paths) :
    ∃ key ∈ rateKeys, ∃ t, c = key :: t ∧ Differs (e.before.get key) (e.after.get key) t := by
  rw [h.paths, changed, List.mem_flatMap] at hc
  obtain ⟨key, hkey, hc⟩ := hc
  obtain ⟨t, rfl, hdiffers⟩ := mem_diff hc
  exact ⟨key, hkey, t, rfl, hdiffers⟩

theorem isRatePath {c : Path} (hc : c ∈ e.paths) : IsRatePath c := by
  obtain ⟨key, hkey, t, rfl, -⟩ := h.differs hc
  exact ⟨key, hkey, t, rfl⟩

/-- The map of all plans is never changed as a whole. -/
theorem ne_tagRates {c : Path} (hc : c ∈ e.paths) : c ≠ [tagRates] := by
  obtain ⟨key, -, t, rfl, hdiffers⟩ := h.differs hc
  intro heq
  obtain ⟨rfl, rfl⟩ := List.cons.inj heq
  obtain ⟨b, hb⟩ := h.before
  obtain ⟨a, ha⟩ := h.after
  obtain ⟨l, hl, -⟩ := get_view_tagRates hb
  obtain ⟨r, hr, -⟩ := get_view_tagRates ha
  exact hdiffers.whole l r ⟨by rw [hl]; rfl, by rw [hr]; rfl⟩

/-- What is above a change was there before. -/
theorem isSome_above {c q : Path} (hc : c ∈ e.paths) (hq : q <+: c) (hne : q ≠ c) : (e.before.getPath q).isSome := by
  cases q with
  | nil => rfl
  | cons k q =>
    obtain ⟨key, -, t, rfl, hdiffers⟩ := h.differs hc
    obtain ⟨rfl, hbelow⟩ := List.cons_prefix_cons.mp hq
    obtain ⟨l, -, hl, -⟩ := hdiffers.above q hbelow fun heq => hne (heq ▸ rfl)
    rw [getPath_key, hl]
    rfl

/-- **Beside its changes an edit leaves everything as it was.** -/
theorem agree_of_apart {q : Path} (hq : IsRatePath q) (hapart : ∀ c ∈ e.paths, Apart c q) :
    Agree f q (e.before.getPath q) (e.after.getPath q) := by
  obtain ⟨key, hkey, t, rfl⟩ := hq
  have hdiff : ∀ c ∈ diff f [key] (e.before.get key) (e.after.get key), Apart c ([key] ++ t) := by
    intro c hc
    refine hapart c ?_
    rw [h.paths, changed]
    exact List.mem_flatMap.mpr ⟨key, hkey, hc⟩
  rw [getPath_key, getPath_key]
  exact SentryUsb.Rates.agree_of_apart hdiff

end Event.IsRead

/-! ## Collapsed paths -/

instance : Std.Symm Apart := ⟨fun _ _ h => ⟨h.2, h.1⟩⟩

/-- What the collapsing loop keeps of the paths it has seen. -/
structure Collapsed (seen paths : List Path) : Prop where
  subset : paths ⊆ seen
  covers : ∀ c ∈ seen, ∃ p ∈ paths, p <+: c
  apart : paths.Pairwise Apart

theorem not_prefix_of_lt {p q : Path} (h : p < q) : ¬ q <+: p :=
  fun hpre => hpre.le h

/-- One path more. -/
theorem Collapsed.step {seen paths : List Path} {c : Path} (h : Collapsed seen paths) (hlt : ∀ p ∈ seen, p < c) :
    Collapsed (seen ++ [c])
      (if paths.any fun parent => parent.isPrefixOf c then paths else paths ++ [c]) := by
  split
  · rename_i hany
    refine ⟨fun p hp => List.mem_append_left _ (h.subset hp), fun c' hc' => ?_, h.apart⟩
    rcases List.mem_append.mp hc' with hc' | hc'
    · exact h.covers c' hc'
    · obtain ⟨p, hp, hpre⟩ := List.any_eq_true.mp hany
      rw [List.mem_singleton.mp hc']
      exact ⟨p, hp, List.isPrefixOf_iff_prefix.mp hpre⟩
  · rename_i hany
    refine ⟨fun p hp => ?_, fun c' hc' => ?_, List.pairwise_append.mpr ⟨h.apart, List.pairwise_singleton _ _, ?_⟩⟩
    · rcases List.mem_append.mp hp with hp | hp
      · exact List.mem_append_left _ (h.subset hp)
      · exact List.mem_append_right _ hp
    · rcases List.mem_append.mp hc' with hc' | hc'
      · obtain ⟨p, hp, hpre⟩ := h.covers c' hc'
        exact ⟨p, List.mem_append_left _ hp, hpre⟩
      · exact ⟨c', List.mem_append_right _ hc', List.prefix_rfl⟩
    · intro p hp c' hc'
      rw [List.mem_singleton.mp hc']
      refine ⟨fun hpre => hany ?_, not_prefix_of_lt (hlt p (h.subset hp))⟩
      exact List.any_eq_true.mpr ⟨p, hp, List.isPrefixOf_iff_prefix.mpr hpre⟩

theorem collapsed_collapse {all : List Path} (h : all.Pairwise (· < ·)) : Collapsed all (collapse all) := by
  unfold collapse
  induction all using List.reverseRecOn with
  | nil => exact ⟨List.nil_subset _, by simp, List.Pairwise.nil⟩
  | append_singleton all c ih =>
    obtain ⟨hall, -, hlt⟩ := List.pairwise_append.mp h
    rw [List.foldl_append]
    exact (ih hall).step fun p hp => hlt p hp c (List.mem_singleton_self _)

section Changed

variable {evs : List (Event N)}

theorem mem_collapse {p : Path} (h : p ∈ collapse (changedPaths evs)) : ∃ e ∈ evs, p ∈ e.paths := by
  have hmem : p ∈ changedPaths evs := (collapsed_collapse (pairwise_sortedSet _)).subset h
  rwa [changedPaths, mem_sortedSet, List.mem_flatMap] at hmem

/-- Every changed path lies at or below a collapsed one. -/
theorem exists_collapse {e : Event N} {c : Path} (he : e ∈ evs) (hc : c ∈ e.paths) :
    ∃ p ∈ collapse (changedPaths evs), p <+: c := by
  refine (collapsed_collapse (pairwise_sortedSet _)).covers c ?_
  rw [mem_sortedSet]
  exact List.mem_flatMap.mpr ⟨e, he, hc⟩

theorem collapse_apart {p q : Path} (hp : p ∈ collapse (changedPaths evs)) (hq : q ∈ collapse (changedPaths evs))
    (hne : p ≠ q) : Apart p q :=
  (collapsed_collapse (pairwise_sortedSet _)).apart.forall hp hq hne

/-- No change lies above a collapsed path. -/
theorem prefix_of_not_apart {e : Event N} {p c : Path} (hp : p ∈ collapse (changedPaths evs)) (he : e ∈ evs)
    (hc : c ∈ e.paths) (h : ¬ Apart c p) : p <+: c := by
  by_cases hpc : p <+: c
  · exact hpc
  · have hcp : c <+: p := by
      by_contra hcp
      exact h ⟨hcp, hpc⟩
    obtain ⟨p', hp', hp'c⟩ := exists_collapse he hc
    by_cases heq : p' = p
    · exact heq ▸ hp'c
    · exact absurd (hp'c.trans hcp) (collapse_apart hp' hp heq).1

end Changed

/-! ## Chains -/

variable (f) in
/-- Each edit starts where the one before it ended, up to values that mean the same. -/
def Chained (evs : List (Event N)) : Prop := evs.IsChain fun e e' => changed f e.after e'.before = []

/-- Documents without a difference agree at every rate path. -/
theorem agree_of_changed_eq_nil {a b : Json Text N} (h : changed f a b = []) {q : Path} (hq : IsRatePath q) :
    Agree f q (a.getPath q) (b.getPath q) := by
  obtain ⟨key, hkey, t, rfl⟩ := hq
  rw [getPath_key, getPath_key]
  exact (diff_eq_nil.mp (List.flatMap_eq_nil_iff.mp h key hkey)).down t

/-- Whether an event changed a path, something above it or something below it. -/
def Event.touches (e : Event N) (q : Path) : Bool := e.paths.any fun c => c.isPrefixOf q || q.isPrefixOf c

theorem apart_of_not_touches {e : Event N} {q c : Path} (h : e.touches q = false) (hc : c ∈ e.paths) : Apart c q := by
  have hno := List.any_eq_false.mp h c hc
  rw [Bool.not_eq_true, Bool.or_eq_false_iff] at hno
  constructor
  · intro hcq
    rw [List.isPrefixOf_iff_prefix.mpr hcq] at hno
    exact absurd hno.1 (by simp)
  · intro hqc
    rw [List.isPrefixOf_iff_prefix.mpr hqc] at hno
    exact absurd hno.2 (by simp)

section History

variable {q : Path} {evs : List (Event N)}

theorem agree_of_not_touches {e : Event N} (h : e.IsRead f) (hq : IsRatePath q) (ht : e.touches q = false) :
    Agree f q (e.before.getPath q) (e.after.getPath q) :=
  h.agree_of_apart hq fun _ hc => apart_of_not_touches ht hc

/-- **After its last change a path keeps its value.** -/
theorem agree_after {first : Event N} (hread : ∀ e ∈ evs, e.IsRead f) (hchain : Chained f (first :: evs))
    (hq : IsRatePath q) (hno : ∀ e ∈ evs, e.touches q = false) :
    ∀ e ∈ first :: evs, Agree f q (first.after.getPath q) (e.after.getPath q) := by
  induction evs generalizing first with
  | nil =>
    intro e he
    rw [List.mem_singleton.mp he]
    exact Agree.refl _ _
  | cons next evs ih =>
    obtain ⟨hlink, hchain⟩ := List.isChain_cons_cons.mp hchain
    intro e he
    rcases List.mem_cons.mp he with rfl | he
    · exact Agree.refl _ _
    · have hnext : Agree f q (first.after.getPath q) (next.after.getPath q) :=
        (agree_of_changed_eq_nil hlink hq).trans
          (agree_of_not_touches (hread next List.mem_cons_self) hq (hno next List.mem_cons_self))
      exact hnext.trans (ih (fun e he => hread e (List.mem_cons_of_mem _ he)) hchain
        (fun e he => hno e (List.mem_cons_of_mem _ he)) e he)

/-- The events that touch a path. -/
def touched (evs : List (Event N)) (q : Path) : List (Event N) := evs.filter fun e => e.touches q

/-- What a path was before the first event that touches it, and after each of them. -/
def recorded (evs : List (Event N)) (q : Path) : List (Option (Json Text N)) :=
  match touched evs q with
  | [] => []
  | first :: rest => first.before.getPath q :: (first :: rest).map fun e => e.after.getPath q

/-- A value that means the same as one of a list. -/
def Among (f : Reading N R) (q : Path) (values : List (Option (Json Text N))) (v : Option (Json Text N)) : Prop :=
  ∃ u ∈ values, Agree f q v u

theorem Among.of_agree {values : List (Option (Json Text N))} {v u : Option (Json Text N)} (h : Among f q values u)
    (hvu : Agree f q v u) : Among f q values v := by
  obtain ⟨w, hw, huw⟩ := h
  exact ⟨w, hw, hvu.trans huw⟩

/-- The link from an event to the one after it. -/
theorem agree_head {first : Event N} (hchain : Chained f (first :: evs)) (hq : IsRatePath q) {e : Event N}
    (he : e ∈ evs.head?) : Agree f q (first.after.getPath q) (e.before.getPath q) := by
  cases evs with
  | nil => exact absurd he (by simp)
  | cons e' evs =>
    obtain rfl : e' = e := by simpa using he
    exact agree_of_changed_eq_nil (List.isChain_cons_cons.mp hchain).1 hq

/-- From a value on, a path has this value or one that a later event gave it. -/
theorem among_from {v : Option (Json Text N)} (hread : ∀ e ∈ evs, e.IsRead f) (hchain : Chained f evs)
    (hq : IsRatePath q) (hv : ∀ e ∈ evs.head?, Agree f q v (e.before.getPath q)) {e : Event N} (he : e ∈ evs) :
    Among f q (v :: (touched evs q).map fun e => e.after.getPath q) (e.before.getPath q)
      ∧ Among f q (v :: (touched evs q).map fun e => e.after.getPath q) (e.after.getPath q) := by
  induction evs generalizing v with
  | nil => exact absurd he List.not_mem_nil
  | cons next evs ih =>
    have hread' : ∀ e ∈ evs, e.IsRead f := fun e he => hread e (List.mem_cons_of_mem _ he)
    have hchain' : Chained f evs := List.IsChain.tail hchain
    have hstart := hv next (by simp)
    cases ht : next.touches q with
    | true =>
      have htouched : touched (next :: evs) q = next :: touched evs q := List.filter_cons_of_pos ht
      rw [htouched, List.map_cons]
      rcases List.mem_cons.mp he with rfl | he
      · exact ⟨⟨v, List.mem_cons_self, hstart.symm⟩, _, by simp, Agree.refl _ _⟩
      · obtain ⟨⟨u, hu, hbefore⟩, u', hu', hafter⟩ := ih hread' hchain' (fun e he => agree_head hchain hq he) he
        exact ⟨⟨u, List.mem_cons_of_mem _ hu, hbefore⟩, u', List.mem_cons_of_mem _ hu', hafter⟩
    | false =>
      have htouched : touched (next :: evs) q = touched evs q := List.filter_cons_of_neg (by simp [ht])
      have hkeep := hstart.trans (agree_of_not_touches (hread next List.mem_cons_self) hq ht)
      rw [htouched]
      rcases List.mem_cons.mp he with rfl | he
      · exact ⟨⟨v, List.mem_cons_self, hstart.symm⟩, v, List.mem_cons_self, hkeep.symm⟩
      · exact ih hread' hchain' (fun e he => hkeep.trans (agree_head hchain hq he)) he

/-- **Every value a path had is its first one or one that an event gave it.** -/
theorem among_recorded (hread : ∀ e ∈ evs, e.IsRead f) (hchain : Chained f evs) (hq : IsRatePath q)
    (htouched : touched evs q ≠ []) {e : Event N} (he : e ∈ evs) :
    Among f q (recorded evs q) (e.before.getPath q) ∧ Among f q (recorded evs q) (e.after.getPath q) := by
  induction evs generalizing e with
  | nil => exact absurd he List.not_mem_nil
  | cons first evs ih =>
    cases ht : first.touches q with
    | true =>
      have hfilter : touched (first :: evs) q = first :: touched evs q := List.filter_cons_of_pos ht
      have hfrom := among_from hread hchain hq (v := first.before.getPath q)
        (fun e he => by
          obtain rfl : first = e := by simpa using he
          exact Agree.refl _ _) he
      rw [hfilter] at hfrom
      rw [recorded, hfilter]
      exact hfrom
    | false =>
      have hfilter : touched (first :: evs) q = touched evs q := List.filter_cons_of_neg (by simp [ht])
      rw [recorded, hfilter]
      rw [hfilter] at htouched
      have hrest : ∀ e ∈ evs, Among f q (recorded evs q) (e.before.getPath q)
          ∧ Among f q (recorded evs q) (e.after.getPath q) := fun e he =>
        ih (fun e he => hread e (List.mem_cons_of_mem _ he)) (List.IsChain.tail hchain) htouched he
      rcases List.mem_cons.mp he with rfl | he
      · -- the first touching event comes later, and nothing changes on the way
        obtain ⟨next, hnext⟩ : ∃ next, next ∈ evs.head? := by
          cases evs with
          | nil => exact absurd rfl htouched
          | cons next evs => exact ⟨next, rfl⟩
        have hafter := (hrest next (List.mem_of_mem_head? hnext)).1.of_agree (agree_head hchain hq hnext)
        exact ⟨hafter.of_agree (agree_of_not_touches (hread e List.mem_cons_self) hq ht), hafter⟩
      · exact hrest e he

/-- **After the last event that touches it, a path keeps its value.** -/
theorem agree_last {last e : Event N} (hread : ∀ e ∈ evs, e.IsRead f) (hchain : Chained f evs) (hq : IsRatePath q)
    (hlast : (touched evs q).getLast? = some last) (he : evs.getLast? = some e) :
    Agree f q (last.after.getPath q) (e.after.getPath q) := by
  induction evs with
  | nil => exact absurd he (by simp)
  | cons first evs ih =>
    by_cases hlater : touched evs q = []
    · -- the first event is the last to touch the path
      have hno : ∀ e ∈ evs, e.touches q = false := by simpa [touched] using hlater
      have hfirst : last = first := by
        have hmem : last ∈ touched (first :: evs) q := List.mem_of_getLast? hlast
        rcases List.mem_cons.mp (List.mem_of_mem_filter hmem) with h | h
        · exact h
        · have htouches : last.touches q = true := (List.mem_filter.mp hmem).2
          rw [hno last h] at htouches
          exact absurd htouches (by simp)
      subst hfirst
      exact agree_after (fun e he => hread e (List.mem_cons_of_mem _ he)) hchain hq hno e (List.mem_of_getLast? he)
    · obtain ⟨next, rest, hrest⟩ := List.exists_cons_of_ne_nil hlater
      have htail : (touched evs q).getLast? = some last := by
        rw [← hlast]
        cases ht : first.touches q with
        | true =>
          have hfilter : touched (first :: evs) q = first :: touched evs q := List.filter_cons_of_pos ht
          rw [hfilter, hrest, List.getLast?_cons_cons]
        | false =>
          have hfilter : touched (first :: evs) q = touched evs q := List.filter_cons_of_neg (by simp [ht])
          rw [hfilter]
      have hevs : evs ≠ [] := by
        rintro rfl
        exact hlater rfl
      obtain ⟨next', rest', rfl⟩ := List.exists_cons_of_ne_nil hevs
      rw [List.getLast?_cons_cons] at he
      exact ih (fun e he => hread e (List.mem_cons_of_mem _ he)) (List.IsChain.tail hchain) htail he

end History

/-! ## What the merge starts from and aims at -/

/-- The value of a path before the first event that touches it. -/
def firstBefore (evs : List (Event N)) (p : Path) : Option (Json Text N) :=
  (touching evs p).head?.bind fun e => e.before.getPath p

/-- The value of a path after the last event that touches it. -/
def lastAfter (evs : List (Event N)) (p : Path) : Option (Json Text N) :=
  (touching evs p).getLast?.bind fun e => e.after.getPath p

variable (f) in
/-- The changes of a path cancel out: its value is back where it was. -/
def Cancelled (evs : List (Event N)) (p : Path) : Prop := equal f p (firstBefore evs p) (lastAfter evs p) = true

section Collapsed

variable {evs : List (Event N)} {p : Path} (hp : p ∈ collapse (changedPaths evs))

include hp

/-- The events that touch a collapsed path change it or something below it. -/
theorem touched_collapse : touched evs p = touching evs p := by
  refine List.filter_congr fun e he => ?_
  rw [Bool.eq_iff_iff]
  unfold Event.touches
  rw [List.any_eq_true, List.any_eq_true]
  constructor
  · rintro ⟨c, hc, hor⟩
    refine ⟨c, hc, List.isPrefixOf_iff_prefix.mpr (prefix_of_not_apart hp he hc fun hapart => ?_)⟩
    rw [Bool.or_eq_true, List.isPrefixOf_iff_prefix, List.isPrefixOf_iff_prefix] at hor
    exact hor.elim hapart.1 hapart.2
  · rintro ⟨c, hc, hpre⟩
    exact ⟨c, hc, by rw [hpre, Bool.or_true]⟩

/-- Some event touches a collapsed path, and everything below it. -/
theorem touched_ne_nil {q : Path} (hpq : p <+: q) : touched evs q ≠ [] := by
  obtain ⟨e, he, hpe⟩ := mem_collapse hp
  have hmem : e ∈ touched evs q := by
    refine List.mem_filter.mpr ⟨he, List.any_eq_true.mpr ⟨p, hpe, ?_⟩⟩
    rw [List.isPrefixOf_iff_prefix.mpr hpq, Bool.true_or]
  exact List.ne_nil_of_mem hmem

theorem touching_ne_nil : touching evs p ≠ [] := by
  rw [← touched_collapse hp]
  exact touched_ne_nil hp List.prefix_rfl

variable (hread : ∀ e ∈ evs, e.IsRead f)

include hread

theorem isRatePath_collapse {q : Path} (hpq : p <+: q) : IsRatePath q := by
  obtain ⟨e, he, hpe⟩ := mem_collapse hp
  obtain ⟨key, hkey, t, rfl⟩ := (hread e he).isRatePath hpe
  obtain ⟨t', rfl⟩ := hpq
  exact ⟨key, hkey, t ++ t', rfl⟩

theorem ne_tagRates_collapse {q : Path} (hpq : p <+: q) : q ≠ [tagRates] := by
  obtain ⟨e, he, hpe⟩ := mem_collapse hp
  rintro rfl
  rcases List.prefix_cons_iff.mp hpq with rfl | ⟨t, rfl, ht⟩
  · obtain ⟨key, -, t, heq⟩ := (hread e he).isRatePath hpe
    exact absurd heq (by simp)
  · rw [List.prefix_nil.mp ht] at hpe
    exact (hread e he).ne_tagRates hpe rfl

/-- What is above a collapsed path was there before the first event that touches it. -/
theorem isSome_above_first {first : Event N} (hfirst : (touching evs p).head? = some first) {q : Path} (hq : q <+: p)
    (hne : q ≠ p) : (first.before.getPath q).isSome := by
  have hmem : first ∈ touching evs p := List.mem_of_mem_head? hfirst
  obtain ⟨he, hany⟩ := List.mem_filter.mp hmem
  obtain ⟨c, hc, hpc⟩ := List.any_eq_true.mp hany
  have hpc := List.isPrefixOf_iff_prefix.mp hpc
  refine (hread first he).isSome_above hc (hq.trans hpc) fun heq => hne ?_
  subst heq
  exact List.IsPrefix.eq_of_length_le hq (hpc.length_le)

variable (hchain : Chained f evs)

include hchain

theorem equal_of_agree_collapse {q : Path} (hpq : p <+: q) {e e' : Event N} (he : e ∈ evs) (he' : e' ∈ evs)
    (h : Agree f q (e.after.getPath q) (e'.after.getPath q)) :
    equal f q (e.after.getPath q) (e'.after.getPath q) = true := by
  obtain ⟨key, -, t, hq⟩ := isRatePath_collapse hp hread hpq
  refine equal_of_agree h (by simp [hq]) (ne_tagRates_collapse hp hread hpq) ?_ ?_
  · exact fun v hv => Json.sorted_getPath (hread e he).sorted_after hv
  · exact fun v hv => Json.sorted_getPath (hread e' he').sorted_after hv

/-- **The value the merge aims at is the one after the last event.** -/
theorem equal_lastAfter {last : Event N} (hlast : evs.getLast? = some last) :
    equal f p (lastAfter evs p) (last.after.getPath p) = true := by
  obtain ⟨lastTouching, htouching⟩ : ∃ e, (touching evs p).getLast? = some e :=
    Option.ne_none_iff_exists'.mp (by simpa using touching_ne_nil hp)
  have hmem : lastTouching ∈ evs := List.mem_of_mem_filter (List.mem_of_getLast? htouching)
  have hagree := agree_last hread hchain (isRatePath_collapse hp hread List.prefix_rfl)
    (by rw [touched_collapse hp]; exact htouching) hlast
  rw [lastAfter, htouching]
  exact equal_of_agree_collapse hp hread hchain List.prefix_rfl hmem (List.mem_of_getLast? hlast) hagree

/-- Below a collapsed path, too, it is the value after the last event that touches the path. -/
theorem equal_lastAfter_below {q : Path} (hpq : p <+: q) {t : Path} (ht : q = p ++ t) :
    ∃ last, (touched evs q).getLast? = some last
      ∧ equal f q ((lastAfter evs p).bind (Json.getPath t)) (last.after.getPath q) = true := by
  obtain ⟨last, hlast⟩ : ∃ e, (touched evs q).getLast? = some e :=
    Option.ne_none_iff_exists'.mp (by simpa using touched_ne_nil hp hpq)
  obtain ⟨e, he⟩ : ∃ e, evs.getLast? = some e := by
    refine Option.ne_none_iff_exists'.mp fun hnone => ?_
    rw [List.getLast?_eq_none_iff.mp hnone] at hlast
    exact absurd hlast (by simp [touched])
  refine ⟨last, hlast, ?_⟩
  have hmem : last ∈ evs := List.mem_of_mem_filter (List.mem_of_getLast? hlast)
  have hend := equal_below (equal_lastAfter hp hread hchain he) t
  rw [← Json.getPath_append, ← ht] at hend
  refine equal_trans hend (equal_symm ?_)
  exact equal_of_agree_collapse hp hread hchain hpq hmem (List.mem_of_getLast? he)
    (agree_last hread hchain (isRatePath_collapse hp hread hpq) hlast he)

end Collapsed

end SentryUsb.Rates
