import Mathlib

/-! # Runs of an increasing list

A list with increasing keys is cut into runs wherever the key jumps by more than a gap.

* **`gapRuns`** — the runs;
* **`IsRunStart`** — a key that begins a run: nothing lies within the gap below it;
* **`gapRuns_concat`** — what one element more does;
* **`gapRuns_append`**, **`gapRuns_filter`** — cutting the list at a run start cuts its runs;
* **`pairwise_gapRuns`**, **`gapRuns_cut_last`** — the runs in order, and the list without the last one;
* **`exists_straddle`** — a run steps over no key without coming within the gap;
* **`mem_run_of_near`**, **`mem_run_of_between`**, **`chain_subset_run`** — what belongs to a run;
* **`exists_within_gap`** — a run that lost an element shows where. -/

namespace SentryUsb.Library

variable {α : Type*} {key : α → Int} {gap : Int}

/-- The runs of a list. -/
def gapRuns (key : α → Int) (gap : Int) (l : List α) : List (List α) :=
  l.splitBy fun a b => decide (key b - key a ≤ gap)

/-- Keys strictly increase. -/
def Increasing (key : α → Int) (l : List α) : Prop := l.Pairwise fun a b => key a < key b

/-- Keys do not decrease. -/
def Nondecreasing (key : α → Int) (l : List α) : Prop := l.Pairwise fun a b => key a ≤ key b

theorem Increasing.nondecreasing {l : List α} (h : Increasing key l) : Nondecreasing key l := h.imp le_of_lt

/-- A run begins at the key. -/
def IsRunStart (key : α → Int) (gap : Int) (l : List α) (s : Int) : Prop :=
  (∃ a ∈ l, key a = s) ∧ ∀ a ∈ l, key a < s → gap < s - key a

/-- Two lists that are further apart than the gap. -/
theorem gapRuns_append {l m : List α} (h : ∀ a ∈ l, ∀ b ∈ m, gap < key b - key a) :
    gapRuns key gap (l ++ m) = gapRuns key gap l ++ gapRuns key gap m := by
  refine List.splitBy_append fun a ha b hb => ?_
  have hgap := h a (List.mem_of_getLast? ha) b (List.mem_of_head? hb)
  exact decide_eq_false (by omega)

/-- **One element more** extends the last run, or begins a run. -/
theorem gapRuns_concat {l : List α} {front : List (List α)} {cur : List α} {last : α}
    (h : gapRuns key gap l = front ++ [cur ++ [last]]) (a : α) :
    gapRuns key gap (l ++ [a])
      = if key a - key last ≤ gap then front ++ [cur ++ [last] ++ [a]] else front ++ [cur ++ [last]] ++ [[a]] := by
  obtain ⟨hl, hnil, hchains, hjumps⟩ := List.splitBy_eq_iff.mp h
  by_cases hnear : key a - key last ≤ gap
  · rw [if_pos hnear]
    refine List.splitBy_eq_iff.mpr ⟨by simp [hl], ?_, fun run hrun => ?_, ?_⟩
    · intro hmem
      rcases List.mem_append.mp hmem with hmem | hmem
      · exact hnil (List.mem_append_left _ hmem)
      · simp at hmem
    · rcases List.mem_append.mp hrun with hrun | hrun
      · exact hchains run (List.mem_append_left _ hrun)
      · rw [List.mem_singleton.mp hrun]
        refine List.isChain_append.mpr ⟨hchains _ (by simp), List.isChain_singleton a, ?_⟩
        intro x hx y hy
        obtain rfl : last = x := by simpa using hx
        obtain rfl : a = y := by simpa using hy
        exact decide_eq_true hnear
    · -- the run that grew still begins where it began
      obtain ⟨hfront, -, hlast⟩ := List.isChain_append.mp hjumps
      refine List.isChain_append.mpr ⟨hfront, List.isChain_singleton _, fun x hx y hy => ?_⟩
      obtain rfl : cur ++ [last] ++ [a] = y := by simpa using hy
      obtain ⟨hx', hy', hfar⟩ := hlast x hx (cur ++ [last]) (by simp)
      refine ⟨hx', by simp, ?_⟩
      rw [List.head_append_of_ne_nil hy']
      exact hfar
  · rw [if_neg hnear, ← h]
    refine List.splitBy_append_cons [] fun x hx => ?_
    obtain rfl : last = x := by simpa [hl] using hx
    exact decide_eq_false hnear

/-- An increasing list is what lies below a key and what does not. -/
theorem Increasing.filter_append {l : List α} (h : Increasing key l) (s : Int) :
    l = l.filter (fun a => decide (key a < s)) ++ l.filter fun a => decide (s ≤ key a) := by
  induction l with
  | nil => rfl
  | cons a l ih =>
    obtain ⟨hfirst, hrest⟩ := List.pairwise_cons.mp h
    by_cases ha : key a < s
    · rw [List.filter_cons_of_pos (by simpa using ha), List.filter_cons_of_neg (by simpa using ha),
        List.cons_append, ← ih hrest]
    · -- nothing after `a` lies below `s` either
      have hnone : l.filter (fun a => decide (key a < s)) = [] := by
        refine List.filter_eq_nil_iff.mpr fun b hb => ?_
        have := hfirst b hb
        simp only [decide_eq_true_eq]
        omega
      have hall : l.filter (fun a => decide (s ≤ key a)) = l := by
        refine List.filter_eq_self.mpr fun b hb => ?_
        have := hfirst b hb
        simp only [decide_eq_true_eq]
        omega
      rw [List.filter_cons_of_neg (by simpa using ha), List.filter_cons_of_pos (by simp; omega), hnone, hall]
      rfl

/-- **Cutting at a run start** cuts the runs. -/
theorem gapRuns_filter {l : List α} (h : Increasing key l) {s : Int}
    (hs : ∀ a ∈ l, key a < s → ∀ b ∈ l, s ≤ key b → gap < key b - key a) :
    gapRuns key gap l = gapRuns key gap (l.filter fun a => decide (key a < s))
      ++ gapRuns key gap (l.filter fun a => decide (s ≤ key a)) := by
  conv_lhs => rw [h.filter_append s]
  refine gapRuns_append fun a ha b hb => ?_
  obtain ⟨ha, hlow⟩ := List.mem_filter.mp ha
  obtain ⟨hb, hhigh⟩ := List.mem_filter.mp hb
  exact hs a ha (of_decide_eq_true hlow) b hb (of_decide_eq_true hhigh)

theorem IsRunStart.gapRuns_filter {l : List α} {s : Int} (hs : IsRunStart key gap l s)
    (h : Increasing key l) :
    gapRuns key gap l = gapRuns key gap (l.filter fun a => decide (key a < s))
      ++ gapRuns key gap (l.filter fun a => decide (s ≤ key a)) :=
  Library.gapRuns_filter h fun a ha hlow b _ hhigh => by
    have := hs.2 a ha hlow
    omega

/-! ## A run in its list -/

theorem flatten_gapRuns (key : α → Int) (gap : Int) (l : List α) : (gapRuns key gap l).flatten = l :=
  List.flatten_splitBy _ _

/-- Every element is in a run. -/
theorem exists_run (key : α → Int) (gap : Int) {l : List α} {a : α} (ha : a ∈ l) :
    ∃ run ∈ gapRuns key gap l, a ∈ run := by
  rw [← flatten_gapRuns key gap l] at ha
  exact List.mem_flatten.mp ha

theorem mem_of_mem_run {l run : List α} {a : α} (hrun : run ∈ gapRuns key gap l) (ha : a ∈ run) : a ∈ l := by
  rw [← flatten_gapRuns key gap l]
  exact List.mem_flatten.mpr ⟨run, hrun, ha⟩

/-- Earlier runs lie further below later ones than the gap. -/
theorem Nondecreasing.separated {l : List α} (h : Nondecreasing key l) {before after : List (List α)}
    (hruns : gapRuns key gap l = before ++ after) :
    ∀ a ∈ before.flatten, ∀ b ∈ after.flatten, gap < key b - key a := by
  have hl : l = before.flatten ++ after.flatten := by
    rw [← List.flatten_append, ← hruns, flatten_gapRuns]
  have hnil : [] ∉ gapRuns key gap l := List.nil_notMem_splitBy _ _
  have hchain := List.isChain_getLast_head_splitBy (fun a b : α => decide (key b - key a ≤ gap)) l
  rw [show l.splitBy _ = before ++ after from hruns] at hchain
  rw [hruns] at hnil
  rw [hl] at h
  obtain ⟨hbefore, hafter, hcross⟩ := List.pairwise_append.mp h
  intro a ha b hb
  -- the last run before the cut and the first one after it
  obtain ⟨bs, p, rfl⟩ : ∃ bs p, before = bs ++ [p] := by
    rcases List.eq_nil_or_concat before with rfl | ⟨bs, p, rfl⟩
    · simp at ha
    · exact ⟨bs, p, List.concat_eq_append⟩
  obtain ⟨q, as, rfl⟩ : ∃ q as, after = q :: as := by
    cases after with
    | nil => simp at hb
    | cons q as => exact ⟨q, as, rfl⟩
  have hp : p ≠ [] := fun heq => hnil (by simp [heq])
  have hq : q ≠ [] := fun heq => hnil (by simp [heq])
  have hjump : decide (key (q.head hq) - key (p.getLast hp) ≤ gap) = false := by
    have hmid := (List.isChain_append.mp hchain).2.2 p (by simp) q (by simp)
    obtain ⟨hp', hq', hfalse⟩ := hmid
    exact hfalse
  have hlast : key a ≤ key (p.getLast hp) := by
    have hflat : (bs ++ [p]).flatten = (bs.flatten ++ p.dropLast) ++ [p.getLast hp] := by
      simp [List.dropLast_append_getLast hp]
    rw [hflat] at ha hbefore
    rcases List.mem_append.mp ha with ha | ha
    · exact (List.pairwise_append.mp hbefore).2.2 a ha _ (by simp)
    · rw [List.mem_singleton.mp ha]
  have hhead : key (q.head hq) ≤ key b := by
    have hflat : (q :: as).flatten = q.head hq :: (q.tail ++ as.flatten) := by
      rw [List.flatten_cons, ← List.cons_append, List.cons_head_tail]
    rw [hflat] at hb hafter
    rcases List.mem_cons.mp hb with rfl | hb
    · exact le_refl _
    · exact (List.pairwise_cons.mp hafter).1 b hb
  have := of_decide_eq_false hjump
  omega

theorem separated_of_gapRuns {l : List α} (h : Increasing key l) {before after : List (List α)}
    (hruns : gapRuns key gap l = before ++ after) :
    ∀ a ∈ before.flatten, ∀ b ∈ after.flatten, gap < key b - key a :=
  h.nondecreasing.separated hruns

/-- Runs lie one after the other, further apart than the gap. -/
theorem pairwise_gapRuns {l : List α} (h : Increasing key l) :
    (gapRuns key gap l).Pairwise fun run later => ∀ a ∈ run, ∀ b ∈ later, gap < key b - key a := by
  have hcuts : ∀ before after, gapRuns key gap l = before ++ after →
      ∀ a ∈ before.flatten, ∀ b ∈ after.flatten, gap < key b - key a := fun _ _ hcut => separated_of_gapRuns h hcut
  generalize gapRuns key gap l = runs at hcuts
  induction runs with
  | nil => exact List.Pairwise.nil
  | cons run runs ih =>
    refine List.pairwise_cons.mpr ⟨fun later hlater a ha b hb => ?_, ih fun before after hcut a ha b hb => ?_⟩
    · exact hcuts [run] runs rfl a (by simpa using ha) b (List.mem_flatten.mpr ⟨later, hlater, hb⟩)
    · exact hcuts (run :: before) after (by rw [hcut]; rfl) a (List.mem_append_right _ ha) b hb

/-- The last run begins the rest of its list. -/
theorem gapRuns_cut_last {l : List α} (h : Increasing key l) {front : List (List α)} {run : List α}
    (hruns : gapRuns key gap l = front ++ [run]) :
    l = front.flatten ++ run ∧ gapRuns key gap front.flatten = front := by
  have hl : l = front.flatten ++ run := by
    conv_lhs => rw [← flatten_gapRuns key gap l, hruns]
    simp
  refine ⟨hl, ?_⟩
  have happend : gapRuns key gap (front.flatten ++ run) = gapRuns key gap front.flatten ++ gapRuns key gap run := by
    refine gapRuns_append fun a ha b hb => separated_of_gapRuns h hruns a ha b ?_
    simpa using hb
  have hmem : run ∈ gapRuns key gap l := by
    rw [hruns]
    simp
  have hself : gapRuns key gap run = [run] :=
    List.splitBy_of_isChain (List.ne_nil_of_mem_splitBy hmem) (List.isChain_of_mem_splitBy hmem)
  rw [← hl, hruns, hself] at happend
  exact (List.append_cancel_right happend).symm

/-- A run splits its list: everything before it and after it is further away than the gap. -/
theorem exists_split {l run : List α} (h : Nondecreasing key l) (hrun : run ∈ gapRuns key gap l) :
    ∃ low high, l = low ++ run ++ high ∧ (∀ a ∈ low, ∀ b ∈ run ++ high, gap < key b - key a)
      ∧ ∀ a ∈ low ++ run, ∀ b ∈ high, gap < key b - key a := by
  obtain ⟨before, after, hsplit⟩ := List.append_of_mem hrun
  refine ⟨before.flatten, after.flatten, ?_, fun a ha b hb => ?_, fun a ha b hb => ?_⟩
  · conv_lhs => rw [← flatten_gapRuns key gap l, hsplit]
    simp
  · exact h.separated hsplit a ha b (by simpa using hb)
  · have hsplit' : gapRuns key gap l = (before ++ [run]) ++ after := by
      rw [hsplit]
      simp
    exact h.separated hsplit' a (by simpa using ha) b hb

/-- The first key of a run begins a run. -/
theorem isRunStart_of_run {l : List α} {a : α} {rest : List α} (h : Increasing key l)
    (hrun : a :: rest ∈ gapRuns key gap l) : IsRunStart key gap l (key a) := by
  obtain ⟨low, high, hl, hlow, -⟩ := exists_split h.nondecreasing hrun
  refine ⟨⟨a, mem_of_mem_run hrun List.mem_cons_self, rfl⟩, fun b hb hlt => ?_⟩
  rw [hl, List.append_assoc] at hb
  rcases List.mem_append.mp hb with hb | hb
  · exact hlow b hb a (by simp)
  · -- `b` cannot come after `a`
    have hincreasing : Increasing key (low ++ ((a :: rest) ++ high)) := by
      rw [← List.append_assoc, ← hl]
      exact h
    have htail := (List.pairwise_append.mp hincreasing).2.1
    rw [List.cons_append] at htail hb
    rcases List.mem_cons.mp hb with rfl | hb
    · exact absurd hlt (lt_irrefl _)
    · exact absurd ((List.pairwise_cons.mp htail).1 b hb) (by omega)

/-- **A run steps over no key** without coming within the gap below it. -/
theorem exists_straddle {a : α} {rest : List α}
    (h : (a :: rest).IsChain fun a b => decide (key b - key a ≤ gap) = true) {s : Int} (hs : key a < s)
    {b : α} (hb : b ∈ a :: rest) (hsb : s ≤ key b) : ∃ c ∈ a :: rest, key c < s ∧ s - key c ≤ gap := by
  induction rest generalizing a with
  | nil =>
    obtain rfl := List.mem_singleton.mp hb
    omega
  | cons d rest ih =>
    obtain ⟨hstep, hrest⟩ := List.isChain_cons_cons.mp h
    have hstep := of_decide_eq_true hstep
    by_cases hd : key d < s
    · have hb' : b ∈ d :: rest := by
        rcases List.mem_cons.mp hb with rfl | hb
        · omega
        · exact hb
      obtain ⟨c, hc, hcs⟩ := ih hrest hd hb'
      exact ⟨c, List.mem_cons_of_mem _ hc, hcs⟩
    · exact ⟨a, List.mem_cons_self, hs, by omega⟩

theorem isChain_of_run {l run : List α} (hrun : run ∈ gapRuns key gap l) :
    run.IsChain fun a b => decide (key b - key a ≤ gap) = true :=
  List.isChain_of_mem_splitBy hrun

theorem ne_nil_of_run {l run : List α} (hrun : run ∈ gapRuns key gap l) : run ≠ [] :=
  List.ne_nil_of_mem_splitBy hrun

/-- A run of an increasing list is increasing. -/
theorem Increasing.run {l run : List α} (h : Increasing key l) (hrun : run ∈ gapRuns key gap l) :
    Increasing key run := by
  obtain ⟨low, high, hl, -, -⟩ := exists_split h.nondecreasing hrun
  rw [hl] at h
  exact (List.pairwise_append.mp (List.pairwise_append.mp h).1).2.1

/-- A run of a sorted list is sorted. -/
theorem Nondecreasing.run {l run : List α} (h : Nondecreasing key l) (hrun : run ∈ gapRuns key gap l) :
    Nondecreasing key run := by
  obtain ⟨low, high, hl, -, -⟩ := exists_split h hrun
  rw [hl] at h
  exact (List.pairwise_append.mp (List.pairwise_append.mp h).1).2.1

/-- Two elements of a list with one key are the same. -/
theorem Increasing.eq_of_key {l : List α} (h : Increasing key l) {a b : α} (ha : a ∈ l) (hb : b ∈ l)
    (hkey : key a = key b) : a = b := by
  induction l with
  | nil => simp at ha
  | cons c l ih =>
    obtain ⟨hfirst, hrest⟩ := List.pairwise_cons.mp h
    rcases List.mem_cons.mp ha with heq | ha
    · rcases List.mem_cons.mp hb with hb | hb
      · rw [heq, hb]
      · have := hfirst b hb
        rw [← heq] at this
        omega
    · rcases List.mem_cons.mp hb with heq | hb
      · have := hfirst a ha
        rw [← heq] at this
        omega
      · exact ih hrest ha hb

/-- **A run holds what comes within the gap** of one of its elements. -/
theorem mem_run_of_near {l run : List α} (h : Nondecreasing key l) (hrun : run ∈ gapRuns key gap l)
    {a b : α} (ha : a ∈ run) (hb : b ∈ l) (hbelow : key a - key b ≤ gap) (habove : key b - key a ≤ gap) :
    b ∈ run := by
  obtain ⟨low, high, hl, hlow, hhigh⟩ := exists_split h hrun
  rw [hl] at hb
  rcases List.mem_append.mp hb with hb | hb
  · rcases List.mem_append.mp hb with hb | hb
    · exact absurd (hlow b hb a (List.mem_append_left _ ha)) (by omega)
    · exact hb
  · exact absurd (hhigh a (List.mem_append_right _ ha) b hb) (by omega)

/-- A run holds what lies between two of its elements. -/
theorem mem_run_of_between {l run : List α} (h : Increasing key l) (hrun : run ∈ gapRuns key gap l)
    {a b c : α} (ha : a ∈ run) (hc : c ∈ run) (hb : b ∈ l) (hab : key a ≤ key b) (hbc : key b ≤ key c) :
    b ∈ run := by
  obtain ⟨low, high, hl, -, -⟩ := exists_split h.nondecreasing hrun
  rw [hl] at hb h
  obtain ⟨hfront, -, hcross⟩ := List.pairwise_append.mp h
  rcases List.mem_append.mp hb with hb | hb
  · rcases List.mem_append.mp hb with hb | hb
    · exact absurd ((List.pairwise_append.mp hfront).2.2 b hb a ha) (by omega)
    · exact hb
  · exact absurd (hcross c (List.mem_append_right _ hc) b hb) (by omega)

/-- Elements that follow each other within the gap stay in one run of any list that has them. -/
theorem chain_subset_run {l run : List α} (h : Increasing key l) (hrun : run ∈ gapRuns key gap l)
    {a : α} {rest : List α} (hchain : (a :: rest).IsChain fun a b => decide (key b - key a ≤ gap) = true)
    (hincreasing : Increasing key (a :: rest)) (hmem : ∀ b ∈ rest, b ∈ l) (ha : a ∈ run) (hgap : 0 ≤ gap) :
    ∀ b ∈ a :: rest, b ∈ run := by
  induction rest generalizing a with
  | nil =>
    intro b hb
    rw [List.mem_singleton.mp hb]
    exact ha
  | cons d rest ih =>
    obtain ⟨hstep, hrest⟩ := List.isChain_cons_cons.mp hchain
    obtain ⟨hfirst, htail⟩ := List.pairwise_cons.mp hincreasing
    have hstep := of_decide_eq_true hstep
    have hlt := hfirst d List.mem_cons_self
    have hd : d ∈ run := mem_run_of_near h.nondecreasing hrun ha (hmem d List.mem_cons_self) (by omega) hstep
    intro b hb
    rcases List.mem_cons.mp hb with rfl | hb
    · exact ha
    · exact ih hrest htail (fun b hb => hmem b (List.mem_cons_of_mem _ hb)) hd b hb

/-- The first element of an increasing list has the least key. -/
theorem Increasing.head_le {a b : α} {rest : List α} (h : Increasing key (a :: rest)) (hb : b ∈ a :: rest) :
    key a ≤ key b := by
  rcases List.mem_cons.mp hb with rfl | hb
  · exact le_refl _
  · exact le_of_lt ((List.pairwise_cons.mp h).1 b hb)

/-- The last element of an increasing list has the greatest key. -/
theorem Increasing.le_getLast {l : List α} {a b : α} (h : Increasing key l) (ha : a ∈ l.getLast?) (hb : b ∈ l) :
    key b ≤ key a := by
  obtain ⟨front, rfl⟩ := List.getLast?_eq_some_iff.mp ha
  rcases List.mem_append.mp hb with hb | hb
  · exact le_of_lt ((List.pairwise_append.mp h).2.2 b hb a (List.mem_singleton_self a))
  · rw [List.mem_singleton.mp hb]

/-- Only the first element of a run begins one. -/
theorem eq_head_of_isRunStart {l : List α} {a b : α} {rest : List α} (h : Increasing key l)
    (hrun : a :: rest ∈ gapRuns key gap l) (hb : b ∈ a :: rest) (hs : IsRunStart key gap l (key b)) :
    key b = key a := by
  have hle := (h.run hrun).head_le hb
  by_contra hne
  obtain ⟨c, hc, hlt, hnear⟩ := exists_straddle (isChain_of_run hrun) (by omega) hb (le_refl _)
  have := hs.2 c (mem_of_mem_run hrun hc) hlt
  omega

/-- **A gap in what is left of a run.** Between an element of a run and a later one further away than
the gap, the run has an element within the gap of the first. -/
theorem exists_within_gap {l run : List α} (h : Increasing key l) (hrun : run ∈ gapRuns key gap l)
    {a b : α} (ha : a ∈ run) (hb : b ∈ run) (hfar : gap < key b - key a) (hgap : 0 ≤ gap) :
    ∃ c ∈ run, key a < key c ∧ key c - key a ≤ gap := by
  obtain ⟨d, rest, rfl⟩ := List.exists_cons_of_ne_nil (ne_nil_of_run hrun)
  have hle := (h.run hrun).head_le ha
  obtain ⟨c, hc, hlt, hnear⟩ := exists_straddle (s := key a + gap + 1) (isChain_of_run hrun) (by omega) hb
    (by omega)
  exact ⟨c, hc, by omega, by omega⟩

end SentryUsb.Library
