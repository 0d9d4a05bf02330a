import SentryUsb.Library.GapRuns

/-! # The runs of a sorted list by one sweep

A list sorted by a key is swept once; wherever the key jumps by more than a gap, or the list ends, the elements since the
last such place are visited as one run. The runs are the connected components of the elements under hops within the gap.

* **`sweep`** — the loop over the indices, with the index where the run under way began;
* **`sweep_eq_foldl`** — it visits the runs of the list, one after the other;
* **`markAll`** — the visit that sets a flag for some of the elements;
* **`Joined`** — numbers of a list joined by hops;
* **`joined_iff_mem_run`** — two elements are joined exactly if they are in one run. -/

namespace SentryUsb.Library

variable {α β : Type*} {key : α → Int} {gap : Int}

/-! ## The sweep -/

/-- Whether the run under way ends before an index. -/
def runEnds (key : α → Int) (gap : Int) (l : List α) (idx : Nat) : Bool :=
  decide (idx = l.length)
    || decide (0 < idx) && l[idx]?.any fun b => l[idx - 1]?.any fun a => decide (gap < key b - key a)

/-- One index of the sweep. -/
def sweepStep (key : α → Int) (gap : Int) (l : List α) (visit : β → List α → β) (s : Nat × β) (idx : Nat) : Nat × β :=
  if runEnds key gap l idx then (idx, visit s.2 ((l.take idx).drop s.1)) else s

/-- The sweep over the indices up to the length of the list. -/
def sweep (key : α → Int) (gap : Int) (l : List α) (visit : β → List α → β) (init : β) : β :=
  ((List.range (l.length + 1)).foldl (sweepStep key gap l visit) (0, init)).2

variable {visit : β → List α → β} {init : β}

/-- **Within the list**: the runs up to an index are visited but for the last one, which began at the recorded index. -/
theorem foldl_sweepStep (l : List α) {n : Nat} (hn : n < l.length) : ∃ front cur,
    gapRuns key gap (l.take (n + 1)) = front ++ [cur ++ [l[n]]]
      ∧ (List.range (n + 1)).foldl (sweepStep key gap l visit) (0, init)
        = (front.flatten.length, front.foldl visit init) := by
  induction n with
  | zero =>
    obtain ⟨a, rest, rfl⟩ : ∃ a rest, l = a :: rest := List.exists_cons_of_ne_nil (List.ne_nil_of_length_pos hn)
    refine ⟨[], [], rfl, ?_⟩
    have hends : runEnds key gap (a :: rest) 0 = false := by simp [runEnds]
    show sweepStep key gap (a :: rest) visit (0, init) 0 = _
    rw [sweepStep, hends]
    rfl
  | succ n ih =>
    obtain ⟨front, cur, hruns, hstate⟩ := ih (by omega)
    have htake : l.take (n + 1 + 1) = l.take (n + 1) ++ [l[n + 1]] := List.take_succ_eq_append_getElem hn
    have hflat : l.take (n + 1) = front.flatten ++ (cur ++ [l[n]]) := by
      rw [← flatten_gapRuns key gap (l.take (n + 1)), hruns]
      simp
    have hends : runEnds key gap l (n + 1) = decide (gap < key l[n + 1] - key l[n]) := by
      have hne : ¬ n + 1 = l.length := by omega
      simp [runEnds, hne, List.getElem?_eq_getElem hn, List.getElem?_eq_getElem (show n < l.length by omega)]
    rw [List.range_succ, List.foldl_append, hstate, htake, gapRuns_concat hruns]
    show ∃ front' cur', _ ∧ sweepStep key gap l visit _ (n + 1) = _
    rw [sweepStep, hends]
    by_cases hfar : gap < key l[n + 1] - key l[n]
    · -- the run ends here, and the next element begins one
      refine ⟨front ++ [cur ++ [l[n]]], [], ?_, ?_⟩
      · rw [if_neg (by omega)]
        rfl
      · rw [if_pos (decide_eq_true hfar), hflat, List.drop_left, List.foldl_append]
        have hlength := congrArg List.length hflat
        rw [List.length_take_of_le (by omega), ← List.flatten_concat] at hlength
        rw [hlength]
        rfl
    · refine ⟨front, cur ++ [l[n]], ?_, ?_⟩
      · rw [if_pos (by omega)]
      · rw [if_neg (by simpa using hfar)]

/-- **The sweep visits the runs of the list.** -/
theorem sweep_eq_foldl (l : List α) (hnil : visit init [] = init) :
    sweep key gap l visit init = (gapRuns key gap l).foldl visit init := by
  rcases List.eq_nil_or_concat l with rfl | ⟨l', a, hl⟩
  · exact hnil
  · have hlength : l.length = l'.length + 1 := by rw [hl]; simp
    obtain ⟨front, cur, hruns, hstate⟩ := @foldl_sweepStep _ _ key gap visit init l l'.length (by omega)
    rw [← hlength, List.take_length] at hruns
    have hflat : l = front.flatten ++ (cur ++ [l[l'.length]]) := by
      conv_lhs => rw [← flatten_gapRuns key gap l, hruns]
      simp
    have hends : runEnds key gap l l.length = true := by simp [runEnds]
    rw [sweep, List.range_succ, List.foldl_append, hlength, hstate, ← hlength, hruns, List.foldl_append]
    show (sweepStep key gap l visit _ l.length).2 = _
    rw [sweepStep, if_pos hends, List.take_length]
    show visit _ (l.drop front.flatten.length) = visit _ (cur ++ [l[l'.length]])
    conv_lhs => rw [hflat, List.drop_left]

/-! ## Flags -/

/-- Sets the flags of the elements that have one. -/
def markAll (flag : α → Option Nat) (flags : List Bool) (l : List α) : List Bool :=
  l.foldl (fun flags a => match flag a with
    | some k => flags.set k true
    | none => flags) flags

theorem getElem?_markAll (flag : α → Option Nat) {flags : List Bool} {l : List α} {k : Nat} (hk : k < flags.length) :
    (markAll flag flags l)[k]? = some true ↔ flags[k]? = some true ∨ ∃ a ∈ l, flag a = some k := by
  induction l generalizing flags with
  | nil => simp [markAll]
  | cons a l ih =>
    have hcons : markAll flag flags (a :: l)
        = markAll flag (match flag a with | some j => flags.set j true | none => flags) l := rfl
    rw [hcons]
    cases ha : flag a with
    | none =>
      rw [ih hk]
      simp [ha]
    | some j =>
      have hset : k < (flags.set j true).length := by simpa using hk
      rw [ih hset]
      by_cases hj : j = k
      · subst hj
        simp [ha, hk]
      · simp [ha, hj, List.getElem?_set_ne hj]

theorem length_markAll (flag : α → Option Nat) (flags : List Bool) (l : List α) :
    (markAll flag flags l).length = flags.length := by
  induction l generalizing flags with
  | nil => rfl
  | cons a l ih =>
    have hcons : markAll flag flags (a :: l)
        = markAll flag (match flag a with | some j => flags.set j true | none => flags) l := rfl
    rw [hcons, ih]
    split
    · exact List.length_set
    · rfl

/-! ## Chains -/

/-- One hop between two numbers of a list. -/
def WithinGap (gap : Int) (l : List Int) (a b : Int) : Prop := a ∈ l ∧ b ∈ l ∧ b - a ≤ gap ∧ a - b ≤ gap

/-- **Joined numbers**: one is reached from the other by hops. -/
def Joined (gap : Int) (l : List Int) : Int → Int → Prop := Relation.ReflTransGen (WithinGap gap l)

theorem Joined.mono {l m : List Int} (hlm : l ⊆ m) {a b : Int} (h : Joined gap l a b) : Joined gap m a b := by
  induction h with
  | refl => exact .refl
  | tail _ hop ih => exact ih.tail ⟨hlm hop.1, hlm hop.2.1, hop.2.2⟩

theorem Joined.symm {l : List Int} {a b : Int} (h : Joined gap l a b) : Joined gap l b a := by
  induction h with
  | refl => exact .refl
  | tail _ hop ih => exact Relation.ReflTransGen.head ⟨hop.2.1, hop.1, hop.2.2.2, hop.2.2.1⟩ ih

/-- The elements of a run are joined to its first one. -/
theorem joined_of_isChain {l : List α} {a : α} {rest : List α} (hgap : 0 ≤ gap)
    (hchain : (a :: rest).IsChain fun a b => decide (key b - key a ≤ gap) = true)
    (hsorted : Nondecreasing key (a :: rest)) (hmem : ∀ b ∈ a :: rest, b ∈ l) :
    ∀ b ∈ a :: rest, Joined gap (l.map key) (key a) (key b) := by
  induction rest generalizing a with
  | nil =>
    intro b hb
    rw [List.mem_singleton.mp hb]
    exact .refl
  | cons c rest ih =>
    obtain ⟨hstep, hrest⟩ := List.isChain_cons_cons.mp hchain
    obtain ⟨hfirst, htail⟩ := List.pairwise_cons.mp hsorted
    have hle := hfirst c List.mem_cons_self
    have hhop : WithinGap gap (l.map key) (key a) (key c) :=
      ⟨List.mem_map_of_mem (hmem a List.mem_cons_self),
        List.mem_map_of_mem (hmem c (List.mem_cons_of_mem _ List.mem_cons_self)), of_decide_eq_true hstep, by omega⟩
    intro b hb
    rcases List.mem_cons.mp hb with rfl | hb
    · exact .refl
    · exact Relation.ReflTransGen.head hhop (ih hrest htail (fun d hd => hmem d (List.mem_cons_of_mem _ hd)) b hb)

/-- **The runs are the components**: an element is joined to one of a run exactly if it is in the run. -/
theorem joined_iff_mem_run {l run : List α} (hgap : 0 ≤ gap) (hsorted : Nondecreasing key l)
    (hrun : run ∈ gapRuns key gap l) {a b : α} (ha : a ∈ run) (hb : b ∈ l) :
    Joined gap (l.map key) (key a) (key b) ↔ b ∈ run := by
  constructor
  · intro hjoined
    -- the elements whose key is joined to that of `a` stay in the run, hop by hop
    have hclosed : ∀ t, Joined gap (l.map key) (key a) t → ∀ c ∈ l, key c = t → c ∈ run := by
      intro t ht
      induction ht with
      | refl =>
        intro c hc heq
        exact mem_run_of_near hsorted hrun ha hc (by omega) (by omega)
      | tail _ hop ih =>
        intro c hc heq
        obtain ⟨d, hd, hdkey⟩ := List.mem_map.mp hop.1
        have hdrun := ih d hd hdkey
        obtain ⟨-, -, hup, hdown⟩ := hop
        exact mem_run_of_near hsorted hrun hdrun hc (by omega) (by omega)
    exact hclosed _ hjoined b hb rfl
  · intro hbrun
    obtain ⟨c, rest, rfl⟩ := List.exists_cons_of_ne_nil (ne_nil_of_run hrun)
    have hhead := joined_of_isChain hgap (isChain_of_run hrun) (hsorted.run hrun) fun d hd => mem_of_mem_run hrun hd
    exact (hhead a ha).symm.trans (hhead b hbrun)

end SentryUsb.Library
