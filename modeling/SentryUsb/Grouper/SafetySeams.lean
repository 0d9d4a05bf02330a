import SentryUsb.Grouper.ClipSafety

/-! # The safety counters across a seam

Where the autopilot is left at the end of a clip, the next seconds of driving do not count against the driver: what the following
clip counted in its first seconds is taken away again (`safety_prefix_for_grace`, `grouper.rs`). An estimated turn is hard from
its second sample on, and then both samples count, in the second of the later one.

* **`safetyPrefixForGrace`** — what is taken away; **`prefix_wholeSeconds`** — for whole seconds, whole counters;
* **`rest_walk`** — what stays is what the later samples add;
* **`counted_add`** — hard turns and other turning are all the turning, but for a turn that is cut after its first sample;
* **`consistent_iff`** — the counters stay in order exactly when no cut leaves such a turn alone. -/

namespace SentryUsb.Safety

/-! ## Taking a prefix away -/

/-- A number rounded, half away from zero (`f64::round`). -/
def roundAway (x : ℚ) : Int := if 0 ≤ x then ⌊x + 1 / 2⌋ else ⌈x - 1 / 2⌉

/-- A part of the counters of a second. -/
def SafetyPrefixBucket.part (b : SafetyPrefixBucket) (fraction : ℚ) : SafetyPrefixBucket :=
  ⟨roundAway (b.hardBrakeMs * fraction), roundAway (b.brakeAnyMs * fraction), roundAway (b.aggrTurnMs * fraction),
    roundAway (b.turnAnyMs * fraction), roundAway (b.speedingMs * fraction)⟩

/-- The counters of the seconds that are left. -/
def graceLoop : List SafetyPrefixBucket → Int → SafetyPrefixBucket → SafetyPrefixBucket
  | [], _, out => out
  | bucket :: buckets, remaining, out =>
    if remaining ≤ 0 then out
    else graceLoop buckets (remaining - 1000) (out + bucket.part (max 0 (min 1 ((min remaining 1000 : Int) / 1000))))

/-- **The counters of the time after a seam** (`safety_prefix_for_grace`). -/
def safetyPrefixForGrace (buckets : List SafetyPrefixBucket) (graceMs : Int) : SafetyPrefixBucket :=
  graceLoop buckets (max 0 (min graceMs 5000)) 0

/-- A counter of a clip, without what a seam takes away (`build_summary_from_aggregates`). -/
def afterSeam (total excluded : Int) : Int := max (total - excluded) 0

/-- The counters are in order, also after a seam with whole seconds. -/
structure Consistent (clip : Clip) : Prop where
  uncut : Ordered (computeClipSafety clip)
  hardBrake_nonneg : 0 ≤ (computeClipSafety clip).hardBrakeMs
  hardBrake_le : (computeClipSafety clip).hardBrakeMs ≤ (computeClipSafety clip).brakeAnyMs
  aggrTurn_nonneg : 0 ≤ (computeClipSafety clip).aggrTurnMs
  aggrTurn_le : (computeClipSafety clip).aggrTurnMs ≤ (computeClipSafety clip).turnAnyMs
  seamBrake : ∀ g : Nat, g ≤ 5 →
    afterSeam (computeClipSafety clip).hardBrakeMs
        (safetyPrefixForGrace (computeClipSafety clip).gracePrefix (1000 * g)).hardBrakeMs ≤
      afterSeam (computeClipSafety clip).brakeAnyMs
        (safetyPrefixForGrace (computeClipSafety clip).gracePrefix (1000 * g)).brakeAnyMs
  seamTurn : ∀ g : Nat, g ≤ 5 →
    afterSeam (computeClipSafety clip).aggrTurnMs
        (safetyPrefixForGrace (computeClipSafety clip).gracePrefix (1000 * g)).aggrTurnMs ≤
      afterSeam (computeClipSafety clip).turnAnyMs
        (safetyPrefixForGrace (computeClipSafety clip).gracePrefix (1000 * g)).turnAnyMs

/-! ## Whole seconds -/

/-- A counter of a bucket. -/
structure Counter (p : SafetyPrefixBucket → Int) : Prop where
  zero : p 0 = 0
  add : ∀ a b, p (a + b) = p a + p b
  part : ∀ b fraction, p (b.part fraction) = roundAway (p b * fraction)

theorem counter_hardBrake : Counter SafetyPrefixBucket.hardBrakeMs := ⟨rfl, fun _ _ => rfl, fun _ _ => rfl⟩

theorem counter_brakeAny : Counter SafetyPrefixBucket.brakeAnyMs := ⟨rfl, fun _ _ => rfl, fun _ _ => rfl⟩

theorem counter_aggrTurn : Counter SafetyPrefixBucket.aggrTurnMs := ⟨rfl, fun _ _ => rfl, fun _ _ => rfl⟩

theorem counter_turnAny : Counter SafetyPrefixBucket.turnAnyMs := ⟨rfl, fun _ _ => rfl, fun _ _ => rfl⟩

section Rest

variable {p : SafetyPrefixBucket → Int} {buckets : List SafetyPrefixBucket} {out out' : ClipSafety} {b : SafetyPrefixBucket}
  {second g : Nat}

theorem roundAway_intCast (n : Int) : roundAway n = n := by
  rw [roundAway]
  have hhalf : ⌊(n : ℚ) + 1 / 2⌋ = n := by
    rw [Int.floor_intCast_add]
    norm_num
  have hhalf' : ⌈(n : ℚ) - 1 / 2⌉ = n := by
    rw [Int.ceil_eq_iff]
    constructor
    · linarith
    · linarith
  split
  · exact hhalf
  · exact hhalf'

/-- **For whole seconds, whole counters.** -/
theorem graceLoop_wholeSeconds (hp : Counter p) (g : Nat) (out : SafetyPrefixBucket) :
    p (graceLoop buckets (1000 * g) out) = p out + ((buckets.take g).map p).sum := by
  induction buckets generalizing g out with
  | nil => rw [graceLoop, List.take_nil, List.map_nil, List.sum_nil, Int.add_zero]
  | cons bucket buckets ih =>
    cases g with
    | zero => rw [graceLoop, if_pos (by simp), List.take_zero, List.map_nil, List.sum_nil, Int.add_zero]
    | succ g =>
      have hmin : min (1000 * ((g + 1 : Nat) : Int)) 1000 = 1000 := by omega
      have hfraction : max 0 (min 1 (((min (1000 * ((g + 1 : Nat) : Int)) 1000 : Int) : ℚ) / 1000)) = 1 := by
        rw [hmin]
        norm_num
      have hnext : 1000 * ((g + 1 : Nat) : Int) - 1000 = 1000 * (g : Int) := by
        push_cast
        omega
      rw [graceLoop, if_neg (by push_cast; omega), hfraction, hnext, ih, hp.add, hp.part, mul_one, roundAway_intCast,
        List.take_succ_cons, List.map_cons, List.sum_cons, Int.add_assoc]

theorem prefix_wholeSeconds (hp : Counter p) (hg : g ≤ 5) :
    p (safetyPrefixForGrace buckets (1000 * g)) = ((buckets.take g).map p).sum := by
  have hclamp : max 0 (min (1000 * (g : Int)) 5000) = 1000 * (g : Int) := by omega
  rw [safetyPrefixForGrace, hclamp, graceLoop_wholeSeconds hp, hp.zero, Int.zero_add]

/-! ## What stays -/

/-- A counter without its first seconds. -/
def rest (p : SafetyPrefixBucket → Int) (g : Nat) (out : ClipSafety) : Int :=
  p out.factors - ((out.gracePrefix.take g).map p).sum

theorem afterSeam_eq (hp : Counter p) (hg : g ≤ 5) (out : ClipSafety) :
    afterSeam (p out.factors) (p (safetyPrefixForGrace out.gracePrefix (1000 * g))) = max (rest p g out) 0 := by
  rw [afterSeam, prefix_wholeSeconds hp hg, rest]

theorem sum_take_modify (hp : Counter p) (b : SafetyPrefixBucket) (second : Nat) (hg : g ≤ buckets.length) :
    (((buckets.modify second (· + b)).take g).map p).sum = ((buckets.take g).map p).sum + if second < g then p b else 0 := by
  induction buckets generalizing second g with
  | nil =>
    obtain rfl : g = 0 := Nat.le_zero.mp hg
    rw [List.take_zero, List.take_zero, if_neg (Nat.not_lt_zero second)]
    rfl
  | cons a buckets ih =>
    cases g with
    | zero =>
      rw [List.take_zero, List.take_zero, if_neg (Nat.not_lt_zero second)]
      rfl
    | succ g =>
      cases second with
      | zero =>
        rw [List.modify_zero_cons, List.take_succ_cons, List.take_succ_cons, List.map_cons, List.map_cons, List.sum_cons,
          List.sum_cons, hp.add, if_pos (Nat.succ_pos g)]
        omega
      | succ second =>
        rw [List.modify_succ_cons, List.take_succ_cons, List.take_succ_cons, List.map_cons, List.map_cons, List.sum_cons,
          List.sum_cons, ih second (Nat.le_of_succ_le_succ hg)]
        simp only [Nat.add_lt_add_iff_right]
        omega

/-- **A time that is added stays unless its second is one of the first.** -/
theorem rest_of_adds (hp : Counter p) (h : Adds second b out out') (hg : g ≤ out.gracePrefix.length) :
    rest p g out' = rest p g out + if g ≤ second then p b else 0 := by
  rw [rest, rest, h.factors, h.gracePrefix, sum_take_modify hp b second hg, hp.add]
  by_cases hsecond : g ≤ second
  · rw [if_pos hsecond, if_neg (Nat.not_lt.mpr hsecond)]
    omega
  · rw [if_neg hsecond, if_pos (Nat.lt_of_not_le hsecond)]
    omega

end Rest

/-! ## The walk -/

section Walks

variable {clip : Clip} {p : SafetyPrefixBucket → Int} {g : Nat} {l l' : List Sample}

/-- What samples add behind a number of seconds. -/
def sumBehind (clip : Clip) (p : SafetyPrefixBucket → Int) (g : Nat) : Nat → List Sample → Int
  | _, [] => 0
  | streak, i :: l =>
    (if g ≤ i.second then p (added clip i streak) else 0) + sumBehind clip p g (nextStreak clip i streak) l

/-- How many hard turns there were up to the last sample. -/
def streakAfter (clip : Clip) (streak : Nat) (l : List Sample) : Nat :=
  l.foldl (fun streak i => nextStreak clip i streak) streak

/-- **What stays is what the later samples add.** -/
theorem rest_walk (hp : Counter p) (hg : g ≤ 5) (s : Walk) (hlen : s.out.gracePrefix.length = 5) (l : List Sample) :
    rest p g (l.foldl (fun s i => step clip i s) s).out = rest p g s.out + sumBehind clip p g s.turnStreak l := by
  induction l generalizing s with
  | nil => exact (Int.add_zero _).symm
  | cons i l ih =>
    obtain ⟨hadds, hstreak⟩ := step_adds clip i s
    have hlen' : (step clip i s).out.gracePrefix.length = 5 := by
      rw [hadds.gracePrefix, List.length_modify, hlen]
    rw [List.foldl_cons, ih (step clip i s) hlen', rest_of_adds hp hadds (hlen ▸ hg), hstreak, sumBehind, Int.add_assoc]

theorem rest_empty (hp : Counter p) (g : Nat) : rest p g .empty = 0 := by
  have hsum : ((List.take g (List.replicate 5 (0 : SafetyPrefixBucket))).map p).sum = 0 := by
    rw [List.take_replicate, List.map_replicate, hp.zero, List.sum_replicate, smul_zero]
  show p 0 - _ = 0
  rw [hp.zero]
  show 0 - ((List.take g (List.replicate 5 (0 : SafetyPrefixBucket))).map p).sum = 0
  rw [hsum]
  rfl

/-- The samples that count. -/
def Clip.counting (clip : Clip) : List Sample := if clip.usable then clip.samples else []

theorem rest_computeClipSafety (hp : Counter p) (hg : g ≤ 5) (clip : Clip) :
    rest p g (computeClipSafety clip) = sumBehind clip p g 0 clip.counting := by
  rw [computeClipSafety, Clip.counting]
  split
  · rw [rest_walk hp hg start rfl]
    exact (congrArg (· + _) (rest_empty hp g)).trans (Int.zero_add _)
  · exact rest_empty hp g

theorem ordered_counting (clip : Clip) : (clip.counting.map Sample.second).Pairwise (· ≤ ·) := by
  rw [Clip.counting]
  split
  · exact clip.ordered
  · exact List.Pairwise.nil

theorem sumBehind_append (streak : Nat) :
    sumBehind clip p g streak (l ++ l') = sumBehind clip p g streak l + sumBehind clip p g (streakAfter clip streak l) l' := by
  induction l generalizing streak with
  | nil => exact (Int.zero_add _).symm
  | cons i l ih =>
    rw [List.cons_append, sumBehind, sumBehind, ih, Int.add_assoc]
    rfl

theorem sumBehind_early (streak : Nat) (h : ∀ i ∈ l, i.second < g) : sumBehind clip p g streak l = 0 := by
  induction l generalizing streak with
  | nil => rfl
  | cons i l ih =>
    rw [sumBehind, if_neg (Nat.not_le.mpr (h i List.mem_cons_self)), ih _ fun j hj => h j (List.mem_cons_of_mem i hj)]
    rfl

/-- What one counter adds is at most what another does. -/
theorem sumBehind_le {q : SafetyPrefixBucket → Int} (h : ∀ i streak, p (added clip i streak) ≤ q (added clip i streak))
    (streak : Nat) (l : List Sample) : sumBehind clip p g streak l ≤ sumBehind clip q g streak l := by
  induction l generalizing streak with
  | nil => exact le_refl _
  | cons i l ih =>
    refine Int.add_le_add ?_ (ih _)
    split
    · exact h i streak
    · exact le_refl _

end Walks

/-! ## What a sample adds to each counter -/

section Counters

variable (clip : Clip) (i : Sample) (streak : Nat)

theorem Force.any_of_isHard {f : Force} (h : f.isHard = true) : f.any = true := by
  cases f with
  | slight => exact nomatch h
  | felt => rfl
  | hard => rfl

theorem Counter.ite {p : SafetyPrefixBucket → Int} (hp : Counter p) (c : Bool) (b : SafetyPrefixBucket) :
    p (if c then b else 0) = if c then p b else 0 := by
  cases c with
  | true => rfl
  | false => exact hp.zero

theorem Counter.added {p : SafetyPrefixBucket → Int} (hp : Counter p) :
    p (added clip i streak) = (if speedsAny i then p (.speeding clip.ms) else 0) +
      ((if brakesAny clip i then p (.brakeAny clip.ms) else 0) + (if brakesHard clip i then p (.hardBrake clip.ms) else 0) +
        ((if turnsAny clip i then p (.turnAny clip.ms) else 0) + p (.aggrTurn (turnCount clip i streak * clip.ms)))) := by
  rw [Safety.added, hp.add, hp.add, braked, hp.add, turned, hp.add, hp.ite, hp.ite, hp.ite, hp.ite]

theorem hardBrake_added : (added clip i streak).hardBrakeMs = if brakesHard clip i then (clip.ms : Int) else 0 := by
  rw [counter_hardBrake.added]
  simp [SafetyPrefixBucket.speeding, SafetyPrefixBucket.brakeAny, SafetyPrefixBucket.hardBrake, SafetyPrefixBucket.turnAny,
    SafetyPrefixBucket.aggrTurn]

theorem brakeAny_added : (added clip i streak).brakeAnyMs = if brakesAny clip i then (clip.ms : Int) else 0 := by
  rw [counter_brakeAny.added]
  simp [SafetyPrefixBucket.speeding, SafetyPrefixBucket.brakeAny, SafetyPrefixBucket.hardBrake, SafetyPrefixBucket.turnAny,
    SafetyPrefixBucket.aggrTurn]

theorem aggrTurn_added : (added clip i streak).aggrTurnMs = turnCount clip i streak * clip.ms := by
  rw [counter_aggrTurn.added]
  simp [SafetyPrefixBucket.speeding, SafetyPrefixBucket.brakeAny, SafetyPrefixBucket.hardBrake, SafetyPrefixBucket.turnAny,
    SafetyPrefixBucket.aggrTurn]

theorem turnAny_added : (added clip i streak).turnAnyMs = if turnsAny clip i then (clip.ms : Int) else 0 := by
  rw [counter_turnAny.added]
  simp [SafetyPrefixBucket.speeding, SafetyPrefixBucket.brakeAny, SafetyPrefixBucket.hardBrake, SafetyPrefixBucket.turnAny,
    SafetyPrefixBucket.aggrTurn]

variable {clip i}

theorem brakesAny_of_hard (h : brakesHard clip i = true) : brakesAny clip i = true := by
  rw [brakesHard] at h
  rw [brakesAny]
  cases himu : clip.hasImu with
  | true =>
    rw [himu] at h
    simp only [if_true, Bool.and_eq_true] at h ⊢
    exact ⟨h.1, h.2.1, Force.any_of_isHard h.2.2⟩
  | false =>
    rw [himu] at h
    simp only [Bool.false_eq_true, if_false, Bool.and_eq_true] at h ⊢
    exact ⟨h.1, h.2.1, Force.any_of_isHard h.2.2.1⟩

theorem turnsAny_of_hard (h : turnsHard clip i = true) : turnsAny clip i = true := by
  rw [turnsHard] at h
  rw [turnsAny]
  cases himu : clip.hasImu with
  | true =>
    rw [himu] at h
    simp only [if_true, Bool.and_eq_true] at h ⊢
    exact ⟨h.1, h.2.1, Force.any_of_isHard h.2.2⟩
  | false =>
    rw [himu] at h
    simp only [Bool.false_eq_true, if_false, Bool.and_eq_true] at h ⊢
    exact ⟨h.1, h.2.1, Force.any_of_isHard h.2.2⟩

theorem hardBrake_le_brakeAny (i : Sample) (streak : Nat) :
    (added clip i streak).hardBrakeMs ≤ (added clip i streak).brakeAnyMs := by
  rw [hardBrake_added, brakeAny_added]
  have hms : (0 : Int) ≤ clip.ms := Int.natCast_nonneg _
  by_cases hhard : brakesHard clip i = true
  · rw [if_pos hhard, if_pos (brakesAny_of_hard hhard)]
  · rw [if_neg hhard]
    split
    · exact hms
    · exact le_refl _

/-- Where accelerations are measured, every hard turn counts for itself. -/
theorem aggrTurn_le_turnAny (himu : clip.hasImu = true) (i : Sample) (streak : Nat) :
    (added clip i streak).aggrTurnMs ≤ (added clip i streak).turnAnyMs := by
  rw [aggrTurn_added, turnAny_added, turnCount, if_pos himu]
  have hms : (0 : Int) ≤ clip.ms := Int.natCast_nonneg _
  by_cases hhard : turnsHard clip i = true
  · rw [if_pos hhard, if_pos (turnsAny_of_hard hhard), Nat.cast_one, Int.one_mul]
  · rw [if_neg hhard, Nat.cast_zero, Int.zero_mul]
    split
    · exact hms
    · exact le_refl _

end Counters

/-! ## Turns behind a cut -/

section Turns

variable {clip : Clip} {g : Nat} {l l' : List Sample}

/-- A hard turn comes first. -/
def headHard (clip : Clip) : List Sample → Bool
  | [] => false
  | i :: _ => turnsHard clip i

/-- How many hard turns come last, one after another. -/
def hardRun (clip : Clip) (l : List Sample) : Nat := (l.reverse.takeWhile (turnsHard clip)).length

/-- How many samples count as turning only: those that are no hard turn, and hard turns that stand alone. -/
def onlyTurning (clip : Clip) : Bool → List Sample → Nat
  | _, [] => 0
  | hardBefore, i :: l =>
    (if turnsAny clip i && !(turnsHard clip i && (hardBefore || headHard clip l)) then 1 else 0) +
      onlyTurning clip (turnsHard clip i) l

/-- How often samples count as hard turns. -/
def counted (clip : Clip) : Nat → List Sample → Nat
  | _, [] => 0
  | streak, i :: l => turnCount clip i streak + counted clip (nextStreak clip i streak) l

/-- **Hard turns and other turning are all the turning**, but for a turn whose first sample came before: it counts as well. -/
theorem counted_add (himu : clip.hasImu = false) (streak : Nat) (l : List Sample) :
    counted clip streak l + onlyTurning clip (0 < streak) l =
      l.countP (turnsAny clip) + if streak = 1 ∧ headHard clip l = true then 1 else 0 := by
  induction l generalizing streak with
  | nil => simp [counted, onlyTurning, headHard]
  | cons i l ih =>
    have hnext := ih (nextStreak clip i streak)
    rw [counted, onlyTurning, List.countP_cons, headHard, turnCount]
    rw [nextStreak, himu] at hnext ⊢
    simp only [Bool.false_eq_true, if_false] at hnext ⊢
    by_cases hhard : turnsHard clip i = true
    · have hany := turnsAny_of_hard hhard
      rw [if_pos hhard] at hnext ⊢
      rw [hhard, hany, if_pos rfl, late]
      have hlater : decide (0 < streak + 1) = true := decide_eq_true (Nat.succ_pos streak)
      rw [hlater] at hnext
      -- the first, the second, and the later hard turns
      rcases streak with _ | _ | streak
      · cases hhead : headHard clip l with
        | true =>
          simp [hhead] at hnext ⊢
          omega
        | false =>
          simp [hhead] at hnext ⊢
          omega
      · simp at hnext ⊢
        omega
      · simp at hnext ⊢
        omega
    · have hhard' : turnsHard clip i = false := Bool.eq_false_iff.mpr hhard
      rw [if_neg hhard] at hnext ⊢
      rw [hhard']
      have hzero : decide (0 < 0) = false := rfl
      rw [hzero] at hnext
      simp at hnext ⊢
      omega

/-- The samples in the first seconds. -/
def before (g : Nat) (l : List Sample) : List Sample := l.takeWhile (·.second < g)

/-- The samples behind them. -/
def behind (g : Nat) (l : List Sample) : List Sample := l.dropWhile (·.second < g)

theorem before_lt {i : Sample} (h : i ∈ before g l) : i.second < g := by
  have hlt := List.mem_takeWhile_imp (p := fun j : Sample => decide (j.second < g)) h
  exact of_decide_eq_true hlt

/-- Seconds are in order, so those behind the cut are all late. -/
theorem le_behind (hl : (l.map Sample.second).Pairwise (· ≤ ·)) {i : Sample} (h : i ∈ behind g l) : g ≤ i.second := by
  induction l with
  | nil => exact nomatch h
  | cons j l ih =>
    rw [List.map_cons, List.pairwise_cons] at hl
    rw [behind, List.dropWhile_cons] at h
    split at h
    · exact ih hl.2 h
    · next hj =>
      have hhead : g ≤ j.second := Nat.not_lt.mp fun hlt => hj (decide_eq_true hlt)
      rcases List.mem_cons.mp h with rfl | h
      · exact hhead
      · exact hhead.trans (hl.1 i.second (List.mem_map_of_mem h))

/-- **What stays is what is added behind the cut.** -/
theorem sumBehind_behind {p : SafetyPrefixBucket → Int} (streak : Nat) (l : List Sample) :
    sumBehind clip p g streak l = sumBehind clip p g (streakAfter clip streak (before g l)) (behind g l) := by
  have hsplit : l = before g l ++ behind g l := List.takeWhile_append_dropWhile.symm
  have hsum : sumBehind clip p g streak (before g l ++ behind g l) = _ := sumBehind_append streak
  rw [← hsplit, sumBehind_early streak fun i hi => before_lt hi, Int.zero_add] at hsum
  exact hsum

/-- Hard turns behind the cut. -/
theorem sumBehind_aggrTurn (streak : Nat) (hl : ∀ i ∈ l, g ≤ i.second) :
    sumBehind clip SafetyPrefixBucket.aggrTurnMs g streak l = counted clip streak l * clip.ms := by
  induction l generalizing streak with
  | nil => exact (Int.zero_mul _).symm
  | cons i l ih =>
    rw [sumBehind, if_pos (hl i List.mem_cons_self), aggrTurn_added, ih _ fun j hj => hl j (List.mem_cons_of_mem i hj),
      counted, Nat.cast_add, Int.add_mul]

/-- Turning behind the cut. -/
theorem sumBehind_turnAny (streak : Nat) (hl : ∀ i ∈ l, g ≤ i.second) :
    sumBehind clip SafetyPrefixBucket.turnAnyMs g streak l = l.countP (turnsAny clip) * clip.ms := by
  induction l generalizing streak with
  | nil => exact (Int.zero_mul _).symm
  | cons i l ih =>
    rw [sumBehind, if_pos (hl i List.mem_cons_self), turnAny_added, ih _ fun j hj => hl j (List.mem_cons_of_mem i hj),
      List.countP_cons, Nat.cast_add, Int.add_mul, Int.add_comm]
    split
    · rw [Nat.cast_one, Int.one_mul]
    · rw [Nat.cast_zero, Int.zero_mul]

/-- The streak is the run of hard turns that come last. -/
theorem streakAfter_eq_hardRun (himu : clip.hasImu = false) (l : List Sample) : streakAfter clip 0 l = hardRun clip l := by
  induction l using List.reverseRecOn with
  | nil => rfl
  | append_singleton l i ih =>
    have hlast : streakAfter clip 0 (l ++ [i]) = nextStreak clip i (streakAfter clip 0 l) := by
      rw [streakAfter, List.foldl_append]
      rfl
    have hrun : hardRun clip (l ++ [i]) = if turnsHard clip i then hardRun clip l + 1 else 0 := by
      rw [hardRun, List.reverse_append, List.reverse_singleton, List.singleton_append, List.takeWhile_cons]
      split
      · rfl
      · rfl
    rw [hlast, ih, hrun, nextStreak, himu]
    rfl

/-- The cut is between the first hard turn of a run and the second. -/
def SplitsTurn (clip : Clip) (g : Nat) (l : List Sample) : Prop :=
  hardRun clip (before g l) = 1 ∧ headHard clip (behind g l) = true

/-- **The turns behind a cut are in order** unless it splits a turn, and no other turning is behind it. -/
theorem turns_le_iff (himu : clip.hasImu = false) (hl : (l.map Sample.second).Pairwise (· ≤ ·)) :
    sumBehind clip SafetyPrefixBucket.aggrTurnMs g 0 l ≤ sumBehind clip SafetyPrefixBucket.turnAnyMs g 0 l ↔
      (0 < clip.ms → SplitsTurn clip g l → 0 < onlyTurning clip true (behind g l)) := by
  have hall : ∀ i ∈ behind g l, g ≤ i.second := fun i hi => le_behind hl hi
  rw [sumBehind_behind (p := SafetyPrefixBucket.aggrTurnMs), sumBehind_behind (p := SafetyPrefixBucket.turnAnyMs) 0 l,
    sumBehind_aggrTurn _ hall, sumBehind_turnAny _ hall, streakAfter_eq_hardRun himu,
    SplitsTurn]
  have hcount := counted_add himu (hardRun clip (before g l)) (behind g l)
  rcases Nat.eq_zero_or_pos clip.ms with hms | hms
  · rw [hms, Nat.cast_zero, Int.mul_zero, Int.mul_zero]
    exact ⟨fun _ h => absurd h (Nat.lt_irrefl 0), fun _ => le_refl _⟩
  · rw [Int.mul_le_mul_right (Int.natCast_pos.mpr hms), Int.ofNat_le, forall_prop_of_true hms]
    by_cases hsplit : hardRun clip (before g l) = 1 ∧ headHard clip (behind g l) = true
    · rw [if_pos hsplit, hsplit.1] at hcount
      rw [forall_prop_of_true hsplit, hsplit.1]
      have hone : decide (0 < 1) = true := rfl
      rw [hone] at hcount
      omega
    · rw [if_neg hsplit] at hcount
      refine iff_of_true (by omega) fun h => absurd h hsplit

end Turns

/-! ## The whole -/

section Whole

variable {clip : Clip} {g : Nat}

/-- What stays is never negative. -/
theorem sumBehind_nonneg {p : SafetyPrefixBucket → Int} (h : ∀ i streak, 0 ≤ p (added clip i streak)) (streak : Nat)
    (l : List Sample) : 0 ≤ sumBehind clip p g streak l := by
  induction l generalizing streak with
  | nil => exact le_refl _
  | cons i l ih =>
    refine Int.add_nonneg ?_ (ih _)
    split
    · exact h i streak
    · exact le_refl _

theorem rest_zero (p : SafetyPrefixBucket → Int) (out : ClipSafety) : rest p 0 out = p out.factors := by
  rw [rest, List.take_zero, List.map_nil, List.sum_nil, Int.sub_zero]

theorem afterSeam_computeClipSafety (clip : Clip) {p : SafetyPrefixBucket → Int} (hp : Counter p) (hg : g ≤ 5)
    (h : ∀ i streak, 0 ≤ p (added clip i streak)) :
    afterSeam (p (computeClipSafety clip).factors)
      (p (safetyPrefixForGrace (computeClipSafety clip).gracePrefix (1000 * g))) = sumBehind clip p g 0 clip.counting := by
  rw [afterSeam_eq hp hg, rest_computeClipSafety hp hg, max_eq_left (sumBehind_nonneg h 0 clip.counting)]

theorem hardBrake_added_nonneg (i : Sample) (streak : Nat) : 0 ≤ (added clip i streak).hardBrakeMs := by
  rw [hardBrake_added]
  split
  · exact Int.natCast_nonneg _
  · exact le_refl _

theorem aggrTurn_added_nonneg (i : Sample) (streak : Nat) : 0 ≤ (added clip i streak).aggrTurnMs := by
  rw [aggrTurn_added]
  exact Int.mul_nonneg (Int.natCast_nonneg _) (Int.natCast_nonneg _)

theorem turnAny_added_nonneg (i : Sample) (streak : Nat) : 0 ≤ (added clip i streak).turnAnyMs := by
  rw [turnAny_added]
  split
  · exact Int.natCast_nonneg _
  · exact le_refl _

/-- Turns are in order behind every cut where accelerations are measured, and elsewhere under the condition. -/
theorem turns_ordered_iff (hl : ((clip.counting).map Sample.second).Pairwise (· ≤ ·)) :
    sumBehind clip SafetyPrefixBucket.aggrTurnMs g 0 clip.counting ≤
        sumBehind clip SafetyPrefixBucket.turnAnyMs g 0 clip.counting ↔
      (clip.hasImu = false → 0 < clip.ms → SplitsTurn clip g clip.counting →
        0 < onlyTurning clip true (behind g clip.counting)) := by
  cases himu : clip.hasImu with
  | true =>
    exact iff_of_true (sumBehind_le (fun i streak => aggrTurn_le_turnAny himu i streak) 0 clip.counting) fun h => (nomatch h)
  | false =>
    rw [forall_prop_of_true rfl]
    exact turns_le_iff himu hl

/-- **The counters are in order, also after a seam, exactly when no cut at a whole second leaves only turns behind it that count
as hard, the first of them the second of its run.** -/
theorem consistent_iff (clip : Clip) :
    Consistent clip ↔ ∀ g ≤ 5, clip.hasImu = false → 0 < clip.ms → SplitsTurn clip g clip.counting →
      0 < onlyTurning clip true (behind g clip.counting) := by
  have hl := ordered_counting clip
  have hbrakeNonneg (i : Sample) (streak : Nat) : 0 ≤ (added clip i streak).hardBrakeMs := hardBrake_added_nonneg i streak
  have hbrakeAnyNonneg (i : Sample) (streak : Nat) : 0 ≤ (added clip i streak).brakeAnyMs :=
    (hardBrake_added_nonneg i streak).trans (hardBrake_le_brakeAny i streak)
  have hbrake : ∀ g, sumBehind clip SafetyPrefixBucket.hardBrakeMs g 0 clip.counting ≤
      sumBehind clip SafetyPrefixBucket.brakeAnyMs g 0 clip.counting := fun g =>
    sumBehind_le hardBrake_le_brakeAny 0 clip.counting
  have htotal : ∀ {p : SafetyPrefixBucket → Int}, Counter p →
      p (computeClipSafety clip).factors = sumBehind clip p 0 0 clip.counting := fun hp =>
    (rest_zero _ _).symm.trans (rest_computeClipSafety hp (Nat.zero_le 5) clip)
  constructor
  · intro h g hg
    have hturn := h.seamTurn g hg
    have haggr := afterSeam_computeClipSafety clip counter_aggrTurn hg aggrTurn_added_nonneg
    have hany := afterSeam_computeClipSafety clip counter_turnAny hg turnAny_added_nonneg
    refine (turns_ordered_iff hl).mp ?_
    rw [← haggr, ← hany]
    exact hturn
  · intro h
    have hturns : ∀ g ≤ 5, sumBehind clip SafetyPrefixBucket.aggrTurnMs g 0 clip.counting ≤
        sumBehind clip SafetyPrefixBucket.turnAnyMs g 0 clip.counting := fun g hg => (turns_ordered_iff hl).mpr (h g hg)
    refine ⟨ordered_computeClipSafety clip, ?_, ?_, ?_, ?_, fun g hg => ?_, fun g hg => ?_⟩
    · exact (sumBehind_nonneg hbrakeNonneg 0 clip.counting).trans_eq (htotal counter_hardBrake).symm
    · exact ((htotal counter_hardBrake).trans_le (hbrake 0)).trans_eq (htotal counter_brakeAny).symm
    · exact (sumBehind_nonneg aggrTurn_added_nonneg 0 clip.counting).trans_eq (htotal counter_aggrTurn).symm
    · exact ((htotal counter_aggrTurn).trans_le (hturns 0 (Nat.zero_le 5))).trans_eq (htotal counter_turnAny).symm
    · have hhard := afterSeam_computeClipSafety clip counter_hardBrake hg hbrakeNonneg
      have hany := afterSeam_computeClipSafety clip counter_brakeAny hg hbrakeAnyNonneg
      exact (hhard.trans_le (hbrake g)).trans_eq hany.symm
    · have haggr := afterSeam_computeClipSafety clip counter_aggrTurn hg aggrTurn_added_nonneg
      have hany := afterSeam_computeClipSafety clip counter_turnAny hg turnAny_added_nonneg
      exact (haggr.trans_le (hturns g hg)).trans_eq hany.symm

end Whole

/-- A sample at which the car may turn. -/
def turningAt (second : Nat) (turns : Bool) (turn : Force) : Sample where
  valid := true
  second := second
  ap := autopilotOff
  pressed := false
  graced := false
  moves := true
  sane := true
  speeds := false
  hour := none
  measured := ⟨false, .slight, false, .slight⟩
  derived := ⟨false, .slight, turns, turn⟩
  pedalNear := true

/-- Four points of a minute, with two hard turns. -/
def twoTurns : Clip where
  usable := true
  hasImu := false
  ms := 20000
  samples := [turningAt 0 true .hard, turningAt 20 true .hard, turningAt 40 false .slight]
  ordered := by decide

/-- **The counters are not always in order**: one second after a seam, twenty seconds of turning stay, and forty of hard
turning. -/
theorem not_consistent : ¬ ∀ clip, Consistent clip := by
  intro h
  have hseam := (h twoTurns).seamTurn 1 (by decide)
  have haggr := afterSeam_computeClipSafety twoTurns counter_aggrTurn (show 1 ≤ 5 by decide) aggrTurn_added_nonneg
  have hany := afterSeam_computeClipSafety twoTurns counter_turnAny (show 1 ≤ 5 by decide) turnAny_added_nonneg
  have hle := (haggr.symm.trans_le hseam).trans_eq hany
  have hbehind : sumBehind twoTurns SafetyPrefixBucket.turnAnyMs 1 0 twoTurns.counting <
      sumBehind twoTurns SafetyPrefixBucket.aggrTurnMs 1 0 twoTurns.counting := by decide
  exact absurd hle (Int.not_le.mpr hbehind)

end SentryUsb.Safety
