import SentryUsb.Library.BinaryFloat

/-! # Thinning out the points of a route

A map draws a route with a limited number of points. `downsample` gives a short list back as it is; of a longer one it takes
a point each `len / max_points`, with the stride and the product kept as doubles, and appends the last point.

* **`exists_downsample`** — no index leaves the list, whatever the two roundings do;
* **`length_downsample`** — a list that is too long comes back with one point more than the limit;
* **`downsample_thins_iff`** — the limit is kept exactly for the lists that were short enough already. -/

namespace SentryUsb.Downsample

open Library

/-! ## The code -/

/-- Where the `i`th point is taken (`(i as f64 * step) as usize`). -/
def index (length maxPoints i : ℕ) : ℕ :=
  let step := binary64.rounded (binary64.rounded length / binary64.rounded maxPoints)
  ⌊binary64.rounded (binary64.rounded i * step)⌋₊

/-- Evenly spaced points, then the last one; no result where an index is out of bounds (`downsample`). -/
def downsample {α : Type*} (points : List α) (maxPoints : ℕ) : Option (List α) :=
  if points.length ≤ maxPoints then some points
  else
    -- `points.last().unwrap()`: a list above the limit is not empty
    ((List.range maxPoints).mapM fun i => points[index points.length maxPoints i]?).bind fun result =>
      points.getLast?.map fun last => result ++ [last]

/-! ## What thinning is for -/

/-- A thinned list: within the limit, in the order of the input, from its first to its last point, and the input itself where
that is short enough. -/
structure Thinned {α : Type*} (points : List α) (maxPoints : ℕ) (result : List α) : Prop where
  bounded : result.length ≤ maxPoints
  sublist : result.Sublist points
  first : result.head? = points.head?
  last : result.getLast? = points.getLast?
  short : points.length ≤ maxPoints → result = points

section

variable {α : Type*} {points result : List α} {maxPoints length i : ℕ}

/-! ## Indices -/

@[simp] theorem index_zero (length maxPoints : ℕ) : index length maxPoints 0 = 0 := by
  have hzero : binary64.rounded 0 = 0 := by
    rw [FloatFormat.rounded_of_nonneg le_rfl, FloatFormat.nearest_zero, FloatFormat.value_zero]
  rw [index, Nat.cast_zero, hzero, zero_mul, hzero, Nat.floor_zero]

theorem rounded_natCast {n : ℕ} (hn : n < 2 ^ 53) : binary64.rounded (n : ℚ) = n :=
  FloatFormat.rounded_natCast (by decide) hn (by decide)

/-- A number from a half on is rounded up by at most its `2 ^ 53`rd part. -/
theorem rounded_le_of_half_le {x : ℚ} (hx : 1 / 2 ≤ x) : binary64.rounded x ≤ (1 + 1 / 2 ^ 53) * x := by
  refine FloatFormat.rounded_le (by decide) (le_trans ?_ hx)
  have hexp : (1 - binary64.bias : ℤ) ≤ -1 := by decide
  calc (2 : ℚ) ^ (1 - binary64.bias : ℤ) ≤ 2 ^ (-1 : ℤ) := zpow_le_zpow_right₀ (by norm_num) hexp
    _ = 1 / 2 := by norm_num

/-- The stride of a list above the limit is more than a half. -/
theorem half_le_stride (hlength : length < 2 ^ 50) (hlong : maxPoints < length) (hmax : 0 < maxPoints) :
    1 / 2 ≤ binary64.rounded ((length : ℚ) / maxPoints) := by
  have hpos : (0 : ℚ) < maxPoints := by exact_mod_cast hmax
  have hone : 1 ≤ (length : ℚ) / maxPoints := (one_le_div hpos).mpr (by exact_mod_cast hlong.le)
  have hnormal : binary64.Normal ((length : ℚ) / maxPoints) := by
    refine ⟨le_trans (zpow_le_one_of_nonpos₀ (by norm_num) (by decide)) hone, ?_⟩
    have hexp : 50 ≤ binary64.bias := by decide
    calc (length : ℚ) / maxPoints ≤ length := div_le_self (by positivity) (by exact_mod_cast hmax)
      _ < 2 ^ 50 := by exact_mod_cast hlength
      _ ≤ 2 ^ binary64.bias := pow_le_pow_right₀ (by norm_num) hexp
  have hround := hnormal.le_rounded (by decide)
  have hbits : (1 / 2 : ℚ) ≤ 1 - 1 / 2 ^ (binary64.fraction + 1) := by
    have hfraction : binary64.fraction = 52 := rfl
    rw [hfraction]
    norm_num
  calc (1 / 2 : ℚ) ≤ 1 - 1 / 2 ^ (binary64.fraction + 1) := hbits
    _ ≤ (1 - 1 / 2 ^ (binary64.fraction + 1)) * (length / maxPoints) := le_mul_of_one_le_right (by linarith) hone
    _ ≤ _ := hround

/-- No index leaves the list: two roundings are far below the stride that is left to its end. -/
theorem index_lt (hlength : length < 2 ^ 50) (hlong : maxPoints < length) (hi : i < maxPoints) :
    index length maxPoints i < length := by
  have hmax : (0 : ℚ) < maxPoints := by exact_mod_cast Nat.zero_lt_of_lt hi
  have hone : 1 ≤ (length : ℚ) / maxPoints := (one_le_div hmax).mpr (by exact_mod_cast hlong.le)
  set step := binary64.rounded ((length : ℚ) / maxPoints) with hstep
  have hindex : index length maxPoints i = ⌊binary64.rounded (i * step)⌋₊ := by
    rw [index, rounded_natCast (by omega), rounded_natCast (by omega), rounded_natCast (by omega)]
  rcases Nat.eq_zero_or_pos i with rfl | hpos
  · rw [index_zero]
    exact Nat.zero_lt_of_lt hlong
  · have hhalf : 1 / 2 ≤ step := half_le_stride hlength hlong (Nat.zero_lt_of_lt hi)
    have hi1 : (1 : ℚ) ≤ i := by exact_mod_cast hpos
    have hproduct : binary64.rounded (i * step) ≤ (1 + 1 / 2 ^ 53) * (i * step) :=
      rounded_le_of_half_le (le_trans hhalf (le_mul_of_one_le_left (by linarith) hi1))
    have hle : step ≤ (1 + 1 / 2 ^ 53) * (length / maxPoints) := rounded_le_of_half_le (by linarith)
    -- of `maxPoints` strides at least one is left, and a `2 ^ 50`th part of them is less than one
    have hleft : (1 + 1 / 2 ^ 53 : ℚ) ^ 2 * i < maxPoints := by
      have hi' : (i : ℚ) + 1 ≤ maxPoints := by exact_mod_cast hi
      have hsmall : (i : ℚ) < 2 ^ 50 := by
        have hnat : i < 2 ^ 50 := by omega
        exact_mod_cast hnat
      have hsquare : (1 + 1 / 2 ^ 53 : ℚ) ^ 2 ≤ 1 + 1 / 2 ^ 51 := by norm_num
      calc (1 + 1 / 2 ^ 53 : ℚ) ^ 2 * i ≤ (1 + 1 / 2 ^ 51) * i := by gcongr
        _ < (i : ℚ) + 1 := by linarith
        _ ≤ (maxPoints : ℚ) := hi'
    rw [hindex, Nat.floor_lt (FloatFormat.rounded_nonneg (by positivity))]
    calc binary64.rounded (i * step) ≤ (1 + 1 / 2 ^ 53) * (i * step) := hproduct
      _ ≤ (1 + 1 / 2 ^ 53) * (i * ((1 + 1 / 2 ^ 53) * (length / maxPoints))) := by gcongr
      _ = (1 + 1 / 2 ^ 53) ^ 2 * i / maxPoints * length := by ring
      _ < 1 * length := by
        have hlen : (0 : ℚ) < length := by exact_mod_cast Nat.zero_lt_of_lt hlong
        gcongr
        exact (div_lt_one hmax).mpr hleft
      _ = length := one_mul _

/-! ## Results -/

/-- A list of reads that all succeed succeeds. -/
theorem exists_mapM {β γ : Type*} {f : β → Option γ} : ∀ {l : List β}, (∀ b ∈ l, ∃ c, f b = some c) → ∃ r, l.mapM f = some r
  | [], _ => ⟨[], rfl⟩
  | b :: l, h => by
    obtain ⟨c, hc⟩ := h b (by simp)
    obtain ⟨rest, hrest⟩ := exists_mapM (l := l) fun d hd => h d (List.mem_cons_of_mem b hd)
    exact ⟨c :: rest, by rw [List.mapM_cons, hc, hrest]; rfl⟩

/-- What comes out of a list above the limit: a point at every index, and the last point. -/
theorem downsample_of_long (hlong : maxPoints < points.length) :
    downsample points maxPoints = ((List.range maxPoints).mapM fun i => points[index points.length maxPoints i]?).map
      (· ++ points.getLast?.toList) := by
  have hlast : points.getLast? = some (points.getLast (List.ne_nil_of_length_pos (by omega))) :=
    List.getLast?_eq_some_getLast _
  rw [downsample, if_neg (by omega), hlast, Option.map_eq_bind]
  rfl

/-- Every list of a real length has a result: no index is out of bounds. -/
theorem exists_downsample (points : List α) (maxPoints : ℕ) (hlength : points.length < 2 ^ 50) :
    ∃ result, downsample points maxPoints = some result := by
  rcases Nat.lt_or_ge maxPoints points.length with hlong | hshort
  · have htaken : ∃ taken, ((List.range maxPoints).mapM fun i => points[index points.length maxPoints i]?) = some taken :=
      exists_mapM fun i hi => ⟨_, List.getElem?_eq_getElem (index_lt hlength hlong (List.mem_range.mp hi))⟩
    obtain ⟨taken, htaken⟩ := htaken
    exact ⟨_, by rw [downsample_of_long hlong, htaken, Option.map_some]⟩
  · exact ⟨points, if_pos hshort⟩

theorem exists_downsample_three : ∃ result, downsample [10, 20, 30] 2 = some result := exists_downsample _ _ (by decide)

/-- A list that is read index by index has as many entries as there are indices. -/
theorem length_of_mapM {β γ : Type*} {f : β → Option γ} : ∀ {l : List β} {r : List γ}, l.mapM f = some r → r.length = l.length
  | [], r, h => by
    rw [List.mapM_nil] at h
    exact congrArg List.length (Option.some.inj h).symm
  | b :: l, r, h => by
    rw [List.mapM_cons] at h
    obtain ⟨c, -, hrest⟩ := Option.bind_eq_some_iff.mp h
    obtain ⟨rest, htail, hr⟩ := Option.bind_eq_some_iff.mp hrest
    rw [← Option.some.inj hr, List.length_cons, List.length_cons, length_of_mapM htail]

/-- A list above the limit comes back with one point more than the limit. -/
theorem length_downsample (hlong : maxPoints < points.length) (h : downsample points maxPoints = some result) :
    result.length = maxPoints + 1 := by
  rw [downsample_of_long hlong] at h
  obtain ⟨taken, htaken, rfl⟩ := Option.map_eq_some_iff.mp h
  have hlast : points.getLast?.toList.length = 1 := by
    rw [List.getLast?_eq_some_getLast (List.ne_nil_of_length_pos (by omega))]
    rfl
  rw [List.length_append, length_of_mapM htaken, List.length_range, hlast]

/-- The limit is kept exactly for the lists that are within it already. -/
theorem downsample_thins_iff (points : List α) (maxPoints : ℕ) :
    (∃ result, downsample points maxPoints = some result ∧ Thinned points maxPoints result)
      ↔ points.length ≤ maxPoints := by
  constructor
  · rintro ⟨result, hresult, hthinned⟩
    by_contra hlong
    have hlength := length_downsample (by omega) hresult
    have hbounded := hthinned.bounded
    omega
  · intro hshort
    exact ⟨points, if_pos hshort, hshort, List.Sublist.refl _, rfl, rfl, fun _ => rfl⟩

/-- Three points do not come back as two. -/
theorem not_downsample_thins :
    ¬ ∀ (points : List ℕ) (maxPoints : ℕ), 2 ≤ maxPoints →
      ∃ result, downsample points maxPoints = some result ∧ Thinned points maxPoints result := by
  intro h
  obtain ⟨result, hresult, hthinned⟩ := h [10, 20, 30] 2 le_rfl
  have hlength := length_downsample (by decide) hresult
  have hbounded := hthinned.bounded
  omega

end

end SentryUsb.Downsample
