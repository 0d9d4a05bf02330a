import Mathlib

/-! # Binary floating-point numbers

Numbers of an interchange format are kept as their bit patterns: a sign bit, an exponent, a fraction. A finite one stands for
a rational number, and the result of an operation is the number nearest to the rational result, the even one of two.

* **`FloatFormat.value`** — the rational number of a pattern; **`FloatFormat.nearest`** — the pattern nearest to a number;
* **`FloatFormat.apply`** — an operation on the magnitude of a number, into a format;
* **`FloatFormat.abs_value_nearest_sub_le`** — how far rounding goes;
* **`FloatFormat.foldl_rounded_le`** — how far the rounded sum of a list goes;
* **`FloatFormat.value_nearest_natCast`** — small naturals are numbers of the format. -/

namespace SentryUsb.Library

/-- The natural number nearest to a number that is not negative; of two, the even one. -/
def nearestEven (x : ℚ) : ℕ :=
  if x - ⌊x⌋₊ < 1 / 2 then ⌊x⌋₊ else if 1 / 2 < x - ⌊x⌋₊ then ⌊x⌋₊ + 1 else ⌊x⌋₊ + ⌊x⌋₊ % 2

/-- A binary interchange format: how many bits the fraction and the exponent have. -/
structure FloatFormat where
  fraction : ℕ
  exponent : ℕ

def binary32 : FloatFormat := ⟨23, 8⟩

def binary64 : FloatFormat := ⟨52, 11⟩

namespace FloatFormat

variable (F : FloatFormat)

def bias : ℕ := 2 ^ (F.exponent - 1) - 1

/-- The binary place of the last fraction bit of the smallest numbers. -/
def lowest : ℤ := 1 - F.bias - F.fraction

/-- The pattern of infinity. -/
def infinity : ℕ := (2 ^ F.exponent - 1) * 2 ^ F.fraction

def signBit : ℕ := 2 ^ (F.fraction + F.exponent)

/-- The magnitude of a finite number without its sign bit. -/
def value (m : ℕ) : ℚ :=
  if m < 2 ^ F.fraction then m * 2 ^ F.lowest
  else (2 ^ F.fraction + m % 2 ^ F.fraction : ℕ) * 2 ^ ((m / 2 ^ F.fraction : ℕ) - 1 + F.lowest)

/-- The binary place of the last fraction bit next to a number. -/
def place (x : ℚ) : ℤ := max F.lowest (Int.log 2 x - F.fraction)

/-- The pattern nearest to a number that is not negative; infinity when it is out of range. The significand carries into the
exponent field by itself. -/
def nearest (x : ℚ) : ℕ :=
  if x = 0 then 0
  else min F.infinity ((F.place x - F.lowest).toNat * 2 ^ F.fraction + nearestEven (x / 2 ^ F.place x))

/-- An operation on the magnitude of a number, rounded into a format. The sign stays; not a number gives the quiet one. -/
def apply (G : FloatFormat) (f : ℚ → ℚ) (b : ℕ) : ℕ :=
  if F.infinity < b % F.signBit then G.infinity + 2 ^ (G.fraction - 1)
  else (if F.signBit ≤ b then G.signBit else 0)
    + if b % F.signBit = F.infinity then G.infinity else G.nearest (f (F.value (b % F.signBit)))

/-- A magnitude with a sign. -/
def signed (negative : Bool) (m : ℕ) : ℕ := (if negative then F.signBit else 0) + m

/-- The number of a pattern, unless it is infinite or no number. -/
def number (b : ℕ) : Option ℚ :=
  if b % F.signBit < F.infinity then
    some (if F.signBit ≤ b then -F.value (b % F.signBit) else F.value (b % F.signBit))
  else none

/-- A number rounded to the format. Infinity counts as the first power of two out of range. -/
def rounded (x : ℚ) : ℚ := if x < 0 then -F.value (F.nearest (-x)) else F.value (F.nearest x)

end FloatFormat

/-! ## The nearest natural number -/

section NearestEven

variable {x : ℚ} {n : ℕ}

@[simp] theorem nearestEven_natCast (n : ℕ) : nearestEven n = n := by
  rw [nearestEven, Nat.floor_natCast, sub_self, if_pos (by norm_num)]

/-- Rounding moves by at most a half. -/
theorem abs_nearestEven_sub_le (hx : 0 ≤ x) : |(nearestEven x : ℚ) - x| ≤ 1 / 2 := by
  have hlow := Nat.floor_le hx
  have hhigh := Nat.lt_floor_add_one x
  rw [nearestEven, abs_le]
  split
  · constructor <;> linarith
  · split
    · push_cast
      constructor <;> linarith
    · have hhalf : x = ⌊x⌋₊ + 1 / 2 := by linarith
      rcases Nat.mod_two_eq_zero_or_one ⌊x⌋₊ with heven | hodd
      · rw [heven, Nat.add_zero]
        constructor <;> linarith
      · rw [hodd]
        push_cast
        constructor <;> linarith

theorem le_nearestEven (h : (n : ℚ) ≤ x) : n ≤ nearestEven x := by
  have hfloor : n ≤ ⌊x⌋₊ := Nat.le_floor h
  rw [nearestEven]
  split
  · exact hfloor
  · split
    · omega
    · omega

theorem nearestEven_le (h : x < n) : nearestEven x ≤ n := by
  rcases lt_or_ge x 0 with hneg | hpos
  · have hzero : ⌊x⌋₊ = 0 := Nat.floor_of_nonpos hneg.le
    rw [nearestEven, hzero, if_pos (by push_cast; linarith)]
    exact Nat.zero_le n
  · have hfloor : ⌊x⌋₊ < n := (Nat.floor_lt hpos).mpr h
    rw [nearestEven]
    split
    · exact hfloor.le
    · split
      · exact hfloor
      · omega

end NearestEven

/-! ## Numbers in range -/

namespace FloatFormat

variable {F : FloatFormat} {x : ℚ}

/-- In the range of the normal numbers. -/
structure Normal (F : FloatFormat) (x : ℚ) : Prop where
  low : 2 ^ (1 - F.bias : ℤ) ≤ x
  high : x < 2 ^ F.bias

theorem Normal.pos (h : F.Normal x) : 0 < x := lt_of_lt_of_le (by positivity) h.low

@[simp] theorem nearest_zero (F : FloatFormat) : F.nearest 0 = 0 := if_pos rfl

@[simp] theorem value_zero (F : FloatFormat) : F.value 0 = 0 := by
  rw [value, if_pos (by positivity), Nat.cast_zero, zero_mul]

/-- **A pattern from its parts**: exponent field and significand add up, and a significand that is twice the least one counts
for the next exponent. -/
theorem value_add {k m : ℕ} (hlow : 2 ^ F.fraction ≤ m) (hhigh : m ≤ 2 ^ (F.fraction + 1)) :
    F.value (k * 2 ^ F.fraction + m) = m * 2 ^ (k + F.lowest) := by
  have hpos : 0 < 2 ^ F.fraction := by positivity
  have hge : ¬k * 2 ^ F.fraction + m < 2 ^ F.fraction := by omega
  rw [value, if_neg hge]
  rcases eq_or_lt_of_le hhigh with rfl | hlt
  · have heq : k * 2 ^ F.fraction + 2 ^ (F.fraction + 1) = (k + 2) * 2 ^ F.fraction := by ring
    rw [heq, Nat.mul_mod_left, Nat.mul_div_cancel _ hpos, Nat.add_zero]
    have hexp : ((k + 2 : ℕ) : ℤ) - 1 + F.lowest = k + F.lowest + 1 := by push_cast; ring
    rw [hexp, zpow_add_one₀ (by norm_num : (2 : ℚ) ≠ 0)]
    push_cast
    ring
  · obtain ⟨r, rfl⟩ := Nat.exists_eq_add_of_le hlow
    have hr : r < 2 ^ F.fraction := by rw [pow_succ] at hlt; omega
    have heq : k * 2 ^ F.fraction + (2 ^ F.fraction + r) = r + (k + 1) * 2 ^ F.fraction := by ring
    rw [heq, Nat.add_mul_mod_self_right, Nat.mod_eq_of_lt hr, Nat.add_mul_div_right _ _ hpos, Nat.div_eq_of_lt hr]
    have hexp : ((0 + (k + 1) : ℕ) : ℤ) - 1 + F.lowest = k + F.lowest := by push_cast; ring
    rw [hexp]

theorem two_pow_exponent (hF : 0 < F.exponent) : 2 ^ F.exponent = 2 * F.bias + 2 := by
  obtain ⟨e, he⟩ := Nat.exists_eq_add_of_lt hF
  have hpos : 0 < 2 ^ e := by positivity
  rw [bias, he, Nat.zero_add, Nat.add_sub_cancel, pow_succ]
  omega

/-- The last fraction bit next to a normal number. -/
def unit (F : FloatFormat) (x : ℚ) : ℚ := 2 ^ (Int.log 2 x - F.fraction)

theorem unit_pos (F : FloatFormat) (x : ℚ) : 0 < F.unit x := by
  rw [unit]
  positivity

/-- A significand has its leading bit. -/
theorem le_div_unit (hx : 0 < x) : ((2 ^ F.fraction : ℕ) : ℚ) ≤ x / F.unit x := by
  have hself := Int.zpow_log_le_self (b := 2) (by norm_num) hx
  push_cast at hself
  rw [le_div_iff₀ (F.unit_pos x), unit, Nat.cast_pow, Nat.cast_ofNat, ← zpow_natCast, ← zpow_add₀ (by norm_num),
    add_sub_cancel]
  exact hself

theorem div_unit_lt (F : FloatFormat) (x : ℚ) : x / F.unit x < ((2 ^ (F.fraction + 1) : ℕ) : ℚ) := by
  have hnext := Int.lt_zpow_succ_log_self (b := 2) (by norm_num) x
  have hexp : ((F.fraction + 1 : ℕ) : ℤ) + (Int.log 2 x - F.fraction) = Int.log 2 x + 1 := by
    push_cast
    ring
  push_cast at hnext
  rw [div_lt_iff₀ (F.unit_pos x), unit, Nat.cast_pow, Nat.cast_ofNat, ← zpow_natCast, ← zpow_add₀ (by norm_num), hexp]
  exact hnext

/-- The leading bit of a normal number stands in the range of the exponents. -/
theorem Normal.exists_exponent (h : F.Normal x) :
    ∃ k : ℕ, F.place x = Int.log 2 x - F.fraction ∧ Int.log 2 x - F.fraction = k + F.lowest ∧ k + 2 ≤ 2 * F.bias := by
  have hlow : (1 - F.bias : ℤ) ≤ Int.log 2 x := (Int.zpow_le_iff_le_log (by norm_num) h.pos).mp (by exact_mod_cast h.low)
  have hhigh : Int.log 2 x < F.bias := (Int.lt_zpow_iff_log_lt (by norm_num) h.pos).mp (by exact_mod_cast h.high)
  refine ⟨(Int.log 2 x - F.fraction - F.lowest).toNat, ?_, ?_, ?_⟩
  · rw [place, lowest]
    omega
  · rw [lowest]
    omega
  · rw [lowest]
    omega

/-- **A normal number rounds to a finite one**: exponent field and significand add up. -/
theorem Normal.nearest_eq (h : F.Normal x) (hF : 0 < F.exponent) :
    ∃ k : ℕ, Int.log 2 x - F.fraction = k + F.lowest ∧ F.nearest x = k * 2 ^ F.fraction + nearestEven (x / F.unit x)
      ∧ F.nearest x < F.infinity := by
  obtain ⟨k, hplace, hk, hexp⟩ := h.exists_exponent
  have hpow : 0 < 2 ^ F.fraction := by positivity
  have hhigh := nearestEven_le (F.div_unit_lt x)
  have hfinite : k * 2 ^ F.fraction + nearestEven (x / F.unit x) < F.infinity :=
    calc k * 2 ^ F.fraction + nearestEven (x / F.unit x)
        ≤ k * 2 ^ F.fraction + 2 ^ (F.fraction + 1) := Nat.add_le_add_left hhigh _
      _ = (k + 2) * 2 ^ F.fraction := by ring
      _ ≤ 2 * F.bias * 2 ^ F.fraction := Nat.mul_le_mul_right _ hexp
      _ < (2 ^ F.exponent - 1) * 2 ^ F.fraction := by
          apply Nat.mul_lt_mul_of_pos_right _ hpow
          rw [two_pow_exponent hF]
          omega
      _ = F.infinity := rfl
  have hnearest : F.nearest x = k * 2 ^ F.fraction + nearestEven (x / F.unit x) := by
    rw [nearest, if_neg h.pos.ne', hplace, ← unit, hk, add_sub_cancel_right, Int.toNat_natCast, min_eq_right hfinite.le]
  exact ⟨k, hk, hnearest, hnearest ▸ hfinite⟩

theorem Normal.value_nearest (h : F.Normal x) (hF : 0 < F.exponent) :
    F.value (F.nearest x) = nearestEven (x / F.unit x) * F.unit x := by
  obtain ⟨k, hk, hnearest, -⟩ := h.nearest_eq hF
  rw [hnearest, value_add (le_nearestEven (le_div_unit h.pos)) (nearestEven_le (F.div_unit_lt x)), ← hk, ← unit]

theorem Normal.nearest_lt (h : F.Normal x) (hF : 0 < F.exponent) : F.nearest x < F.infinity := by
  obtain ⟨k, -, -, hfinite⟩ := h.nearest_eq hF
  exact hfinite

/-- Rounding to the last fraction bit moves a number by a small part of it. -/
theorem abs_nearestEven_mul_unit_sub_le (hx : 0 < x) :
    |nearestEven (x / F.unit x) * F.unit x - x| ≤ x / 2 ^ (F.fraction + 1) := by
  have hunit := F.unit_pos x
  have hself := Int.zpow_log_le_self (b := 2) (by norm_num) hx
  push_cast at hself
  calc |nearestEven (x / F.unit x) * F.unit x - x|
      = |(nearestEven (x / F.unit x) - x / F.unit x) * F.unit x| := by
        rw [sub_mul, div_mul_cancel₀ _ hunit.ne']
    _ ≤ 1 / 2 * F.unit x := by
        rw [abs_mul, abs_of_pos hunit]
        exact mul_le_mul_of_nonneg_right (abs_nearestEven_sub_le (div_nonneg hx.le hunit.le)) hunit.le
    _ = 2 ^ Int.log 2 x / 2 ^ (F.fraction + 1) := by
        rw [unit, zpow_sub₀ (by norm_num), zpow_natCast, pow_succ]
        ring
    _ ≤ x / 2 ^ (F.fraction + 1) := div_le_div_of_nonneg_right hself (by positivity)

/-- **Rounding moves a number by a small part of it.** -/
theorem Normal.abs_value_nearest_sub_le (h : F.Normal x) (hF : 0 < F.exponent) :
    |F.value (F.nearest x) - x| ≤ x / 2 ^ (F.fraction + 1) := by
  rw [h.value_nearest hF]
  exact abs_nearestEven_mul_unit_sub_le h.pos

/-- Rounding moves no number up by more, also one that is out of range. -/
theorem value_nearest_le (hF : 1 < F.exponent) (hlow : 2 ^ (1 - F.bias : ℤ) ≤ x) :
    F.value (F.nearest x) ≤ x + x / 2 ^ (F.fraction + 1) := by
  have hpos : 0 < x := lt_of_lt_of_le (by positivity) hlow
  have hlog : (1 - F.bias : ℤ) ≤ Int.log 2 x := (Int.zpow_le_iff_le_log (by norm_num) hpos).mp (by exact_mod_cast hlow)
  obtain ⟨k, hk⟩ := Int.eq_ofNat_of_zero_le (a := Int.log 2 x - F.fraction - F.lowest) (by rw [lowest]; omega)
  have hplace : F.place x = Int.log 2 x - F.fraction := by
    rw [place]
    omega
  have hnearest : F.nearest x = min F.infinity (k * 2 ^ F.fraction + nearestEven (x / F.unit x)) := by
    rw [nearest, if_neg hpos.ne', hplace, ← unit, hk, Int.toNat_natCast]
  have hexp : Int.log 2 x - F.fraction = k + F.lowest := by omega
  have hhigh := nearestEven_le (F.div_unit_lt x)
  rcases le_or_gt (k * 2 ^ F.fraction + nearestEven (x / F.unit x)) F.infinity with hle | hgt
  · rw [hnearest, min_eq_right hle, value_add (le_nearestEven (le_div_unit hpos)) hhigh, ← hexp, ← unit]
    have hclose := (abs_le.mp (abs_nearestEven_mul_unit_sub_le (F := F) hpos)).2
    linarith
  · -- out of range: the pattern of infinity stands for a power of two below the number
    have htwo : 4 ≤ 2 ^ F.exponent := Nat.pow_le_pow_right (n := 2) (by norm_num) hF
    obtain ⟨j, hj⟩ := Nat.exists_eq_add_of_le htwo
    have hinfinity : F.infinity = (j + 1) * 2 ^ F.fraction + 2 ^ (F.fraction + 1) := by
      rw [infinity, hj, show 4 + j - 1 = j + 3 by omega, pow_succ]
      ring
    have hover : j + 1 < k := by
      rw [hinfinity] at hgt
      exact Nat.lt_of_mul_lt_mul_right (a := 2 ^ F.fraction) (by omega)
    have hself := Int.zpow_log_le_self (b := 2) (by norm_num) hpos
    push_cast at hself
    have hvalue : F.value (F.nearest x) ≤ x :=
      calc F.value (F.nearest x) = ((2 ^ (F.fraction + 1) : ℕ) : ℚ) * 2 ^ (((j + 1 : ℕ) : ℤ) + F.lowest) := by
            rw [hnearest, min_eq_left hgt.le, hinfinity, value_add (Nat.pow_le_pow_right (by norm_num) (by omega)) le_rfl]
        _ = (2 : ℚ) ^ (((F.fraction + 1 : ℕ) : ℤ) + (((j + 1 : ℕ) : ℤ) + F.lowest)) := by
            rw [zpow_add₀ (by norm_num) ((F.fraction + 1 : ℕ) : ℤ), zpow_natCast, Nat.cast_pow, Nat.cast_ofNat]
        _ ≤ 2 ^ Int.log 2 x := zpow_le_zpow_right₀ (by norm_num) (by push_cast; omega)
        _ ≤ x := hself
    have hpart : 0 ≤ x / 2 ^ (F.fraction + 1) := div_nonneg hpos.le (by positivity)
    linarith

/-- **Naturals with no more bits than a significand** are numbers of the format. -/
theorem value_nearest_natCast (hF : 0 < F.exponent) {n : ℕ} (hn : n < 2 ^ (F.fraction + 1)) (hbias : F.fraction < F.bias) :
    F.value (F.nearest n) = n := by
  rcases Nat.eq_zero_or_pos n with rfl | hpos
  · rw [Nat.cast_zero, nearest_zero, value_zero]
  · have hone : (1 : ℚ) ≤ n := by exact_mod_cast hpos
    have hnormal : F.Normal n := by
      refine ⟨le_trans (zpow_le_one_of_nonpos₀ (by norm_num) (by omega)) hone, ?_⟩
      exact_mod_cast lt_of_lt_of_le hn (Nat.pow_le_pow_right (by norm_num) hbias)
    have hlog : Int.log 2 (n : ℚ) ≤ F.fraction := by
      rw [Int.log_natCast]
      exact_mod_cast Nat.lt_succ_iff.mp (Nat.log_lt_of_lt_pow hpos.ne' hn)
    -- the unit divides every natural number
    obtain ⟨j, hj⟩ := Int.eq_ofNat_of_zero_le (sub_nonneg.mpr hlog)
    have hunit : F.unit n = ((2 ^ j : ℕ) : ℚ)⁻¹ := by
      rw [unit, ← neg_sub, hj, zpow_neg, zpow_natCast, Nat.cast_pow, Nat.cast_ofNat]
    rw [hnormal.value_nearest hF, hunit, div_inv_eq_mul, ← Nat.cast_mul, nearestEven_natCast, Nat.cast_mul, mul_assoc,
      mul_inv_cancel₀ (by positivity), mul_one]

/-! ### Rounded sums -/

theorem value_nonneg (F : FloatFormat) (m : ℕ) : 0 ≤ F.value m := by
  rw [value]
  split
  · positivity
  · positivity

theorem rounded_of_nonneg (hx : 0 ≤ x) : F.rounded x = F.value (F.nearest x) := if_neg hx.not_gt

theorem rounded_nonneg (hx : 0 ≤ x) : 0 ≤ F.rounded x := by
  rw [rounded_of_nonneg hx]
  exact F.value_nonneg _

theorem rounded_natCast (hF : 0 < F.exponent) {n : ℕ} (hn : n < 2 ^ (F.fraction + 1)) (hbias : F.fraction < F.bias) :
    F.rounded n = n := by
  rw [rounded_of_nonneg (Nat.cast_nonneg n), value_nearest_natCast hF hn hbias]

theorem rounded_le (hF : 1 < F.exponent) (hlow : 2 ^ (1 - F.bias : ℤ) ≤ x) :
    F.rounded x ≤ (1 + 1 / 2 ^ (F.fraction + 1)) * x := by
  rw [rounded_of_nonneg (le_trans (by positivity) hlow)]
  have hle := value_nearest_le hF hlow
  rw [add_mul, one_mul, one_div_mul_eq_div]
  exact hle

theorem Normal.le_rounded (h : F.Normal x) (hF : 0 < F.exponent) : (1 - 1 / 2 ^ (F.fraction + 1)) * x ≤ F.rounded x := by
  rw [rounded_of_nonneg h.pos.le]
  have hclose := (abs_le.mp (h.abs_value_nearest_sub_le hF)).1
  rw [sub_mul, one_mul, one_div_mul_eq_div]
  linarith

theorem foldl_rounded_nonneg {l : List ℚ} (hl : ∀ x ∈ l, 0 ≤ x) {s : ℚ} (hs : 0 ≤ s) :
    0 ≤ l.foldl (fun s x => F.rounded (s + x)) s := by
  induction l generalizing s with
  | nil => exact hs
  | cons x l ih =>
    have hx := hl x List.mem_cons_self
    exact ih (fun y hy => hl y (List.mem_cons_of_mem x hy)) (rounded_nonneg (add_nonneg hs hx))

/-- **The rounded sum of a list** exceeds the exact one by a small part for each addition. -/
theorem foldl_rounded_le (hF : 1 < F.exponent) {l : List ℚ} (hl : ∀ x ∈ l, 2 ^ (1 - F.bias : ℤ) ≤ x) {s : ℚ} (hs : 0 ≤ s) :
    l.foldl (fun s x => F.rounded (s + x)) s ≤ (1 + 1 / 2 ^ (F.fraction + 1)) ^ l.length * (s + l.sum) := by
  induction l generalizing s with
  | nil => simp
  | cons x l ih =>
    have hx := hl x List.mem_cons_self
    have hrest : ∀ y ∈ l, 2 ^ (1 - F.bias : ℤ) ≤ y := fun y hy => hl y (List.mem_cons_of_mem x hy)
    have hround : F.rounded (s + x) ≤ (1 + 1 / 2 ^ (F.fraction + 1)) * (s + x) := rounded_le hF (by linarith)
    have hpositive : 0 ≤ x := le_trans (by positivity) hx
    have hnonneg : 0 ≤ F.rounded (s + x) := rounded_nonneg (add_nonneg hs hpositive)
    have hsum : 0 ≤ l.sum := List.sum_nonneg fun y hy => le_trans (by positivity) (hrest y hy)
    have hpart : (0 : ℚ) ≤ 1 / 2 ^ (F.fraction + 1) := by positivity
    calc (x :: l).foldl (fun s x => F.rounded (s + x)) s
        ≤ (1 + 1 / 2 ^ (F.fraction + 1)) ^ l.length * (F.rounded (s + x) + l.sum) := ih hrest hnonneg
      _ ≤ (1 + 1 / 2 ^ (F.fraction + 1)) ^ l.length * ((1 + 1 / 2 ^ (F.fraction + 1)) * (s + x + l.sum)) := by
          apply mul_le_mul_of_nonneg_left _ (by positivity)
          nlinarith
      _ = (1 + 1 / 2 ^ (F.fraction + 1)) ^ (x :: l).length * (s + (x :: l).sum) := by
          rw [List.length_cons, List.sum_cons, pow_succ]
          ring

theorem infinity_lt_signBit (F : FloatFormat) : F.infinity < F.signBit := by
  rw [infinity, signBit, pow_add, Nat.mul_comm (2 ^ F.fraction)]
  apply Nat.mul_lt_mul_of_pos_right _ (by positivity)
  have hpos : 0 < 2 ^ F.exponent := by positivity
  omega

theorem signed_lt {negative : Bool} {m : ℕ} (hm : m < F.infinity) : F.signed negative m < 2 * F.signBit := by
  have hlt := F.infinity_lt_signBit
  rw [signed]
  split
  · omega
  · omega

theorem signed_mod {negative : Bool} {m : ℕ} (hm : m < F.infinity) : F.signed negative m % F.signBit = m := by
  have hlt : m < F.signBit := hm.trans F.infinity_lt_signBit
  rw [signed]
  split
  · rw [Nat.add_mod_left, Nat.mod_eq_of_lt hlt]
  · rw [Nat.zero_add, Nat.mod_eq_of_lt hlt]

/-- **An operation on a finite number** keeps its sign and rounds the result on its magnitude. -/
theorem apply_signed {G : FloatFormat} {f : ℚ → ℚ} {negative : Bool} {m : ℕ} (hm : m < F.infinity) :
    F.apply G f (F.signed negative m) = G.signed negative (G.nearest (f (F.value m))) := by
  have hlt : m < F.signBit := hm.trans F.infinity_lt_signBit
  rw [apply, signed_mod hm, if_neg hm.le.not_gt, if_neg hm.ne, signed, signed]
  cases negative with
  | true => rw [if_pos rfl, if_pos (Nat.le_add_right _ _), if_pos rfl]
  | false => rw [if_neg Bool.false_ne_true, Nat.zero_add, if_neg hlt.not_ge, if_neg Bool.false_ne_true]

end FloatFormat

end SentryUsb.Library
