import Mathlib

/-! # Framing of byte strings

Byte strings are put one after another so that they can be told apart again: those of a field by the length in front of
them, and those of different uses by a text in front of which none is the beginning of another.

* **`bigEndian16`** — a number in two bytes, the high one first;
* **`chunksOf`** — a byte string in pieces of one size, **`flatten_chunksOf`** — nothing is lost;
* **`lengthPrefixed`** — a field with its length in front, **`lengthPrefixed_append_inj`** — it can be split off;
* **`PrefixFree`** — a family of texts none of which begins another, **`PrefixFree.eq_of_append`** — the text in front
  tells the use. -/

namespace SentryUsb.Library

/-! ## Numbers -/

/-- A number in two bytes, of which it keeps the low 16 bits. -/
def bigEndian16 (n : Nat) : List UInt8 := [UInt8.ofNat (n / 256), UInt8.ofNat n]

/-- The number of two bytes. -/
def ofBigEndian16 (hi lo : UInt8) : Nat := 256 * hi.toNat + lo.toNat

/-- **Two bytes keep a number** modulo 2^16. -/
theorem ofBigEndian16_bigEndian16 (n : Nat) :
    ofBigEndian16 (UInt8.ofNat (n / 256)) (UInt8.ofNat n) = n % 2 ^ 16 := by
  have hhi : (UInt8.ofNat (n / 256)).toNat = n / 256 % 256 := UInt8.toNat_ofNat'
  have hlo : (UInt8.ofNat n).toNat = n % 256 := UInt8.toNat_ofNat'
  rw [ofBigEndian16, hhi, hlo]
  omega

theorem bigEndian16_inj {m n : Nat} (hm : m < 2 ^ 16) (hn : n < 2 ^ 16) (h : bigEndian16 m = bigEndian16 n) : m = n := by
  obtain ⟨hhi, htail⟩ := List.cons.inj h
  have hlo := (List.cons.inj htail).1
  have hm' := ofBigEndian16_bigEndian16 m
  rw [hhi, hlo, ofBigEndian16_bigEndian16, Nat.mod_eq_of_lt hn, Nat.mod_eq_of_lt hm] at hm'
  exact hm'.symm

/-! ## Fields -/

/-- A field with its length in front. -/
def lengthPrefixed (field : List UInt8) : List UInt8 := bigEndian16 field.length ++ field

/-- **A field can be split off**, as long as its length fits the two bytes. -/
theorem lengthPrefixed_append_inj {a b s t : List UInt8} (ha : a.length < 2 ^ 16) (hb : b.length < 2 ^ 16)
    (h : lengthPrefixed a ++ s = lengthPrefixed b ++ t) : a = b ∧ s = t := by
  rw [lengthPrefixed, lengthPrefixed, List.append_assoc, List.append_assoc] at h
  obtain ⟨hlength, hrest⟩ := List.append_inj h rfl
  exact List.append_inj hrest (bigEndian16_inj ha hb hlength)

/-! ## Pieces -/

/-- A list in pieces of `n`, the last one shorter. -/
def chunksOf {α : Type*} (n : Nat) (l : List α) : List (List α) :=
  (List.range ((l.length + n - 1) / n)).map fun i => (l.drop (i * n)).take n

/-- The first pieces, put end to end. -/
theorem flatten_chunks_range {α : Type*} (n k : Nat) (l : List α) :
    ((List.range k).map fun i => (l.drop (i * n)).take n).flatten = l.take (k * n) := by
  induction k with
  | zero => rw [Nat.zero_mul, List.take_zero, List.range_zero, List.map_nil, List.flatten_nil]
  | succ k ih =>
    rw [List.range_succ, List.map_append, List.flatten_append, ih, List.map_cons, List.map_nil, List.flatten_cons,
      List.flatten_nil, List.append_nil, Nat.succ_mul, List.take_add]

/-- **The pieces make up the list.** -/
theorem flatten_chunksOf {α : Type*} {n : Nat} (hn : 0 < n) (l : List α) : (chunksOf n l).flatten = l := by
  rw [chunksOf, flatten_chunks_range]
  apply List.take_of_length_le
  -- the pieces reach the end
  have hlt := Nat.lt_div_mul_add (a := l.length + n - 1) hn
  omega

/-- **Each piece** holds something, and no more than its size. -/
theorem length_of_mem_chunksOf {α : Type*} {n : Nat} (hn : 0 < n) {l chunk : List α} (h : chunk ∈ chunksOf n l) :
    chunk ≠ [] ∧ chunk.length ≤ n := by
  obtain ⟨i, hi, rfl⟩ := List.mem_map.mp h
  have hle := (Nat.le_div_iff_mul_le hn).mp (Nat.succ_le_of_lt (List.mem_range.mp hi))
  rw [Nat.succ_mul] at hle
  refine ⟨List.ne_nil_of_length_pos ?_, List.length_take_le n _⟩
  rw [List.length_take, List.length_drop]
  omega

/-! ## Texts in front -/

/-- No text of the family begins another. -/
def PrefixFree {ι α : Type*} (text : ι → List α) : Prop := ∀ i j, text i <+: text j → i = j

/-- **The text in front tells the use.** -/
theorem PrefixFree.eq_of_append {ι α : Type*} {text : ι → List α} (h : PrefixFree text) {i j : ι} {s t : List α}
    (heq : text i ++ s = text j ++ t) : i = j := by
  have hi : text i <+: text j ++ t := ⟨s, heq⟩
  rcases List.prefix_or_prefix_of_prefix hi (List.prefix_append (text j) t) with hij | hji
  · exact h i j hij
  · exact (h j i hji).symm

end SentryUsb.Library
