import Mathlib

/-! # Records of fixed width in a byte string

A list of records written one after the other, each in the same number of bytes, and read back by cutting the bytes
at that width. Bytes that do not divide evenly are refused.

* **`leBytes`**, **`leValue`** — little-endian numbers; **`leValue_leBytes`** — reading a written number back;
* **`Stride`** — a record format that reads what it writes; **`Stride.decode_encode`** — so do lists of records;
* **`Stride.Exact`** — a format in which all bytes of the width are a record; **`Stride.encode_decode`** — then what is read
  is written back. -/

namespace SentryUsb.Library

/-! ## Little-endian numbers -/

/-- The `w` low bytes of a number, lowest first. -/
def leBytes : Nat → Nat → List UInt8
  | 0, _ => []
  | w + 1, n => UInt8.ofNat n :: leBytes w (n / 256)

/-- The number little-endian bytes spell. -/
def leValue : List UInt8 → Nat
  | [] => 0
  | b :: bs => b.toNat + 256 * leValue bs

@[simp] theorem length_leBytes (w n : Nat) : (leBytes w n).length = w := by
  induction w generalizing n with
  | zero => rfl
  | succ w ih => rw [leBytes, List.length_cons, ih]

theorem leValue_leBytes (w n : Nat) : leValue (leBytes w n) = n % 256 ^ w := by
  induction w generalizing n with
  | zero => rw [leBytes, leValue, pow_zero, Nat.mod_one]
  | succ w ih =>
    have hbyte : (UInt8.ofNat n).toNat = n % 256 := UInt8.toNat_ofNat'
    rw [leBytes, leValue, ih, hbyte, pow_succ', Nat.mod_mul]

/-- A number in range comes back as it was. -/
theorem leValue_leBytes_of_lt {w n : Nat} (h : n < 256 ^ w) : leValue (leBytes w n) = n := by
  rw [leValue_leBytes, Nat.mod_eq_of_lt h]

theorem leValue_lt (b : List UInt8) : leValue b < 256 ^ b.length := by
  induction b with
  | nil => exact Nat.one_pos
  | cons x b ih =>
    have hx : x.toNat < 256 := x.toNat_lt
    rw [leValue, List.length_cons, pow_succ']
    omega

/-- Bytes are those of the number they spell. -/
theorem leBytes_leValue (b : List UInt8) : leBytes b.length (leValue b) = b := by
  induction b with
  | nil => rfl
  | cons x b ih =>
    have hx : x.toNat < 256 := x.toNat_lt
    have hdiv : (x.toNat + 256 * leValue b) / 256 = leValue b := by omega
    have hbyte : UInt8.ofNat (x.toNat + 256 * leValue b) = x := by
      apply UInt8.toNat.inj
      rw [UInt8.toNat_ofNat']
      omega
    rw [List.length_cons, leValue, leBytes, hdiv, hbyte, ih]

/-- Bytes of a known length are those of the number they spell. -/
theorem leBytes_leValue_of_length {w : Nat} {b : List UInt8} (h : b.length = w) : leBytes w (leValue b) = b := by
  rw [← h, leBytes_leValue]

theorem leValue_lt_of_length {w : Nat} {b : List UInt8} (h : b.length = w) : leValue b < 256 ^ w := h ▸ leValue_lt b

/-! ## Records -/

/-- A record format of fixed width. -/
structure Stride (α : Type*) where
  width : Nat
  write : α → List UInt8
  read : List UInt8 → α
  width_pos : 0 < width
  length_write : ∀ a, (write a).length = width
  read_write : ∀ a, read (write a) = a

namespace Stride

variable {α : Type*} (s : Stride α)

/-- Records one after the other. -/
def encode (l : List α) : List UInt8 := l.flatMap s.write

/-- The first `n` records of a byte string. -/
def readMany : Nat → List UInt8 → List α
  | 0, _ => []
  | n + 1, bytes => s.read (bytes.take s.width) :: readMany n (bytes.drop s.width)

/-- The records of a byte string, unless its length is no multiple of the width. -/
def decode (bytes : List UInt8) : Option (List α) :=
  if bytes.length % s.width ≠ 0 then none else some (s.readMany (bytes.length / s.width) bytes)

@[simp] theorem length_encode (l : List α) : (s.encode l).length = l.length * s.width := by
  induction l with
  | nil => rw [encode, List.flatMap_nil, List.length_nil, List.length_nil, Nat.zero_mul]
  | cons a l ih =>
    rw [encode, List.flatMap_cons, List.length_append, s.length_write, List.length_cons, Nat.succ_mul, Nat.add_comm]
    exact congrArg (· + s.width) ih

theorem readMany_encode (l : List α) : s.readMany l.length (s.encode l) = l := by
  induction l with
  | nil => rfl
  | cons a l ih =>
    have htake : (s.encode (a :: l)).take s.width = s.write a := by
      rw [encode, List.flatMap_cons, ← s.length_write a, List.take_left']
      rfl
    have hdrop : (s.encode (a :: l)).drop s.width = s.encode l := by
      rw [encode, List.flatMap_cons, ← s.length_write a, List.drop_left']
      · rfl
      · rfl
    rw [List.length_cons, readMany, htake, hdrop, s.read_write, ih]

/-- **What is written is read back.** -/
theorem decode_encode (l : List α) : s.decode (s.encode l) = some l := by
  have hlen := s.length_encode l
  have heven : s.decode (s.encode l) = some (s.readMany (l.length * s.width / s.width) (s.encode l)) := by
    rw [decode, hlen, Nat.mul_mod_left]
    exact if_neg (not_not_intro rfl)
  rw [heven, Nat.mul_div_cancel _ s.width_pos, readMany_encode]

@[simp] theorem length_readMany (n : Nat) (bytes : List UInt8) : (s.readMany n bytes).length = n := by
  induction n generalizing bytes with
  | zero => rfl
  | succ n ih => rw [readMany, List.length_cons, ih]

/-- Only the length decides whether bytes are refused. -/
theorem decode_eq_none_iff {bytes : List UInt8} : s.decode bytes = none ↔ bytes.length % s.width ≠ 0 := by
  rw [decode]
  by_cases heven : bytes.length % s.width ≠ 0
  · rw [if_pos heven]
    exact iff_of_true rfl heven
  · rw [if_neg heven]
    exact iff_of_false (Option.some_ne_none _) heven

/-- Every byte string of the width is a record. -/
def Exact : Prop := ∀ bytes, bytes.length = s.width → s.write (s.read bytes) = bytes

variable {s}

theorem Exact.encode_readMany (h : s.Exact) {n : Nat} {bytes : List UInt8} (hlen : bytes.length = n * s.width) :
    s.encode (s.readMany n bytes) = bytes := by
  induction n generalizing bytes with
  | zero =>
    rw [Nat.zero_mul] at hlen
    rw [List.eq_nil_of_length_eq_zero hlen, readMany]
    rfl
  | succ n ih =>
    rw [Nat.succ_mul] at hlen
    have hfirst : (bytes.take s.width).length = s.width := by
      rw [List.length_take]
      omega
    have hrest : (bytes.drop s.width).length = n * s.width := by
      rw [List.length_drop]
      omega
    have hcons : s.encode (s.readMany (n + 1) bytes)
        = s.write (s.read (bytes.take s.width)) ++ s.encode (s.readMany n (bytes.drop s.width)) := rfl
    rw [hcons, h _ hfirst, ih hrest, List.take_append_drop]

/-- **What is read is written back**, byte for byte. -/
theorem Exact.encode_decode (h : s.Exact) {bytes : List UInt8} {l : List α} (hdecode : s.decode bytes = some l) :
    s.encode l = bytes := by
  rw [decode] at hdecode
  by_cases heven : bytes.length % s.width ≠ 0
  · rw [if_pos heven] at hdecode
    exact nomatch hdecode
  · rw [if_neg heven] at hdecode
    rw [← Option.some.inj hdecode]
    apply h.encode_readMany
    rw [Nat.div_mul_cancel (Nat.dvd_of_mod_eq_zero (not_not.mp heven))]

end Stride

end SentryUsb.Library
