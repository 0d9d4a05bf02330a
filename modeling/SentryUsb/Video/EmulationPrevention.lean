import SentryUsb.Video.SeiFields

/-! # Emulation prevention

Inside an H.264 unit two zero bytes and a byte of at most three would read as a mark of the stream, so an encoder sets a three
between them. The reader takes it out again (`extract.rs`).

* **`escape`** — what an encoder does to a payload;
* **`stripEmulationBytes`** — what the reader does to a unit (`strip_emulation_bytes`);
* **`strip_escape`** — the reader gives every payload back. -/

namespace SentryUsb.Video

/-! ## The encoder -/

/-- An encoder that has just written so many zero bytes. -/
def escapeFrom : Nat → Bytes → Bytes
  | _, [] => []
  | zeros, b :: payload =>
    if zeros = 2 ∧ b ≤ 3 then 3 :: b :: escapeFrom (if b = 0 then 1 else 0) payload
    else b :: escapeFrom (if b = 0 then zeros + 1 else 0) payload

/-- A three after every two zero bytes that stand before a byte of at most three. -/
def escape (payload : Bytes) : Bytes := escapeFrom 0 payload

example : escape [0, 0, 0, 0, 1] = [0, 0, 3, 0, 0, 3, 1] := by decide

/-! ## The reader -/

/-- The loop of the reader: what it has copied, and the zero bytes it copied last (`out`, `zeros`). -/
structure Stripping where
  out : Bytes
  zeros : UInt32
  deriving DecidableEq

/-- One byte of the unit. -/
def Stripping.take (s : Stripping) (b : UInt8) : Stripping :=
  if 2 ≤ s.zeros ∧ b = 0x03 then { s with zeros := 0 }
  else { out := s.out ++ [b], zeros := if b = 0 then s.zeros + 1 else 0 }

/-- A unit without its emulation prevention bytes (`strip_emulation_bytes`). -/
def stripEmulationBytes (data : Bytes) : Bytes := (data.foldl Stripping.take ⟨[], 0⟩).out

theorem Stripping.take_skip {s : Stripping} (h : 2 ≤ s.zeros) : s.take 0x03 = { s with zeros := 0 } :=
  if_pos ⟨h, rfl⟩

theorem Stripping.take_copy {s : Stripping} {b : UInt8} (h : ¬ (2 ≤ s.zeros ∧ b = 0x03)) :
    s.take b = { out := s.out ++ [b], zeros := if b = 0 then s.zeros + 1 else 0 } :=
  if_neg h

/-! ## The round trip -/

/-- One byte after the other: the reader counts the zero bytes as the encoder does, and there are never more than two. -/
theorem foldl_take_escapeFrom (payload out : Bytes) {zeros : Nat} (hzeros : zeros ≤ 2) {z : UInt32}
    (hz : z.toNat = zeros) : ((escapeFrom zeros payload).foldl Stripping.take ⟨out, z⟩).out = out ++ payload := by
  induction payload generalizing out zeros z with
  | nil => exact (List.append_nil out).symm
  | cons b payload ih =>
    have htwo : 2 ≤ z ↔ 2 ≤ zeros := by rw [UInt32.le_iff_toNat_le, hz]; rfl
    rw [escapeFrom]
    split
    · rename_i hescape
      have hskip : Stripping.take ⟨out, z⟩ 3 = ⟨out, 0⟩ := Stripping.take_skip (htwo.mpr hescape.1.ge)
      have hcopy : Stripping.take ⟨out, 0⟩ b = ⟨out ++ [b], if b = 0 then 0 + 1 else 0⟩ :=
        Stripping.take_copy fun h => absurd (show (2 : UInt32) ≤ 0 from h.1) (by decide)
      rw [List.foldl_cons, List.foldl_cons, hskip, hcopy, ih (out ++ [b]) (by split <;> omega) (by split <;> rfl),
        List.append_assoc]
      rfl
    · rename_i hplain
      have hcopy : Stripping.take ⟨out, z⟩ b = ⟨out ++ [b], if b = 0 then z + 1 else 0⟩ := by
        exact Stripping.take_copy fun h => hplain ⟨le_antisymm hzeros (htwo.mp h.1), h.2 ▸ UInt8.le_refl _⟩
      have hnext : (if b = 0 then z + 1 else 0).toNat = if b = 0 then zeros + 1 else 0 := by
        split
        · rw [UInt32.toNat_add, hz]
          exact Nat.mod_eq_of_lt (by simp; omega)
        · rfl
      have hsmall : (if b = 0 then zeros + 1 else 0) ≤ 2 := by
        split
        · rename_i hzero
          have : zeros ≠ 2 := fun h => hplain ⟨h, by rw [hzero]; decide⟩
          omega
        · exact Nat.zero_le 2
      rw [List.foldl_cons, hcopy, ih (out ++ [b]) hsmall hnext, List.append_assoc]
      rfl

/-- **The reader gives back every payload an encoder escaped.** -/
theorem strip_escape (payload : Bytes) : stripEmulationBytes (escape payload) = payload :=
  foldl_take_escapeFrom payload [] (Nat.zero_le 2) rfl

end SentryUsb.Video
