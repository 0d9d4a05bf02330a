import SentryUsb.Library.CursorLoop

/-! # Decoding the metadata of a frame

The camera writes a protobuf message into a frame's SEI unit. It is decoded by hand: the scan reads a tag, then skips or
keeps the field it announces. A length-delimited field is skipped by adding its declared length to the cursor, in the
machine's wrapping arithmetic (`extract.rs`).

* **`decodeVarint`** — variable-length integers (`decode_varint`);
* **`seiPass`** — one field (`decode_sei_gps`, the body of its loop);
* **`FieldsEnd`** — every field has a size, and ends before the integers do;
* **`decodesSafely_iff`** — the scan moves forward and returns when the fields end, and only then. -/

namespace SentryUsb.Video

open Library

abbrev Bytes := List UInt8

/-! ## Machine integers -/

/-- The machine word. -/
inductive Width where
  | w32
  | w64
  deriving DecidableEq, Repr

def Width.modulus : Width → Nat
  | .w32 => 2 ^ 32
  | .w64 => 2 ^ 64

/-- Addition of the release build. -/
def Width.add (w : Width) (a b : Nat) : Nat := (a + b) % w.modulus

theorem Width.modulus_le (w : Width) : 2 ^ 32 ≤ w.modulus ∧ w.modulus ≤ 2 ^ 64 := by
  cases w with
  | w32 => decide
  | w64 => decide

theorem Width.add_eq {w : Width} {a b : Nat} (h : a + b < w.modulus) : w.add a b = a + b := Nat.mod_eq_of_lt h

/-! ## Reading -/

/-- Seven bits of each byte, the lowest first, up to a byte without the top bit; ten bytes at most. -/
def varintFrom (i : Nat) (val shift : UInt64) : Bytes → UInt64 × Nat
  | [] => (0, 0)
  | b :: rest =>
    if 10 ≤ i then (0, 0)
    else
      let val := val ||| ((b &&& 0x7F).toUInt64 <<< shift)
      if b < 0x80 then (val, i + 1) else varintFrom (i + 1) val (shift + 7) rest

/-- A varint and the bytes it takes; no bytes where there is none (`decode_varint`). -/
def decodeVarint (data : Bytes) : UInt64 × Nat := varintFrom 0 0 0 data

/-- The bytes from an index on (`&data[i..]`); an index beyond the end panics. -/
def sliceFrom (data : Bytes) (i : Nat) : Option Bytes := if i ≤ data.length then some (data.drop i) else none

/-- The bytes at `n` indices; an index beyond the end panics. -/
def bytesAt (data : Bytes) (i n : Nat) : Option Bytes :=
  if i + n ≤ data.length then some ((data.drop i).take n) else none

/-- The number of some bytes, the lowest first (`from_le_bytes`). -/
def fromLeBytes (bytes : Bytes) : Nat := bytes.foldr (fun b rest => b.toNat + 256 * rest) 0

/-! ## The scan -/

/-- What a message says of a frame (`SeiFrame`). -/
structure SeiFrame where
  lat : Float := 0.0
  lon : Float := 0.0
  gear : UInt8 := 0
  apState : UInt8 := 0
  speed : Float32 := 0.0
  accelPos : Float32 := 0.0
  blinkerLeft : Bool := false
  blinkerRight : Bool := false
  brake : Bool := false
  accelX : Float32 := 0.0
  accelY : Float32 := 0.0
  steeringDeg : Float32 := 0.0

/-- The cursor and what has been read before it. -/
structure Scan where
  cursor : Nat
  frame : SeiFrame

/-- How the scan ends: with a frame, without one, or by an index outside the buffer. -/
inductive Outcome where
  | value (frame : Option SeiFrame)
  | outOfBounds

/-- Keep a varint field. -/
def SeiFrame.setVarint (f : SeiFrame) (field val : UInt64) : SeiFrame :=
  if field = 2 then { f with gear := val.toUInt8 }
  else if field = 7 then { f with blinkerLeft := val != 0 }
  else if field = 8 then { f with blinkerRight := val != 0 }
  else if field = 9 then { f with brake := val != 0 }
  else if field = 10 then { f with apState := val.toUInt8 }
  else f

/-- Keep a 64-bit field. -/
def SeiFrame.setFixed64 (f : SeiFrame) (field : UInt64) (val : Float) : SeiFrame :=
  if field = 11 then { f with lat := val }
  else if field = 12 then { f with lon := val }
  else if field = 14 then { f with accelX := val.toFloat32 }
  else if field = 15 then { f with accelY := val.toFloat32 }
  else f

/-- Keep a 32-bit field. -/
def SeiFrame.setFixed32 (f : SeiFrame) (field : UInt64) (val : Float32) : SeiFrame :=
  if field = 4 then { f with speed := val }
  else if field = 5 then { f with accelPos := val }
  else if field = 6 then { f with steeringDeg := val }
  else f

/-- A frame needs a position; a sample that is no number is none. -/
def validated (f : SeiFrame) : Option SeiFrame :=
  let clean (v : Float32) : Float32 := if v.isFinite then v else 0.0
  if f.lat.isFinite && f.lon.isFinite && !(f.lat == 0.0 && f.lon == 0.0) && decide (f.lat.abs ≤ 90.0)
      && decide (f.lon.abs ≤ 180.0) then
    some { f with accelX := clean f.accelX, accelY := clean f.accelY, steeringDeg := clean f.steeringDeg }
  else none

/-- The field after a tag that ends at `i`. -/
def fieldPass (w : Width) (data : Bytes) (i : Nat) (tag : UInt64) (f : SeiFrame) : Turn Scan Outcome :=
  let field := tag >>> 3
  match (tag &&& 7).toNat with
  | 0 => match sliceFrom data i with
    | none => .done .outOfBounds
    | some rest =>
      if (decodeVarint rest).2 = 0 then .done (.value none)
      else .again ⟨w.add i (decodeVarint rest).2, f.setVarint field (decodeVarint rest).1⟩
  | 1 =>
    if data.length < w.add i 8 then .done (.value none)
    else match bytesAt data i 8 with
      | none => .done .outOfBounds
      | some bytes =>
        .again ⟨w.add i 8, f.setFixed64 field (Float.ofBits (UInt64.ofNat (fromLeBytes bytes)))⟩
  | 2 => match sliceFrom data i with
    | none => .done .outOfBounds
    | some rest =>
      if (decodeVarint rest).2 = 0 then .done (.value none)
      else .again ⟨w.add i (w.add (decodeVarint rest).2 ((decodeVarint rest).1.toNat % w.modulus)), f⟩
  | 5 =>
    if data.length < w.add i 4 then .done (.value none)
    else match bytesAt data i 4 with
      | none => .done .outOfBounds
      | some bytes =>
        .again ⟨w.add i 4, f.setFixed32 field (Float32.ofBits (UInt32.ofNat (fromLeBytes bytes)))⟩
  | _ => .done (.value none)

/-- One pass of the scan. -/
def seiPass (w : Width) (data : Bytes) (s : Scan) : Turn Scan Outcome :=
  if s.cursor < data.length then
    match sliceFrom data s.cursor with
    | none => .done .outOfBounds
    | some rest =>
      if (decodeVarint rest).2 = 0 then .done (.value (validated s.frame))
      else fieldPass w data (w.add s.cursor (decodeVarint rest).2) (decodeVarint rest).1 s.frame
  else .done (.value (validated s.frame))

/-- Where the scan begins. -/
def scanStart : Scan := ⟨0, {}⟩

/-- The scan of a message, with a bound on its fields (`decode_sei_gps`). -/
def decodeSeiGps (w : Width) (data : Bytes) (fuel : Nat) : Option Outcome := loop (seiPass w data) fuel scanStart

/-! ## Sizes of fields -/

theorem varintFrom_le (i : Nat) (val shift : UInt64) (data : Bytes) :
    (varintFrom i val shift data).2 ≤ i + data.length ∧ (varintFrom i val shift data).2 ≤ 10 := by
  induction data generalizing i val shift with
  | nil => exact ⟨Nat.zero_le _, Nat.zero_le _⟩
  | cons b rest ih =>
    rw [varintFrom]
    by_cases hten : 10 ≤ i
    · rw [if_pos hten]
      exact ⟨Nat.zero_le _, Nat.zero_le _⟩
    · rw [if_neg hten]
      dsimp only
      split
      · rw [List.length_cons]
        exact ⟨by omega, by omega⟩
      · obtain ⟨hlen, hmax⟩ := ih (i + 1) (val ||| ((b &&& 0x7F).toUInt64 <<< shift)) (shift + 7)
        rw [List.length_cons]
        exact ⟨by omega, hmax⟩

theorem decodeVarint_le (data : Bytes) : (decodeVarint data).2 ≤ data.length ∧ (decodeVarint data).2 ≤ 10 := by
  have h := varintFrom_le 0 0 0 data
  rw [Nat.zero_add] at h
  exact h

/-- The size of the field that begins at `i`, as the machine counts it: its tag and what the tag announces. Where the
scan ends within the field, it has none. -/
def fieldSize (w : Width) (data : Bytes) (i : Nat) : Option Nat :=
  let tag := decodeVarint (data.drop i)
  let content := decodeVarint (data.drop (i + tag.2))
  if tag.2 = 0 then none
  else match (tag.1 &&& 7).toNat with
    | 0 => if content.2 = 0 then none else some (tag.2 + content.2)
    | 1 => if data.length < i + tag.2 + 8 then none else some (tag.2 + 8)
    | 2 => if content.2 = 0 then none else some ((tag.2 + content.2 + content.1.toNat) % w.modulus)
    | 5 => if data.length < i + tag.2 + 4 then none else some (tag.2 + 4)
    | _ => none

/-- Where the fields of a message begin. -/
inductive FieldStart (w : Width) (data : Bytes) : Nat → Prop where
  | first : FieldStart w data 0
  | next {i size : Nat} (before : FieldStart w data i) (inside : i < data.length)
      (sized : fieldSize w data i = some size) : FieldStart w data (i + size)

/-- **Every field has a size, and ends before the integers of the machine do.** -/
def FieldsEnd (w : Width) (data : Bytes) : Prop :=
  ∀ i size, FieldStart w data i → i < data.length → fieldSize w data i = some size →
    0 < size ∧ i + size < w.modulus

/-! ## One pass -/

section Passes

variable {w : Width} {data : Bytes}

theorem sliceFrom_eq {i : Nat} (h : i ≤ data.length) : sliceFrom data i = some (data.drop i) := if_pos h

/-- **A pass over a field with a size moves the cursor by it, and over any other ends the scan.** -/
theorem seiPass_spec (hlen : 2 * data.length ≤ w.modulus) {s : Scan} (hs : s.cursor < data.length) :
    (∃ size u, fieldSize w data s.cursor = some size ∧ seiPass w data s = .again u
        ∧ u.cursor = w.add s.cursor size)
      ∨ (fieldSize w data s.cursor = none ∧ ∃ r, seiPass w data s = .done (.value r)) := by
  have hmod := w.modulus_le.1
  obtain ⟨htaglen, htagmax⟩ := decodeVarint_le (data.drop s.cursor)
  rw [List.length_drop] at htaglen
  unfold seiPass
  rw [if_pos hs, sliceFrom_eq (Nat.le_of_lt hs)]
  dsimp only
  by_cases htag : (decodeVarint (data.drop s.cursor)).2 = 0
  · exact .inr ⟨by simp only [fieldSize, htag, if_true], _, by rw [if_pos htag]⟩
  rw [if_neg htag]
  generalize htagval : decodeVarint (data.drop s.cursor) = tag at htag htaglen htagmax ⊢
  -- the tag lies within the buffer, so its end needs no wrapping
  have hend : w.add s.cursor tag.2 = s.cursor + tag.2 := Width.add_eq (by omega)
  have hin : s.cursor + tag.2 ≤ data.length := by omega
  obtain ⟨hconlen, hconmax⟩ := decodeVarint_le (data.drop (s.cursor + tag.2))
  rw [List.length_drop] at hconlen
  unfold fieldPass fieldSize
  rw [hend, htagval]
  dsimp only
  rw [if_neg htag, sliceFrom_eq hin]
  split
  · -- a varint
    dsimp only
    by_cases hcon : (decodeVarint (data.drop (s.cursor + tag.2))).2 = 0
    · rw [if_pos hcon, if_pos hcon]
      exact .inr ⟨rfl, _, rfl⟩
    · rw [if_neg hcon, if_neg hcon]
      refine .inl ⟨_, _, rfl, rfl, ?_⟩
      unfold Width.add
      dsimp only
      rw [Nat.add_assoc]
  · -- 64 bits
    rw [Width.add_eq (by omega)]
    by_cases hshort : data.length < s.cursor + tag.2 + 8
    · rw [if_pos hshort, if_pos hshort]
      exact .inr ⟨rfl, _, rfl⟩
    · rw [if_neg hshort, if_neg hshort, show bytesAt data (s.cursor + tag.2) 8
        = some ((data.drop (s.cursor + tag.2)).take 8) from if_pos (by omega)]
      refine .inl ⟨_, _, rfl, rfl, ?_⟩
      rw [Width.add_eq (by omega), Nat.add_assoc]
  · -- a length and as many bytes
    dsimp only
    by_cases hcon : (decodeVarint (data.drop (s.cursor + tag.2))).2 = 0
    · rw [if_pos hcon, if_pos hcon]
      exact .inr ⟨rfl, _, rfl⟩
    · rw [if_neg hcon, if_neg hcon]
      refine .inl ⟨_, _, rfl, rfl, ?_⟩
      unfold Width.add
      dsimp only
      rw [Nat.add_mod_mod, Nat.add_mod_mod, ← Nat.add_assoc (s.cursor + tag.2), Nat.add_mod_mod]
      congr 1
      omega
  · -- 32 bits
    rw [Width.add_eq (by omega)]
    by_cases hshort : data.length < s.cursor + tag.2 + 4
    · rw [if_pos hshort, if_pos hshort]
      exact .inr ⟨rfl, _, rfl⟩
    · rw [if_neg hshort, if_neg hshort, show bytesAt data (s.cursor + tag.2) 4
        = some ((data.drop (s.cursor + tag.2)).take 4) from if_pos (by omega)]
      refine .inl ⟨_, _, rfl, rfl, ?_⟩
      rw [Width.add_eq (by omega), Nat.add_assoc]
  · -- no other wire type is known
    exact .inr ⟨rfl, _, rfl⟩

theorem seiPass_of_end {s : Scan} (hs : ¬ s.cursor < data.length) :
    seiPass w data s = .done (.value (validated s.frame)) := if_neg hs

/-- A pass that is followed by another was made over a field with a size. -/
theorem seiPass_again (hlen : 2 * data.length ≤ w.modulus) {s u : Scan} (h : seiPass w data s = .again u) :
    s.cursor < data.length ∧ ∃ size, fieldSize w data s.cursor = some size ∧ u.cursor = w.add s.cursor size := by
  by_cases hs : s.cursor < data.length
  · rcases seiPass_spec hlen hs with ⟨size, v, hsize, hv, hcursor⟩ | ⟨-, r, hr⟩
    · rw [hv] at h
      injection h with h
      exact ⟨hs, size, hsize, h ▸ hcursor⟩
    · rw [hr] at h
      exact absurd h (by simp)
  · rw [seiPass_of_end hs] at h
    exact absurd h (by simp)

/-- No pass indexes outside the buffer. -/
theorem seiPass_ne_outOfBounds (hlen : 2 * data.length ≤ w.modulus) (s : Scan) :
    seiPass w data s ≠ .done .outOfBounds := by
  intro h
  by_cases hs : s.cursor < data.length
  · rcases seiPass_spec hlen hs with ⟨_, _, -, hv, -⟩ | ⟨-, r, hr⟩
    · rw [hv] at h
      exact absurd h (by simp)
    · rw [hr] at h
      exact absurd h (by simp)
  · rw [seiPass_of_end hs] at h
    exact absurd h (by simp)

/-! ## The scan -/

/-- **The scan of a message is safe**: every pass moves its cursor forward, no index lies outside the buffer, and it
returns. -/
def DecodesSafely (w : Width) (data : Bytes) : Prop :=
  Advances Scan.cursor (seiPass w data) scanStart
    ∧ (∀ s, Visits (seiPass w data) scanStart s → seiPass w data s ≠ .done .outOfBounds)
    ∧ ∃ fuel frame, decodeSeiGps w data fuel = some (.value frame)

/-- A size is counted in the integers of the machine. -/
theorem fieldSize_lt {i size : Nat} (h : fieldSize w data i = some size) : size < w.modulus := by
  have hmod := w.modulus_le.1
  obtain ⟨htaglen, htagmax⟩ := decodeVarint_le (data.drop i)
  obtain ⟨hconlen, hconmax⟩ := decodeVarint_le (data.drop (i + (decodeVarint (data.drop i)).2))
  unfold fieldSize at h
  dsimp only at h
  split at h
  · exact absurd h (by simp)
  · split at h
    · obtain ⟨-, h⟩ := Option.ite_none_left_eq_some.mp h
      obtain rfl := Option.some.inj h
      omega
    · obtain ⟨-, h⟩ := Option.ite_none_left_eq_some.mp h
      obtain rfl := Option.some.inj h
      omega
    · obtain ⟨-, h⟩ := Option.ite_none_left_eq_some.mp h
      obtain rfl := Option.some.inj h
      exact Nat.mod_lt _ (by omega)
    · obtain ⟨-, h⟩ := Option.ite_none_left_eq_some.mp h
      obtain rfl := Option.some.inj h
      omega
    · exact absurd h (by simp)

/-- Where the fields end, the scan comes to their beginnings. -/
theorem fieldStart_of_visits (hlen : 2 * data.length ≤ w.modulus) (hend : FieldsEnd w data) {s : Scan}
    (h : Visits (seiPass w data) scanStart s) : FieldStart w data s.cursor := by
  induction h with
  | start => exact .first
  | next _ htaken ih =>
    obtain ⟨hin, size, hsize, hcursor⟩ := seiPass_again hlen htaken
    rw [hcursor, Width.add_eq (hend _ _ ih hin hsize).2]
    exact .next ih hin hsize

/-- Where the cursor advances, the scan comes to every field. -/
theorem visits_of_fieldStart (hlen : 2 * data.length ≤ w.modulus)
    (hadvances : Advances Scan.cursor (seiPass w data) scanStart) {i : Nat} (h : FieldStart w data i) :
    ∃ s, Visits (seiPass w data) scanStart s ∧ s.cursor = i := by
  induction h with
  | first => exact ⟨scanStart, .start, rfl⟩
  | next _ hin hsize ih =>
    obtain ⟨s, hs, rfl⟩ := ih
    rcases seiPass_spec hlen hin with ⟨size', u, hsize', hu, hcursor⟩ | ⟨hnone, -⟩
    · obtain rfl := Option.some.inj (hsize.symm.trans hsize')
      refine ⟨u, hs.next hu, ?_⟩
      -- a sum that wraps lies behind the field
      have hforward := hadvances s u hs hu
      have hlt := fieldSize_lt hsize
      rw [hcursor] at hforward ⊢
      refine Width.add_eq ?_
      by_contra hwraps
      unfold Width.add at hforward
      rw [Nat.mod_eq_sub_mod (by omega), Nat.mod_eq_of_lt (by omega)] at hforward
      omega
    · rw [hnone] at hsize
      exact absurd hsize (by simp)

/-- **The scan is safe when every field has a size and ends before the integers of the machine do, and only then.** A
buffer takes at most half of the addresses. -/
theorem decodesSafely_iff (hlen : 2 * data.length ≤ w.modulus) : DecodesSafely w data ↔ FieldsEnd w data := by
  constructor
  · rintro ⟨hadvances, -, -⟩ i size hstart hin hsize
    obtain ⟨s, hs, rfl⟩ := visits_of_fieldStart hlen hadvances hstart
    obtain ⟨u, hu, hat⟩ := visits_of_fieldStart hlen hadvances (.next hstart hin hsize)
    rcases seiPass_spec hlen hin with ⟨size', v, hsize', hv, hcursor⟩ | ⟨hnone, -⟩
    · obtain rfl := Option.some.inj (hsize.symm.trans hsize')
      have hforward := hadvances s v hs hv
      have hlt := fieldSize_lt hsize
      rw [hcursor] at hforward
      unfold Width.add at hforward
      by_cases hwraps : s.cursor + size < w.modulus
      · rw [Nat.mod_eq_of_lt hwraps] at hforward
        exact ⟨by omega, hwraps⟩
      · rw [Nat.mod_eq_sub_mod (by omega), Nat.mod_eq_of_lt (by omega)] at hforward
        omega
    · rw [hnone] at hsize
      exact absurd hsize (by simp)
  · intro hend
    have hadvances : Advances Scan.cursor (seiPass w data) scanStart := by
      intro s u hs hu
      obtain ⟨hin, size, hsize, hcursor⟩ := seiPass_again hlen hu
      obtain ⟨hpos, hlt⟩ := hend _ _ (fieldStart_of_visits hlen hend hs) hin hsize
      rw [hcursor, Width.add_eq hlt]
      omega
    refine ⟨hadvances, fun s _ => seiPass_ne_outOfBounds hlen s, ?_⟩
    obtain ⟨fuel, r, hr⟩ := returns_of_advances data.length hadvances fun s u _ hu => (seiPass_again hlen hu).1
    obtain ⟨s, -, hdone⟩ := exists_done_of_loop hr
    cases r with
    | value frame => exact ⟨fuel, frame, hr⟩
    | outOfBounds => exact absurd hdone (seiPass_ne_outOfBounds hlen s)

end Passes

/-- One field of one byte. -/
def oneByteField : Bytes := [0x12, 0x01, 0x00]

/-- A field that ends with the buffer. -/
theorem decodesSafely_oneByteField : DecodesSafely .w64 oneByteField ∧ DecodesSafely .w32 oneByteField := by
  have hstarts : ∀ w i, FieldStart w oneByteField i → i < oneByteField.length → i = 0 := by
    intro w i h
    induction h with
    | first => exact fun _ => rfl
    | next _ hin hsize ih =>
      obtain rfl := ih hin
      have hthree : fieldSize w oneByteField 0 = some 3 := by
        cases w with
        | w32 => rfl
        | w64 => rfl
      obtain rfl := Option.some.inj (hsize.symm.trans hthree)
      exact fun hlt => absurd hlt (by decide)
  have hends : ∀ w, FieldsEnd w oneByteField := by
    intro w i size hstart hin hsize
    obtain rfl := hstarts w i hstart hin
    cases w with
    | w32 =>
      obtain rfl := Option.some.inj (hsize.symm.trans (rfl : fieldSize .w32 oneByteField 0 = some 3))
      exact ⟨by decide, by decide⟩
    | w64 =>
      obtain rfl := Option.some.inj (hsize.symm.trans (rfl : fieldSize .w64 oneByteField 0 = some 3))
      exact ⟨by decide, by decide⟩
  exact ⟨(decodesSafely_iff (by decide)).mpr (hends .w64), (decodesSafely_iff (by decide)).mpr (hends .w32)⟩

/-! ## A length that leads back -/

/-- A field of number 1 that declares 2^64 - 11 bytes. -/
def backToStart : Bytes := [0x0A, 0xF5, 0xFF, 0xFF, 0xFF, 0xFF, 0xFF, 0xFF, 0xFF, 0xFF, 0x01]

/-- The field ends where it began, so a 64-bit scan never returns. -/
theorem not_decodesSafely :
    ¬ DecodesSafely .w64 backToStart ∧ ∀ fuel, decodeSeiGps .w64 backToStart fuel = none := by
  have hpass : seiPass .w64 backToStart scanStart = .again scanStart := rfl
  have hnever : ∀ fuel, decodeSeiGps .w64 backToStart fuel = none := fun fuel =>
    loop_eq_none_of_closed (fun s (hs : s = scanStart) => ⟨scanStart, rfl, hs ▸ hpass⟩) fuel rfl
  refine ⟨fun hsafe => ?_, hnever⟩
  obtain ⟨-, -, fuel, frame, hreturns⟩ := hsafe
  rw [hnever fuel] at hreturns
  exact absurd hreturns (by simp)

end SentryUsb.Video
