import SentryUsb.Library.BinaryFloat
import SentryUsb.Library.TransitionSystem
import SentryUsb.Store.RouteRow

/-! # Blobs of the routes table

What a blob column holds (`blob.rs`): nothing for an absent channel, else fixed-width records. Speeds of flag runs are
written as singles, with not a number for none, and read back to one decimal. The grace prefix of the safety estimate has
a version and one length.

* **`encodePoints`**, **`decodePoints`**, … — the codecs of the channels;
* **`encodeSafetyGracePrefix`**, **`decodeSafetyGracePrefix`** — that of the grace prefix;
* **`speed_asF32_tenth`** — a speed of one decimal comes back;
* **`codecs_inverse`** — what is written is read, what is read is written, and which lengths are refused. -/

namespace SentryUsb.Store.Blob

open Library

/-! ## Speeds -/

/-- A double as a single (`as f32`). -/
def asF32 (m : F64) : F32 := UInt32.ofNat (binary64.apply binary32 id m.toNat)

/-- A single as a double (`as f64`). -/
def asF64 (x : F32) : F64 := UInt64.ofNat (binary32.apply binary64 id x.toNat)

/-- An operation on the magnitude of a double. -/
def onF64 (f : ℚ → ℚ) (m : F64) : F64 := UInt64.ofNat (binary64.apply binary64 f m.toNat)

/-- A double to one decimal: times ten, to the nearest integer with halves away from zero, by ten. -/
def roundTenth (m : F64) : F64 := onF64 (· / 10) (onF64 (fun x => (⌊x + 1 / 2⌋₊ : ℕ)) (onF64 (· * 10) m))

def isFinite (x : F32) : Bool := x.toNat % binary32.signBit < binary32.infinity

/-- The speed of a stored flag run. -/
def speed (maxRaw : F32) : Option F64 := if isFinite maxRaw then some (roundTenth (asF64 maxRaw)) else none

/-- The double of a decimal with one place. -/
def tenth (negative : Bool) (k : ℕ) : F64 := UInt64.ofNat (binary64.signed negative (binary64.nearest (k / 10)))

/-! ## Channels -/

section Records

variable {α : Type*}

/-- A channel as its column stores it. -/
def encodeRecords (s : Stride α) (l : Option (List α)) : Option Bytes := l.map s.encode

/-- A channel read from its column. -/
def decodeRecords (name : String) (s : Stride α) (buf : Option Bytes) : Except String (Option (List α)) :=
  match buf with
  | none => .ok none
  | some buf => match s.decode buf with
    | none => .error (name ++ ": length " ++ toString buf.length ++ " not a multiple of " ++ toString s.width)
    | some l => .ok (some l)

end Records

def encodePoints : Option (List Point) → Option Bytes := encodeRecords pointStride

def decodePoints : Option Bytes → Except String (Option (List Point)) := decodeRecords "decode_points" pointStride

def encodeU8s (s : Option Bytes) : Option Bytes := s.map fun s => s

def decodeU8s (buf : Option Bytes) : Option Bytes := buf.map fun b => b

def encodeF32s : Option (List F32) → Option Bytes := encodeRecords f32Stride

def decodeF32s : Option Bytes → Except String (Option (List F32)) := decodeRecords "decode_f32s" f32Stride

def encodeGearRuns : Option (List StateRun) → Option Bytes := encodeRecords runStride

def decodeGearRuns : Option Bytes → Except String (Option (List StateRun)) := decodeRecords "decode_gear_runs" runStride

def encodeApRuns : Option (List StateRun) → Option Bytes := encodeRecords runStride

def decodeApRuns : Option Bytes → Except String (Option (List StateRun)) := decodeRecords "decode_ap_runs" runStride

/-- A flag run as it is written. -/
def toStored (r : FlagRun) : StoredFlagRun := ⟨r.flags, r.frames, (r.maxMps.map asF32).getD f32Nan⟩

/-- A flag run as it is read. -/
def ofStored (r : StoredFlagRun) : FlagRun := ⟨r.flags, r.frames, speed r.maxBits⟩

def encodeFlagRuns (runs : Option (List FlagRun)) : Option Bytes :=
  encodeRecords flagStride (runs.map (List.map toStored))

def decodeFlagRuns (buf : Option Bytes) : Except String (Option (List FlagRun)) :=
  (decodeRecords "decode_flag_runs" flagStride buf).map (Option.map (List.map ofStored))

/-! ## The grace prefix -/

/-- One second of the grace prefix: how long each factor lasted (`SafetyPrefixBucket`). -/
structure SafetyPrefixBucket where
  hardBrakeMs : Int64
  brakeAnyMs : Int64
  aggrTurnMs : Int64
  turnAnyMs : Int64
  speedingMs : Int64
  deriving DecidableEq

def SafetyPrefixBucket.fields (b : SafetyPrefixBucket) : List Int64 :=
  [b.hardBrakeMs, b.brakeAnyMs, b.aggrTurnMs, b.turnAnyMs, b.speedingMs]

def SafetyPrefixBucket.ofFields (l : List Int64) : SafetyPrefixBucket :=
  ⟨l.getD 0 0, l.getD 1 0, l.getD 2 0, l.getD 3 0, l.getD 4 0⟩

/-- Five seconds. -/
abbrev SafetyGracePrefix := List.Vector SafetyPrefixBucket 5

/-- No factor in any second. -/
def emptyPrefix : SafetyGracePrefix := List.Vector.replicate 5 ⟨0, 0, 0, 0, 0⟩

/-- Eight bytes to a duration. -/
def i64Stride : Stride Int64 where
  width := 8
  write v := leBytes 8 v.toUInt64.toNat
  read b := (UInt64.ofNat (leValue b)).toInt64
  width_pos := by decide
  length_write v := length_leBytes 8 v.toUInt64.toNat
  read_write v := by
    rw [leValue_leBytes_of_lt v.toUInt64.toNat_lt, UInt64.ofNat_toNat]
    rfl

/-- Five durations to a second. -/
def bucketStride : Stride SafetyPrefixBucket where
  width := 40
  write b := i64Stride.encode b.fields
  read bytes := .ofFields (i64Stride.readMany 5 bytes)
  width_pos := by decide
  length_write b := i64Stride.length_encode b.fields
  read_write b := by
    have hread := i64Stride.readMany_encode b.fields
    rw [show b.fields.length = 5 from rfl] at hread
    rw [hread]
    rfl

def encodeSafetyGracePrefix (p : SafetyGracePrefix) : Bytes := 1 :: bucketStride.encode p.toList

/-- The grace prefix of a column; none for another length or version. -/
def decodeSafetyGracePrefix (buf : Option Bytes) : SafetyGracePrefix :=
  match buf with
  | none => emptyPrefix
  | some buf =>
    if buf.length ≠ 201 ∨ buf.headD 0 ≠ 1 then emptyPrefix
    else ⟨bucketStride.readMany 5 buf.tail, bucketStride.length_readMany 5 buf.tail⟩

/-! ## Speeds of one decimal -/

section Tenths

/-- A number from a twentieth to `2 ^ 23` is rounded to a finite one close by. -/
theorem near_nearest {F : FloatFormat} (hF : 0 < F.exponent) (hbias : 23 ≤ F.bias) {x : ℚ} (hlow : 1 / 20 ≤ x)
    (hhigh : x < 2 ^ 23) :
    F.nearest x < F.infinity ∧ F.value (F.nearest x) ≤ x + x / 2 ^ (F.fraction + 1)
      ∧ x - x / 2 ^ (F.fraction + 1) ≤ F.value (F.nearest x) := by
  have hnormal : F.Normal x := by
    constructor
    · calc (2 : ℚ) ^ (1 - F.bias : ℤ) ≤ 2 ^ (-22 : ℤ) := zpow_le_zpow_right₀ (by norm_num) (by omega)
        _ ≤ x := le_trans (by norm_num) hlow
    · exact lt_of_lt_of_le hhigh (pow_le_pow_right₀ (by norm_num) hbias)
  obtain ⟨hbelow, habove⟩ := abs_le.mp (hnormal.abs_value_nearest_sub_le hF)
  exact ⟨hnormal.nearest_lt hF, by linarith, by linarith⟩

theorem near_binary32 {x : ℚ} (hlow : 1 / 20 ≤ x) (hhigh : x < 2 ^ 23) :
    binary32.nearest x < binary32.infinity ∧ binary32.value (binary32.nearest x) ≤ x + x / 2 ^ 24
      ∧ x - x / 2 ^ 24 ≤ binary32.value (binary32.nearest x) :=
  near_nearest (F := binary32) (by decide) (by decide) hlow hhigh

theorem near_binary64 {x : ℚ} (hlow : 1 / 20 ≤ x) (hhigh : x < 2 ^ 23) :
    binary64.nearest x < binary64.infinity ∧ binary64.value (binary64.nearest x) ≤ x + x / 2 ^ 53
      ∧ x - x / 2 ^ 53 ≤ binary64.value (binary64.nearest x) :=
  near_nearest (F := binary64) (by decide) (by norm_num [FloatFormat.bias, binary64]) hlow hhigh

variable {k : ℕ}

/-- **Rounding to a single loses less than half a tenth**: all the numbers on the way are finite, and ten times the last is
nearest to the number of tenths. -/
theorem floor_tenths (hk : k ≤ 2 ^ 22) :
    ∃ a b c d : ℕ, a = binary64.nearest (k / 10) ∧ b = binary32.nearest (binary64.value a)
      ∧ c = binary64.nearest (binary32.value b) ∧ d = binary64.nearest (binary64.value c * 10)
      ∧ a < binary64.infinity ∧ b < binary32.infinity ∧ c < binary64.infinity ∧ d < binary64.infinity
      ∧ ⌊binary64.value d + 1 / 2⌋₊ = k := by
  refine ⟨_, _, _, _, rfl, rfl, rfl, rfl, ?_⟩
  rcases Nat.eq_zero_or_pos k with rfl | hpos
  · simp only [Nat.cast_zero, zero_div, FloatFormat.nearest_zero, FloatFormat.value_zero, zero_mul, zero_add]
    exact ⟨by decide, by decide, by decide, by decide, by norm_num⟩
  · have hk1 : (1 : ℚ) ≤ k := by exact_mod_cast hpos
    have hk2 : (k : ℚ) ≤ 2 ^ 22 := by exact_mod_cast hk
    obtain ⟨ha, ha1, ha2⟩ := near_binary64 (x := k / 10) (by linarith) (by linarith)
    obtain ⟨hb, hb1, hb2⟩ := near_binary32 (x := binary64.value (binary64.nearest (k / 10))) (by linarith) (by linarith)
    obtain ⟨hc, hc1, hc2⟩ := near_binary64
      (x := binary32.value (binary32.nearest (binary64.value (binary64.nearest (k / 10))))) (by linarith) (by linarith)
    obtain ⟨hd, hd1, hd2⟩ := near_binary64
      (x := binary64.value (binary64.nearest
        (binary32.value (binary32.nearest (binary64.value (binary64.nearest (k / 10)))))) * 10) (by linarith) (by linarith)
    refine ⟨ha, hb, hc, hd, (Nat.floor_eq_iff (by linarith)).mpr ⟨by linarith, by linarith⟩⟩

theorem toNat_signed64 {negative : Bool} {m : ℕ} (hm : m < binary64.infinity) :
    (UInt64.ofNat (binary64.signed negative m)).toNat = binary64.signed negative m :=
  UInt64.toNat_ofNat_of_lt' (lt_of_lt_of_le (FloatFormat.signed_lt hm) (by decide))

theorem toNat_signed32 {negative : Bool} {m : ℕ} (hm : m < binary32.infinity) :
    (UInt32.ofNat (binary32.signed negative m)).toNat = binary32.signed negative m :=
  UInt32.toNat_ofNat_of_lt' (lt_of_lt_of_le (FloatFormat.signed_lt hm) (by decide))

/-- **A speed of one decimal comes back.** -/
theorem speed_asF32_tenth (negative : Bool) (hk : k ≤ 2 ^ 22) :
    speed (asF32 (tenth negative k)) = some (tenth negative k) := by
  obtain ⟨a, b, c, d, ha, hb, hc, hd, hafin, hbfin, hcfin, hdfin, hfloor⟩ := floor_tenths hk
  have htenths : binary64.value (binary64.nearest (k : ℕ)) = k :=
    FloatFormat.value_nearest_natCast (by decide) (lt_of_le_of_lt hk (by norm_num [binary64]))
      (by norm_num [FloatFormat.bias, binary64])
  have hkfin : binary64.nearest (k : ℕ) < binary64.infinity := by
    rcases Nat.eq_zero_or_pos k with rfl | hpos
    · rw [Nat.cast_zero, FloatFormat.nearest_zero]
      decide
    · have hk1 : (1 : ℚ) ≤ k := by exact_mod_cast hpos
      have hk2 : (k : ℚ) ≤ 2 ^ 22 := by exact_mod_cast hk
      exact (near_binary64 (by linarith) (by linarith)).1
  have hsingle : asF32 (tenth negative k) = UInt32.ofNat (binary32.signed negative b) := by
    rw [asF32, tenth, ← ha, toNat_signed64 hafin, FloatFormat.apply_signed hafin, id, ← hb]
  have hdouble : asF64 (asF32 (tenth negative k)) = UInt64.ofNat (binary64.signed negative c) := by
    rw [hsingle, asF64, toNat_signed32 hbfin, FloatFormat.apply_signed hbfin, id, ← hc]
  have hround : roundTenth (asF64 (asF32 (tenth negative k))) = tenth negative k := by
    rw [roundTenth, hdouble, onF64, onF64, onF64, toNat_signed64 hcfin, FloatFormat.apply_signed hcfin, ← hd,
      toNat_signed64 hdfin, FloatFormat.apply_signed hdfin, hfloor, toNat_signed64 hkfin, FloatFormat.apply_signed hkfin,
      htenths, tenth]
  have hfinite : isFinite (asF32 (tenth negative k)) = true := by
    rw [hsingle, isFinite, toNat_signed32 hbfin, FloatFormat.signed_mod hbfin]
    exact decide_eq_true hbfin
  rw [speed, if_pos hfinite, hround]

/-- The double 2.7. -/
example : tenth false 27 = 0x400599999999999A := by decide +kernel

end Tenths

/-! ## Exact formats -/

section Exact

theorem exact_f32Stride : f32Stride.Exact := by
  intro bytes hlen
  have hlen : bytes.length = 4 := hlen
  show leBytes 4 (UInt32.ofNat (leValue bytes)).toNat = bytes
  rw [UInt32.toNat_ofNat_of_lt' (leValue_lt_of_length hlen), leBytes_leValue_of_length hlen]

theorem exact_pointStride : pointStride.Exact := by
  intro bytes hlen
  have hlen : bytes.length = 16 := hlen
  have htake : (bytes.take 8).length = 8 := by rw [List.length_take, hlen]; rfl
  have hdrop : (bytes.drop 8).length = 8 := by rw [List.length_drop, hlen]
  show leBytes 8 (UInt64.ofNat (leValue (bytes.take 8))).toNat
    ++ leBytes 8 (UInt64.ofNat (leValue (bytes.drop 8))).toNat = bytes
  rw [UInt64.toNat_ofNat_of_lt' (leValue_lt_of_length htake), UInt64.toNat_ofNat_of_lt' (leValue_lt_of_length hdrop),
    leBytes_leValue_of_length htake, leBytes_leValue_of_length hdrop, List.take_append_drop]

theorem exact_runStride : runStride.Exact := by
  intro bytes hlen
  cases bytes with
  | nil => exact nomatch hlen
  | cons b bytes =>
    have hlen : bytes.length = 4 := Nat.succ.inj hlen
    show b :: leBytes 4 (UInt32.ofNat (leValue bytes)).toNat = b :: bytes
    rw [UInt32.toNat_ofNat_of_lt' (leValue_lt_of_length hlen), leBytes_leValue_of_length hlen]

theorem exact_flagStride : flagStride.Exact := by
  intro bytes hlen
  cases bytes with
  | nil => exact nomatch hlen
  | cons b bytes =>
    have hlen : bytes.length = 8 := Nat.succ.inj hlen
    have htake : (bytes.take 4).length = 4 := by rw [List.length_take, hlen]; rfl
    have hdrop : (bytes.drop 4).length = 4 := by rw [List.length_drop, hlen]
    show b :: (leBytes 4 (UInt32.ofNat (leValue (bytes.take 4))).toNat
      ++ leBytes 4 (UInt32.ofNat (leValue (bytes.drop 4))).toNat) = b :: bytes
    rw [UInt32.toNat_ofNat_of_lt' (leValue_lt_of_length htake), UInt32.toNat_ofNat_of_lt' (leValue_lt_of_length hdrop),
      leBytes_leValue_of_length htake, leBytes_leValue_of_length hdrop, List.take_append_drop]

theorem exact_i64Stride : i64Stride.Exact := by
  intro bytes hlen
  have hlen : bytes.length = 8 := hlen
  show leBytes 8 (UInt64.ofNat (leValue bytes)).toInt64.toUInt64.toNat = bytes
  rw [UInt64.toUInt64_toInt64, UInt64.toNat_ofNat_of_lt' (leValue_lt_of_length hlen), leBytes_leValue_of_length hlen]

theorem fields_ofFields {l : List Int64} (h : l.length = 5) : (SafetyPrefixBucket.ofFields l).fields = l := by
  rcases l with _ | ⟨a, _ | ⟨b, _ | ⟨c, _ | ⟨d, _ | ⟨e, _ | ⟨x, l⟩⟩⟩⟩⟩⟩
  case cons.cons.cons.cons.cons.nil => rfl
  all_goals exact nomatch h

theorem exact_bucketStride : bucketStride.Exact := by
  intro bytes hlen
  show i64Stride.encode (SafetyPrefixBucket.ofFields (i64Stride.readMany 5 bytes)).fields = bytes
  rw [fields_ofFields (i64Stride.length_readMany 5 bytes)]
  exact exact_i64Stride.encode_readMany hlen

end Exact

/-! ## Codecs -/

section Codecs

variable {α : Type*} {name : String} {s : Stride α}

/-- **A codec and its inverse**: a channel is read as it was written, and a column written as it was read. -/
structure Inverse (encode : Option (List α) → Option Bytes) (decode : Option Bytes → Except String (Option (List α))) :
    Prop where
  decode_encode : ∀ l, decode (encode l) = .ok l
  encode_decode : ∀ buf l, decode buf = .ok l → encode l = buf

/-- Bytes are accepted when their length is a multiple of the width, all of them as records; else the error names both. -/
structure LengthChecked (name : String) (width : Nat) (decode : Option Bytes → Except String (Option (List α))) : Prop where
  accepts : ∀ buf : Bytes, buf.length % width = 0 →
    ∃ l, decode (some buf) = .ok (some l) ∧ buf.length = l.length * width
  rejects : ∀ buf : Bytes, buf.length % width ≠ 0 →
    decode (some buf) = .error (name ++ ": length " ++ toString buf.length ++ " not a multiple of " ++ toString width)

theorem decodeRecords_some_of_decode {buf : Bytes} {l : List α} (h : s.decode buf = some l) :
    decodeRecords name s (some buf) = .ok (some l) := by
  rw [decodeRecords, h]

/-- What a column that is accepted holds. -/
theorem decodeRecords_eq_ok {buf : Option Bytes} {l : Option (List α)} (h : decodeRecords name s buf = .ok l) :
    buf = none ∧ l = none ∨ ∃ bytes records, buf = some bytes ∧ l = some records ∧ s.decode bytes = some records := by
  cases buf with
  | none => exact .inl ⟨rfl, (Except.ok.inj h).symm⟩
  | some bytes =>
    cases hdecode : s.decode bytes with
    | none =>
      rw [decodeRecords, hdecode] at h
      exact nomatch h
    | some records =>
      rw [decodeRecords, hdecode] at h
      exact .inr ⟨bytes, records, rfl, (Except.ok.inj h).symm, hdecode⟩

theorem decodeRecords_encodeRecords (l : Option (List α)) : decodeRecords name s (encodeRecords s l) = .ok l := by
  cases l with
  | none => rfl
  | some l => exact decodeRecords_some_of_decode (s.decode_encode l)

theorem inverse_records (h : s.Exact) : Inverse (encodeRecords s) (decodeRecords name s) where
  decode_encode := decodeRecords_encodeRecords
  encode_decode buf l hdecode := by
    rcases decodeRecords_eq_ok hdecode with ⟨rfl, rfl⟩ | ⟨bytes, records, rfl, rfl, hrecords⟩
    · rfl
    · exact congrArg some (h.encode_decode hrecords)

theorem lengthChecked_records (name : String) (s : Stride α) : LengthChecked name s.width (decodeRecords name s) where
  accepts buf heven := by
    have hdecode : s.decode buf = some (s.readMany (buf.length / s.width) buf) := if_neg (not_not_intro heven)
    refine ⟨_, decodeRecords_some_of_decode hdecode, ?_⟩
    rw [s.length_readMany, Nat.div_mul_cancel (Nat.dvd_of_mod_eq_zero heven)]
  rejects buf hodd := by
    rw [decodeRecords, s.decode_eq_none_iff.mpr hodd]

end Codecs

/-! ## Flag runs -/

section FlagRuns

/-- A speed that comes back: none, or one that is a decimal with one place for the codec. -/
def SpeedKept (r : FlagRun) : Prop := ∀ m, r.maxMps = some m → speed (asF32 m) = some m

/-- The bytes of a speed that come back. -/
def BitsKept (r : StoredFlagRun) : Prop := ((speed r.maxBits).map asF32).getD f32Nan = r.maxBits

theorem speed_f32Nan : speed f32Nan = none := if_neg (by decide)

theorem ofStored_toStored_iff {r : FlagRun} : ofStored (toStored r) = r ↔ SpeedKept r := by
  obtain ⟨flags, frames, maxMps⟩ := r
  cases maxMps with
  | none =>
    have hnone : ofStored (toStored ⟨flags, frames, none⟩) = ⟨flags, frames, none⟩ :=
      congrArg (FlagRun.mk flags frames) speed_f32Nan
    exact iff_of_true hnone fun m hm => nomatch hm
  | some m =>
    have hfields : ofStored (toStored ⟨flags, frames, some m⟩) = ⟨flags, frames, speed (asF32 m)⟩ := rfl
    rw [hfields]
    constructor
    · intro heq m' hm'
      rw [← Option.some.inj hm']
      exact (FlagRun.mk.inj heq).2.2
    · intro hkept
      rw [hkept m rfl]

theorem toStored_ofStored_iff {r : StoredFlagRun} : toStored (ofStored r) = r ↔ BitsKept r := by
  obtain ⟨flags, frames, maxBits⟩ := r
  constructor
  · intro heq
    exact (StoredFlagRun.mk.inj heq).2.2
  · intro hkept
    exact congrArg (StoredFlagRun.mk flags frames) hkept

theorem map_eq_self_iff {α : Type*} {f : α → α} {l : List α} : l.map f = l ↔ ∀ a ∈ l, f a = a := by
  induction l with
  | nil => exact iff_of_true rfl fun a ha => nomatch ha
  | cons a l ih => rw [List.map_cons, List.cons.injEq, ih, List.forall_mem_cons]

theorem decodeFlagRuns_encodeFlagRuns (l : Option (List FlagRun)) :
    decodeFlagRuns (encodeFlagRuns l) = .ok (l.map (List.map (ofStored ∘ toStored))) := by
  rw [decodeFlagRuns, encodeFlagRuns, decodeRecords_encodeRecords]
  cases l with
  | none => rfl
  | some l => simp only [Except.map, Option.map_some, List.map_map]

/-- **Flag runs come back** when their speeds do. -/
theorem decodeFlagRuns_encodeFlagRuns_iff (runs : List FlagRun) :
    decodeFlagRuns (encodeFlagRuns (some runs)) = .ok (some runs) ↔ ∀ r ∈ runs, SpeedKept r := by
  rw [decodeFlagRuns_encodeFlagRuns, Option.map_some, Except.ok.injEq, Option.some.injEq, map_eq_self_iff]
  exact forall₂_congr fun r _ => ofStored_toStored_iff

theorem shape_decodeFlagRuns (runs : List FlagRun) : ∃ read, decodeFlagRuns (encodeFlagRuns (some runs)) = .ok (some read)
    ∧ read.map FlagRun.shape = runs.map FlagRun.shape := by
  refine ⟨_, decodeFlagRuns_encodeFlagRuns (some runs), ?_⟩
  rw [List.map_map]
  rfl

theorem decodeFlagRuns_eq_ok {buf : Bytes} {runs : List FlagRun} (h : decodeFlagRuns (some buf) = .ok (some runs)) :
    ∃ stored, flagStride.decode buf = some stored ∧ runs = stored.map ofStored := by
  obtain ⟨l, hl, hmap⟩ := map_eq_ok.mp h
  rcases decodeRecords_eq_ok hl with ⟨hnone, -⟩ | ⟨bytes, stored, hbytes, rfl, hstored⟩
  · exact nomatch hnone
  · rw [Option.some.inj hbytes]
    exact ⟨stored, hstored, (Option.some.inj hmap).symm⟩

/-- **Bytes of flag runs come back** when those of their speeds do. -/
theorem encodeFlagRuns_decodeFlagRuns_iff {buf : Bytes} {runs : List FlagRun}
    (h : decodeFlagRuns (some buf) = .ok (some runs)) :
    encodeFlagRuns (some runs) = some buf ↔ ∃ stored, flagStride.encode stored = buf ∧ ∀ r ∈ stored, BitsKept r := by
  obtain ⟨stored, hstored, rfl⟩ := decodeFlagRuns_eq_ok h
  have hbuf := exact_flagStride.encode_decode hstored
  have hencode : encodeFlagRuns (some (stored.map ofStored)) = some (flagStride.encode (stored.map (toStored ∘ ofStored))) := by
    rw [encodeFlagRuns, Option.map_some, List.map_map]
    rfl
  have hall : stored.map (toStored ∘ ofStored) = stored ↔ ∀ r ∈ stored, BitsKept r := by
    rw [map_eq_self_iff]
    exact forall₂_congr fun r _ => toStored_ofStored_iff
  -- the records of a byte string are determined by it
  have hinj : ∀ l l' : List StoredFlagRun, flagStride.encode l = flagStride.encode l' → l = l' := fun l l' heq =>
    Option.some.inj ((flagStride.decode_encode l).symm.trans (heq ▸ flagStride.decode_encode l'))
  rw [hencode, Option.some.injEq]
  constructor
  · intro heq
    exact ⟨stored, hbuf, hall.mp (hinj _ _ (heq.trans hbuf.symm))⟩
  · rintro ⟨stored', hbuf', hkept⟩
    rw [hinj _ _ (hbuf'.trans hbuf.symm)] at hkept
    rw [hall.mpr hkept, hbuf]

theorem lengthChecked_flagRuns : LengthChecked "decode_flag_runs" 9 decodeFlagRuns where
  accepts buf heven := by
    obtain ⟨stored, hdecode, hlen⟩ := (lengthChecked_records "decode_flag_runs" flagStride).accepts buf heven
    refine ⟨stored.map ofStored, ?_, by rw [List.length_map]; exact hlen⟩
    rw [decodeFlagRuns, hdecode]
    rfl
  rejects buf hodd := by
    rw [decodeFlagRuns, (lengthChecked_records "decode_flag_runs" flagStride).rejects buf hodd]
    rfl

end FlagRuns

/-! ## The grace prefix comes back -/

theorem length_encodeSafetyGracePrefix (p : SafetyGracePrefix) : (encodeSafetyGracePrefix p).length = 201 := by
  rw [encodeSafetyGracePrefix, List.length_cons, bucketStride.length_encode, p.toList_length]
  rfl

theorem toList_decodeSafetyGracePrefix {buf : Bytes} (hlen : buf.length = 201) (hversion : buf.headD 0 = 1) :
    (decodeSafetyGracePrefix (some buf)).toList = bucketStride.readMany 5 buf.tail :=
  congrArg List.Vector.toList (if_neg (not_or.mpr ⟨not_not_intro hlen, not_not_intro hversion⟩))

theorem decodeSafetyGracePrefix_encode (p : SafetyGracePrefix) :
    decodeSafetyGracePrefix (some (encodeSafetyGracePrefix p)) = p := by
  have hlen := length_encodeSafetyGracePrefix p
  have hread := bucketStride.readMany_encode p.toList
  rw [p.toList_length] at hread
  exact Subtype.ext ((toList_decodeSafetyGracePrefix hlen rfl).trans hread)

/-- A blob of the right length and version is written as it was. -/
theorem encodeSafetyGracePrefix_decode {buf : Bytes} (hlen : buf.length = 201) (hversion : buf.headD 0 = 1) :
    encodeSafetyGracePrefix (decodeSafetyGracePrefix (some buf)) = buf := by
  rw [encodeSafetyGracePrefix, toList_decodeSafetyGracePrefix hlen hversion]
  cases buf with
  | nil => exact nomatch hlen
  | cons version buf =>
    obtain rfl : version = 1 := hversion
    exact congrArg (List.cons 1) (exact_bucketStride.encode_readMany (Nat.succ.inj hlen))

/-! ## All codecs -/

/-- **What is written is read, and what is read is written.** Points, samples, gear and autopilot runs come back both ways, and
bytes of another length are refused. Flag runs come back when their speeds do, as those of one decimal up to `2 ^ 22` tenths
do; their bytes, when those of the speeds do. A grace prefix of another length or version is none. -/
theorem codecs_inverse :
    (Inverse encodePoints decodePoints ∧ Inverse encodeF32s decodeF32s ∧ Inverse encodeGearRuns decodeGearRuns
        ∧ Inverse encodeApRuns decodeApRuns ∧ (∀ s, decodeU8s (encodeU8s s) = s) ∧ ∀ buf, encodeU8s (decodeU8s buf) = buf)
      ∧ (LengthChecked "decode_points" 16 decodePoints ∧ LengthChecked "decode_f32s" 4 decodeF32s
        ∧ LengthChecked "decode_gear_runs" 5 decodeGearRuns ∧ LengthChecked "decode_ap_runs" 5 decodeApRuns
        ∧ LengthChecked "decode_flag_runs" 9 decodeFlagRuns)
      ∧ (decodeFlagRuns (encodeFlagRuns none) = .ok none
        ∧ (∀ runs, decodeFlagRuns (encodeFlagRuns (some runs)) = .ok (some runs) ↔ ∀ r ∈ runs, SpeedKept r)
        ∧ (∀ runs, ∃ read, decodeFlagRuns (encodeFlagRuns (some runs)) = .ok (some read)
          ∧ read.map FlagRun.shape = runs.map FlagRun.shape)
        ∧ (∀ r : FlagRun, (r.maxMps = none ∨ ∃ negative k, k ≤ 2 ^ 22 ∧ r.maxMps = some (tenth negative k)) → SpeedKept r)
        ∧ ∀ buf runs, decodeFlagRuns (some buf) = .ok (some runs) →
          (encodeFlagRuns (some runs) = some buf ↔ ∃ stored, flagStride.encode stored = buf ∧ ∀ r ∈ stored, BitsKept r))
      ∧ (∀ p, decodeSafetyGracePrefix (some (encodeSafetyGracePrefix p)) = p)
      ∧ (∀ buf : Bytes, buf.length = 201 → buf.headD 0 = 1 →
        encodeSafetyGracePrefix (decodeSafetyGracePrefix (some buf)) = buf)
      ∧ ∀ buf : Bytes, buf.length ≠ 201 ∨ buf.headD 0 ≠ 1 → decodeSafetyGracePrefix (some buf) = emptyPrefix := by
  refine ⟨⟨inverse_records exact_pointStride, inverse_records exact_f32Stride, inverse_records exact_runStride,
      inverse_records exact_runStride, fun s => ?_, fun buf => ?_⟩,
    ⟨lengthChecked_records _ pointStride, lengthChecked_records _ f32Stride, lengthChecked_records _ runStride,
      lengthChecked_records _ runStride, lengthChecked_flagRuns⟩,
    ⟨rfl, decodeFlagRuns_encodeFlagRuns_iff, shape_decodeFlagRuns, ?_, fun _ _ => encodeFlagRuns_decodeFlagRuns_iff⟩,
    decodeSafetyGracePrefix_encode, fun _ => encodeSafetyGracePrefix_decode, fun buf hother => if_pos hother⟩
  · rw [decodeU8s, encodeU8s, Option.map_id', Option.map_id']
  · rw [decodeU8s, encodeU8s, Option.map_id', Option.map_id']
  rintro r (hnone | ⟨negative, k, hk, htenth⟩) m hm
  · rw [hnone] at hm
    exact nomatch hm
  · rw [htenth] at hm
    rw [← Option.some.inj hm]
    exact speed_asF32_tenth negative hk

/-- The 2.7 m/s of a summon comes back. -/
theorem codecs_inverse_summonSpeed : SpeedKept ⟨3, 123, some (tenth false 27)⟩ :=
  codecs_inverse.2.2.1.2.2.2.1 ⟨3, 123, some (tenth false 27)⟩ (.inr ⟨false, 27, by norm_num, rfl⟩)

/-- A speed of 0.04 m/s comes back as 0, and a blob with another not-a-number for no speed is not written back. -/
theorem not_codecs_inverse :
    (decodeFlagRuns (encodeFlagRuns (some [⟨0, 27, some 0x3FA47AE147AE147B⟩]))).toOption
        = some (some [⟨0, 27, some 0⟩])
      ∧ (decodeFlagRuns (some [0, 27, 0, 0, 0, 1, 0, 192, 127])).toOption = some (some [⟨0, 27, none⟩])
      ∧ encodeFlagRuns (some [⟨0, 27, none⟩]) ≠ some [0, 27, 0, 0, 0, 1, 0, 192, 127] := by
  refine ⟨by decide +kernel, by decide +kernel, by decide +kernel⟩

end SentryUsb.Store.Blob
