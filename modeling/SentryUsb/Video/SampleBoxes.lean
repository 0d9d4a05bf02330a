import SentryUsb.Video.SampleTables

/-! # What the boxes of a track say

The boxes and tables of a track, read without machine arithmetic. The reading functions answer exactly this.

* **`boxes`** — the boxes within a payload, one after another, up to the first that does not fit;
* **`tableOf`**, **`entry`** — the entries of a table;
* **`layoutOf`** — the tables that say where the samples lie;
* **`timingOf`** — those that say when they are shown. -/

namespace SentryUsb.Video.Mp4Samples

open Library

/-! ## Boxes -/

/-- The box at an offset, if it fits, and its end. -/
def boxHere (data : Bytes) (pos : Nat) : Option ((Bytes × Bytes) × Nat) :=
  (readBoxHeader data pos).bind fun h =>
    if h.headerSize ≤ h.size ∧ pos + h.size ≤ data.length then
      some ((h.kind, (data.drop (pos + h.headerSize)).take (h.size - h.headerSize)), pos + h.size)
    else none

/-- The boxes from an offset on. -/
def boxesFrom (data : Bytes) : Nat → Nat → List (Bytes × Bytes)
  | 0, _ => []
  | passes + 1, pos =>
    match boxHere data pos with
    | none => []
    | some (found, stop) => found :: boxesFrom data passes stop

/-- The boxes within a payload: type and payload. -/
def boxes (data : Bytes) : List (Bytes × Bytes) := boxesFrom data (data.length + 1) 0

/-- The first box of a type. -/
def box (data kind : Bytes) : Option Bytes := ((boxes data).find? fun b => decide (b.1 = kind)).map Prod.snd

variable {data : Bytes}

theorem slice_eq {a b : Nat} (h : a ≤ b) (hb : b ≤ data.length) :
    slice data a b = .ok ((data.drop a).take (b - a)) := if_pos ⟨h, hb⟩

theorem readExact_eq {pos n : Nat} (h : pos + n ≤ data.length) :
    readExact data pos n = some ((data.drop pos).take n) := if_pos h

theorem addUsize_eq {a b : Nat} (h : a + b < 2 ^ 64) : addUsize a b = .ok (a + b) := addBelow_eq h

theorem childSize_eq (hlen : data.length < 2 ^ 63) {pos : Nat} (hpos : pos + 8 ≤ data.length) (size : Nat) :
    childSize data pos size = .ok (if size = 1 then
        (readExact data (pos + 8) 8).map fun large => (fromBeBytes large, 16)
      else if size = 0 then some (data.length - pos, 8) else some (size, 8)) := by
  unfold childSize
  split
  · rw [addUsize_eq (show pos + 16 < 2 ^ 64 by omega)]
    show (if data.length < pos + 16 then _ else _) = _
    split
    · rw [readExact, if_neg (by omega)]
      rfl
    · rw [slice_eq (by omega) (by omega), readExact_eq (by omega), show pos + 16 - (pos + 8) = 8 by omega]
      rfl
  · split
    · rw [subNat_eq (by omega)]
      rfl
    · rfl

theorem fitChild_eq (hlen : data.length < 2 ^ 63) (pos : Nat) (kind : Bytes) (size header : Nat) :
    fitChild data pos kind size header = .ok (if header ≤ size ∧ pos + size ≤ data.length then
      some ((kind, (data.drop (pos + header)).take (size - header)), pos + size) else none) := by
  unfold fitChild
  split
  case isTrue h =>
    rw [addUsize_eq (show pos + header < 2 ^ 64 by omega)]
    show (slice data (pos + header) (pos + size) >>= _) = _
    rw [slice_eq (by omega) h.2, show pos + size - (pos + header) = size - header by omega]
    rfl
  case isFalse => rfl

/-- **The walk reads the box** that is there. -/
theorem nextChild_eq (hlen : data.length < 2 ^ 63) {pos : Nat} (hpos : pos ≤ data.length) :
    nextChild data pos = .ok (boxHere data pos) := by
  unfold nextChild boxHere readBoxHeader
  rw [addUsize_eq (show pos + 8 < 2 ^ 64 by omega)]
  show (if data.length < pos + 8 then _ else _) = _
  split
  case isTrue hshort =>
    rw [readExact, if_neg (by omega)]
    rfl
  case isFalse hshort =>
    have hheaded : pos + 8 ≤ data.length := by omega
    -- the word and the type are the halves of the eight bytes
    have hword : ((data.drop pos).take 8).take 4 = (data.drop pos).take 4 := by
      rw [List.take_take]
      rfl
    have hkind : ((data.drop pos).take 8).drop 4 = (data.drop (pos + 4)).take 4 := by
      rw [List.drop_take, List.drop_drop]
    rw [slice_eq (by omega) (by omega), slice_eq (by omega) hheaded, readExact_eq hheaded, Option.bind_some, hword, hkind,
      show pos + 4 - pos = 4 by omega, show pos + 8 - (pos + 4) = 4 by omega]
    show (childSize data pos _ >>= _) = _
    rw [childSize_eq hlen hheaded]
    generalize fromBeBytes ((data.drop pos).take 4) = word
    generalize (data.drop (pos + 4)).take 4 = kind
    by_cases hlarge : word = 1
    · rw [if_pos hlarge, if_pos hlarge]
      cases readExact data (pos + 8) 8 with
      | none => rfl
      | some large => exact fitChild_eq hlen pos kind (fromBeBytes large) 16
    · rw [if_neg hlarge, if_neg hlarge]
      by_cases hrest : word = 0
      · rw [if_pos hrest, if_pos hrest]
        exact fitChild_eq hlen pos kind (data.length - pos) 8
      · rw [if_neg hrest, if_neg hrest]
        exact fitChild_eq hlen pos kind word 8

/-- A box that fits takes its header at least. -/
theorem boxHere_spec {pos stop : Nat} {found : Bytes × Bytes} (h : boxHere data pos = some (found, stop)) :
    pos + 8 ≤ stop ∧ stop ≤ data.length ∧ found.2.length ≤ data.length := by
  obtain ⟨header, hheader, hfits⟩ := Option.bind_eq_some_iff.mp h
  obtain ⟨⟨hsize, hstop⟩, hfound⟩ := Option.ite_none_right_eq_some.mp hfits
  obtain ⟨rfl, rfl⟩ := Prod.mk.inj (Option.some.inj hfound)
  have hheaded : 8 ≤ header.headerSize := by
    unfold readBoxHeader at hheader
    obtain ⟨word, -, hword⟩ := Option.bind_eq_some_iff.mp hheader
    simp only at hword
    split at hword
    · obtain ⟨large, -, rfl⟩ := Option.map_eq_some_iff.mp hword
      exact Nat.le_of_ble_eq_true rfl
    · split at hword
      all_goals
        rw [← Option.some.inj hword]
  refine ⟨by omega, hstop, ?_⟩
  show ((data.drop _).take _).length ≤ _
  rw [List.length_take, List.length_drop]
  omega

theorem childrenFrom_eq (hlen : data.length < 2 ^ 63) {pos : Nat} (hpos : pos ≤ data.length) (passes : Nat) :
    childrenFrom data passes pos = .ok (boxesFrom data passes pos) := by
  induction passes generalizing pos with
  | zero => rfl
  | succ passes ih =>
    rw [childrenFrom, nextChild_eq hlen hpos, boxesFrom]
    cases hbox : boxHere data pos with
    | none => rfl
    | some b =>
      obtain ⟨found, stop⟩ := b
      show (childrenFrom data passes stop >>= _) = _
      rw [ih (boxHere_spec hbox).2.1]
      rfl

theorem children_eq (hlen : data.length < 2 ^ 63) : children data = .ok (boxes data) :=
  childrenFrom_eq hlen (Nat.zero_le _) _

theorem child_eq (hlen : data.length < 2 ^ 63) (kind : Bytes) : child data kind = .ok (box data kind) := by
  rw [child, children_eq hlen]
  rfl

theorem length_of_mem_boxesFrom {passes pos : Nat} {b : Bytes × Bytes} (h : b ∈ boxesFrom data passes pos) :
    b.2.length ≤ data.length := by
  induction passes generalizing pos with
  | zero => exact absurd h List.not_mem_nil
  | succ passes ih =>
    rw [boxesFrom] at h
    cases hbox : boxHere data pos with
    | none =>
      rw [hbox] at h
      exact absurd h List.not_mem_nil
    | some found =>
      rw [hbox] at h
      rcases List.mem_cons.mp h with rfl | h
      · exact (boxHere_spec hbox).2.2
      · exact ih h

theorem length_of_box {kind body : Bytes} (h : box data kind = some body) : body.length ≤ data.length := by
  obtain ⟨b, hb, rfl⟩ := Option.map_eq_some_iff.mp h
  exact length_of_mem_boxesFrom (List.mem_of_find?_eq_some hb)

/-! ## Tables -/

/-- A number of `n` bytes, where there are as many. -/
def uint (n : Nat) (data : Bytes) (pos : Nat) : Option Nat := (readExact data pos n).map fromBeBytes

/-- Version and number of entries of a table that has room for its entries. -/
def tableOf (data : Bytes) (entrySize : Nat) : Option (UInt8 × Nat) :=
  data.head?.bind fun version =>
    (uint 4 data 4).bind fun count =>
      if 8 + count * entrySize ≤ data.length then some (version, count) else none

/-- A number of `n` bytes within an entry. -/
def entry (n : Nat) (data : Bytes) (entrySize i off : Nat) : Nat :=
  fromBeBytes ((data.drop (8 + i * entrySize + off)).take n)

theorem uint_lt {n pos v : Nat} (h : uint n data pos = some v) : v < 256 ^ n := by
  obtain ⟨bytes, hbytes, rfl⟩ := Option.map_eq_some_iff.mp h
  rw [← (length_of_readExact hbytes).1]
  exact fromBeBytes_lt bytes

theorem answers_beUint {n pos : Nat} (h : pos + n < 2 ^ 64) : Answers (beUint n data pos) (uint n data pos) := by
  rw [beUint, addUsize_eq h]
  exact answers_context _ _

theorem tableOf_eq_some {entrySize count : Nat} {version : UInt8} (h : tableOf data entrySize = some (version, count)) :
    data.head? = some version ∧ uint 4 data 4 = some count ∧ 8 + count * entrySize ≤ data.length := by
  obtain ⟨v, hv, h⟩ := Option.bind_eq_some_iff.mp h
  obtain ⟨n, hn, h⟩ := Option.bind_eq_some_iff.mp h
  obtain ⟨hroom, h⟩ := Option.ite_none_right_eq_some.mp h
  obtain ⟨rfl, rfl⟩ := Prod.mk.inj (Option.some.inj h)
  exact ⟨hv, hn, hroom⟩

/-- **The table is read** where it fits, and refused otherwise. -/
theorem answers_table {entrySize : Nat} (hsize : entrySize ≤ 20) :
    Answers (table data entrySize) ((tableOf data entrySize).map fun t => (t.1, t.2, 8)) := by
  have hbind : (tableOf data entrySize).map (fun t => (t.1, t.2, 8))
      = data.head?.bind fun version => (uint 4 data 4).bind fun count =>
          if data.length < 8 + count * entrySize then none else some (version, count, 8) := by
    rw [tableOf, Option.map_bind]
    refine congrArg _ (funext fun version => ?_)
    show Option.map _ _ = _
    rw [Option.map_bind]
    refine congrArg _ (funext fun count => ?_)
    show Option.map _ (if _ then _ else _) = _
    by_cases hroom : 8 + count * entrySize ≤ data.length
    · rw [if_pos hroom, if_neg (by omega)]
      rfl
    · rw [if_neg hroom, if_pos (by omega)]
      rfl
  rw [hbind]
  refine (answers_context _ _).bind fun version _ => (answers_beUint (by omega)).bind fun count hcount => ?_
  -- a count of 32 bits
  have hcount : count < 2 ^ 32 := uint_lt hcount
  have hbytes : count * entrySize ≤ 2 ^ 32 * 20 := Nat.mul_le_mul hcount.le hsize
  show Answers (if 2 ^ 64 ≤ count * entrySize then _ else _) _
  rw [if_neg (by omega), addUsize_eq (show 8 + count * entrySize < 2 ^ 64 by omega)]
  exact Answers.unless _ fun _ => .value _

section Entries

variable {entrySize count : Nat} {version : UInt8} (ht : tableOf data entrySize = some (version, count))

include ht

theorem count_lt : count < 2 ^ 32 := uint_lt (tableOf_eq_some ht).2.1

theorem entry_bound (hsize : entrySize ≤ 20) {i : Nat} (hi : i < count) :
    8 + i * entrySize + entrySize ≤ data.length ∧ 8 + i * entrySize + entrySize < 2 ^ 64 := by
  have hlt := count_lt ht
  have hroom := (tableOf_eq_some ht).2.2
  have hnext : i * entrySize + entrySize ≤ count * entrySize := by
    rw [← Nat.succ_mul]
    exact Nat.mul_le_mul_right entrySize hi
  have hbytes : count * entrySize ≤ 2 ^ 32 * 20 := Nat.mul_le_mul hlt.le hsize
  omega

theorem entryAt_eq (hsize : entrySize ≤ 20) {i : Nat} (hi : i < count) :
    entryAt 8 i entrySize = .ok (8 + i * entrySize) := by
  have hbound := entry_bound ht hsize hi
  rw [entryAt, mulUsize, mulBelow_eq (show i * entrySize < 2 ^ 64 by omega)]
  exact addUsize_eq (by omega)

/-- **A number within an entry is read.** -/
theorem beUint_entry (hsize : entrySize ≤ 20) {n i off : Nat} (hi : i < count) (hoff : off + n ≤ entrySize) :
    beUint n data (8 + i * entrySize + off) = .ok (entry n data entrySize i off) := by
  have hbound := entry_bound ht hsize hi
  refine (answers_beUint (by omega)).ok_iff.mpr ?_
  rw [uint, readExact_eq (by omega)]
  rfl

end Entries

/-! ## When the samples are shown -/

/-- A run of a timing table: the value, and how often it stands. -/
def timingRun (data : Bytes) (signed : Bool) (version : UInt8) (i : Nat) : Int × Nat :=
  (if signed = true ∧ version = 1 then (entry 4 data 8 i 4 : Int).bmod (2 ^ 32) else entry 4 data 8 i 4, entry 4 data 8 i 0)

/-- The runs of a timing table, expanded. -/
def expandedOf (data : Bytes) (signed : Bool) : Option (List Int) :=
  (tableOf data 8).map fun t => Library.expandRuns ((List.range t.2).map (timingRun data signed t.1))

/-- One value for each of the samples. -/
def valuesOf (data : Bytes) (samples : Nat) (signed : Bool) : Option (List Int) :=
  (expandedOf data signed).bind fun values => if values.length = samples then some values else none

theorem expandRun_answers {count samples : Nat} {version : UInt8} {signed : Bool}
    (ht : tableOf data 8 = some (version, count)) {out : List Int} (hout : out.length ≤ samples) {i : Nat}
    (hi : i < count) :
    Answers (expandRun data samples signed version 8 out i) (appendRun samples out (timingRun data signed version i)) := by
  have hbound := entry_bound ht (by omega) hi
  have htimes := beUint_entry ht (by omega) hi (show 0 + 4 ≤ 8 by omega)
  have hraw := beUint_entry ht (by omega) hi (show 4 + 4 ≤ 8 by omega)
  unfold expandRun
  rw [entryAt_eq ht (by omega) hi]
  show Answers (beUint 4 data (8 + i * 8 + 0) >>= _) _
  rw [htimes]
  show Answers (addUsize (8 + i * 8) 4 >>= _) _
  rw [addUsize_eq (by omega)]
  show Answers (beUint 4 data (8 + i * 8 + 4) >>= _) _
  rw [hraw]
  show Answers (subNat samples out.length >>= _) _
  rw [subNat_eq hout]
  exact Answers.unless _ fun _ => .value _

/-- **The timing tables are expanded** to one value for each sample, and refused otherwise. -/
theorem expandRuns_answers (samples : Nat) (signed : Bool) :
    Answers (expandRuns data samples signed) (valuesOf data samples signed) := by
  have hbind : valuesOf data samples signed = ((tableOf data 8).map fun t => (t.1, t.2, 8)).bind fun t =>
      ((List.range t.2.1).foldlM (fun out i => appendRun samples out (timingRun data signed t.1 i)) []).bind fun out =>
        if out.length ≠ samples then none else some out := by
    rw [valuesOf, expandedOf, Option.bind_map, Option.bind_map]
    refine congrArg _ (funext fun t => ?_)
    show (if (Library.expandRuns ((List.range t.2).map (timingRun data signed t.1))).length = samples then
        some (Library.expandRuns ((List.range t.2).map (timingRun data signed t.1))) else none)
      = Option.bind ((List.range t.2).foldlM _ []) _
    rw [← List.foldlM_map, foldlM_appendRun (Nat.zero_le _), List.length_nil, Nat.zero_add, List.nil_append]
    generalize Library.expandRuns ((List.range t.2).map (timingRun data signed t.1)) = values
    by_cases hroom : values.length ≤ samples
    · rw [if_pos hroom, Option.bind_some]
      by_cases heq : values.length = samples
      · rw [if_pos heq, if_neg (not_not_intro heq)]
      · rw [if_neg heq, if_pos heq]
    · rw [if_neg hroom, if_neg (by omega)]
      rfl
  rw [hbind]
  refine (answers_table (by omega)).bind fun t ht => ?_
  obtain ⟨⟨version, count⟩, htable, rfl⟩ := Option.map_eq_some_iff.mp ht
  refine Answers.bind (Answers.foldlM (I := fun out => out.length ≤ samples) (fun out hout i hi => ?_) (Nat.zero_le _))
    fun out _ => Answers.unless _ fun _ => .value _
  exact ⟨expandRun_answers htable hout (List.mem_range.mp hi), fun next hnext => length_of_appendRun hout hnext⟩

/-- The media time of an edit. -/
def editTime (elst : Bytes) (version : UInt8) (i : Nat) : Int :=
  if version = 1 then (entry 8 elst 20 i 8 : Int).bmod (2 ^ 64) else (entry 4 elst 12 i 4 : Int).bmod (2 ^ 32)

/-- The size of an edit. -/
def editSize (version : UInt8) : Nat := if version = 1 then 20 else 12

theorem editSize_le (version : UInt8) : editSize version ≤ 20 := by
  unfold editSize
  split
  · exact le_rfl
  · omega

/-- The time of the first edit that is not empty, zero without one. -/
def startOf (trak : Bytes) : Option Int :=
  match (box trak Kind.edts).bind fun edts => box edts Kind.elst with
  | none => some 0
  | some elst => elst.head?.bind fun version => (tableOf elst (editSize version)).map fun t =>
    (((List.range t.2).map (editTime elst version)).find? fun time => decide (0 ≤ time)).getD 0

theorem mediaTime_eq {count : Nat} {version : UInt8} (ht : tableOf data (editSize version) = some (version, count))
    {i : Nat} (hi : i < count) :
    mediaTime data version (8 + i * editSize version) = .ok (editTime data version i) := by
  have hsize := editSize_le version
  have hbound := entry_bound ht hsize hi
  unfold mediaTime editTime
  split
  case isTrue hone =>
    have hentry : editSize version = 20 := if_pos hone
    rw [hentry] at ht hbound ⊢
    rw [addUsize_eq (by omega)]
    show (beU64 data (8 + i * 20 + 8) >>= _) = _
    rw [beU64, beUint_entry ht (by omega) hi (by omega)]
    rfl
  case isFalse hone =>
    have hentry : editSize version = 12 := if_neg hone
    rw [hentry] at ht hbound ⊢
    rw [addUsize_eq (by omega)]
    show (beU32 data (8 + i * 12 + 4) >>= _) = _
    rw [beU32, beUint_entry ht (by omega) hi (by omega)]
    rfl

theorem firstEdit_eq {count : Nat} {version : UInt8} (ht : tableOf data (editSize version) = some (version, count))
    {l : List Nat} (hl : ∀ i ∈ l, i < count) :
    firstEdit data version 8 (editSize version) l
      = .ok (((l.map (editTime data version)).find? fun time => decide (0 ≤ time)).getD 0) := by
  have hsize := editSize_le version
  induction l with
  | nil => rfl
  | cons i l ih =>
    have hi := hl i List.mem_cons_self
    rw [firstEdit, entryAt_eq ht hsize hi]
    show (mediaTime data version _ >>= _) = _
    rw [mediaTime_eq ht hi]
    show (if 0 ≤ editTime data version i then _ else _) = _
    rw [List.map_cons, List.find?_cons]
    by_cases hpos : 0 ≤ editTime data version i
    · rw [if_pos hpos, decide_eq_true hpos]
      rfl
    · rw [if_neg hpos, decide_eq_false hpos]
      exact ih fun j hj => hl j (List.mem_cons_of_mem i hj)

/-- **The start of the presentation** is the first edit that is not empty. -/
theorem editStart_answers {trak : Bytes} (hlen : trak.length < 2 ^ 63) : Answers (editStart trak) (startOf trak) := by
  unfold editStart startOf
  rw [child_eq hlen]
  show Answers (match box trak Kind.edts with | none => _ | some edts => _) _
  cases hedts : box trak Kind.edts with
  | none => exact .value 0
  | some edts =>
    show Answers (child edts Kind.elst >>= _) _
    rw [child_eq (lt_of_le_of_lt (length_of_box hedts) hlen), Option.bind_some]
    show Answers (match box edts Kind.elst with | none => _ | some elst => _) _
    cases helst : box edts Kind.elst with
    | none => exact .value 0
    | some elst =>
      refine (answers_context _ _).bind fun version hversion => ?_
      have hmap : ∀ f : Nat → Int, (tableOf elst (editSize version)).map (fun t => f t.2)
          = ((tableOf elst (editSize version)).map fun t => (t.1, t.2, 8)).bind fun t => some (f t.2.1) := by
        intro f
        cases tableOf elst (editSize version) with
        | none => rfl
        | some t => rfl
      rw [hmap fun count => (((List.range count).map (editTime elst version)).find? fun time => decide (0 ≤ time)).getD 0]
      refine Answers.bind (answers_table ?_) fun t ht => ?_
      · exact editSize_le version
      · obtain ⟨⟨v, count⟩, htable, rfl⟩ := Option.map_eq_some_iff.mp ht
        obtain rfl : v = version := Option.some.inj ((tableOf_eq_some htable).1.symm.trans hversion)
        exact .of_eq (firstEdit_eq htable fun i hi => List.mem_range.mp hi)

/-! ## Where the samples lie -/

/-- The one table of chunk offsets. -/
def chunkOffsetsOf (stbl : Bytes) : Option ChunkOffsets :=
  match box stbl Kind.stco, box stbl Kind.co64 with
  | some stco, none => (tableOf stco 4).map fun t => ⟨t.2, 4, stco⟩
  | none, some co64 => (tableOf co64 8).map fun t => ⟨t.2, 8, co64⟩
  | _, _ => none

/-- Runs of chunks in order, from the first chunk or a later one on. -/
def RunsOrdered (runs : List (Nat × Nat)) : Prop := (∀ r ∈ runs, r.1 ≠ 0) ∧ runs.Pairwise fun a b => a.1 < b.1

instance (runs : List (Nat × Nat)) : Decidable (RunsOrdered runs) := inferInstanceAs (Decidable (_ ∧ _))

/-- A run of chunks: the first chunk, and the samples of each. -/
def chunkRun (stsc : Bytes) (i : Nat) : Nat × Nat := (entry 4 stsc 12 i 0, entry 4 stsc 12 i 4)

/-- The runs of chunks. -/
def perChunkOf (stbl : Bytes) : Option (List (Nat × Nat)) :=
  (box stbl Kind.stsc).bind fun stsc => (tableOf stsc 12).bind fun t =>
    if RunsOrdered ((List.range t.2).map (chunkRun stsc)) then some ((List.range t.2).map (chunkRun stsc)) else none

/-- The tables that say where the samples lie. -/
def layoutOf (mdia : Bytes) : Option LayoutTables :=
  (box mdia Kind.mdhd).bind fun mdhd =>
    (uint 4 mdhd (if mdhd.head? = some 1 then 20 else 12)).bind fun timescale =>
      if timescale = 0 then none
      else ((box mdia Kind.minf).bind fun minf => box minf Kind.stbl).bind fun stbl =>
        (box stbl Kind.stsz).bind fun stsz =>
          (uint 4 stsz 4).bind fun fixed => (uint 4 stsz 8).bind fun samples =>
            (chunkOffsetsOf stbl).bind fun chunks => (perChunkOf stbl).bind fun perChunk =>
              some ⟨timescale, stbl, stsz, fixed, samples, chunks, perChunk⟩

/-- The offset of a chunk. -/
def offsetOf (t : ChunkOffsets) (c : Nat) : Nat := if t.stride = 8 then entry 8 t.co 8 c 0 else entry 4 t.co 4 c 0

/-- The sizes that are listed, of as many of the samples as there are. -/
def sizesOf (t : LayoutTables) : List Nat :=
  if t.fixed ≠ 0 then List.replicate t.samples t.fixed
  else (List.range (min t.samples ((t.stsz.length - 12) / 4))).map fun i => fromBeBytes ((t.stsz.drop (12 + i * 4)).take 4)

theorem chunkOffsets_answers {stbl : Bytes} (hlen : stbl.length < 2 ^ 63) :
    Answers (chunkOffsets stbl) (chunkOffsetsOf stbl) := by
  have hmap : ∀ (co : Bytes) (size stride : Nat), size ≤ 20 →
      Answers (table co size >>= fun t => (pure ⟨t.2.1, stride, co⟩ : Checked ChunkOffsets))
        ((tableOf co size).map fun t => ⟨t.2, stride, co⟩) := by
    intro co size stride hsize
    have hbind : (tableOf co size).map (fun t => (⟨t.2, stride, co⟩ : ChunkOffsets))
        = ((tableOf co size).map fun t => (t.1, t.2, 8)).bind fun t => some ⟨t.2.1, stride, co⟩ := by
      cases tableOf co size with
      | none => rfl
      | some t => rfl
    rw [hbind]
    exact (answers_table hsize).bind fun t _ => .value _
  unfold chunkOffsets chunkOffsetsOf
  rw [child_eq hlen, child_eq hlen]
  show Answers (match box stbl Kind.stco, box stbl Kind.co64 with
    | some stco, none => _ | none, some co64 => _ | _, _ => _) _
  cases box stbl Kind.stco with
  | none =>
    cases box stbl Kind.co64 with
    | none => exact .failed _
    | some co64 => exact hmap co64 8 8 (by omega)
  | some stco =>
    cases box stbl Kind.co64 with
    | none => exact hmap stco 4 4 (by omega)
    | some co64 => exact .failed _

/-- **The offset of every chunk is read.** -/
theorem chunkOffset_eq {stbl : Bytes} {t : ChunkOffsets} (h : chunkOffsetsOf stbl = some t) {c : Nat} (hc : c < t.count) :
    chunkOffset t c = .ok (offsetOf t c) := by
  unfold chunkOffsetsOf at h
  split at h
  · obtain ⟨⟨version, count⟩, ht, rfl⟩ := Option.map_eq_some_iff.mp h
    rename_i stco _ _
    show (entryAt 8 c 4 >>= fun pos => beU32 stco pos) = _
    rw [entryAt_eq ht (by omega) hc]
    exact beUint_entry ht (by omega) hc (show 0 + 4 ≤ 4 by omega)
  · obtain ⟨⟨version, count⟩, ht, rfl⟩ := Option.map_eq_some_iff.mp h
    rename_i co64 _ _
    show (entryAt 8 c 8 >>= fun pos => beU64 co64 pos) = _
    rw [entryAt_eq ht (by omega) hc]
    exact beUint_entry ht (by omega) hc (show 0 + 8 ≤ 8 by omega)
  · exact nomatch h

/-- **The listed sizes are read.** -/
theorem sampleSize_answers {t : LayoutTables} (hsamples : t.samples < 2 ^ 32) {i : Nat} (hi : i < t.samples) :
    Answers (sampleSize t i) (sizesOf t)[i]? := by
  unfold sampleSize sizesOf
  by_cases hfixed : t.fixed ≠ 0
  · rw [if_pos hfixed, if_pos hfixed, List.getElem?_replicate, if_pos hi]
    exact .value _
  · rw [if_neg hfixed, if_neg hfixed, List.getElem?_map]
    show Answers (entryAt 12 i 4 >>= _) _
    rw [entryAt, mulUsize, mulBelow_eq (show i * 4 < 2 ^ 64 by omega)]
    show Answers (addUsize 12 (i * 4) >>= _) _
    rw [addUsize_eq (show 12 + i * 4 < 2 ^ 64 by omega)]
    have hread : uint 4 t.stsz (12 + i * 4)
        = (List.range (min t.samples ((t.stsz.length - 12) / 4)))[i]?.map fun i =>
            fromBeBytes ((t.stsz.drop (12 + i * 4)).take 4) := by
      rw [uint, readExact]
      by_cases hroom : 12 + i * 4 + 4 ≤ t.stsz.length
      · rw [if_pos hroom, List.getElem?_range (by omega)]
        rfl
      · rw [if_neg hroom, List.getElem?_eq_none (by rw [List.length_range]; omega)]
        rfl
    rw [← hread]
    exact answers_beUint (by omega)

theorem length_sizesOf_le (t : LayoutTables) : (sizesOf t).length ≤ t.samples := by
  unfold sizesOf
  split
  · rw [List.length_replicate]
  · rw [List.length_map, List.length_range]
    exact min_le_left _ _

/-- One run more, unless it is out of order. -/
def pushOrdered (runs : List (Nat × Nat)) (r : Nat × Nat) : Option (List (Nat × Nat)) :=
  if r.1 = 0 ∨ runs.getLast?.any (fun run => decide (r.1 ≤ run.1)) = true then none else some (runs ++ [r])

theorem runsOrdered_concat {runs : List (Nat × Nat)} (h : RunsOrdered runs) (r : Nat × Nat) :
    RunsOrdered (runs ++ [r]) ↔ ¬ (r.1 = 0 ∨ runs.getLast?.any (fun run => decide (r.1 ≤ run.1)) = true) := by
  have hlast : runs.getLast?.any (fun run => decide (r.1 ≤ run.1)) = true ↔ ∃ run ∈ runs, r.1 ≤ run.1 := by
    constructor
    · intro hany
      obtain ⟨run, hrun, hle⟩ := (Option.any_eq_true _ _).mp hany
      exact ⟨run, List.mem_of_getLast? hrun, of_decide_eq_true hle⟩
    · rintro ⟨run, hrun, hle⟩
      -- the last run is the latest
      obtain ⟨front, last, rfl⟩ := (List.eq_nil_or_concat runs).resolve_left (List.ne_nil_of_mem hrun)
      rw [List.concat_eq_append] at h hrun ⊢
      rw [List.getLast?_concat, Option.any_some, decide_eq_true_eq]
      rcases List.mem_append.mp hrun with hrun | hrun
      · have := (List.pairwise_append.mp h.2).2.2 run hrun last List.mem_cons_self
        omega
      · rwa [← List.mem_singleton.mp hrun]
  rw [hlast]
  constructor
  · rintro ⟨hpos, hinc⟩ (hzero | ⟨run, hrun, hle⟩)
    · exact hpos r (by simp) hzero
    · have := (List.pairwise_append.mp hinc).2.2 run hrun r List.mem_cons_self
      omega
  · intro hok
    refine ⟨fun run hrun => ?_, List.pairwise_append.mpr ⟨h.2, List.pairwise_singleton _ _, fun run hrun x hx => ?_⟩⟩
    · rcases List.mem_append.mp hrun with hrun | hrun
      · exact h.1 run hrun
      · rw [List.mem_singleton.mp hrun]
        exact fun hzero => hok (.inl hzero)
    · rw [List.mem_singleton.mp hx]
      exact Nat.lt_of_not_le fun hle => hok (.inr ⟨run, hrun, hle⟩)

/-- **Runs are taken one by one** while they are in order. -/
theorem foldlM_pushOrdered {runs : List (Nat × Nat)} (h : RunsOrdered runs) (l : List (Nat × Nat)) :
    l.foldlM pushOrdered runs = if RunsOrdered (runs ++ l) then some (runs ++ l) else none := by
  induction l generalizing runs with
  | nil => rw [List.append_nil, if_pos h, List.foldlM_nil, Option.pure_def]
  | cons r l ih =>
    rw [List.foldlM_cons, pushOrdered, show runs ++ r :: l = runs ++ [r] ++ l by simp]
    by_cases hok : RunsOrdered (runs ++ [r])
    · rw [if_neg ((runsOrdered_concat h r).mp hok)]
      exact ih hok
    · rw [if_pos (by_contra fun hbad => hok ((runsOrdered_concat h r).mpr hbad)), if_neg]
      · rfl
      · exact fun hall => hok ⟨fun x hx => hall.1 x (List.mem_append_left l hx), (List.pairwise_append.mp hall.2).1⟩

theorem samplesPerChunk_answers {stbl : Bytes} (hlen : stbl.length < 2 ^ 63) :
    Answers (samplesPerChunk stbl) (perChunkOf stbl) := by
  have hbind : perChunkOf stbl = (box stbl Kind.stsc).bind fun stsc =>
      ((tableOf stsc 12).map fun t => (t.1, t.2, 8)).bind fun t =>
        (List.range t.2.1).foldlM (fun runs i => pushOrdered runs (chunkRun stsc i)) [] := by
    refine congrArg _ (funext fun stsc => ?_)
    rw [Option.bind_map]
    refine congrArg _ (funext fun t => ?_)
    show _ = (List.range t.2).foldlM _ []
    rw [← List.foldlM_map, foldlM_pushOrdered ⟨fun _ h => absurd h List.not_mem_nil, List.Pairwise.nil⟩, List.nil_append]
  rw [hbind]
  unfold samplesPerChunk
  rw [child_eq hlen]
  refine (answers_context _ _).bind fun stsc _ => (answers_table (by omega)).bind fun t ht => ?_
  obtain ⟨⟨version, count⟩, htable, rfl⟩ := Option.map_eq_some_iff.mp ht
  refine Answers.foldlM (I := fun _ => True) (fun runs _ i hi => ⟨?_, fun _ _ => trivial⟩) trivial
  have hi : i < count := List.mem_range.mp hi
  have hbound := entry_bound htable (by omega) hi
  have hfirst := beUint_entry htable (by omega) hi (show 0 + 4 ≤ 12 by omega)
  have hcount := beUint_entry htable (by omega) hi (show 4 + 4 ≤ 12 by omega)
  unfold pushRun
  rw [entryAt_eq htable (by omega) hi]
  show Answers (beUint 4 stsc (8 + i * 12 + 0) >>= _) _
  rw [hfirst]
  show Answers (addUsize (8 + i * 12) 4 >>= _) _
  rw [addUsize_eq (by omega)]
  show Answers (beUint 4 stsc (8 + i * 12 + 4) >>= _) _
  rw [hcount]
  exact Answers.unless _ fun _ => .value _

theorem length_of_layoutOf {mdia : Bytes} {t : LayoutTables} (h : layoutOf mdia = some t) :
    t.stbl.length ≤ mdia.length ∧ t.samples < 2 ^ 32 ∧ chunkOffsetsOf t.stbl = some t.chunks
      ∧ perChunkOf t.stbl = some t.perChunk ∧ t.timescale ≠ 0 := by
  obtain ⟨mdhd, -, h⟩ := Option.bind_eq_some_iff.mp h
  obtain ⟨timescale, -, h⟩ := Option.bind_eq_some_iff.mp h
  obtain ⟨hscale, h⟩ := Option.ite_none_left_eq_some.mp h
  obtain ⟨stbl, hstbl, h⟩ := Option.bind_eq_some_iff.mp h
  obtain ⟨minf, hminf, hstbl⟩ := Option.bind_eq_some_iff.mp hstbl
  obtain ⟨stsz, -, h⟩ := Option.bind_eq_some_iff.mp h
  obtain ⟨fixed, -, h⟩ := Option.bind_eq_some_iff.mp h
  obtain ⟨samples, hsamples, h⟩ := Option.bind_eq_some_iff.mp h
  obtain ⟨chunks, hchunks, h⟩ := Option.bind_eq_some_iff.mp h
  obtain ⟨perChunk, hperChunk, h⟩ := Option.bind_eq_some_iff.mp h
  rw [← Option.some.inj h]
  exact ⟨(length_of_box hstbl).trans (length_of_box hminf), uint_lt hsamples, hchunks, hperChunk, hscale⟩

/-- **The tables are read** as the boxes say. -/
theorem readLayout_answers {mdia : Bytes} (hlen : mdia.length < 2 ^ 63) :
    Answers (readLayout mdia) (layoutOf mdia) := by
  unfold readLayout layoutOf
  rw [child_eq hlen, child_eq hlen]
  refine (answers_context _ _).bind fun mdhd _ => (answers_beUint ?_).bind fun timescale _ => Answers.unless _ fun _ => ?_
  · split
    · omega
    · omega
  have hstbl : (box mdia Kind.minf).elim (pure none) (fun minf => child minf Kind.stbl)
      = .ok ((box mdia Kind.minf).bind fun minf => box minf Kind.stbl) := by
    cases hminf : box mdia Kind.minf with
    | none => rfl
    | some minf => exact child_eq (lt_of_le_of_lt (length_of_box hminf) hlen) _
  show Answers ((box mdia Kind.minf).elim _ _ >>= _) _
  rw [hstbl]
  refine (answers_context _ _).bind fun stbl hstbl => ?_
  obtain ⟨minf, hminf, hbox⟩ := Option.bind_eq_some_iff.mp hstbl
  have hshort : stbl.length < 2 ^ 63 := lt_of_le_of_lt ((length_of_box hbox).trans (length_of_box hminf)) hlen
  rw [child_eq hshort]
  refine (answers_context _ _).bind fun stsz _ => (answers_beUint (by omega)).bind fun fixed _ =>
    (answers_beUint (by omega)).bind fun samples _ => (chunkOffsets_answers hshort).bind fun chunks _ =>
      (samplesPerChunk_answers hshort).bind fun perChunk _ => .value _

end SentryUsb.Video.Mp4Samples
