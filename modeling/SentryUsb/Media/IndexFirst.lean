import SentryUsb.Library.BoxTree

/-! # Serving a clip with its index first

The recorder writes the index of a clip behind the video. The server moves it behind the first box, with its chunk offsets
shifted by its own size, and streams the rest from disk (`teslacam_media.rs`).

* **`readLayout`** — which clips are served so, and the shifted index;
* **`virtualBytes`** — the bytes of a range;
* **`Preserved`** — the clip is the same one;
* **`preserved_iff`** — it is when the size of its index is written in the index. -/

namespace SentryUsb.Media.IndexFirst

open Library

/-- The bytes of a file. -/
abbrev Bytes := List UInt8

/-! ## Kinds of boxes -/

def ftyp : Bytes := [0x66, 0x74, 0x79, 0x70]

def mdat : Bytes := [0x6D, 0x64, 0x61, 0x74]

def moov : Bytes := [0x6D, 0x6F, 0x6F, 0x76]

def trak : Bytes := [0x74, 0x72, 0x61, 0x6B]

def mdia : Bytes := [0x6D, 0x64, 0x69, 0x61]

def minf : Bytes := [0x6D, 0x69, 0x6E, 0x66]

def stbl : Bytes := [0x73, 0x74, 0x62, 0x6C]

def stco : Bytes := [0x73, 0x74, 0x63, 0x6F]

def co64 : Bytes := [0x63, 0x6F, 0x36, 0x34]

/-- Boxes on the path from the index to the chunk offset tables. -/
def containers : List Bytes := [moov, trak, mdia, minf, stbl]

def isContainer (kind : Bytes) : Bool := decide (kind ∈ containers)

/-! ## The layout of a clip -/

/-- Largest index that is shifted in memory. -/
def maxMoovBytes : ℕ := 4 * 1024 * 1024

def maxTopLevelBoxes : ℕ := 16

structure TopBox where
  kind : Bytes
  offset : ℕ
  size : ℕ
  deriving DecidableEq

/-- The top-level boxes from an offset on, when there are no more than so many. -/
def topLevel (content : Bytes) : ℕ → ℕ → Option (List TopBox)
  | 0, offset => if content.length ≤ offset then some [] else none
  | n + 1, offset =>
    if content.length ≤ offset then some []
    else (boxHeader ((content.drop offset).take 16) (content.length - offset)).bind fun h =>
      (topLevel content n (offset + h.size)).map fun boxes => ⟨h.kind, offset, h.size⟩ :: boxes

/-- Where the first box ends, where the index starts, and how long it is. -/
structure Plan where
  headLen : ℕ
  moovOffset : ℕ
  moovLen : ℕ

/-- The plan for a first `ftyp`, then boxes with an `mdat` and no `moov`, then a `moov` that ends the file. -/
def plan (boxes : List TopBox) (size : ℕ) : Option Plan :=
  match boxes with
  | [] => none
  | first :: rest =>
    match rest.getLast? with
    | none => none
    | some last =>
      if first.kind ≠ ftyp ∨ last.kind ≠ moov ∨ last.offset + last.size ≠ size then none
      else if (rest.dropLast.any fun b => b.kind == mdat) = false ∨ (rest.dropLast.any fun b => b.kind == moov) = true then
        none
      else if maxMoovBytes < last.size then none
      else some ⟨first.size, last.offset, last.size⟩

/-! ## Shifting the chunk offsets -/

/-- The width of the entries of a chunk offset table. -/
def tableWidth (kind : Bytes) : Option ℕ := if kind = stco then some 4 else if kind = co64 then some 8 else none

/-- How many entries a table counts. -/
def entryCount (body : Bytes) : ℕ := beValue ((body.take 8).drop 4)

/-- A shifted entry: it points between the first box and the index, and fits its width. -/
def shiftEntry (delta headLen moovOffset width old : ℕ) : Option ℕ :=
  if old < headLen ∨ moovOffset ≤ old then none
  else if old + delta < 256 ^ width then some (old + delta) else none

/-- The first `n` numbers of some bytes, each by another. -/
def mapEntries (width : ℕ) (f : ℕ → Option ℕ) : ℕ → Bytes → Option Bytes
  | 0, bytes => some bytes
  | n + 1, bytes =>
    (f (beValue (bytes.take width))).bind fun new =>
      (mapEntries width f n (bytes.drop width)).map fun rest => beBytes width new ++ rest

/-- Shifts the entries of a table and counts it; other boxes stay. -/
def shiftTable (delta headLen moovOffset : ℕ) (tables : ℕ) (kind body : Bytes) : Option (ℕ × Bytes) :=
  match tableWidth kind with
  | none => some (tables, body)
  | some width =>
    if body.length < 8 then none
    else if body.length < 8 + entryCount body * width then none
    else (mapEntries width (shiftEntry delta headLen moovOffset width) (entryCount body) (body.drop 8)).map fun entries =>
      (tables + 1, body.take 8 ++ entries)

/-- Shifts the chunk offsets of an index that has a table of them. -/
def shiftChunkOffsets (index : Bytes) (delta headLen moovOffset : ℕ) : Option Bytes :=
  (walk isContainer (shiftTable delta headLen moovOffset) index.length 0 index).bind fun r =>
    if 0 < r.1 then some r.2 else none

/-- A clip's layout: its size, the end of the first box, and the shifted index. -/
structure Layout where
  size : ℕ
  headLen : ℕ
  moov : Bytes
  deriving DecidableEq

def readLayout (content : Bytes) : Option Layout :=
  (topLevel content maxTopLevelBoxes 0).bind fun boxes =>
    (plan boxes content.length).bind fun p =>
      (shiftChunkOffsets ((content.drop p.moovOffset).take p.moovLen) p.moovLen p.headLen p.moovOffset).map fun moov =>
        ⟨content.length, p.headLen, moov⟩

/-! ## Serving a range -/

inductive Segment where
  | file (offset len : ℕ)
  | index (start stop : ℕ)

/-- What a range takes of the virtual bytes `[low, high)`. -/
def piece (start stop low high : ℕ) (make : ℕ → ℕ → Segment) : List Segment :=
  if max start low < min stop high then [make (max start low) (min stop high)] else []

/-- The pieces that make up the virtual bytes `[start, stop)`. -/
def Layout.segments (l : Layout) (start stop : ℕ) : List Segment :=
  piece start stop 0 l.headLen (fun a b => .file a (b - a))
    ++ piece start stop l.headLen (l.headLen + l.moov.length) (fun a b => .index (a - l.headLen) (b - l.headLen))
    ++ piece start stop (l.headLen + l.moov.length) l.size (fun a b => .file (a - l.moov.length) (b - a))

/-- What a segment streams. -/
def Segment.bytes (content moov : Bytes) : Segment → Bytes
  | .file offset len => (content.drop offset).take len
  | .index start stop => (moov.take stop).drop start

def virtualBytes (content : Bytes) (l : Layout) (start stop : ℕ) : Bytes :=
  (l.segments start stop).flatMap (Segment.bytes content l.moov)

/-! ## What serving keeps -/

/-- The whole stream. -/
def served (content : Bytes) (l : Layout) : Bytes := virtualBytes content l 0 l.size

/-- The index in the file. -/
def fileIndex (content : Bytes) (l : Layout) : Bytes := content.drop (content.length - l.moov.length)

/-- A box that stands elsewhere. -/
def TopBox.moved (delta : ℕ) (b : TopBox) : TopBox := ⟨b.kind, b.offset + delta, b.size⟩

/-- A chunk offset: where it stands in the index, in how many bytes, and what it points at. -/
structure ChunkEntry where
  position : ℕ
  width : ℕ
  value : ℕ
  deriving DecidableEq

def ChunkEntry.shifted (delta : ℕ) (e : ChunkEntry) : ChunkEntry := ⟨e.position, e.width, e.value + delta⟩

/-- A byte of the index that the entry takes. -/
def ChunkEntry.Takes (e : ChunkEntry) (i : ℕ) : Prop := e.position ≤ i ∧ i < e.position + e.width

/-- One entry of a table. -/
def chunkEntry (l : Leaf) (width k : ℕ) : ChunkEntry :=
  ⟨l.start + (8 + k * width), width, beValue ((l.body.drop (8 + k * width)).take width)⟩

/-- The chunk offsets of a box. -/
def entries (l : Leaf) : List ChunkEntry :=
  match tableWidth l.kind with
  | none => []
  | some width => (List.range (entryCount l.body)).map (chunkEntry l width)

/-- The chunk offsets of all tracks of an index. -/
def chunkEntries (index : Bytes) : Option (List ChunkEntry) :=
  (parse isContainer index.length index).map fun f => (f.leaves 0).flatMap entries

/-- **The clip is the same one.** -/
structure Preserved (content : Bytes) (l : Layout) : Prop where
  length : (served content l).length = content.length
  boxes : ∃ first middle last, first.kind = ftyp ∧ last.kind = moov
    ∧ topLevel content maxTopLevelBoxes 0 = some (first :: (middle ++ [last]))
    ∧ topLevel (served content l) maxTopLevelBoxes 0
      = some (first :: ⟨moov, first.size, last.size⟩ :: middle.map (TopBox.moved last.size))
  index : ((served content l).drop l.headLen).take l.moov.length = l.moov
  offsets : ∃ es, chunkEntries (fileIndex content l) = some es
    ∧ chunkEntries l.moov = some (es.map (ChunkEntry.shifted l.moov.length))
    ∧ (∀ e ∈ es, ∃ byte, content[e.value]? = some byte ∧ (served content l)[e.value + l.moov.length]? = some byte)
    ∧ ∀ i, (∀ e ∈ es, ¬e.Takes i) → l.moov[i]? = (fileIndex content l)[i]?
  rest : (served content l).take l.headLen = content.take l.headLen
    ∧ (served content l).drop (l.headLen + l.moov.length)
      = (content.take (content.length - l.moov.length)).drop l.headLen
  ranges : ∀ start stop, start < stop → stop ≤ l.size →
    virtualBytes content l start stop = ((served content l).take stop).drop start

/-! ## Tables -/

section Tables

variable {width : ℕ} {f : ℕ → Option ℕ}

/-- The numbers are replaced in place. -/
theorem length_mapEntries {n : ℕ} {bytes out : Bytes} (hlong : n * width ≤ bytes.length)
    (h : mapEntries width f n bytes = some out) : out.length = bytes.length := by
  induction n generalizing bytes out with
  | zero => rw [← Option.some.inj h]
  | succ n ih =>
    obtain ⟨new, -, h⟩ := Option.bind_eq_some_iff.mp h
    obtain ⟨rest, hrest, rfl⟩ := Option.map_eq_some_iff.mp h
    rw [Nat.succ_mul] at hlong
    rw [List.length_append, length_beBytes, ih (by rw [List.length_drop]; omega) hrest, List.length_drop]
    omega

/-- **Each number is replaced by its own.** -/
theorem mapEntries_getEntry {n k : ℕ} {bytes out : Bytes} (hk : k < n) (h : mapEntries width f n bytes = some out) :
    ∃ new, f (beValue ((bytes.drop (k * width)).take width)) = some new
      ∧ (out.drop (k * width)).take width = beBytes width new := by
  induction n generalizing bytes out k with
  | zero => exact absurd hk (Nat.not_lt_zero k)
  | succ n ih =>
    obtain ⟨new, hnew, h⟩ := Option.bind_eq_some_iff.mp h
    obtain ⟨rest, hrest, rfl⟩ := Option.map_eq_some_iff.mp h
    have hwidth : (beBytes width new).length = width := length_beBytes width new
    cases k with
    | zero =>
      rw [Nat.zero_mul, List.drop_zero, List.drop_zero]
      exact ⟨new, hnew, List.take_left' hwidth⟩
    | succ k =>
      obtain ⟨later, hlater, hout⟩ := ih (Nat.lt_of_succ_lt_succ hk) hrest
      rw [List.drop_drop, Nat.add_comm width] at hlater
      refine ⟨later, by rwa [Nat.succ_mul], ?_⟩
      rw [Nat.succ_mul, Nat.add_comm, ← List.drop_drop, List.drop_left' hwidth]
      exact hout

/-- What stands behind the numbers stays. -/
theorem drop_mapEntries {n : ℕ} {bytes out : Bytes} (h : mapEntries width f n bytes = some out) :
    out.drop (n * width) = bytes.drop (n * width) := by
  induction n generalizing bytes out with
  | zero => rw [← Option.some.inj h]
  | succ n ih =>
    obtain ⟨new, -, h⟩ := Option.bind_eq_some_iff.mp h
    obtain ⟨rest, hrest, rfl⟩ := Option.map_eq_some_iff.mp h
    rw [Nat.succ_mul, Nat.add_comm, ← List.drop_drop, ← List.drop_drop, List.drop_left' (length_beBytes width new), ih hrest]

variable {delta headLen moovOffset : ℕ}

/-- What the visitor makes of a table. -/
theorem shiftTable_of_width {tables : ℕ} {kind body : Bytes} {r : ℕ × Bytes} (hwidth : tableWidth kind = some width)
    (h : shiftTable delta headLen moovOffset tables kind body = some r) :
    8 + entryCount body * width ≤ body.length
      ∧ ∃ out, mapEntries width (shiftEntry delta headLen moovOffset width) (entryCount body) (body.drop 8) = some out
        ∧ r = (tables + 1, body.take 8 ++ out) := by
  rw [shiftTable, hwidth] at h
  obtain ⟨-, h⟩ := Option.ite_none_left_eq_some.mp h
  obtain ⟨hlong, h⟩ := Option.ite_none_left_eq_some.mp h
  obtain ⟨out, hout, rfl⟩ := Option.map_eq_some_iff.mp h
  exact ⟨Nat.le_of_not_lt hlong, out, hout, rfl⟩

theorem shiftTable_of_none {tables : ℕ} {kind body : Bytes} {r : ℕ × Bytes} (hwidth : tableWidth kind = none)
    (h : shiftTable delta headLen moovOffset tables kind body = some r) : r = (tables, body) := by
  rw [shiftTable, hwidth] at h
  exact (Option.some.inj h).symm

theorem inPlace_shiftTable : InPlace (shiftTable delta headLen moovOffset) := by
  intro tables kind body r h
  rcases hwidth : tableWidth kind with _ | width
  · rw [shiftTable_of_none hwidth h]
  · obtain ⟨hlong, out, hout, rfl⟩ := shiftTable_of_width hwidth h
    have hlength := length_mapEntries (by rw [List.length_drop]; omega) hout
    rw [List.length_drop] at hlength
    rw [List.length_append, List.length_take, hlength]
    omega

theorem shiftEntry_eq_some {old new : ℕ} (h : shiftEntry delta headLen moovOffset width old = some new) :
    headLen ≤ old ∧ old < moovOffset ∧ new = old + delta ∧ new < 256 ^ width := by
  obtain ⟨hin, h⟩ := Option.ite_none_left_eq_some.mp h
  obtain ⟨hfits, h⟩ := Option.ite_none_right_eq_some.mp h
  have hnew := (Option.some.inj h).symm
  omega

/-- **The entries of a table are shifted**, and point between the first box and the index. -/
theorem entries_of_visited {l l' : Leaf} (h : Visited (shiftTable delta headLen moovOffset) l l') :
    entries l' = (entries l).map (ChunkEntry.shifted delta) ∧ ∀ e ∈ entries l, headLen ≤ e.value ∧ e.value < moovOffset := by
  obtain ⟨hkind, hstart, tables, r, hr, hbody⟩ := h
  rw [entries, entries, hkind]
  rcases hwidth : tableWidth l.kind with _ | width
  · exact ⟨rfl, List.forall_mem_nil _⟩
  · obtain ⟨hlong, out, hout, rfl⟩ := shiftTable_of_width hwidth hr
    have height : (l.body.take 8).length = 8 := by
      rw [List.length_take]
      omega
    have hcount : entryCount l'.body = entryCount l.body := by
      rw [entryCount, entryCount, hbody, List.take_left' height]
    have hentry : ∀ k < entryCount l.body, chunkEntry l' width k = (chunkEntry l width k).shifted delta
        ∧ headLen ≤ (chunkEntry l width k).value ∧ (chunkEntry l width k).value < moovOffset := by
      intro k hk
      obtain ⟨new, hnew, hget⟩ := mapEntries_getEntry hk hout
      obtain ⟨hlow, hhigh, rfl, hfits⟩ := shiftEntry_eq_some hnew
      rw [List.drop_drop] at hlow hhigh hget hfits
      refine ⟨?_, hlow, hhigh⟩
      rw [chunkEntry, chunkEntry, ChunkEntry.shifted, hstart, hbody, ← List.drop_drop, List.drop_left' height, hget,
        beValue_beBytes_of_lt hfits]
    dsimp only
    rw [hcount, List.map_map]
    constructor
    · exact List.map_congr_left fun k hk => (hentry k (List.mem_range.mp hk)).1
    · exact List.forall_mem_map.mpr fun k hk => (hentry k (List.mem_range.mp hk)).2

/-- Bytes that no entry of a box takes stay. -/
theorem getElem?_of_shiftTable {tables : ℕ} {l : Leaf} {r : ℕ × Bytes}
    (h : shiftTable delta headLen moovOffset tables l.kind l.body = some r) {j : ℕ}
    (hj : ¬∃ e ∈ entries l, e.Takes (l.start + j)) : r.2[j]? = l.body[j]? := by
  rcases hwidth : tableWidth l.kind with _ | width
  · rw [shiftTable_of_none hwidth h]
  · obtain ⟨hlong, out, hout, rfl⟩ := shiftTable_of_width hwidth h
    have height : (l.body.take 8).length = 8 := by
      rw [List.length_take]
      omega
    have hpos : 0 < width := by
      rw [tableWidth] at hwidth
      split at hwidth
      · have hfour := Option.some.inj hwidth
        omega
      · obtain ⟨-, hwidth⟩ := Option.ite_none_right_eq_some.mp hwidth
        have height := Option.some.inj hwidth
        omega
    dsimp only
    rcases Nat.lt_or_ge j 8 with hlt | hge
    · rw [List.getElem?_append_left (by omega), List.getElem?_take, if_pos hlt]
    · obtain ⟨i, rfl⟩ := Nat.exists_eq_add_of_le hge
      rw [List.getElem?_append_right (by omega), height, Nat.add_sub_cancel_left]
      rcases Nat.lt_or_ge i (entryCount l.body * width) with hin | hbehind
      · -- the byte is in an entry
        refine absurd ⟨chunkEntry l width (i / width), ?_, ?_⟩ hj
        · rw [entries, hwidth]
          exact List.mem_map.mpr ⟨i / width, List.mem_range.mpr (Nat.div_lt_of_lt_mul (Nat.mul_comm _ _ ▸ hin)), rfl⟩
        · have hdiv := Nat.div_mul_le_self i width
          have hnext := Nat.lt_mul_div_succ i hpos
          rw [Nat.mul_succ, Nat.mul_comm] at hnext
          constructor
          · show l.start + (8 + i / width * width) ≤ l.start + (8 + i)
            omega
          · show l.start + (8 + i) < l.start + (8 + i / width * width) + width
            omega
      · obtain ⟨k, rfl⟩ := Nat.exists_eq_add_of_le hbehind
        rw [← List.getElem?_drop, drop_mapEntries hout, List.getElem?_drop, List.getElem?_drop]

end Tables

/-! ## The shifted index -/

section Index

variable {delta headLen moovOffset : ℕ}

/-- The chunk offsets of the leaves, shifted. -/
theorem flatMap_entries_of_visited {ls ls' : List Leaf}
    (h : List.Forall₂ (Visited (shiftTable delta headLen moovOffset)) ls ls') :
    ls'.flatMap entries = (ls.flatMap entries).map (ChunkEntry.shifted delta)
      ∧ ∀ e ∈ ls.flatMap entries, headLen ≤ e.value ∧ e.value < moovOffset := by
  induction h with
  | nil => exact ⟨rfl, List.forall_mem_nil _⟩
  | cons hfirst hrest ih =>
    obtain ⟨hshift, hin⟩ := entries_of_visited hfirst
    rw [List.flatMap_cons, List.flatMap_cons, List.map_append, hshift, ih.1]
    exact ⟨rfl, List.forall_mem_append.mpr ⟨hin, ih.2⟩⟩

/-- **The shifted index** has the same boxes, with the chunk offsets shifted and the other bytes as they were. -/
theorem shiftChunkOffsets_spec {index out : Bytes} (h : shiftChunkOffsets index delta headLen moovOffset = some out) :
    out.length = index.length
      ∧ (∀ hd, boxHeader index index.length = some hd → out.take hd.length = index.take hd.length)
      ∧ ∃ es, chunkEntries index = some es ∧ chunkEntries out = some (es.map (ChunkEntry.shifted delta))
        ∧ (∀ e ∈ es, headLen ≤ e.value ∧ e.value < moovOffset)
        ∧ ∀ i, (∀ e ∈ es, ¬e.Takes i) → out[i]? = index[i]? := by
  obtain ⟨r, hwalk, h⟩ := Option.bind_eq_some_iff.mp h
  obtain ⟨-, h⟩ := Option.ite_none_right_eq_some.mp h
  rw [walk_eq] at hwalk
  obtain ⟨f, hparse, hwalk⟩ := Option.bind_eq_some_iff.mp hwalk
  obtain ⟨⟨tables, f'⟩, htraverse, rfl⟩ := Option.map_eq_some_iff.mp hwalk
  obtain rfl := Option.some.inj h
  have hbytes := bytes_of_parse hparse
  have halike : f.Alike f' := alike_of_traverse inPlace_shiftTable htraverse
  have hlength : f'.bytes.length = index.length := hbytes ▸ halike.length_bytes
  have hparse' : parse isContainer index.length f'.bytes = some f' := parse_bytes_of_alike (by rwa [hbytes]) halike
  have hvisited : List.Forall₂ (Visited (shiftTable delta headLen moovOffset)) (f.leaves 0) (f'.leaves 0) :=
    forall₂_leaves_of_traverse inPlace_shiftTable htraverse
  obtain ⟨hshift, hin⟩ := flatMap_entries_of_visited hvisited
  refine ⟨hlength, ?_, (f.leaves 0).flatMap entries, ?_, ?_, hin, ?_⟩
  · intro hd hhd
    rw [← hbytes] at hhd hparse ⊢
    exact take_header_of_alike hparse halike hhd
  · rw [chunkEntries, hparse]
    rfl
  · rw [chunkEntries, hlength, hparse', ← hshift]
    rfl
  · intro i hi
    have houtside : ∀ l ∈ f.leaves 0, ¬∃ e ∈ entries l, e.Takes (0 + i) := by
      rintro l hl ⟨e, he, htakes⟩
      rw [Nat.zero_add] at htakes
      exact hi e (List.mem_flatMap.mpr ⟨l, hl, he⟩) htakes
    rw [← hbytes]
    exact getElem?_of_traverse inPlace_shiftTable (fun l i => ∃ e ∈ entries l, e.Takes i)
      (fun s l r hr j hj => getElem?_of_shiftTable hr hj) htraverse houtside

end Index

/-! ## Top-level boxes -/

section TopLevel

variable {content : Bytes}

theorem topLevel_of_le {n offset : ℕ} (h : content.length ≤ offset) : topLevel content n offset = some [] := by
  cases n with
  | zero => exact if_pos h
  | succ n => exact if_pos h

/-- A box and those behind it. -/
theorem topLevel_eq_cons_iff {n offset : ℕ} {b : TopBox} {bs : List TopBox} :
    topLevel content n offset = some (b :: bs)
      ↔ ∃ m h, n = m + 1 ∧ offset < content.length
        ∧ boxHeader ((content.drop offset).take 16) (content.length - offset) = some h
        ∧ b = ⟨h.kind, offset, h.size⟩ ∧ topLevel content m (offset + h.size) = some bs := by
  constructor
  · intro h
    cases n with
    | zero =>
      obtain ⟨-, h⟩ := Option.ite_none_right_eq_some.mp h
      exact nomatch h
    | succ n =>
      rw [topLevel] at h
      split at h
      · exact nomatch h
      · next hlt =>
          obtain ⟨hd, hhd, h⟩ := Option.bind_eq_some_iff.mp h
          obtain ⟨boxes, hboxes, h⟩ := Option.map_eq_some_iff.mp h
          obtain ⟨rfl, rfl⟩ := List.cons.inj h
          exact ⟨n, hd, rfl, Nat.lt_of_not_le hlt, hhd, rfl, hboxes⟩
  · rintro ⟨m, hd, rfl, hlt, hhd, rfl, hboxes⟩
    rw [topLevel, if_neg hlt.not_ge, hhd, Option.bind_some, hboxes]
    rfl

theorem lt_of_topLevel {n offset : ℕ} {bs : List TopBox} (h : topLevel content n offset = some bs) (hne : bs ≠ []) :
    offset < content.length := by
  by_contra hle
  rw [topLevel_of_le (Nat.le_of_not_lt hle)] at h
  exact hne (Option.some.inj h).symm

/-- The boxes lie behind the offset, in the file. -/
theorem within_of_topLevel {n offset : ℕ} {bs : List TopBox} (h : topLevel content n offset = some bs) :
    ∀ b ∈ bs, offset ≤ b.offset ∧ b.offset + b.size ≤ content.length := by
  induction bs generalizing n offset with
  | nil => exact List.forall_mem_nil _
  | cons b bs ih =>
    obtain ⟨m, hd, rfl, hlt, hhd, rfl, hrest⟩ := topLevel_eq_cons_iff.mp h
    obtain ⟨-, -, -, hin, -⟩ := boxHeader_eq_some_iff.mp hhd
    refine List.forall_mem_cons.mpr ⟨⟨le_rfl, ?_⟩, fun b hb => ?_⟩
    · dsimp only
      omega
    · obtain ⟨hlow, hhigh⟩ := ih hrest b hb
      exact ⟨by omega, hhigh⟩

/-- A size that does not reach to the end is written in the header. -/
theorem sizeWord_ne_zero {buf : Bytes} {remaining : ℕ} {h : BoxHeader} (hheader : boxHeader buf remaining = some h)
    (hlt : h.size < remaining) : sizeWord buf ≠ 0 := by
  intro hzero
  obtain ⟨-, hextent, -⟩ := boxHeader_eq_some_iff.mp hheader
  rw [boxExtent, if_pos hzero] at hextent
  have hsize := (Prod.mk.inj (Option.some.inj hextent)).2
  omega

/-- **The boxes between are found again** where they stand now. -/
theorem topLevel_moved {stream : Bytes} {delta n offset : ℕ} {bs : List TopBox} {last : TopBox}
    (h : topLevel content (n + 1) offset = some (bs ++ [last])) (hlength : stream.length = last.offset + delta)
    (hdrop : stream.drop (offset + delta) = (content.take last.offset).drop offset) :
    topLevel stream n (offset + delta) = some (bs.map (TopBox.moved delta)) := by
  induction bs generalizing n offset with
  | nil =>
    obtain ⟨m, hd, -, -, -, rfl, -⟩ := topLevel_eq_cons_iff.mp h
    exact topLevel_of_le hlength.le
  | cons b bs ih =>
    obtain ⟨m, hd, hm, hlt, hhd, rfl, hrest⟩ := topLevel_eq_cons_iff.mp h
    obtain rfl := Nat.succ.inj hm
    have hmore := lt_of_topLevel hrest (List.append_ne_nil_of_right_ne_nil bs (List.cons_ne_nil last []))
    have hlast := (within_of_topLevel hrest last (List.mem_append_right bs List.mem_cons_self)).1
    have hlastIn := (within_of_topLevel hrest last (List.mem_append_right bs List.mem_cons_self)).2
    obtain ⟨-, hextent, hle, -, -⟩ := boxHeader_eq_some_iff.mp hhd
    obtain ⟨hlow, hsixteen, -⟩ := boxExtent_length hextent
    obtain ⟨k, rfl⟩ : ∃ k, n = k + 1 := by
      cases n with
      | zero =>
        obtain ⟨-, hnil⟩ := Option.ite_none_right_eq_some.mp hrest
        exact absurd (Option.some.inj hnil).symm (List.append_ne_nil_of_right_ne_nil bs (List.cons_ne_nil last []))
      | succ n => exact ⟨n, rfl⟩
    refine topLevel_eq_cons_iff.mpr ⟨k, hd, rfl, by omega, ?_, rfl, ?_⟩
    · apply boxHeader_congr hhd
      · rw [hdrop, List.drop_take, List.take_take, List.take_take, List.take_take]
        congr 1
        omega
      · exact .inr ⟨sizeWord_ne_zero hhd (by omega), by omega⟩
    · have hshift : offset + delta + hd.size = offset + hd.size + delta := by omega
      rw [hshift]
      apply ih hrest
      rw [← hshift, ← List.drop_drop, hdrop, List.drop_drop]

end TopLevel

/-! ## Ranges -/

section Ranges

variable {content : Bytes} {l : Layout}

/-- The stream from its parts: what stands before the index in the file, cut where the index goes. -/
def stream (content : Bytes) (l : Layout) : Bytes :=
  content.take l.headLen ++ l.moov ++ (content.take (content.length - l.moov.length)).drop l.headLen

/-- A slice of two parts. -/
theorem slice_append (x y : Bytes) (start stop : ℕ) :
    ((x ++ y).take stop).drop start
      = (x.take stop).drop start ++ (y.take (stop - x.length)).drop (start - x.length) := by
  rw [List.take_append, List.drop_append, List.length_take]
  rcases Nat.le_total stop x.length with hle | hge
  · rw [Nat.sub_eq_zero_of_le hle, List.take_zero, List.drop_nil, List.drop_nil]
  · rw [min_eq_right hge]

/-- What a range takes of one part. -/
theorem bytes_piece {moov part : Bytes} {start stop low : ℕ} {make : ℕ → ℕ → Segment}
    (hmake : ∀ a b, low ≤ a → a < b → b ≤ low + part.length →
      (make a b).bytes content moov = (part.take (b - low)).drop (a - low)) :
    (piece start stop low (low + part.length) make).flatMap (Segment.bytes content moov)
      = (part.take (stop - low)).drop (start - low) := by
  rw [piece]
  split
  · next hlt =>
      rw [List.flatMap_singleton, hmake _ _ (le_max_right _ _) hlt (min_le_right _ _)]
      have hstart : max start low - low = start - low := by omega
      have hstop : min stop (low + part.length) - low = min (stop - low) part.length := by omega
      rw [hstart, hstop, ← List.take_eq_take_min]
  · next hge =>
      rw [List.flatMap_nil]
      symm
      apply List.drop_eq_nil_of_le
      rw [List.length_take]
      omega

/-- **A range is a slice** of the stream from its parts. -/
theorem virtualBytes_eq (hsize : l.size = content.length) (hmoov : l.moov.length ≤ content.length)
    (hhead : l.headLen ≤ content.length - l.moov.length) (start stop : ℕ) :
    virtualBytes content l start stop = ((stream content l).take stop).drop start := by
  have hheadLength : (content.take l.headLen).length = l.headLen := by
    rw [List.length_take]
    omega
  have hmiddleLength : ((content.take (content.length - l.moov.length)).drop l.headLen).length
      = content.length - l.moov.length - l.headLen := by
    rw [List.length_drop, List.length_take]
    omega
  have hfirst : (piece start stop 0 (0 + (content.take l.headLen).length) fun a b => .file a (b - a)).flatMap
      (Segment.bytes content l.moov) = ((content.take l.headLen).take (stop - 0)).drop (start - 0) := by
    apply bytes_piece
    intro a b _ _ hb
    rw [Segment.bytes, List.take_take, List.drop_take, Nat.sub_zero, Nat.sub_zero, min_eq_left (by omega)]
  have hindex : (piece start stop l.headLen (l.headLen + l.moov.length)
      fun a b => .index (a - l.headLen) (b - l.headLen)).flatMap (Segment.bytes content l.moov)
      = (l.moov.take (stop - l.headLen)).drop (start - l.headLen) := by
    apply bytes_piece
    intro a b _ _ _
    rfl
  have hrest : (piece start stop (l.headLen + l.moov.length) (l.headLen + l.moov.length
      + ((content.take (content.length - l.moov.length)).drop l.headLen).length)
      fun a b => .file (a - l.moov.length) (b - a)).flatMap (Segment.bytes content l.moov)
      = (((content.take (content.length - l.moov.length)).drop l.headLen).take (stop - (l.headLen + l.moov.length))).drop
        (start - (l.headLen + l.moov.length)) := by
    apply bytes_piece
    intro a b hlow hlt hb
    have hdrop : l.headLen + (a - (l.headLen + l.moov.length)) = a - l.moov.length := by omega
    have htake : b - (l.headLen + l.moov.length) - (a - (l.headLen + l.moov.length)) = b - a := by omega
    rw [Segment.bytes, List.drop_take, List.drop_drop, hdrop, htake, List.drop_take, List.take_take, min_eq_left (by omega)]
  rw [Nat.zero_add, hheadLength, Nat.sub_zero, Nat.sub_zero] at hfirst
  rw [hmiddleLength] at hrest
  have hend : l.headLen + l.moov.length + (content.length - l.moov.length - l.headLen) = l.size := by omega
  rw [hend] at hrest
  have hfront : (content.take l.headLen ++ l.moov).length = l.headLen + l.moov.length := by
    rw [List.length_append, hheadLength]
  -- the slice of three parts, one after the other
  rw [virtualBytes, Layout.segments, List.flatMap_append, List.flatMap_append, hfirst, hindex, hrest, stream, slice_append,
    slice_append, hfront, hheadLength]

theorem length_stream (hmoov : l.moov.length ≤ content.length) (hhead : l.headLen ≤ content.length - l.moov.length) :
    (stream content l).length = content.length := by
  rw [stream, List.length_append, List.length_append, List.length_drop, List.length_take, List.length_take]
  omega

theorem served_eq (hsize : l.size = content.length) (hmoov : l.moov.length ≤ content.length)
    (hhead : l.headLen ≤ content.length - l.moov.length) : served content l = stream content l := by
  rw [served, virtualBytes_eq hsize hmoov hhead, List.drop_zero, List.take_of_length_le]
  rw [length_stream hmoov hhead, hsize]

end Ranges

/-! ## The layout -/

section Layouts

variable {content : Bytes} {l : Layout} {first last : TopBox} {middle : List TopBox}

/-- **A clip that is served with its index first**: its boxes, and what is made of them. -/
structure Moves (content : Bytes) (l : Layout) (first last : TopBox) (middle : List TopBox) : Prop where
  boxes : topLevel content maxTopLevelBoxes 0 = some (first :: (middle ++ [last]))
  firstKind : first.kind = ftyp
  lastKind : last.kind = moov
  lastEnd : last.offset + last.size = content.length
  video : middle ≠ []
  size : l.size = content.length
  head : l.headLen = first.size
  shifted : shiftChunkOffsets ((content.drop last.offset).take last.size) last.size first.size last.offset = some l.moov

theorem plan_eq_some {boxes : List TopBox} {size : ℕ} {p : Plan} (h : plan boxes size = some p) :
    ∃ first middle last, boxes = first :: (middle ++ [last]) ∧ first.kind = ftyp ∧ last.kind = moov
      ∧ last.offset + last.size = size ∧ middle ≠ [] ∧ p = ⟨first.size, last.offset, last.size⟩ := by
  cases boxes with
  | nil => exact nomatch h
  | cons first rest =>
    rw [plan] at h
    split at h
    · exact nomatch h
    · next last hlast =>
        obtain ⟨hkinds, h⟩ := Option.ite_none_left_eq_some.mp h
        obtain ⟨hmiddle, h⟩ := Option.ite_none_left_eq_some.mp h
        obtain ⟨-, h⟩ := Option.ite_none_left_eq_some.mp h
        rw [not_or, not_or, not_not, not_not, not_not] at hkinds
        obtain ⟨hfirst, hmoov, hend⟩ := hkinds
        refine ⟨first, rest.dropLast, last, ?_, hfirst, hmoov, hend, ?_, (Option.some.inj h).symm⟩
        · rw [List.dropLast_append_getLast? last hlast]
        · intro hnil
          rw [hnil] at hmiddle
          exact hmiddle (.inl rfl)

theorem exists_moves (h : readLayout content = some l) : ∃ first last middle, Moves content l first last middle := by
  obtain ⟨boxes, hboxes, h⟩ := Option.bind_eq_some_iff.mp h
  obtain ⟨p, hplan, h⟩ := Option.bind_eq_some_iff.mp h
  obtain ⟨moov, hmoov, rfl⟩ := Option.map_eq_some_iff.mp h
  obtain ⟨first, middle, last, rfl, hfirst, hlast, hend, hvideo, rfl⟩ := plan_eq_some hplan
  exact ⟨first, last, middle, hboxes, hfirst, hlast, hend, hvideo, rfl, rfl, hmoov⟩

/-- Every top-level box has its header in the file. -/
theorem header_of_topLevel {n offset : ℕ} {bs : List TopBox} (h : topLevel content n offset = some bs) :
    ∀ b ∈ bs, ∃ hd, boxHeader ((content.drop b.offset).take 16) (content.length - b.offset) = some hd ∧ hd.kind = b.kind
      ∧ hd.size = b.size := by
  induction bs generalizing n offset with
  | nil => exact List.forall_mem_nil _
  | cons b bs ih =>
    obtain ⟨m, hd, rfl, hlt, hhd, rfl, hrest⟩ := topLevel_eq_cons_iff.mp h
    exact List.forall_mem_cons.mpr ⟨⟨hd, hhd, rfl, rfl⟩, ih hrest⟩

namespace Moves

theorem rest (h : Moves content l first last middle) : topLevel content 15 first.size = some (middle ++ [last]) := by
  obtain ⟨m, hd, hm, -, -, rfl, hrest⟩ := topLevel_eq_cons_iff.mp h.boxes
  obtain rfl := Nat.succ.inj hm
  rwa [Nat.zero_add] at hrest

theorem head_le (h : Moves content l first last middle) : first.size ≤ last.offset :=
  (within_of_topLevel h.rest last (List.mem_append_right middle List.mem_cons_self)).1

theorem fileIndex_eq_drop (h : Moves content l first last middle) :
    (content.drop last.offset).take last.size = content.drop last.offset := by
  apply List.take_of_length_le
  rw [List.length_drop]
  have hend := h.lastEnd
  omega

theorem length_moov (h : Moves content l first last middle) : l.moov.length = last.size := by
  have hlength := (shiftChunkOffsets_spec h.shifted).1
  have hend := h.lastEnd
  rw [hlength, List.length_take, List.length_drop]
  omega

theorem fileIndex_eq (h : Moves content l first last middle) : fileIndex content l = content.drop last.offset := by
  have hend := h.lastEnd
  rw [fileIndex, h.length_moov]
  congr 1
  omega

/-- The middle of the file ends where the index starts. -/
theorem bounds (h : Moves content l first last middle) : l.moov.length ≤ content.length
    ∧ l.headLen ≤ content.length - l.moov.length ∧ content.length - l.moov.length = last.offset := by
  have hend := h.lastEnd
  have hle := h.head_le
  rw [h.length_moov, h.head]
  omega

theorem served_eq_stream (h : Moves content l first last middle) : served content l = stream content l :=
  served_eq h.size h.bounds.1 h.bounds.2.1

theorem length_served (h : Moves content l first last middle) : (served content l).length = content.length := by
  rw [h.served_eq_stream, length_stream h.bounds.1 h.bounds.2.1]

theorem take_served (h : Moves content l first last middle) : (served content l).take l.headLen = content.take l.headLen := by
  have hbounds := h.bounds
  rw [h.served_eq_stream, stream, List.append_assoc, List.take_left']
  rw [List.length_take]
  omega

theorem drop_served (h : Moves content l first last middle) :
    (served content l).drop l.headLen = l.moov ++ (content.take last.offset).drop l.headLen := by
  have hbounds := h.bounds
  rw [h.served_eq_stream, stream, hbounds.2.2, List.append_assoc, List.drop_left']
  rw [List.length_take]
  omega

theorem drop_served_moov (h : Moves content l first last middle) :
    (served content l).drop (l.headLen + l.moov.length) = (content.take last.offset).drop l.headLen := by
  rw [← List.drop_drop, h.drop_served, List.drop_left]

/-- The header of the index, as the walk of the file reads it, and as it is streamed. -/
theorem exists_header (h : Moves content l first last middle) :
    ∃ hd, boxHeader (fileIndex content l) last.size = some hd ∧ hd.kind = moov ∧ hd.size = last.size
      ∧ l.moov.take hd.length = (fileIndex content l).take hd.length ∧ hd.length ≤ 16 := by
  obtain ⟨hd, hhd, hkind, hsize⟩ := header_of_topLevel h.rest last (List.mem_append_right middle List.mem_cons_self)
  obtain ⟨-, hextent, -⟩ := boxHeader_eq_some_iff.mp hhd
  obtain ⟨-, hsixteen, -⟩ := boxExtent_length hextent
  have hremaining : last.size = content.length - last.offset := by
    have hend := h.lastEnd
    omega
  have hindex : boxHeader (content.drop last.offset) last.size = some hd := by
    apply boxHeader_congr hhd
    · rw [List.take_take, min_eq_left hsixteen]
    · exact .inl hremaining
  have hlength : (content.drop last.offset).length = last.size := by rw [List.length_drop, hremaining]
  have hsame := (shiftChunkOffsets_spec h.shifted).2.1 hd
  rw [h.fileIndex_eq_drop, hlength] at hsame
  rw [h.fileIndex_eq]
  exact ⟨hd, hindex, hkind.trans h.lastKind, hsize, hsame hindex, hsixteen⟩

/-- The first box is streamed as it was. -/
theorem topLevel_served (h : Moves content l first last middle) {bs : List TopBox}
    (hbs : topLevel (served content l) 15 first.size = some bs) :
    topLevel (served content l) maxTopLevelBoxes 0 = some (first :: bs) := by
  obtain ⟨m, hd, hm, hlt, hhd, hfirst, -⟩ := topLevel_eq_cons_iff.mp h.boxes
  have hlength := h.length_served
  have htake := h.take_served
  have hsize : hd.size = first.size := by rw [hfirst]
  refine topLevel_eq_cons_iff.mpr ⟨15, hd, rfl, by omega, ?_, hfirst, ?_⟩
  · obtain ⟨-, hextent, hle, -⟩ := boxHeader_eq_some_iff.mp hhd
    obtain ⟨-, hsixteen, -⟩ := boxExtent_length hextent
    rw [hlength]
    apply boxHeader_congr hhd
    · rw [List.drop_zero, List.drop_zero, List.take_take, List.take_take, min_eq_left hsixteen]
      apply take_of_take_eq htake
      rw [h.head]
      omega
    · exact .inl rfl
  · rw [Nat.zero_add, hsize]
    exact hbs

theorem take_drop_served (h : Moves content l first last middle) {k : ℕ} (hk : k ≤ last.size) :
    ((served content l).drop first.size).take k = l.moov.take k := by
  have hlength := h.length_moov
  rw [← h.head, h.drop_served, List.take_append_of_le_length (by omega)]

/-- **An index that has its size in its header** keeps its place among the boxes. -/
theorem topLevel_of_size (h : Moves content l first last middle) (hword : sizeWord (fileIndex content l) ≠ 0) :
    topLevel (served content l) maxTopLevelBoxes 0
      = some (first :: ⟨moov, first.size, last.size⟩ :: middle.map (TopBox.moved last.size)) := by
  obtain ⟨hd, hhd, hkind, hsize, hsame, hsixteen⟩ := h.exists_header
  obtain ⟨-, hextent, hle, -⟩ := boxHeader_eq_some_iff.mp hhd
  obtain ⟨hlow, -⟩ := boxExtent_length hextent
  have hend := h.lastEnd
  have hhead := h.head_le
  have hlength := h.length_served
  apply h.topLevel_served
  refine topLevel_eq_cons_iff.mpr ⟨14, hd, rfl, by omega, ?_, by rw [hkind, hsize], ?_⟩
  · apply boxHeader_congr hhd
    · rw [List.take_take, min_eq_left hsixteen, h.take_drop_served (by omega), hsame]
    · exact .inr ⟨hword, by omega⟩
  · rw [hsize]
    apply topLevel_moved h.rest
    · omega
    · have hdrop := h.drop_served_moov
      rwa [h.head, h.length_moov] at hdrop

/-- **An index that reaches to the end of the file** reaches to the end of the stream. -/
theorem topLevel_of_zero (h : Moves content l first last middle) (hword : sizeWord (fileIndex content l) = 0) :
    topLevel (served content l) maxTopLevelBoxes 0 = some [first, ⟨moov, first.size, content.length - first.size⟩] := by
  obtain ⟨hd, hhd, hkind, hsize, hsame, -⟩ := h.exists_header
  obtain ⟨hlong, hextent, hle, -, hkindOf⟩ := boxHeader_eq_some_iff.mp hhd
  have height : hd.length = 8 := by
    rw [boxExtent, if_pos hword] at hextent
    exact (Prod.mk.inj (Option.some.inj hextent)).1.symm
  have hend := h.lastEnd
  have hhead := h.head_le
  have hlength := h.length_served
  have hmoov := h.length_moov
  -- the first eight bytes are those of the index in the file
  have hfront : (((served content l).drop first.size).take 16).take 8 = (fileIndex content l).take 8 := by
    rw [List.take_take, min_eq_left (by omega), h.take_drop_served (by omega), ← height, hsame]
  have hfour : sizeWord (((served content l).drop first.size).take 16) = 0 :=
    (congrArg beValue (take_of_take_eq hfront (by omega))).trans hword
  apply h.topLevel_served
  refine topLevel_eq_cons_iff.mpr ⟨14, ⟨moov, 8, content.length - first.size⟩, rfl, by omega, ?_, rfl, ?_⟩
  · refine boxHeader_eq_some_iff.mpr ⟨length_le_of_take_eq hfront hlong, ?_, by dsimp only; omega, by dsimp only; omega, ?_⟩
    · rw [boxExtent, if_pos hfour, hlength]
    · rw [hfront, ← hkindOf, hkind]
  · apply topLevel_of_le
    dsimp only
    omega

end Moves

/-- **Serving a clip with its index first keeps the clip**, exactly when the index has its size in its header. -/
theorem preserved_iff (content : Bytes) (l : Layout) (h : readLayout content = some l) :
    Preserved content l ↔ sizeWord (fileIndex content l) ≠ 0 := by
  obtain ⟨first, last, middle, hmoves⟩ := exists_moves h
  have hbounds := hmoves.bounds
  have hmoov := hmoves.length_moov
  constructor
  · intro hpreserved hword
    obtain ⟨first', middle', last', -, -, hfile, hserved⟩ := hpreserved.boxes
    rw [hmoves.topLevel_of_zero hword] at hserved
    rw [hmoves.boxes] at hfile
    obtain ⟨-, hmiddle⟩ := List.cons.inj (Option.some.inj hfile)
    obtain ⟨-, hserved⟩ := List.cons.inj (Option.some.inj hserved)
    obtain ⟨-, hnil⟩ := List.cons.inj hserved
    rw [List.nil_eq, List.map_eq_nil_iff] at hnil
    exact hmoves.video ((List.append_inj_left' hmiddle rfl).trans hnil)
  · intro hword
    obtain ⟨-, -, es, hfile, hshifted, hvalues, hothers⟩ := shiftChunkOffsets_spec hmoves.shifted
    rw [hmoves.fileIndex_eq_drop, ← hmoves.fileIndex_eq] at hfile hothers
    refine {
      length := hmoves.length_served
      boxes := ⟨first, middle, last, hmoves.firstKind, hmoves.lastKind, hmoves.boxes, hmoves.topLevel_of_size hword⟩
      index := by rw [hmoves.drop_served, List.take_left]
      offsets := ⟨es, hfile, hmoov ▸ hshifted, fun e he => ?_, hothers⟩
      rest := ⟨hmoves.take_served, by rw [hmoves.drop_served_moov, hbounds.2.2]⟩
      ranges := fun start stop _ _ => ?_ }
    · -- the byte stands between the first box and the index, in the file and in the stream
      obtain ⟨hlow, hhigh⟩ := hvalues e he
      have hlt : e.value < content.length := by omega
      refine ⟨content[e.value], List.getElem?_eq_getElem hlt, ?_⟩
      obtain ⟨k, hk⟩ := Nat.exists_eq_add_of_le hlow
      have hplace : e.value + l.moov.length = l.headLen + l.moov.length + k := by
        rw [hmoves.head]
        omega
      rw [hplace, ← List.getElem?_drop, hmoves.drop_served_moov, List.getElem?_drop, List.getElem?_take, hmoves.head, ← hk,
        if_pos hhigh, List.getElem?_eq_getElem hlt]
    · rw [hmoves.served_eq_stream, virtualBytes_eq hmoves.size hbounds.1 hbounds.2.1]

end Layouts

/-! ## Two clips -/

def box (kind body : Bytes) : Bytes := beBytes 4 (8 + body.length) ++ kind ++ body

/-- An index of one track with one chunk, whose header has a size word. -/
def oneChunk (word offset : ℕ) : Bytes :=
  let table := box stco ([0, 0, 0, 0] ++ beBytes 4 1 ++ beBytes 4 offset)
  beBytes 4 word ++ moov ++ box trak (box mdia (box minf (box stbl table)))

/-- A clip with one byte of video. -/
def oneByteClip (word : ℕ) : Bytes := box ftyp [] ++ box mdat [7] ++ oneChunk word 16

def oneByteLayout (word : ℕ) : Layout := ⟨77, 8, oneChunk word 76⟩

theorem preserved_iff_oneByteClip :
    Preserved (oneByteClip 60) (oneByteLayout 60) ↔ sizeWord (fileIndex (oneByteClip 60) (oneByteLayout 60)) ≠ 0 :=
  preserved_iff (oneByteClip 60) (oneByteLayout 60) (by decide +kernel)

/-- The index of the same clip may reach to the end; then it takes the video with it. -/
theorem not_preserved_of_zero :
    readLayout (oneByteClip 0) = some (oneByteLayout 0)
      ∧ topLevel (oneByteClip 0) maxTopLevelBoxes 0 = some [⟨ftyp, 0, 8⟩, ⟨mdat, 8, 9⟩, ⟨moov, 17, 60⟩]
      ∧ topLevel (served (oneByteClip 0) (oneByteLayout 0)) maxTopLevelBoxes 0 = some [⟨ftyp, 0, 8⟩, ⟨moov, 8, 69⟩]
      ∧ ¬Preserved (oneByteClip 0) (oneByteLayout 0) := by
  have hfile : topLevel (oneByteClip 0) maxTopLevelBoxes 0 = some [⟨ftyp, 0, 8⟩, ⟨mdat, 8, 9⟩, ⟨moov, 17, 60⟩] := by
    decide +kernel
  have hserved : topLevel (served (oneByteClip 0) (oneByteLayout 0)) maxTopLevelBoxes 0
      = some [⟨ftyp, 0, 8⟩, ⟨moov, 8, 69⟩] := by decide +kernel
  refine ⟨by decide +kernel, hfile, hserved, fun h => ?_⟩
  obtain ⟨first, middle, last, -, -, hboxes, hmoved⟩ := h.boxes
  rw [hfile] at hboxes
  rw [hserved] at hmoved
  have hthree := congrArg List.length (Option.some.inj hboxes)
  have htwo := congrArg List.length (Option.some.inj hmoved)
  simp only [List.length_cons, List.length_append, List.length_map, List.length_nil] at hthree htwo
  omega

end SentryUsb.Media.IndexFirst
