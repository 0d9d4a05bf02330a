import SentryUsb.Library.Checked
import SentryUsb.Library.RunLength
import SentryUsb.Video.BoxWalk

/-! # The sample tables of a video track

Every frame of a clip is a sample of the video track. Five tables say where the samples lie in the file and when they
are shown, and are read from boxes within boxes (`mp4_samples.rs`). Sums and indices are those of 64 bits, and a sum
that leaves its type or an index out of range stops the computation.

* **`children`** — the boxes within a box;
* **`table`**, **`expandRuns`**, **`editStart`** — tables of entries;
* **`placeChunks`** — the byte ranges of the samples;
* **`parseMoov`** — the samples of the first video track;
* **`timeAtOffset`** — the time of the sample at an offset. -/

namespace SentryUsb.Video.Mp4Samples

open Library

/-! ## Box types -/

/-- A box type of four characters. -/
def fourCc (a b c d : Char) : Bytes := [a, b, c, d].map fun ch => UInt8.ofNat ch.toNat

namespace Kind

def trak : Bytes := fourCc 't' 'r' 'a' 'k'
def mdia : Bytes := fourCc 'm' 'd' 'i' 'a'
def hdlr : Bytes := fourCc 'h' 'd' 'l' 'r'
def vide : Bytes := fourCc 'v' 'i' 'd' 'e'
def mdhd : Bytes := fourCc 'm' 'd' 'h' 'd'
def minf : Bytes := fourCc 'm' 'i' 'n' 'f'
def stbl : Bytes := fourCc 's' 't' 'b' 'l'
def stsz : Bytes := fourCc 's' 't' 's' 'z'
def stco : Bytes := fourCc 's' 't' 'c' 'o'
def co64 : Bytes := fourCc 'c' 'o' '6' '4'
def stsc : Bytes := fourCc 's' 't' 's' 'c'
def stts : Bytes := fourCc 's' 't' 't' 's'
def ctts : Bytes := fourCc 'c' 't' 't' 's'
def edts : Bytes := fourCc 'e' 'd' 't' 's'
def elst : Bytes := fourCc 'e' 'l' 's' 't'

end Kind

/-! ## Machine arithmetic -/

def addUsize (a b : Nat) : Checked Nat := addBelow (2 ^ 64) a b

def mulUsize (a b : Nat) : Checked Nat := mulBelow (2 ^ 64) a b

def addU64 (a b : Nat) : Checked Nat := addBelow (2 ^ 64) a b

/-- The numbers of `i64`. -/
def FitsI64 (x : Int) : Prop := -2 ^ 63 ≤ x ∧ x < 2 ^ 63

instance (x : Int) : Decidable (FitsI64 x) := inferInstanceAs (Decidable (_ ∧ _))

/-- A result of `i64` arithmetic. -/
def i64 (x : Int) : Checked Int := if FitsI64 x then .ok x else .error .overflow

/-- An element of a vector. -/
def index (l : List Int) (i : Nat) : Checked Int :=
  match l[i]? with
  | some x => .ok x
  | none => .error .outOfBounds

/-! ## Boxes -/

/-- `&data[a..b]`. -/
def slice (data : Bytes) (a b : Nat) : Checked Bytes :=
  if a ≤ b ∧ b ≤ data.length then .ok ((data.drop a).take (b - a)) else .error .outOfBounds

/-- Size and size of the header of a box, from its 32-bit size. -/
def childSize (data : Bytes) (pos size : Nat) : Checked (Option (Nat × Nat)) :=
  if size = 1 then do
    let stop ← addUsize pos 16
    if data.length < stop then pure none
    else do
      let large ← slice data (pos + 8) stop
      pure (some (fromBeBytes large, 16))
  else if size = 0 then do
    let rest ← subNat data.length pos
    pure (some (rest, 8))
  else pure (some (size, 8))

/-- A box of some size, if it fits: type, payload and end. -/
def fitChild (data : Bytes) (pos : Nat) (kind : Bytes) (size header : Nat) : Checked (Option ((Bytes × Bytes) × Nat)) :=
  -- `checked_add`: an end that leaves the integers is past the data as well
  if header ≤ size ∧ pos + size ≤ data.length then do
    let start ← addUsize pos header
    let body ← slice data start (pos + size)
    pure (some ((kind, body), pos + size))
  else pure none

/-- The box at an offset, or nothing where the walk stops. -/
def nextChild (data : Bytes) (pos : Nat) : Checked (Option ((Bytes × Bytes) × Nat)) := do
  let headed ← addUsize pos 8
  if data.length < headed then pure none
  else do
    let word ← slice data pos (pos + 4)
    let kind ← slice data (pos + 4) headed
    match ← childSize data pos (fromBeBytes word) with
    | none => pure none
    | some (size, header) => fitChild data pos kind size header

/-- The boxes from an offset on. Each takes a pass. -/
def childrenFrom (data : Bytes) : Nat → Nat → Checked (List (Bytes × Bytes))
  | 0, _ => pure []
  | passes + 1, pos => do
    match ← nextChild data pos with
    | none => pure []
    | some (found, stop) => do
      let rest ← childrenFrom data passes stop
      pure (found :: rest)

/-- Child boxes of a payload: type and payload. -/
def children (data : Bytes) : Checked (List (Bytes × Bytes)) := childrenFrom data (data.length + 1) 0

def child (data kind : Bytes) : Checked (Option Bytes) := do
  let found ← children data
  pure ((found.find? fun b => decide (b.1 = kind)).map Prod.snd)

/-! ## Tables -/

/-- A number of `n` bytes. -/
def beUint (n : Nat) (data : Bytes) (pos : Nat) : Checked Nat := do
  let _ ← addUsize pos n
  context "sample table truncated" ((readExact data pos n).map fromBeBytes)

def beU32 (data : Bytes) (pos : Nat) : Checked Nat := beUint 4 data pos

def beU64 (data : Bytes) (pos : Nat) : Checked Nat := beUint 8 data pos

/-- Where an entry of a table starts. -/
def entryAt (start i entrySize : Nat) : Checked Nat := do
  let skipped ← mulUsize i entrySize
  addUsize start skipped

/-- Entries of a full box: version, number of entries, start of the entries. -/
def table (data : Bytes) (entrySize : Nat) : Checked (UInt8 × Nat × Nat) := do
  let version ← context "empty table" data.head?
  let count ← beU32 data 4
  -- `checked_mul`
  if 2 ^ 64 ≤ count * entrySize then fail "table count exceeds its box"
  else do
    let stop ← addUsize 8 (count * entrySize)
    if data.length < stop then fail "table count exceeds its box"
    else pure (version, count, 8)

/-- One run of `expandRuns`. -/
def expandRun (data : Bytes) (samples : Nat) (signed : Bool) (version : UInt8) (start : Nat) (out : List Int)
    (i : Nat) : Checked (List Int) := do
  let pos ← entryAt start i 8
  let times ← beU32 data pos
  let raw ← beU32 data (← addUsize pos 4)
  let value := if signed = true ∧ version = 1 then (raw : Int).bmod (2 ^ 32) else raw
  -- there are never more values than samples, so there is something left
  let room ← subNat samples out.length
  if room < times then fail "timing table covers more samples than the track has"
  else pure (out ++ List.replicate times value)

/-- Expands runs of `stts` or `ctts` to one value for each sample. -/
def expandRuns (data : Bytes) (samples : Nat) (signed : Bool) : Checked (List Int) := do
  let (version, count, start) ← table data 8
  let out ← (List.range count).foldlM (expandRun data samples signed version start) []
  if out.length ≠ samples then fail s!"timing table covers {out.length} of {samples} samples"
  else pure out

/-- The media time of an edit. -/
def mediaTime (elst : Bytes) (version : UInt8) (pos : Nat) : Checked Int :=
  if version = 1 then do
    let raw ← beU64 elst (← addUsize pos 8)
    pure ((raw : Int).bmod (2 ^ 64))
  else do
    let raw ← beU32 elst (← addUsize pos 4)
    pure ((raw : Int).bmod (2 ^ 32))

/-- The first edit of some that is not empty. -/
def firstEdit (elst : Bytes) (version : UInt8) (start entrySize : Nat) : List Nat → Checked Int
  | [] => pure 0
  | i :: rest => do
    let pos ← entryAt start i entrySize
    let time ← mediaTime elst version pos
    if 0 ≤ time then pure time else firstEdit elst version start entrySize rest

/-- Media time the presentation starts at; zero without an edit list. -/
def editStart (trak : Bytes) : Checked Int := do
  match ← child trak Kind.edts with
  | none => pure 0
  | some edts => do
    match ← child edts Kind.elst with
    | none => pure 0
    | some elst => do
      let version ← context "empty elst" elst.head?
      let entrySize := if version = 1 then 20 else 12
      let (_, count, start) ← table elst entrySize
      firstEdit elst version start entrySize (List.range count)

/-! ## Where the samples lie -/

/-- The chunk offsets: how many, and the size of each in the bytes of a table. -/
structure ChunkOffsets where
  count : Nat
  stride : Nat
  co : Bytes
  deriving DecidableEq

def chunkOffsets (stbl : Bytes) : Checked ChunkOffsets := do
  match ← child stbl Kind.stco, ← child stbl Kind.co64 with
  | some stco, none => do
    let (_, count, _) ← table stco 4
    pure ⟨count, 4, stco⟩
  | none, some co64 => do
    let (_, count, _) ← table co64 8
    pure ⟨count, 8, co64⟩
  | _, _ => fail "expected exactly one chunk offset table"

def chunkOffset (t : ChunkOffsets) (c : Nat) : Checked Nat :=
  if t.stride = 8 then do
    let pos ← entryAt 8 c 8
    beU64 t.co pos
  else do
    let pos ← entryAt 8 c 4
    beU32 t.co pos

/-- One run of `stsc`: the first chunk of the run, and the samples of each of its chunks. -/
def pushRun (stsc : Bytes) (start : Nat) (perChunk : List (Nat × Nat)) (i : Nat) : Checked (List (Nat × Nat)) := do
  let pos ← entryAt start i 12
  let first ← beU32 stsc pos
  let count ← beU32 stsc (← addUsize pos 4)
  if first = 0 ∨ perChunk.getLast?.any (fun run => decide (first ≤ run.1)) = true then fail "invalid stsc"
  else pure (perChunk ++ [(first, count)])

/-- Samples of each chunk, in runs. -/
def samplesPerChunk (stbl : Bytes) : Checked (List (Nat × Nat)) := do
  let stsc ← context "no stsc" (← child stbl Kind.stsc)
  let (_, runs, start) ← table stsc 12
  (List.range runs).foldlM (pushRun stsc start) []

/-- The tables that say where the samples lie. -/
structure LayoutTables where
  timescale : Nat
  stbl : Bytes
  stsz : Bytes
  fixed : Nat
  samples : Nat
  chunks : ChunkOffsets
  perChunk : List (Nat × Nat)
  deriving DecidableEq

def readLayout (mdia : Bytes) : Checked LayoutTables := do
  let mdhd ← context "no mdhd" (← child mdia Kind.mdhd)
  let timescale ← beU32 mdhd (if mdhd.head? = some 1 then 20 else 12)
  if timescale = 0 then fail "zero media timescale"
  else do
    let minf ← child mdia Kind.minf
    let stbl ← context "no stbl" (← minf.elim (pure none) fun minf => child minf Kind.stbl)
    let stsz ← context "no stsz" (← child stbl Kind.stsz)
    let fixed ← beU32 stsz 4
    let samples ← beU32 stsz 8
    let chunks ← chunkOffsets stbl
    let perChunk ← samplesPerChunk stbl
    pure ⟨timescale, stbl, stsz, fixed, samples, chunks, perChunk⟩

/-- The size of a sample. -/
def sampleSize (t : LayoutTables) (i : Nat) : Checked Nat :=
  if t.fixed ≠ 0 then pure t.fixed
  else do
    let pos ← entryAt 12 i 4
    beU32 t.stsz pos

/-- The run of a chunk, from the run of the chunk before: the runs before it are dropped. -/
def advanceRun (c : Nat) : List (Nat × Nat) → List (Nat × Nat)
  -- only the start of the next run is looked at: the first run serves the chunks before it as well
  | run :: next :: rest => if next.1 ≤ c + 1 then advanceRun c (next :: rest) else run :: next :: rest
  | runs => runs

/-- The samples of one chunk, one after another. -/
def placeChunk (t : LayoutTables) : Nat → Nat → List (Nat × Nat) → Checked (List (Nat × Nat))
  | 0, _, ranges => pure ranges
  | n + 1, offset, ranges =>
    if ranges.length = t.samples then fail "chunks hold more samples than stsz lists"
    else do
      let size ← sampleSize t ranges.length
      -- the offset moves on behind the last sample of the chunk as well
      let next ← addU64 offset size
      placeChunk t n next (ranges ++ [(offset, size)])

/-- The samples of some chunks. -/
def placeChunks (t : LayoutTables) : List Nat → List (Nat × Nat) → List (Nat × Nat) → Checked (List (Nat × Nat))
  | [], _, ranges => pure ranges
  | c :: chunks, runs, ranges => do
    let run ← context "chunk without stsc entry" (advanceRun c runs).head?
    let offset ← chunkOffset t.chunks c
    let ranges ← placeChunk t run.2 offset ranges
    placeChunks t chunks (advanceRun c runs) ranges

/-- Byte range of every sample, in decode order: offset and size. -/
def sampleRanges (t : LayoutTables) : Checked (List (Nat × Nat)) := do
  let ranges ← placeChunks t (List.range t.chunks.count) t.perChunk []
  if ranges.length ≠ t.samples then fail s!"chunks hold {ranges.length} of {t.samples} samples"
  else pure ranges

/-! ## When the samples are shown -/

/-- One sample: where it lies in the file, and when it is shown. -/
structure Span where
  offset : Nat
  size : Nat
  timeSec : Float

/-- The samples of the video track, **in the order of the file**. -/
structure VideoSampleTimes where
  spans : List Span
  ordered : spans.Pairwise fun a b => a.offset ≤ b.offset

/-- Samples before or at another's offset. -/
abbrev Span.le (a b : Span) : Prop := a.offset ≤ b.offset

instance : IsTrans Span Span.le := ⟨fun _ _ _ h h' => Nat.le_trans h h'⟩

instance : Std.Total Span.le := ⟨fun a b => Nat.le_total a.offset b.offset⟩

/-- Samples sorted by offset; those of one offset keep their order. -/
def VideoSampleTimes.byOffset (spans : List Span) : VideoSampleTimes :=
  ⟨spans.insertionSort Span.le, List.pairwise_insertionSort Span.le spans⟩

/-- Ticks in seconds; times before the start are the start. -/
def seconds (shown : Int) (timescale : Nat) : Float :=
  (Int64.ofInt (max shown 0)).toFloat / (UInt32.ofNat timescale).toFloat

/-- A division, which needs a divisor. -/
def timeSec (shown : Int) (timescale : Nat) : Checked Float :=
  if timescale = 0 then .error .divisionByZero else .ok (seconds shown timescale)

/-- Composition offsets, zero without a table. -/
def compositionOffsets (stbl : Bytes) (samples : Nat) : Checked (List Int) := do
  match ← child stbl Kind.ctts with
  | some ctts => expandRuns ctts samples true
  | none => pure (List.replicate samples 0)

/-- The samples from index `i` on, with the decode time of the first of them. -/
def presentSamples (timescale : Nat) (startTime : Int) (deltas composition : List Int) :
    Nat → Int → List (Nat × Nat) → Checked (List Span)
  | _, _, [] => pure []
  | i, decodeTime, range :: rest => do
    let offset ← index composition i
    let composed ← i64 (decodeTime + offset)
    let shown ← i64 (composed - startTime)
    let time ← timeSec shown timescale
    let delta ← index deltas i
    -- `checked_add`, unlike the two sums above
    let next ← context "sample time overflow"
      (if FitsI64 (decodeTime + delta) then some (decodeTime + delta) else none)
    let spans ← presentSamples timescale startTime deltas composition (i + 1) next rest
    pure (⟨range.1, range.2, time⟩ :: spans)

/-- The tables that say when the samples are shown. -/
structure Timing where
  deltas : List Int
  composition : List Int
  start : Int
  deriving DecidableEq

def readTiming (trak : Bytes) (t : LayoutTables) : Checked Timing := do
  let stts ← context "no stts" (← child t.stbl Kind.stts)
  let deltas ← expandRuns stts t.samples false
  let composition ← compositionOffsets t.stbl t.samples
  let start ← editStart trak
  pure ⟨deltas, composition, start⟩

def parseVideoTrak (trak mdia : Bytes) : Checked VideoSampleTimes := do
  let t ← readLayout mdia
  let ranges ← sampleRanges t
  let m ← readTiming trak t
  let spans ← presentSamples t.timescale m.start m.deltas m.composition 0 0 ranges
  pure (.byOffset spans)

/-- The first video track of some boxes. -/
def parseTracks : List (Bytes × Bytes) → Checked VideoSampleTimes
  | [] => fail "no video track"
  | (kind, trak) :: rest =>
    if kind ≠ Kind.trak then parseTracks rest
    else do
      match ← child trak Kind.mdia with
      | none => parseTracks rest
      | some mdia => do
        let hdlr ← child mdia Kind.hdlr
        if (hdlr.bind fun h => readExact h 8 4) = some Kind.vide then parseVideoTrak trak mdia
        else parseTracks rest

def parseMoov (moov : Bytes) : Checked VideoSampleTimes := do
  let found ← children moov
  parseTracks found

/-- Time of the sample whose bytes contain an offset. The samples up to the offset are counted by bisection, and the
last of them is looked at. -/
def timeAtOffset (times : VideoSampleTimes) (offset : Nat) : Checked (Option Float) :=
  -- `partition_point`: the samples are in the order of their offsets
  match (times.spans.takeWhile fun s => decide (s.offset ≤ offset)).length with
  | 0 => pure none
  | n + 1 =>
    match times.spans[n]? with
    | none => .error .outOfBounds
    | some span => do
      let stop ← addU64 span.offset span.size
      pure (if offset < stop then some span.timeSec else none)

end SentryUsb.Video.Mp4Samples
