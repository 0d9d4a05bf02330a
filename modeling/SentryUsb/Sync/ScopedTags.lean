import SentryUsb.Sync.IntentQueue

/-! # Frame-scoped tag documents

A clip's tags in the Cloud: a plain list, or a document with default tags and spans of frames that
override them. Independent drives that share a clip edit their own frames only.

* **`TagValue`** — what a decrypted value can be, **`Document.parse`** — and what is accepted;
* **`applyDelta`** — add and remove tags on frame ranges (`scoped_tags.rs`);
* **`tagsForRanges`** — the tags shown on frame ranges. -/

namespace SentryUsb.Sync

/-- A span as the Cloud holds it, with the names of members that do not belong there. -/
structure Span where
  startFrame : Nat
  endFrame : Nat
  tags : List Text
  extra : List Text
  deriving DecidableEq

/-- A decrypted tag value. -/
inductive TagValue where
  /-- Format 1: one list for the whole clip. -/
  | plain (tags : List Text)
  /-- Format 2, with the members the device does not know. -/
  | scoped (version totalFrames : Nat) (defaultTags : List Text) (spans : List Span)
      (rest : List (Text × Text))
  /-- Anything else. -/
  | unreadable
  deriving DecidableEq

/-- Length of a tag in UTF-16 code units. -/
def utf16Length (tag : Text) : Nat := (tag.map fun c => if 0xFFFF < c.toNat then 2 else 1).sum

/-- A tag list within limits, as a set (`tags`). -/
def readTags (tags : List Text) : Option (List Text) :=
  if tags.length ≤ 128 ∧ ∀ t ∈ tags, t ≠ [] ∧ utf16Length t ≤ 64 then some (tagSet tags) else none

/-- A half-open range of frames. -/
def inBounds (total : Nat) (range : Nat × Nat) : Bool :=
  decide (range.1 < range.2) && decide (range.2 ≤ total)

/-- A parsed document. -/
structure Document where
  rest : List (Text × Text)
  total : Nat
  default : List Text
  spans : List Span
  deriving DecidableEq

/-- Spans in order, from the end of the one before. -/
def readSpans (total : Nat) : Nat → List Span → Option (List Span)
  | _, [] => some []
  | priorEnd, s :: spans =>
    if s.extra = [] ∧ inBounds total (s.startFrame, s.endFrame) = true ∧ priorEnd ≤ s.startFrame then
      (readTags s.tags).bind fun tags =>
        (readSpans total s.endFrame spans).map fun rest =>
          { s with tags := tags } :: rest
    else none

/-- Read a value as a document of a clip with `total` frames (`Document::parse`). -/
def Document.parse (value : TagValue) (total : Nat) : Option Document :=
  if total = 0 then none
  else match value with
    | .plain tags => (readTags tags).map fun default => ⟨[], total, default, []⟩
    | .scoped version totalFrames defaultTags spans rest =>
      if version = 2 ∧ totalFrames = total ∧ spans.length ≤ 256 then
        (readTags defaultTags).bind fun default =>
          (readSpans total 0 spans).map fun spans => ⟨rest, total, default, spans⟩
      else none
    | .unreadable => none

/-- The tags of a frame (`at`). -/
def Document.tagsAt (doc : Document) (frame : Nat) : List Text :=
  match doc.spans.find? fun s => decide (s.startFrame ≤ frame) && decide (frame < s.endFrame) with
  | some s => s.tags
  | none => doc.default

/-- Every frame where a span or a range starts or ends, in order (`cuts`). -/
def Document.cuts (doc : Document) (ranges : List (Nat × Nat)) : Option (List Nat) :=
  if ranges ≠ [] ∧ ranges.length ≤ 256 ∧ ranges.all (inBounds doc.total) = true then
    some ((0 :: doc.total :: doc.spans.flatMap (fun s => [s.startFrame, s.endFrame])
      ++ ranges.flatMap (fun r => [r.1, r.2])).dedup.insertionSort (· ≤ ·))
  else none

/-- Whether a frame lies in one of the ranges. -/
def selected (ranges : List (Nat × Nat)) (frame : Nat) : Bool :=
  ranges.any fun r => decide (r.1 ≤ frame) && decide (frame < r.2)

/-- The pieces between neighbouring cuts. -/
def pieces (cuts : List Nat) : List (Nat × Nat) := cuts.zip cuts.tail

/-- The tags shown on a selection (`tags_for_ranges`). -/
def tagsForRanges (value : TagValue) (total : Nat) (ranges : List (Nat × Nat)) : Option (List Text) :=
  (Document.parse value total).bind fun doc =>
    (doc.cuts ranges).map fun cuts =>
      tagSet ((pieces cuts).flatMap fun piece =>
        if selected ranges piece.1 then doc.tagsAt piece.1 else [])

/-- Append a piece, growing the last span if it touches and agrees. -/
def extendSpans (spans : List Span) (piece : Nat × Nat) (tags : List Text) : List Span :=
  match spans.getLast? with
  | some last =>
    if last.endFrame = piece.1 ∧ last.tags = tags then
      spans.dropLast ++ [{ last with endFrame := piece.2 }]
    else spans ++ [⟨piece.1, piece.2, tags, []⟩]
  | none => spans ++ [⟨piece.1, piece.2, tags, []⟩]

/-- Add and remove tags on a selection; other frames keep theirs (`apply_delta`). -/
def applyDelta (value : TagValue) (total : Nat) (ranges : List (Nat × Nat)) (edit : TagEdit) :
    Option TagValue :=
  (Document.parse value total).bind fun doc =>
    (doc.cuts ranges).bind fun cuts =>
      (readTags edit.added).bind fun added =>
        (readTags edit.removed).bind fun removed =>
          if ∀ t ∈ added, t ∉ removed then
            let spans := (pieces cuts).foldl (fun spans piece =>
              let current := doc.tagsAt piece.1
              let next := if selected ranges piece.1 then tagSet (TagEdit.apply current ⟨added, removed⟩)
                else current
              if next = doc.default then spans else extendSpans spans piece next) []
            if spans.length ≤ 256 then some (.scoped 2 doc.total doc.default spans doc.rest) else none
          else none

end SentryUsb.Sync
