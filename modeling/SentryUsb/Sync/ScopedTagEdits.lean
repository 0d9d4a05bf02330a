import SentryUsb.Sync.ScopedTags
import SentryUsb.Library.Neighbours

/-! # What an edit of a scoped tag document does

A document says for every frame which tags it shows. An edit changes the frames of its ranges and no other, and
writes the result as few spans as possible.

* **`tagSet_congr`** — a canonical tag list is its set;
* **`Document.tagsAt_of_piece`** — tags change only at cuts;
* **`Coalesced`** — the spans written up to a frame; **`coalesced_foldl`** — the loop of `apply_delta` keeps it;
* **`Edited`** — what an edit is for: the result can be read, has the new tags where the edit is and the old ones
  elsewhere, in canonical spans;
* **`applyDelta_edited_iff`** — an accepted edit is one exactly when no frame of its ranges ends with more tags than
  a list may have. -/

namespace SentryUsb.Sync

open Library

/-! ## Canonical tag lists -/

theorem sorted_tagSet (tags : List Text) : (tagSet tags).Pairwise (· ≤ ·) := List.pairwise_insertionSort _ _

theorem nodup_tagSet (tags : List Text) : (tagSet tags).Nodup :=
  (List.perm_insertionSort _ _).nodup_iff.mpr tags.nodup_dedup

@[simp] theorem mem_tagSet {tags : List Text} {t : Text} : t ∈ tagSet tags ↔ t ∈ tags := by
  unfold tagSet
  rw [List.mem_insertionSort, List.mem_dedup]

/-- **A canonical list is its set.** -/
theorem tagSet_congr {tags others : List Text} (h : ∀ t, t ∈ tags ↔ t ∈ others) : tagSet tags = tagSet others := by
  refine List.Perm.eq_of_pairwise (fun a b _ _ hab hba => le_antisymm hab hba) (sorted_tagSet tags)
    (sorted_tagSet others) ?_
  refine (List.perm_ext_iff_of_nodup (nodup_tagSet tags) (nodup_tagSet others)).mpr fun t => ?_
  rw [mem_tagSet, mem_tagSet]
  exact h t

@[simp] theorem tagSet_tagSet (tags : List Text) : tagSet (tagSet tags) = tagSet tags :=
  tagSet_congr fun _ => mem_tagSet

theorem length_tagSet_le (tags : List Text) : (tagSet tags).length ≤ tags.length := by
  unfold tagSet
  rw [List.length_insertionSort]
  exact tags.dedup_sublist.length_le

/-- A tag within the limits. -/
def ValidTag (t : Text) : Prop := t ≠ [] ∧ utf16Length t ≤ 64

/-- A list `readTags` returns: canonical, of valid tags, and not too long. -/
structure CanonicalTags (tags : List Text) : Prop where
  canonical : tagSet tags = tags
  valid : ∀ t ∈ tags, ValidTag t
  short : tags.length ≤ 128

theorem readTags_eq_some {tags read : List Text} (h : readTags tags = some read) :
    read = tagSet tags ∧ CanonicalTags read := by
  unfold readTags at h
  split at h
  · rename_i hlimits
    obtain rfl := Option.some.inj h
    refine ⟨rfl, tagSet_tagSet tags, fun t ht => hlimits.2 t (mem_tagSet.mp ht), ?_⟩
    exact le_trans (length_tagSet_le tags) hlimits.1
  · simp at h

theorem readTags_of_canonical {tags : List Text} (hcanonical : tagSet tags = tags) (hvalid : ∀ t ∈ tags, ValidTag t)
    (hshort : tags.length ≤ 128) : readTags tags = some tags := by
  unfold readTags
  rw [if_pos ⟨hshort, hvalid⟩, hcanonical]

/-! ## Reading a document -/

/-- What `Document.parse` guarantees. -/
structure Document.Parsed (doc : Document) (total : Nat) : Prop where
  frames : doc.total = total
  positive : 0 < total
  default : CanonicalTags doc.default
  span : ∀ s ∈ doc.spans, s.startFrame < s.endFrame ∧ s.endFrame ≤ total ∧ CanonicalTags s.tags

theorem readSpans_eq_some {total prior : Nat} {spans read : List Span} (h : readSpans total prior spans = some read) :
    ∀ s ∈ read, s.startFrame < s.endFrame ∧ s.endFrame ≤ total ∧ CanonicalTags s.tags := by
  induction spans generalizing prior read with
  | nil =>
    obtain rfl := Option.some.inj h
    simp
  | cons span spans ih =>
    rw [readSpans] at h
    split at h
    · rename_i hspan
      obtain ⟨tags, htags, h⟩ := Option.bind_eq_some_iff.mp h
      obtain ⟨rest, hrest, rfl⟩ := Option.map_eq_some_iff.mp h
      intro s hs
      rcases List.mem_cons.mp hs with rfl | hs
      · have hbounds := hspan.2.1
        unfold inBounds at hbounds
        rw [Bool.and_eq_true, decide_eq_true_eq, decide_eq_true_eq] at hbounds
        exact ⟨hbounds.1, hbounds.2, (readTags_eq_some htags).2⟩
      · exact ih hrest s hs
    · simp at h

theorem Document.parsed {value : TagValue} {total : Nat} {doc : Document} (h : Document.parse value total = some doc) :
    doc.Parsed total := by
  unfold Document.parse at h
  split at h
  · simp at h
  · rename_i hpositive
    split at h
    · obtain ⟨default, hdefault, rfl⟩ := Option.map_eq_some_iff.mp h
      exact ⟨rfl, by omega, (readTags_eq_some hdefault).2, by simp⟩
    · split at h
      · obtain ⟨default, hdefault, h⟩ := Option.bind_eq_some_iff.mp h
        obtain ⟨spans, hspans, rfl⟩ := Option.map_eq_some_iff.mp h
        exact ⟨rfl, by omega, (readTags_eq_some hdefault).2, readSpans_eq_some hspans⟩
      · simp at h
    · simp at h

/-- The tags of a frame are a canonical list. -/
theorem Document.Parsed.canonical_tagsAt {doc : Document} {total : Nat} (h : doc.Parsed total) (frame : Nat) :
    CanonicalTags (doc.tagsAt frame) := by
  unfold Document.tagsAt
  split
  · rename_i s hs
    exact (h.span s (List.mem_of_find?_eq_some hs)).2.2
  · exact h.default

/-! ## Cuts -/

/-- What `Document.cuts` guarantees: increasing cuts, with both ends and every bound among them. -/
structure IsCuts (doc : Document) (ranges : List (Nat × Nat)) (cuts : List Nat) : Prop where
  increasing : cuts.Pairwise (· < ·)
  first : 0 ∈ cuts
  last : doc.total ∈ cuts
  span : ∀ s ∈ doc.spans, s.startFrame ∈ cuts ∧ s.endFrame ∈ cuts
  range : ∀ r ∈ ranges, r.1 ∈ cuts ∧ r.2 ∈ cuts
  bounds : ∀ r ∈ ranges, r.1 < r.2 ∧ r.2 ≤ doc.total
  upper : ∀ c ∈ cuts, c ≤ doc.total

theorem isCuts_of_cuts {doc : Document} {total : Nat} {ranges : List (Nat × Nat)} {cuts : List Nat}
    (hdoc : doc.Parsed total) (h : doc.cuts ranges = some cuts) : IsCuts doc ranges cuts := by
  unfold Document.cuts at h
  split at h
  · rename_i hranges
    obtain rfl := Option.some.inj h
    have hbounds : ∀ r ∈ ranges, r.1 < r.2 ∧ r.2 ≤ doc.total := by
      intro r hr
      have hin := List.all_eq_true.mp hranges.2.2 r hr
      unfold inBounds at hin
      rw [Bool.and_eq_true, decide_eq_true_eq, decide_eq_true_eq] at hin
      exact hin
    refine ⟨increasing_cutsOf _, mem_cutsOf.mpr (by simp), mem_cutsOf.mpr (by simp),
      fun s hs => ⟨mem_cutsOf.mpr ?_, mem_cutsOf.mpr ?_⟩, fun r hr => ⟨mem_cutsOf.mpr ?_, mem_cutsOf.mpr ?_⟩,
      hbounds, fun c hc => ?_⟩
    · exact List.mem_append_left _ (List.mem_cons_of_mem _ (List.mem_cons_of_mem _
        (List.mem_flatMap.mpr ⟨s, hs, by simp⟩)))
    · exact List.mem_append_left _ (List.mem_cons_of_mem _ (List.mem_cons_of_mem _
        (List.mem_flatMap.mpr ⟨s, hs, by simp⟩)))
    · exact List.mem_append_right _ (List.mem_flatMap.mpr ⟨r, hr, by simp⟩)
    · exact List.mem_append_right _ (List.mem_flatMap.mpr ⟨r, hr, by simp⟩)
    · have hc := mem_cutsOf.mp hc
      simp only [List.cons_append, List.mem_cons, List.mem_append, List.mem_flatMap, List.not_mem_nil, or_false] at hc
      rcases hc with rfl | rfl | ⟨s, hs, hc⟩ | ⟨r, hr, hc⟩
      · exact Nat.zero_le _
      · exact le_refl _
      · have hspan := hdoc.span s hs
        have hframes := hdoc.frames
        omega
      · have hrange := hbounds r hr
        omega
  · simp at h

section
variable {doc : Document} {ranges : List (Nat × Nat)} {cuts : List Nat} (h : IsCuts doc ranges cuts) {p : Nat × Nat}
  (hp : p ∈ pieces cuts) {f : Nat} (hlow : p.1 ≤ f) (hhigh : f < p.2)
include h hp hlow hhigh

/-- **Tags change only at cuts.** -/
theorem Document.tagsAt_of_piece : doc.tagsAt f = doc.tagsAt p.1 := by
  have hsame : doc.spans.find? (fun s => decide (s.startFrame ≤ f) && decide (f < s.endFrame))
      = doc.spans.find? (fun s => decide (s.startFrame ≤ p.1) && decide (p.1 < s.endFrame)) := by
    refine List.find?_congr fun s hs => ?_
    have hinside := inside_iff_of_piece h.increasing hp (h.span s hs).1 (h.span s hs).2 hlow hhigh
    rw [← Bool.decide_and, ← Bool.decide_and]
    exact decide_eq_decide.mpr hinside
  unfold Document.tagsAt
  rw [hsame]

/-- A selection changes only at cuts. -/
theorem selected_of_piece : selected ranges f = selected ranges p.1 := by
  unfold selected
  rw [Bool.eq_iff_iff, List.any_eq_true, List.any_eq_true]
  refine exists_congr fun r => and_congr_right fun hr => ?_
  have hinside := inside_iff_of_piece h.increasing hp (h.range r hr).1 (h.range r hr).2 hlow hhigh
  rw [← Bool.decide_and, ← Bool.decide_and, decide_eq_true_eq, decide_eq_true_eq]
  exact hinside

end

/-- A selected frame is one of the clip. -/
theorem IsCuts.lt_total {doc : Document} {ranges : List (Nat × Nat)} {cuts : List Nat} (h : IsCuts doc ranges cuts) {f : Nat}
    (hf : selected ranges f = true) : f < doc.total := by
  unfold selected at hf
  obtain ⟨r, hr, hin⟩ := List.any_eq_true.mp hf
  rw [Bool.and_eq_true, decide_eq_true_eq, decide_eq_true_eq] at hin
  have := h.bounds r hr
  omega

/-! ## Spans written so far -/

/-- The tags of a frame by a list of spans. -/
def spansAt (default : List Text) (spans : List Span) (frame : Nat) : List Text :=
  match spans.find? fun s => decide (s.startFrame ≤ frame) && decide (frame < s.endFrame) with
  | some s => s.tags
  | none => default

theorem Document.tagsAt_eq_spansAt (doc : Document) (frame : Nat) :
    doc.tagsAt frame = spansAt doc.default doc.spans frame := rfl

/-- Spans in order, none empty, none equal to the default, no two that touch equal. -/
structure Tidy (default : List Text) (spans : List Span) : Prop where
  span : ∀ s ∈ spans, s.startFrame < s.endFrame ∧ s.tags ≠ default ∧ s.extra = []
  ordered : spans.IsChain fun s t => s.endFrame ≤ t.startFrame ∧ (s.endFrame = t.startFrame → s.tags ≠ t.tags)

/-- The spans that give every frame before `c` its value. -/
structure Coalesced (default : List Text) (value : Nat → List Text) (c : Nat) (spans : List Span) : Prop where
  tidy : Tidy default spans
  bounded : ∀ s ∈ spans, s.endFrame ≤ c
  source : ∀ s ∈ spans, ∃ f < c, s.tags = value f
  reads : ∀ f < c, spansAt default spans f = value f

/-- Frames after every span have the default. -/
theorem spansAt_of_le {default : List Text} {spans : List Span} {f : Nat} (h : ∀ s ∈ spans, s.endFrame ≤ f) :
    spansAt default spans f = default := by
  unfold spansAt
  have hnone : spans.find? (fun s => decide (s.startFrame ≤ f) && decide (f < s.endFrame)) = none := by
    refine List.find?_eq_none.mpr fun s hs => ?_
    have := h s hs
    rw [Bool.and_eq_true, decide_eq_true_eq, decide_eq_true_eq]
    omega
  rw [hnone]

/-- One span more, after the others. -/
theorem spansAt_concat {default : List Text} {spans : List Span} {last : Span} {f : Nat} :
    spansAt default (spans ++ [last]) f
      = match spans.find? fun s => decide (s.startFrame ≤ f) && decide (f < s.endFrame) with
        | some s => s.tags
        | none => if last.startFrame ≤ f ∧ f < last.endFrame then last.tags else default := by
  unfold spansAt
  rw [List.find?_append]
  cases spans.find? fun s => decide (s.startFrame ≤ f) && decide (f < s.endFrame) with
  | some s => rfl
  | none =>
    rw [Option.none_or, List.find?_cons]
    by_cases hin : last.startFrame ≤ f ∧ f < last.endFrame
    · rw [if_pos hin, ← Bool.decide_and, decide_eq_true hin]
    · rw [if_neg hin, ← Bool.decide_and, decide_eq_false hin]
      rfl

/-- The loop body: a piece with the default adds nothing. -/
def writePiece (default : List Text) (value : Nat → List Text) (spans : List Span) (piece : Nat × Nat) : List Span :=
  if value piece.1 = default then spans else extendSpans spans piece (value piece.1)

section
variable {default : List Text} {value : Nat → List Text} {c d : Nat} (hlt : c < d)
  (hconst : ∀ f, c ≤ f → f < d → value f = value c)
include hlt hconst

/-- A piece with the default adds no span. -/
theorem Coalesced.skip {spans : List Span} (h : Coalesced default value c spans) (hdefault : value c = default) :
    Coalesced default value d spans := by
  refine ⟨h.tidy, fun s hs => le_trans (h.bounded s hs) (le_of_lt hlt), fun s hs => ?_, fun f hf => ?_⟩
  · obtain ⟨g, hg, htags⟩ := h.source s hs
    exact ⟨g, by omega, htags⟩
  · by_cases hfc : f < c
    · exact h.reads f hfc
    · rw [hconst f (by omega) hf, hdefault]
      exact spansAt_of_le fun s hs => le_trans (h.bounded s hs) (by omega)

/-- A piece begins a span. -/
theorem Coalesced.push {spans : List Span} (h : Coalesced default value c spans) (hdefault : value c ≠ default)
    (hnew : ∀ last ∈ spans.getLast?, last.endFrame = c → last.tags ≠ value c) :
    Coalesced default value d (spans ++ [⟨c, d, value c, []⟩]) := by
  refine ⟨⟨fun s hs => ?_, ?_⟩, fun s hs => ?_, fun s hs => ?_, fun f hf => ?_⟩
  · rcases List.mem_append.mp hs with hs | hs
    · exact h.tidy.span s hs
    · rw [List.mem_singleton.mp hs]
      exact ⟨hlt, hdefault, rfl⟩
  · refine List.isChain_append.mpr ⟨h.tidy.ordered, List.isChain_singleton _, fun last hlast next hnext => ?_⟩
    obtain rfl : (⟨c, d, value c, []⟩ : Span) = next := by simpa using hnext
    exact ⟨h.bounded last (List.mem_of_mem_getLast? hlast), hnew last hlast⟩
  · rcases List.mem_append.mp hs with hs | hs
    · exact le_trans (h.bounded s hs) (le_of_lt hlt)
    · rw [List.mem_singleton.mp hs]
  · rcases List.mem_append.mp hs with hs | hs
    · obtain ⟨g, hg, htags⟩ := h.source s hs
      exact ⟨g, by omega, htags⟩
    · rw [List.mem_singleton.mp hs]
      exact ⟨c, hlt, rfl⟩
  · rw [spansAt_concat]
    by_cases hfc : f < c
    · -- the new span is not reached
      rw [← h.reads f hfc, if_neg (by simp; omega)]
      rfl
    · rw [hconst f (by omega) hf]
      have hnone : spans.find? (fun s => decide (s.startFrame ≤ f) && decide (f < s.endFrame)) = none := by
        refine List.find?_eq_none.mpr fun s hs => ?_
        have := h.bounded s hs
        rw [Bool.and_eq_true, decide_eq_true_eq, decide_eq_true_eq]
        omega
      rw [hnone]
      exact if_pos ⟨by simp; omega, hf⟩

/-- A piece that touches the last span and has its tags extends it. -/
theorem Coalesced.grow {front : List Span} {last : Span} (h : Coalesced default value c (front ++ [last]))
    (htouch : last.endFrame = c) (htags : last.tags = value c) :
    Coalesced default value d (front ++ [{ last with endFrame := d }]) := by
  have hlast := h.tidy.span last (List.mem_append_right _ (List.mem_singleton_self last))
  refine ⟨⟨fun s hs => ?_, ?_⟩, fun s hs => ?_, fun s hs => ?_, fun f hf => ?_⟩
  · rcases List.mem_append.mp hs with hs | hs
    · exact h.tidy.span s (List.mem_append_left _ hs)
    · rw [List.mem_singleton.mp hs]
      exact ⟨show last.startFrame < d by omega, hlast.2⟩
  · -- the span still begins where it began
    obtain ⟨hfront, -, hcross⟩ := List.isChain_append.mp h.tidy.ordered
    refine List.isChain_append.mpr ⟨hfront, List.isChain_singleton _, fun s hs next hnext => ?_⟩
    obtain rfl : { last with endFrame := d } = next := by simpa using hnext
    exact hcross s hs last rfl
  · rcases List.mem_append.mp hs with hs | hs
    · exact le_trans (h.bounded s (List.mem_append_left _ hs)) (le_of_lt hlt)
    · rw [List.mem_singleton.mp hs]
  · rcases List.mem_append.mp hs with hs | hs
    · obtain ⟨g, hg, htags⟩ := h.source s (List.mem_append_left _ hs)
      exact ⟨g, by omega, htags⟩
    · rw [List.mem_singleton.mp hs]
      exact ⟨c, hlt, htags⟩
  · rw [spansAt_concat]
    by_cases hfc : f < c
    · rw [← h.reads f hfc, spansAt_concat]
      have hsame : (last.startFrame ≤ f ∧ f < d) ↔ (last.startFrame ≤ f ∧ f < last.endFrame) := by omega
      simp only [hsame]
    · rw [hconst f (by omega) hf]
      have hnone : front.find? (fun s => decide (s.startFrame ≤ f) && decide (f < s.endFrame)) = none := by
        refine List.find?_eq_none.mpr fun s hs => ?_
        have := h.bounded s (List.mem_append_left _ hs)
        rw [Bool.and_eq_true, decide_eq_true_eq, decide_eq_true_eq]
        omega
      rw [hnone, ← htags]
      exact if_pos ⟨show last.startFrame ≤ f by omega, hf⟩

theorem Coalesced.writePiece {spans : List Span} (h : Coalesced default value c spans) :
    Coalesced default value d (writePiece default value spans (c, d)) := by
  unfold Sync.writePiece
  by_cases hdefault : value c = default
  · rw [if_pos hdefault]
    exact h.skip hlt hconst hdefault
  · rw [if_neg hdefault]
    unfold extendSpans
    cases hlast : spans.getLast? with
    | none => exact h.push hlt hconst hdefault fun last hmem => absurd hmem (by simp [hlast])
    | some last =>
      dsimp only
      split
      · rename_i hmerge
        obtain ⟨front, rfl⟩ := List.getLast?_eq_some_iff.mp hlast
        rw [List.dropLast_concat]
        exact h.grow hlt hconst hmerge.1 hmerge.2
      · rename_i hmerge
        refine h.push hlt hconst hdefault fun last' hmem htouch htags => hmerge ?_
        rw [hlast] at hmem
        obtain rfl := Option.some.inj hmem
        exact ⟨htouch, htags⟩

end

/-- **The loop writes the spans of all pieces.** The induction is on the cuts, with the spans written before the first
of them. -/
theorem coalesced_foldl {default : List Text} {value : Nat → List Text} {c : Nat} {cuts : List Nat} {spans : List Span}
    (hincreasing : (c :: cuts).Pairwise (· < ·)) (hconst : ∀ p ∈ pieces (c :: cuts), ∀ f, p.1 ≤ f → f < p.2 → value f = value p.1)
    (h : Coalesced default value c spans) :
    Coalesced default value ((c :: cuts).getLast (List.cons_ne_nil c cuts))
      ((pieces (c :: cuts)).foldl (writePiece default value) spans) := by
  induction cuts generalizing c spans with
  | nil => exact h
  | cons d cuts ih =>
    obtain ⟨hfirst, hrest⟩ := List.pairwise_cons.mp hincreasing
    have hpieces : pieces (c :: d :: cuts) = (c, d) :: pieces (d :: cuts) := rfl
    rw [hpieces] at hconst ⊢
    rw [List.foldl_cons, List.getLast_cons (List.cons_ne_nil d cuts)]
    refine ih hrest (fun p hp => hconst p (List.mem_cons_of_mem _ hp)) ?_
    exact h.writePiece (hfirst d List.mem_cons_self) (hconst (c, d) List.mem_cons_self)

/-! ## An accepted edit -/

/-- What an edit means for a frame: its tags without the removed ones and with the added ones, in the ranges; its tags,
elsewhere. -/
def editedAt (doc : Document) (ranges : List (Nat × Nat)) (edit : TagEdit) (frame : Nat) : List Text :=
  if selected ranges frame then tagSet (TagEdit.apply (doc.tagsAt frame) edit) else doc.tagsAt frame

theorem mem_editedAt {doc : Document} {ranges : List (Nat × Nat)} {edit : TagEdit} {f : Nat} {t : Text} :
    t ∈ editedAt doc ranges edit f ↔ if selected ranges f then (t ∈ doc.tagsAt f ∧ t ∉ edit.removed) ∨ t ∈ edit.added
      else t ∈ doc.tagsAt f := by
  unfold editedAt
  split
  · simp [TagEdit.apply]
  · exact Iff.rfl

/-- The tags after an edit are canonical and valid; only their number is not checked. -/
theorem canonical_editedAt {doc : Document} {total : Nat} (hdoc : doc.Parsed total) {ranges : List (Nat × Nat)}
    {edit : TagEdit} (hadded : ∀ t ∈ edit.added, ValidTag t) (f : Nat) :
    tagSet (editedAt doc ranges edit f) = editedAt doc ranges edit f ∧ ∀ t ∈ editedAt doc ranges edit f, ValidTag t := by
  have htags := hdoc.canonical_tagsAt f
  unfold editedAt
  split
  · refine ⟨tagSet_tagSet _, fun t ht => ?_⟩
    have ht := mem_tagSet.mp ht
    unfold TagEdit.apply at ht
    rcases List.mem_append.mp ht with hold | hnew
    · exact htags.valid t (List.mem_of_mem_filter hold)
    · exact hadded t hnew
  · exact ⟨htags.canonical, htags.valid⟩

/-- Spans a document may hold, but for the number of tags. -/
structure Writable (total : Nat) (default : List Text) (spans : List Span) : Prop where
  tidy : Tidy default spans
  bounded : ∀ s ∈ spans, s.endFrame ≤ total
  tags : ∀ s ∈ spans, tagSet s.tags = s.tags ∧ ∀ t ∈ s.tags, ValidTag t

theorem Writable.tail {total : Nat} {default : List Text} {s : Span} {spans : List Span}
    (h : Writable total default (s :: spans)) : Writable total default spans :=
  ⟨⟨fun t ht => h.tidy.span t (List.mem_cons_of_mem _ ht), h.tidy.ordered.tail⟩,
    fun t ht => h.bounded t (List.mem_cons_of_mem _ ht), fun t ht => h.tags t (List.mem_cons_of_mem _ ht)⟩

/-- Written spans read back as they are, if their lists are short enough. -/
theorem readSpans_of_writable {total prior : Nat} {default : List Text} {spans : List Span}
    (h : Writable total default spans) (hprior : ∀ s ∈ spans.head?, prior ≤ s.startFrame)
    (hshort : ∀ s ∈ spans, s.tags.length ≤ 128) : readSpans total prior spans = some spans := by
  induction spans generalizing prior with
  | nil => rfl
  | cons s spans ih =>
    obtain ⟨hnonempty, -, hextra⟩ := h.tidy.span s List.mem_cons_self
    obtain ⟨hcanonical, hvalid⟩ := h.tags s List.mem_cons_self
    have hin : inBounds total (s.startFrame, s.endFrame) = true := by
      unfold inBounds
      rw [Bool.and_eq_true, decide_eq_true_eq, decide_eq_true_eq]
      exact ⟨hnonempty, h.bounded s List.mem_cons_self⟩
    have hlater : readSpans total s.endFrame spans = some spans := by
      refine ih h.tail (fun next hnext => ?_) fun t ht => hshort t (List.mem_cons_of_mem _ ht)
      have hchain := List.isChain_cons.mp h.tidy.ordered
      exact (hchain.1 next hnext).1
    rw [readSpans, if_pos ⟨hextra, hin, hprior s rfl⟩,
      readTags_of_canonical hcanonical hvalid (hshort s List.mem_cons_self), hlater]
    rfl

/-- A list that is too long is not read. -/
theorem short_of_readSpans {total prior : Nat} {spans read : List Span} (h : readSpans total prior spans = some read) :
    ∀ s ∈ spans, s.tags.length ≤ 128 := by
  induction spans generalizing prior read with
  | nil => simp
  | cons span spans ih =>
    rw [readSpans] at h
    split at h
    · obtain ⟨tags, htags, h⟩ := Option.bind_eq_some_iff.mp h
      obtain ⟨rest, hrest, -⟩ := Option.map_eq_some_iff.mp h
      intro s hs
      rcases List.mem_cons.mp hs with rfl | hs
      · unfold readTags at htags
        split at htags
        · rename_i hlimits
          exact hlimits.1
        · simp at htags
      · exact ih hrest s hs
    · simp at h

section
variable {total : Nat} {default : List Text} {spans : List Span} {rest : List (Text × Text)} (hpositive : 0 < total)
  (hdefault : CanonicalTags default) (hspans : Writable total default spans) (hcount : spans.length ≤ 256)
include hpositive hdefault hspans hcount

/-- **A written document reads back** exactly when its lists are short enough. -/
theorem parse_scoped_of_short (hshort : ∀ s ∈ spans, s.tags.length ≤ 128) :
    Document.parse (.scoped 2 total default spans rest) total = some ⟨rest, total, default, spans⟩ := by
  have hread := readSpans_of_writable hspans (fun _ _ => Nat.zero_le _) hshort
  unfold Document.parse
  rw [if_neg (by omega)]
  dsimp only
  rw [if_pos ⟨rfl, rfl, hcount⟩, readTags_of_canonical hdefault.canonical hdefault.valid hdefault.short, hread]
  rfl

end

theorem short_of_parse_scoped {version total totalFrames : Nat} {default : List Text} {spans : List Span}
    {rest : List (Text × Text)} {doc : Document}
    (h : Document.parse (.scoped version totalFrames default spans rest) total = some doc) :
    ∀ s ∈ spans, s.tags.length ≤ 128 := by
  unfold Document.parse at h
  split at h
  · simp at h
  · dsimp only at h
    split at h
    · obtain ⟨read, -, h⟩ := Option.bind_eq_some_iff.mp h
      obtain ⟨readSpans, hread, -⟩ := Option.map_eq_some_iff.mp h
      exact short_of_readSpans hread
    · simp at h

/-- Only the sets of added and removed tags matter. -/
theorem editedAt_congr {doc : Document} {ranges : List (Nat × Nat)} {edit other : TagEdit}
    (hadded : ∀ t, t ∈ edit.added ↔ t ∈ other.added) (hremoved : ∀ t, t ∈ edit.removed ↔ t ∈ other.removed) :
    editedAt doc ranges edit = editedAt doc ranges other := by
  funext f
  unfold editedAt
  split
  · apply tagSet_congr
    intro t
    unfold TagEdit.apply
    rw [List.mem_append, List.mem_append, List.mem_filter, List.mem_filter, decide_eq_true_eq, decide_eq_true_eq,
      hadded t, hremoved t]
  · rfl

/-- What `applyDelta` returns: the coalesced spans of the edited frames. -/
theorem applyDelta_eq_some {value result : TagValue} {total : Nat} {ranges : List (Nat × Nat)} {edit : TagEdit}
    {doc : Document} (hparse : Document.parse value total = some doc)
    (h : applyDelta value total ranges edit = some result) :
    ∃ cuts spans, result = .scoped 2 doc.total doc.default spans doc.rest ∧ spans.length ≤ 256
      ∧ IsCuts doc ranges cuts ∧ (∀ t ∈ edit.added, ValidTag t)
      ∧ Coalesced doc.default (editedAt doc ranges edit) doc.total spans := by
  unfold applyDelta at h
  rw [hparse, Option.bind_some] at h
  obtain ⟨cuts, hcuts, h⟩ := Option.bind_eq_some_iff.mp h
  obtain ⟨added, hadded, h⟩ := Option.bind_eq_some_iff.mp h
  obtain ⟨removed, hremoved, h⟩ := Option.bind_eq_some_iff.mp h
  have hcuts := isCuts_of_cuts (Document.parsed hparse) hcuts
  obtain ⟨rfl, haddedTags⟩ := readTags_eq_some hadded
  obtain ⟨rfl, -⟩ := readTags_eq_some hremoved
  split at h
  · dsimp only at h
    split at h
    · rename_i hcount
      refine ⟨cuts, _, (Option.some.inj h).symm, hcount, hcuts,
        fun t ht => haddedTags.valid t (mem_tagSet.mpr ht), ?_⟩
      have hvalue : editedAt doc ranges ⟨tagSet edit.added, tagSet edit.removed⟩ = editedAt doc ranges edit :=
        editedAt_congr (fun _ => mem_tagSet) fun _ => mem_tagSet
      rw [← hvalue]
      obtain ⟨rest, hfirst⟩ := eq_cons_of_least hcuts.increasing hcuts.first fun c _ => Nat.zero_le c
      have hconst : ∀ p ∈ pieces cuts, ∀ f, p.1 ≤ f → f < p.2 →
          editedAt doc ranges ⟨tagSet edit.added, tagSet edit.removed⟩ f
            = editedAt doc ranges ⟨tagSet edit.added, tagSet edit.removed⟩ p.1 := by
        intro p hp f hlow hhigh
        unfold editedAt
        rw [selected_of_piece hcuts hp hlow hhigh, Document.tagsAt_of_piece hcuts hp hlow hhigh]
      have hlast := getLast_eq_of_greatest hcuts.increasing hcuts.last hcuts.upper
        (List.ne_nil_of_mem hcuts.first)
      have hincreasing := hcuts.increasing
      subst hfirst
      have hcoalesced := coalesced_foldl hincreasing hconst
        (show Coalesced doc.default (editedAt doc ranges ⟨tagSet edit.added, tagSet edit.removed⟩) 0 [] from
          ⟨⟨by simp, List.isChain_nil⟩, by simp, by simp, fun f hf => absurd hf (by omega)⟩)
      rw [hlast] at hcoalesced
      exact hcoalesced
    · simp at h
  · simp at h

/-! ## Tags of a selection -/

/-- **A selection shows the tags of its frames.** -/
theorem mem_tagsForRanges {value : TagValue} {total : Nat} {ranges : List (Nat × Nat)} {doc : Document}
    {shown : List Text} (hparse : Document.parse value total = some doc)
    (h : tagsForRanges value total ranges = some shown) {t : Text} :
    t ∈ shown ↔ ∃ f, selected ranges f = true ∧ t ∈ doc.tagsAt f := by
  unfold tagsForRanges at h
  rw [hparse, Option.bind_some] at h
  obtain ⟨cuts, hcuts, rfl⟩ := Option.map_eq_some_iff.mp h
  have hcuts := isCuts_of_cuts (Document.parsed hparse) hcuts
  rw [mem_tagSet, List.mem_flatMap]
  constructor
  · rintro ⟨p, -, ht⟩
    split at ht
    · rename_i hselected
      exact ⟨p.1, hselected, ht⟩
    · simp at ht
  · rintro ⟨f, hselected, ht⟩
    obtain ⟨p, hp, hlow, hhigh⟩ := exists_piece hcuts.increasing hcuts.first hcuts.last (Nat.zero_le f)
      (hcuts.lt_total hselected)
    refine ⟨p, hp, ?_⟩
    rw [← selected_of_piece hcuts hp hlow hhigh, ← Document.tagsAt_of_piece hcuts hp hlow hhigh, if_pos hselected]
    exact ht

/-- Ranges that can be asked for. -/
def IsSelection (total : Nat) (ranges : List (Nat × Nat)) : Prop :=
  ranges ≠ [] ∧ ranges.length ≤ 256 ∧ ranges.all (inBounds total) = true

/-- The tags of every selection are those of its frames. -/
def ShowsFrames (value : TagValue) (doc : Document) : Prop :=
  ∀ ranges, IsSelection doc.total ranges → ∃ shown, tagsForRanges value doc.total ranges = some shown
    ∧ ∀ t, t ∈ shown ↔ ∃ f, selected ranges f = true ∧ t ∈ doc.tagsAt f

theorem showsFrames {value : TagValue} {total : Nat} {doc : Document} (hparse : Document.parse value total = some doc) :
    ShowsFrames value doc := by
  intro ranges hranges
  have hframes := (Document.parsed hparse).frames
  subst hframes
  have hsome : ∃ shown, tagsForRanges value doc.total ranges = some shown := by
    unfold IsSelection at hranges
    unfold tagsForRanges Document.cuts
    rw [hparse, Option.bind_some, if_pos hranges]
    exact ⟨_, rfl⟩
  obtain ⟨shown, hshown⟩ := hsome
  exact ⟨shown, hshown, fun t => mem_tagsForRanges hparse hshown⟩

/-! ## What an edit is for -/

/-- **An edit of a document.** The result reads as a document of the same clip, with the edit applied to the frames of
the ranges and to no other, in canonical spans, with the members the device does not know; before and after, a
selection shows the tags of its frames. -/
structure Edited (value : TagValue) (doc : Document) (ranges : List (Nat × Nat)) (edit : TagEdit) (result : TagValue)
    (out : Document) : Prop where
  reads : Document.parse result doc.total = some out
  total : out.total = doc.total
  inside : ∀ f, selected ranges f = true → ∀ t,
    t ∈ out.tagsAt f ↔ (t ∈ doc.tagsAt f ∧ t ∉ edit.removed) ∨ t ∈ edit.added
  outside : ∀ f, f < doc.total → selected ranges f = false → ∀ t, t ∈ out.tagsAt f ↔ t ∈ doc.tagsAt f
  tidy : Tidy out.default out.spans
  kept : out.rest = doc.rest
  shown : ShowsFrames value doc ∧ ShowsFrames result out

/-- The number of tags of no frame of the ranges passes the limit of a list. -/
def FitsLists (doc : Document) (ranges : List (Nat × Nat)) (edit : TagEdit) : Prop :=
  ∀ f, selected ranges f = true → (tagSet (TagEdit.apply (doc.tagsAt f) edit)).length ≤ 128

theorem FitsLists.editedAt {doc : Document} {total : Nat} {ranges : List (Nat × Nat)} {edit : TagEdit}
    (hdoc : doc.Parsed total) (h : FitsLists doc ranges edit) (f : Nat) : (editedAt doc ranges edit f).length ≤ 128 := by
  unfold Sync.editedAt
  split
  · exact h f ‹_›
  · exact (hdoc.canonical_tagsAt f).short

/-- The spans an accepted edit writes, as a document. -/
theorem applyDelta_writable {value result : TagValue} {total : Nat} {ranges : List (Nat × Nat)} {edit : TagEdit}
    {doc : Document} (hparse : Document.parse value total = some doc)
    (happly : applyDelta value total ranges edit = some result) :
    ∃ spans, result = .scoped 2 doc.total doc.default spans doc.rest ∧ spans.length ≤ 256
      ∧ Writable doc.total doc.default spans ∧ Coalesced doc.default (editedAt doc ranges edit) doc.total spans
      ∧ ∀ f, selected ranges f = true → f < doc.total := by
  have hdoc := Document.parsed hparse
  obtain ⟨cuts, spans, hresult, hcount, hcuts, hadded, hcoalesced⟩ := applyDelta_eq_some hparse happly
  refine ⟨spans, hresult, hcount, ⟨hcoalesced.tidy, hcoalesced.bounded, fun s hs => ?_⟩, hcoalesced,
    fun f hselected => hcuts.lt_total hselected⟩
  obtain ⟨f, -, htags⟩ := hcoalesced.source s hs
  rw [htags]
  exact canonical_editedAt hdoc hadded f

/-- **What an edit writes is what it is for**, once it reads. -/
theorem edited_of_reads {value result : TagValue} {total : Nat} {ranges : List (Nat × Nat)} {edit : TagEdit}
    {doc out : Document} (hparse : Document.parse value total = some doc)
    (happly : applyDelta value total ranges edit = some result) (hreads : Document.parse result doc.total = some out) :
    Edited value doc ranges edit result out := by
  have hdoc := Document.parsed hparse
  obtain ⟨spans, rfl, hcount, hwritable, hcoalesced, hlt⟩ := applyDelta_writable hparse happly
  have hframes := hdoc.frames
  subst hframes
  have hdocument : Document.parse (.scoped 2 doc.total doc.default spans doc.rest) doc.total
      = some ⟨doc.rest, doc.total, doc.default, spans⟩ :=
    parse_scoped_of_short hdoc.positive hdoc.default hwritable hcount (short_of_parse_scoped hreads)
  obtain rfl := Option.some.inj (hdocument.symm.trans hreads)
  have hframe : ∀ f < doc.total, ∀ t, t ∈ Document.tagsAt ⟨doc.rest, doc.total, doc.default, spans⟩ f
      ↔ t ∈ editedAt doc ranges edit f := by
    intro f hf t
    rw [Document.tagsAt_eq_spansAt, hcoalesced.reads f hf]
  refine ⟨hreads, rfl, fun f hselected t => ?_, fun f hf hselected t => ?_, hcoalesced.tidy, rfl,
    showsFrames hparse, showsFrames hreads⟩
  · rw [hframe f (hlt f hselected) t, mem_editedAt, if_pos hselected]
  · rw [hframe f hf t, mem_editedAt, if_neg (by simp [hselected])]

/-- **An accepted edit does what it is for exactly when every list it makes fits.** `apply_delta` bounds the number of
spans it writes, as the reader does, but not the number of tags in each. -/
theorem applyDelta_edited_iff {value result : TagValue} {total : Nat} {ranges : List (Nat × Nat)} {edit : TagEdit}
    {doc : Document} (hparse : Document.parse value total = some doc)
    (happly : applyDelta value total ranges edit = some result) :
    (∃ out, Edited value doc ranges edit result out) ↔ FitsLists doc ranges edit := by
  have hdoc := Document.parsed hparse
  obtain ⟨spans, hresult, hcount, hwritable, hcoalesced, hlt⟩ := applyDelta_writable hparse happly
  have hframes := hdoc.frames
  constructor
  · -- a frame with its own span has a list that was read; another has the default, which was read before
    rintro ⟨out, hedited⟩ f hselected
    have hreads := hedited.reads
    rw [hresult] at hreads
    have hshort := short_of_parse_scoped hreads
    have hvalue := hcoalesced.reads f (hlt f hselected)
    unfold Sync.editedAt at hvalue
    rw [if_pos hselected] at hvalue
    rw [← hvalue]
    unfold spansAt
    split
    · rename_i s hs
      exact hshort s (List.mem_of_find?_eq_some hs)
    · exact hdoc.default.short
  · intro hfits
    have hshort : ∀ s ∈ spans, s.tags.length ≤ 128 := by
      intro s hs
      obtain ⟨f, -, htags⟩ := hcoalesced.source s hs
      rw [htags]
      exact hfits.editedAt hdoc f
    have hreads : Document.parse result doc.total = some ⟨doc.rest, doc.total, doc.default, spans⟩ := by
      rw [hresult]
      exact parse_scoped_of_short (hframes ▸ hdoc.positive) hdoc.default hwritable hcount hshort
    exact ⟨_, edited_of_reads hparse happly hreads⟩

/-- Two tags on a clip; the first half loses one and gets another. -/
theorem applyDelta_edited_half : ∃ result out, Edited (.plain [['a'], ['b']]) ⟨[], 4, [['a'], ['b']], []⟩ [(0, 2)]
    ⟨[['c']], [['a']]⟩ result out :=
  have hparse : Document.parse (.plain [['a'], ['b']]) 4 = some ⟨[], 4, [['a'], ['b']], []⟩ := by decide +kernel
  have happly : applyDelta (.plain [['a'], ['b']]) 4 [(0, 2)] ⟨[['c']], [['a']]⟩
      = some (.scoped 2 4 [['a'], ['b']] [⟨0, 2, [['b'], ['c']], []⟩] []) := by decide +kernel
  ⟨_, (applyDelta_edited_iff hparse happly).mpr fun _ _ => by
    show (tagSet (TagEdit.apply [['a'], ['b']] ⟨[['c']], [['a']]⟩)).length ≤ 128
    decide +kernel⟩

/-- As many one-letter tags as a list may have. -/
def fullList : List Text := (List.range 128).map fun i => [Char.ofNat (256 + i)]

theorem mem_fullList {t : Text} : t ∈ fullList ↔ ∃ i < 128, [Char.ofNat (256 + i)] = t := by
  rw [fullList, List.mem_map]
  exact exists_congr fun i => and_congr_left fun _ => List.mem_range

theorem toNat_fullList {i : Nat} (h : i < 128) : (Char.ofNat (256 + i)).toNat = 256 + i := by
  have hvalid : (256 + i).isValidChar := Or.inl (by omega)
  rw [Char.ofNat, dif_pos hvalid]
  rfl

theorem sorted_fullList : fullList.Pairwise (· < ·) := by
  rw [fullList, List.pairwise_map]
  refine List.Pairwise.imp_of_mem (fun {i j} hi hj hlt => ?_) List.pairwise_lt_range
  refine List.Lex.rel ?_
  show (Char.ofNat (256 + i)).toNat < (Char.ofNat (256 + j)).toNat
  rw [toNat_fullList (List.mem_range.mp hi), toNat_fullList (List.mem_range.mp hj)]
  exact Nat.add_lt_add_left hlt 256

theorem readTags_fullList : readTags fullList = some fullList := by
  refine readTags_of_canonical ?_ (fun t ht => ?_) (le_of_eq rfl)
  · unfold tagSet
    rw [List.Nodup.dedup (sorted_fullList.imp fun hlt => ne_of_lt hlt)]
    exact (sorted_fullList.imp fun hlt => le_of_lt hlt).insertionSort_eq
  · obtain ⟨i, hi, rfl⟩ := mem_fullList.mp ht
    refine ⟨List.cons_ne_nil _ _, ?_⟩
    show ([if 0xFFFF < (Char.ofNat (256 + i)).toNat then 2 else 1].sum) ≤ 64
    rw [toNat_fullList hi, if_neg (by omega)]
    decide

/-- The full list with one tag more. -/
def overfullTags : List Text := tagSet (TagEdit.apply fullList ⟨[['x']], []⟩)

theorem length_overfullTags : 128 < overfullTags.length := by
  have hnew : ['x'] ∉ fullList := by
    intro hmem
    obtain ⟨i, hi, heq⟩ := mem_fullList.mp hmem
    have hcode := congrArg Char.toNat (List.cons.inj heq).1
    rw [toNat_fullList hi] at hcode
    exact absurd hcode (by rw [show 'x'.toNat = 120 from rfl]; omega)
  have hnodup : (['x'] :: fullList).Nodup :=
    List.nodup_cons.mpr ⟨hnew, sorted_fullList.imp fun hlt => ne_of_lt hlt⟩
  have hsubset : (['x'] :: fullList) ⊆ overfullTags := by
    intro t ht
    rw [overfullTags, mem_tagSet, TagEdit.apply, List.mem_append]
    rcases List.mem_cons.mp ht with rfl | ht
    · exact Or.inr List.mem_cons_self
    · exact Or.inl (List.mem_filter.mpr ⟨ht, rfl⟩)
  calc 128 < (['x'] :: fullList).length := Nat.lt_succ_self 128
    _ ≤ overfullTags.length := (List.subperm_of_subset hnodup hsubset).length_le

theorem parse_plain {tags : List Text} (hread : readTags tags = some tags) :
    Document.parse (.plain tags) 1 = some ⟨[], 1, tags, []⟩ := by
  unfold Document.parse
  rw [if_neg Nat.one_ne_zero]
  dsimp only
  rw [hread]
  rfl

/-- A tag is added to a clip of one frame. -/
theorem applyDelta_plain {tags : List Text} (hread : readTags tags = some tags)
    (hchanged : tagSet (TagEdit.apply tags ⟨[['x']], []⟩) ≠ tags) :
    applyDelta (.plain tags) 1 [(0, 1)] ⟨[['x']], []⟩
      = some (.scoped 2 1 tags [⟨0, 1, tagSet (TagEdit.apply tags ⟨[['x']], []⟩), []⟩] []) := by
  have hcuts : Document.cuts ⟨[], 1, tags, []⟩ [(0, 1)] = some [0, 1] := rfl
  have hadded : readTags [['x']] = some [['x']] := by decide
  have hremoved : readTags [] = some [] := by decide
  have hpieces : pieces [0, 1] = [(0, 1)] := rfl
  have hselected : selected [(0, 1)] 0 = true := rfl
  have htags : Document.tagsAt ⟨[], 1, tags, []⟩ 0 = tags := rfl
  unfold applyDelta
  rw [parse_plain hread, Option.bind_some, hcuts, Option.bind_some, hadded, Option.bind_some, hremoved,
    Option.bind_some, if_pos fun _ _ => List.not_mem_nil, hpieces, List.foldl_cons, List.foldl_nil]
  dsimp only
  rw [htags, if_pos hselected, if_neg hchanged]
  rfl

/-- One tag more is accepted, and the document cannot be read again. -/
theorem applyDelta_overfull : ∃ doc result, Document.parse (.plain fullList) 1 = some doc
    ∧ applyDelta (.plain fullList) 1 [(0, 1)] ⟨[['x']], []⟩ = some result
    ∧ ∀ out, ¬ Edited (.plain fullList) doc [(0, 1)] ⟨[['x']], []⟩ result out := by
  have hchanged : overfullTags ≠ fullList := by
    intro heq
    have hlength := length_overfullTags
    rw [heq, fullList, List.length_map, List.length_range] at hlength
    exact lt_irrefl 128 hlength
  refine ⟨_, _, parse_plain readTags_fullList, applyDelta_plain readTags_fullList hchanged, fun out hedited => ?_⟩
  have hshort := short_of_parse_scoped hedited.reads
  rw [List.forall_mem_singleton] at hshort
  dsimp only at hshort
  have hlong := length_overfullTags
  rw [overfullTags] at hlong
  exact Nat.not_lt.mpr hshort hlong

end SentryUsb.Sync
