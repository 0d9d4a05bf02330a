import SentryUsb.Video.SeiFields

/-! # Walking the top-level boxes of a clip

An MP4 file is a sequence of boxes, each with its size in front. Two loops walk it, one for the media data and one for a
box to be read whole. Both add the declared size to their offset in 64 bits (`extract.rs`, `mp4_samples.rs`).

* **`findMdatPass`** — one box of the walk for the media data (`find_mdat_box`);
* **`readTopLevelPass`** — one box of the walk for a wanted box (`read_top_level_box`);
* **`BoxesEnd`** — every box that is passed over ends below 2^64;
* **`boxWalks_iff`** — the offsets increase and the walks return when the boxes end, and only then. -/

namespace SentryUsb.Video

open Library

/-! ## Boxes -/

/-- The number of some bytes, the highest first (`from_be_bytes`). -/
def fromBeBytes (bytes : Bytes) : Nat := bytes.foldl (fun acc b => 256 * acc + b.toNat) 0

/-- `n` bytes of a file from an offset on, where it has as many. -/
def readExact (content : Bytes) (pos n : Nat) : Option Bytes :=
  if pos + n ≤ content.length then some ((content.drop pos).take n) else none

/-- Type, size and size of the header of a box. -/
structure BoxHeader where
  kind : Bytes
  size : Nat
  headerSize : Nat

/-- The header at an offset: a size of 1 is followed by one of 64 bits, and a size of 0 reaches to the end. -/
def readBoxHeader (content : Bytes) (pos : Nat) : Option BoxHeader :=
  (readExact content pos 8).bind fun header =>
    let size := fromBeBytes (header.take 4)
    let kind := header.drop 4
    if size = 1 then (readExact content (pos + 8) 8).map fun large => ⟨kind, fromBeBytes large, 16⟩
    else if size = 0 then some ⟨kind, content.length - pos, 8⟩
    else some ⟨kind, size, 8⟩

def mdat : Bytes := [0x6D, 0x64, 0x61, 0x74]

/-- Largest box that is read whole. -/
def maxMoovBytes : Nat := 16 * 1024 * 1024

/-! ## The walks -/

/-- One box of the walk for the media data; offset 0 and size 0 stand for none. -/
def findMdatPass (content : Bytes) (pos : Nat) : Turn Nat (Nat × Nat) :=
  if pos < content.length then
    match readBoxHeader content pos with
    | none => .done (0, 0)
    | some h =>
      if h.size < h.headerSize then .done (0, 0)
      else if h.kind = mdat then .done (Width.w64.add pos h.headerSize, h.size - h.headerSize)
      else .again (Width.w64.add pos h.size)
  else .done (0, 0)

/-- Why a box cannot be read. -/
inductive BoxError where
  /-- The offset cannot be reached, or the file ends within the header. -/
  | io
  /-- `corrupt box at {pos}` -/
  | corrupt (pos : Nat)
  /-- `{want} box too large or truncated` -/
  | tooLarge (want : Bytes)
  deriving DecidableEq, Repr

/-- One box of the walk for a wanted one. An offset beyond the signed range cannot be reached. -/
def readTopLevelPass (content want : Bytes) (pos : Nat) : Turn Nat (Except BoxError (Option Bytes)) :=
  if Width.w64.add pos 8 ≤ content.length then
    if 2 ^ 63 ≤ pos then .done (.error .io)
    else match readBoxHeader content pos with
      | none => .done (.error .io)
      | some h =>
        if h.size < h.headerSize then .done (.error (.corrupt pos))
        else if h.kind = want then
          if maxMoovBytes < h.size - h.headerSize ∨ content.length < Width.w64.add pos h.size then
            .done (.error (.tooLarge want))
          else match readExact content (pos + h.headerSize) (h.size - h.headerSize) with
            | none => .done (.error .io)
            | some data => .done (.ok (some data))
        else .again (Width.w64.add pos h.size)
  else .done (.ok none)

/-- Offset and size of the media data, with a bound on the boxes (`find_mdat_box`). -/
def findMdatBox (content : Bytes) (fuel : Nat) : Option (Nat × Nat) := loop (findMdatPass content) fuel 0

/-- The content of a top-level box, with a bound on the boxes (`read_top_level_box`). -/
def readTopLevelBox (content want : Bytes) (fuel : Nat) : Option (Except BoxError (Option Bytes)) :=
  loop (readTopLevelPass content want) fuel 0

/-! ## Where boxes begin -/

/-- The box at an offset, which holds at least its header. -/
def boxAt (content : Bytes) (pos : Nat) : Option BoxHeader :=
  (readBoxHeader content pos).filter fun h => decide (h.headerSize ≤ h.size)

/-- The offsets a walk that stops at a type comes to. -/
inductive BoxStart (content stop : Bytes) : Nat → Prop where
  | first : BoxStart content stop 0
  | next {pos : Nat} {h : BoxHeader} (before : BoxStart content stop pos) (box : boxAt content pos = some h)
      (passed : h.kind ≠ stop) : BoxStart content stop (pos + h.size)

/-- **Every box that is passed over ends below 2^64.** -/
def BoxesEnd (content stop : Bytes) : Prop :=
  ∀ pos h, BoxStart content stop pos → boxAt content pos = some h → h.kind ≠ stop → pos + h.size < 2 ^ 64

theorem fromBeBytes_lt (bytes : Bytes) : fromBeBytes bytes < 256 ^ bytes.length := by
  have hfold : ∀ (l : Bytes) (acc : Nat),
      l.foldl (fun acc b => 256 * acc + b.toNat) acc < 256 ^ l.length * (acc + 1) := by
    intro l
    induction l with
    | nil => intro acc; simp
    | cons b l ih =>
      intro acc
      have hb := b.toNat_lt
      calc (b :: l).foldl (fun acc b => 256 * acc + b.toNat) acc
          < 256 ^ l.length * (256 * acc + b.toNat + 1) := ih _
        _ ≤ 256 ^ l.length * (256 * (acc + 1)) := Nat.mul_le_mul_left _ (by omega)
        _ = 256 ^ (b :: l).length * (acc + 1) := by rw [List.length_cons, Nat.pow_succ, Nat.mul_assoc]
  have h := hfold bytes 0
  rw [Nat.zero_add, Nat.mul_one] at h
  exact h

theorem length_of_readExact {content data : Bytes} {pos n : Nat} (h : readExact content pos n = some data) :
    data.length = n ∧ pos + n ≤ content.length := by
  unfold readExact at h
  obtain ⟨hle, h⟩ := Option.ite_none_right_eq_some.mp h
  obtain rfl := Option.some.inj h
  rw [List.length_take, List.length_drop]
  exact ⟨by omega, hle⟩

/-- A box that is read lies in the file at least with its first eight bytes, and its size is a number of 64 bits. -/
theorem boxAt_spec {content : Bytes} (hlen : content.length < 2 ^ 63) {pos : Nat} {h : BoxHeader}
    (hbox : boxAt content pos = some h) :
    readBoxHeader content pos = some h ∧ 8 ≤ h.headerSize ∧ h.headerSize ≤ 16 ∧ h.headerSize ≤ h.size
      ∧ h.size < 2 ^ 64 ∧ pos + 8 ≤ content.length := by
  obtain ⟨hread, hsize⟩ := Option.filter_eq_some_iff.mp hbox
  have hsize := of_decide_eq_true hsize
  refine ⟨hread, ?_⟩
  unfold readBoxHeader at hread
  obtain ⟨header, hheader, hread⟩ := Option.bind_eq_some_iff.mp hread
  obtain ⟨hlength, hin⟩ := length_of_readExact hheader
  have hsmall := fromBeBytes_lt (header.take 4)
  rw [List.length_take, hlength, show min 4 8 = 4 from rfl] at hsmall
  dsimp only at hread
  split at hread
  · obtain ⟨large, hlarge, rfl⟩ := Option.map_eq_some_iff.mp hread
    have hbound := fromBeBytes_lt large
    rw [(length_of_readExact hlarge).1] at hbound
    exact ⟨show 8 ≤ 16 by decide, Nat.le_refl 16, hsize, hbound, hin⟩
  · split at hread
    · obtain rfl := Option.some.inj hread
      exact ⟨Nat.le_refl 8, show 8 ≤ 16 by decide, hsize, show content.length - pos < 2 ^ 64 by omega, hin⟩
    · obtain rfl := Option.some.inj hread
      exact ⟨Nat.le_refl 8, show 8 ≤ 16 by decide, hsize, show fromBeBytes (header.take 4) < 2 ^ 64 by omega, hin⟩

/-! ## One walk -/

section Walk

variable {ρ : Type} {content stop : Bytes} {pass : Nat → Turn Nat ρ}

/-- A walk passes over the boxes of other types and stops at everything else. -/
def IsWalk (content stop : Bytes) (pass : Nat → Turn Nat ρ) : Prop :=
  ∀ pos next, pass pos = .again next ↔
    ∃ h, boxAt content pos = some h ∧ h.kind ≠ stop ∧ next = Width.w64.add pos h.size

/-- Where the boxes end, the walk comes to their beginnings. -/
theorem boxStart_of_visits (hwalk : IsWalk content stop pass) (hend : BoxesEnd content stop) {pos : Nat}
    (h : Visits pass 0 pos) : BoxStart content stop pos := by
  induction h with
  | start => exact .first
  | next _ htaken ih =>
    obtain ⟨box, hbox, hkind, rfl⟩ := (hwalk _ _).mp htaken
    rw [Width.add_eq (hend _ _ ih hbox hkind)]
    exact .next ih hbox hkind

/-- An offset and a size whose sum wraps lead back. -/
theorem lt_of_lt_add {pos size : Nat} (hsize : size < 2 ^ 64) (hforward : pos < Width.w64.add pos size) :
    pos + size < 2 ^ 64 := by
  by_contra hwraps
  unfold Width.add Width.modulus at hforward
  dsimp only at hforward
  by_cases htwice : pos < 2 ^ 64
  · rw [Nat.mod_eq_sub_mod (by omega), Nat.mod_eq_of_lt (by omega)] at hforward
    omega
  · have := Nat.mod_lt (pos + size) (show 0 < 2 ^ 64 by decide)
    omega

/-- Where the offsets increase, the walk comes to every box. -/
theorem visits_of_boxStart (hlen : content.length < 2 ^ 63) (hwalk : IsWalk content stop pass)
    (hadvances : Advances id pass 0) {pos : Nat} (h : BoxStart content stop pos) : Visits pass 0 pos := by
  induction h with
  | first => exact .start
  | next _ hbox hkind ih =>
    have htaken := (hwalk _ _).mpr ⟨_, hbox, hkind, rfl⟩
    have hlt := lt_of_lt_add (boxAt_spec hlen hbox).2.2.2.2.1 (hadvances _ _ ih htaken)
    rw [Width.add_eq hlt] at htaken
    exact ih.next htaken

/-- **The offsets of a walk increase when the boxes it passes over end, and only then.** -/
theorem advances_iff (hlen : content.length < 2 ^ 63) (hwalk : IsWalk content stop pass) :
    Advances id pass 0 ↔ BoxesEnd content stop := by
  constructor
  · intro hadvances pos h hstart hbox hkind
    have htaken := (hwalk _ _).mpr ⟨h, hbox, hkind, rfl⟩
    exact lt_of_lt_add (boxAt_spec hlen hbox).2.2.2.2.1
      (hadvances _ _ (visits_of_boxStart hlen hwalk hadvances hstart) htaken)
  · intro hend pos next hpos htaken
    obtain ⟨h, hbox, hkind, rfl⟩ := (hwalk _ _).mp htaken
    obtain ⟨-, hheader, -, hsize, -, -⟩ := boxAt_spec hlen hbox
    rw [Width.add_eq (hend _ _ (boxStart_of_visits hwalk hend hpos) hbox hkind)]
    show pos < pos + h.size
    omega

/-- A walk whose offsets increase returns. -/
theorem returns_of_isWalk (hlen : content.length < 2 ^ 63) (hwalk : IsWalk content stop pass)
    (hadvances : Advances id pass 0) : Returns pass 0 := by
  refine returns_of_advances content.length hadvances fun pos next _ htaken => ?_
  obtain ⟨h, hbox, -, -⟩ := (hwalk _ _).mp htaken
  have hin := (boxAt_spec hlen hbox).2.2.2.2.2
  show pos < content.length
  omega

end Walk

/-! ## Both walks -/

/-- A box that is read and not corrupt. -/
theorem boxAt_eq_some {content : Bytes} {pos : Nat} {h : BoxHeader} (hread : readBoxHeader content pos = some h) :
    boxAt content pos = some h ↔ ¬ h.size < h.headerSize := by
  unfold boxAt
  rw [hread, Option.filter_some]
  split
  · rename_i hle
    have hle := of_decide_eq_true hle
    exact ⟨fun _ => by omega, fun _ => rfl⟩
  · rename_i hlt
    have hlt := of_decide_eq_false (Bool.eq_false_iff.mpr hlt)
    exact ⟨fun hnone => absurd hnone (by simp), fun hge => absurd hge (by omega)⟩

theorem isWalk_findMdatPass {content : Bytes} (hlen : content.length < 2 ^ 63) :
    IsWalk content mdat (findMdatPass content) := by
  intro pos next
  constructor
  · intro h
    unfold findMdatPass at h
    split at h
    · split at h
      · exact absurd h (by simp)
      · rename_i box hread
        split at h
        · exact absurd h (by simp)
        · rename_i hsize
          split at h
          · exact absurd h (by simp)
          · rename_i hkind
            injection h with h
            exact ⟨box, (boxAt_eq_some hread).mpr hsize, hkind, h.symm⟩
    · exact absurd h (by simp)
  · rintro ⟨box, hbox, hkind, rfl⟩
    obtain ⟨hread, hheader, -, hsize, -, hin⟩ := boxAt_spec hlen hbox
    unfold findMdatPass
    rw [if_pos (by omega), hread]
    dsimp only
    rw [if_neg (by omega), if_neg hkind]

theorem isWalk_readTopLevelPass {content : Bytes} (hlen : content.length < 2 ^ 63) (want : Bytes) :
    IsWalk content want (readTopLevelPass content want) := by
  intro pos next
  constructor
  · intro h
    unfold readTopLevelPass at h
    split at h
    · split at h
      · exact absurd h (by simp)
      · split at h
        · exact absurd h (by simp)
        · rename_i box hread
          split at h
          · exact absurd h (by simp)
          · rename_i hsize
            split at h
            · split at h
              · exact absurd h (by simp)
              · split at h
                · exact absurd h (by simp)
                · exact absurd h (by simp)
            · rename_i hkind
              injection h with h
              exact ⟨box, (boxAt_eq_some hread).mpr hsize, hkind, h.symm⟩
    · exact absurd h (by simp)
  · rintro ⟨box, hbox, hkind, rfl⟩
    obtain ⟨hread, hheader, -, hsize, -, hin⟩ := boxAt_spec hlen hbox
    unfold readTopLevelPass
    rw [Width.add_eq (show pos + 8 < 2 ^ 64 by omega), if_pos (by omega), if_neg (by omega), hread]
    dsimp only
    rw [if_neg (by omega), if_neg hkind]

/-- **The walk for the media data is sound**: its offsets increase, it returns, and a range it returns lies after the
offset where it was found. -/
def FindsMdatSafely (content : Bytes) : Prop :=
  Advances id (findMdatPass content) 0 ∧ Returns (findMdatPass content) 0
    ∧ ∀ pos range, Visits (findMdatPass content) 0 pos → findMdatPass content pos = .done range → range ≠ (0, 0) →
      pos < range.1

/-- **The walk for a wanted box is sound**: its offsets increase and it returns. -/
def ReadsTopLevelSafely (content want : Bytes) : Prop :=
  Advances id (readTopLevelPass content want) 0 ∧ Returns (readTopLevelPass content want) 0

/-- A range that is found lies after the offset where it was found. -/
theorem lt_of_findMdatPass {content : Bytes} (hlen : content.length < 2 ^ 63) {pos : Nat} {range : Nat × Nat}
    (h : findMdatPass content pos = .done range) (hsome : range ≠ (0, 0)) : pos < range.1 := by
  unfold findMdatPass at h
  split at h
  · split at h
    · injection h with h
      exact absurd h.symm hsome
    · rename_i box hread
      split at h
      · injection h with h
        exact absurd h.symm hsome
      · rename_i hsize
        split at h
        · injection h with h
          obtain ⟨-, hheader, hheaderle, -, -, hin⟩ := boxAt_spec hlen ((boxAt_eq_some hread).mpr hsize)
          rw [← h, Width.add_eq (show pos + box.headerSize < 2 ^ 64 by omega)]
          show pos < pos + box.headerSize
          omega
        · exact absurd h (by simp)
  · injection h with h
    exact absurd h.symm hsome

/-- **The walks over the top-level boxes are sound when every box they pass over ends below 2^64, and only then.** A
file has fewer than 2^63 bytes. -/
theorem boxWalks_iff {content : Bytes} (hlen : content.length < 2 ^ 63) (want : Bytes) :
    FindsMdatSafely content ∧ ReadsTopLevelSafely content want ↔ BoxesEnd content mdat ∧ BoxesEnd content want := by
  have hfind := isWalk_findMdatPass hlen
  have hread := isWalk_readTopLevelPass hlen want
  constructor
  · rintro ⟨⟨hfinds, -, -⟩, hreads, -⟩
    exact ⟨(advances_iff hlen hfind).mp hfinds, (advances_iff hlen hread).mp hreads⟩
  · rintro ⟨hmdat, hwant⟩
    have hfinds := (advances_iff hlen hfind).mpr hmdat
    have hreads := (advances_iff hlen hread).mpr hwant
    exact ⟨⟨hfinds, returns_of_isWalk hlen hfind hfinds, fun pos range _ hdone => lt_of_findMdatPass hlen hdone⟩,
      hreads, returns_of_isWalk hlen hread hreads⟩

/-! ## Files -/

def moov : Bytes := [0x6D, 0x6F, 0x6F, 0x76]

/-- A box of 8 bytes and the media data up to the end. -/
def twoBoxes : Bytes := [0, 0, 0, 8, 0x66, 0x72, 0x65, 0x65, 0, 0, 0, 0] ++ mdat ++ [1, 2, 3]

/-- Both walks of a plain file. -/
theorem boxWalks_twoBoxes : FindsMdatSafely twoBoxes ∧ ReadsTopLevelSafely twoBoxes moov := by
  have hstarts : ∀ stop pos, BoxStart twoBoxes stop pos → pos = 0 ∨ pos = 8 ∨ pos = 19 := by
    intro stop pos h
    induction h with
    | first => exact .inl rfl
    | next _ hbox _ ih =>
      rcases ih with rfl | rfl | rfl
      · obtain rfl := Option.some.inj (hbox.symm.trans (rfl : boxAt twoBoxes 0 = some ⟨[0x66, 0x72, 0x65, 0x65], 8, 8⟩))
        exact .inr (.inl rfl)
      · obtain rfl := Option.some.inj (hbox.symm.trans (rfl : boxAt twoBoxes 8 = some ⟨mdat, 11, 8⟩))
        exact .inr (.inr rfl)
      · exact absurd (hbox.symm.trans (rfl : boxAt twoBoxes 19 = none)) (Option.some_ne_none _)
  have hends : ∀ stop, BoxesEnd twoBoxes stop := by
    intro stop pos h hstart hbox _
    rcases hstarts stop pos hstart with rfl | rfl | rfl
    · obtain rfl := Option.some.inj (hbox.symm.trans (rfl : boxAt twoBoxes 0 = some ⟨[0x66, 0x72, 0x65, 0x65], 8, 8⟩))
      exact (by decide : 0 + 8 < 2 ^ 64)
    · obtain rfl := Option.some.inj (hbox.symm.trans (rfl : boxAt twoBoxes 8 = some ⟨mdat, 11, 8⟩))
      exact (by decide : 8 + 11 < 2 ^ 64)
    · exact absurd (hbox.symm.trans (rfl : boxAt twoBoxes 19 = none)) (Option.some_ne_none _)
  exact (boxWalks_iff (by decide) moov).mpr ⟨hends mdat, hends moov⟩

/-- A box of 16 bytes, then one of 2^64 - 16. -/
def sizeLeadsBack : Bytes :=
  [0, 0, 0, 16, 0x66, 0x74, 0x79, 0x70] ++ List.replicate 8 0
    ++ [0, 0, 0, 1, 0x66, 0x72, 0x65, 0x65, 0xFF, 0xFF, 0xFF, 0xFF, 0xFF, 0xFF, 0xFF, 0xF0]

/-- The second box leads back to the first, so neither walk returns. -/
theorem not_boxWalks :
    ¬ (FindsMdatSafely sizeLeadsBack ∧ ReadsTopLevelSafely sizeLeadsBack moov)
      ∧ ∀ fuel, findMdatBox sizeLeadsBack fuel = none ∧ readTopLevelBox sizeLeadsBack moov fuel = none := by
  have hfind : ∀ fuel, findMdatBox sizeLeadsBack fuel = none := fun fuel => by
    refine loop_eq_none_of_closed (fun pos (hpos : pos = 0 ∨ pos = 16) => ?_) fuel (.inl rfl)
    rcases hpos with rfl | rfl
    · exact ⟨16, .inr rfl, rfl⟩
    · exact ⟨0, .inl rfl, rfl⟩
  have hread : ∀ fuel, readTopLevelBox sizeLeadsBack moov fuel = none := fun fuel => by
    refine loop_eq_none_of_closed (fun pos (hpos : pos = 0 ∨ pos = 16) => ?_) fuel (.inl rfl)
    rcases hpos with rfl | rfl
    · exact ⟨16, .inr rfl, rfl⟩
    · exact ⟨0, .inl rfl, rfl⟩
  refine ⟨fun hsound => ?_, fun fuel => ⟨hfind fuel, hread fuel⟩⟩
  obtain ⟨⟨-, ⟨fuel, range, hreturns⟩, -⟩, -⟩ := hsound
  exact absurd ((hfind fuel).symm.trans hreturns) (by simp)

end SentryUsb.Video
