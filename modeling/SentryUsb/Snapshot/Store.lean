import SentryUsb.Library.SortedMap
import SentryUsb.Library.TextLines
import SentryUsb.Grouper.Clip

/-! # The snapshots directory

Each capture of the cam disk stands in a directory `snap-NNNNNN` of its own, with the image, its table of contents
and the markers of the link bookkeeping (`crates/usb_gadget/src/snapshot.rs`).

* **`slotDigits`**, **`slotNum`**, **`snapName`** — how slots are named; **`slotNum_snapName`**;
* **`Snapshots`** — the directory; **`hasImage`**, **`hasToc`**, **`committed`** — what a slot holds;
* **`tocRow`** — a line of a table of contents. -/

namespace SentryUsb.Snapshot

open Library

/-! ## Names -/

/-- What every slot name starts with. -/
def snapWord : Text := ['s', 'n', 'a', 'p', '-']

/-- The digits of a slot name. -/
def slotDigits (name : Text) : Option Text :=
  (name.dropPrefix? snapWord).filter fun d => !d.isEmpty && d.all Char.isDigit

/-- A slot name: `snap-` and digits. -/
def isSnap (name : Text) : Bool := (slotDigits name).isSome

/-- An unsigned number of `w` bits, as the standard library reads it. -/
def parseUnsigned (w : Nat) (t : Text) : Option Nat :=
  let digits := if t.head? = some '+' then t.tail else t
  let n := Nat.ofDigitChars 10 digits 0
  if digits ≠ [] ∧ digits.all Char.isDigit = true ∧ n < 2 ^ w then some n else none

/-- The number of a slot, if it has one. -/
def slotNum (name : Text) : Option Nat := (slotDigits name).bind (parseUnsigned 32)

/-- The number a slot name spells, of any size. -/
def slotValue (name : Text) : Nat := Nat.ofDigitChars 10 ((slotDigits name).getD []) 0

/-- The name of a slot: its number with at least six digits. -/
def snapName (n : Nat) : Text := snapWord ++ (List.replicate (6 - (Nat.toDigits 10 n).length) '0' ++ Nat.toDigits 10 n)

theorem slotDigits_eq_some {name d : Text} :
    slotDigits name = some d ↔ name = snapWord ++ d ∧ d ≠ [] ∧ d.all Char.isDigit = true := by
  rw [slotDigits, Option.filter_eq_some_iff, List.dropPrefix?_eq_some_iff]
  constructor
  · rintro ⟨⟨p, rfl, hp⟩, hd⟩
    rw [beq_iff_eq.mp hp]
    simpa using hd
  · rintro ⟨rfl, hd⟩
    exact ⟨⟨snapWord, rfl, beq_iff_eq.mpr rfl⟩, by simpa using hd⟩

/-- A slot name is not empty, is no dot and holds no slash. -/
theorem isSnap_spec {name : Text} (h : isSnap name = true) : ∃ d, name = snapWord ++ d ∧ '/' ∉ name := by
  obtain ⟨d, hd⟩ := Option.isSome_iff_exists.mp h
  obtain ⟨rfl, -, hdigits⟩ := slotDigits_eq_some.mp hd
  refine ⟨d, rfl, fun hslash => ?_⟩
  rcases List.mem_append.mp hslash with hword | hd
  · exact absurd hword (by decide)
  · exact absurd (List.all_eq_true.mp hdigits '/' hd) (by decide)

theorem slotDigits_snapName (n : Nat) :
    slotDigits (snapName n) = some (List.replicate (6 - (Nat.toDigits 10 n).length) '0' ++ Nat.toDigits 10 n) := by
  refine slotDigits_eq_some.mpr ⟨rfl, ?_, ?_⟩
  · have hpos := Nat.length_toDigits_pos (b := 10) (n := n)
    intro hnil
    rw [(List.append_eq_nil_iff.mp hnil).2] at hpos
    exact absurd hpos (lt_irrefl 0)
  · rw [List.all_append, Bool.and_eq_true]
    constructor
    · rw [List.all_eq_true]
      intro c hc
      rw [(List.mem_replicate.mp hc).2]
      rfl
    · exact List.all_eq_true.mpr fun c hc => Nat.isDigit_of_mem_toDigits (by decide) (by decide) hc

theorem slotValue_snapName (n : Nat) : slotValue (snapName n) = n := by
  rw [slotValue, slotDigits_snapName, Option.getD_some, Nat.ofDigitChars_append, Nat.ofDigitChars_replicate_zero,
    Nat.mul_zero, Nat.ofDigitChars_ten_toDigits]

theorem snapName_injective {m n : Nat} (h : snapName m = snapName n) : m = n := by
  rw [← slotValue_snapName m, h, slotValue_snapName]

/-- What the number of a slot is. -/
theorem slotNum_eq_some {name : Text} {n : Nat} :
    slotNum name = some n ↔ isSnap name = true ∧ slotValue name = n ∧ n < 2 ^ 32 := by
  unfold slotNum isSnap slotValue
  cases hd : slotDigits name with
  | none => simp
  | some d =>
    obtain ⟨-, hne, hdigits⟩ := slotDigits_eq_some.mp hd
    have hplus : d.head? ≠ some '+' := by
      intro hhead
      exact absurd (List.all_eq_true.mp hdigits '+' (List.mem_of_head? hhead)) (by decide)
    rw [Option.bind_some, parseUnsigned, if_neg hplus, Option.getD_some]
    simp only [hne, hdigits, ne_eq, not_false_eq_true, true_and, Option.isSome_some]
    constructor
    · intro h
      split at h
      · rename_i hlt
        obtain rfl := Option.some.inj h
        exact ⟨rfl, hlt⟩
      · simp at h
    · rintro ⟨rfl, hlt⟩
      rw [if_pos hlt]

theorem slotNum_snapName {n : Nat} (h : n < 2 ^ 32) : slotNum (snapName n) = some n := by
  rw [slotNum_eq_some, isSnap, slotDigits_snapName]
  exact ⟨rfl, slotValue_snapName n, h⟩

/-! ## The order of names -/

/-- A number of digits is below the power of ten of their count. -/
theorem ofDigitChars_lt {d : Text} (h : d.all Char.isDigit = true) : Nat.ofDigitChars 10 d 0 < 10 ^ d.length := by
  induction d with
  | nil => simp
  | cons c d ih =>
    rw [List.all_cons, Bool.and_eq_true] at h
    have hd := ih h.2
    have hc : c.toNat - '0'.toNat ≤ 9 := by
      have hdigit := h.1
      simp only [Char.isDigit, Bool.and_eq_true, decide_eq_true_iff] at hdigit
      have hupper : c.toNat ≤ 57 := UInt32.le_iff_toNat_le.mp hdigit.2
      exact Nat.sub_le_iff_le_add.mpr hupper
    rw [Nat.ofDigitChars_cons, Nat.mul_zero, Nat.zero_add, Nat.ofDigitChars_eq_ofDigitChars_zero, List.length_cons,
      Nat.pow_succ]
    have hmul := Nat.mul_le_mul_left (10 ^ d.length) hc
    omega

/-- Digits of one length sort by the number they spell. -/
theorem ofDigitChars_lt_of_lt {d e : Text} (hd : d.all Char.isDigit = true) (he : e.all Char.isDigit = true)
    (hlen : d.length = e.length) (h : d < e) : Nat.ofDigitChars 10 d 0 < Nat.ofDigitChars 10 e 0 := by
  induction d generalizing e with
  | nil =>
    rw [List.length_eq_zero_iff.mp hlen.symm] at h
    exact absurd h (lt_irrefl _)
  | cons c d ih =>
    cases e with
    | nil => simp at hlen
    | cons c' e =>
      rw [List.all_cons, Bool.and_eq_true] at hd he
      have hlen' : d.length = e.length := Nat.succ.inj hlen
      rw [Nat.ofDigitChars_cons, Nat.ofDigitChars_cons, Nat.mul_zero, Nat.zero_add, Nat.zero_add,
        Nat.ofDigitChars_eq_ofDigitChars_zero, @Nat.ofDigitChars_eq_ofDigitChars_zero e, hlen']
      rcases List.cons_lt_cons_iff.mp h with hc | ⟨rfl, hrest⟩
      · have hdlt := ofDigitChars_lt hd.2
        rw [hlen'] at hdlt
        have hlower : '0'.toNat ≤ c.toNat := by
          have hdigit := hd.1
          simp only [Char.isDigit, Bool.and_eq_true, decide_eq_true_iff] at hdigit
          exact UInt32.le_iff_toNat_le.mp hdigit.1
        have hcc : c.toNat < c'.toNat := UInt32.lt_iff_toNat_lt.mp hc
        have hsucc : c.toNat - '0'.toNat + 1 ≤ c'.toNat - '0'.toNat := by omega
        have hmul := Nat.mul_le_mul_left (10 ^ e.length) hsucc
        rw [Nat.mul_add, Nat.mul_one] at hmul
        omega
      · have hless := ih hd.2 he.2 hlen' hrest
        omega

/-- **Slot names of one length sort by slot.** -/
theorem slotValue_le_of_le {a b : Text} (ha : isSnap a = true) (hb : isSnap b = true) (hlen : a.length = b.length)
    (h : a ≤ b) : slotValue a ≤ slotValue b := by
  obtain ⟨d, hd⟩ := Option.isSome_iff_exists.mp ha
  obtain ⟨e, he⟩ := Option.isSome_iff_exists.mp hb
  rw [slotValue, slotValue, hd, he]
  obtain ⟨rfl, -, hddigits⟩ := slotDigits_eq_some.mp hd
  obtain ⟨rfl, -, hedigits⟩ := slotDigits_eq_some.mp he
  rcases lt_or_eq_of_le h with hlt | heq
  · have hcancel : ∀ {w d e : Text}, w ++ d < w ++ e → d < e := by
      intro w d e hwd
      induction w with
      | nil => exact hwd
      | cons c w ih =>
        rcases List.cons_lt_cons_iff.mp hwd with hc | ⟨-, hrest⟩
        · exact absurd hc (lt_irrefl c)
        · exact ih hrest
    exact le_of_lt (ofDigitChars_lt_of_lt hddigits hedigits (by simpa using hlen) (hcancel hlt))
  · rw [List.append_cancel_left heq]

/-! ## Tables of contents -/

/-- The text before and after the first occurrence of a character. -/
def splitOnce (c : Char) (t : Text) : Option (Text × Text) :=
  if c ∈ t then
    let before := t.takeWhile fun a => decide (a ≠ c)
    some (before, t.drop (before.length + 1))
  else none

theorem splitOnce_eq_none {c : Char} {t : Text} : splitOnce c t = none ↔ c ∉ t := by
  rw [splitOnce]
  by_cases hc : c ∈ t
  · simp [hc]
  · simp [hc]

/-- A text is cut at the first occurrence of a character. -/
theorem splitOnce_append {c : Char} {a : Text} (h : c ∉ a) (b : Text) : splitOnce c (a ++ c :: b) = some (a, b) := by
  have hall : ∀ d ∈ a, decide (d ≠ c) = true := fun d hd => decide_eq_true fun heq => h (heq ▸ hd)
  have hbefore : (a ++ c :: b).takeWhile (fun d => decide (d ≠ c)) = a := by
    rw [List.takeWhile_append_of_pos hall, List.takeWhile_cons_of_neg (by simp), List.append_nil]
  rw [splitOnce, if_pos (List.mem_append_right a List.mem_cons_self)]
  dsimp only
  rw [hbefore, List.drop_append, List.drop_eq_nil_of_le (Nat.le_succ _), List.nil_append, Nat.add_sub_cancel_left]
  rfl

/-- **A text that is cut** is what stands before the character, the character, and what stands behind it. -/
theorem splitOnce_eq_some_iff {c : Char} {t a b : Text} :
    splitOnce c t = some (a, b) ↔ c ∉ a ∧ t = a ++ c :: b := by
  constructor
  · intro h
    obtain ⟨hmem, heq⟩ := Option.ite_none_right_eq_some.mp h
    obtain ⟨before, after, rfl, hnot⟩ := List.eq_append_cons_of_mem hmem
    have hcut := splitOnce_append hnot after
    rw [h] at hcut
    obtain ⟨rfl, rfl⟩ := Prod.mk.inj (Option.some.inj hcut)
    exact ⟨hnot, rfl⟩
  · rintro ⟨hnot, rfl⟩
    exact splitOnce_append hnot b

/-- The size and the path of a line `<size> <path>`. -/
def tocRow (line : Text) : Option (Nat × Text) :=
  (splitOnce ' ' line).bind fun parts => (parseUnsigned 64 parts.1).map fun size => (size, parts.2)

/-- The sizes and paths a table of contents lists. -/
def tocRows (toc : Text) : List (Nat × Text) := (lines toc).filterMap tocRow

/-! ## The directory -/

/-- A slot's directory: the image by the time it was last changed, the table of contents (with its text where it can
be read in full) and the one being written, the markers of the links it owes, and the link `mnt` to its mount. -/
structure SlotDir where
  image : Option Nat
  toc : Option (Option Text)
  tocTmp : Option (Option Text)
  pending : Option Text
  verify : Bool
  gaveUp : Option Text
  mnt : Bool
  deriving DecidableEq

/-- A directory without files. -/
def SlotDir.empty : SlotDir := ⟨none, none, none, none, false, none, false⟩

/-- What a name of the snapshots directory stands for: a directory, a file, or a symbolic link, which may lead to a
directory elsewhere. -/
inductive Entry where
  | dir (slot : SlotDir)
  | file
  | link (slot : Option SlotDir)
  deriving DecidableEq

/-- The directory a name leads to. -/
def Entry.slot? : Entry → Option SlotDir
  | .dir slot => some slot
  | .file => none
  | .link slot => slot

/-- Whether a name is a directory itself, not a link to one. -/
def Entry.isDir : Entry → Bool
  | .dir _ => true
  | _ => false

/-- The snapshots directory. -/
abbrev Snapshots := SortedMap Text Entry

/-- The directory of a slot. -/
def slotAt (s : Snapshots) (name : Text) : Option SlotDir := (s.get name).bind Entry.slot?

/-- Whether `snap.bin` is there. -/
def hasImage (s : Snapshots) (name : Text) : Bool := ((slotAt s name).bind SlotDir.image).isSome

/-- Whether `snap.bin.toc` is there. -/
def hasToc (s : Snapshots) (name : Text) : Bool := ((slotAt s name).bind SlotDir.toc).isSome

/-- Whether a slot has its image and its table of contents. -/
def committed (s : Snapshots) (name : Text) : Bool := hasImage s name && hasToc s name

/-- The text of a table of contents that can be read in full. -/
def tocText (s : Snapshots) (name : Text) : Option Text := ((slotAt s name).bind SlotDir.toc).join

end SentryUsb.Snapshot
