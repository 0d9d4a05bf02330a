import SentryUsb.Config.ConfigFile
import SentryUsb.Snapshot.Store

/-! # Ranges of the media servers

Two servers answer requests for a part of a clip: the reader of archived disks (`disk_reader/src/http.rs`) and the one
that serves clips with the index in front (`api/src/teslacam_media.rs`). Each reads the `Range` header on its own.
Numbers are unsigned of 64 bits; sums and differences wrap.

* **`parseArchiveRange`**, **`fsGet`** — the reader of archived disks;
* **`parseRange`**, **`respond`** — the other server;
* **`ByteRange`** — a single range of bytes as the protocol writes it;
* **`meets_iff`** — which headers both servers answer rightly. -/

namespace SentryUsb.Media

open Library (trim isWhitespace)
open Config (stripPrefix)
open Snapshot (splitOnce parseUnsigned)

/-! ## Numbers -/

/-- A sum of 64 bits. -/
def wrappingAdd (a b : Nat) : Nat := (a + b) % 2 ^ 64

/-- A difference of 64 bits. -/
def wrappingSub (a b : Nat) : Nat := (a + 2 ^ 64 - b) % 2 ^ 64

theorem wrappingAdd_of_lt {a b : Nat} (h : a + b < 2 ^ 64) : wrappingAdd a b = a + b := Nat.mod_eq_of_lt h

theorem wrappingSub_of_le {a b : Nat} (hle : b ≤ a) (ha : a < 2 ^ 64) : wrappingSub a b = a - b := by
  rw [wrappingSub]
  omega

/-! ## The reader of archived disks -/

/-- What the ranges of bytes begin with. -/
def bytesWord : Text := ['b', 'y', 't', 'e', 's', '=']

/-- The two sides of the first range of a header. -/
def firstSpec (raw : Text) : Option (Text × Text) :=
  (stripPrefix bytesWord raw).bind fun specs => splitOnce '-' (trim (specs.takeWhile fun c => decide (c ≠ ',')))

/-- The first and the last byte a header asks for (`http.rs`, `parse_range`). -/
def parseArchiveRange (raw : Text) (size : Nat) : Option (Nat × Nat) :=
  (firstSpec raw).bind fun spec =>
    if spec.1 = [] then (parseUnsigned 64 spec.2).map fun n => (size - n, size - 1)
    else (parseUnsigned 64 spec.1).bind fun start =>
      (if spec.2 = [] then some (size - 1) else (parseUnsigned 64 spec.2).map fun last => min last (size - 1)).bind
        fun last => if start ≤ last ∧ start < size then some (start, last) else none

/-- What is sent of a file: where it starts, how long it is, and the first and last byte it is said to be. -/
structure Served where
  start : Nat
  length : Nat
  contentRange : Option (Nat × Nat)

/-- An answer to a request for a file (`fs_get`). -/
def fsGet (range : Option Text) (size : Nat) : Served :=
  let range := range.bind fun raw => parseArchiveRange raw size
  let span := range.getD (0, size - 1)
  { start := span.1
    length := if size = 0 then 0 else wrappingAdd (wrappingSub span.2 span.1) 1
    contentRange := range }

/-! ## The index-first server -/

/-- What a header asks for: a part is given by its start and its end. -/
inductive RangeRequest where
  | full
  | part (start stop : Nat)
  | unsatisfiable
  deriving DecidableEq

/-- The two sides of the only range of a header. -/
def onlySpec (value : Text) : Option (Text × Text) :=
  (stripPrefix bytesWord (trim value)).bind fun spec =>
    if ',' ∈ spec then none else (splitOnce '-' (trim spec)).map fun sides => (trim sides.1, trim sides.2)

/-- Reads a range whose start is given. -/
def parseInterval (first last : Text) (size : Nat) : RangeRequest :=
  match parseUnsigned 64 first with
  | none => .full
  | some start =>
    if size ≤ start then .unsatisfiable
    else if last = [] then .part start size
    else match parseUnsigned 64 last with
      | some last => if start ≤ last then .part start (min (wrappingAdd last 1) size) else .full
      | none => .full

/-- Reads a range header (`teslacam_media.rs`, `parse_range`). -/
def parseRange (value : Text) (size : Nat) : RangeRequest :=
  match onlySpec value with
  | none => .full
  | some (first, last) =>
    if first = [] then
      match parseUnsigned 64 last with
      | some n => if n = 0 then .unsatisfiable else .part (size - n) size
      | none => .full
    else parseInterval first last size

/-- An answer to a request for a clip, or a refusal (`respond`). A header whose condition no longer holds is not
regarded. -/
def respond (ifRangeOk : Bool) (range : Option Text) (size : Nat) : Option Served :=
  match (range.filter fun _ => ifRangeOk).elim .full fun value => parseRange value size with
  | .full => some ⟨0, wrappingSub size 0, none⟩
  | .part start stop => some ⟨start, wrappingSub stop start, some (start, wrappingSub stop 1)⟩
  | .unsatisfiable => none

/-! ## What the servers owe -/

/-- What is sent lies within the file, and is what the answer says it is. -/
structure Served.Inside (served : Served) (size : Nat) : Prop where
  within : served.start + served.length ≤ size
  said : ∀ first last, served.contentRange = some (first, last) →
    first = served.start ∧ last + 1 = served.start + served.length ∧ first ≤ last

/-- A single range of bytes. -/
inductive ByteRange where
  | between (first last : Text)
  | onward (first : Text)
  | suffix (length : Text)

/-- A number in decimal digits. -/
def IsDigits (t : Text) : Prop := t ≠ [] ∧ t.all Char.isDigit = true

/-- The number some digits spell, of any size. -/
def number (t : Text) : Nat := Nat.ofDigitChars 10 t 0

namespace ByteRange

def text : ByteRange → Text
  | between first last => first ++ '-' :: last
  | onward first => first ++ ['-']
  | suffix length => '-' :: length

def IsNumbers : ByteRange → Prop
  | between first last => IsDigits first ∧ IsDigits last
  | onward first => IsDigits first
  | suffix length => IsDigits length

/-- Some byte of a file of this size is asked for. -/
def Satisfiable (size : Nat) : ByteRange → Prop
  | between first last => number first ≤ number last ∧ number first < size
  | onward first => number first < size
  | suffix length => number length ≠ 0

/-- The start of the range in a file of this size. -/
def start (size : Nat) : ByteRange → Nat
  | between first _ | onward first => number first
  | suffix length => size - number length

/-- The end of the range in a file of this size. -/
def stop (size : Nat) : ByteRange → Nat
  | between _ last => min (number last + 1) size
  | onward _ | suffix _ => size

/-- The number by which the range ends has 64 bits. -/
def Fits : ByteRange → Prop
  | between _ last => number last < 2 ^ 64
  | onward _ => True
  | suffix length => number length < 2 ^ 64

end ByteRange

/-- A header that asks for one range of bytes: the name of the unit may be in capitals. -/
structure AsksFor (raw unit : Text) (range : ByteRange) (size : Nat) : Prop where
  eq : raw = unit ++ '=' :: range.text
  unit : unit.map Char.toLower = ['b', 'y', 't', 'e', 's']
  numbers : range.IsNumbers
  satisfiable : range.Satisfiable size

/-- **What both servers owe** for a header and a file: what they read lies within the file, and so does what they send, and a
single range of bytes is read as its part of the file. -/
structure Meets (raw : Text) (size : Nat) : Prop where
  archive : ∀ first last, parseArchiveRange raw size = some (first, last) → first ≤ last ∧ last < size
  archiveServed : (fsGet (some raw) size).Inside size
  media : 0 < size → ∀ start stop, parseRange raw size = .part start stop → start < stop ∧ stop ≤ size
  mediaServed : 0 < size → ∀ ifRangeOk served, respond ifRangeOk (some raw) size = some served → served.Inside size
  single : ∀ unit range, AsksFor raw unit range size →
    (∃ last, parseArchiveRange raw size = some (range.start size, last) ∧ last + 1 = range.stop size)
      ∧ parseRange raw size = .part (range.start size) (range.stop size)

/-- **When they do**: a suffix asks the reader of archived disks for some byte of a file that has one, the last byte asked of
the other server is not the greatest number of 64 bits, and a single range is asked for in small letters and in numbers of
64 bits. -/
structure Answerable (raw : Text) (size : Nat) : Prop where
  suffix : ∀ t n, firstSpec raw = some ([], t) → parseUnsigned 64 t = some n → n ≠ 0 ∧ size ≠ 0
  last : ∀ first last start, onlySpec raw = some (first, last) → parseUnsigned 64 first = some start → start < size →
    parseUnsigned 64 last ≠ some (2 ^ 64 - 1)
  single : ∀ unit range, AsksFor raw unit range size → unit ++ ['='] = bytesWord ∧ range.Fits

/-! ## Texts of ranges -/

/-- A digit is visible, and is none of the signs between numbers. -/
theorem visible_of_isDigit {c : Char} (h : c.isDigit = true) :
    (33 ≤ c.toNat ∧ c.toNat ≤ 126) ∧ c ≠ '-' ∧ c ≠ ',' ∧ c ≠ '+' := by
  have hd := h
  simp only [Char.isDigit, Bool.and_eq_true, decide_eq_true_eq, UInt32.le_iff_toNat_le] at hd
  refine ⟨⟨le_trans (by decide) hd.1, le_trans hd.2 (by decide)⟩, ?_, ?_, ?_⟩
  all_goals
    rintro rfl
    exact absurd h (by decide)

/-- A number in digits is read when it has 64 bits. -/
theorem parseUnsigned_of_isDigits {t : Text} (h : IsDigits t) :
    parseUnsigned 64 t = if number t < 2 ^ 64 then some (number t) else none := by
  have hplus : t.head? ≠ some '+' := by
    intro heq
    have hmem := List.mem_of_head? heq
    exact absurd (List.all_eq_true.mp h.2 '+' hmem) (by decide)
  rw [parseUnsigned, if_neg hplus, number]
  by_cases hlt : Nat.ofDigitChars 10 t 0 < 2 ^ 64
  · rw [if_pos ⟨h.1, h.2, hlt⟩, if_pos hlt]
  · rw [if_neg fun hall => hlt hall.2.2, if_neg hlt]

theorem parseUnsigned_eq_some_iff {t : Text} (h : IsDigits t) {n : Nat} :
    parseUnsigned 64 t = some n ↔ number t < 2 ^ 64 ∧ number t = n := by
  rw [parseUnsigned_of_isDigits h, Option.ite_none_right_eq_some, Option.some.injEq]

theorem stripPrefix_append (pre t : Text) : stripPrefix pre (pre ++ t) = some t := by
  rw [stripPrefix, if_pos (List.isPrefixOf_iff_prefix.mpr (List.prefix_append pre t)), List.drop_left]

namespace ByteRange

variable {range : ByteRange} {size : Nat}

/-- The two sides of a range. -/
def sides : ByteRange → Text × Text
  | between first last => (first, last)
  | onward first => (first, [])
  | suffix length => ([], length)

theorem text_eq (range : ByteRange) : range.text = range.sides.1 ++ '-' :: range.sides.2 := by
  cases range <;> rfl

/-- The sides consist of digits. -/
theorem isDigit_of_mem_sides (h : range.IsNumbers) {c : Char} (hc : c ∈ range.sides.1 ∨ c ∈ range.sides.2) :
    c.isDigit = true := by
  cases range with
  | between first last => exact hc.elim (List.all_eq_true.mp h.1.2 c) (List.all_eq_true.mp h.2.2 c)
  | onward first => exact hc.elim (List.all_eq_true.mp h.2 c) fun hnil => nomatch hnil
  | suffix length => exact hc.elim (fun hnil => nomatch hnil) (List.all_eq_true.mp h.2 c)

/-- The text of a range has neither blanks nor commas. -/
theorem visible_of_mem_text (h : range.IsNumbers) {c : Char} (hc : c ∈ range.text) :
    isWhitespace c = false ∧ c ≠ ',' := by
  rw [text_eq, List.mem_append, List.mem_cons] at hc
  have hdigit : c = '-' ∨ c.isDigit = true := by
    rcases hc with hc | rfl | hc
    · exact .inr (isDigit_of_mem_sides h (.inl hc))
    · exact .inl rfl
    · exact .inr (isDigit_of_mem_sides h (.inr hc))
  rcases hdigit with rfl | hdigit
  · exact ⟨by decide, by decide⟩
  · obtain ⟨hvisible, -, hcomma, -⟩ := visible_of_isDigit hdigit
    exact ⟨Library.isWhitespace_of_visible hvisible, hcomma⟩

theorem trim_side {t : Text} (h : ∀ c ∈ t, c.isDigit = true) : trim t = t :=
  Library.trim_eq_self fun c hc => Library.isWhitespace_of_visible (visible_of_isDigit (h c hc)).1

theorem splitOnce_text (h : range.IsNumbers) : splitOnce '-' range.text = some range.sides := by
  rw [text_eq]
  exact Snapshot.splitOnce_append (fun hmem => (visible_of_isDigit (isDigit_of_mem_sides h (.inl hmem))).2.1 rfl) _

/-- The reader of archived disks finds the sides of a range. -/
theorem firstSpec_eq (h : range.IsNumbers) : firstSpec (bytesWord ++ range.text) = some range.sides := by
  have hall : range.text.takeWhile (fun c => decide (c ≠ ',')) = range.text :=
    List.takeWhile_eq_self_iff.mpr fun c hc => decide_eq_true (visible_of_mem_text h hc).2
  rw [firstSpec, stripPrefix_append, Option.bind_some, hall,
    Library.trim_eq_self fun c hc => (visible_of_mem_text h hc).1, splitOnce_text h]

/-- The other server finds them too. -/
theorem onlySpec_eq (h : range.IsNumbers) : onlySpec (bytesWord ++ range.text) = some range.sides := by
  have hvisible : ∀ c ∈ bytesWord ++ range.text, isWhitespace c = false := by
    intro c hc
    rcases List.mem_append.mp hc with hword | htext
    · have hall : (bytesWord.all fun c => !isWhitespace c) = true := by decide
      exact (Bool.not_eq_true' _).mp (List.all_eq_true.mp hall c hword)
    · exact (visible_of_mem_text h htext).1
  have hcomma : ',' ∉ range.text := fun hmem => (visible_of_mem_text h hmem).2 rfl
  rw [onlySpec, Library.trim_eq_self hvisible, stripPrefix_append, Option.bind_some, if_neg hcomma,
    Library.trim_eq_self fun c hc => (visible_of_mem_text h hc).1, splitOnce_text h, Option.map_some,
    trim_side fun c hc => isDigit_of_mem_sides h (.inl hc), trim_side fun c hc => isDigit_of_mem_sides h (.inr hc)]

end ByteRange

/-! ## What is read -/

variable {raw : Text} {size : Nat}

theorem parseArchiveRange_suffix {t : Text} {n : Nat} (hspec : firstSpec raw = some ([], t))
    (hn : parseUnsigned 64 t = some n) : parseArchiveRange raw size = some (size - n, size - 1) := by
  rw [parseArchiveRange, hspec, Option.bind_some, if_pos rfl, hn, Option.map_some]

/-- **What the reader of archived disks reads**: a suffix, or a range within the file. -/
theorem parseArchiveRange_cases {first last : Nat} (h : parseArchiveRange raw size = some (first, last)) :
    (∃ t n, firstSpec raw = some ([], t) ∧ parseUnsigned 64 t = some n ∧ first = size - n ∧ last = size - 1)
      ∨ first ≤ last ∧ first < size ∧ last ≤ size - 1 := by
  obtain ⟨⟨left, right⟩, hspec, hsides⟩ := Option.bind_eq_some_iff.mp h
  by_cases hleft : left = []
  · rw [if_pos hleft] at hsides
    obtain ⟨n, hn, hpair⟩ := Option.map_eq_some_iff.mp hsides
    obtain ⟨rfl, rfl⟩ := Prod.mk.inj hpair
    exact .inl ⟨right, n, by rw [hspec, hleft], hn, rfl, rfl⟩
  · rw [if_neg hleft] at hsides
    obtain ⟨start, -, hlast⟩ := Option.bind_eq_some_iff.mp hsides
    obtain ⟨stop, hstop, hguard⟩ := Option.bind_eq_some_iff.mp hlast
    obtain ⟨⟨hle, hlt⟩, hpair⟩ := Option.ite_none_right_eq_some.mp hguard
    obtain ⟨rfl, rfl⟩ := Prod.mk.inj (Option.some.inj hpair)
    refine .inr ⟨hle, hlt, ?_⟩
    by_cases hright : right = []
    · rw [if_pos hright] at hstop
      exact le_of_eq (Option.some.inj hstop).symm
    · rw [if_neg hright] at hstop
      obtain ⟨n, -, rfl⟩ := Option.map_eq_some_iff.mp hstop
      exact Nat.min_le_right n _

theorem parseUnsigned_nil : parseUnsigned 64 [] = none := rfl

theorem parseRange_interval {first last : Text} (hspec : onlySpec raw = some (first, last)) (hfirst : first ≠ []) :
    parseRange raw size = parseInterval first last size := by
  simp only [parseRange, hspec, if_neg hfirst]

/-- A range whose end is the greatest number of 64 bits is read as one that ends at zero. -/
theorem parseRange_last {first last : Text} {start : Nat} (hspec : onlySpec raw = some (first, last))
    (hfirst : parseUnsigned 64 first = some start) (hstart : start < size)
    (hlast : parseUnsigned 64 last = some (2 ^ 64 - 1)) : parseRange raw size = .part start 0 := by
  have hne : first ≠ [] := by
    rintro rfl
    rw [parseUnsigned_nil] at hfirst
    exact absurd hfirst (Option.some_ne_none _).symm
  have hlne : last ≠ [] := by
    rintro rfl
    rw [parseUnsigned_nil] at hlast
    exact absurd hlast (Option.some_ne_none _).symm
  have hle : start ≤ 2 ^ 64 - 1 := by
    have hlt := (Option.ite_none_right_eq_some.mp hfirst).1.2.2
    have heq := Option.some.inj (Option.ite_none_right_eq_some.mp hfirst).2
    omega
  rw [parseRange_interval hspec hne]
  simp only [parseInterval, hfirst, hlast, if_neg (not_le.mpr hstart), if_neg hlne, if_pos hle]
  rw [wrappingAdd]
  congr 1

theorem parseInterval_cases {first last : Text} {start stop : Nat} (h : parseInterval first last size = .part start stop) :
    parseUnsigned 64 first = some start ∧ start < size
      ∧ (last = [] ∧ stop = size ∨ ∃ n, parseUnsigned 64 last = some n ∧ start ≤ n ∧ stop = min (wrappingAdd n 1) size) := by
  cases hfirst : parseUnsigned 64 first with
  | none => simp only [parseInterval, hfirst, reduceCtorEq] at h
  | some m =>
    simp only [parseInterval, hfirst] at h
    by_cases hsize : size ≤ m
    · rw [if_pos hsize] at h
      exact nomatch h
    rw [if_neg hsize] at h
    by_cases hlast : last = []
    · rw [if_pos hlast] at h
      obtain ⟨rfl, rfl⟩ := RangeRequest.part.inj h
      exact ⟨rfl, not_le.mp hsize, .inl ⟨hlast, rfl⟩⟩
    rw [if_neg hlast] at h
    cases hn : parseUnsigned 64 last with
    | none =>
      rw [hn] at h
      exact nomatch h
    | some n =>
      rw [hn] at h
      dsimp only at h
      by_cases hle : m ≤ n
      · rw [if_pos hle] at h
        obtain ⟨rfl, rfl⟩ := RangeRequest.part.inj h
        exact ⟨rfl, not_le.mp hsize, .inr ⟨n, rfl, hle, rfl⟩⟩
      · rw [if_neg hle] at h
        exact nomatch h

/-- **What the other server reads**: a suffix, or what it reads of a range with a start. -/
theorem parseRange_cases {start stop : Nat} (h : parseRange raw size = .part start stop) :
    (∃ n, n ≠ 0 ∧ start = size - n ∧ stop = size)
      ∨ ∃ first last, onlySpec raw = some (first, last) ∧ parseInterval first last size = .part start stop := by
  cases hspec : onlySpec raw with
  | none => simp only [parseRange, hspec, reduceCtorEq] at h
  | some spec =>
    obtain ⟨first, last⟩ := spec
    by_cases hfirst : first = []
    · simp only [parseRange, hspec, if_pos hfirst] at h
      cases hn : parseUnsigned 64 last with
      | none =>
        rw [hn] at h
        exact nomatch h
      | some n =>
        rw [hn] at h
        dsimp only at h
        by_cases hzero : n = 0
        · rw [if_pos hzero] at h
          exact nomatch h
        · rw [if_neg hzero] at h
          obtain ⟨rfl, rfl⟩ := RangeRequest.part.inj h
          exact .inl ⟨n, hzero, rfl, rfl⟩
    · rw [parseRange_interval hspec hfirst] at h
      exact .inr ⟨first, last, rfl, h⟩

/-! ## What is sent -/

/-- Bytes of a file from its start on, all of them or up to some byte. -/
theorem inside_of_within {start stop : Nat} (hlt : start < stop) (hstop : stop ≤ size) (hsize : size < 2 ^ 64) :
    Served.Inside ⟨start, wrappingSub stop start, some (start, wrappingSub stop 1)⟩ size where
  within := by
    dsimp only
    rw [wrappingSub_of_le (le_of_lt hlt) (by omega)]
    omega
  said first last h := by
    obtain ⟨rfl, rfl⟩ := Prod.mk.inj (Option.some.inj h)
    dsimp only
    rw [wrappingSub_of_le (le_of_lt hlt) (by omega), wrappingSub_of_le (by omega) (by omega)]
    omega

/-- **The reader of archived disks** sends bytes of the file when it reads a range within it. -/
theorem fsGet_inside (hsize : size < 2 ^ 64)
    (h : ∀ first last, parseArchiveRange raw size = some (first, last) → first ≤ last ∧ last < size) :
    (fsGet (some raw) size).Inside size := by
  have hfs : fsGet (some raw) size = Served.mk ((parseArchiveRange raw size).getD (0, size - 1)).1
      (if size = 0 then 0 else wrappingAdd (wrappingSub ((parseArchiveRange raw size).getD (0, size - 1)).2
        ((parseArchiveRange raw size).getD (0, size - 1)).1) 1) (parseArchiveRange raw size) := rfl
  rw [hfs]
  cases hrange : parseArchiveRange raw size with
  | none =>
    refine ⟨?_, fun first last hnone => nomatch hnone⟩
    rw [Option.getD_none]
    dsimp only
    by_cases hzero : size = 0
    · rw [if_pos hzero]
      omega
    · rw [if_neg hzero, wrappingSub_of_le (by omega) (by omega), wrappingAdd_of_lt (by omega)]
      omega
  | some span =>
    obtain ⟨first, last⟩ := span
    obtain ⟨hle, hlt⟩ := h first last hrange
    rw [Option.getD_some, if_neg (by omega), wrappingSub_of_le hle (by omega), wrappingAdd_of_lt (by omega)]
    refine ⟨by dsimp only; omega, fun first' last' heq => ?_⟩
    obtain ⟨rfl, rfl⟩ := Prod.mk.inj (Option.some.inj heq)
    dsimp only
    omega

/-- **The other server** sends bytes of the file when it reads a range within it. -/
theorem respond_inside (hsize : size < 2 ^ 64)
    (h : ∀ start stop, parseRange raw size = .part start stop → start < stop ∧ stop ≤ size) {ifRangeOk : Bool}
    {served : Served} (hserved : respond ifRangeOk (some raw) size = some served) : served.Inside size := by
  have hfull : Served.Inside ⟨0, wrappingSub size 0, none⟩ size := by
    refine ⟨?_, fun first last hnone => nomatch hnone⟩
    dsimp only
    rw [wrappingSub_of_le (Nat.zero_le size) hsize]
    omega
  cases ifRangeOk with
  | false =>
    obtain rfl := Option.some.inj hserved
    exact hfull
  | true =>
    cases hrange : parseRange raw size with
    | full =>
      simp only [respond, Option.filter_some, if_true, Option.elim_some, hrange, Option.some.injEq] at hserved
      rw [← hserved]
      exact hfull
    | part start stop =>
      obtain ⟨hlt, hstop⟩ := h start stop hrange
      simp only [respond, Option.filter_some, if_true, Option.elim_some, hrange, Option.some.injEq] at hserved
      rw [← hserved]
      exact inside_of_within hlt hstop hsize
    | unsatisfiable =>
      simp only [respond, Option.filter_some, if_true, Option.elim_some, hrange, reduceCtorEq] at hserved

/-! ## A single range -/

/-- **The reader of archived disks** reads a single range as its part of the file. -/
theorem parseArchiveRange_single {range : ByteRange} (hsize : size < 2 ^ 64) (hnumbers : range.IsNumbers)
    (hsatisfiable : range.Satisfiable size) (hfits : range.Fits) (hzero : size ≠ 0) :
    ∃ last, parseArchiveRange (bytesWord ++ range.text) size = some (range.start size, last)
      ∧ last + 1 = range.stop size := by
  cases range with
  | between first last =>
    obtain ⟨hle, hlt⟩ : number first ≤ number last ∧ number first < size := hsatisfiable
    have hfirst := (parseUnsigned_eq_some_iff hnumbers.1).mpr ⟨hlt.trans hsize, rfl⟩
    have hlast := (parseUnsigned_eq_some_iff hnumbers.2).mpr ⟨hfits, rfl⟩
    have hspec : firstSpec (bytesWord ++ (ByteRange.between first last).text) = some (first, last) :=
      ByteRange.firstSpec_eq hnumbers
    have hguard : number first ≤ min (number last) (size - 1) ∧ number first < size := ⟨by omega, hlt⟩
    refine ⟨min (number last) (size - 1), ?_, ?_⟩
    · simp only [parseArchiveRange, hspec, Option.bind_some, if_neg hnumbers.1.1, hfirst, if_neg hnumbers.2.1, hlast,
        Option.map_some, if_pos hguard, ByteRange.start]
    · rw [ByteRange.stop]
      omega
  | onward first =>
    have hlt : number first < size := hsatisfiable
    have hfirst := (parseUnsigned_eq_some_iff hnumbers).mpr ⟨hlt.trans hsize, rfl⟩
    have hspec : firstSpec (bytesWord ++ (ByteRange.onward first).text) = some (first, []) :=
      ByteRange.firstSpec_eq hnumbers
    have hguard : number first ≤ size - 1 ∧ number first < size := ⟨by omega, hlt⟩
    refine ⟨size - 1, ?_, ?_⟩
    · simp only [parseArchiveRange, hspec, Option.bind_some, if_neg hnumbers.1, hfirst, if_true, if_pos hguard,
        ByteRange.start]
    · rw [ByteRange.stop]
      omega
  | suffix length =>
    have hlength := (parseUnsigned_eq_some_iff hnumbers).mpr ⟨hfits, rfl⟩
    have hspec : firstSpec (bytesWord ++ (ByteRange.suffix length).text) = some ([], length) :=
      ByteRange.firstSpec_eq hnumbers
    refine ⟨size - 1, parseArchiveRange_suffix hspec hlength, ?_⟩
    rw [ByteRange.stop]
    omega

/-- **The other server** reads a single range as its part of the file, unless it ends with the greatest number. -/
theorem parseRange_single {range : ByteRange} (hsize : size < 2 ^ 64) (hnumbers : range.IsNumbers)
    (hsatisfiable : range.Satisfiable size) (hfits : range.Fits)
    (hlast : ∀ first last, range = .between first last → number last ≠ 2 ^ 64 - 1) :
    parseRange (bytesWord ++ range.text) size = .part (range.start size) (range.stop size) := by
  have hspec := ByteRange.onlySpec_eq hnumbers
  cases range with
  | between first last =>
    obtain ⟨hle, hlt⟩ : number first ≤ number last ∧ number first < size := hsatisfiable
    have hfirst := (parseUnsigned_eq_some_iff hnumbers.1).mpr ⟨hlt.trans hsize, rfl⟩
    have hnumber := (parseUnsigned_eq_some_iff hnumbers.2).mpr ⟨hfits, rfl⟩
    have hne := hlast first last rfl
    have hadd : wrappingAdd (number last) 1 = number last + 1 := by
      have hfits : number last < 2 ^ 64 := hfits
      exact wrappingAdd_of_lt (by omega)
    rw [parseRange_interval hspec hnumbers.1.1]
    simp only [parseInterval, hfirst, hnumber, if_neg (not_le.mpr hlt), if_neg hnumbers.2.1, if_pos hle,
      hadd, ByteRange.start, ByteRange.stop]
  | onward first =>
    have hlt : number first < size := hsatisfiable
    have hfirst := (parseUnsigned_eq_some_iff hnumbers).mpr ⟨hlt.trans hsize, rfl⟩
    rw [parseRange_interval hspec hnumbers.1]
    simp only [parseInterval, hfirst, if_neg (not_le.mpr hlt), if_true, ByteRange.start, ByteRange.stop]
  | suffix length =>
    have hlength := (parseUnsigned_eq_some_iff hnumbers).mpr ⟨hfits, rfl⟩
    have hne : number length ≠ 0 := hsatisfiable
    simp only [parseRange, hspec, ByteRange.sides, if_true, hlength, if_neg hne, ByteRange.start, ByteRange.stop]

/-- The reader of archived disks regards small letters only. -/
theorem unit_of_parseArchiveRange {unit t : Text} {span : Nat × Nat}
    (hunit : unit.map Char.toLower = ['b', 'y', 't', 'e', 's'])
    (h : parseArchiveRange (unit ++ '=' :: t) size = some span) : unit ++ ['='] = bytesWord := by
  obtain ⟨spec, hspec, -⟩ := Option.bind_eq_some_iff.mp h
  obtain ⟨specs, hspecs, -⟩ := Option.bind_eq_some_iff.mp hspec
  have hprefix := List.isPrefixOf_iff_prefix.mp (Option.ite_none_right_eq_some.mp hspecs).1
  have hlength : (unit ++ ['=']).length = bytesWord.length := by
    rw [List.length_append, ← List.length_map (f := Char.toLower), hunit]
    rfl
  have hown : unit ++ ['='] <+: unit ++ '=' :: t := ⟨t, by rw [List.append_assoc, List.singleton_append]⟩
  exact (List.prefix_of_prefix_length_le hown hprefix (le_of_eq hlength)).eq_of_length hlength

/-- The reader of archived disks regards numbers of 64 bits only. -/
theorem fits_of_parseArchiveRange {range : ByteRange} {span : Nat × Nat} (hnumbers : range.IsNumbers)
    (h : parseArchiveRange (bytesWord ++ range.text) size = some span) : range.Fits := by
  rw [parseArchiveRange, ByteRange.firstSpec_eq hnumbers, Option.bind_some] at h
  cases range with
  | between first last =>
    by_contra hfits
    have hlarge : ¬ number last < 2 ^ 64 := hfits
    have hnone := parseUnsigned_of_isDigits hnumbers.2
    rw [if_neg hlarge] at hnone
    simp only [ByteRange.sides, if_neg hnumbers.1.1, if_neg hnumbers.2.1, hnone, Option.map_none, Option.bind_none,
      Option.bind_fun_none, reduceCtorEq] at h
  | onward first => exact trivial
  | suffix length =>
    by_contra hfits
    have hlarge : ¬ number length < 2 ^ 64 := hfits
    have hnone := parseUnsigned_of_isDigits hnumbers
    rw [if_neg hlarge] at hnone
    simp only [ByteRange.sides, if_true, hnone, Option.map_none, reduceCtorEq] at h

theorem parseUnsigned_lt {t : Text} {n : Nat} (h : parseUnsigned 64 t = some n) : n < 2 ^ 64 := by
  obtain ⟨⟨-, -, hlt⟩, heq⟩ := Option.ite_none_right_eq_some.mp h
  rw [← Option.some.inj heq]
  exact hlt

/-- What both servers owe needs an answerable header. -/
theorem Meets.answerable (h : Meets raw size) : Answerable raw size where
  suffix t n hspec hn := by
    have hinside := h.archive _ _ (parseArchiveRange_suffix hspec hn)
    omega
  last first last start hspec hfirst hstart hlast := by
    have hpart := h.media (by omega) _ _ (parseRange_last hspec hfirst hstart hlast)
    omega
  single unit range hasks := by
    obtain ⟨last, hrange, -⟩ := (h.single unit range hasks).1
    obtain ⟨rfl, hunit, hnumbers, -⟩ := hasks
    have hword := unit_of_parseArchiveRange hunit hrange
    rw [← List.singleton_append, ← List.append_assoc, hword] at hrange
    exact ⟨hword, fits_of_parseArchiveRange hnumbers hrange⟩

/-- An answerable header is read within the file by the reader of archived disks. -/
theorem Answerable.archive (h : Answerable raw size) {first last : Nat}
    (hrange : parseArchiveRange raw size = some (first, last)) : first ≤ last ∧ last < size := by
  rcases parseArchiveRange_cases hrange with ⟨t, n, hspec, hn, rfl, rfl⟩ | ⟨hle, hlt, hlast⟩
  · have hpos := h.suffix t n hspec hn
    omega
  · omega

/-- An answerable header is read within the file by the other server. -/
theorem Answerable.media (h : Answerable raw size) (hsize : 0 < size) {start stop : Nat}
    (hrange : parseRange raw size = .part start stop) : start < stop ∧ stop ≤ size := by
  rcases parseRange_cases hrange with ⟨n, hn, rfl, rfl⟩ | ⟨first, last, hspec, hinterval⟩
  · omega
  · obtain ⟨hfirst, hstart, ⟨-, rfl⟩ | ⟨n, hlast, hle, rfl⟩⟩ := parseInterval_cases hinterval
    · exact ⟨hstart, le_refl stop⟩
    · have hne : n ≠ 2 ^ 64 - 1 := fun heq => h.last first last start hspec hfirst hstart (heq ▸ hlast)
      have hlt := parseUnsigned_lt hlast
      rw [wrappingAdd_of_lt (by omega)]
      omega

/-- **Both servers answer exactly the answerable headers rightly.** -/
theorem meets_iff (raw : Text) (size : Nat) (hsize : size < 2 ^ 64) : Meets raw size ↔ Answerable raw size := by
  refine ⟨Meets.answerable, fun h => ?_⟩
  have harchive : ∀ first last, parseArchiveRange raw size = some (first, last) → first ≤ last ∧ last < size :=
    fun first last => h.archive
  have hmedia : 0 < size → ∀ start stop, parseRange raw size = .part start stop → start < stop ∧ stop ≤ size :=
    fun hpos start stop => h.media hpos
  refine ⟨harchive, fsGet_inside hsize harchive, hmedia, fun hpos ifRangeOk served hserved =>
    respond_inside hsize (hmedia hpos) hserved, fun unit range hasks => ?_⟩
  obtain ⟨hunit, hfits⟩ := h.single unit range hasks
  obtain ⟨heq, -, hnumbers, hsatisfiable⟩ := hasks
  have hraw : raw = bytesWord ++ range.text := by
    rw [heq, ← hunit, List.append_assoc, List.singleton_append]
  subst hraw
  have hzero : size ≠ 0 := by
    cases range with
    | between first last => exact Nat.ne_of_gt (Nat.zero_lt_of_lt hsatisfiable.2)
    | onward first => exact Nat.ne_of_gt (Nat.zero_lt_of_lt hsatisfiable)
    | suffix length =>
      exact (h.suffix length (number length) (ByteRange.firstSpec_eq hnumbers)
        ((parseUnsigned_eq_some_iff hnumbers).mpr ⟨hfits, rfl⟩)).2
  refine ⟨parseArchiveRange_single hsize hnumbers hsatisfiable hfits hzero,
    parseRange_single hsize hnumbers hsatisfiable hfits ?_⟩
  rintro first last rfl hgreatest
  obtain ⟨hle, hlt⟩ : number first ≤ number last ∧ number first < size := hsatisfiable
  exact h.last first last (number first) (ByteRange.onlySpec_eq hnumbers)
    ((parseUnsigned_eq_some_iff hnumbers.1).mpr ⟨hlt.trans hsize, rfl⟩) hlt
    ((parseUnsigned_eq_some_iff hnumbers.2).mpr ⟨hfits, hgreatest⟩)

/-- The last bytes of a file. -/
theorem meets_lastBytes : Meets "bytes=-10".toList 100 ↔ Answerable "bytes=-10".toList 100 :=
  meets_iff "bytes=-10".toList 100 (by decide)

/-- No byte at the end of a file, and every byte up to the greatest number. -/
theorem not_meets : ¬ (∀ raw size, size < 2 ^ 64 → Meets raw size)
    ∧ parseArchiveRange "bytes=-0".toList 100 = some (100, 99)
    ∧ parseRange "bytes=5-18446744073709551615".toList 100 = .part 5 0 := by
  have harchive : parseArchiveRange "bytes=-0".toList 100 = some (100, 99) := by decide +kernel
  refine ⟨fun h => ?_, harchive, by decide +kernel⟩
  have hinside := (h "bytes=-0".toList 100 (by decide)).archive 100 99 harchive
  exact absurd hinside.1 (by decide)

end SentryUsb.Media
