import SentryUsb.Library.Checked
import SentryUsb.Library.FixedStride
import SentryUsb.Library.TransitionSystem
import SentryUsb.Video.SeiFields

/-! # The chunks of a sound file

A sound is a RIFF file: a header of 12 bytes, then chunks, each with its name and size in front. Two loops walk over the chunks,
adding sizes from the file to their position: one reads the header, one the duration (`lock_chime.rs`).

An operation that leaves its type and an index outside the buffer stop a walk here.

* **`chunkPass`** — one chunk of a walk, for any addition; **`parseWavInfo`**, **`parseWavDuration`**;
* **`walk_safe_iff`** — a walk in machine arithmetic is not stopped exactly when no chunk it comes to leads beyond the machine's
  numbers;
* **`ChunkAt`**, **`visits_of_chunkAt`**, **`chunkAt_of_visits`** — the chunks it comes to;
* **`IsSound`**, **`loop_infoPass_iff`** — what the header says. -/

namespace SentryUsb.Api.LockChime

open Library Video

/-! ## Reading -/

/-- `b"fmt "` -/
def fmtId : Bytes := [0x66, 0x6D, 0x74, 0x20]

/-- `b"data"` -/
def dataId : Bytes := [0x64, 0x61, 0x74, 0x61]

/-- `b"RIFF"` -/
def riffId : Bytes := [0x52, 0x49, 0x46, 0x46]

/-- `b"WAVE"` -/
def waveId : Bytes := [0x57, 0x41, 0x56, 0x45]

/-- `n` bytes from a position on. -/
def bytesIn (data : Bytes) (pos n : Nat) : Checked Bytes :=
  if pos + n ≤ data.length then .ok ((data.drop pos).take n) else .error .outOfBounds

/-- The number in `n` bytes, the lowest first (`from_le_bytes`). -/
def numberAt (data : Bytes) (pos n : Nat) : Checked Nat := (bytesIn data pos n).map leValue

/-! ## Walking over the chunks -/

/-- One pass of a loop that may be stopped. -/
def turnOf {σ ρ : Type} : Checked (σ ⊕ ρ) → Turn σ (Checked ρ)
  | .ok (.inl s) => .again s
  | .ok (.inr r) => .done (.ok r)
  | .error stop => .done (.error stop)

section Walk

variable {τ ρ : Type} (add : Nat → Nat → Checked Nat) (data : Bytes)

/-- Where the next chunk begins: behind this one, and behind a byte that fills it up. -/
def nextChunk (pos size : Nat) : Checked Nat :=
  add 8 size >>= fun step => add pos step >>= fun pos => if size % 2 = 0 then pure pos else add pos 1

/-- The walk goes on behind a chunk unless it was the one looked for. -/
def proceed (pos size : Nat) : τ ⊕ ρ → Checked ((Nat × τ) ⊕ ρ)
  | .inr r => pure (.inr r)
  | .inl t => nextChunk add pos size >>= fun next => pure (.inl (next, t))

/-- One chunk of a walk, with what is done with it, and with what was found at the end. -/
def chunkBody (inspect : Nat → Bytes → Nat → τ → Checked (τ ⊕ ρ)) (finish : τ → Checked ρ) (s : Nat × τ) :
    Checked ((Nat × τ) ⊕ ρ) :=
  add s.1 8 >>= fun stop =>
    if data.length < stop then (finish s.2).map .inr
    else bytesIn data s.1 4 >>= fun id => numberAt data (s.1 + 4) 4 >>= fun size =>
      inspect s.1 id size s.2 >>= proceed add s.1 size

/-- One chunk of a walk, as a pass of the loop. -/
def chunkPass (inspect : Nat → Bytes → Nat → τ → Checked (τ ⊕ ρ)) (finish : τ → Checked ρ) (s : Nat × τ) :
    Turn (Nat × τ) (Checked ρ) := turnOf (chunkBody add data inspect finish s)

end Walk

/-- What the header says of the sound (`WavInfo`). -/
structure WavInfo where
  audioFormat : Nat
  numChannels : Nat
  sampleRate : Nat
  bitsPerSample : Nat
  dataOffset : Nat
  dataSize : Nat
  deriving DecidableEq, Repr

section Parsers

variable (add : Nat → Nat → Checked Nat) (data : Bytes)

/-- A chunk, to the reader of the header; the flag says that the format was found. -/
def inspectInfo (pos : Nat) (id : Bytes) (size : Nat) (s : WavInfo × Bool) : Checked ((WavInfo × Bool) ⊕ WavInfo) :=
  if id = fmtId then
    add (pos + 8) size >>= fun stop =>
      if data.length < stop ∨ size < 16 then fail "malformed WAV fmt chunk"
      else numberAt data (pos + 8) 2 >>= fun format => numberAt data (pos + 10) 2 >>= fun channels =>
        numberAt data (pos + 12) 4 >>= fun rate => numberAt data (pos + 22) 2 >>= fun bits =>
          pure (.inl ({ s.1 with audioFormat := format, numChannels := channels, sampleRate := rate, bitsPerSample := bits },
            true))
  else if id = dataId ∧ s.2 = true then pure (.inr { s.1 with dataOffset := pos + 8, dataSize := size })
  else pure (.inl s)

/-- No chunk with the samples. -/
def finishInfo (s : WavInfo × Bool) : Checked WavInfo :=
  if s.2 = false then fail "not a WAV file -- must be .wav format" else fail "could not determine WAV format"

/-- A chunk, to the reader of the duration: the byte rate, and whether the format was found. -/
def inspectDuration (pos : Nat) (id : Bytes) (size : Nat) (s : Nat × Bool) : Checked ((Nat × Bool) ⊕ ℚ) :=
  if id = fmtId then
    add (pos + 8) size >>= fun stop =>
      if data.length < stop then fail "malformed WAV fmt chunk"
      else if size < 16 then fail "unsupported WAV format"
      else numberAt data (pos + 16) 4 >>= fun rate => pure (.inl (rate, true))
  else if id = dataId ∧ s.2 = true ∧ 0 < s.1 then pure (.inr (size / s.1))
  else pure (.inl s)

def finishDuration (s : Nat × Bool) : Checked ℚ :=
  if s.2 = false then fail "not a WAV file -- must be .wav format" else fail "could not determine WAV duration"

/-- One chunk of the walk for the header. -/
def infoPass : Nat × (WavInfo × Bool) → Turn (Nat × (WavInfo × Bool)) (Checked WavInfo) :=
  chunkPass add data (inspectInfo add data) finishInfo

/-- One chunk of the walk for the duration. -/
def durationPass : Nat × (Nat × Bool) → Turn (Nat × (Nat × Bool)) (Checked ℚ) :=
  chunkPass add data (inspectDuration add data) finishDuration

/-- Before the first chunk. -/
def infoStart : Nat × (WavInfo × Bool) := (12, ⟨0, 0, 0, 0, 0, 0⟩, false)

def durationStart : Nat × (Nat × Bool) := (12, 0, false)

/-- What is wrong with the header of the file. -/
def headerError : Option String :=
  if data.length < 44 then some "file too small to be a valid WAV"
  else if data.take 4 = riffId ∧ (data.drop 8).take 4 = waveId then none
  else some "not a WAV file -- must be .wav format"

/-- What the header says, with a bound on the chunks (`parse_wav_info`). -/
def parseWavInfo (fuel : Nat) : Option (Checked WavInfo) :=
  match headerError data with
  | some text => some (fail text)
  | none => loop (infoPass add data) fuel infoStart

/-- The duration in seconds, with a bound on the chunks (`parse_wav_duration`). -/
def parseWavDuration (fuel : Nat) : Option (Checked ℚ) :=
  match headerError data with
  | some text => some (fail text)
  | none => loop (durationPass add data) fuel durationStart

end Parsers

/-! ## The chunks of a file -/

/-- The name of a chunk. -/
def idAt (data : Bytes) (pos : Nat) : Bytes := (data.drop pos).take 4

/-- The number at a position. -/
def valueAt (data : Bytes) (pos n : Nat) : Nat := leValue ((data.drop pos).take n)

/-- The size of a chunk. -/
def sizeAt (data : Bytes) (pos : Nat) : Nat := valueAt data (pos + 4) 4

/-- Where the next chunk is. -/
def chunkEnd (data : Bytes) (pos : Nat) : Nat := pos + 8 + sizeAt data pos + sizeAt data pos % 2

/-- A format chunk that can be read. -/
def FormatAt (data : Bytes) (pos : Nat) : Prop :=
  idAt data pos = fmtId ∧ 16 ≤ sizeAt data pos ∧ pos + 8 + sizeAt data pos ≤ data.length

/-- A chunk with samples, behind a format chunk that will do. -/
def SamplesAt (data : Bytes) (usable : Nat → Prop) (pos : Nat) (last : Option Nat) : Prop :=
  idAt data pos = dataId ∧ ∃ fmt, last = some fmt ∧ usable fmt

/-- The chunks up to the one with the samples, each with the last format chunk before it. -/
inductive ChunkAt (data : Bytes) (usable : Nat → Prop) : Nat → Option Nat → Prop where
  | first : ChunkAt data usable 12 none
  | format {pos : Nat} {last : Option Nat} (before : ChunkAt data usable pos last) (format : FormatAt data pos) :
      ChunkAt data usable (chunkEnd data pos) (some pos)
  | other {pos : Nat} {last : Option Nat} (before : ChunkAt data usable pos last) (inside : pos + 8 ≤ data.length)
      (other : idAt data pos ≠ fmtId) (samples : ¬ SamplesAt data usable pos last) :
      ChunkAt data usable (chunkEnd data pos) last

/-- A chunk, and a format chunk with its content, end below a modulus. -/
structure ChunkFits (m : Nat) (data : Bytes) (pos : Nat) : Prop where
  head : pos + 8 < m
  format : pos + 8 ≤ data.length → idAt data pos = fmtId → pos + 8 + sizeAt data pos < m

/-! ## Exact walks -/

/-- Addition without a bound. -/
def exactly (a b : Nat) : Checked Nat := .ok (a + b)

/-- Every chunk an exact walk comes to ends below the modulus. -/
def VisitsFit {τ ρ : Type} (m : Nat) (data : Bytes) (pass : Nat × τ → Turn (Nat × τ) ρ) (start : Nat × τ) : Prop :=
  ∀ s, Visits pass start s → ChunkFits m data s.1

section WalkSteps

variable {τ ρ : Type} {m : Nat} {data : Bytes} {inspect exact : Nat → Bytes → Nat → τ → Checked (τ ⊕ ρ)}
  {finish : τ → Checked ρ} {start s : Nat × τ} {pos size : Nat}

theorem bytesIn_eq {n : Nat} (h : pos + n ≤ data.length) : bytesIn data pos n = .ok ((data.drop pos).take n) := if_pos h

theorem numberAt_eq {n : Nat} (h : pos + n ≤ data.length) :
    numberAt data pos n = .ok (leValue ((data.drop pos).take n)) := by
  rw [numberAt, bytesIn_eq h]
  rfl

/-- The byte that fills a chunk up counts when its size is odd. -/
theorem padded_eq (pos size : Nat) : (if size % 2 = 0 then .ok (pos + (8 + size)) else .ok (pos + (8 + size) + 1) : Checked Nat) =
    .ok (pos + 8 + size + size % 2) := by
  split
  · exact congrArg Except.ok (by omega)
  · exact congrArg Except.ok (by omega)

theorem tracks_nextChunk (m pos size : Nat) :
    Tracks (nextChunk (addBelow m) pos size) (pos + 8 + size + size % 2 < m) (.ok (pos + 8 + size + size % 2)) := by
  have hpad : Tracks (if size % 2 = 0 then pure (pos + (8 + size)) else addBelow m (pos + (8 + size)) 1)
      (if size % 2 = 0 then True else pos + (8 + size) + 1 < m)
      (if size % 2 = 0 then .ok (pos + (8 + size)) else .ok (pos + (8 + size) + 1)) :=
    Tracks.ite (fun _ => Tracks.refl _) fun _ => tracks_addBelow m _ 1
  have hall := Tracks.add (m := m) (a := 8) (b := size) (f := fun step => addBelow m pos step >>= fun pos =>
      if size % 2 = 0 then pure pos else addBelow m pos 1)
    (g := fun step => if size % 2 = 0 then .ok (pos + step) else .ok (pos + step + 1))
    (Tracks.add (g := fun pos => if size % 2 = 0 then .ok pos else .ok (pos + 1)) hpad)
  rw [padded_eq] at hall
  refine hall.congr ?_
  by_cases heven : size % 2 = 0
  · rw [if_pos heven, and_true]
    omega
  · rw [if_neg heven]
    omega

theorem nextChunk_exactly (pos size : Nat) : nextChunk exactly pos size = .ok (pos + 8 + size + size % 2) := padded_eq pos size

theorem proceed_exactly (pos size : Nat) (t : τ) :
    proceed exactly pos size (.inl t : τ ⊕ ρ) = .ok (.inl (pos + 8 + size + size % 2, t)) := by
  rw [proceed, nextChunk_exactly]
  rfl

/-- A pass at a chunk. -/
theorem chunkBody_chunk (add : Nat → Nat → Checked Nat) (hin : s.1 + 8 ≤ data.length) :
    chunkBody add data inspect finish s = add s.1 8 >>= fun stop =>
      if data.length < stop then (finish s.2).map .inr
      else inspect s.1 (idAt data s.1) (sizeAt data s.1) s.2 >>= proceed add s.1 (sizeAt data s.1) := by
  rw [chunkBody, bytesIn_eq (by omega), numberAt_eq (by omega)]
  rfl

theorem chunkBody_exactly (hin : s.1 + 8 ≤ data.length) :
    chunkBody exactly data exact finish s =
      exact s.1 (idAt data s.1) (sizeAt data s.1) s.2 >>= proceed exactly s.1 (sizeAt data s.1) := by
  rw [chunkBody_chunk _ hin]
  exact if_neg (Nat.not_lt.mpr hin)

theorem chunkBody_end (hin : ¬ s.1 + 8 ≤ data.length) : chunkBody exactly data exact finish s = (finish s.2).map .inr :=
  if_pos (Nat.lt_of_not_le hin)

/-- **What an exact pass does**: at a chunk it does what is done with it, and goes on behind it; behind the last it ends. -/
theorem chunkBody_cases (exact : Nat → Bytes → Nat → τ → Checked (τ ⊕ ρ)) (finish : τ → Checked ρ) (s : Nat × τ) :
    (s.1 + 8 ≤ data.length ∧ (∃ u, exact s.1 (idAt data s.1) (sizeAt data s.1) s.2 = .ok (.inl u) ∧
        chunkBody exactly data exact finish s = .ok (.inl (chunkEnd data s.1, u)))) ∨
      (s.1 + 8 ≤ data.length ∧ ∃ r : Checked ρ, exact s.1 (idAt data s.1) (sizeAt data s.1) s.2 = r.map .inr ∧
        chunkBody exactly data exact finish s = r.map .inr) ∨
      (data.length < s.1 + 8 ∧ chunkBody exactly data exact finish s = (finish s.2).map .inr) := by
  by_cases hin : s.1 + 8 ≤ data.length
  · rw [chunkBody_exactly hin]
    cases hanswer : exact s.1 (idAt data s.1) (sizeAt data s.1) s.2 with
    | error stop => exact Or.inr (Or.inl ⟨hin, .error stop, rfl, rfl⟩)
    | ok answer =>
      cases answer with
      | inl u => exact Or.inl ⟨hin, u, rfl, proceed_exactly s.1 (sizeAt data s.1) u⟩
      | inr r => exact Or.inr (Or.inl ⟨hin, .ok r, rfl, rfl⟩)
  · exact Or.inr (Or.inr ⟨Nat.lt_of_not_le hin, chunkBody_end hin⟩)

theorem map_inr_ne {r : Checked ρ} {t : Nat × τ} : r.map Sum.inr ≠ .ok (.inl t) := by
  cases r with
  | error stop => exact fun h => nomatch h
  | ok r => exact fun h => nomatch h

theorem tracks_proceed (m pos size : Nat) (answer : τ ⊕ ρ) :
    Tracks (proceed (addBelow m) pos size answer) (answer.isLeft = true → pos + 8 + size + size % 2 < m)
      (proceed exactly pos size answer) := by
  cases answer with
  | inr r => exact (Tracks.refl _).congr ⟨fun _ h => (nomatch h), fun _ => trivial⟩
  | inl t =>
    have hbind := (tracks_nextChunk m pos size).bind (q := fun _ => True)
      (f := fun next => (pure (.inl (next, t)) : Checked ((Nat × τ) ⊕ ρ))) (g := fun next => pure (.inl (next, t)))
      fun _ _ => Tracks.refl _
    rw [← nextChunk_exactly] at hbind
    exact hbind.congr ⟨fun h _ => h.1, fun h => ⟨h rfl, fun _ _ => trivial⟩⟩

/-- A pass in machine arithmetic is the exact one where the chunk fits, and leads to a number of the machine. -/
theorem tracks_chunkBody (hinspect : ∀ pos id size t, pos + 8 ≤ data.length →
      Tracks (inspect pos id size t) (id = fmtId → pos + 8 + size < m) (exact pos id size t)) :
    Tracks (chunkBody (addBelow m) data inspect finish s)
      (ChunkFits m data s.1 ∧ ∀ t, chunkBody exactly data exact finish s = .ok (.inl t) → t.1 < m)
      (chunkBody exactly data exact finish s) := by
  by_cases hin : s.1 + 8 ≤ data.length
  · have hpass := (hinspect s.1 (idAt data s.1) (sizeAt data s.1) s.2 hin).bind fun answer _ =>
      tracks_proceed m s.1 (sizeAt data s.1) answer
    have hall := Tracks.add (m := m) (a := s.1) (b := 8)
      (f := fun stop => if data.length < stop then (finish s.2).map .inr
        else inspect s.1 (idAt data s.1) (sizeAt data s.1) s.2 >>= proceed (addBelow m) s.1 (sizeAt data s.1))
      (g := fun _ => exact s.1 (idAt data s.1) (sizeAt data s.1) s.2 >>= proceed exactly s.1 (sizeAt data s.1))
      (by rw [if_neg (Nat.not_lt.mpr hin)]; exact hpass)
    have hexact : chunkBody exactly data exact finish s = _ := chunkBody_exactly hin
    rw [← hexact] at hall
    rw [chunkBody_chunk _ hin]
    refine hall.congr ⟨fun ⟨hhead, hformat, hnext⟩ => ⟨⟨hhead, fun _ => hformat⟩, fun t ht => ?_⟩, fun h => ?_⟩
    · rcases chunkBody_cases exact finish s with ⟨-, u, hu, hbody⟩ | ⟨-, r, -, hbody⟩ | ⟨-, hbody⟩
      · rw [← Sum.inl.inj (Except.ok.inj (hbody.symm.trans ht))]
        exact hnext _ hu rfl
      · exact absurd (hbody.symm.trans ht) map_inr_ne
      · exact absurd (hbody.symm.trans ht) map_inr_ne
    · refine ⟨h.1.head, h.1.format hin, ?_⟩
      rintro (u | r) hanswer hleft
      · refine h.2 (chunkEnd data s.1, u) ?_
        rw [chunkBody_exactly hin, hanswer]
        exact proceed_exactly s.1 _ u
      · exact nomatch hleft
  · have hall := Tracks.add (m := m) (a := s.1) (b := 8)
      (f := fun stop => if data.length < stop then (finish s.2).map .inr
        else bytesIn data s.1 4 >>= fun id => numberAt data (s.1 + 4) 4 >>= fun size =>
          inspect s.1 id size s.2 >>= proceed (addBelow m) s.1 size)
      (g := fun _ => (finish s.2).map .inr)
      (by rw [if_pos (Nat.lt_of_not_le hin)]; exact Tracks.refl _)
    rw [chunkBody_end hin, chunkBody]
    exact hall.congr ⟨fun h => ⟨⟨h.1, fun h => absurd h hin⟩, fun t ht => absurd ht map_inr_ne⟩, fun h => ⟨h.1.head, trivial⟩⟩

theorem eq_ok_of_map_inr {r : Checked ρ} {x : ρ} (h : (r.map Sum.inr : Checked ((Nat × τ) ⊕ ρ)) = .ok (.inr x)) : r = .ok x := by
  cases r with
  | error stop => exact nomatch h
  | ok y => rw [Sum.inr.inj (Except.ok.inj h)]

/-- What is read of the chunks, in both kinds of arithmetic. -/
structure Reader (m : Nat) (data : Bytes) (inspect exact : Nat → Bytes → Nat → τ → Checked (τ ⊕ ρ))
    (finish : τ → Checked ρ) : Prop where
  tracks : ∀ pos id size t, pos + 8 ≤ data.length →
    Tracks (inspect pos id size t) (id = fmtId → pos + 8 + size < m) (exact pos id size t)
  safe : ∀ pos id size t, pos + 8 ≤ data.length → Safe (exact pos id size t)
  finishes : ∀ t, Safe (finish t)

theorem turnOf_eq_again {c : Checked ((Nat × τ) ⊕ ρ)} {t : Nat × τ} (h : turnOf c = .again t) : c = .ok (.inl t) := by
  cases c with
  | error stop => exact nomatch h
  | ok answer =>
    cases answer with
    | inl u => rw [Turn.again.inj h]
    | inr r => exact nomatch h

/-- A pass that leads on was made at a chunk, and leads forward. -/
theorem lt_of_again {t : Nat × τ} (h : chunkPass exactly data exact finish s = .again t) :
    s.1 + 8 ≤ data.length ∧ s.1 < t.1 := by
  have hbody := turnOf_eq_again h
  rcases chunkBody_cases exact finish s with ⟨hin, u, -, hu⟩ | ⟨-, r, -, hr⟩ | ⟨-, hr⟩
  · refine ⟨hin, ?_⟩
    rw [← Sum.inl.inj (Except.ok.inj (hu.symm.trans hbody))]
    show s.1 < s.1 + 8 + _ + _
    omega
  · exact absurd (hr.symm.trans hbody) map_inr_ne
  · exact absurd (hr.symm.trans hbody) map_inr_ne

theorem returns_exactly (start : Nat × τ) : Returns (chunkPass exactly data exact finish) start := by
  have hadvances : Advances Prod.fst (chunkPass exactly data exact finish) start := fun s t _ h => (lt_of_again h).2
  refine returns_of_advances data.length hadvances fun s t _ h => ?_
  have hin := (lt_of_again h).1
  omega

/-- It ends with a result, or with an error of its own. -/
theorem safe_of_done (hreader : Reader m data inspect exact finish) {r : Checked ρ}
    (h : chunkPass exactly data exact finish s = .done r) : Safe r := by
  have hmap : ∀ r' : Checked ρ, turnOf (r'.map Sum.inr : Checked ((Nat × τ) ⊕ ρ)) = .done r' := by
    intro r'
    cases r' with
    | error stop => rfl
    | ok r' => rfl
  rw [chunkPass] at h
  rcases chunkBody_cases exact finish s with ⟨-, u, -, hu⟩ | ⟨hin, r', hexact, hr⟩ | ⟨-, hr⟩
  · rw [hu] at h
    exact nomatch h
  · rw [hr, hmap] at h
    rw [← Turn.done.inj h]
    intro stop hstop
    refine hreader.safe s.1 (idAt data s.1) (sizeAt data s.1) s.2 hin stop ?_
    rw [hexact, hstop]
    rfl
  · rw [hr, hmap] at h
    exact Turn.done.inj h ▸ hreader.finishes s.2

/-- A pass in machine arithmetic where the exact walk comes: it is the exact pass, or an overflow. -/
theorem chunkPass_eq (hreader : Reader m data inspect exact finish) (s : Nat × τ) :
    (ChunkFits m data s.1 ∧ (∀ t, chunkPass exactly data exact finish s = .again t → t.1 < m) →
      chunkPass (addBelow m) data inspect finish s = chunkPass exactly data exact finish s) ∧
    (¬ (ChunkFits m data s.1 ∧ ∀ t, chunkPass exactly data exact finish s = .again t → t.1 < m) →
      chunkPass (addBelow m) data inspect finish s = .done (.error .overflow)) := by
  have htracks : Tracks (chunkBody (addBelow m) data inspect finish s) _ (chunkBody exactly data exact finish s) :=
    tracks_chunkBody hreader.tracks
  have hagain : (∀ t, chunkBody exactly data exact finish s = .ok (.inl t) → t.1 < m) ↔
      ∀ t, chunkPass exactly data exact finish s = .again t → t.1 < m := by
    refine forall_congr' fun t => ⟨fun h ht => h (turnOf_eq_again ht), fun h ht => h ?_⟩
    rw [chunkPass, ht]
    rfl
  rw [hagain] at htracks
  refine ⟨fun h => congrArg turnOf (htracks.same h), fun h => ?_⟩
  rw [chunkPass, htracks.overflows h]
  rfl

/-- Where every chunk ends below the modulus, the walk is the exact one. -/
theorem walk_eq_exactly (hreader : Reader m data inspect exact finish) {start : Nat × τ}
    (hend : VisitsFit m data (chunkPass exactly data exact finish) start) (fuel : Nat) :
    loop (chunkPass (addBelow m) data inspect finish) fuel start = loop (chunkPass exactly data exact finish) fuel start := by
  refine (loop_congr (fun s hs => ?_) fuel).symm
  refine ((chunkPass_eq hreader s).1 ⟨hend s hs, fun t ht => ?_⟩).symm
  have hhead := (hend t (hs.next ht)).head
  omega

/-- The walk in machine arithmetic comes where the exact one comes, unless it is stopped before. -/
theorem visits_or_overflow (hreader : Reader m data inspect exact finish) {start : Nat × τ}
    (h : Visits (chunkPass exactly data exact finish) start s) :
    Visits (chunkPass (addBelow m) data inspect finish) start s ∨
      ∃ u, Visits (chunkPass (addBelow m) data inspect finish) start u ∧
        chunkPass (addBelow m) data inspect finish u = .done (.error .overflow) := by
  induction h with
  | start => exact Or.inl .start
  | @next t u _ htaken ih =>
    rcases ih with hvisits | hstopped
    · by_cases hfits : ChunkFits m data t.1 ∧ ∀ v, chunkPass exactly data exact finish t = .again v → v.1 < m
      · exact Or.inl (hvisits.next (((chunkPass_eq hreader t).1 hfits).trans htaken))
      · exact Or.inr ⟨t, hvisits, (chunkPass_eq hreader t).2 hfits⟩
    · exact Or.inr hstopped

/-- **A walk in machine arithmetic is not stopped exactly when every chunk ends below the modulus.** -/
theorem walk_safe_iff (hreader : Reader m data inspect exact finish) (start : Nat × τ) :
    (∃ fuel r, loop (chunkPass (addBelow m) data inspect finish) fuel start = some r ∧ Safe r) ↔
      VisitsFit m data (chunkPass exactly data exact finish) start := by
  constructor
  · rintro ⟨fuel, r, hr, hsafe⟩ s hs
    by_contra hfits
    have hstopped : ∃ u, Visits (chunkPass (addBelow m) data inspect finish) start u ∧
        chunkPass (addBelow m) data inspect finish u = .done (.error .overflow) := by
      rcases visits_or_overflow hreader hs with hvisits | hstopped
      · exact ⟨s, hvisits, (chunkPass_eq hreader s).2 fun h => hfits h.1⟩
      · exact hstopped
    obtain ⟨u, hu, hdone⟩ := hstopped
    obtain ⟨fuel', hr'⟩ := exists_loop_of_visits hu hdone
    rw [loop_unique hr hr'] at hsafe
    obtain ⟨text, htext⟩ := hsafe _ rfl
    exact nomatch htext
  · intro hend
    obtain ⟨fuel, r, hr⟩ : Returns (chunkPass exactly data exact finish) start := returns_exactly start
    obtain ⟨s, -, hdone⟩ := exists_done_of_loop hr
    exact ⟨fuel, r, (walk_eq_exactly hreader hend fuel).trans hr, safe_of_done hreader hdone⟩

end WalkSteps

/-! ## Readers -/

section Readers

variable {m : Nat} {data : Bytes} {pos size : Nat}

theorem safe_fail {α : Type} (text : String) : Safe (fail text : Checked α) := fun _ h => ⟨text, (Except.error.inj h).symm⟩

/-- A check of the format chunk reads one sum. -/
theorem tracks_format {β : Type} {f : Nat → Checked β} (id : Bytes) {c : Checked β} :
    Tracks (if id = fmtId then addBelow m (pos + 8) size >>= f else c) (id = fmtId → pos + 8 + size < m)
      (if id = fmtId then f (pos + 8 + size) else c) := by
  have hsum : Tracks (addBelow m (pos + 8) size >>= f) (pos + 8 + size < m ∧ True) (f (pos + 8 + size)) :=
    Tracks.add (Tracks.refl _)
  refine (Tracks.ite (fun _ => hsum) fun _ => Tracks.refl c).congr ?_
  by_cases hid : id = fmtId
  · rw [if_pos hid, and_true]
    exact ⟨fun h _ => h, fun h => h hid⟩
  · rw [if_neg hid]
    exact ⟨fun _ h => absurd h hid, fun _ => trivial⟩

theorem reader_inspectInfo (m : Nat) (data : Bytes) :
    Reader m data (inspectInfo (addBelow m) data) (inspectInfo exactly data) finishInfo where
  tracks pos id size s _ := tracks_format id
  safe pos id size s hin := by
    rw [inspectInfo]
    split
    · show Safe (if data.length < pos + 8 + size ∨ size < 16 then _ else _)
      split
      · exact safe_fail _
      · next hok =>
        rw [numberAt_eq (by omega), numberAt_eq (by omega), numberAt_eq (by omega), numberAt_eq (by omega)]
        exact safe_ok _
    · split
      · exact safe_ok _
      · exact safe_ok _
  finishes s := by
    rw [finishInfo]
    split
    · exact safe_fail _
    · exact safe_fail _

theorem reader_inspectDuration (m : Nat) (data : Bytes) :
    Reader m data (inspectDuration (addBelow m) data) (inspectDuration exactly data) finishDuration where
  tracks pos id size s _ := tracks_format id
  safe pos id size s hin := by
    rw [inspectDuration]
    split
    · show Safe (if data.length < pos + 8 + size then _ else _)
      split
      · exact safe_fail _
      · split
        · exact safe_fail _
        · rw [numberAt_eq (by omega)]
          exact safe_ok _
    · split
      · exact safe_ok _
      · exact safe_ok _
  finishes s := by
    rw [finishDuration]
    split
    · exact safe_fail _
    · exact safe_fail _

end Readers

/-! ## Where the walks come -/

/-- What a reader keeps of the chunks is said by the last format chunk. -/
structure Keeps {τ ρ : Type} (data : Bytes) (usable : Nat → Prop) (kept : Option Nat → τ)
    (exact : Nat → Bytes → Nat → τ → Checked (τ ⊕ ρ)) : Prop where
  format : ∀ pos last, FormatAt data pos →
    exact pos (idAt data pos) (sizeAt data pos) (kept last) = .ok (.inl (kept (some pos)))
  malformed : ∀ pos last, idAt data pos = fmtId → ¬ FormatAt data pos →
    ∃ text, exact pos (idAt data pos) (sizeAt data pos) (kept last) = fail text
  samples : ∀ pos last t, SamplesAt data usable pos last →
    exact pos (idAt data pos) (sizeAt data pos) (kept last) ≠ .ok (.inl t)
  other : ∀ pos last, idAt data pos ≠ fmtId → ¬ SamplesAt data usable pos last →
    exact pos (idAt data pos) (sizeAt data pos) (kept last) = .ok (.inl (kept last))

section Chunks

variable {τ ρ : Type} {m : Nat} {data : Bytes} {usable : Nat → Prop} {kept : Option Nat → τ}
  {exact : Nat → Bytes → Nat → τ → Checked (τ ⊕ ρ)} {finish : τ → Checked ρ} {s : Nat × τ} {pos : Nat} {last : Option Nat}

/-- A chunk that is passed over leads on. -/
theorem again_of_passed (hin : pos + 8 ≤ data.length) {t u : τ}
    (h : exact pos (idAt data pos) (sizeAt data pos) t = .ok (.inl u)) :
    chunkPass exactly data exact finish (pos, t) = .again (chunkEnd data pos, u) := by
  have hbody : chunkBody exactly data exact finish (pos, t) = .ok (.inl (chunkEnd data pos, u)) := by
    rw [chunkBody_exactly hin]
    show exact pos (idAt data pos) (sizeAt data pos) t >>= _ = _
    rw [h]
    exact proceed_exactly pos _ u
  rw [chunkPass, hbody]
  rfl

/-- **The walk comes to the chunks** up to the one with the samples. -/
theorem visits_of_chunkAt (hkeeps : Keeps data usable kept exact) (h : ChunkAt data usable pos last) :
    Visits (chunkPass exactly data exact finish) (12, kept none) (pos, kept last) := by
  induction h with
  | first => exact .start
  | @format pos last _ hformat ih =>
    have hinside := hformat.2.2
    exact ih.next (again_of_passed (by omega) (hkeeps.format pos last hformat))
  | @other pos last _ hin hother hsamples ih => exact ih.next (again_of_passed hin (hkeeps.other pos last hother hsamples))

/-- And to no other. -/
theorem chunkAt_of_visits (hkeeps : Keeps data usable kept exact)
    (h : Visits (chunkPass exactly data exact finish) (12, kept none) s) :
    ∃ last, ChunkAt data usable s.1 last ∧ s.2 = kept last := by
  induction h with
  | start => exact ⟨none, .first, rfl⟩
  | @next t u _ htaken ih =>
    obtain ⟨last, hchunk, hkept⟩ := ih
    have hbody := turnOf_eq_again htaken
    rcases chunkBody_cases exact finish t with ⟨hin, v, hv, hleads⟩ | ⟨-, r, -, hr⟩ | ⟨-, hr⟩
    · obtain rfl := Sum.inl.inj (Except.ok.inj (hleads.symm.trans hbody))
      rw [hkept] at hv
      by_cases hid : idAt data t.1 = fmtId
      · by_cases hformat : FormatAt data t.1
        · have hnext := hkeeps.format t.1 last hformat
          exact ⟨some t.1, hchunk.format hformat, Sum.inl.inj (Except.ok.inj (hv.symm.trans hnext))⟩
        · obtain ⟨text, htext⟩ := hkeeps.malformed t.1 last hid hformat
          exact nomatch htext.symm.trans hv
      · by_cases hsamples : SamplesAt data usable t.1 last
        · exact absurd hv (hkeeps.samples t.1 last v hsamples)
        · have hnext := hkeeps.other t.1 last hid hsamples
          exact ⟨last, hchunk.other hin hid hsamples, Sum.inl.inj (Except.ok.inj (hv.symm.trans hnext))⟩
    · exact absurd (hr.symm.trans hbody) map_inr_ne
    · exact absurd (hr.symm.trans hbody) map_inr_ne

/-- Every chunk up to the one with the samples ends below a modulus. -/
def ChunksEnd (m : Nat) (data : Bytes) (usable : Nat → Prop) : Prop :=
  ∀ pos last, ChunkAt data usable pos last → ChunkFits m data pos

theorem visitsFit_iff (hkeeps : Keeps data usable kept exact) :
    VisitsFit m data (chunkPass exactly data exact finish) (12, kept none) ↔ ChunksEnd m data usable := by
  constructor
  · exact fun h pos last hchunk => h _ (visits_of_chunkAt hkeeps hchunk)
  · intro h s hs
    obtain ⟨last, hchunk, -⟩ := chunkAt_of_visits hkeeps hs
    exact h _ _ hchunk

end Chunks

section Header

variable {data : Bytes} {info : WavInfo} {fuel pos : Nat} {last : Option Nat}

/-- The format of a sound, as the chunk at a position has it. -/
def formatOf (data : Bytes) (fmt : Nat) : WavInfo :=
  { audioFormat := valueAt data (fmt + 8) 2, numChannels := valueAt data (fmt + 10) 2, sampleRate := valueAt data (fmt + 12) 4,
    bitsPerSample := valueAt data (fmt + 22) 2, dataOffset := 0, dataSize := 0 }

/-- A sound with its format in one chunk and its samples in another. -/
def soundOf (data : Bytes) (fmt pos : Nat) : WavInfo :=
  { formatOf data fmt with dataOffset := pos + 8, dataSize := sizeAt data pos }

/-- What the reader of the header keeps. -/
def keptInfo (data : Bytes) : Option Nat → WavInfo × Bool
  | none => (⟨0, 0, 0, 0, 0, 0⟩, false)
  | some fmt => (formatOf data fmt, true)

/-- What the reader of the duration keeps. -/
def keptRate (data : Bytes) : Option Nat → Nat × Bool
  | none => (0, false)
  | some fmt => (valueAt data (fmt + 16) 4, true)

/-- Any format chunk will do for the header. -/
def AnyFormat (_fmt : Nat) : Prop := True

/-- One with a byte rate will do for the duration. -/
def HasRate (data : Bytes) (fmt : Nat) : Prop := 0 < valueAt data (fmt + 16) 4

theorem data_ne_fmt : dataId ≠ fmtId := by decide

theorem not_formatAt (hid : idAt data pos = fmtId) (h : ¬ FormatAt data pos) :
    data.length < pos + 8 + sizeAt data pos ∨ sizeAt data pos < 16 := by
  have hrest := not_and.mp h hid
  omega

theorem keeps_inspectInfo (data : Bytes) : Keeps data AnyFormat (keptInfo data) (inspectInfo exactly data) where
  format pos last hformat := by
    obtain ⟨hid, hsize, hin⟩ := hformat
    rw [inspectInfo, if_pos hid]
    show (if data.length < pos + 8 + sizeAt data pos ∨ sizeAt data pos < 16 then _ else _) = _
    rw [if_neg (by omega), numberAt_eq (by omega), numberAt_eq (by omega), numberAt_eq (by omega), numberAt_eq (by omega)]
    cases last with
    | none => rfl
    | some fmt => rfl
  malformed pos last hid hformat := by
    rw [inspectInfo, if_pos hid]
    exact ⟨_, if_pos (not_formatAt hid hformat)⟩
  samples pos last t hsamples := by
    obtain ⟨hdata, fmt, rfl, -⟩ := hsamples
    rw [inspectInfo, if_neg fun h => data_ne_fmt (hdata.symm.trans h), if_pos ⟨hdata, rfl⟩]
    exact fun h => nomatch h
  other pos last hid hsamples := by
    have hgoes : ¬ (idAt data pos = dataId ∧ (keptInfo data last).2 = true) := by
      rintro ⟨hdata, hfound⟩
      cases last with
      | none => exact nomatch hfound
      | some fmt => exact hsamples ⟨hdata, fmt, rfl, trivial⟩
    rw [inspectInfo, if_neg hid, if_neg hgoes]
    rfl

theorem keeps_inspectDuration (data : Bytes) : Keeps data (HasRate data) (keptRate data) (inspectDuration exactly data) where
  format pos last hformat := by
    obtain ⟨hid, hsize, hin⟩ := hformat
    rw [inspectDuration, if_pos hid]
    show (if data.length < pos + 8 + sizeAt data pos then _ else _) = _
    rw [if_neg (by omega), if_neg (by omega), numberAt_eq (by omega)]
    rfl
  malformed pos last hid hformat := by
    rw [inspectDuration, if_pos hid]
    show ∃ text, (if data.length < pos + 8 + sizeAt data pos then _ else _) = _
    split
    · exact ⟨_, rfl⟩
    · next hin => exact ⟨_, if_pos ((not_formatAt hid hformat).resolve_left hin)⟩
  samples pos last t hsamples := by
    obtain ⟨hdata, fmt, rfl, hrate⟩ := hsamples
    rw [inspectDuration, if_neg fun h => data_ne_fmt (hdata.symm.trans h), if_pos ⟨hdata, rfl, hrate⟩]
    exact fun h => nomatch h
  other pos last hid hsamples := by
    have hgoes : ¬ (idAt data pos = dataId ∧ (keptRate data last).2 = true ∧ 0 < (keptRate data last).1) := by
      rintro ⟨hdata, hfound, hrate⟩
      cases last with
      | none => exact nomatch hfound
      | some fmt => exact hsamples ⟨hdata, fmt, rfl, hrate⟩
    rw [inspectDuration, if_neg hid, if_neg hgoes]
    rfl

/-- A sound: a format chunk, and behind it the first chunk with samples. -/
structure IsSound (data : Bytes) (fmt pos : Nat) : Prop where
  chunk : ChunkAt data AnyFormat pos (some fmt)
  inside : pos + 8 ≤ data.length
  samples : idAt data pos = dataId

/-- At the chunk with the samples the walk ends with what the header says. -/
theorem infoPass_of_isSound {fmt : Nat} (h : IsSound data fmt pos) :
    infoPass exactly data (pos, keptInfo data (some fmt)) = .done (.ok (soundOf data fmt pos)) := by
  rw [infoPass, chunkPass, chunkBody_exactly h.inside]
  show turnOf (inspectInfo exactly data pos (idAt data pos) (sizeAt data pos) _ >>= _) = _
  rw [inspectInfo, h.samples, if_neg data_ne_fmt, if_pos ⟨rfl, rfl⟩]
  rfl

/-- A pass that ends with what the header says was made there. -/
theorem isSound_of_done {s : Nat × (WavInfo × Bool)} (hchunk : ChunkAt data AnyFormat s.1 last) (hkept : s.2 = keptInfo data last)
    (h : infoPass exactly data s = .done (.ok info)) : ∃ fmt, last = some fmt ∧ IsSound data fmt s.1 := by
  have hkeeps := keeps_inspectInfo data
  have hbody : chunkBody exactly data (inspectInfo exactly data) finishInfo s = .ok (.inr info) := by
    rw [infoPass, chunkPass] at h
    cases hc : chunkBody exactly data (inspectInfo exactly data) finishInfo s with
    | error stop => rw [hc] at h; exact nomatch h
    | ok answer =>
      rw [hc] at h
      cases answer with
      | inl u => exact nomatch h
      | inr r => rw [Except.ok.inj (Turn.done.inj h)]
  rcases chunkBody_cases (inspectInfo exactly data) finishInfo s with ⟨-, u, -, hu⟩ | ⟨hin, r, hr, hr'⟩ | ⟨-, hr⟩
  · exact nomatch hu.symm.trans hbody
  · obtain rfl := eq_ok_of_map_inr (hr'.symm.trans hbody)
    rw [hkept] at hr
    by_cases hid : idAt data s.1 = fmtId
    · by_cases hformat : FormatAt data s.1
      · exact nomatch (hkeeps.format s.1 last hformat).symm.trans hr
      · obtain ⟨text, htext⟩ := hkeeps.malformed s.1 last hid hformat
        exact nomatch htext.symm.trans hr
    · by_cases hsamples : SamplesAt data AnyFormat s.1 last
      · obtain ⟨hdata, fmt, rfl, -⟩ := hsamples
        exact ⟨fmt, rfl, hchunk, hin, hdata⟩
      · exact nomatch (hkeeps.other s.1 last hid hsamples).symm.trans hr
  · have hfinish := eq_ok_of_map_inr (hr.symm.trans hbody)
    rw [finishInfo] at hfinish
    split at hfinish
    · exact nomatch hfinish
    · exact nomatch hfinish

/-- **The exact walk for the header finds the sounds of the file**, and nothing else. -/
theorem loop_infoPass_iff :
    (∃ fuel, loop (infoPass exactly data) fuel infoStart = some (.ok info)) ↔
      ∃ fmt pos, IsSound data fmt pos ∧ info = soundOf data fmt pos := by
  constructor
  · rintro ⟨fuel, h⟩
    obtain ⟨s, hs, hdone⟩ := exists_done_of_loop h
    obtain ⟨last, hchunk, hkept⟩ := chunkAt_of_visits (keeps_inspectInfo data) hs
    obtain ⟨fmt, rfl, hsound⟩ := isSound_of_done hchunk hkept hdone
    have hsame : s = (s.1, keptInfo data (some fmt)) := Prod.ext rfl hkept
    rw [hsame, infoPass_of_isSound hsound] at hdone
    exact ⟨fmt, s.1, hsound, (Except.ok.inj (Turn.done.inj hdone)).symm⟩
  · rintro ⟨fmt, pos, hsound, rfl⟩
    exact exists_loop_of_visits (visits_of_chunkAt (keeps_inspectInfo data) hsound.chunk) (infoPass_of_isSound hsound)

/-- What the reader of the header may say. -/
structure InRange (data : Bytes) (info : WavInfo) : Prop where
  numChannels : info.numChannels < 2 ^ 16
  dataOffset : info.dataOffset ≤ data.length
  dataSize : info.dataSize < 2 ^ 32

theorem leValue_take_lt (n : Nat) (bytes : Bytes) : leValue (bytes.take n) < 256 ^ n :=
  (leValue_lt _).trans_le (Nat.pow_le_pow_right (by decide) (List.length_take_le n bytes))

theorem inRange_soundOf (fmt : Nat) (hin : pos + 8 ≤ data.length) : InRange data (soundOf data fmt pos) :=
  ⟨leValue_take_lt 2 _, hin, leValue_take_lt 4 _⟩

end Header

end SentryUsb.Api.LockChime
