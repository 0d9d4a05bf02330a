import SentryUsb.Api.WavChunks

/-! # Making a sound file ready for the car

The samples of an uploaded sound are mixed to one channel and brought to 44100 Hz, unless they are so already; then the file is
kept as it is (`lock_chime.rs`). A division by zero, and a buffer that cannot be made, stop the program here.

* **`normalize`**, **`ensureMonoWav`** — the conversion;
* **`Convertible`** — what it needs; **`convert_safe_iff`** — no less;
* **`WellFormed`** — what it should give; **`parseWavInfo_of_header`** — the new file says what it is;
* **`processes_safely_iff`** — sounds are processed safely under these conditions, and only then. -/

namespace SentryUsb.Api.LockChime

open Library Video

/-! ## Converting -/

/-- The most bytes a buffer may have. -/
def maxBuffer : Width → Nat
  | .w32 => 2 ^ 31 - 1
  | .w64 => 2 ^ 63 - 1

/-- A buffer of some bytes; one that is too large stops the program. -/
def withCapacity (w : Width) (bytes : Nat) : Checked Unit := if bytes ≤ maxBuffer w then .ok () else .error .overflow

/-- Division; by zero it stops the program. -/
def divide (a b : Nat) : Checked Nat := if b = 0 then .error .divisionByZero else .ok (a / b)

/-- What is done with the values of samples: a frame mixed to one sample, and the samples at 44100 Hz of samples at another
rate, with the room that is taken for them. -/
structure Sampling where
  mix : List Nat → Nat → Nat → Nat
  resample : List Nat → Nat → Nat × List Nat

/-- Samples from an offset on, until the file ends. -/
def readSamples (w : Width) (data : Bytes) (offset : Nat) : Nat → Nat → Checked (List Nat)
  | 0, _ => pure []
  | left + 1, i =>
    mulBelow w.modulus i 2 >>= fun shift => addBelow w.modulus offset shift >>= fun idx =>
      addBelow w.modulus idx 2 >>= fun stop =>
        if data.length < stop then pure []
        else numberAt data idx 2 >>= fun sample => (readSamples w data offset left (i + 1)).map (sample :: ·)

/-- The header of the new file, and its samples. -/
def wavBytes (riffSize dataSize : Nat) (samples : List Nat) : Bytes :=
  riffId ++ leBytes 4 riffSize ++ waveId ++ fmtId ++ leBytes 4 16 ++ leBytes 2 1 ++ leBytes 2 1 ++ leBytes 4 44100
    ++ leBytes 4 88200 ++ leBytes 2 2 ++ leBytes 2 16 ++ dataId ++ leBytes 4 dataSize ++ samples.flatMap (leBytes 2)

/-- The new file. Its size is cut to 32 bits before the buffer is made. -/
def buildWav (w : Width) (samples : List Nat) : Checked Bytes :=
  mulBelow w.modulus samples.length 2 >>= fun bytes =>
    let outDataSize := bytes % 2 ^ 32
    addBelow w.modulus 44 outDataSize >>= fun total => withCapacity w total >>= fun _ =>
      addBelow (2 ^ 32) 36 outDataSize >>= fun riffSize =>
        if samples.length * 2 ≤ outDataSize then .ok (wavBytes riffSize outDataSize samples) else .error .outOfBounds

/-- The samples of all channels, mixed to one. -/
def mixDown (w : Width) (sampling : Sampling) (info : WavInfo) (numFrames : Nat) (samples : List Nat) : Checked (List Nat) :=
  if 1 < info.numChannels then
    (withCapacity w (2 * numFrames)).map fun _ =>
      (List.range numFrames).map fun frame => sampling.mix samples info.numChannels frame
  else pure samples

/-- The samples at 44100 Hz. -/
def resampleMono (w : Width) (sampling : Sampling) (rate : Nat) (mono : List Nat) : Checked (List Nat) :=
  if rate ≠ 44100 then
    (withCapacity w (2 * (sampling.resample mono rate).1)).map fun _ => (sampling.resample mono rate).2
  else pure mono

/-- The samples of all channels, mixed to one, at 44100 Hz, as a new file. -/
def convert (w : Width) (sampling : Sampling) (data : Bytes) (info : WavInfo) (numFrames : Nat) : Checked Bytes :=
  mulBelow w.modulus numFrames info.numChannels >>= fun totalSamples =>
    withCapacity w (2 * totalSamples) >>= fun _ => readSamples w data info.dataOffset totalSamples 0 >>= fun samples =>
      mixDown w sampling info numFrames samples >>= fun mono =>
        resampleMono w sampling info.sampleRate mono >>= buildWav w

/-- The sound in one channel at 44100 Hz, once its header is read. -/
def normalize (w : Width) (sampling : Sampling) (data : Bytes) (info : WavInfo) : Checked Bytes :=
  if info.audioFormat ≠ 1 then fail ("only PCM WAV is supported (got format " ++ toString info.audioFormat ++ ")")
  else if info.bitsPerSample ≠ 16 then fail ("bit depth must be 16-bit (got " ++ toString info.bitsPerSample ++ "-bit)")
  else
    mulBelow w.modulus info.numChannels 2 >>= fun frameBytes => divide info.dataSize frameBytes >>= fun numFrames =>
      if info.sampleRate = 44100 ∧ ¬ 1 < info.numChannels then pure data
      else convert w sampling data info numFrames

/-- The sound in one channel at 44100 Hz, with a bound on the chunks (`ensure_mono_wav`). -/
def ensureMonoWav (w : Width) (sampling : Sampling) (data : Bytes) (fuel : Nat) : Option (Checked Bytes) :=
  (parseWavInfo (addBelow w.modulus) data fuel).map fun info => info >>= normalize w sampling data

/-! ## What a conversion needs -/

section Convert

variable {w : Width} {data : Bytes} {offset : Nat}

/-- The samples from an offset on, until the file ends. -/
def samplesFrom (data : Bytes) (offset : Nat) : Nat → Nat → List Nat
  | 0, _ => []
  | left + 1, i =>
    if data.length < offset + i * 2 + 2 then []
    else leValue ((data.drop (offset + i * 2)).take 2) :: samplesFrom data offset left (i + 1)

/-- Reading samples is never stopped: the position is behind the file at most by one sample. -/
theorem readSamples_eq (hlen : data.length + 4 < 2 ^ 32) (left i : Nat) (hi : offset + i * 2 ≤ data.length) :
    readSamples w data offset left i = .ok (samplesFrom data offset left i) := by
  have hm := w.modulus_le.1
  induction left generalizing i with
  | zero => rfl
  | succ left ih =>
    rw [readSamples, mulBelow_eq (by omega)]
    show (addBelow w.modulus offset (i * 2) >>= _) = _
    rw [addBelow_eq (by omega)]
    show (addBelow w.modulus (offset + i * 2) 2 >>= _) = _
    rw [addBelow_eq (by omega)]
    show (if data.length < offset + i * 2 + 2 then _ else _) = _
    rw [samplesFrom]
    split
    · rfl
    · rw [numberAt_eq (by omega)]
      show (readSamples w data offset left (i + 1)).map _ = _
      rw [ih (i + 1) (by omega)]
      rfl

/-- The file of some samples can be made. -/
def FileFits (w : Width) (count : Nat) : Prop := 44 + 2 * count ≤ maxBuffer w ∧ 36 + 2 * count < 2 ^ 32

theorem maxBuffer_lt (w : Width) : maxBuffer w < w.modulus := by
  cases w with
  | w32 => decide
  | w64 => decide

theorem buildWav_eq {samples : List Nat} (hfits : FileFits w samples.length) :
    buildWav w samples = .ok (wavBytes (36 + 2 * samples.length) (2 * samples.length) samples) := by
  obtain ⟨hbuffer, hsize⟩ := hfits
  have hm := w.modulus_le.1
  have hmax := maxBuffer_lt w
  have hcut : samples.length * 2 % 2 ^ 32 = 2 * samples.length := by omega
  rw [buildWav, mulBelow_eq (by omega)]
  show (addBelow w.modulus 44 (samples.length * 2 % 2 ^ 32) >>= _) = _
  rw [hcut, addBelow_eq (by omega)]
  show (withCapacity w (44 + 2 * samples.length) >>= _) = _
  rw [withCapacity, if_pos hbuffer]
  show (addBelow (2 ^ 32) 36 (2 * samples.length) >>= _) = _
  rw [addBelow_eq hsize]
  exact if_pos (by omega)

/-! ### What is safe, step by step -/

/-- A step that succeeds under a condition and is stopped otherwise. -/
theorem safe_ite_bind {α β : Type} {p : Prop} [Decidable p] {a : α} {stop : Stop} {f : α → Checked β}
    (hstop : ∀ text, stop ≠ .failed text) :
    Safe ((if p then .ok a else .error stop) >>= f) ↔ p ∧ Safe (f a) := by
  by_cases hp : p
  · rw [if_pos hp, and_iff_right hp]
    exact Iff.rfl
  · rw [if_neg hp]
    refine ⟨fun h => ?_, fun h => absurd h.1 hp⟩
    obtain ⟨text, htext⟩ := h _ rfl
    exact absurd htext (hstop text)

theorem safe_add_bind {β : Type} {m a b : Nat} {f : Nat → Checked β} :
    Safe (addBelow m a b >>= f) ↔ a + b < m ∧ Safe (f (a + b)) := safe_ite_bind fun _ h => nomatch h

theorem safe_mul_bind {β : Type} {m a b : Nat} {f : Nat → Checked β} :
    Safe (mulBelow m a b >>= f) ↔ a * b < m ∧ Safe (f (a * b)) := safe_ite_bind fun _ h => nomatch h

theorem safe_capacity_bind {β : Type} {bytes : Nat} {f : Unit → Checked β} :
    Safe (withCapacity w bytes >>= f) ↔ bytes ≤ maxBuffer w ∧ Safe (f ()) := safe_ite_bind fun _ h => nomatch h

/-- The file is made exactly when it fits. -/
theorem buildWav_safe_iff {samples : List Nat} : Safe (buildWav w samples) ↔ FileFits w samples.length := by
  have hmax := maxBuffer_lt w
  have hm := w.modulus_le.1
  have hfill : ∀ {out : Bytes}, Safe (if samples.length * 2 ≤ samples.length * 2 % 2 ^ 32 then .ok out
      else .error .outOfBounds : Checked Bytes) ↔ samples.length * 2 ≤ samples.length * 2 % 2 ^ 32 := fun {out} => by
    have hbind : Safe ((if samples.length * 2 ≤ samples.length * 2 % 2 ^ 32 then .ok out else .error .outOfBounds) >>= pure) ↔
        _ ∧ Safe (pure out : Checked Bytes) := safe_ite_bind fun _ h => nomatch h
    rw [bind_pure] at hbind
    exact hbind.trans (and_iff_left (safe_ok out))
  rw [buildWav, safe_mul_bind]
  dsimp only
  rw [safe_add_bind, safe_capacity_bind, safe_add_bind, hfill, FileFits]
  omega

/-! ### The conversion -/

variable {sampling : Sampling} {info : WavInfo}

/-- The samples, mixed to one channel. -/
def monoOf (sampling : Sampling) (data : Bytes) (info : WavInfo) (numFrames : Nat) : List Nat :=
  let samples := samplesFrom data info.dataOffset (numFrames * info.numChannels) 0
  if 1 < info.numChannels then (List.range numFrames).map fun frame => sampling.mix samples info.numChannels frame
  else samples

/-- How many frames the header promises. -/
def framesOf (info : WavInfo) : Nat := info.dataSize / (info.numChannels * 2)

/-- The samples of the new file. -/
def convertedOf (sampling : Sampling) (data : Bytes) (info : WavInfo) : List Nat :=
  let mono := monoOf sampling data info (framesOf info)
  if info.sampleRate ≠ 44100 then (sampling.resample mono info.sampleRate).2 else mono

/-- **What the conversion of a sound of 16-bit samples needs**: a channel; of a sound that is kept as it is, that the samples are
in the file; of another, that the buffers it takes, and the new file, can be made. -/
structure Convertible (w : Width) (sampling : Sampling) (data : Bytes) (info : WavInfo) : Prop where
  channel : info.numChannels ≠ 0
  kept : info.sampleRate = 44100 → ¬ 1 < info.numChannels → info.dataOffset + info.dataSize ≤ data.length
  samples : info.sampleRate ≠ 44100 ∨ 1 < info.numChannels → 2 * (framesOf info * info.numChannels) ≤ maxBuffer w
  resampled : info.sampleRate ≠ 44100 →
    2 * (sampling.resample (monoOf sampling data info (framesOf info)) info.sampleRate).1 ≤ maxBuffer w ∧
      FileFits w (sampling.resample (monoOf sampling data info (framesOf info)) info.sampleRate).2.length

theorem safe_capacity_map_bind {α β : Type} {bytes : Nat} {g : Unit → α} {f : α → Checked β} :
    Safe ((withCapacity w bytes).map g >>= f) ↔ bytes ≤ maxBuffer w ∧ Safe (f (g ())) := by
  have hbind : Safe (withCapacity w bytes >>= fun _ => f (g ())) ↔ _ := safe_capacity_bind
  rw [← hbind, withCapacity]
  by_cases h : bytes ≤ maxBuffer w
  · rw [if_pos h]
    exact Iff.rfl
  · rw [if_neg h]
    exact Iff.rfl

theorem safe_mixDown_bind {β : Type} {numFrames : Nat} {samples : List Nat} {f : List Nat → Checked β} :
    Safe (mixDown w sampling info numFrames samples >>= f) ↔ (1 < info.numChannels → 2 * numFrames ≤ maxBuffer w) ∧
      Safe (f (if 1 < info.numChannels then
        (List.range numFrames).map fun frame => sampling.mix samples info.numChannels frame else samples)) := by
  rw [mixDown]
  by_cases h : 1 < info.numChannels
  · rw [if_pos h, if_pos h, safe_capacity_map_bind, forall_prop_of_true h]
  · rw [if_neg h, if_neg h, pure_bind, and_iff_right fun hmany => absurd hmany h]

theorem safe_resampleMono_bind {β : Type} {rate : Nat} {mono : List Nat} {f : List Nat → Checked β} :
    Safe (resampleMono w sampling rate mono >>= f) ↔
      (rate ≠ 44100 → 2 * (sampling.resample mono rate).1 ≤ maxBuffer w) ∧
        Safe (f (if rate ≠ 44100 then (sampling.resample mono rate).2 else mono)) := by
  rw [resampleMono]
  by_cases h : rate ≠ 44100
  · rw [if_pos h, if_pos h, safe_capacity_map_bind, forall_prop_of_true h]
  · rw [if_neg h, if_neg h, pure_bind, and_iff_right fun hother => absurd hother h]

/-- The steps of the conversion. -/
theorem convert_safe_iff_steps (hlen : data.length + 4 < 2 ^ 32) (hoffset : info.dataOffset ≤ data.length) :
    Safe (convert w sampling data info (framesOf info)) ↔
      framesOf info * info.numChannels < w.modulus ∧ 2 * (framesOf info * info.numChannels) ≤ maxBuffer w ∧
        (1 < info.numChannels → 2 * framesOf info ≤ maxBuffer w) ∧
          (info.sampleRate ≠ 44100 →
            2 * (sampling.resample (monoOf sampling data info (framesOf info)) info.sampleRate).1 ≤ maxBuffer w) ∧
            Safe (buildWav w (convertedOf sampling data info)) := by
  rw [convert, safe_mul_bind, safe_capacity_bind, readSamples_eq hlen _ 0 (by omega)]
  refine and_congr_right fun _ => and_congr_right fun _ => ?_
  exact safe_mixDown_bind.trans (and_congr_right fun _ => safe_resampleMono_bind)

theorem framesOf_le (info : WavInfo) : framesOf info * info.numChannels * 2 ≤ info.dataSize := by
  rw [Nat.mul_assoc]
  exact Nat.div_mul_le_self _ _

/-- The conversion is safe exactly when its buffers and its file can be made. -/
theorem convert_safe_iff (hlen : data.length + 4 < 2 ^ 32) (hrange : InRange data info) (hchannel : info.numChannels ≠ 0)
    (hchange : info.sampleRate ≠ 44100 ∨ 1 < info.numChannels) :
    Safe (convert w sampling data info (framesOf info)) ↔ Convertible w sampling data info := by
  have hm := w.modulus_le.1
  have hle := framesOf_le info
  have hsize := hrange.dataSize
  have hframes : framesOf info ≤ framesOf info * info.numChannels := Nat.le_mul_of_pos_right _ (Nat.pos_of_ne_zero hchannel)
  rw [convert_safe_iff_steps hlen hrange.dataOffset]
  by_cases hrate : info.sampleRate ≠ 44100
  · have hconverted : convertedOf sampling data info =
        (sampling.resample (monoOf sampling data info (framesOf info)) info.sampleRate).2 := if_pos hrate
    rw [hconverted]
    constructor
    · rintro ⟨-, hsamples, -, hcapacity, hfile⟩
      have hcapacity := hcapacity hrate
      exact ⟨hchannel, fun h => absurd h hrate, fun _ => hsamples, fun _ =>
        ⟨hcapacity, buildWav_safe_iff.mp hfile⟩⟩
    · intro h
      obtain ⟨hcapacity, hfile⟩ := h.resampled hrate
      exact ⟨by omega, h.samples hchange, fun _ => by have hsamples := h.samples hchange; omega, fun _ => hcapacity,
        buildWav_safe_iff.mpr hfile⟩
  · -- only mixed: half the samples or fewer
    have hmany : 1 < info.numChannels := hchange.resolve_left hrate
    have hconverted : convertedOf sampling data info = monoOf sampling data info (framesOf info) := if_neg hrate
    have hlength : (convertedOf sampling data info).length = framesOf info := by
      rw [hconverted, monoOf, if_pos hmany, List.length_map, List.length_range]
    have hhalf : framesOf info * 2 ≤ framesOf info * info.numChannels := Nat.mul_le_mul_left _ hmany
    have hfits : 2 * (framesOf info * info.numChannels) ≤ maxBuffer w → FileFits w (framesOf info) := by
      intro hsamples
      refine ⟨?_, by omega⟩
      cases w with
      | w32 =>
        have hmax : maxBuffer .w32 = 2 ^ 31 - 1 := rfl
        omega
      | w64 =>
        have hmax : maxBuffer .w64 = 2 ^ 63 - 1 := rfl
        omega
    constructor
    · rintro ⟨-, hsamples, -, -, -⟩
      exact ⟨hchannel, fun _ h => absurd hmany h, fun _ => hsamples, fun h => absurd h hrate⟩
    · intro h
      have hsamples := h.samples hchange
      refine ⟨by omega, hsamples, fun _ => by omega, fun h => absurd h hrate, ?_⟩
      rw [buildWav_safe_iff, hlength]
      exact hfits hsamples

theorem eq_wavBytes_of_buildWav {samples : List Nat} {out : Bytes} (h : buildWav w samples = .ok out) :
    FileFits w samples.length ∧ out = wavBytes (36 + 2 * samples.length) (2 * samples.length) samples := by
  have hfits : FileFits w samples.length := buildWav_safe_iff.mp (h ▸ safe_ok out)
  rw [buildWav_eq hfits] at h
  exact ⟨hfits, (Except.ok.inj h).symm⟩

theorem exists_buildWav_of_convert {numFrames : Nat} {out : Bytes} (h : convert w sampling data info numFrames = .ok out) :
    ∃ samples, buildWav w samples = .ok out := by
  rw [convert] at h
  obtain ⟨total, -, h⟩ := bind_eq_ok.mp h
  obtain ⟨-, -, h⟩ := bind_eq_ok.mp h
  obtain ⟨samples, -, h⟩ := bind_eq_ok.mp h
  obtain ⟨mono, -, h⟩ := bind_eq_ok.mp h
  obtain ⟨resampled, -, h⟩ := bind_eq_ok.mp h
  exact ⟨resampled, h⟩

end Convert

/-! ## Well-formed results -/

/-- A file of 16-bit PCM samples in one channel at 44100 Hz, with its samples inside the file. -/
def WellFormed (w : Width) (out : Bytes) : Prop :=
  ∃ fuel info, parseWavInfo (addBelow w.modulus) out fuel = some (.ok info) ∧ info.audioFormat = 1 ∧
    info.bitsPerSample = 16 ∧ info.numChannels = 1 ∧ info.sampleRate = 44100 ∧
      info.dataOffset + info.dataSize ≤ out.length

section Results

variable {w : Width} {sampling : Sampling} {data out : Bytes} {info : WavInfo} {fuel : Nat}

theorem length_wavBytes (riffSize dataSize : Nat) (samples : List Nat) :
    (wavBytes riffSize dataSize samples).length = 44 + 2 * samples.length := by
  have hsamples : (samples.flatMap (leBytes 2)).length = 2 * samples.length := by
    induction samples with
    | nil => rfl
    | cons sample samples ih =>
      rw [List.flatMap_cons, List.length_append, ih, length_leBytes, List.length_cons]
      omega
  rw [wavBytes, List.length_append, hsamples]
  rfl

theorem slice_eq {file rest : Bytes} {pos n : Nat} (before field : Bytes) (hfile : file = before ++ (field ++ rest))
    (hpos : before.length = pos) (hn : field.length = n) : (file.drop pos).take n = field := by
  rw [hfile, List.drop_left' hpos, List.take_left' hn]

/-- A file with the header that is written. -/
structure Header (file : Bytes) (dataSize : Nat) : Prop where
  long : 44 ≤ file.length
  riff : file.take 4 = riffId
  wave : (file.drop 8).take 4 = waveId
  fmt : idAt file 12 = fmtId
  fmtSize : sizeAt file 12 = 16
  format : leValue ((file.drop 20).take 2) = 1
  channels : leValue ((file.drop 22).take 2) = 1
  rate : leValue ((file.drop 24).take 4) = 44100
  bits : leValue ((file.drop 34).take 2) = 16
  samples : idAt file 36 = dataId
  samplesSize : sizeAt file 36 = dataSize

/-- The new file has it. -/
theorem header_wavBytes (riffSize : Nat) {dataSize : Nat} (hsize : dataSize < 2 ^ 32) (samples : List Nat) :
    Header (wavBytes riffSize dataSize samples) dataSize := by
  have hnumber : ∀ {bytes : Bytes} {n value : Nat}, bytes = leBytes n value → value < 256 ^ n → leValue bytes = value :=
    fun hbytes hvalue => by rw [hbytes, leValue_leBytes_of_lt hvalue]
  -- the header up to a field
  let fmt := riffId ++ leBytes 4 riffSize ++ waveId
  let format := fmt ++ fmtId ++ leBytes 4 16
  let rate := format ++ leBytes 2 1 ++ leBytes 2 1
  let bits := rate ++ leBytes 4 44100 ++ leBytes 4 88200 ++ leBytes 2 2
  let content := bits ++ leBytes 2 16
  constructor
  case long => rw [length_wavBytes]; omega
  case riff =>
    show ((wavBytes riffSize dataSize samples).drop 0).take 4 = riffId
    exact slice_eq [] riffId (by simp only [wavBytes, List.append_assoc]; rfl) rfl rfl
  case wave =>
    exact slice_eq (riffId ++ leBytes 4 riffSize) waveId (by simp only [wavBytes, List.append_assoc]; rfl) rfl rfl
  case fmt => exact slice_eq fmt fmtId (by simp only [wavBytes, fmt, List.append_assoc]; rfl) rfl rfl
  case fmtSize =>
    exact hnumber (slice_eq (fmt ++ fmtId) (leBytes 4 16) (by simp only [wavBytes, fmt, List.append_assoc]; rfl) rfl rfl) (by decide)
  case format =>
    exact hnumber (slice_eq format (leBytes 2 1) (by simp only [wavBytes, fmt, format, List.append_assoc]; rfl) rfl rfl) (by decide)
  case channels =>
    exact hnumber (slice_eq (format ++ leBytes 2 1) (leBytes 2 1) (by simp only [wavBytes, fmt, format, List.append_assoc]; rfl) rfl rfl) (by decide)
  case rate =>
    exact hnumber (slice_eq rate (leBytes 4 44100) (by simp only [wavBytes, fmt, format, rate, List.append_assoc]; rfl) rfl rfl) (by decide)
  case bits =>
    exact hnumber (slice_eq bits (leBytes 2 16) (by simp only [wavBytes, fmt, format, rate, bits, List.append_assoc]; rfl) rfl rfl) (by decide)
  case samples =>
    exact slice_eq content dataId (by simp only [wavBytes, fmt, format, rate, bits, content, List.append_assoc]; rfl) rfl rfl
  case samplesSize =>
    exact hnumber (slice_eq (content ++ dataId) (leBytes 4 dataSize) (by simp only [wavBytes, fmt, format, rate, bits, content, List.append_assoc]; rfl) rfl rfl) hsize

/-- A chunk that fits is looked at as it is. -/
theorem chunkBody_fits {τ ρ : Type} {m : Nat} {file : Bytes} {inspect : Nat → Bytes → Nat → τ → Checked (τ ⊕ ρ)}
    {finish : τ → Checked ρ} {s : Nat × τ} (hin : s.1 + 8 ≤ file.length) (hm : s.1 + 8 < m) :
    chunkBody (addBelow m) file inspect finish s =
      inspect s.1 (idAt file s.1) (sizeAt file s.1) s.2 >>= proceed (addBelow m) s.1 (sizeAt file s.1) := by
  rw [chunkBody_chunk _ hin, addBelow_eq hm]
  exact if_neg (Nat.not_lt.mpr hin)

/-- A file with that header says what it is. -/
theorem parseWavInfo_of_header {file : Bytes} {dataSize : Nat} (h : Header file dataSize) :
    parseWavInfo (addBelow w.modulus) file 2 = some (.ok ⟨1, 1, 44100, 16, 44, dataSize⟩) := by
  have hm := w.modulus_le.1
  have hlong := h.long
  have hheader : headerError file = none := by
    rw [headerError, if_neg (by omega), if_pos ⟨h.riff, h.wave⟩]
  have hformat : inspectInfo (addBelow w.modulus) file 12 fmtId 16 infoStart.2 =
      .ok (.inl (⟨1, 1, 44100, 16, 0, 0⟩, true)) := by
    rw [inspectInfo, if_pos rfl, addBelow_eq (by omega)]
    show (if file.length < 12 + 8 + 16 ∨ 16 < 16 then _ else _) = _
    rw [if_neg (by omega), numberAt_eq (by omega), numberAt_eq (by omega), numberAt_eq (by omega), numberAt_eq (by omega),
      h.format, h.channels, h.rate, h.bits]
    rfl
  have hfirst : infoPass (addBelow w.modulus) file infoStart = .again (36, ⟨1, 1, 44100, 16, 0, 0⟩, true) := by
    have hnext : nextChunk (addBelow w.modulus) 12 16 = .ok 36 := (tracks_nextChunk w.modulus 12 16).same (by omega)
    rw [infoPass, chunkPass, chunkBody_fits (show 12 + 8 ≤ file.length by omega) (show 12 + 8 < w.modulus by omega)]
    show turnOf (inspectInfo (addBelow w.modulus) file 12 (idAt file 12) (sizeAt file 12) infoStart.2 >>=
      proceed (addBelow w.modulus) 12 (sizeAt file 12)) = _
    rw [h.fmt, h.fmtSize, hformat]
    show turnOf (nextChunk (addBelow w.modulus) 12 16 >>= _) = _
    rw [hnext]
    rfl
  have hsecond : infoPass (addBelow w.modulus) file (36, ⟨1, 1, 44100, 16, 0, 0⟩, true) =
      .done (.ok ⟨1, 1, 44100, 16, 44, dataSize⟩) := by
    rw [infoPass, chunkPass, chunkBody_fits (show 36 + 8 ≤ file.length by omega) (show 36 + 8 < w.modulus by omega)]
    show turnOf (inspectInfo (addBelow w.modulus) file 36 (idAt file 36) (sizeAt file 36) _ >>= _) = _
    rw [h.samples, h.samplesSize]
    rfl
  rw [parseWavInfo, hheader]
  exact (loop_again hfirst 1).trans (loop_done hsecond 0)

/-- What a conversion gives is well-formed. -/
theorem wellFormed_of_buildWav {samples : List Nat} (h : buildWav w samples = .ok out) : WellFormed w out := by
  obtain ⟨hfits, rfl⟩ := eq_wavBytes_of_buildWav h
  have hsize : 2 * samples.length < 2 ^ 32 := by
    have hfile := hfits.2
    omega
  refine ⟨2, _, parseWavInfo_of_header (header_wavBytes _ hsize samples), rfl, rfl, rfl, rfl, ?_⟩
  rw [length_wavBytes]

theorem parseWavInfo_unique {add : Nat → Nat → Checked Nat} {fuel' : Nat} {r r' : Checked WavInfo}
    (h : parseWavInfo add data fuel = some r) (h' : parseWavInfo add data fuel' = some r') : r = r' := by
  rw [parseWavInfo] at h h'
  cases hheader : headerError data with
  | some text =>
    rw [hheader] at h h'
    exact Option.some.inj (h.symm.trans h')
  | none =>
    rw [hheader] at h h'
    exact loop_unique h h'

/-- A sound that is read is well-formed exactly when it is what it should be. -/
theorem wellFormed_iff (hparse : parseWavInfo (addBelow w.modulus) data fuel = some (.ok info)) :
    WellFormed w data ↔ info.audioFormat = 1 ∧ info.bitsPerSample = 16 ∧ info.numChannels = 1 ∧ info.sampleRate = 44100 ∧
      info.dataOffset + info.dataSize ≤ data.length := by
  constructor
  · rintro ⟨fuel', info', hparse', hall⟩
    rwa [← Except.ok.inj (parseWavInfo_unique hparse' hparse)]
  · exact fun h => ⟨fuel, info, hparse, h⟩

/-- The result is safe, and a file that comes out is well-formed. -/
def Sound (w : Width) (c : Checked Bytes) : Prop := Safe c ∧ ∀ out, c = .ok out → WellFormed w out

theorem sound_fail (text : String) : Sound w (fail text) := ⟨safe_fail text, fun _ h => nomatch h⟩

/-- **A sound whose header is read** comes out well exactly when it is not of 16-bit samples, or can be converted. -/
theorem sound_normalize_iff (hlen : data.length + 4 < 2 ^ 32) (hrange : InRange data info)
    (hparse : parseWavInfo (addBelow w.modulus) data fuel = some (.ok info)) :
    Sound w (normalize w sampling data info) ↔
      (info.audioFormat = 1 → info.bitsPerSample = 16 → Convertible w sampling data info) := by
  have hm := w.modulus_le.1
  have hchannels := hrange.numChannels
  by_cases hformat : info.audioFormat = 1
  · by_cases hbits : info.bitsPerSample = 16
    · rw [forall_prop_of_true hformat, forall_prop_of_true hbits, normalize, if_neg (not_not.mpr hformat),
        if_neg (not_not.mpr hbits), mulBelow_eq (by omega)]
      by_cases hzero : info.numChannels = 0
      · rw [hzero]
        refine ⟨fun h => absurd h.1 ?_, fun h => absurd hzero h.channel⟩
        intro hsafe
        obtain ⟨text, htext⟩ := hsafe .divisionByZero rfl
        exact nomatch htext
      · show Sound w (divide info.dataSize (info.numChannels * 2) >>= _) ↔ _
        rw [divide, if_neg (by omega)]
        show Sound w (if _ then _ else convert w sampling data info (framesOf info)) ↔ _
        by_cases hkept : info.sampleRate = 44100 ∧ ¬ 1 < info.numChannels
        · rw [if_pos hkept]
          have hwell := wellFormed_iff hparse
          constructor
          · intro h
            have hinside := (hwell.mp (h.2 data rfl)).2.2.2.2
            exact ⟨hzero, fun _ _ => hinside, fun hchange => absurd hkept (not_and_or.mpr (hchange.imp id not_not.mpr)),
              fun hother => absurd hkept.1 hother⟩
          · intro h
            refine ⟨safe_ok data, fun out hout => ?_⟩
            obtain rfl := Except.ok.inj hout
            exact hwell.mpr ⟨hformat, hbits, by omega, hkept.1, h.kept hkept.1 hkept.2⟩
        · rw [if_neg hkept]
          have hchange : info.sampleRate ≠ 44100 ∨ 1 < info.numChannels := by
            rw [not_and_or, not_not] at hkept
            exact hkept
          refine Iff.trans ?_ (convert_safe_iff hlen hrange hzero hchange)
          refine and_iff_left fun out hout => ?_
          obtain ⟨samples, hbuild⟩ := exists_buildWav_of_convert hout
          exact wellFormed_of_buildWav hbuild
    · rw [normalize, if_neg (not_not.mpr hformat), if_pos hbits]
      exact ⟨fun _ _ h => absurd h hbits, fun _ => sound_fail _⟩
  · rw [normalize, if_pos hformat]
    exact ⟨fun _ h => absurd h hformat, fun _ => sound_fail _⟩

/-! ## The whole -/

/-- **A file is processed safely**: both readers and the conversion end with a result or with an error of their own, and a file
that comes out of the conversion is well-formed. -/
structure ProcessedSafely (w : Width) (sampling : Sampling) (data : Bytes) : Prop where
  info : ∃ fuel r, parseWavInfo (addBelow w.modulus) data fuel = some r ∧ Safe r
  duration : ∃ fuel r, parseWavDuration (addBelow w.modulus) data fuel = some r ∧ Safe r
  mono : ∃ fuel r, ensureMonoWav w sampling data fuel = some r ∧ Safe r
  wellFormed : ∀ fuel out, ensureMonoWav w sampling data fuel = some (.ok out) → WellFormed w out

/-- The file starts like a sound. -/
def StartsAsWav (data : Bytes) : Prop := 44 ≤ data.length ∧ data.take 4 = riffId ∧ (data.drop 8).take 4 = waveId

/-- **What safe processing needs** of a file that starts like a sound: its chunks end below the modulus, and a sound of 16-bit
samples can be converted. -/
structure Processable (w : Width) (sampling : Sampling) (data : Bytes) : Prop where
  infoChunks : ChunksEnd w.modulus data AnyFormat
  durationChunks : ChunksEnd w.modulus data (HasRate data)
  sound : ∀ fmt pos, IsSound data fmt pos → valueAt data (fmt + 8) 2 = 1 → valueAt data (fmt + 22) 2 = 16 →
    Convertible w sampling data (soundOf data fmt pos)

/-- On 64 bits every chunk ends below the modulus. -/
theorem chunksEnd_w64 (hlen : data.length < 2 ^ 62) (usable : Nat → Prop) : ChunksEnd Width.w64.modulus data usable := by
  have hm : Width.w64.modulus = 2 ^ 64 := rfl
  have hsize (pos : Nat) : sizeAt data pos < 2 ^ 32 := leValue_take_lt 4 _
  have hbehind : ∀ pos last, ChunkAt data usable pos last → pos ≤ data.length + 2 ^ 33 := by
    intro pos last h
    induction h with
    | first => omega
    | @format pos last _ hformat ih =>
      have hinside := hformat.2.2
      rw [chunkEnd]
      omega
    | @other pos last _ hin _ _ ih =>
      have hhere := hsize pos
      rw [chunkEnd]
      omega
  intro pos last h
  have hpos := hbehind pos last h
  have hhere := hsize pos
  exact ⟨by omega, fun _ _ => by omega⟩

theorem headerError_eq_none_iff : headerError data = none ↔ StartsAsWav data := by
  rw [headerError, StartsAsWav]
  by_cases hlong : data.length < 44
  · rw [if_pos hlong]
    exact ⟨fun h => (nomatch h), fun h => absurd hlong (Nat.not_lt.mpr h.1)⟩
  · rw [if_neg hlong, and_iff_right (Nat.le_of_not_lt hlong)]
    by_cases hid : data.take 4 = riffId ∧ (data.drop 8).take 4 = waveId
    · rw [if_pos hid]
      exact iff_of_true rfl hid
    · rw [if_neg hid]
      exact iff_of_false (fun h => nomatch h) hid

theorem parseWavInfo_none {add : Nat → Nat → Checked Nat} (h : headerError data = none) (fuel : Nat) :
    parseWavInfo add data fuel = loop (infoPass add data) fuel infoStart := by
  rw [parseWavInfo, h]

theorem parseWavDuration_none {add : Nat → Nat → Checked Nat} (h : headerError data = none) (fuel : Nat) :
    parseWavDuration add data fuel = loop (durationPass add data) fuel durationStart := by
  rw [parseWavDuration, h]

theorem info_safe_iff (h : headerError data = none) :
    (∃ fuel r, parseWavInfo (addBelow w.modulus) data fuel = some r ∧ Safe r) ↔ ChunksEnd w.modulus data AnyFormat := by
  simp only [parseWavInfo_none h]
  exact (walk_safe_iff (reader_inspectInfo w.modulus data) infoStart).trans (visitsFit_iff (keeps_inspectInfo data))

theorem duration_safe_iff (h : headerError data = none) :
    (∃ fuel r, parseWavDuration (addBelow w.modulus) data fuel = some r ∧ Safe r) ↔
      ChunksEnd w.modulus data (HasRate data) := by
  simp only [parseWavDuration_none h]
  exact (walk_safe_iff (reader_inspectDuration w.modulus data) durationStart).trans (visitsFit_iff (keeps_inspectDuration data))

/-- Where the chunks end below the modulus, a header is read exactly when the file is a sound. -/
theorem parseWavInfo_ok_iff (h : headerError data = none) (hend : ChunksEnd w.modulus data AnyFormat) :
    (∃ fuel, parseWavInfo (addBelow w.modulus) data fuel = some (.ok info)) ↔
      ∃ fmt pos, IsSound data fmt pos ∧ info = soundOf data fmt pos := by
  rw [← loop_infoPass_iff]
  have hfit : VisitsFit w.modulus data (infoPass exactly data) infoStart := (visitsFit_iff (keeps_inspectInfo data)).mpr hend
  have hwalk (fuel : Nat) : loop (infoPass (addBelow w.modulus) data) fuel infoStart = loop (infoPass exactly data) fuel infoStart :=
    walk_eq_exactly (reader_inspectInfo w.modulus data) hfit fuel
  simp only [parseWavInfo_none h, hwalk]

theorem ensureMonoWav_of_parse {r : Checked WavInfo} (h : parseWavInfo (addBelow w.modulus) data fuel = some r) :
    ensureMonoWav w sampling data fuel = some (r >>= normalize w sampling data) := by
  rw [ensureMonoWav, h]
  rfl

theorem exists_parse_of_ensure {c : Checked Bytes} (h : ensureMonoWav w sampling data fuel = some c) :
    ∃ r, parseWavInfo (addBelow w.modulus) data fuel = some r ∧ c = r >>= normalize w sampling data := by
  obtain ⟨r, hr, rfl⟩ := Option.map_eq_some_iff.mp h
  exact ⟨r, hr, rfl⟩

/-- The conversion of a file whose header is read. -/
theorem mono_iff {r : Checked WavInfo} (hparse : parseWavInfo (addBelow w.modulus) data fuel = some r) :
    ((∃ fuel r, ensureMonoWav w sampling data fuel = some r ∧ Safe r) ∧
      ∀ fuel out, ensureMonoWav w sampling data fuel = some (.ok out) → WellFormed w out) ↔
        Sound w (r >>= normalize w sampling data) := by
  constructor
  · rintro ⟨⟨fuel', c, hc, hsafe⟩, hwell⟩
    obtain ⟨r', hr', rfl⟩ := exists_parse_of_ensure hc
    obtain rfl := parseWavInfo_unique hr' hparse
    exact ⟨hsafe, fun out hout => hwell fuel out ((ensureMonoWav_of_parse hparse).trans (congrArg some hout))⟩
  · intro h
    refine ⟨⟨fuel, _, ensureMonoWav_of_parse hparse, h.1⟩, fun fuel' out hout => h.2 out ?_⟩
    obtain ⟨r', hr', hout⟩ := exists_parse_of_ensure hout
    rw [← parseWavInfo_unique hr' hparse]
    exact hout.symm

/-- A file that does not start like a sound is refused. -/
theorem processedSafely_of_headerError {text : String} (h : headerError data = some text) : ProcessedSafely w sampling data := by
  have hinfo : parseWavInfo (addBelow w.modulus) data 0 = some (fail text) := by
    rw [parseWavInfo, h]
  have hduration : parseWavDuration (addBelow w.modulus) data 0 = some (fail text) := by
    rw [parseWavDuration, h]
  obtain ⟨hmono, hwell⟩ : _ ∧ ∀ fuel out, ensureMonoWav w sampling data fuel = some (.ok out) → WellFormed w out :=
    (mono_iff hinfo).mpr (sound_fail text)
  exact ⟨⟨0, _, hinfo, safe_fail text⟩, ⟨0, _, hduration, safe_fail text⟩, hmono, hwell⟩

/-- The conversion of a file whose chunks end below the modulus. -/
theorem mono_safe_iff (hlen : data.length + 4 < 2 ^ 32) (hheader : headerError data = none)
    (hend : ChunksEnd w.modulus data AnyFormat) :
    ((∃ fuel r, ensureMonoWav w sampling data fuel = some r ∧ Safe r) ∧
      ∀ fuel out, ensureMonoWav w sampling data fuel = some (.ok out) → WellFormed w out) ↔
        ∀ fmt pos, IsSound data fmt pos → valueAt data (fmt + 8) 2 = 1 → valueAt data (fmt + 22) 2 = 16 →
          Convertible w sampling data (soundOf data fmt pos) := by
  obtain ⟨fuel, r, hparse, hsafe⟩ := (info_safe_iff hheader).mpr hend
  rw [mono_iff hparse]
  cases r with
  | error stop =>
    obtain ⟨text, rfl⟩ := hsafe stop rfl
    refine iff_of_true (sound_fail text) fun fmt pos hsound => ?_
    obtain ⟨fuel', hok⟩ := (parseWavInfo_ok_iff hheader hend).mpr ⟨fmt, pos, hsound, rfl⟩
    exact nomatch parseWavInfo_unique hparse hok
  | ok info =>
    obtain ⟨fmt, pos, hsound, rfl⟩ := (parseWavInfo_ok_iff hheader hend).mp ⟨fuel, hparse⟩
    refine (sound_normalize_iff hlen (inRange_soundOf fmt hsound.inside) hparse).trans ⟨fun h fmt' pos' hsound' => ?_, fun h => ?_⟩
    · -- there is only one sound in a file
      obtain ⟨fuel', hok⟩ := (parseWavInfo_ok_iff hheader hend).mpr ⟨fmt', pos', hsound', rfl⟩
      rw [← Except.ok.inj (parseWavInfo_unique hparse hok)]
      have hsame : soundOf data fmt pos = soundOf data fmt' pos' := Except.ok.inj (parseWavInfo_unique hparse hok)
      have hformat : valueAt data (fmt + 8) 2 = valueAt data (fmt' + 8) 2 := congrArg WavInfo.audioFormat hsame
      have hbits : valueAt data (fmt + 22) 2 = valueAt data (fmt' + 22) 2 := congrArg WavInfo.bitsPerSample hsame
      rw [← hformat, ← hbits]
      exact h
    · exact h fmt pos hsound

/-- **A file is processed safely exactly when it does not start like a sound, or is one that can be processed.** -/
theorem processes_safely_iff (hlen : data.length ≤ 2 ^ 20 + 4096) :
    ProcessedSafely w sampling data ↔ (StartsAsWav data → Processable w sampling data) := by
  have hshort : data.length + 4 < 2 ^ 32 := by omega
  rw [← headerError_eq_none_iff]
  cases hheader : headerError data with
  | some text => exact iff_of_true (processedSafely_of_headerError hheader) fun h => (nomatch h)
  | none =>
    rw [forall_prop_of_true rfl]
    constructor
    · intro h
      have hend := (info_safe_iff hheader).mp h.info
      exact ⟨hend, (duration_safe_iff hheader).mp h.duration, (mono_safe_iff hshort hheader hend).mp ⟨h.mono, h.wellFormed⟩⟩
    · intro h
      have hmono := (mono_safe_iff hshort hheader h.infoChunks).mpr h.sound
      exact ⟨(info_safe_iff hheader).mpr h.infoChunks, (duration_safe_iff hheader).mpr h.durationChunks, hmono.1, hmono.2⟩

/-- A sound without samples. -/
def silence : Bytes := wavBytes 36 0 []

theorem processes_safely_silence : ProcessedSafely .w64 ⟨fun _ _ _ => 0, fun mono _ => (mono.length, mono)⟩ silence := by
  have hlen : silence.length ≤ 2 ^ 20 + 4096 := by decide
  have hstarts : StartsAsWav silence := by
    unfold StartsAsWav
    decide
  have hend (usable : Nat → Prop) : ChunksEnd Width.w64.modulus silence usable := chunksEnd_w64 (by omega) usable
  refine (processes_safely_iff hlen).mpr fun _ => ⟨hend _, hend _, fun fmt pos hsound _ _ => ?_⟩
  obtain ⟨fuel, hok⟩ := (parseWavInfo_ok_iff (headerError_eq_none_iff.mpr hstarts) (hend _)).mpr ⟨fmt, pos, hsound, rfl⟩
  have hheader : Header silence 0 := header_wavBytes 36 (Nat.two_pow_pos 32) []
  have hsame : soundOf silence fmt pos = ⟨1, 1, 44100, 16, 44, 0⟩ :=
    Except.ok.inj (parseWavInfo_unique hok (parseWavInfo_of_header hheader))
  rw [hsame]
  exact ⟨Nat.one_ne_zero, fun _ _ => le_of_eq (by decide), fun h => absurd h (by decide), fun h => absurd rfl h⟩

/-- A header with no channels. -/
def noChannels : Bytes :=
  riffId ++ leBytes 4 36 ++ waveId ++ fmtId ++ leBytes 4 16 ++ leBytes 2 1 ++ leBytes 2 0 ++ leBytes 4 44100 ++ leBytes 4 88200
    ++ leBytes 2 2 ++ leBytes 2 16 ++ dataId ++ leBytes 4 0

/-- **Not every file is processed safely**: the size of a frame of no channels is zero, and the samples are divided by it. -/
theorem not_processes_safely : ¬ ∀ (w : Width) (sampling : Sampling) (data : Bytes), data.length ≤ 2 ^ 20 + 4096 →
    ProcessedSafely w sampling data := by
  intro h
  obtain ⟨fuel, r, hr, hsafe⟩ := (h .w64 ⟨fun _ _ _ => 0, fun _ _ => (0, [])⟩ noChannels (by decide)).mono
  have hparse : parseWavInfo (addBelow Width.w64.modulus) noChannels 2 = some (.ok ⟨1, 0, 44100, 16, 44, 0⟩) := by decide +kernel
  obtain ⟨r', hr', rfl⟩ := exists_parse_of_ensure hr
  obtain rfl := parseWavInfo_unique hr' hparse
  obtain ⟨text, htext⟩ := hsafe .divisionByZero rfl
  exact nomatch htext

end Results

end SentryUsb.Api.LockChime
