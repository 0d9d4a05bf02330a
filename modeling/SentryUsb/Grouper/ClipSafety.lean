import Mathlib

/-! # The safety counters of a clip

One walk over the samples of a clip counts for how long the driver braked, turned and sped, in all and in each of the first five
seconds (`compute_clip_safety`, `safety.rs`). With the accelerations of the car each sample counts for itself; without them they
are estimated, and a hard turn counts only from its second sample on, for both.

What the comparisons of the walk say is part of the input here. Of two comparisons of one value, the one with the higher
threshold holds only where the other does.

* **`step`**, **`computeClipSafety`** — the walk;
* **`Books`** — a time added in all and in its second; **`step_books`** — what a sample adds;
* **`Ordered`** — the counters that are never cut; **`ordered_computeClipSafety`** — they are in order. -/

namespace SentryUsb.Safety

/-! ## What is counted -/

/-- The counters of a second, which a seam may take away again (`SafetyPrefixBucket`). -/
@[ext] structure SafetyPrefixBucket where
  hardBrakeMs : Int
  brakeAnyMs : Int
  aggrTurnMs : Int
  turnAnyMs : Int
  speedingMs : Int
  deriving DecidableEq, Repr

namespace SafetyPrefixBucket

instance : Zero SafetyPrefixBucket := ⟨⟨0, 0, 0, 0, 0⟩⟩

instance : Add SafetyPrefixBucket :=
  ⟨fun a b => ⟨a.hardBrakeMs + b.hardBrakeMs, a.brakeAnyMs + b.brakeAnyMs, a.aggrTurnMs + b.aggrTurnMs,
    a.turnAnyMs + b.turnAnyMs, a.speedingMs + b.speedingMs⟩⟩

/-- Time of hard braking. -/
def hardBrake (ms : Int) : SafetyPrefixBucket := ⟨ms, 0, 0, 0, 0⟩

/-- Time of braking. -/
def brakeAny (ms : Int) : SafetyPrefixBucket := ⟨0, ms, 0, 0, 0⟩

/-- Time of hard turning. -/
def aggrTurn (ms : Int) : SafetyPrefixBucket := ⟨0, 0, ms, 0, 0⟩

/-- Time of turning. -/
def turnAny (ms : Int) : SafetyPrefixBucket := ⟨0, 0, 0, ms, 0⟩

/-- Time of speeding. -/
def speeding (ms : Int) : SafetyPrefixBucket := ⟨0, 0, 0, 0, ms⟩

end SafetyPrefixBucket

/-- The counters of a clip (`ClipSafety`). -/
structure ClipSafety where
  hardBrakeMs : Int
  hardBrakeEvents : Int
  aggrTurnMs : Int
  aggrTurnEvents : Int
  speedingMs : Int
  movingMs : Int
  manualMovingMs : Int
  imuMovingMs : Int
  nightMs : Int
  nightWeightedMs : Int
  gracePrefix : List SafetyPrefixBucket
  brakeAnyMs : Int
  turnAnyMs : Int
  deriving DecidableEq, Repr

/-- No time, in no second. -/
def ClipSafety.empty : ClipSafety := ⟨0, 0, 0, 0, 0, 0, 0, 0, 0, 0, List.replicate 5 0, 0, 0⟩

/-- A time added in all, and in its second if that is one of the first. -/
def ClipSafety.book (out : ClipSafety) (second : Nat) (b : SafetyPrefixBucket) : ClipSafety :=
  { out with
    hardBrakeMs := out.hardBrakeMs + b.hardBrakeMs
    brakeAnyMs := out.brakeAnyMs + b.brakeAnyMs
    aggrTurnMs := out.aggrTurnMs + b.aggrTurnMs
    turnAnyMs := out.turnAnyMs + b.turnAnyMs
    speedingMs := out.speedingMs + b.speedingMs
    gracePrefix := out.gracePrefix.modify second (· + b) }

/-! ## What is read -/

/-- An acceleration beside the two thresholds of its factor. -/
inductive Force where
  | slight
  | felt
  | hard
  deriving DecidableEq, Repr

/-- Above the lower threshold. -/
def Force.any (f : Force) : Bool := f ≠ .slight

/-- Above the higher one. -/
def Force.isHard (f : Force) : Bool := f = .hard

/-- The accelerations of a sample, each with whether it is looked at. -/
structure Readings where
  brakes : Bool
  brake : Force
  turns : Bool
  turn : Force
  deriving DecidableEq, Repr

/-- A sample of a clip, with the one before it: what the comparisons of its values say. -/
structure Sample where
  /-- Both points are on the map. -/
  valid : Bool
  /-- The second of the clip in which the time between them begins. -/
  second : Nat
  /-- The autopilot state; off where the clip has none. -/
  ap : Nat
  /-- The accelerator is pressed. -/
  pressed : Bool
  /-- The autopilot was left less than five seconds ago. -/
  graced : Bool
  /-- At least 0.45 m/s. -/
  moves : Bool
  /-- Less than 100 m/s. -/
  sane : Bool
  /-- From 38 to 100 m/s. -/
  speeds : Bool
  /-- The local hour, if the name of the clip has a time. -/
  hour : Option Nat
  /-- The accelerations of the car. -/
  measured : Readings
  /-- Those that are estimated. -/
  derived : Readings
  /-- The brake pedal was pressed around the sample, or it is not known whether it was. -/
  pedalNear : Bool
  deriving DecidableEq, Repr

/-- A clip. -/
structure Clip where
  /-- It has two points and the speeds of the car. -/
  usable : Bool
  /-- It has the accelerations of the car. -/
  hasImu : Bool
  /-- The time between two samples. -/
  ms : Nat
  samples : List Sample
  ordered : (samples.map Sample.second).Pairwise (· ≤ ·)

def autopilotOff : Nat := 0

def autopilotTacc : Nat := 3

/-- The driver steers or accelerates. -/
def driverControlsFactor (ap : Nat) (pressed : Bool) : Bool := ap = autopilotOff || (ap = autopilotTacc && pressed)

/-- A factor of the score counts. -/
def Sample.factorAllowed (i : Sample) : Bool := driverControlsFactor i.ap i.pressed && !i.graced

/-- How much an hour of the night weighs. -/
def nightWeight : Nat → ℚ
  | 23 => 21 / 100
  | 0 => 53 / 100
  | 1 => 71 / 100
  | 2 => 82 / 100
  | 3 => 1
  | _ => 0

/-! ## The walk -/

/-- What the walk keeps. -/
structure Walk where
  out : ClipSafety
  inBrakeRun : Bool
  inTurnRun : Bool
  turnStreak : Nat
  deriving DecidableEq, Repr

section Steps

variable (clip : Clip) (i : Sample)

/-- The weight of the hour of a sample, if it is one of the night. -/
def Sample.night : Option ℚ :=
  match i.hour with
  | some hour => if 0 < nightWeight hour then some (nightWeight hour) else none
  | none => none

/-- A sample at which the car moves. -/
def moveStep (out : ClipSafety) : ClipSafety :=
  if i.moves && i.sane then
    let out := { out with
      movingMs := out.movingMs + clip.ms
      imuMovingMs := if clip.hasImu then out.imuMovingMs + clip.ms else out.imuMovingMs
      manualMovingMs := if i.factorAllowed then out.manualMovingMs + clip.ms else out.manualMovingMs
      nightMs := if i.night.isSome then out.nightMs + clip.ms else out.nightMs
      nightWeightedMs := match i.night with
        | some weight => out.nightWeightedMs + round (clip.ms * weight : ℚ)
        | none => out.nightWeightedMs }
    if i.factorAllowed && i.speeds then out.book i.second (.speeding clip.ms) else out
  else out

/-- Measured braking. -/
def measuredBrake (s : Walk) : Walk :=
  if i.measured.brakes && i.measured.brake.any then
    let out := s.out.book i.second (.brakeAny clip.ms)
    if i.measured.brake.isHard then
      let out := out.book i.second (.hardBrake clip.ms)
      { s with
        out := if s.inBrakeRun then out else { out with hardBrakeEvents := out.hardBrakeEvents + 1 }
        inBrakeRun := true }
    else { s with out := out, inBrakeRun := false }
  else { s with inBrakeRun := false }

/-- Measured turning. -/
def measuredTurn (s : Walk) : Walk :=
  if i.measured.turns && i.measured.turn.any then
    let out := s.out.book i.second (.turnAny clip.ms)
    if i.measured.turn.isHard then
      let out := out.book i.second (.aggrTurn clip.ms)
      { s with
        out := if s.inTurnRun then out else { out with aggrTurnEvents := out.aggrTurnEvents + 1 }
        inTurnRun := true }
    else { s with out := out, inTurnRun := false }
  else { s with inTurnRun := false }

/-- A sample with measured accelerations. -/
def measuredStep (s : Walk) : Walk :=
  if i.factorAllowed && i.moves then measuredTurn clip i (measuredBrake clip i s)
  else { s with inBrakeRun := false, inTurnRun := false }

/-- Estimated braking; hard braking needs the pedal. -/
def derivedBrake (s : Walk) : Walk :=
  if i.derived.brakes && i.factorAllowed then
    let out := if i.derived.brake.any then s.out.book i.second (.brakeAny clip.ms) else s.out
    if i.derived.brake.isHard && i.pedalNear then
      let out := out.book i.second (.hardBrake clip.ms)
      { s with
        out := if s.inBrakeRun then out else { out with hardBrakeEvents := out.hardBrakeEvents + 1 }
        inBrakeRun := true }
    else { s with out := out, inBrakeRun := false }
  else { s with inBrakeRun := false }

/-- Estimated turning; hard turning counts from its second sample on. -/
def derivedTurn (s : Walk) : Walk :=
  if i.derived.turns && i.factorAllowed then
    let out := if i.derived.turn.any then s.out.book i.second (.turnAny clip.ms) else s.out
    if i.derived.turn.isHard then
      let streak := s.turnStreak + 1
      if streak = 2 then
        let out := { out with aggrTurnEvents := out.aggrTurnEvents + 1 }
        { s with out := out.book i.second (.aggrTurn (2 * clip.ms)), turnStreak := streak }
      else if 2 < streak then { s with out := out.book i.second (.aggrTurn clip.ms), turnStreak := streak }
      else { s with out := out, turnStreak := streak }
    else { s with out := out, turnStreak := 0 }
  else { s with turnStreak := 0 }

/-- **One sample.** -/
def step (s : Walk) : Walk :=
  if !i.valid then { s with inBrakeRun := false, inTurnRun := false, turnStreak := 0 }
  else
    let s := { s with out := moveStep clip i s.out }
    if clip.hasImu then measuredStep clip i s else derivedTurn clip i (derivedBrake clip i s)

end Steps

/-- Before the first sample. -/
def start : Walk := ⟨.empty, false, false, 0⟩

/-- **The walk over a clip** (`compute_clip_safety`). -/
def computeClipSafety (clip : Clip) : ClipSafety :=
  if clip.usable then (clip.samples.foldl (fun s i => step clip i s) start).out else .empty

/-! ## What a sample adds -/

/-- The counters that a seam may cut. -/
def ClipSafety.factors (out : ClipSafety) : SafetyPrefixBucket :=
  ⟨out.hardBrakeMs, out.brakeAnyMs, out.aggrTurnMs, out.turnAnyMs, out.speedingMs⟩

/-- Those that it does not cut. -/
def ClipSafety.uncut (out : ClipSafety) : Int × Int × Int := (out.movingMs, out.manualMovingMs, out.imuMovingMs)

/-- A time was added in all and in its second. -/
structure Adds (second : Nat) (b : SafetyPrefixBucket) (out out' : ClipSafety) : Prop where
  factors : out'.factors = out.factors + b
  gracePrefix : out'.gracePrefix = out.gracePrefix.modify second (· + b)

/-- And none of the counters that are not cut was changed. -/
structure Books (second : Nat) (b : SafetyPrefixBucket) (out out' : ClipSafety) : Prop extends Adds second b out out' where
  uncut : out'.uncut = out.uncut

section Booking

variable {second : Nat} {a b c : SafetyPrefixBucket} {out out' out'' : ClipSafety}

theorem SafetyPrefixBucket.add_zero (b : SafetyPrefixBucket) : b + 0 = b := by
  ext
  · exact Int.add_zero _
  · exact Int.add_zero _
  · exact Int.add_zero _
  · exact Int.add_zero _
  · exact Int.add_zero _

theorem SafetyPrefixBucket.add_assoc (a b c : SafetyPrefixBucket) : a + b + c = a + (b + c) := by
  ext
  · exact Int.add_assoc _ _ _
  · exact Int.add_assoc _ _ _
  · exact Int.add_assoc _ _ _
  · exact Int.add_assoc _ _ _
  · exact Int.add_assoc _ _ _

theorem adds_zero (second : Nat) (hfactors : out'.factors = out.factors) (hgrace : out'.gracePrefix = out.gracePrefix) :
    Adds second 0 out out' where
  factors := hfactors.trans (SafetyPrefixBucket.add_zero _).symm
  gracePrefix := by
    have hid : (fun x : SafetyPrefixBucket => x + 0) = id := funext SafetyPrefixBucket.add_zero
    rw [hgrace, hid, List.modify_id]

/-- One time after another, in the same second. -/
theorem Adds.trans (h : Adds second a out out') (h' : Adds second b out' out'') : Adds second (a + b) out out'' where
  factors := by rw [h'.factors, h.factors, SafetyPrefixBucket.add_assoc]
  gracePrefix := by
    rw [h'.gracePrefix, h.gracePrefix, List.modify_modify_eq]
    congr 1
    funext x
    exact SafetyPrefixBucket.add_assoc x a b

theorem books_refl (second : Nat) (out : ClipSafety) : Books second 0 out out := ⟨adds_zero second rfl rfl, rfl⟩

theorem books_book (out : ClipSafety) (second : Nat) (b : SafetyPrefixBucket) : Books second b out (out.book second b) :=
  ⟨⟨rfl, rfl⟩, rfl⟩

theorem Books.trans (h : Books second a out out') (h' : Books second b out' out'') : Books second (a + b) out out'' :=
  ⟨h.toAdds.trans h'.toAdds, h'.uncut.trans h.uncut⟩

theorem books_ite (p : Bool) (out : ClipSafety) (second : Nat) (b : SafetyPrefixBucket) :
    Books second (if p then b else 0) out (if p then out.book second b else out) := by
  cases p with
  | true => exact books_book out second b
  | false => exact books_refl second out

theorem Books.brakeEvent (h : Books second b out out') (p : Bool) :
    Books second b out (if p then out' else { out' with hardBrakeEvents := out'.hardBrakeEvents + 1 }) := by
  cases p with
  | true => exact h
  | false => exact ⟨⟨h.factors, h.gracePrefix⟩, h.uncut⟩

theorem Books.turnEvent (h : Books second b out out') (p : Bool) :
    Books second b out (if p then out' else { out' with aggrTurnEvents := out'.aggrTurnEvents + 1 }) := by
  cases p with
  | true => exact h
  | false => exact ⟨⟨h.factors, h.gracePrefix⟩, h.uncut⟩

end Booking

/-! ### Braking and turning -/

section Factors

variable (clip : Clip) (i : Sample) (s : Walk)

/-- Time of braking, and of hard braking. -/
def braked (any hard : Bool) : SafetyPrefixBucket :=
  (if any then .brakeAny clip.ms else 0) + (if hard then .hardBrake clip.ms else 0)

/-- Time of turning, and of hard turning, which may be counted late. -/
def turned (any : Bool) (count : Nat) : SafetyPrefixBucket :=
  (if any then .turnAny clip.ms else 0) + .aggrTurn (count * clip.ms)

theorem SafetyPrefixBucket.aggrTurn_zero : SafetyPrefixBucket.aggrTurn (((0 : Nat) : Int) * clip.ms) = 0 :=
  congrArg SafetyPrefixBucket.aggrTurn (Int.zero_mul _)

theorem measuredBrake_books : Books i.second
    (braked clip (i.measured.brakes && i.measured.brake.any) (i.measured.brakes && i.measured.brake.isHard))
    s.out (measuredBrake clip i s).out ∧ (measuredBrake clip i s).turnStreak = s.turnStreak := by
  rw [measuredBrake]
  cases i.measured.brakes with
  | false => exact ⟨(books_refl _ _).trans (books_refl _ _), rfl⟩
  | true =>
    cases i.measured.brake with
    | slight => exact ⟨(books_refl _ _).trans (books_refl _ _), rfl⟩
    | felt => exact ⟨(books_book _ _ _).trans (books_refl _ _), rfl⟩
    | hard => exact ⟨((books_book _ _ _).trans (books_book _ _ _)).brakeEvent s.inBrakeRun, rfl⟩

theorem measuredTurn_books : Books i.second
    (turned clip (i.measured.turns && i.measured.turn.any) (i.measured.turns && i.measured.turn.isHard).toNat)
    s.out (measuredTurn clip i s).out ∧ (measuredTurn clip i s).turnStreak = s.turnStreak := by
  have hzero := SafetyPrefixBucket.aggrTurn_zero clip
  have hone : SafetyPrefixBucket.aggrTurn (((1 : Nat) : Int) * clip.ms) = .aggrTurn clip.ms :=
    congrArg SafetyPrefixBucket.aggrTurn (Int.one_mul _)
  rw [measuredTurn, turned]
  cases i.measured.turns with
  | false =>
    show Books _ (0 + .aggrTurn (((0 : Nat) : Int) * clip.ms)) _ _ ∧ _
    rw [hzero]
    exact ⟨(books_refl _ _).trans (books_refl _ _), rfl⟩
  | true =>
    cases i.measured.turn with
    | slight =>
      show Books _ (0 + .aggrTurn (((0 : Nat) : Int) * clip.ms)) _ _ ∧ _
      rw [hzero]
      exact ⟨(books_refl _ _).trans (books_refl _ _), rfl⟩
    | felt =>
      show Books _ (.turnAny clip.ms + .aggrTurn (((0 : Nat) : Int) * clip.ms)) _ _ ∧ _
      rw [hzero]
      exact ⟨(books_book _ _ _).trans (books_refl _ _), rfl⟩
    | hard =>
      show Books _ (.turnAny clip.ms + .aggrTurn (((1 : Nat) : Int) * clip.ms)) _ _ ∧ _
      rw [hone]
      exact ⟨((books_book _ _ _).trans (books_book _ _ _)).turnEvent s.inTurnRun, rfl⟩

theorem derivedBrake_books : Books i.second
    (if i.derived.brakes && i.factorAllowed then
      braked clip i.derived.brake.any (i.derived.brake.isHard && i.pedalNear) else 0)
    s.out (derivedBrake clip i s).out ∧ (derivedBrake clip i s).turnStreak = s.turnStreak := by
  rw [derivedBrake]
  cases i.derived.brakes && i.factorAllowed with
  | false => exact ⟨books_refl _ _, rfl⟩
  | true =>
    have hany := books_ite i.derived.brake.any s.out i.second (.brakeAny clip.ms)
    rw [if_pos rfl, if_pos rfl, braked]
    cases i.derived.brake.isHard && i.pedalNear with
    | false => exact ⟨hany.trans (books_refl _ _), rfl⟩
    | true => exact ⟨(hany.trans (books_book _ _ _)).brakeEvent s.inBrakeRun, rfl⟩

/-- How often a hard turn counts, after so many of them. -/
def late (streak : Nat) : Nat := if streak + 1 = 2 then 2 else if 2 < streak + 1 then 1 else 0

theorem derivedTurn_books : Books i.second
    (if i.derived.turns && i.factorAllowed then
      turned clip i.derived.turn.any (if i.derived.turn.isHard then late s.turnStreak else 0) else 0)
    s.out (derivedTurn clip i s).out ∧
      (derivedTurn clip i s).turnStreak =
        if i.derived.turns && i.factorAllowed && i.derived.turn.isHard then s.turnStreak + 1 else 0 := by
  have hzero := SafetyPrefixBucket.aggrTurn_zero clip
  rw [derivedTurn]
  cases i.derived.turns && i.factorAllowed with
  | false => exact ⟨books_refl _ _, rfl⟩
  | true =>
    have hany := books_ite i.derived.turn.any s.out i.second (.turnAny clip.ms)
    rw [if_pos rfl, if_pos rfl, turned]
    cases i.derived.turn.isHard with
    | false =>
      rw [if_neg Bool.false_ne_true, hzero]
      exact ⟨hany.trans (books_refl _ _), rfl⟩
    | true =>
      rw [if_pos rfl, if_pos rfl, late, Bool.and_self, if_pos rfl]
      by_cases hsecond : s.turnStreak + 1 = 2
      · simp only [if_pos hsecond]
        exact ⟨(hany.turnEvent false).trans (books_book _ _ _), trivial⟩
      · by_cases hmore : 2 < s.turnStreak + 1
        · simp only [if_neg hsecond, if_pos hmore, Nat.cast_one, Int.one_mul]
          exact ⟨hany.trans (books_book _ _ _), trivial⟩
        · simp only [if_neg hsecond, if_neg hmore, hzero]
          exact ⟨hany.trans (books_refl _ _), trivial⟩

end Factors

/-! ### A sample -/

section Samples

variable (clip : Clip) (i : Sample)

/-- A sample at which braking is counted. -/
def brakesAny : Bool :=
  i.valid && i.factorAllowed &&
    if clip.hasImu then i.moves && i.measured.brakes && i.measured.brake.any else i.derived.brakes && i.derived.brake.any

/-- A sample at which hard braking is counted. -/
def brakesHard : Bool :=
  i.valid && i.factorAllowed &&
    if clip.hasImu then i.moves && i.measured.brakes && i.measured.brake.isHard
    else i.derived.brakes && (i.derived.brake.isHard && i.pedalNear)

/-- A sample at which turning is counted. -/
def turnsAny : Bool :=
  i.valid && i.factorAllowed &&
    if clip.hasImu then i.moves && i.measured.turns && i.measured.turn.any else i.derived.turns && i.derived.turn.any

/-- A sample at which the car turns hard. -/
def turnsHard : Bool :=
  i.valid && i.factorAllowed &&
    if clip.hasImu then i.moves && i.measured.turns && i.measured.turn.isHard else i.derived.turns && i.derived.turn.isHard

/-- How often a hard turn counts: once where accelerations are measured, else from its second sample on, for both. -/
def turnCount (streak : Nat) : Nat :=
  if turnsHard clip i then if clip.hasImu then 1 else late streak else 0

/-- How many hard turns there were up to this one. -/
def nextStreak (streak : Nat) : Nat :=
  if clip.hasImu then if i.valid then streak else 0 else if turnsHard clip i then streak + 1 else 0

/-- A sample at which speeding is counted. -/
def speedsAny : Bool := i.valid && i.moves && i.sane && i.factorAllowed && i.speeds

/-- What a sample adds. -/
def added (streak : Nat) : SafetyPrefixBucket :=
  (if speedsAny i then .speeding clip.ms else 0) +
    (braked clip (brakesAny clip i) (brakesHard clip i) + turned clip (turnsAny clip i) (turnCount clip i streak))

theorem moveStep_adds (out : ClipSafety) :
    Adds i.second (if i.moves && i.sane && i.factorAllowed && i.speeds then .speeding clip.ms else 0) out
      (moveStep clip i out) := by
  rw [moveStep]
  cases i.moves && i.sane with
  | false => exact adds_zero _ rfl rfl
  | true =>
    rw [if_pos rfl, Bool.true_and]
    dsimp only
    cases i.factorAllowed && i.speeds with
    | false => exact adds_zero _ rfl rfl
    | true => exact ⟨rfl, rfl⟩

theorem braked_turned_zero : braked clip false false + turned clip false 0 = 0 := by
  rw [braked, turned, SafetyPrefixBucket.aggrTurn_zero]
  rfl

theorem measuredStep_books (s : Walk) (hvalid : i.valid = true) (himu : clip.hasImu = true) :
    Books i.second
      (braked clip (brakesAny clip i) (brakesHard clip i) + turned clip (turnsAny clip i) (turnCount clip i s.turnStreak))
      s.out (measuredStep clip i s).out ∧ (measuredStep clip i s).turnStreak = s.turnStreak := by
  rw [measuredStep, brakesAny, brakesHard, turnsAny, turnCount, turnsHard, hvalid, himu]
  simp only [if_true, Bool.true_and]
  cases i.factorAllowed with
  | false =>
    simp only [Bool.false_and, Bool.false_eq_true, if_false]
    rw [braked_turned_zero]
    exact ⟨⟨⟨(books_refl i.second s.out).factors, (books_refl i.second s.out).gracePrefix⟩, rfl⟩, trivial⟩
  | true =>
    cases i.moves with
    | false =>
      simp only [Bool.false_and, Bool.and_false, Bool.false_eq_true, if_false]
      rw [braked_turned_zero]
      exact ⟨⟨⟨(books_refl i.second s.out).factors, (books_refl i.second s.out).gracePrefix⟩, rfl⟩, trivial⟩
    | true =>
      simp only [Bool.true_and, if_true]
      obtain ⟨hbrake, hstreak⟩ := measuredBrake_books clip i s
      obtain ⟨hturn, hstreak'⟩ := measuredTurn_books clip i (measuredBrake clip i s)
      have hcount : (if (i.measured.turns && i.measured.turn.isHard) = true then 1 else 0) =
          (i.measured.turns && i.measured.turn.isHard).toNat := by
        cases i.measured.turns && i.measured.turn.isHard with
        | false => rfl
        | true => rfl
      rw [hcount]
      exact ⟨hbrake.trans hturn, hstreak'.trans hstreak⟩

theorem derivedStep_books (s : Walk) (hvalid : i.valid = true) (himu : clip.hasImu = false) :
    Books i.second
      (braked clip (brakesAny clip i) (brakesHard clip i) + turned clip (turnsAny clip i) (turnCount clip i s.turnStreak))
      s.out (derivedTurn clip i (derivedBrake clip i s)).out ∧
      (derivedTurn clip i (derivedBrake clip i s)).turnStreak = nextStreak clip i s.turnStreak := by
  obtain ⟨hbrake, hstreak⟩ := derivedBrake_books clip i s
  obtain ⟨hturn, hstreak'⟩ := derivedTurn_books clip i (derivedBrake clip i s)
  rw [hstreak] at hturn hstreak'
  have hbrakes : (if i.derived.brakes && i.factorAllowed then
      braked clip i.derived.brake.any (i.derived.brake.isHard && i.pedalNear) else 0) =
        braked clip (brakesAny clip i) (brakesHard clip i) := by
    rw [brakesAny, brakesHard, hvalid, himu]
    cases i.factorAllowed with
    | false => rw [Bool.and_false]; rfl
    | true =>
      cases i.derived.brakes with
      | false => rfl
      | true => rfl
  have hturns : (if i.derived.turns && i.factorAllowed then
      turned clip i.derived.turn.any (if i.derived.turn.isHard then late s.turnStreak else 0) else 0) =
        turned clip (turnsAny clip i) (turnCount clip i s.turnStreak) := by
    rw [turnsAny, turnCount, turnsHard, hvalid, himu]
    have hzero := braked_turned_zero clip
    cases i.factorAllowed with
    | false =>
      rw [Bool.and_false, turned]
      exact (congrArg ((0 : SafetyPrefixBucket) + ·) (SafetyPrefixBucket.aggrTurn_zero clip)).symm
    | true =>
      cases i.derived.turns with
      | false => exact (congrArg ((0 : SafetyPrefixBucket) + ·) (SafetyPrefixBucket.aggrTurn_zero clip)).symm
      | true => rfl
  rw [hbrakes] at hbrake
  rw [hturns] at hturn
  refine ⟨hbrake.trans hturn, hstreak'.trans ?_⟩
  rw [nextStreak, himu, turnsHard, hvalid, himu, Bool.true_and]
  cases i.factorAllowed with
  | false => rw [Bool.and_false]; rfl
  | true => rw [Bool.and_true]; rfl

/-- **What a sample adds**, in all and in its second. -/
theorem step_adds (s : Walk) :
    Adds i.second (added clip i s.turnStreak) s.out (step clip i s).out ∧
      (step clip i s).turnStreak = nextStreak clip i s.turnStreak := by
  rw [step]
  cases hvalid : i.valid with
  | false =>
    have hzero : added clip i s.turnStreak = 0 := by
      rw [added, speedsAny, brakesAny, brakesHard, turnsAny, turnCount, turnsHard, hvalid]
      simp only [Bool.false_and, Bool.false_eq_true, if_false, braked_turned_zero]
      rfl
    rw [hzero, nextStreak, turnsHard, hvalid]
    refine ⟨adds_zero _ rfl rfl, ?_⟩
    simp
  | true =>
    rw [if_neg (by simp), added, speedsAny, hvalid, Bool.true_and]
    dsimp only
    have hmove := moveStep_adds clip i s.out
    cases himu : clip.hasImu with
    | true =>
      obtain ⟨hbooks, hstreak⟩ := measuredStep_books clip i { s with out := moveStep clip i s.out } hvalid himu
      refine ⟨hmove.trans hbooks.toAdds, hstreak.trans ?_⟩
      rw [nextStreak, himu, hvalid]
      rfl
    | false =>
      obtain ⟨hbooks, hstreak⟩ := derivedStep_books clip i { s with out := moveStep clip i s.out } hvalid himu
      exact ⟨hmove.trans hbooks.toAdds, hstreak⟩

/-! ### The counters that are not cut -/

/-- Time of moving, by hand or with the accelerations of the car, is time of moving; speeding is moving by hand. -/
structure Ordered (out : ClipSafety) : Prop where
  speeding_nonneg : 0 ≤ out.speedingMs
  speeding_le : out.speedingMs ≤ out.manualMovingMs
  manual_le : out.manualMovingMs ≤ out.movingMs
  imu_nonneg : 0 ≤ out.imuMovingMs
  imu_le : out.imuMovingMs ≤ out.movingMs

/-- What a sample at which the car moves adds to them. -/
theorem moveStep_moving (out : ClipSafety) (h : (i.moves && i.sane) = true) :
    (moveStep clip i out).movingMs = out.movingMs + clip.ms ∧
      (moveStep clip i out).manualMovingMs = out.manualMovingMs + (if i.factorAllowed then (clip.ms : Int) else 0) ∧
      (moveStep clip i out).imuMovingMs = out.imuMovingMs + (if clip.hasImu then (clip.ms : Int) else 0) ∧
      (moveStep clip i out).speedingMs = out.speedingMs + (if i.factorAllowed && i.speeds then (clip.ms : Int) else 0) := by
  rw [moveStep, if_pos h]
  cases i.factorAllowed with
  | false => cases clip.hasImu <;> simp
  | true =>
    cases i.speeds with
    | false => cases clip.hasImu <;> simp
    | true => cases clip.hasImu <;> simp [ClipSafety.book, SafetyPrefixBucket.speeding]

theorem ordered_moveStep {out : ClipSafety} (h : Ordered out) : Ordered (moveStep clip i out) := by
  by_cases hmoves : (i.moves && i.sane) = true
  · obtain ⟨hspeeding, hmanual, hmoving, himu, himu'⟩ := h
    obtain ⟨hmove, hhand, hsensor, hfast⟩ := moveStep_moving clip i out hmoves
    have hms : (0 : Int) ≤ clip.ms := Int.natCast_nonneg _
    have himus : (0 : Int) ≤ (if clip.hasImu then (clip.ms : Int) else 0) ∧
        (if clip.hasImu then (clip.ms : Int) else 0) ≤ clip.ms := by
      cases clip.hasImu with
      | false => exact ⟨le_refl _, hms⟩
      | true => exact ⟨hms, le_refl _⟩
    have hfactors : (0 : Int) ≤ (if i.factorAllowed && i.speeds then (clip.ms : Int) else 0) ∧
        (if i.factorAllowed && i.speeds then (clip.ms : Int) else 0) ≤ (if i.factorAllowed then (clip.ms : Int) else 0) ∧
          (if i.factorAllowed then (clip.ms : Int) else 0) ≤ clip.ms := by
      cases i.factorAllowed with
      | false => exact ⟨le_refl _, le_refl _, hms⟩
      | true =>
        cases i.speeds with
        | false => exact ⟨le_refl _, hms, le_refl _⟩
        | true => exact ⟨hms, le_refl _, le_refl _⟩
    constructor
    · rw [hfast]; omega
    · rw [hfast, hhand]; omega
    · rw [hhand, hmove]; omega
    · rw [hsensor]; omega
    · rw [hsensor, hmove]; omega
  · rwa [moveStep, if_neg hmoves]

/-- Nothing but moving changes them. -/
theorem Books.ordered {second : Nat} {b : SafetyPrefixBucket} {out out' : ClipSafety} (h : Books second b out out')
    (hb : b.speedingMs = 0) (hout : Ordered out) : Ordered out' := by
  obtain ⟨hspeeding, hmanual, hmoving, himu, himu'⟩ := hout
  have hmove : out'.movingMs = out.movingMs := congrArg Prod.fst h.uncut
  have hhand : out'.manualMovingMs = out.manualMovingMs := congrArg (fun u => u.2.1) h.uncut
  have hsensor : out'.imuMovingMs = out.imuMovingMs := congrArg (fun u => u.2.2) h.uncut
  have hfast : out'.speedingMs = out.speedingMs + b.speedingMs := congrArg SafetyPrefixBucket.speedingMs h.factors
  exact ⟨by omega, by omega, by omega, by omega, by omega⟩

theorem braked_turned_speedingMs (any hard any' : Bool) (count : Nat) :
    (braked clip any hard + turned clip any' count).speedingMs = 0 := by
  cases any with
  | false => cases hard <;> cases any' <;> rfl
  | true => cases hard <;> cases any' <;> rfl

theorem ordered_step {s : Walk} (h : Ordered s.out) : Ordered (step clip i s).out := by
  have hmove := ordered_moveStep clip i h
  rw [step]
  cases hvalid : i.valid with
  | false => exact h
  | true =>
    rw [if_neg (by simp)]
    dsimp only
    cases himu : clip.hasImu with
    | true => exact (measuredStep_books clip i _ hvalid himu).1.ordered (braked_turned_speedingMs clip _ _ _ _) hmove
    | false => exact (derivedStep_books clip i _ hvalid himu).1.ordered (braked_turned_speedingMs clip _ _ _ _) hmove

end Samples

/-- **The counters that are not cut are in order.** -/
theorem ordered_computeClipSafety (clip : Clip) : Ordered (computeClipSafety clip) := by
  have hempty : Ordered .empty := ⟨le_refl _, le_refl _, le_refl _, le_refl _, le_refl _⟩
  have hwalk : ∀ (l : List Sample) (s : Walk), Ordered s.out → Ordered (l.foldl (fun s i => step clip i s) s).out := by
    intro l
    induction l with
    | nil => exact fun s hs => hs
    | cons i l ih => exact fun s hs => ih _ (ordered_step clip i hs)
  rw [computeClipSafety]
  split
  · exact hwalk clip.samples start hempty
  · exact hempty

end SentryUsb.Safety
