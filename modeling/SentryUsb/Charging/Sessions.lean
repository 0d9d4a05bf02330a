import SentryUsb.Grouper.Clip
import SentryUsb.Library.GapRuns

/-! # Charging sessions

The telemetry table and the sessions read from it (`drives/charging.rs`). A sample is one row of
`telemetry_samples`, whose primary key is its time, so a table is a list with increasing times. Times
are seconds; the columns that no function here reads stay abstract.

* **`isActivelyCharging`** — whether a row is part of a charge: its phase decides, and the power and
  rate of rows without one;
* **`loadChargeRows`** — the charging rows of a time range;
* **`groupSessions`** — the rows cut into sessions, `groupSessions_eq_gapRuns`;
* **`Table.sessions`** — the sessions of the whole table. -/

namespace SentryUsb.Charging

open Library

/-- A gap of more than 30 minutes ends a session. -/
def sessionGapSecs : Int := 30 * 60

/-- A row of `telemetry_samples`. -/
structure Sample (β : Type) where
  ts : Int
  chargingState : Option Text
  powerKw : Option Int
  rateMph : Option Float
  /-- The other columns. -/
  rest : β

variable {β : Type}

/-! ## Which rows are charging -/

/-- Whether a charge phase is an active one; nothing without a phase. -/
def phaseIsActive (phase : Option Text) : Option Bool :=
  phase.map fun p => p == ['c', 'h', 'a', 'r', 'g', 'i', 'n', 'g'] || p == ['s', 't', 'a', 'r', 't', 'i', 'n', 'g']
    || p == ['c', 'a', 'l', 'i', 'b', 'r', 'a', 't', 'i', 'n', 'g']

/-- The heuristic for rows without a phase. -/
def isCharging (powerKw : Option Int) (rateMph : Option Float) : Bool :=
  match rateMph with
  | some r => decide (r > 0)
  | none => powerKw.any fun p => decide (p > 0)

/-- Whether a row is charging: its phase is authoritative. -/
def isActivelyCharging (phase : Option Text) (powerKw : Option Int) (rateMph : Option Float) : Bool :=
  match phaseIsActive phase with
  | some active => active
  | none => isCharging powerKw rateMph

/-- A row with any charge signal, the condition of the SQL statements. -/
def Sample.chargeBearing (r : Sample β) : Bool :=
  r.chargingState.isSome || r.powerKw.isSome || r.rateMph.isSome

/-- The row is charging. -/
def Sample.active (r : Sample β) : Bool := isActivelyCharging r.chargingState r.powerKw r.rateMph

/-- A charging row bears a charge signal. -/
theorem Sample.chargeBearing_of_active {r : Sample β} (h : r.active = true) : r.chargeBearing = true := by
  unfold Sample.active isActivelyCharging phaseIsActive isCharging at h
  unfold Sample.chargeBearing
  cases hphase : r.chargingState with
  | some p => rfl
  | none =>
    rw [hphase] at h
    cases hrate : r.rateMph with
    | some r => simp
    | none =>
      cases hpower : r.powerKw with
      | some p => rfl
      | none => simp [hrate, hpower] at h

/-! ## The table -/

/-- The telemetry table, in the order of its primary key. -/
@[ext]
structure Table (β : Type) where
  rows : List (Sample β)
  increasing : Increasing Sample.ts rows

/-- `DELETE FROM telemetry_samples WHERE …`. -/
def Table.delete (t : Table β) (p : Sample β → Bool) : Table β :=
  ⟨t.rows.filter fun r => !p r, t.increasing.filter _⟩

theorem Table.mem_delete {t : Table β} {p : Sample β → Bool} {r : Sample β} :
    r ∈ (t.delete p).rows ↔ r ∈ t.rows ∧ ¬ p r = true := by
  unfold Table.delete
  rw [List.mem_filter]
  simp

/-- A row in its place, instead of one of the same time. -/
def Table.insert (t : Table β) (r : Sample β) : Table β where
  rows := t.rows.filter (fun q => decide (q.ts < r.ts)) ++ r :: t.rows.filter fun q => decide (r.ts < q.ts)
  increasing := by
    refine List.pairwise_append.mpr ⟨t.increasing.filter _, List.pairwise_cons.mpr ⟨fun q hq => ?_, t.increasing.filter _⟩,
      fun a ha b hb => ?_⟩
    · exact of_decide_eq_true (List.mem_filter.mp hq).2
    · have hlow := of_decide_eq_true (List.mem_filter.mp ha).2
      rcases List.mem_cons.mp hb with rfl | hb
      · exact hlow
      · exact lt_trans hlow (of_decide_eq_true (List.mem_filter.mp hb).2)

/-- `INSERT OR IGNORE`: a row whose time is taken is skipped. -/
def Table.insertOrIgnore (t : Table β) (r : Sample β) : Table β :=
  if t.rows.any fun q => decide (q.ts = r.ts) then t else t.insert r

theorem Table.mem_insert {t : Table β} {r q : Sample β} :
    q ∈ (t.insert r).rows ↔ q = r ∨ (q ∈ t.rows ∧ q.ts ≠ r.ts) := by
  unfold Table.insert
  simp only [List.mem_append, List.mem_cons, List.mem_filter, decide_eq_true_eq]
  constructor
  · rintro (⟨hmem, hlt⟩ | rfl | ⟨hmem, hlt⟩)
    · exact .inr ⟨hmem, by omega⟩
    · exact .inl rfl
    · exact .inr ⟨hmem, by omega⟩
  · rintro (rfl | ⟨hmem, hne⟩)
    · exact .inr (.inl rfl)
    · rcases lt_or_gt_of_ne hne with hlt | hgt
      · exact .inl ⟨hmem, hlt⟩
      · exact .inr (.inr ⟨hmem, hgt⟩)

/-- A row later than every other goes to the end. -/
theorem Table.rows_insert_of_lt {t : Table β} {r : Sample β} (h : ∀ q ∈ t.rows, q.ts < r.ts) :
    (t.insert r).rows = t.rows ++ [r] := by
  have hbelow : t.rows.filter (fun q => decide (q.ts < r.ts)) = t.rows :=
    List.filter_eq_self.mpr fun q hq => decide_eq_true (h q hq)
  have habove : t.rows.filter (fun q => decide (r.ts < q.ts)) = [] :=
    List.filter_eq_nil_iff.mpr fun q hq => by
      have := h q hq
      simp only [decide_eq_true_eq]
      omega
  show t.rows.filter _ ++ r :: t.rows.filter _ = t.rows ++ [r]
  rw [hbelow, habove]

/-- The charging rows of a time range, in time order. -/
def loadChargeRows (t : Table β) (low : Int) (upper : Option Int) : List (Sample β) :=
  (t.rows.filter fun r => decide (low ≤ r.ts) && upper.all (fun u => decide (r.ts ≤ u)) && r.chargeBearing).filter
    Sample.active

/-- The charging rows of the table. -/
def Table.charging (t : Table β) : List (Sample β) := t.rows.filter Sample.active

theorem Table.mem_charging {t : Table β} {r : Sample β} : r ∈ t.charging ↔ r ∈ t.rows ∧ r.active = true :=
  List.mem_filter

theorem Table.increasing_charging (t : Table β) : Increasing Sample.ts t.charging := t.increasing.filter _

theorem Table.charging_insert_of_lt {t : Table β} {r : Sample β} (h : ∀ q ∈ t.rows, q.ts < r.ts) :
    (t.insert r).charging = t.charging ++ [r].filter Sample.active := by
  unfold Table.charging
  rw [Table.rows_insert_of_lt h, List.filter_append]

/-- A range of rows is a range of the charging rows. -/
theorem loadChargeRows_eq_filter (t : Table β) (low : Int) (upper : Option Int) :
    loadChargeRows t low upper
      = t.charging.filter fun r => decide (low ≤ r.ts) && upper.all fun u => decide (r.ts ≤ u) := by
  unfold loadChargeRows Table.charging
  rw [List.filter_filter, List.filter_filter]
  refine List.filter_congr fun r _ => ?_
  by_cases hactive : r.active = true
  · rw [hactive, Sample.chargeBearing_of_active hactive]
    simp
  · simp [Bool.not_eq_true _ ▸ hactive]

theorem mem_loadChargeRows {t : Table β} {low : Int} {upper : Option Int} {r : Sample β} :
    r ∈ loadChargeRows t low upper ↔ r ∈ t.charging ∧ low ≤ r.ts ∧ ∀ u, upper = some u → r.ts ≤ u := by
  rw [loadChargeRows_eq_filter, List.mem_filter, Bool.and_eq_true, decide_eq_true_eq]
  cases upper with
  | none => simp
  | some u => simp

theorem increasing_loadChargeRows (t : Table β) (low : Int) (upper : Option Int) :
    Increasing Sample.ts (loadChargeRows t low upper) :=
  (t.increasing.filter _).filter _

/-! ## Sessions -/

/-- A row joins the last session, or begins one. -/
def pushRow (sessions : List (List (Sample β))) (row : Sample β) : List (List (Sample β)) :=
  match sessions.getLast? with
  | some cur =>
    match cur.getLast? with
    | some last =>
      if row.ts - last.ts ≤ sessionGapSecs then sessions.dropLast ++ [cur ++ [row]] else sessions ++ [[row]]
    | none => sessions ++ [[row]]
  | none => sessions ++ [[row]]

/-- The sessions of time-ordered charging rows. -/
def groupSessions (rows : List (Sample β)) : List (List (Sample β)) := rows.foldl pushRow []

/-- **Sessions are runs** of the gap. -/
theorem groupSessions_eq_gapRuns (rows : List (Sample β)) :
    groupSessions rows = gapRuns Sample.ts sessionGapSecs rows := by
  induction rows using List.reverseRecOn with
  | nil => rfl
  | append_singleton rows row ih =>
    have hpush : groupSessions (rows ++ [row]) = pushRow (gapRuns Sample.ts sessionGapSecs rows) row := by
      unfold groupSessions at ih ⊢
      rw [List.foldl_append, ih]
      rfl
    rw [hpush]
    rcases List.eq_nil_or_concat rows with rfl | ⟨init, last, hrows⟩
    · rfl
    · -- the runs so far end with a run, and that run with a row
      obtain ⟨front, cur, hruns⟩ : ∃ front cur, gapRuns Sample.ts sessionGapSecs rows = front ++ [cur] := by
        rcases List.eq_nil_or_concat (gapRuns Sample.ts sessionGapSecs rows) with hnil | ⟨front, cur, hruns⟩
        · rw [List.splitBy_eq_nil.mp hnil] at hrows
          simp at hrows
        · exact ⟨front, cur, by rw [hruns, List.concat_eq_append]⟩
      have hne : cur ≠ [] := ne_nil_of_run (by rw [hruns]; simp)
      obtain ⟨begun, last, rfl⟩ : ∃ begun last, cur = begun ++ [last] :=
        ⟨cur.dropLast, cur.getLast hne, (List.dropLast_append_getLast hne).symm⟩
      rw [gapRuns_concat hruns, hruns]
      simp [pushRow]

/-- The sessions of the whole table. -/
def Table.sessions (t : Table β) : List (List (Sample β)) := groupSessions t.charging

end SentryUsb.Charging
