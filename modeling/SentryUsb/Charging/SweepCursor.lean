import SentryUsb.Charging.CloudSweep

/-! # The cursor of the upload sweep

A sweep stores where the next one may start. What a stored cursor promises, and when the promise is kept.

* **`CursorSound`** — the promise: the cursor begins a session, the rows from it on group as they do in the whole
  table, and every session that still has to be sent begins at or after it;
* **`Frontier`** — the cursor in terms of run starts: it is one, and every earlier one is uploaded;
* **`sweepFrontier_frontier`** — what the scan of a sweep says about its frontier;
* **`Careful`** — no import between a sweep's load and its store when the sweep found no cursor, and no time before
  the epoch;
* **`cursor_sound_of_careful`** — in careful runs every stored cursor keeps the promise;
* **`cursor_hides_imported_session`** — without care an absent cursor does not reveal the import that came between. -/

namespace SentryUsb.Charging

open Library

variable {β : Type}

/-! ## The promise -/

/-- A stored cursor hides nothing that has to be sent. -/
structure CursorSound (s : System β) (c : Int) : Prop where
  start : ∃ session ∈ s.tables.telemetry.sessions, ∃ first ∈ session.head?, first.ts = c
  suffix : groupSessions (loadChargeRows s.tables.telemetry c none)
    = s.tables.telemetry.sessions.filter (startIs fun ts => decide (c ≤ ts))
  unsent : ∀ now, ∀ session ∈ s.tables.telemetry.sessions, ∀ first ∈ session.head?, closed now session = true →
    s.tables.uploads first.ts = none → s.tables.outbox.lookup first.ts = none → c ≤ first.ts

/-- A run start before which every run start has been sent. -/
structure Frontier (rows : List (Sample β)) (sent : Int → Prop) (c : Int) : Prop where
  start : IsRunStart Sample.ts sessionGapSecs rows c
  earlier : ∀ ts, ts < c → IsRunStart Sample.ts sessionGapSecs rows ts → sent ts

/-- The run that begins at a run start. -/
theorem exists_run_of_isRunStart {rows : List (Sample β)} (hincreasing : Increasing Sample.ts rows) {c : Int}
    (h : IsRunStart Sample.ts sessionGapSecs rows c) :
    ∃ first rest, first :: rest ∈ gapRuns Sample.ts sessionGapSecs rows ∧ first.ts = c := by
  obtain ⟨a, ha, rfl⟩ := h.1
  obtain ⟨run, hrun, hmem⟩ := exists_run Sample.ts sessionGapSecs ha
  obtain ⟨first, rest, rfl⟩ := List.exists_cons_of_ne_nil (ne_nil_of_run hrun)
  exact ⟨first, rest, hrun, (eq_head_of_isRunStart hincreasing hrun hmem h).symm⟩

/-- The session that begins at a run start. -/
theorem exists_session_of_isRunStart {t : Table β} {c : Int}
    (h : IsRunStart Sample.ts sessionGapSecs t.charging c) :
    ∃ session ∈ t.sessions, ∃ first ∈ session.head?, first.ts = c := by
  obtain ⟨first, rest, hrun, hts⟩ := exists_run_of_isRunStart t.increasing_charging h
  refine ⟨first :: rest, ?_, first, rfl, hts⟩
  rw [Table.sessions, groupSessions_eq_gapRuns]
  exact hrun

theorem isRunStart_of_session {t : Table β} {session : List (Sample β)} (h : session ∈ t.sessions) {first : Sample β}
    (hfirst : first ∈ session.head?) : IsRunStart Sample.ts sessionGapSecs t.charging first.ts := by
  rw [Table.sessions, groupSessions_eq_gapRuns] at h
  obtain ⟨rest, rfl⟩ := List.head?_eq_some_iff.mp hfirst
  exact isRunStart_of_run t.increasing_charging h

/-- The rows from a run start on group as they do in the whole table. -/
theorem groupSessions_from_isRunStart {t : Table β} {c : Int} (h : IsRunStart Sample.ts sessionGapSecs t.charging c) :
    groupSessions (loadChargeRows t c none) = t.sessions.filter (startIs fun ts => decide (c ≤ ts)) := by
  have hload : loadChargeRows t c none = t.charging.filter fun r => decide (c ≤ r.ts) := by
    rw [loadChargeRows_eq_filter]
    simp
  have hsplit := h.gapRuns_filter t.increasing_charging
  rw [Table.sessions, groupSessions_eq_gapRuns, groupSessions_eq_gapRuns, hload, hsplit, List.filter_append]
  -- the runs below the cut begin below it, the others do not
  have hlow : (gapRuns Sample.ts sessionGapSecs (t.charging.filter fun a => decide (a.ts < c))).filter
      (startIs fun ts => decide (c ≤ ts)) = [] := by
    refine List.filter_eq_nil_iff.mpr fun run hrun => ?_
    obtain ⟨first, rest, rfl⟩ := List.exists_cons_of_ne_nil (ne_nil_of_run hrun)
    have := of_decide_eq_true (List.mem_filter.mp (mem_of_mem_run hrun List.mem_cons_self)).2
    simp only [startIs, List.head?_cons, Option.any_some, decide_eq_true_eq]
    omega
  have hhigh : (gapRuns Sample.ts sessionGapSecs (t.charging.filter fun a => decide (c ≤ a.ts))).filter
      (startIs fun ts => decide (c ≤ ts)) = gapRuns Sample.ts sessionGapSecs (t.charging.filter fun a => decide (c ≤ a.ts)) := by
    refine List.filter_eq_self.mpr fun run hrun => ?_
    obtain ⟨first, rest, rfl⟩ := List.exists_cons_of_ne_nil (ne_nil_of_run hrun)
    have := (List.mem_filter.mp (mem_of_mem_run hrun List.mem_cons_self)).2
    simpa only [startIs, List.head?_cons, Option.any_some] using this
  rw [hlow, hhigh, List.nil_append]

/-- A frontier keeps the promise. -/
theorem Frontier.cursorSound {s : System β} {c : Int}
    (h : Frontier s.tables.telemetry.charging (fun ts => s.tables.uploads ts ≠ none) c) : CursorSound s c := by
  refine ⟨exists_session_of_isRunStart h.start, groupSessions_from_isRunStart h.start, ?_⟩
  intro now session hsession first hfirst _ hup _
  by_contra hlt
  exact h.earlier first.ts (by omega) (isRunStart_of_session hsession hfirst) hup

/-! ## The frontier of a scan -/

/-- The session a scan stops at: the first unsettled one, or the last; those before it are settled. -/
theorem exists_of_sweepFrontier {sessions : List (List (Sample β))} (hnil : [] ∉ sessions) {now c : Int}
    {handled : Int → Bool} (h : sweepFrontier sessions now handled = some c) :
    ∃ before first rest after, sessions = before ++ (first :: rest) :: after ∧ first.ts = c
      ∧ ∀ session ∈ before, startIs handled session = true := by
  have hpresent : (sessions.filter fun session => !session.isEmpty) = sessions := by
    refine List.filter_eq_self.mpr fun session hsession => ?_
    cases session with
    | nil => exact absurd hsession hnil
    | cons first rest => rfl
  unfold sweepFrontier at h
  dsimp only at h
  rw [hpresent] at h
  obtain ⟨first, hfirst, hts⟩ := Option.map_eq_some_iff.mp h
  obtain ⟨session, hsession, hhead⟩ := Option.bind_eq_some_iff.mp hfirst
  obtain ⟨rest, rfl⟩ := List.head?_eq_some_iff.mp hhead
  cases hfind : sessions.find? fun session => !(closed now session && startIs handled session) with
  | some found =>
    rw [hfind] at hsession
    obtain rfl : found = first :: rest := Option.some.inj hsession
    obtain ⟨-, before, after, hsplit, hsettled⟩ := List.find?_eq_some_iff_append.mp hfind
    refine ⟨before, first, rest, after, hsplit, hts, fun session hmem => ?_⟩
    have hnot := hsettled session hmem
    rw [Bool.not_not, Bool.and_eq_true] at hnot
    exact hnot.2
  | none =>
    rw [hfind, Option.none_or] at hsession
    obtain ⟨before, hsplit⟩ := List.getLast?_eq_some_iff.mp hsession
    refine ⟨before, first, rest, [], hsplit, hts, fun session hmem => ?_⟩
    have hnot := List.find?_eq_none.mp hfind session (by rw [hsplit]; exact List.mem_append_left _ hmem)
    rw [Bool.not_eq_true', Bool.not_eq_false, Bool.and_eq_true] at hnot
    exact hnot.2

/-- The frontier of sessions begins one of them, and the sessions before it are all handled. -/
theorem sweepFrontier_frontier {rows : List (Sample β)} (hincreasing : Increasing Sample.ts rows) {now c : Int}
    {handled : Int → Bool} (h : sweepFrontier (gapRuns Sample.ts sessionGapSecs rows) now handled = some c) :
    Frontier rows (fun ts => handled ts = true) c := by
  have hnil : [] ∉ gapRuns Sample.ts sessionGapSecs rows := List.nil_notMem_splitBy _ _
  obtain ⟨before, first, rest, after, hsplit, rfl, hsettled⟩ := exists_of_sweepFrontier hnil h
  have hrun : first :: rest ∈ gapRuns Sample.ts sessionGapSecs rows := by
    rw [hsplit]
    exact List.mem_append_right _ List.mem_cons_self
  refine ⟨isRunStart_of_run hincreasing hrun, fun ts hlt hstart => ?_⟩
  obtain ⟨other, tail, hother, rfl⟩ := exists_run_of_isRunStart hincreasing hstart
  rw [hsplit] at hother
  rcases List.mem_append.mp hother with hbefore | hlater
  · exact hsettled _ hbefore
  · rcases List.mem_cons.mp hlater with heq | hafter
    · obtain ⟨rfl, -⟩ := List.cons.inj heq
      exact absurd hlt (lt_irrefl _)
    · -- a later run begins later
      have hsplit' : gapRuns Sample.ts sessionGapSecs rows = (before ++ [first :: rest]) ++ after := by
        rw [hsplit, List.append_assoc]
        rfl
      have hfar := separated_of_gapRuns hincreasing hsplit' first (by simp) other
        (List.mem_flatten.mpr ⟨_, hafter, List.mem_cons_self⟩)
      unfold sessionGapSecs at hfar
      omega

/-! ## Later rows and larger scans -/

/-- Rows that come after the frontier do not move it. -/
theorem Frontier.append {rows later : List (Sample β)} {sent : Int → Prop} {c : Int} (h : Frontier rows sent c)
    (hlater : ∀ r ∈ later, c < r.ts) : Frontier (rows ++ later) sent c := by
  have hbelow : ∀ r ∈ rows ++ later, r.ts ≤ c → r ∈ rows := by
    intro r hr hle
    rcases List.mem_append.mp hr with hr | hr
    · exact hr
    · exact absurd (hlater r hr) (by omega)
  obtain ⟨⟨a, ha, hts⟩, hgap⟩ := h.start
  refine ⟨⟨⟨a, List.mem_append_left _ ha, hts⟩, fun r hr hlt => ?_⟩, fun ts hlt hstart => ?_⟩
  · exact hgap r (hbelow r hr (by omega)) hlt
  · obtain ⟨⟨b, hb, hbts⟩, hbgap⟩ := hstart
    exact h.earlier ts hlt ⟨⟨b, hbelow b hb (by omega), hbts⟩,
      fun r hr hr' => hbgap r (List.mem_append_left _ hr) hr'⟩

/-- A scan from a frontier finds a frontier of the whole. -/
theorem Frontier.of_suffix {rows : List (Sample β)} {sent : Int → Prop} {low c : Int} (h : Frontier rows sent low)
    (hscan : Frontier (rows.filter fun r => decide (low ≤ r.ts)) sent c) : Frontier rows sent c := by
  have hmem : ∀ r ∈ rows, low ≤ r.ts → r ∈ rows.filter fun r => decide (low ≤ r.ts) := fun r hr hle =>
    List.mem_filter.mpr ⟨hr, decide_eq_true hle⟩
  obtain ⟨⟨a, ha, hts⟩, hgap⟩ := hscan.start
  obtain ⟨ha, hlow⟩ := List.mem_filter.mp ha
  have hlow := of_decide_eq_true hlow
  refine ⟨⟨⟨a, ha, hts⟩, fun r hr hlt => ?_⟩, fun ts hlt hstart => ?_⟩
  · by_cases hle : low ≤ r.ts
    · exact hgap r (hmem r hr hle) hlt
    · have := h.start.2 r hr (by omega)
      omega
  · by_cases hle : low ≤ ts
    · -- the scan saw this run start
      obtain ⟨⟨b, hb, hbts⟩, hbgap⟩ := hstart
      exact hscan.earlier ts hlt ⟨⟨b, hmem b hb (by omega), hbts⟩,
        fun r hr hr' => hbgap r (List.mem_filter.mp hr).1 hr'⟩
    · exact h.earlier ts (by omega) hstart

theorem Frontier.mono {rows : List (Sample β)} {sent sent' : Int → Prop} {c : Int} (h : Frontier rows sent c)
    (hsent : ∀ ts, sent ts → sent' ts) : Frontier rows sent' c :=
  ⟨h.start, fun ts hlt hstart => hsent ts (h.earlier ts hlt hstart)⟩

/-! ## Runs -/

/-- What the promise is made for: appends, imports and the two sweeps. -/
def Listed : Action β → Prop
  | .delete _ _ => False
  | _ => True

/-- The condition on a step: times are not before the epoch, and no import falls between the load and the store of a
sweep that found no cursor. -/
def Careful (s : System β) : Action β → Prop
  | .delete _ _ => False
  | .sample r => 0 ≤ r.ts
  | .importRows rows =>
    (∀ r ∈ rows, 0 ≤ r.ts) ∧ ∀ scan handled now sessions, s.proc = .loaded scan handled now sessions → scan.token ≠ none
  | _ => True

/-- The upload record exists. -/
def System.uploaded (s : System β) (ts : Int) : Prop := s.tables.uploads ts ≠ none

/-- A scan starts at the epoch or at the cursor it found. -/
def Scan.Anchored (scan : Scan) : Prop := scan.low = 0 ∨ scan.token = some scan.low

/-- What a sweep knows before it stores the cursor. Nothing is known about the loaded sessions once the cursor is not
the one it found. -/
def ScanSound (s : System β) : Proc β → Prop
  | .begun scan => scan.Anchored
  | .known scan handled => scan.Anchored ∧ ∀ ts, handled ts = true → s.uploaded ts
  | .loaded scan handled _ sessions =>
    (∀ ts, handled ts = true → s.uploaded ts) ∧ (s.cursor = scan.token →
      ∃ rows later, s.tables.telemetry.charging = rows ++ later
        ∧ sessions = gapRuns Sample.ts sessionGapSecs (rows.filter fun r => decide (scan.low ≤ r.ts))
        ∧ (scan.low = 0 ∨ Frontier rows s.uploaded scan.low))
  | _ => True

/-- The invariant. -/
structure CursorInv (s : System β) : Prop where
  rows : ∀ r ∈ s.tables.telemetry.rows, 0 ≤ r.ts
  cursor : ∀ c, s.cursor = some c → Frontier s.tables.telemetry.charging s.uploaded c
  scan : ScanSound s s.proc

/-- A step that leaves telemetry and cursor alone and takes no upload record away. -/
theorem CursorInv.mono {s t : System β} (h : CursorInv s) (htelemetry : t.tables.telemetry = s.tables.telemetry)
    (hcursor : t.cursor = s.cursor) (huploads : ∀ ts, s.uploaded ts → t.uploaded ts) (hscan : ScanSound t t.proc) :
    CursorInv t := by
  refine ⟨?_, fun c hc => ?_, hscan⟩
  · rw [htelemetry]
    exact h.rows
  · rw [hcursor] at hc
    rw [htelemetry]
    exact (h.cursor c hc).mono huploads

theorem CursorInv.goto {s : System β} (h : CursorInv s) {proc : Proc β} (hscan : ScanSound (s.goto proc) proc) :
    CursorInv (s.goto proc) :=
  h.mono rfl rfl (fun _ hts => hts) hscan

/-- A frontier is the time of a row, so later rows are after it. -/
theorem Frontier.lt_later {rows later : List (Sample β)} {sent : Int → Prop} {c : Int} (h : Frontier rows sent c)
    (hincreasing : Increasing Sample.ts (rows ++ later)) : ∀ r ∈ later, c < r.ts := by
  intro r hr
  obtain ⟨a, ha, rfl⟩ := h.start.1
  exact (List.pairwise_append.mp hincreasing).2.2 a ha r hr

/-! ### The sampler and imports -/

theorem CursorInv.sample {s : System β} (h : CursorInv s) {r : Sample β} (hr : 0 ≤ r.ts)
    (hlater : ∀ q ∈ s.tables.telemetry.rows, q.ts < r.ts) :
    CursorInv { s.tick with tables := { s.tables with telemetry := s.tables.telemetry.insert r } } := by
  have hcharging := Table.charging_insert_of_lt hlater
  have hincreasing : Increasing Sample.ts (s.tables.telemetry.charging ++ [r].filter Sample.active) := by
    rw [← hcharging]
    exact Table.increasing_charging _
  refine ⟨fun q hq => ?_, fun c hc => ?_, ?_⟩
  · rcases Table.mem_insert.mp hq with rfl | ⟨hq, -⟩
    · exact hr
    · exact h.rows q hq
  · show Frontier (s.tables.telemetry.insert r).charging s.uploaded c
    rw [hcharging]
    exact (h.cursor c hc).append ((h.cursor c hc).lt_later hincreasing)
  · -- the rows of a load only get longer at the end
    have hscan := h.scan
    show ScanSound _ s.proc
    cases hproc : s.proc with
    | begun scan | known scan handled =>
      rw [hproc] at hscan
      exact hscan
    | loaded scan handled now sessions =>
      rw [hproc] at hscan
      refine ⟨hscan.1, fun hcursor => ?_⟩
      obtain ⟨rows, later, hsplit, hrest⟩ := hscan.2 hcursor
      refine ⟨rows, later ++ [r].filter Sample.active, ?_, hrest⟩
      show (s.tables.telemetry.insert r).charging = _
      rw [hcharging, hsplit, List.append_assoc]
    | _ => trivial

theorem mem_insertOrIgnore {t : Table β} {r q : Sample β} (h : q ∈ (t.insertOrIgnore r).rows) : q = r ∨ q ∈ t.rows := by
  unfold Table.insertOrIgnore at h
  split at h
  · exact .inr h
  · exact (Table.mem_insert.mp h).imp_right And.left

theorem mem_foldl_insertOrIgnore (rows : List (Sample β)) {t : Table β} {q : Sample β}
    (h : q ∈ (rows.foldl Table.insertOrIgnore t).rows) : q ∈ rows ∨ q ∈ t.rows := by
  induction rows generalizing t with
  | nil => exact .inr h
  | cons r rows ih =>
    rcases ih h with hmem | hmem
    · exact .inl (List.mem_cons_of_mem _ hmem)
    · rcases mem_insertOrIgnore hmem with rfl | hmem
      · exact .inl List.mem_cons_self
      · exact .inr hmem

theorem CursorInv.importRows {s : System β} (h : CursorInv s) {rows : List (Sample β)} (hrows : ∀ r ∈ rows, 0 ≤ r.ts)
    (htoken : ∀ scan handled now sessions, s.proc = .loaded scan handled now sessions → scan.token ≠ none) :
    CursorInv { s.tick with
      tables := { s.tables with telemetry := rows.foldl Table.insertOrIgnore s.tables.telemetry }
      cursor := none } := by
  refine ⟨fun q hq => ?_, fun c hc => ?_, ?_⟩
  · rcases mem_foldl_insertOrIgnore rows hq with hq | hq
    · exact hrows q hq
    · exact h.rows q hq
  · exact absurd hc (by simp)
  · have hscan := h.scan
    show ScanSound _ s.proc
    cases hproc : s.proc with
    | begun scan | known scan handled =>
      rw [hproc] at hscan
      exact hscan
    | loaded scan handled now sessions =>
      -- the reset tells this sweep apart: its cursor is gone
      rw [hproc] at hscan
      exact ⟨hscan.1, fun hcursor => absurd hcursor.symm (htoken _ _ _ _ hproc)⟩
    | _ => trivial

/-! ### The sweep -/

theorem System.scan_anchored (s : System β) (today : Text) : (s.scan today).Anchored := by
  unfold System.scan Scan.Anchored
  split
  · cases s.cursor with
    | none => exact .inl rfl
    | some c => exact .inr rfl
  · exact .inl rfl

/-- What a sweep has loaded is the table as it is. -/
theorem CursorInv.load {s : System β} (h : CursorInv s) {scan : Scan} {handled : Int → Bool}
    (hproc : s.proc = .known scan handled) (now : Int) :
    CursorInv (s.goto (.loaded scan handled now (groupSessions (loadChargeRows s.tables.telemetry scan.low none)))) := by
  have hscan := h.scan
  rw [hproc] at hscan
  obtain ⟨hanchored, hhandled⟩ := hscan
  refine h.goto ⟨hhandled, fun hcursor => ⟨s.tables.telemetry.charging, [], (List.append_nil _).symm, ?_, ?_⟩⟩
  · rw [groupSessions_eq_gapRuns, loadChargeRows_eq_filter]
    simp
  · rcases hanchored with hzero | htoken
    · exact .inl hzero
    · exact .inr (h.cursor _ (by rw [← htoken]; exact hcursor))

/-- **The stored frontier is one of the table.** -/
theorem CursorInv.frontier {s : System β} (h : CursorInv s) {scan : Scan} {handled : Int → Bool} {now c : Int}
    {sessions : List (List (Sample β))} (hproc : s.proc = .loaded scan handled now sessions)
    (hcursor : s.cursor = scan.token) (hc : sweepFrontier sessions now handled = some c) :
    Frontier s.tables.telemetry.charging s.uploaded c := by
  have hscan := h.scan
  rw [hproc] at hscan
  obtain ⟨hhandled, hloaded⟩ := hscan
  obtain ⟨rows, later, hsplit, rfl, hlow⟩ := hloaded hcursor
  have hincreasing : Increasing Sample.ts (rows ++ later) := by
    rw [← hsplit]
    exact s.tables.telemetry.increasing_charging
  have hrows : Increasing Sample.ts rows := (List.pairwise_append.mp hincreasing).1
  have hscanned := (sweepFrontier_frontier (hrows.filter _) hc).mono hhandled
  have hwhole : Frontier rows s.uploaded c := by
    rcases hlow with hzero | hfrontier
    · -- a scan from the epoch sees every row
      have hall : rows.filter (fun r => decide (scan.low ≤ r.ts)) = rows := by
        refine List.filter_eq_self.mpr fun r hr => decide_eq_true ?_
        have hmem : r ∈ s.tables.telemetry.charging := by
          rw [hsplit]
          exact List.mem_append_left _ hr
        rw [hzero]
        exact h.rows r (Table.mem_charging.mp hmem).1
      rw [hall] at hscanned
      exact hscanned
    · exact hfrontier.of_suffix hscanned
  rw [hsplit]
  exact hwhole.append (hwhole.lt_later hincreasing)

/-! ### Every step -/

theorem CursorInv.step {chargeId : Int → Text} {s t : System β} {a : Action β} (h : CursorInv s) (hcareful : Careful s a)
    (ht : step chargeId s a = some t) : CursorInv t := by
  cases a with
  | delete now id => exact hcareful.elim
  | sample r =>
    simp only [Charging.step] at ht
    split at ht
    · rename_i hlater
      obtain rfl := Option.some.inj ht
      exact h.sample hcareful fun q hq => of_decide_eq_true (List.all_eq_true.mp hlater q hq)
    · simp at ht
  | importRows rows =>
    obtain rfl := Option.some.inj ht
    exact h.importRows hcareful.1 hcareful.2
  | readCursor today =>
    simp only [Charging.step] at ht
    split at ht
    · obtain rfl := Option.some.inj ht
      exact h.goto (s.scan_anchored today)
    · simp at ht
  | readUploads =>
    simp only [Charging.step] at ht
    split at ht
    · rename_i scan hproc
      have hscan := h.scan
      rw [hproc] at hscan
      obtain rfl := Option.some.inj ht
      refine h.goto ⟨hscan, fun ts hts => ?_⟩
      rw [Bool.and_eq_true] at hts
      exact Option.isSome_iff_ne_none.mp hts.2
    · simp at ht
  | loadRows now =>
    simp only [Charging.step] at ht
    split at ht
    · rename_i hproc
      obtain rfl := Option.some.inj ht
      exact h.load hproc now
    · simp at ht
  | writeCursor =>
    simp only [Charging.step] at ht
    split at ht
    · rename_i scan handled now sessions hproc
      split at ht
      · rename_i hcursor
        obtain rfl := Option.some.inj ht
        refine ⟨h.rows, fun c hc => ?_, trivial⟩
        -- the stored cursor is the frontier, or the old one when there is no session
        have hc : (sweepFrontier sessions now handled).or s.cursor = some c := hc
        cases hfrontier : sweepFrontier sessions now handled with
        | some found =>
          rw [hfrontier] at hc
          obtain rfl : found = c := Option.some.inj hc
          exact h.frontier hproc hcursor hfrontier
        | none =>
          rw [hfrontier, Option.none_or] at hc
          exact h.cursor c hc
      · obtain rfl := Option.some.inj ht
        exact h.goto trivial
    · simp at ht
  | readOutbox | readGenerations | readDeletes =>
    simp only [Charging.step] at ht
    split at ht
    · obtain rfl := Option.some.inj ht
      exact h.goto trivial
    · simp at ht
  | answerDeletes results =>
    simp only [Charging.step] at ht
    split at ht
    · obtain rfl := Option.some.inj ht
      exact h.mono rfl rfl (fun _ hts => hts) trivial
    · simp at ht
  | post keys | postDeletes =>
    simp only [Charging.step] at ht
    split at ht
    · split at ht
      · simp at ht
      · obtain rfl := Option.some.inj ht
        exact h.goto trivial
    · simp at ht
  | answer results =>
    simp only [Charging.step] at ht
    split at ht
    · split at ht
      · obtain rfl := Option.some.inj ht
        exact h.goto trivial
      · simp at ht
    · simp at ht
  | acknowledge now =>
    simp only [Charging.step] at ht
    split at ht
    · split at ht
      · obtain rfl := Option.some.inj ht
        exact h.goto trivial
      · obtain rfl := Option.some.inj ht
        exact h.mono (Tables.acknowledge_writes _ _ _ _ _).telemetry rfl
          (fun ts hts => Tables.acknowledge_uploads_ne_none hts _ _ _) trivial
    · split at ht
      · obtain rfl := Option.some.inj ht
        exact h.goto trivial
      · obtain rfl := Option.some.inj ht
        exact h.goto trivial
    · simp at ht
  | settle now =>
    simp only [Charging.step] at ht
    split at ht
    · split at ht
      · obtain rfl := Option.some.inj ht
        exact h.goto trivial
      · rename_i row hrow
        obtain rfl := Option.some.inj ht
        refine h.mono (Tables.settle_telemetry _ _ _ _) rfl (fun ts hts => ?_) trivial
        show (s.tables.settle _ _ _).uploads ts ≠ none
        rw [Tables.settle_uploads]
        exact hts
    · obtain rfl := Option.some.inj ht
      exact h.goto trivial
    · simp at ht
  | leave =>
    obtain rfl := Option.some.inj ht
    exact h.goto trivial

/-- **In careful runs every stored cursor hides nothing.** -/
theorem cursor_sound_of_careful (chargeId : Int → Text) (tables : Tables β) (fullDate : Option Text)
    (hrows : ∀ r ∈ tables.telemetry.rows, 0 ≤ r.ts) {s : System β}
    (hs : Reaches (step chargeId) Careful (System.start tables none fullDate) s) {c : Int} (hc : s.cursor = some c) :
    CursorSound s c := by
  have hinv : CursorInv s := hs.invariant
    ⟨hrows, fun c hc => absurd hc (by simp [System.start]), trivial⟩
    fun t a u ht hcareful hu => ht.step hcareful hu
  exact (hinv.cursor c hc).cursorSound

/-- A first sweep over two unsent sessions stores the start of the older one. -/
theorem cursor_sound_of_careful_firstSweep :
    ∃ s : System Unit, Reaches (step fun _ => []) Careful (System.start twoSessions none none) s
      ∧ s.cursor = some 1000 ∧ CursorSound s 1000 := by
  obtain ⟨s, hs, hcursor⟩ : ∃ s : System Unit,
      Reaches (step fun _ => []) Careful (System.start twoSessions none none) s ∧ s.cursor = some 1000 :=
    ⟨_, .tail .writeCursor (.tail (.loadRows 30000) (.tail .readUploads (.tail (.readCursor []) .refl trivial rfl)
      trivial rfl) trivial rfl) trivial rfl, rfl⟩
  refine ⟨s, hs, hcursor, cursor_sound_of_careful (fun _ => []) twoSessions none (fun r hr => ?_) hs hcursor⟩
  rcases List.mem_cons.mp hr with rfl | hr
  · decide
  · rw [List.mem_singleton.mp hr]
    decide

/-! ## An import that a sweep does not notice -/

/-- One session. -/
def lateSession : Tables Unit where
  telemetry := ⟨[⟨20000, none, some 7, none, ()⟩], List.pairwise_singleton _ _⟩
  tags := fun _ => []
  costs := fun _ => none
  outbox := ∅
  uploads := fun _ => none
  dirty := fun _ => none

/-- A sweep finds no cursor and loads the session at 20000; an import adds the session at 1000 and resets the cursor,
which is absent before and after; the sweep stores 20000, past the imported session. -/
theorem cursor_hides_imported_session :
    ∃ s : System Unit, Reaches (step fun _ => []) (fun _ a => Listed a) (System.start lateSession none none) s
      ∧ s.cursor = some 20000 ∧ ¬ CursorSound s 20000 := by
  obtain ⟨s, hs, hcursor, hsessions, huploads, houtbox⟩ : ∃ s : System Unit,
      Reaches (step fun _ => []) (fun _ a => Listed a) (System.start lateSession none none) s ∧ s.cursor = some 20000
        ∧ [⟨1000, none, some 11, none, ()⟩] ∈ s.tables.telemetry.sessions ∧ s.tables.uploads 1000 = none
        ∧ s.tables.outbox.lookup 1000 = none :=
    ⟨_, .tail .writeCursor (.tail (.importRows [⟨1000, none, some 11, none, ()⟩]) (.tail (.loadRows 100000)
      (.tail .readUploads (.tail (.readCursor []) .refl trivial rfl) trivial rfl) trivial rfl) trivial rfl) trivial rfl,
      rfl, List.mem_cons_self, rfl, rfl⟩
  refine ⟨s, hs, hcursor, fun hsound => ?_⟩
  have hle := hsound.unsent 100000 _ hsessions ⟨1000, none, some 11, none, ()⟩ rfl (by decide) huploads houtbox
  exact absurd hle (by decide)

end SentryUsb.Charging
