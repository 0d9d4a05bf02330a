import SentryUsb.Charging.Sessions

/-! # Deleting charging sessions

The deletion of a list of sessions by their start times (`api/charging.rs`, `bulk_delete_charges`). Each
id is looked up again in the rows that are left: the first session at or after the id, within a week of
it, is the one that goes, with its tags, its cost, its upload and its queue row; the deletion is queued
for the Cloud.

* **`sessionWindow`** — the session an id stands for;
* **`bulkDelete`** — the loop over the ids;
* **`RemovesOnlyNamed`** — what the request is for: only the named sessions lose rows, no other session
  loses its metadata, and a second request finds nothing;
* **`RowsAreNamed`** — every charging row in the reach of an id belongs to a named session;
* **`bulkDelete_removesOnlyNamed_iff`** — the two are the same. -/

namespace SentryUsb.Charging

open Library

variable {β : Type}

/-! ## Model -/

/-- A row of `charge_delete_outbox`. -/
structure OutboxRow where
  cloudChargeId : Text
  queuedAt : Int
  ackedAt : Option Int
deriving DecidableEq

/-- A row of `charge_uploads`. -/
structure UploadRow where
  cloudChargeId : Text
  wrappedChargeKey : Text
  uploadedAt : Int
deriving DecidableEq

/-- A row of `charge_costs`. -/
structure CostRow where
  amount : Float
  currency : Option Text

/-- The tables of a deletion. All but the telemetry are keyed by the start of a session; `dirty` holds the
rows of `mutable_dirty` of kind `charge`, whose key is that time in decimal. -/
structure Tables (β : Type) where
  telemetry : Table β
  tags : Int → List Text
  costs : Int → Option CostRow
  outbox : AList fun _ : Int => OutboxRow
  uploads : Int → Option UploadRow
  dirty : Int → Option Int

/-- A week, the reach of an id. -/
def reachSecs : Int := 7 * 24 * 60 * 60

/-- The bounds of the session an id stands for: the first one at or after it. -/
def sessionWindow (t : Table β) (id : Int) : Option (Int × Int) :=
  match groupSessions (loadChargeRows t id (some (id + reachSecs))) with
  | [] => none
  | session :: _ => session.head?.bind fun first => session.getLast?.map fun last => (first.ts, last.ts)

/-- The rows a window deletes. -/
def inWindow (first last : Int) (r : Sample β) : Bool :=
  decide (first ≤ r.ts) && decide (r.ts ≤ last) && r.chargeBearing

/-- One transaction: the session's rows and metadata go, its Cloud deletion is queued. -/
def Tables.deleteSession (chargeId : Int → Text) (now : Int) (s : Tables β) (first last : Int) : Tables β :=
  { telemetry := s.telemetry.delete (inWindow first last)
    tags := Function.update s.tags first []
    costs := Function.update s.costs first none
    outbox := s.outbox.insert first ⟨chargeId first, now, none⟩
    uploads := Function.update s.uploads first none
    dirty := Function.update s.dirty first none }

/-- The tables with the two counters of the answer. -/
structure Progress (β : Type) where
  tables : Tables β
  deleted : Nat
  sessions : Nat

/-- One id of the request. -/
def deleteId (chargeId : Int → Text) (now : Int) (p : Progress β) (id : Int) : Progress β :=
  match sessionWindow p.tables.telemetry id with
  | none => p
  | some (first, last) =>
    { tables := p.tables.deleteSession chargeId now first last
      deleted := p.deleted + p.tables.telemetry.rows.countP (inWindow first last)
      sessions := p.sessions + 1 }

/-- The request: the ids in order. -/
def bulkDelete (chargeId : Int → Text) (now : Int) (ids : List Int) (s : Tables β) : Progress β :=
  ids.foldl (deleteId chargeId now) ⟨s, 0, 0⟩

/-! ## What the request is for -/

/-- The session's start is one of the ids. -/
def Named (ids : List Int) (session : List (Sample β)) : Prop := ∃ first ∈ session.head?, first.ts ∈ ids

/-- The time lies in the session. -/
def Spans (session : List (Sample β)) (ts : Int) : Prop :=
  (∃ first ∈ session.head?, first.ts ≤ ts) ∧ ∃ last ∈ session.getLast?, ts ≤ last.ts

/-- What is stored about a session under its start. -/
def Tables.metadata (s : Tables β) (start : Int) :
    List Text × Option CostRow × Option OutboxRow × Option UploadRow × Option Int :=
  (s.tags start, s.costs start, s.outbox.lookup start, s.uploads start, s.dirty start)

/-- **Only the named sessions go.** -/
structure RemovesOnlyNamed (chargeId : Int → Text) (now : Int) (ids : List Int) (s : Tables β) : Prop where
  /-- A deleted row bears a charge signal and lies in a named session. -/
  rows : ∀ r ∈ s.telemetry.rows, r ∉ (bulkDelete chargeId now ids s).tables.telemetry.rows →
    r.chargeBearing = true ∧ ∃ session ∈ s.telemetry.sessions, Named ids session ∧ Spans session r.ts
  /-- Every other session keeps its metadata. -/
  others : ∀ session ∈ s.telemetry.sessions, ¬ Named ids session → ∀ first ∈ session.head?,
    (bulkDelete chargeId now ids s).tables.metadata first.ts = s.metadata first.ts
  /-- The same request again, at any time, deletes nothing more. -/
  again : ∀ later, (bulkDelete chargeId later ids (bulkDelete chargeId now ids s).tables).tables
    = (bulkDelete chargeId now ids s).tables

/-- Every charging row in the reach of an id belongs to a named session. -/
def RowsAreNamed (ids : List Int) (t : Table β) : Prop :=
  ∀ id ∈ ids, ∀ r ∈ loadChargeRows t id (some (id + reachSecs)), ∃ session ∈ t.sessions,
    r ∈ session ∧ Named ids session

/-! ## The session an id stands for -/

/-- An id stands for no session exactly when no charging row is in its reach. -/
theorem sessionWindow_eq_none {t : Table β} {id : Int} :
    sessionWindow t id = none ↔ loadChargeRows t id (some (id + reachSecs)) = [] := by
  unfold sessionWindow
  rw [groupSessions_eq_gapRuns]
  constructor
  · intro h
    cases hruns : gapRuns Sample.ts sessionGapSecs (loadChargeRows t id (some (id + reachSecs))) with
    | nil => exact List.splitBy_eq_nil.mp hruns
    | cons session rest =>
      -- a session has a first and a last row
      have hne : session ≠ [] := ne_nil_of_run (by rw [hruns]; exact List.mem_cons_self)
      rw [hruns] at h
      simp [List.head?_eq_some_head hne, List.getLast?_eq_some_getLast hne] at h
  · intro h
    rw [h]
    rfl

/-- The window of an id: a session of the rows in its reach, with nothing before it. -/
structure IsWindow (t : Table β) (id first last : Int) (session : List (Sample β)) : Prop where
  run : session ∈ gapRuns Sample.ts sessionGapSecs (loadChargeRows t id (some (id + reachSecs)))
  head : ∃ r ∈ session.head?, r.ts = first
  final : ∃ r ∈ session.getLast?, r.ts = last
  least : ∀ r ∈ loadChargeRows t id (some (id + reachSecs)), first ≤ r.ts

theorem exists_isWindow {t : Table β} {id first last : Int} (h : sessionWindow t id = some (first, last)) :
    ∃ session, IsWindow t id first last session := by
  unfold sessionWindow at h
  rw [groupSessions_eq_gapRuns] at h
  split at h
  · simp at h
  · rename_i session rest hruns
    obtain ⟨r, hr, hlast⟩ := Option.bind_eq_some_iff.mp h
    obtain ⟨r', hr', hends⟩ := Option.map_eq_some_iff.mp hlast
    obtain ⟨rfl, rfl⟩ := Prod.mk.inj hends
    refine ⟨session, by rw [hruns]; exact List.mem_cons_self, ⟨r, hr, rfl⟩, ⟨r', hr', rfl⟩, fun q hq => ?_⟩
    -- the first run starts the rows
    have hincreasing := increasing_loadChargeRows t id (some (id + reachSecs))
    rw [← flatten_gapRuns Sample.ts sessionGapSecs (loadChargeRows t id _), hruns] at hincreasing hq
    obtain ⟨tail, rfl⟩ : ∃ tail, session = r :: tail := List.head?_eq_some_iff.mp hr
    exact hincreasing.head_le hq

namespace IsWindow

variable {t : Table β} {id first last : Int} {session : List (Sample β)}

theorem mem (h : IsWindow t id first last session) {r : Sample β} (hr : r ∈ session) :
    r ∈ t.charging ∧ id ≤ r.ts ∧ r.ts ≤ id + reachSecs := by
  obtain ⟨hmem, hlow, hupper⟩ := mem_loadChargeRows.mp (mem_of_mem_run h.run hr)
  exact ⟨hmem, hlow, hupper _ rfl⟩

theorem low (h : IsWindow t id first last session) : id ≤ first ∧ first ≤ id + reachSecs := by
  obtain ⟨r, hr, rfl⟩ := h.head
  exact (h.mem (List.mem_of_mem_head? hr)).2

theorem le_last (h : IsWindow t id first last session) {r : Sample β} (hr : r ∈ session) : r.ts ≤ last := by
  obtain ⟨final, hfinal, rfl⟩ := h.final
  exact ((increasing_loadChargeRows _ _ _).run h.run).le_getLast hfinal hr

/-- A charging row in the reach of the id and within the gap of the window's end is in the window. -/
theorem mem_of_near (h : IsWindow t id first last session) {r : Sample β} (hr : r ∈ t.charging) (hlow : id ≤ r.ts)
    (hreach : r.ts ≤ id + reachSecs) (hbelow : last ≤ r.ts) (hnear : r.ts - last ≤ sessionGapSecs) :
    r ∈ session := by
  obtain ⟨final, hfinal, rfl⟩ := h.final
  have hload : r ∈ loadChargeRows t id (some (id + reachSecs)) :=
    mem_loadChargeRows.mpr ⟨hr, hlow, fun u hu => by rw [← Option.some.inj hu]; exact hreach⟩
  refine mem_run_of_near (increasing_loadChargeRows _ _ _).nondecreasing h.run (List.mem_of_mem_getLast? hfinal) hload ?_ hnear
  unfold sessionGapSecs
  omega

/-- A row that is left before a deleted one was out of the reach of the id. -/
theorem lt_of_kept (h : IsWindow t id first last session) {r : Sample β} (hr : r ∈ t.charging)
    (hkept : ¬ inWindow first last r = true) (hlast : r.ts ≤ last) : r.ts < id := by
  have hbearing := Sample.chargeBearing_of_active (Table.mem_charging.mp hr).2
  have hbefore : r.ts < first := by
    by_contra hle
    refine hkept ?_
    unfold inWindow
    rw [hbearing, decide_eq_true (by omega : first ≤ r.ts), decide_eq_true hlast]
    rfl
  by_contra hle
  have hreach := h.low
  have := h.least r (mem_loadChargeRows.mpr ⟨hr, by omega, fun u hu => by
    have := Option.some.inj hu
    omega⟩)
  omega

end IsWindow

/-! ## What the ids do to the rows -/

/-- The telemetry after one id. -/
def cutId (t : Table β) (id : Int) : Table β :=
  match sessionWindow t id with
  | none => t
  | some (first, last) => t.delete (inWindow first last)

theorem deleteId_telemetry (chargeId : Int → Text) (now : Int) (p : Progress β) (id : Int) :
    (deleteId chargeId now p id).tables.telemetry = cutId p.tables.telemetry id := by
  unfold deleteId cutId
  cases sessionWindow p.tables.telemetry id with
  | none => rfl
  | some window => rfl

theorem foldl_deleteId_telemetry (chargeId : Int → Text) (now : Int) (ids : List Int) (p : Progress β) :
    (ids.foldl (deleteId chargeId now) p).tables.telemetry = ids.foldl cutId p.tables.telemetry := by
  induction ids generalizing p with
  | nil => rfl
  | cons id ids ih => rw [List.foldl_cons, ih, deleteId_telemetry, List.foldl_cons]

/-- What one id does: nothing when no charging row is in its reach, and else its window goes. -/
theorem cutId_cases (t : Table β) (id : Int) :
    (loadChargeRows t id (some (id + reachSecs)) = [] ∧ cutId t id = t)
      ∨ ∃ first last session, IsWindow t id first last session ∧ cutId t id = t.delete (inWindow first last) := by
  unfold cutId
  cases hwindow : sessionWindow t id with
  | none => exact .inl ⟨sessionWindow_eq_none.mp hwindow, rfl⟩
  | some window =>
    obtain ⟨session, hsession⟩ := exists_isWindow hwindow
    exact .inr ⟨window.1, window.2, session, hsession, rfl⟩

theorem rows_cutId_subset (t : Table β) (id : Int) : ∀ r ∈ (cutId t id).rows, r ∈ t.rows := by
  intro r hr
  rcases cutId_cases t id with ⟨-, heq⟩ | ⟨first, last, session, -, heq⟩
  · rw [heq] at hr
    exact hr
  · rw [heq] at hr
    exact (Table.mem_delete.mp hr).1

theorem rows_foldl_cutId_subset (ids : List Int) (t : Table β) :
    ∀ r ∈ (ids.foldl cutId t).rows, r ∈ t.rows := by
  induction ids generalizing t with
  | nil => exact fun r hr => hr
  | cons id ids ih => exact fun r hr => rows_cutId_subset t id r (ih (cutId t id) r hr)

theorem charging_foldl_cutId_subset {ids : List Int} {t : Table β} {r : Sample β}
    (hr : r ∈ (ids.foldl cutId t).charging) : r ∈ t.charging := by
  obtain ⟨hmem, hactive⟩ := Table.mem_charging.mp hr
  exact Table.mem_charging.mpr ⟨rows_foldl_cutId_subset ids t r hmem, hactive⟩

/-- **What parts a deleted row from an earlier one that is left** is an id between them that reaches
the deleted row. -/
theorem exists_id_between (ids : List Int) (t : Table β) {r z : Sample β} (hz : z ∈ t.charging)
    (hgone : z ∉ (ids.foldl cutId t).charging) (hr : r ∈ (ids.foldl cutId t).charging) (hlt : r.ts < z.ts) :
    ∃ id ∈ ids, r.ts < id ∧ id ≤ z.ts ∧ z.ts ≤ id + reachSecs := by
  induction ids generalizing t with
  | nil => exact absurd hz hgone
  | cons id ids ih =>
    by_cases hnext : z ∈ (cutId t id).charging
    · obtain ⟨other, hother, hbetween⟩ := ih (cutId t id) hnext hgone hr
      exact ⟨other, List.mem_cons_of_mem _ hother, hbetween⟩
    · -- this id deleted the row
      have hleft : r ∈ (cutId t id).charging := charging_foldl_cutId_subset hr
      obtain ⟨hzrow, hactive⟩ := Table.mem_charging.mp hz
      rcases cutId_cases t id with ⟨-, heq⟩ | ⟨first, last, session, hwindow, heq⟩
      · rw [heq] at hnext
        exact absurd hz hnext
      · rw [heq] at hnext hleft
        obtain ⟨hleft, hractive⟩ := Table.mem_charging.mp hleft
        obtain ⟨hrrow, hkept⟩ := Table.mem_delete.mp hleft
        have hin : inWindow first last z = true := by
          by_contra hout
          exact hnext (Table.mem_charging.mpr ⟨Table.mem_delete.mpr ⟨hzrow, hout⟩, hactive⟩)
        unfold inWindow at hin
        rw [Bool.and_eq_true, Bool.and_eq_true, decide_eq_true_eq, decide_eq_true_eq] at hin
        have hlow := hwindow.lt_of_kept (Table.mem_charging.mpr ⟨hrrow, hractive⟩) hkept (by omega)
        obtain ⟨final, hfinal, rfl⟩ := hwindow.final
        have hreach := hwindow.mem (List.mem_of_mem_getLast? hfinal)
        have := hwindow.low
        exact ⟨id, List.mem_cons_self, hlow, by omega, by omega⟩

/-- **An id clears its reach in its session.** After the ids, no row of a session is left that is in the
reach of an id at or after the session's start. -/
theorem not_mem_foldl_cutId (ids : List Int) (t : Table β) {first : Sample β} {rest : List (Sample β)}
    (hrun : first :: rest ∈ gapRuns Sample.ts sessionGapSecs t.charging) {id : Int} (hid : id ∈ ids)
    (hstart : first.ts ≤ id) {x : Sample β} (hx : x ∈ first :: rest) (hlow : id ≤ x.ts)
    (hreach : x.ts ≤ id + reachSecs) : x ∉ (ids.foldl cutId t).charging := by
  induction ids using List.reverseRecOn generalizing id with
  | nil => simp at hid
  | append_singleton ids next ih =>
    rw [List.foldl_append, List.foldl_cons, List.foldl_nil]
    intro hleft
    have hbefore : x ∈ (ids.foldl cutId t).charging := by
      obtain ⟨hrow, hactive⟩ := Table.mem_charging.mp hleft
      exact Table.mem_charging.mpr ⟨rows_cutId_subset _ next x hrow, hactive⟩
    rcases List.mem_append.mp hid with hid | hid
    · exact ih hid hstart hlow hreach hbefore
    · obtain rfl := List.mem_singleton.mp hid
      have hload : x ∈ loadChargeRows (ids.foldl cutId t) id (some (id + reachSecs)) :=
        mem_loadChargeRows.mpr ⟨hbefore, hlow, fun u hu => by rw [← Option.some.inj hu]; exact hreach⟩
      rcases cutId_cases (ids.foldl cutId t) id with ⟨hnone, -⟩ | ⟨start, last, session, hwindow, heq⟩
      · rw [hnone] at hload
        simp at hload
      · rw [heq] at hleft
        obtain ⟨hxrow, hkept⟩ := Table.mem_delete.mp (Table.mem_charging.mp hleft).1
        -- the window ends before `x`, at a row of the same session
        have hpast : last < x.ts := by
          by_contra hle
          have := hwindow.lt_of_kept hbefore hkept (by omega)
          omega
        obtain ⟨final, hfinal, hts⟩ := hwindow.final
        have hfinal := List.mem_of_mem_getLast? hfinal
        obtain ⟨hfinalrow, hfinallow, -⟩ := hwindow.mem hfinal
        have hfinalrun : final ∈ first :: rest :=
          mem_run_of_between t.increasing_charging hrun List.mem_cons_self hx
            (charging_foldl_cutId_subset hfinalrow) (by omega) (by omega)
        -- what the session had next is gone, by an id that came before and reaches `x` as well
        have hfar : sessionGapSecs < x.ts - final.ts := by
          by_contra hnear
          have := hwindow.le_last (hwindow.mem_of_near hbefore hlow hreach (by omega) (by omega))
          omega
        obtain ⟨c, hc, hafter, hnear⟩ := exists_within_gap t.increasing_charging hrun hfinalrun hx hfar (by decide)
        have hgone : c ∉ (ids.foldl cutId t).charging := by
          intro hmem
          have := hwindow.le_last (hwindow.mem_of_near hmem (by omega) (by omega) (by omega) (by omega))
          omega
        obtain ⟨other, hother, hbetween⟩ :=
          exists_id_between ids t (mem_of_mem_run hrun hc) hgone hfinalrow hafter
        exact ih hother (by omega) (by omega) (by omega) hbefore

/-! ## Named rows are enough -/

/-- The rows of one session of the whole table lie within its bounds. -/
theorem spans_of_mem {t : Table β} {session : List (Sample β)} (h : session ∈ t.sessions) {r : Sample β}
    (hr : r ∈ session) : Spans session r.ts := by
  rw [Table.sessions, groupSessions_eq_gapRuns] at h
  have hincreasing := t.increasing_charging.run h
  obtain ⟨first, rest, rfl⟩ := List.exists_cons_of_ne_nil (ne_nil_of_run h)
  refine ⟨⟨first, rfl, hincreasing.head_le hr⟩, ?_⟩
  obtain ⟨last, hlast⟩ := Option.isSome_iff_exists.mp (List.getLast?_isSome.mpr (List.cons_ne_nil first rest))
  exact ⟨last, hlast, hincreasing.le_getLast hlast hr⟩

/-- Two rows within a session's bounds bound what is within them. -/
theorem Spans.between {session : List (Sample β)} {first last ts : Int} (hfirst : Spans session first)
    (hlast : Spans session last) (hlow : first ≤ ts) (hhigh : ts ≤ last) : Spans session ts := by
  obtain ⟨⟨a, ha, hale⟩, -⟩ := hfirst
  obtain ⟨-, b, hb, hble⟩ := hlast
  exact ⟨⟨a, ha, by omega⟩, b, hb, by omega⟩

section
variable {ids : List Int} {whole t : Table β} (hnamed : RowsAreNamed ids whole)
include hnamed

/-- A window lies in one session of the whole table, and that session is named. -/
theorem window_in_named (hsub : ∀ r ∈ t.rows, r ∈ whole.rows) {id first last : Int} (hid : id ∈ ids)
    {session : List (Sample β)} (h : IsWindow t id first last session) :
    ∃ named ∈ whole.sessions, Named ids named ∧ ∀ r ∈ session, r ∈ named := by
  have hcharging : ∀ r ∈ t.charging, r ∈ whole.charging := fun r hr =>
    Table.mem_charging.mpr ⟨hsub r (Table.mem_charging.mp hr).1, (Table.mem_charging.mp hr).2⟩
  obtain ⟨a, rest, rfl⟩ := List.exists_cons_of_ne_nil (ne_nil_of_run h.run)
  obtain ⟨hmem, hlow, hreach⟩ := h.mem (r := a) List.mem_cons_self
  obtain ⟨named, hsession, ha, hname⟩ := hnamed id hid a
    (mem_loadChargeRows.mpr ⟨hcharging a hmem, hlow, fun u hu => by rw [← Option.some.inj hu]; exact hreach⟩)
  refine ⟨named, hsession, hname, ?_⟩
  rw [Table.sessions, groupSessions_eq_gapRuns] at hsession
  exact chain_subset_run whole.increasing_charging hsession (isChain_of_run h.run)
    ((increasing_loadChargeRows _ _ _).run h.run)
    (fun b hb => hcharging b (h.mem (List.mem_cons_of_mem _ hb)).1) ha (by decide)

/-- Only rows of named sessions are deleted. -/
theorem deleted_in_named (batch : List Int) (hbatch : ∀ id ∈ batch, id ∈ ids)
    (hsub : ∀ r ∈ t.rows, r ∈ whole.rows) {r : Sample β} (hr : r ∈ t.rows)
    (hgone : r ∉ (batch.foldl cutId t).rows) :
    r.chargeBearing = true ∧ ∃ session ∈ whole.sessions, Named ids session ∧ Spans session r.ts := by
  induction batch generalizing t with
  | nil => exact absurd hr hgone
  | cons id batch ih =>
    by_cases hnext : r ∈ (cutId t id).rows
    · exact ih (fun id hid => hbatch id (List.mem_cons_of_mem _ hid))
        (fun r hr => hsub r (rows_cutId_subset t id r hr)) hnext hgone
    · rcases cutId_cases t id with ⟨-, heq⟩ | ⟨first, last, session, hwindow, heq⟩
      · rw [heq] at hnext
        exact absurd hr hnext
      · rw [heq] at hnext
        have hin : inWindow first last r = true := by
          by_contra hout
          exact hnext (Table.mem_delete.mpr ⟨hr, hout⟩)
        unfold inWindow at hin
        rw [Bool.and_eq_true, Bool.and_eq_true, decide_eq_true_eq, decide_eq_true_eq] at hin
        obtain ⟨named, hsession, hname, hsubset⟩ :=
          window_in_named hnamed hsub (hbatch id List.mem_cons_self) hwindow
        obtain ⟨a, ha, hfirst⟩ := hwindow.head
        obtain ⟨b, hb, hlast⟩ := hwindow.final
        have hlow := spans_of_mem hsession (hsubset a (List.mem_of_mem_head? ha))
        have hhigh := spans_of_mem hsession (hsubset b (List.mem_of_mem_getLast? hb))
        exact ⟨hin.2, named, hsession, hname, hlow.between hhigh (by omega) (by omega)⟩

/-- The start of a session that is not named is not the start of a window. -/
theorem ne_start_of_not_named (hsub : ∀ r ∈ t.rows, r ∈ whole.rows) {id first last : Int} (hid : id ∈ ids)
    {session : List (Sample β)} (h : IsWindow t id first last session) {other : List (Sample β)}
    (hother : other ∈ whole.sessions) (hunnamed : ¬ Named ids other) {a : Sample β} (ha : a ∈ other.head?) :
    a.ts ≠ first := by
  rintro rfl
  obtain ⟨named, hsession, hname, hsubset⟩ := window_in_named hnamed hsub hid h
  obtain ⟨b, hb, hts⟩ := h.head
  have hbnamed := hsubset b (List.mem_of_mem_head? hb)
  rw [Table.sessions, groupSessions_eq_gapRuns] at hsession hother
  obtain ⟨rest, rfl⟩ := List.head?_eq_some_iff.mp ha
  obtain ⟨first, tail, rfl⟩ := List.exists_cons_of_ne_nil (ne_nil_of_run hsession)
  -- the window's first row begins a session, so it begins the named one
  have hstart := isRunStart_of_run whole.increasing_charging hother
  rw [← hts] at hstart
  have hfirst := eq_head_of_isRunStart whole.increasing_charging hsession hbnamed hstart
  obtain ⟨first', hfirst', hmem⟩ := hname
  obtain rfl : first = first' := by simpa using hfirst'
  refine hunnamed ⟨a, rfl, ?_⟩
  rw [← hts, hfirst]
  exact hmem

/-- Every other session keeps its metadata. -/
theorem metadata_of_not_named (chargeId : Int → Text) (now : Int) (batch : List Int)
    (hbatch : ∀ id ∈ batch, id ∈ ids) (p : Progress β) (hsub : ∀ r ∈ p.tables.telemetry.rows, r ∈ whole.rows)
    {other : List (Sample β)} (hother : other ∈ whole.sessions) (hunnamed : ¬ Named ids other) {a : Sample β}
    (ha : a ∈ other.head?) :
    (batch.foldl (deleteId chargeId now) p).tables.metadata a.ts = p.tables.metadata a.ts := by
  induction batch generalizing p with
  | nil => rfl
  | cons id batch ih =>
    rw [List.foldl_cons, ih (fun id hid => hbatch id (List.mem_cons_of_mem _ hid))]
    · unfold deleteId
      split
      · rfl
      · rename_i first last hwindow
        obtain ⟨session, hsession⟩ := exists_isWindow hwindow
        have hne := ne_start_of_not_named hnamed hsub (hbatch id List.mem_cons_self) hsession hother hunnamed ha
        unfold Tables.deleteSession Tables.metadata
        simp only [Function.update_of_ne hne, AList.lookup_insert_ne hne]
    · intro r hr
      rw [deleteId_telemetry] at hr
      exact hsub r (rows_cutId_subset _ id r hr)

/-- After the request nothing is left in the reach of an id. -/
theorem loadChargeRows_foldl_cutId {id : Int} (hid : id ∈ ids) :
    loadChargeRows (ids.foldl cutId whole) id (some (id + reachSecs)) = [] := by
  refine List.eq_nil_iff_forall_not_mem.mpr fun x hx => ?_
  obtain ⟨hleft, hlow, hreach⟩ := mem_loadChargeRows.mp hx
  have hreach := hreach _ rfl
  obtain ⟨named, hsession, hmem, first, hfirst, hstart⟩ := hnamed id hid x
    (mem_loadChargeRows.mpr ⟨charging_foldl_cutId_subset hleft, hlow, fun u hu => by
      rw [← Option.some.inj hu]
      exact hreach⟩)
  rw [Table.sessions, groupSessions_eq_gapRuns] at hsession
  obtain ⟨rest, rfl⟩ := List.head?_eq_some_iff.mp hfirst
  have hbelow := (whole.increasing_charging.run hsession).head_le hmem
  -- the later of the id and the session's own id reaches the row from inside the session
  by_cases hle : first.ts ≤ id
  · exact not_mem_foldl_cutId ids whole hsession hid hle hmem hlow hreach hleft
  · exact not_mem_foldl_cutId ids whole hsession hstart (le_refl _) hmem hbelow (by omega) hleft

end

/-- Ids with nothing in their reach change nothing. -/
theorem foldl_deleteId_eq_self (chargeId : Int → Text) (now : Int) (ids : List Int) (p : Progress β)
    (h : ∀ id ∈ ids, loadChargeRows p.tables.telemetry id (some (id + reachSecs)) = []) :
    ids.foldl (deleteId chargeId now) p = p := by
  induction ids with
  | nil => rfl
  | cons id ids ih =>
    have hsame : deleteId chargeId now p id = p := by
      unfold deleteId
      rw [sessionWindow_eq_none.mpr (h id List.mem_cons_self)]
    rw [List.foldl_cons, hsame]
    exact ih fun id hid => h id (List.mem_cons_of_mem _ hid)

/-- Ids that change nothing had nothing in their reach. -/
theorem loadChargeRows_of_foldl_cutId (ids : List Int) (t : Table β) (h : ids.foldl cutId t = t) {id : Int}
    (hid : id ∈ ids) : loadChargeRows t id (some (id + reachSecs)) = [] := by
  induction ids with
  | nil => simp at hid
  | cons next ids ih =>
    rw [List.foldl_cons] at h
    rcases cutId_cases t next with ⟨hnone, heq⟩ | ⟨first, last, session, hwindow, heq⟩
    · rw [heq] at h
      rcases List.mem_cons.mp hid with rfl | hid
      · exact hnone
      · exact ih h hid
    · -- the window's first row is gone, and no id brings a row back
      obtain ⟨a, ha, hfirst⟩ := hwindow.head
      have ha := List.mem_of_mem_head? ha
      obtain ⟨hrow, hactive⟩ := Table.mem_charging.mp (hwindow.mem ha).1
      have hleft : a ∈ (cutId t next).rows := rows_foldl_cutId_subset ids _ a (by rw [h]; exact hrow)
      rw [heq] at hleft
      refine absurd ?_ (Table.mem_delete.mp hleft).2
      unfold inWindow
      rw [Sample.chargeBearing_of_active hactive, decide_eq_true (le_of_eq hfirst.symm),
        decide_eq_true (hwindow.le_last ha)]
      rfl

/-- **Bulk deletion removes only the named sessions exactly when every charging row in the reach of an id
belongs to a named session.** -/
theorem bulkDelete_removesOnlyNamed_iff (chargeId : Int → Text) (now : Int) (ids : List Int) (s : Tables β) :
    RemovesOnlyNamed chargeId now ids s ↔ RowsAreNamed ids s.telemetry := by
  have hafter : (bulkDelete chargeId now ids s).tables.telemetry = ids.foldl cutId s.telemetry :=
    foldl_deleteId_telemetry chargeId now ids ⟨s, 0, 0⟩
  constructor
  · intro h id hid r hr
    obtain ⟨hmem, hlow, hreach⟩ := mem_loadChargeRows.mp hr
    obtain ⟨hrow, hactive⟩ := Table.mem_charging.mp hmem
    by_cases hleft : r ∈ (ids.foldl cutId s.telemetry).rows
    · -- a second request would delete it
      have hagain := congrArg Tables.telemetry (h.again now)
      rw [bulkDelete, foldl_deleteId_telemetry, hafter] at hagain
      have hnone := loadChargeRows_of_foldl_cutId ids _ hagain hid
      have hload : r ∈ loadChargeRows (ids.foldl cutId s.telemetry) id (some (id + reachSecs)) :=
        mem_loadChargeRows.mpr ⟨Table.mem_charging.mpr ⟨hleft, hactive⟩, hlow, hreach⟩
      rw [hnone] at hload
      simp at hload
    · obtain ⟨-, session, hsession, hname, ⟨first, hfirst, hfirstle⟩, last, hlast, hlastle⟩ :=
        h.rows r hrow (by rw [hafter]; exact hleft)
      refine ⟨session, hsession, ?_, hname⟩
      rw [Table.sessions, groupSessions_eq_gapRuns] at hsession
      exact mem_run_of_between s.telemetry.increasing_charging hsession (List.mem_of_mem_head? hfirst)
        (List.mem_of_mem_getLast? hlast) hmem hfirstle hlastle
  · intro hnamed
    refine ⟨fun r hr hgone => ?_, fun session hsession hunnamed first hfirst => ?_, fun later => ?_⟩
    · rw [hafter] at hgone
      exact deleted_in_named hnamed ids (fun id hid => hid) (fun r hr => hr) hr hgone
    · exact metadata_of_not_named hnamed chargeId now ids (fun id hid => hid) ⟨s, 0, 0⟩ (fun r hr => hr) hsession
        hunnamed hfirst
    · have hsame := foldl_deleteId_eq_self chargeId later ids ⟨(bulkDelete chargeId now ids s).tables, 0, 0⟩
        fun id hid => by
          rw [hafter]
          exact loadChargeRows_foldl_cutId hnamed hid
      rw [bulkDelete, hsame]

/-- Two sessions of one row each, on the same day. -/
def twoSessions : Tables Unit where
  telemetry := ⟨[⟨1000, none, some 7, none, ()⟩, ⟨20000, none, some 11, none, ()⟩], by
    refine List.pairwise_cons.mpr ⟨fun r hr => ?_, List.pairwise_singleton _ _⟩
    rw [List.mem_singleton.mp hr]
    decide⟩
  tags := fun _ => []
  costs := fun _ => none
  outbox := ∅
  uploads := fun _ => none
  dirty := fun _ => none

/-- The request for the first session, sent twice, deletes the second session as well: the id of the deleted
session now stands for the next one. -/
theorem bulkDelete_again_deletes_next : ¬ RemovesOnlyNamed (fun _ => []) 0 [1000] twoSessions := by
  intro h
  have hagain := congrArg (fun s => s.telemetry.rows.length) (h.again 0)
  have hfirst : (bulkDelete (fun _ => []) 0 [1000] twoSessions).tables.telemetry.rows.length = 1 := rfl
  have hsecond : (bulkDelete (fun _ => []) 0 [1000]
      (bulkDelete (fun _ => []) 0 [1000] twoSessions).tables).tables.telemetry.rows.length = 0 := rfl
  rw [hsecond, hfirst] at hagain
  exact absurd hagain (by decide)

end SentryUsb.Charging
