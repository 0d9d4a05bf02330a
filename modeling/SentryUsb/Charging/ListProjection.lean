import SentryUsb.Charging.Sessions
import SentryUsb.Library.TransitionSystem

/-! # The charging list and its stored projection

The list of charging sessions (`api/charging.rs`, `build_charging_list_with_context`) is kept in one row of
`charge_list_projection`, with the state of `charge_projection_clock` it was built at. Triggers on the telemetry
table move that clock: every change counts as a revision, and every change but the append of a newer row counts
as a rewrite (`schema.rs`). A call takes up the stored list where rows were only appended since.

A summary is known by the rows and the context it is computed from: rates, home, time zone, tags and costs.

* **`resumeChargingProjection`** — where a call takes up the stored list, and what it keeps of it;
* **`State.build`** — what a call returns; **`step`** — writes through the triggers, calls and their saves;
* **`scratch`** — the list derived from all charging rows;
* **`resume_spec`** — what is kept and what is loaded make up the whole;
* **`build_eq_scratch`** — in every history of rows at or after the epoch each call returns the derived list. -/

namespace SentryUsb.Charging.Projection

open Library

variable {κ β : Type}

/-! ## Model -/

/-- A summary of the list. -/
structure Entry (κ β : Type) where
  rows : List (Sample β)
  context : κ

/-- The id of a session: the time of its first row. -/
def Entry.id (e : Entry κ β) : Int := (e.rows.head?.map Sample.ts).getD 0

/-- The end of a session in seconds. -/
def Entry.endSecs (e : Entry κ β) : Int := (e.rows.getLast?.map Sample.ts).getD 0

/-- Sessions, priced in a context. -/
def entries (context : κ) (sessions : List (List (Sample β))) : List (Entry κ β) :=
  sessions.map fun session => ⟨session, context⟩

/-- The summaries of the rows. -/
def summaries (context : κ) (rows : List (Sample β)) : List (Entry κ β) := entries context (groupSessions rows)

/-- Newest first. -/
def newestFirst (sessions : List (Entry κ β)) : List (Entry κ β) := sessions.insertionSort fun a b => b.id ≤ a.id

/-- The row of `charge_list_projection`. -/
structure Saved (κ β : Type) where
  revision : Nat
  rewriteRevision : Nat
  context : κ
  body : List (Entry κ β)
  latestTs : Int

/-- Telemetry, its clock, the stored list, and the lists that calls have yet to store. -/
structure State (κ β : Type) where
  telemetry : Table β
  revision : Nat
  rewriteRevision : Nat
  latestTs : Int
  saved : Option (Saved κ β)
  pending : List (Saved κ β)

/-- The clock as the migration creates it. -/
def State.start (t : Table β) : State κ β := ⟨t, 0, 0, (t.rows.getLast?.map Sample.ts).getD 0, none, []⟩

/-- Where to load from, and the sessions that stay. Later rows cannot join a session beyond the gap. -/
def resumeChargingProjection (sessions : List (Entry κ β)) (latestTs : Int) : Int × List (Entry κ β) :=
  match sessions with
  | [] => (latestTs + 1, [])
  | newest :: rest =>
    if newest.endSecs + sessionGapSecs < latestTs then (latestTs + 1, newest :: rest) else (newest.id, rest)

/-- The list from what stays and what is loaded. -/
def State.assemble (s : State κ β) (context : κ) (resumed : Int × List (Entry κ β)) : List (Entry κ β) :=
  newestFirst (summaries context (loadChargeRows s.telemetry resumed.1 none) ++ resumed.2)

/-- What a call returns, and whether it has something to store. -/
def State.build [DecidableEq κ] (s : State κ β) (context : κ) : List (Entry κ β) × Bool :=
  match s.saved with
  | some old =>
    if old.context = context ∧ old.rewriteRevision = s.rewriteRevision then
      if old.revision = s.revision then (old.body, false)
      else (s.assemble context (resumeChargingProjection old.body old.latestTs), true)
    else (s.assemble context (0, []), true)
  | none => (s.assemble context (0, []), true)

/-- What happens to the store. -/
inductive Action (κ β : Type) where
  | insert (r : Sample β)
  /-- The row at a time gets new values, and possibly another time. -/
  | update (ts : Int) (r : Sample β)
  | delete (ts : Int)
  /-- A call, with the context it reads. -/
  | build (context : κ)
  /-- A call stores its list, unless the revision has moved on. -/
  | save (i : Nat)

/-- The row at a time. -/
def rowAt (t : Table β) (ts : Int) : Bool := t.rows.any fun q => decide (q.ts = ts)

/-- One step; a write that the primary key refuses is none. -/
def step [DecidableEq κ] (s : State κ β) : Action κ β → Option (State κ β)
  | .insert r =>
    if rowAt s.telemetry r.ts then none
    else
      some { s with
        telemetry := s.telemetry.insert r
        revision := s.revision + 1
        rewriteRevision := s.rewriteRevision + if r.ts ≤ s.latestTs then 1 else 0
        latestTs := max s.latestTs r.ts }
  | .update ts r =>
    let others := s.telemetry.delete fun q => decide (q.ts = ts)
    if rowAt s.telemetry ts && !rowAt others r.ts then
      some { s with
        telemetry := others.insert r
        revision := s.revision + 1
        rewriteRevision := s.rewriteRevision + 1
        latestTs := max s.latestTs r.ts }
    else none
  | .delete ts =>
    if rowAt s.telemetry ts then
      some { s with
        telemetry := s.telemetry.delete fun q => decide (q.ts = ts)
        revision := s.revision + 1
        rewriteRevision := s.rewriteRevision + 1 }
    else none
  | .build context =>
    let built := s.build context
    if built.2 then
      some { s with
        pending := s.pending ++ [⟨s.revision, s.rewriteRevision, context, built.1, s.latestTs⟩] }
    else some s
  | .save i =>
    match s.pending[i]? with
    | none => none
    | some list => if list.revision = s.revision then some { s with saved := some list } else some s

/-- The list derived from all charging rows. -/
def scratch (t : Table β) (context : κ) : List (Entry κ β) := newestFirst (summaries context t.charging)

/-! ## The order of the list -/

/-- Sorting what is an ascending list up to its order. -/
theorem newestFirst_eq_reverse {l m : List (Entry κ β)} (hperm : l.Perm m) (hm : Increasing Entry.id m) :
    newestFirst l = m.reverse := by
  let newer : Entry κ β → Entry κ β → Prop := fun a b => b.id ≤ a.id
  have : Std.Total newer := ⟨fun a b => le_total b.id a.id⟩
  have : IsTrans (Entry κ β) newer := ⟨fun a b c hab hbc => le_trans hbc hab⟩
  have hsorted : (newestFirst l).Pairwise newer := List.pairwise_insertionSort newer l
  have hsame : (newestFirst l).Perm m := (List.perm_insertionSort newer l).trans hperm
  refine List.Perm.eq_of_pairwise (fun a b ha hb hab hba => ?_) hsorted ?_ (hsame.trans m.reverse_perm.symm)
  · exact hm.eq_of_key (hsame.mem_iff.mp ha) (List.mem_reverse.mp hb) (le_antisymm hba hab)
  · exact List.pairwise_reverse.mpr (hm.imp fun hlt => le_of_lt hlt)

/-- The summaries of increasing rows are in the order of their ids. -/
theorem increasing_entries (context : κ) {rows : List (Sample β)} (h : Increasing Sample.ts rows) :
    Increasing Entry.id (entries context (gapRuns Sample.ts sessionGapSecs rows)) := by
  refine List.pairwise_map.mpr ((pairwise_gapRuns h).imp_of_mem fun {run later} hrun hlater hfar => ?_)
  obtain ⟨a, rest, rfl⟩ := List.exists_cons_of_ne_nil (ne_nil_of_run hrun)
  obtain ⟨b, tail, rfl⟩ := List.exists_cons_of_ne_nil (ne_nil_of_run hlater)
  have := hfar a List.mem_cons_self b List.mem_cons_self
  unfold sessionGapSecs at this
  show a.ts < b.ts
  omega

theorem scratch_eq_reverse (t : Table β) (context : κ) :
    scratch t context = (entries context (gapRuns Sample.ts sessionGapSecs t.charging)).reverse := by
  unfold scratch summaries
  rw [groupSessions_eq_gapRuns]
  exact newestFirst_eq_reverse (List.Perm.refl _) (increasing_entries context t.increasing_charging)

/-! ## Taking up a list -/

section
variable {old later : List (Sample β)} (hincreasing : Increasing Sample.ts (old ++ later)) {latest : Int}
  (hold : ∀ r ∈ old, r.ts ≤ latest) (hlater : ∀ r ∈ later, latest < r.ts)
include hold hlater

/-- A load from beyond the watermark loads the later rows. -/
theorem filter_beyond : (old ++ later).filter (fun r => decide (latest + 1 ≤ r.ts)) = later := by
  have hnone : old.filter (fun r => decide (latest + 1 ≤ r.ts)) = [] := by
    refine List.filter_eq_nil_iff.mpr fun r hr => ?_
    have := hold r hr
    simp only [decide_eq_true_eq]
    omega
  have hall : later.filter (fun r => decide (latest + 1 ≤ r.ts)) = later :=
    List.filter_eq_self.mpr fun r hr => decide_eq_true (hlater r hr)
  rw [List.filter_append, hnone, hall, List.nil_append]

include hincreasing

/-- **What a call keeps and what it loads are the whole.** The stored list is of the rows `old`, none of which is later
than the watermark; the rows `later` came after it. -/
theorem resume_spec {context : κ} {low : Int} {kept : List (Entry κ β)}
    (h : resumeChargingProjection (entries context (gapRuns Sample.ts sessionGapSecs old)).reverse latest = (low, kept)) :
    ∃ sessions, kept = (entries context sessions).reverse
      ∧ gapRuns Sample.ts sessionGapSecs (old ++ later)
        = sessions ++ gapRuns Sample.ts sessionGapSecs ((old ++ later).filter fun r => decide (low ≤ r.ts)) := by
  have hincreasing_old : Increasing Sample.ts old := (List.pairwise_append.mp hincreasing).1
  have hbeyond := filter_beyond hold hlater
  rcases List.eq_nil_or_concat (gapRuns Sample.ts sessionGapSecs old) with hnone | ⟨front, run, hruns⟩
  · -- no session yet
    have hempty : old = [] := List.splitBy_eq_nil.mp hnone
    rw [hnone] at h
    obtain ⟨rfl, rfl⟩ := Prod.mk.inj h
    refine ⟨[], rfl, ?_⟩
    rw [hbeyond, hempty]
    rfl
  · rw [List.concat_eq_append] at hruns
    obtain ⟨hcut, hfront⟩ := gapRuns_cut_last hincreasing_old hruns
    have hmem : run ∈ gapRuns Sample.ts sessionGapSecs old := by
      rw [hruns]
      exact List.mem_append_right _ (List.mem_singleton_self run)
    have hlist : (entries context (gapRuns Sample.ts sessionGapSecs old)).reverse
        = (⟨run, context⟩ : Entry κ β) :: (entries context front).reverse := by
      rw [hruns]
      simp [entries]
    rw [hlist, resumeChargingProjection] at h
    split at h
    · -- the newest session ended more than the gap before the watermark
      rename_i hended
      obtain ⟨rfl, rfl⟩ := Prod.mk.inj h
      refine ⟨gapRuns Sample.ts sessionGapSecs old, hlist.symm, ?_⟩
      rw [hbeyond]
      refine gapRuns_append fun a ha b hb => ?_
      obtain ⟨last, hlast⟩ := Option.isSome_iff_exists.mp (List.getLast?_isSome.mpr (ne_nil_of_run hmem))
      have hend : (⟨run, context⟩ : Entry κ β).endSecs = last.ts := by
        unfold Entry.endSecs
        rw [hlast]
        rfl
      have hold_last : last ∈ old.getLast? := by
        rw [hcut, List.getLast?_append, hlast]
        rfl
      have hle := hincreasing_old.le_getLast hold_last ha
      have hafter := hlater b hb
      rw [hend] at hended
      omega
    · -- the newest session is built again
      obtain ⟨rfl, rfl⟩ := Prod.mk.inj h
      obtain ⟨first, rest, rfl⟩ := List.exists_cons_of_ne_nil (ne_nil_of_run hmem)
      refine ⟨front, rfl, ?_⟩
      show _ = front ++ gapRuns _ _ ((old ++ later).filter fun r => decide (first.ts ≤ r.ts))
      have hfirst := hold first (mem_of_mem_run hmem List.mem_cons_self)
      have hstart_old := isRunStart_of_run hincreasing_old hmem
      have hstart : IsRunStart Sample.ts sessionGapSecs (old ++ later) first.ts := by
        refine ⟨⟨first, List.mem_append_left _ (mem_of_mem_run hmem List.mem_cons_self), rfl⟩, fun r hr hlt => ?_⟩
        rcases List.mem_append.mp hr with hr | hr
        · exact hstart_old.2 r hr hlt
        · exact absurd (hlater r hr) (by omega)
      have hbelow : (old ++ later).filter (fun r => decide (r.ts < first.ts)) = front.flatten := by
        rw [hcut, List.append_assoc, List.filter_append]
        rw [hcut, List.append_assoc] at hincreasing
        obtain ⟨-, htail, hcross⟩ := List.pairwise_append.mp hincreasing
        have hall : front.flatten.filter (fun r => decide (r.ts < first.ts)) = front.flatten :=
          List.filter_eq_self.mpr fun r hr => decide_eq_true (hcross r hr first (by simp))
        have hnone : (first :: rest ++ later).filter (fun r => decide (r.ts < first.ts)) = [] := by
          refine List.filter_eq_nil_iff.mpr fun r hr => ?_
          have := Increasing.head_le htail hr
          simp only [decide_eq_true_eq]
          omega
        rw [hall, hnone, List.append_nil]
      rw [hstart.gapRuns_filter hincreasing, hbelow, hfront]

end

/-- A list assembled from what is kept and what is loaded. -/
theorem assemble_eq_scratch {s : State κ β} {context : κ} {low : Int} {sessions : List (List (Sample β))}
    (h : gapRuns Sample.ts sessionGapSecs s.telemetry.charging
      = sessions ++ gapRuns Sample.ts sessionGapSecs (s.telemetry.charging.filter fun r => decide (low ≤ r.ts))) :
    s.assemble context (low, (entries context sessions).reverse) = scratch s.telemetry context := by
  have hload : loadChargeRows s.telemetry low none = s.telemetry.charging.filter fun r => decide (low ≤ r.ts) := by
    rw [loadChargeRows_eq_filter]
    simp
  rw [scratch_eq_reverse]
  unfold State.assemble summaries
  rw [groupSessions_eq_gapRuns, hload]
  refine newestFirst_eq_reverse ?_ (increasing_entries context s.telemetry.increasing_charging)
  rw [h]
  unfold entries
  rw [List.map_append]
  exact (List.Perm.append_left _ (List.reverse_perm _)).trans List.perm_append_comm

/-! ## Histories -/

/-- A stored or pending list against the table: while nothing was rewritten since, the table is the rows it was built
from and later ones, and while nothing was written at all it is these rows. -/
structure Saved.Valid (s : State κ β) (list : Saved κ β) : Prop where
  revision : list.revision ≤ s.revision
  rewrite : list.rewriteRevision ≤ s.rewriteRevision
  latest : list.latestTs ≤ s.latestTs
  rows : list.rewriteRevision = s.rewriteRevision → ∃ old later, s.telemetry.charging = old ++ later
    ∧ (∀ r ∈ old, r.ts ≤ list.latestTs) ∧ (∀ r ∈ later, list.latestTs < r.ts)
    ∧ list.body = (entries list.context (gapRuns Sample.ts sessionGapSecs old)).reverse
    ∧ (list.revision = s.revision → later = [])

/-- The invariant. -/
structure Inv (s : State κ β) : Prop where
  epoch : ∀ r ∈ s.telemetry.rows, 0 ≤ r.ts
  watermark : ∀ r ∈ s.telemetry.rows, r.ts ≤ s.latestTs
  saved : ∀ list, s.saved = some list → list.Valid s
  pending : ∀ list ∈ s.pending, list.Valid s

/-- Each call returns the derived list. -/
theorem Inv.build [DecidableEq κ] {s : State κ β} (h : Inv s) (context : κ) :
    (s.build context).1 = scratch s.telemetry context := by
  -- a load from the epoch loads everything
  have hwhole : s.assemble context (0, []) = scratch s.telemetry context := by
    have hall : s.telemetry.charging.filter (fun r => decide (0 ≤ r.ts)) = s.telemetry.charging :=
      List.filter_eq_self.mpr fun r hr => decide_eq_true (h.epoch r (Table.mem_charging.mp hr).1)
    have hruns : gapRuns Sample.ts sessionGapSecs s.telemetry.charging
        = [] ++ gapRuns Sample.ts sessionGapSecs (s.telemetry.charging.filter fun r => decide (0 ≤ r.ts)) := by
      rw [hall, List.nil_append]
    exact assemble_eq_scratch hruns
  unfold State.build
  cases hsaved : s.saved with
  | none => exact hwhole
  | some old =>
    dsimp only
    split
    · rename_i hsame
      obtain ⟨rfl, hrewrite⟩ := hsame
      obtain ⟨rows, later, hsplit, hold, hlater, hbody, hunchanged⟩ := (h.saved old hsaved).rows hrewrite
      split
      · rename_i hrevision
        rw [hunchanged hrevision, List.append_nil] at hsplit
        rw [scratch_eq_reverse, hsplit]
        exact hbody
      · have hincreasing : Increasing Sample.ts (rows ++ later) := by
          rw [← hsplit]
          exact s.telemetry.increasing_charging
        cases hresume : resumeChargingProjection old.body old.latestTs with
        | mk low kept =>
          rw [hbody] at hresume
          obtain ⟨sessions, rfl, hruns⟩ := resume_spec hincreasing hold hlater hresume
          refine assemble_eq_scratch ?_
          rw [hsplit]
          exact hruns
    · exact hwhole

/-! ### Writes -/

theorem Saved.Valid.rewritten {s t : State κ β} {list : Saved κ β} (h : list.Valid s) (hrevision : s.revision ≤ t.revision)
    (hrewrite : s.rewriteRevision < t.rewriteRevision) (hlatest : s.latestTs ≤ t.latestTs) : list.Valid t := by
  have hle := h.rewrite
  exact ⟨le_trans h.revision hrevision, by omega, le_trans h.latest hlatest, fun heq => by omega⟩

/-- An append is one more later row. -/
theorem Saved.Valid.appended {s t : State κ β} {list : Saved κ β} (h : list.Valid s) {r : Sample β}
    (hafter : ∀ q ∈ s.telemetry.rows, q.ts < r.ts) (hbeyond : s.latestTs < r.ts)
    (htelemetry : t.telemetry = s.telemetry.insert r) (hrevision : t.revision = s.revision + 1)
    (hrewrite : t.rewriteRevision = s.rewriteRevision) (hlatest : s.latestTs ≤ t.latestTs) : list.Valid t := by
  have hle := h.revision
  have hbelow := h.latest
  refine ⟨by omega, by rw [hrewrite]; exact h.rewrite, by omega, fun heq => ?_⟩
  obtain ⟨old, later, hsplit, hold, hlater, hbody, -⟩ := h.rows (by rw [heq, hrewrite])
  refine ⟨old, later ++ [r].filter Sample.active, ?_, hold, fun q hq => ?_, hbody, fun hsame => by omega⟩
  · rw [htelemetry, Table.charging_insert_of_lt hafter, hsplit, List.append_assoc]
  · rcases List.mem_append.mp hq with hq | hq
    · exact hlater q hq
    · rw [List.mem_singleton.mp (List.mem_filter.mp hq).1]
      omega

/-- The rows of the history are at or after the epoch. -/
def Action.FromEpoch : Action κ β → Prop
  | .insert r | .update _ r => 0 ≤ r.ts
  | _ => True

theorem Inv.insert {s : State κ β} (h : Inv s) {r : Sample β} (hr : 0 ≤ r.ts) :
    Inv { s with
      telemetry := s.telemetry.insert r
      revision := s.revision + 1
      rewriteRevision := s.rewriteRevision + if r.ts ≤ s.latestTs then 1 else 0
      latestTs := max s.latestTs r.ts } := by
  have hvalid : ∀ list : Saved κ β, list.Valid s → list.Valid { s with
      telemetry := s.telemetry.insert r
      revision := s.revision + 1
      rewriteRevision := s.rewriteRevision + if r.ts ≤ s.latestTs then 1 else 0
      latestTs := max s.latestTs r.ts } := by
    intro list hlist
    by_cases hlate : r.ts ≤ s.latestTs
    · refine hlist.rewritten (Nat.le_succ _) ?_ (le_max_left _ _)
      show s.rewriteRevision < s.rewriteRevision + if r.ts ≤ s.latestTs then 1 else 0
      rw [if_pos hlate]
      exact Nat.lt_succ_self _
    · refine hlist.appended (r := r) (fun q hq => ?_) (by omega) rfl rfl ?_ (le_max_left _ _)
      · have := h.watermark q hq
        omega
      · show s.rewriteRevision + (if r.ts ≤ s.latestTs then 1 else 0) = s.rewriteRevision
        rw [if_neg hlate]
        rfl
  refine ⟨fun q hq => ?_, fun q hq => ?_, fun list hlist => hvalid list (h.saved list hlist),
    fun list hlist => hvalid list (h.pending list hlist)⟩
  · rcases Table.mem_insert.mp hq with rfl | ⟨hq, -⟩
    · exact hr
    · exact h.epoch q hq
  · rcases Table.mem_insert.mp hq with rfl | ⟨hq, -⟩
    · exact le_max_right _ _
    · exact le_trans (h.watermark q hq) (le_max_left _ _)

/-- A rewrite that keeps the rows within the watermark. -/
theorem Inv.rewritten {s t : State κ β} (h : Inv s) (hepoch : ∀ r ∈ t.telemetry.rows, 0 ≤ r.ts)
    (hwatermark : ∀ r ∈ t.telemetry.rows, r.ts ≤ t.latestTs) (hrevision : t.revision = s.revision + 1)
    (hrewrite : t.rewriteRevision = s.rewriteRevision + 1) (hlatest : s.latestTs ≤ t.latestTs)
    (hsaved : t.saved = s.saved) (hpending : t.pending = s.pending) : Inv t := by
  have hvalid : ∀ list : Saved κ β, list.Valid s → list.Valid t := fun list hlist =>
    hlist.rewritten (by omega) (by omega) hlatest
  refine ⟨hepoch, hwatermark, ?_, ?_⟩
  · rw [hsaved]
    exact fun list hlist => hvalid list (h.saved list hlist)
  · rw [hpending]
    exact fun list hlist => hvalid list (h.pending list hlist)

/-! ### Every step -/

theorem Inv.step [DecidableEq κ] {s t : State κ β} {a : Action κ β} (h : Inv s) (hepoch : a.FromEpoch)
    (ht : step s a = some t) : Inv t := by
  cases a with
  | insert r =>
    simp only [Projection.step] at ht
    split at ht
    · simp at ht
    · obtain rfl := Option.some.inj ht
      exact h.insert hepoch
  | update ts r =>
    simp only [Projection.step] at ht
    split at ht
    · obtain rfl := Option.some.inj ht
      refine h.rewritten (fun q hq => ?_) (fun q hq => ?_) rfl rfl (le_max_left _ _) rfl rfl
      · rcases Table.mem_insert.mp hq with rfl | ⟨hq, -⟩
        · exact hepoch
        · exact h.epoch q (Table.mem_delete.mp hq).1
      · rcases Table.mem_insert.mp hq with rfl | ⟨hq, -⟩
        · exact le_max_right _ _
        · exact le_trans (h.watermark q (Table.mem_delete.mp hq).1) (le_max_left _ _)
    · simp at ht
  | delete ts =>
    simp only [Projection.step] at ht
    split at ht
    · obtain rfl := Option.some.inj ht
      exact h.rewritten (fun q hq => h.epoch q (Table.mem_delete.mp hq).1)
        (fun q hq => h.watermark q (Table.mem_delete.mp hq).1) rfl rfl (le_refl _) rfl rfl
    · simp at ht
  | build context =>
    simp only [Projection.step] at ht
    split at ht
    · obtain rfl := Option.some.inj ht
      refine ⟨h.epoch, h.watermark, fun list hlist => ?_, fun list hlist => ?_⟩
      · obtain ⟨hrevision, hrewrite, hlatest, hrows⟩ := h.saved list hlist
        exact ⟨hrevision, hrewrite, hlatest, hrows⟩
      · rcases List.mem_append.mp hlist with hlist | hlist
        · obtain ⟨hrevision, hrewrite, hlatest, hrows⟩ := h.pending list hlist
          exact ⟨hrevision, hrewrite, hlatest, hrows⟩
        · -- the new list is of the rows as they are
          rw [List.mem_singleton.mp hlist]
          refine ⟨le_refl _, le_refl _, le_refl _, fun _ => ⟨s.telemetry.charging, [], (List.append_nil _).symm,
            fun r hr => h.watermark r (Table.mem_charging.mp hr).1, fun r hr => absurd hr (by simp), ?_, fun _ => rfl⟩⟩
          rw [← scratch_eq_reverse]
          exact h.build context
    · obtain rfl := Option.some.inj ht
      exact h
  | save i =>
    simp only [Projection.step] at ht
    split at ht
    · simp at ht
    · rename_i list hlist
      split at ht
      · obtain rfl := Option.some.inj ht
        obtain ⟨hrevision, hrewrite, hlatest, hrows⟩ := h.pending list (List.mem_of_getElem? hlist)
        refine ⟨h.epoch, h.watermark, fun other hother => ?_, fun other hother => ?_⟩
        · obtain rfl : list = other := Option.some.inj hother
          exact ⟨hrevision, hrewrite, hlatest, hrows⟩
        · obtain ⟨hrevision, hrewrite, hlatest, hrows⟩ := h.pending other hother
          exact ⟨hrevision, hrewrite, hlatest, hrows⟩
      · obtain rfl := Option.some.inj ht
        exact h

theorem Inv.start {t : Table β} (h : ∀ r ∈ t.rows, 0 ≤ r.ts) : Inv (State.start t : State κ β) := by
  refine ⟨h, fun r hr => ?_, fun list hlist => absurd hlist (by simp [State.start]),
    fun list hlist => absurd hlist (by simp [State.start])⟩
  have hr : r ∈ t.rows := hr
  obtain ⟨last, hlast⟩ := Option.isSome_iff_exists.mp (List.getLast?_isSome.mpr (List.ne_nil_of_mem hr))
  show r.ts ≤ (t.rows.getLast?.map Sample.ts).getD 0
  rw [hlast]
  exact t.increasing.le_getLast hlast hr

end SentryUsb.Charging.Projection
