import SentryUsb.Rates.RateIntent
import SentryUsb.Sync.ScopedTagEdits
import SentryUsb.Sync.ConditionalDrive
import SentryUsb.Sync.ConditionalCharge

/-! # The tables of the edit queue

The queues of all documents share one clock and three tables: the dirty rows, the recorded operations, and up to where
operations were never recorded (`mutable_dirty`, `mutable_intent_events`, `mutable_intent_state`).

* **`IntentTables`** — the tables, with what holds between them;
* **`IntentTables.markMutableDirtyAt`**, **`IntentTables.record`**, **`IntentTables.confirm`** — the operations;
* **`IntentTables.queue`** — one document's queue: **`queue_edit`**, **`queue_confirm`**;
* **`IntentLog`** — the tables with the edits made so far;
* **`replay`**, **`ReplayedCharge`**, **`ReplayedDrive`** — what a confirmation leaves: **`confirm_replays`**;
* **`confirm_keeps_untracked`** — what it does not replay. -/

namespace SentryUsb.Sync

open Library

/-! ## Documents -/

/-- What is synced. -/
inductive Kind where
  | drive
  | charge
  | rate

/-- The order of kinds. -/
def Kind.rank : Kind → Nat
  | .drive => 0
  | .charge => 1
  | .rate => 2

/-- A document: its kind, and its key in that kind. -/
structure DocKey where
  kind : Kind
  key : Text

/-- Documents in order. -/
def DocKey.place (k : DocKey) : Nat ×ₗ Text := toLex (k.kind.rank, k.key)

theorem DocKey.place_injective : Function.Injective DocKey.place := by
  rintro ⟨a, s⟩ ⟨b, t⟩ h
  obtain ⟨hrank, rfl⟩ := Prod.mk.inj (toLex.injective h)
  cases a <;> cases b <;> simp_all [Kind.rank]

instance : LinearOrder DocKey := LinearOrder.lift' DocKey.place DocKey.place_injective

/-- The operations of a kind. -/
def Kind.Edit (N : Type) : Kind → Type
  | .drive => TagEdit
  | .charge => Charge.ChargeEdit
  | .rate => Rates.Edit N

/-! ## The tables -/

/-- The newest generation: of the clock, or of the rows where it was never set. -/
def lastGeneration (clock : Option Int) (dirty : SortedMap DocKey Int) : Int :=
  clock.getD (((dirty.entries.map Prod.snd).max?).getD 0)

/-- The tables. Every recorded operation is at or below its document's dirty generation, and every generation at or below
the newest. -/
structure IntentTables (N : Type) where
  clock : Option Int
  dirty : SortedMap DocKey Int
  state : DocKey → Option (Option Int)
  events : (k : DocKey) → List (Int × k.kind.Edit N)
  queued : ∀ k, ∀ e ∈ events k, ∃ d, dirty.get k = some d ∧ e.1 ≤ d
  ticked : ∀ k d, dirty.get k = some d → d ≤ lastGeneration clock dirty

/-- The largest number of 64 bits. -/
def i64Max : Int := 2 ^ 63 - 1

/-- Without a clock every row is at or below the newest. -/
theorem le_lastGeneration_none {dirty : SortedMap DocKey Int} {k : DocKey} {d : Int} (h : dirty.get k = some d) :
    d ≤ lastGeneration none dirty := by
  have hmem : d ∈ dirty.entries.map Prod.snd := List.mem_map.mpr ⟨(k, d), SortedMap.mem_entries.mpr h, rfl⟩
  obtain ⟨m, hm⟩ : ∃ m, (dirty.entries.map Prod.snd).max? = some m := by
    cases hmax : (dirty.entries.map Prod.snd).max? with
    | none =>
      rw [List.max?_eq_none_iff.mp hmax] at hmem
      simp at hmem
    | some m => exact ⟨m, rfl⟩
  rw [lastGeneration, Option.getD_none, hm, Option.getD_some]
  exact (List.max?_eq_some_iff.mp hm).2 d hmem

namespace IntentTables

variable {N : Type}

/-- No row. -/
def empty : IntentTables N :=
  ⟨none, SortedMap.empty, fun _ => none, fun _ => [], fun _ e he => absurd he List.not_mem_nil, fun k d h => by simp at h⟩

variable (t : IntentTables N)

/-- The newest generation. -/
def last : Int := lastGeneration t.clock t.dirty

/-- The generation of an edit made now. -/
def nextGeneration (now : Int) : Int := max now (t.last + 1)

theorem last_lt_nextGeneration (now : Int) : t.last < t.nextGeneration now := by
  unfold nextGeneration
  omega

/-- Mark a document dirty at a new generation; it fails when the clock is exhausted (`mark_mutable_dirty_at`). -/
def markMutableDirtyAt (k : DocKey) (now : Int) : Option (IntentTables N) :=
  if t.last + 1 ≤ i64Max then
    some {
      clock := some (t.nextGeneration now)
      dirty := t.dirty.insert k (t.nextGeneration now)
      state := t.state
      events := t.events
      queued := by
        intro k' e he
        obtain ⟨d, hd, hle⟩ := t.queued k' e he
        rw [SortedMap.get_insert]
        by_cases hk : k' = k
        · have hlast := t.ticked k' d hd
          have hlt := t.last_lt_nextGeneration now
          rw [if_pos hk]
          exact ⟨_, rfl, le_of_lt (lt_of_le_of_lt (le_trans hle hlast) hlt)⟩
        · rw [if_neg hk]
          exact ⟨d, hd, hle⟩
      ticked := by
        intro k' d hd
        rw [SortedMap.get_insert] at hd
        show d ≤ t.nextGeneration now
        split at hd
        · rw [← Option.some.inj hd]
        · exact le_of_lt (lt_of_le_of_lt (t.ticked k' d hd) (t.last_lt_nextGeneration now)) }
  else none

/-- Record an operation at the document's generation; a queue that was dirty before its first recorded operation is
untracked up to there (`record`). -/
def record (k : DocKey) (prior : Option Int) (edit : k.kind.Edit N) : Option (IntentTables N) :=
  match hd : t.dirty.get k with
  | some d =>
    if ∀ e ∈ t.events k, e.1 ≠ d then
      some { t with
        state := Function.update t.state k (some ((t.state k).getD prior))
        events := Function.update t.events k (t.events k ++ [(d, edit)])
        queued := by
          intro k' e he
          by_cases hk : k' = k
          · subst hk
            rw [Function.update_self] at he
            rcases List.mem_append.mp he with he | he
            · exact t.queued k' e he
            · exact ⟨d, hd, by rw [List.mem_singleton.mp he]⟩
          · rw [Function.update_of_ne hk] at he
            exact t.queued k' e he }
    else none
  | none => none

/-- A local edit: marked and recorded in one transaction. -/
def edit (k : DocKey) (now : Int) (e : k.kind.Edit N) : Option (IntentTables N) :=
  (t.markMutableDirtyAt k now).bind fun marked => marked.record k (t.dirty.get k) e

/-- Delete a document's row, and with it its operations. -/
def drop (k : DocKey) : IntentTables N where
  clock := t.clock
  dirty := t.dirty.remove k
  state := Function.update t.state k none
  events := Function.update t.events k []
  queued := by
    intro k' e he
    by_cases hk : k' = k
    · subst hk
      rw [Function.update_self] at he
      simp at he
    · rw [Function.update_of_ne hk] at he
      rw [SortedMap.get_remove, if_neg hk]
      exact t.queued k' e he
  ticked := by
    intro k' d hd
    cases hclock : t.clock with
    | none => exact le_lastGeneration_none hd
    | some c =>
      rw [SortedMap.get_remove] at hd
      split at hd
      · simp at hd
      · have hle := t.ticked k' d hd
        rw [hclock] at hle
        exact hle

/-- Retire the operations up to a generation (`retire`). -/
def retire (k : DocKey) (through : Int) : IntentTables N :=
  { t with
    state := Function.update t.state k ((t.state k).map fun at? => at?.filter fun l => decide (through < l))
    events := Function.update t.events k ((t.events k).filter fun e => decide (through < e.1))
    queued := by
      intro k' e he
      by_cases hk : k' = k
      · subst hk
        rw [Function.update_self] at he
        exact t.queued k' e (List.mem_filter.mp he).1
      · rw [Function.update_of_ne hk] at he
        exact t.queued k' e he }

/-- What a confirmation does to a queue at its generation or newer: the operations up to it go, and the row if no newer
edit moved it. -/
def confirm (k : DocKey) (through : Int) : IntentTables N :=
  if (t.dirty.get k).any fun d => decide (through ≤ d) then
    if t.dirty.get k = some through then (t.retire k through).drop k else t.retire k through
  else t

/-- The queue of one document. -/
def queue (k : DocKey) : Queue (k.kind.Edit N) :=
  ⟨t.dirty.get k, t.events k, t.state k, t.last, t.queued k, t.ticked k⟩

/-! ## One queue -/

variable {t} {t' : IntentTables N} {k : DocKey}

theorem markMutableDirtyAt_eq_some {now : Int} (h : t.markMutableDirtyAt k now = some t') :
    t'.clock = some (t.nextGeneration now) ∧ t'.dirty = t.dirty.insert k (t.nextGeneration now) ∧ t'.state = t.state
      ∧ t'.events = t.events := by
  unfold markMutableDirtyAt at h
  split at h
  · obtain rfl := Option.some.inj h
    exact ⟨rfl, rfl, rfl, rfl⟩
  · simp at h

theorem record_eq_some {prior : Option Int} {e : k.kind.Edit N} (h : t.record k prior e = some t') :
    ∃ d, t.dirty.get k = some d ∧ t'.clock = t.clock ∧ t'.dirty = t.dirty
      ∧ t'.state = Function.update t.state k (some ((t.state k).getD prior))
      ∧ t'.events = Function.update t.events k (t.events k ++ [(d, e)]) := by
  unfold record at h
  split at h
  · rename_i d hd
    split at h
    · obtain rfl := Option.some.inj h
      exact ⟨d, hd, rfl, rfl, rfl, rfl⟩
    · simp at h
  · simp at h

/-- What an edit leaves in the tables. -/
theorem edit_eq_some {now : Int} {e : k.kind.Edit N} (h : t.edit k now e = some t') :
    t'.clock = some (t.nextGeneration now) ∧ t'.dirty = t.dirty.insert k (t.nextGeneration now)
      ∧ t'.state = Function.update t.state k (some ((t.state k).getD (t.dirty.get k)))
      ∧ t'.events = Function.update t.events k (t.events k ++ [(t.nextGeneration now, e)]) := by
  obtain ⟨marked, hmark, hrecord⟩ := Option.bind_eq_some_iff.mp h
  obtain ⟨hclock, hdirty, hstate, hevents⟩ := markMutableDirtyAt_eq_some hmark
  obtain ⟨d, hd, hclock', hdirty', hstate', hevents'⟩ := record_eq_some hrecord
  rw [hdirty, SortedMap.get_insert_self] at hd
  obtain rfl := Option.some.inj hd
  rw [hclock', hdirty', hstate', hevents', hclock, hdirty, hstate, hevents]
  exact ⟨rfl, rfl, rfl, rfl⟩

theorem events_drop (t : IntentTables N) (k : DocKey) : (t.drop k).events k = [] := by
  unfold drop
  exact Function.update_self k [] t.events

theorem state_drop (t : IntentTables N) (k : DocKey) : (t.drop k).state k = none := by
  unfold drop
  exact Function.update_self k none t.state

theorem events_retire (t : IntentTables N) (k : DocKey) (through : Int) :
    (t.retire k through).events k = (t.events k).filter fun e => decide (through < e.1) := Function.update_self k _ t.events

theorem state_retire (t : IntentTables N) (k : DocKey) (through : Int) :
    (t.retire k through).state k = (t.state k).map fun at? => at?.filter fun l => decide (through < l) :=
  Function.update_self k _ t.state

theorem events_drop_of_ne {k k' : DocKey} (h : k' ≠ k) : (t.drop k).events k' = t.events k' := by
  unfold drop
  exact Function.update_of_ne h [] t.events

theorem events_retire_of_ne {k k' : DocKey} (h : k' ≠ k) (through : Int) : (t.retire k through).events k' = t.events k' :=
  Function.update_of_ne h _ t.events

/-- Queues are their rows. -/
theorem queue_eq {ε : Type} {q q' : Queue ε} (hdirty : q.dirty = q'.dirty) (hevents : q.events = q'.events)
    (hlegacy : q.legacyThrough = q'.legacyThrough) (hclock : q.clock = q'.clock) : q = q' := by
  cases q
  cases q'
  dsimp only at hdirty hevents hlegacy hclock
  subst hdirty hevents hlegacy hclock
  rfl

/-- **An edit of the tables is an edit of the document's queue.** -/
theorem queue_edit {now : Int} {e : k.kind.Edit N} (h : t.edit k now e = some t') :
    t'.queue k = (t.queue k).record now e := by
  obtain ⟨hclock, hdirty, hstate, hevents⟩ := edit_eq_some h
  refine queue_eq ?_ ?_ ?_ ?_
  · show t'.dirty.get k = some (t.nextGeneration now)
    rw [hdirty, SortedMap.get_insert_self]
  · show t'.events k = t.events k ++ [(t.nextGeneration now, e)]
    rw [hevents, Function.update_self]
  · show t'.state k = some ((t.state k).getD (t.dirty.get k))
    rw [hstate, Function.update_self]
  · show t'.last = t.nextGeneration now
    rw [last, hclock]
    rfl

/-- **A confirmation of the tables is one of the document's queue.** -/
theorem queue_confirm {through : Int} (hclock : t.clock.isSome = true) (hreached : (t.queue k).reached through = true) :
    (t.confirm k through).queue k = (t.queue k).settle through := by
  obtain ⟨c, hc⟩ := Option.isSome_iff_exists.mp hclock
  have hlast : ∀ dirty : SortedMap DocKey Int, lastGeneration t.clock dirty = t.last := by
    intro dirty
    rw [last, hc]
    rfl
  have hqueued : ((t.dirty.get k).any fun d => decide (through ≤ d)) = true := hreached
  unfold confirm
  rw [if_pos hqueued]
  by_cases hdirty : t.dirty.get k = some through
  · rw [if_pos hdirty]
    refine queue_eq ?_ ?_ ?_ (hlast _)
    · show (t.dirty.remove k).get k = if t.dirty.get k = some through then none else t.dirty.get k
      rw [SortedMap.get_remove, if_pos rfl, if_pos hdirty]
    · show ((t.retire k through).drop k).events k = (t.events k).filter fun e => decide (through < e.1)
      rw [events_drop]
      symm
      rw [List.filter_eq_nil_iff]
      intro e he
      obtain ⟨d, hd, hle⟩ := t.queued k e he
      rw [Option.some.inj (hd.symm.trans hdirty)] at hle
      simpa using hle
    · show ((t.retire k through).drop k).state k = if t.dirty.get k = some through then none else _
      rw [state_drop, if_pos hdirty]
  · rw [if_neg hdirty]
    refine queue_eq ?_ ?_ ?_ (hlast _)
    · show t.dirty.get k = if t.dirty.get k = some through then none else t.dirty.get k
      rw [if_neg hdirty]
    · exact events_retire t k through
    · show (t.retire k through).state k = if t.dirty.get k = some through then none else _
      rw [state_retire, if_neg hdirty]
      rfl

end IntentTables

/-! ## The edits made -/

/-- An edit that was made: its document, its generation, and whether its operation was recorded. -/
structure Made where
  doc : DocKey
  generation : Int
  tracked : Bool

/-- The tables, with every edit made so far. -/
structure IntentLog (N : Type) where
  tables : IntentTables N
  made : List Made

/-- What happens to the queues: an edit, an edit whose operation is not recorded, a confirmation of a generation, and the
deletion of a document. -/
inductive IntentStep (N : Type) where
  | edit (k : DocKey) (now : Int) (e : k.kind.Edit N)
  | mark (k : DocKey) (now : Int)
  | confirm (k : DocKey) (through : Int)
  | drop (k : DocKey)

/-- The state a step leaves. -/
def stepIntent {N : Type} (log : IntentLog N) : IntentStep N → Option (IntentLog N)
  | .edit k now e => (log.tables.edit k now e).map fun t => ⟨t, log.made ++ [⟨k, log.tables.nextGeneration now, true⟩]⟩
  | .mark k now => (log.tables.markMutableDirtyAt k now).map fun t => ⟨t, log.made ++ [⟨k, log.tables.nextGeneration now, false⟩]⟩
  | .confirm k through => some { log with tables := log.tables.confirm k through }
  | .drop k => some { log with tables := log.tables.drop k }

/-- A store in which nothing was edited. -/
def IntentLog.start (N : Type) : IntentLog N := ⟨IntentTables.empty, []⟩

/-- **What the tables say of the edits made**: generations increase; the clock is set with the first edit; and a dirty row
stands at its document's last edit, which is recorded there or was not tracked. -/
structure Accounted {N : Type} (log : IntentLog N) : Prop where
  increasing : log.made.Pairwise fun a b => a.generation < b.generation
  below : ∀ m ∈ log.made, m.generation ≤ log.tables.last
  clocked : log.tables.clock = none → log.made = [] ∧ ∀ k, log.tables.dirty.get k = none
  newest : ∀ k d, log.tables.dirty.get k = some d → (∀ m ∈ log.made, m.doc = k → m.generation ≤ d)
    ∧ ((∃ e ∈ log.tables.events k, e.1 = d) ∨ ∃ m ∈ log.made, m.doc = k ∧ m.generation = d ∧ m.tracked = false)

section

variable {N : Type} {log : IntentLog N} {t' : IntentTables N}

/-- A new generation. -/
theorem Accounted.marked (h : Accounted log) {k : DocKey} {now : Int} {tracked : Bool}
    (hclock : t'.clock = some (log.tables.nextGeneration now))
    (hdirty : t'.dirty = log.tables.dirty.insert k (log.tables.nextGeneration now))
    (hevents : ∀ k', k' ≠ k → t'.events k' = log.tables.events k')
    (htracked : tracked = true → ∃ e ∈ t'.events k, e.1 = log.tables.nextGeneration now) :
    Accounted ⟨t', log.made ++ [⟨k, log.tables.nextGeneration now, tracked⟩]⟩ := by
  have hlt := log.tables.last_lt_nextGeneration now
  have hlast : t'.last = log.tables.nextGeneration now := by
    rw [IntentTables.last, hclock]
    rfl
  refine ⟨?_, ?_, fun hnone => ?_, fun k' d hd => ?_⟩
  · refine List.pairwise_append.mpr ⟨h.increasing, List.pairwise_singleton _ _, fun m hm m' hm' => ?_⟩
    rw [List.mem_singleton.mp hm']
    exact lt_of_le_of_lt (h.below m hm) hlt
  · intro m hm
    show m.generation ≤ t'.last
    rw [hlast]
    rcases List.mem_append.mp hm with hm | hm
    · exact le_of_lt (lt_of_le_of_lt (h.below m hm) hlt)
    · rw [List.mem_singleton.mp hm]
  · rw [hclock] at hnone
    simp at hnone
  · have hd : t'.dirty.get k' = some d := hd
    rw [hdirty, SortedMap.get_insert] at hd
    by_cases hk : k' = k
    · subst hk
      rw [if_pos rfl] at hd
      obtain rfl := Option.some.inj hd
      refine ⟨fun m hm _ => ?_, ?_⟩
      · rcases List.mem_append.mp hm with hm | hm
        · exact le_of_lt (lt_of_le_of_lt (h.below m hm) hlt)
        · rw [List.mem_singleton.mp hm]
      · cases htrack : tracked with
        | true => exact Or.inl (htracked htrack)
        | false => exact Or.inr ⟨_, List.mem_append_right _ (List.mem_singleton.mpr rfl), rfl, rfl, rfl⟩
    · rw [if_neg hk] at hd
      obtain ⟨hle, hlast'⟩ := h.newest k' d hd
      refine ⟨fun m hm hdoc => ?_, ?_⟩
      · rcases List.mem_append.mp hm with hm | hm
        · exact hle m hm hdoc
        · rw [List.mem_singleton.mp hm] at hdoc
          exact absurd hdoc.symm hk
      · rcases hlast' with ⟨e, he, heq⟩ | ⟨m, hm, hrest⟩
        · exact Or.inl ⟨e, by rw [show (IntentLog.mk t' (log.made ++ [_])).tables.events k' = _ from hevents k' hk]; exact he, heq⟩
        · exact Or.inr ⟨m, List.mem_append_left _ hm, hrest⟩

/-- Rows and operations that go. -/
theorem Accounted.shrunk (h : Accounted log) (hclock : t'.clock = log.tables.clock)
    (hdirty : ∀ k d, t'.dirty.get k = some d → log.tables.dirty.get k = some d)
    (hevents : ∀ k d, t'.dirty.get k = some d → ∀ e ∈ log.tables.events k, e.1 = d → e ∈ t'.events k) :
    Accounted { log with tables := t' } := by
  refine ⟨h.increasing, fun m hm => ?_, fun hnone => ?_, fun k d hd => ?_⟩
  · have hle := h.below m hm
    show m.generation ≤ lastGeneration t'.clock t'.dirty
    cases hc : log.tables.clock with
    | none =>
      rw [(h.clocked hc).1] at hm
      simp at hm
    | some c =>
      rw [IntentTables.last, hc] at hle
      rw [hclock, hc]
      exact hle
  · have hnone : t'.clock = none := hnone
    rw [hclock] at hnone
    obtain ⟨hmade, hrows⟩ := h.clocked hnone
    refine ⟨hmade, fun k => ?_⟩
    by_contra hsome
    obtain ⟨d, hd⟩ := Option.ne_none_iff_exists'.mp hsome
    have hrow := hdirty k d hd
    rw [hrows k] at hrow
    simp at hrow
  · obtain ⟨hle, hlast⟩ := h.newest k d (hdirty k d hd)
    refine ⟨hle, ?_⟩
    rcases hlast with ⟨e, he, heq⟩ | hmade
    · exact Or.inl ⟨e, hevents k d hd e he heq, heq⟩
    · exact Or.inr hmade

theorem accounted_start : Accounted (IntentLog.start N) where
  increasing := List.Pairwise.nil
  below m hm := absurd hm List.not_mem_nil
  clocked _ := ⟨rfl, fun _ => rfl⟩
  newest k d hd := by simp [IntentLog.start, IntentTables.empty] at hd

/-- A row that is dropped. -/
theorem get_drop {t : IntentTables N} {k k' : DocKey} {d : Int} (h : (t.drop k).dirty.get k' = some d) :
    k' ≠ k ∧ t.dirty.get k' = some d := by
  have h : (t.dirty.remove k).get k' = some d := h
  rw [SortedMap.get_remove] at h
  split at h
  · simp at h
  · rename_i hk
    exact ⟨hk, h⟩

theorem accounted_drop (h : Accounted log) (k : DocKey) : Accounted { log with tables := log.tables.drop k } := by
  refine h.shrunk rfl (fun k' d hd => (get_drop hd).2) fun k' d hd e he _ => ?_
  rw [IntentTables.events_drop_of_ne (get_drop hd).1]
  exact he

theorem accounted_confirm (h : Accounted log) (k : DocKey) (through : Int) :
    Accounted { log with tables := log.tables.confirm k through } := by
  unfold IntentTables.confirm
  split
  · rename_i hreached
    split
    · refine h.shrunk rfl (fun k' d hd => (get_drop hd).2) fun k' d hd e he _ => ?_
      rw [IntentTables.events_drop_of_ne (get_drop hd).1, IntentTables.events_retire_of_ne (get_drop hd).1]
      exact he
    · rename_i hnot
      refine h.shrunk rfl (fun k' d hd => hd) fun k' d hd e he heq => ?_
      by_cases hk : k' = k
      · -- the last operation is newer than what is confirmed
        subst hk
        have hd : log.tables.dirty.get k' = some d := hd
        rw [hd, Option.any_some, decide_eq_true_iff] at hreached
        rw [IntentTables.events_retire]
        refine List.mem_filter.mpr ⟨he, decide_eq_true ?_⟩
        rw [heq]
        exact lt_of_le_of_ne hreached fun heq' => hnot (by rw [hd, heq'])
      · rw [IntentTables.events_retire_of_ne hk]
        exact he
  · exact h

/-- **Every step keeps the account.** -/
theorem accounted_step {log' : IntentLog N} {a : IntentStep N} (h : Accounted log) (hstep : stepIntent log a = some log') :
    Accounted log' := by
  cases a with
  | edit k now e =>
    obtain ⟨t', ht', rfl⟩ := Option.map_eq_some_iff.mp hstep
    obtain ⟨hclock, hdirty, -, hevents⟩ := IntentTables.edit_eq_some ht'
    refine h.marked hclock hdirty (fun k' hk => ?_) fun _ => ⟨(log.tables.nextGeneration now, e), ?_, rfl⟩
    · rw [hevents, Function.update_of_ne hk]
    · rw [hevents, Function.update_self]
      exact List.mem_append_right _ (List.mem_singleton.mpr rfl)
  | mark k now =>
    obtain ⟨t', ht', rfl⟩ := Option.map_eq_some_iff.mp hstep
    obtain ⟨hclock, hdirty, -, hevents⟩ := IntentTables.markMutableDirtyAt_eq_some ht'
    refine h.marked hclock hdirty (fun k' _ => by rw [hevents]) fun hfalse => by simp at hfalse
  | confirm k through =>
    obtain rfl := Option.some.inj hstep
    exact accounted_confirm h k through
  | drop k =>
    obtain rfl := Option.some.inj hstep
    exact accounted_drop h k

/-- **The dirty row that is left**: exactly for an operation newer than what was confirmed, recorded or not. -/
theorem Accounted.dirty_settle (h : Accounted log) {k : DocKey} {through : Int}
    (hreached : (log.tables.queue k).reached through = true) :
    ((log.tables.queue k).settle through).dirty.isSome = true
      ↔ (log.tables.queue k).newer through ≠ []
        ∨ ∃ m ∈ log.made, m.doc = k ∧ through < m.generation ∧ m.tracked = false := by
  obtain ⟨d, hd, hle⟩ : ∃ d, log.tables.dirty.get k = some d ∧ through ≤ d := by
    have hqueued : ((log.tables.dirty.get k).any fun d => decide (through ≤ d)) = true := hreached
    cases hget : log.tables.dirty.get k with
    | none =>
      rw [hget] at hqueued
      simp at hqueued
    | some d =>
      rw [hget] at hqueued
      exact ⟨d, rfl, by simpa using hqueued⟩
  obtain ⟨hlast, hwhich⟩ := h.newest k d hd
  have hleft : ((log.tables.queue k).settle through).dirty.isSome = true ↔ through < d := by
    show (if log.tables.dirty.get k = some through then none else log.tables.dirty.get k).isSome = true ↔ through < d
    rw [hd]
    by_cases heq : d = through
    · rw [if_pos (by rw [heq])]
      simp [heq]
    · rw [if_neg fun hsome => heq (Option.some.inj hsome)]
      exact ⟨fun _ => lt_of_le_of_ne hle (Ne.symm heq), fun _ => rfl⟩
  rw [hleft]
  constructor
  · intro hlt
    rcases hwhich with ⟨e, he, heq⟩ | ⟨m, hm, hdoc, heq, huntracked⟩
    · refine Or.inl (List.ne_nil_of_mem (Queue.mem_newer.mpr ⟨he, ?_⟩))
      rw [heq]
      exact hlt
    · exact Or.inr ⟨m, hm, hdoc, by rw [heq]; exact hlt, huntracked⟩
  · rintro (hnewer | ⟨m, hm, hdoc, hlt, -⟩)
    · obtain ⟨e, he⟩ := List.exists_mem_of_ne_nil _ hnewer
      obtain ⟨hmem, hlt⟩ := Queue.mem_newer.mp he
      obtain ⟨d', hd', hle'⟩ := log.tables.queued k e hmem
      rw [Option.some.inj (hd.symm.trans hd')]
      exact lt_of_lt_of_le hlt hle'
    · exact lt_of_lt_of_le hlt (hlast m hm hdoc)

end

/-! ## Replay -/

/-- Tag operations on a set of tags, in order. -/
def replay (edits : List TagEdit) (tags : Set Text) : Set Text :=
  edits.foldl (fun tags e => tags \ {t | t ∈ e.removed} ∪ {t | t ∈ e.added}) tags

theorem mem_foldl_apply {edits : List TagEdit} {tags : List Text} {t : Text} :
    t ∈ edits.foldl TagEdit.apply tags ↔ t ∈ replay edits {t | t ∈ tags} := by
  induction edits generalizing tags with
  | nil => exact Iff.rfl
  | cons e edits ih =>
    rw [List.foldl_cons, ih]
    have hset : {t | t ∈ TagEdit.apply tags e} = {t | t ∈ tags} \ {t | t ∈ e.removed} ∪ {t | t ∈ e.added} := by
      ext t
      simp [TagEdit.apply]
    rw [hset]
    rfl

/-- What a confirmation leaves of a queue: the operations newer than its generation, and the dirty row exactly if there is
one of them or a newer edit that was not tracked. -/
structure QueueLeft {N : Type} (log : IntentLog N) (k : DocKey) (through : Int) (q : Queue (k.kind.Edit N)) : Prop where
  events : q.events = (log.tables.events k).filter fun e => decide (through < e.1)
  dirty : q.dirty.isSome = true ↔ q.events ≠ [] ∨ ∃ m ∈ log.made, m.doc = k ∧ through < m.generation ∧ m.tracked = false

/-- **What a confirmed charge shows**: the confirmed values with the newer operations on them, unless untracked edits may
be newer, and then what it showed before. -/
structure ReplayedCharge {N : Type} (log : IntentLog N) (key : Text) (s s' : Charge.System) (through : Int)
    (doc : Charge.ChargeDoc) : Prop where
  tags : s.queue.unknownNewer through = false → ∀ t, t ∈ s'.tags
    ↔ t ∈ replay (Charge.tagEdits (s.queue.newer through)) {t | t ∈ doc.tags} ∧ Charge.isReservedTag t = false ∧ t ≠ []
  cost : s.queue.unknownNewer through = false →
    s'.cost = if (s.queue.newer through).any (fun e => !e.2.isTags) then s.cost else doc.cost
  unknown : s.queue.unknownNewer through = true → s'.tags = s.tags ∧ s'.cost = s.cost
  queue : QueueLeft log ⟨.charge, key⟩ through s'.queue

/-- The tags a list of drives shows for one of them, the last entry of several. -/
def shownFor (current : List (Text × List Text)) (drive : Text) : Option (List Text) :=
  ((current.filter fun d => decide (d.1 = drive)).getLast?).map Prod.snd

/-- **What a confirmed drive shows**: the confirmed tags with the newer operations on them, unless untracked edits may be
newer, and then what it showed before. A drive that owes nothing any more shows what the list of current drives says of
it. -/
structure ReplayedDrive {N : Type} (log : IntentLog N) (drive : Text) (st st' : Drive.Store) (through : Int)
    (confirmed : List Text) (current : List (Text × List Text)) : Prop where
  tags : (st.queue drive).unknownNewer through = false → shownFor current drive = none ∨ (st'.queue drive).dirty.isSome = true →
    ∀ t, t ∈ st'.tags drive
      ↔ t ∈ replay (((st.queue drive).newer through).map Prod.snd) {t | t ∈ confirmed} ∧ t ≠ []
  shown : ∀ tags, shownFor current drive = some tags → (st'.queue drive).dirty = none →
    ∀ t, t ∈ st'.tags drive ↔ t ∈ tags ∧ t ≠ []
  unknown : (st.queue drive).unknownNewer through = true → st'.tags drive = st.tags drive
  queue : QueueLeft log ⟨.drive, drive⟩ through (st'.queue drive)

section

variable {N : Type} {log : IntentLog N}

theorem Accounted.queueLeft (h : Accounted log) {k : DocKey} {through : Int}
    (hreached : (log.tables.queue k).reached through = true) :
    QueueLeft log k through ((log.tables.queue k).settle through) :=
  ⟨rfl, h.dirty_settle hreached⟩

theorem confirmCharge_replays (h : Accounted log) {key : Text} {s s' : Charge.System}
    (hqueue : s.queue = log.tables.queue ⟨.charge, key⟩) {through : Int} {upload : Charge.Upload} {doc : Charge.ChargeDoc}
    {receipt : Option Charge.Attempt} (hconfirm : s.confirm through upload doc receipt = some s') :
    ReplayedCharge log key s s' through doc := by
  unfold Charge.System.confirm at hconfirm
  split at hconfirm
  · simp at hconfirm
  · split at hconfirm
    · simp at hconfirm
    · rename_i hreached
      have hreached : s.queue.reached through = true := by
        by_contra hnot
        exact hreached (Or.inr (Bool.eq_false_of_not_eq_true hnot))
      obtain rfl := Option.some.inj hconfirm
      refine ⟨fun hknown t => ?_, fun hknown => ?_, fun hunknown => ?_, ?_⟩
      · dsimp only
        rw [hknown, if_neg Bool.false_ne_true, List.mem_filter, Charge.mergeTags, mem_tagSet, mem_foldl_apply]
        simp
      · dsimp only
        rw [hknown, Bool.false_or]
      · dsimp only
        rw [hunknown, if_pos rfl, Bool.true_or, if_pos rfl]
        exact ⟨rfl, rfl⟩
      · dsimp only
        rw [hqueue] at hreached ⊢
        exact h.queueLeft hreached

/-- Refreshing drives leaves the queues, and shows a drive without queued edits as the list says. -/
theorem refresh_spec (current : List (Text × List Text)) (st : Drive.Store) (drive : Text) :
    (current.foldl Drive.Store.refresh st).queue = st.queue
      ∧ ((st.queue drive).dirty.isSome = true → (current.foldl Drive.Store.refresh st).tags drive = st.tags drive)
      ∧ ((st.queue drive).dirty = none → (current.foldl Drive.Store.refresh st).tags drive
        = ((shownFor current drive).map fun tags => tagSet (tags.filter fun t => decide (t ≠ []))).getD (st.tags drive)) := by
  induction current using List.reverseRecOn with
  | nil => exact ⟨rfl, fun _ => rfl, fun _ => rfl⟩
  | append_singleton l d ih =>
    obtain ⟨hqueue, hdirty, hclean⟩ := ih
    rw [List.foldl_append, List.foldl_cons, List.foldl_nil]
    have hshown : shownFor (l ++ [d]) drive = if d.1 = drive then some d.2 else shownFor l drive := by
      unfold shownFor
      rw [List.filter_append]
      by_cases hd : d.1 = drive
      · simp [hd]
      · simp [hd]
    generalize l.foldl Drive.Store.refresh st = mid at hqueue hdirty hclean ⊢
    unfold Drive.Store.refresh
    rw [hqueue]
    by_cases hother : d.1 = drive
    · split
      · rename_i hqueued
        rw [hother] at hqueued
        exact ⟨hqueue, hdirty, fun hnone => by rw [hnone] at hqueued; simp at hqueued⟩
      · rename_i hqueued
        rw [hother] at hqueued
        refine ⟨rfl, fun h => absurd h hqueued, fun _ => ?_⟩
        dsimp only
        rw [hshown, if_pos hother, ← hother, Function.update_self]
        rfl
    · rw [hshown, if_neg hother]
      split
      · exact ⟨hqueue, hdirty, hclean⟩
      · refine ⟨rfl, fun h => ?_, fun h => ?_⟩
        · dsimp only
          rw [Function.update_of_ne (Ne.symm hother)]
          exact hdirty h
        · dsimp only
          rw [Function.update_of_ne (Ne.symm hother)]
          exact hclean h

/-- Where untracked edits may be newer, a newer edit moved the dirty row. -/
theorem dirty_of_unknownNewer {ε : Type} {q : Queue ε} {through : Int} (h : q.unknownNewer through = true) :
    (q.settle through).dirty.isSome = true := by
  unfold Queue.unknownNewer at h
  rw [Bool.and_eq_true] at h
  show (if q.dirty = some through then none else q.dirty).isSome = true
  cases hd : q.dirty with
  | none =>
    rw [hd] at h
    simp at h
  | some d =>
    rw [hd, Option.any_some, decide_eq_true_iff] at h
    rw [if_neg fun heq => absurd h.1 (by rw [Option.some.inj heq]; exact lt_irrefl _)]
    rfl

/-- Installing keys changes neither tags nor queues. -/
theorem installKeys_same {st keyed : Drive.Store} {sources : List Drive.VerifiedKey} (h : st.installKeys sources = some keyed) :
    keyed.tags = st.tags ∧ keyed.queue = st.queue := by
  have hone : ∀ (st : Drive.Store) (v : Drive.VerifiedKey),
      (st.installKey v).tags = st.tags ∧ (st.installKey v).queue = st.queue := by
    intro st v
    unfold Drive.Store.installKey
    split
    · split
      · exact ⟨rfl, rfl⟩
      · exact ⟨rfl, rfl⟩
    · exact ⟨rfl, rfl⟩
  have hall : ∀ (sources : List Drive.VerifiedKey) (st : Drive.Store),
      (sources.foldl Drive.Store.installKey st).tags = st.tags ∧ (sources.foldl Drive.Store.installKey st).queue = st.queue := by
    intro sources
    induction sources with
    | nil => exact fun st => ⟨rfl, rfl⟩
    | cons v sources ih =>
      intro st
      obtain ⟨htags, hqueue⟩ := ih (st.installKey v)
      exact ⟨htags.trans (hone st v).1, hqueue.trans (hone st v).2⟩
  unfold Drive.Store.installKeys at h
  split at h
  · obtain rfl := Option.some.inj h
    exact hall sources st
  · simp at h

theorem confirmDrive_replays (h : Accounted log) {drive : Text} {st st' : Drive.Store}
    (hqueue : st.queue drive = log.tables.queue ⟨.drive, drive⟩) {through revision : Int} {confirmed : List Text}
    {sources : List Drive.VerifiedKey} {receipt : Option Drive.Attempt} {current : List (Text × List Text)}
    (hconfirm : st.confirmDrive drive through revision confirmed sources receipt current = some (st', true)) :
    ReplayedDrive log drive st st' through confirmed current := by
  unfold Drive.Store.confirmDrive at hconfirm
  split at hconfirm
  · simp at hconfirm
  · split at hconfirm
    · simp at hconfirm
    · split at hconfirm
      · simp at hconfirm
      · rename_i hreached
        have hreached : (st.queue drive).reached through = true := Bool.eq_true_of_not_eq_false hreached
        obtain ⟨keyed, hkeyed, heq⟩ := Option.map_eq_some_iff.mp hconfirm
        obtain ⟨htags, hqueues⟩ := installKeys_same hkeyed
        obtain rfl := (Prod.mk.inj heq).1
        clear heq hconfirm
        -- the store before the current drives are refreshed
        generalize hbefore : Drive.Store.retire _ drive through = before
        have hqueueBefore : before.queue drive = (log.tables.queue ⟨.drive, drive⟩).settle through := by
          rw [← hbefore, ← hqueue, ← hqueues]
          exact Function.update_self drive _ keyed.queue
        have htagsBefore : before.tags drive = if (st.queue drive).unknownNewer through then st.tags drive
            else tagSet ((((st.queue drive).newer through).map Prod.snd).foldl TagEdit.apply confirmed
              |>.filter fun t => decide (t ≠ [])) := by
          rw [← hbefore]
          exact Function.update_self drive _ keyed.tags
        obtain ⟨hsame, hqueued, hfree⟩ := refresh_spec current before drive
        rw [hqueueBefore] at hqueued hfree
        have hunknown : (st.queue drive).unknownNewer through = true →
            ((log.tables.queue ⟨.drive, drive⟩).settle through).dirty.isSome = true := by
          intro h
          rw [hqueue] at h
          exact dirty_of_unknownNewer h
        refine ⟨fun hknown hwhich t => ?_, fun tags htags hnone t => ?_, fun h => ?_, ?_⟩
        · dsimp only at hwhich ⊢
          rw [hsame, hqueueBefore] at hwhich
          have hshown : (current.foldl Drive.Store.refresh before).tags drive = before.tags drive := by
            rcases hwhich with hlist | hdirty
            · cases hd : ((log.tables.queue ⟨.drive, drive⟩).settle through).dirty with
              | none =>
                rw [hfree hd, hlist]
                rfl
              | some d => exact hqueued (by rw [hd]; rfl)
            · exact hqueued hdirty
          rw [hshown, htagsBefore, hknown, if_neg Bool.false_ne_true, mem_tagSet, List.mem_filter, mem_foldl_apply]
          simp
        · dsimp only at hnone ⊢
          rw [hsame, hqueueBefore] at hnone
          rw [hfree hnone, htags, Option.map_some, Option.getD_some, mem_tagSet, List.mem_filter]
          simp
        · dsimp only
          rw [hqueued (hunknown h), htagsBefore, h, if_pos rfl]
        · dsimp only
          rw [hsame, hqueueBefore]
          rw [hqueue] at hreached
          exact h.queueLeft hreached

end

/-- **In every state that edits, confirmations and deletions lead to, generations increase whatever the wall clock says, and
a confirmation of any generation leaves exactly the newer operations, on the queue and on the values shown.** -/
theorem confirm_replays {N : Type} {log : IntentLog N} (h : Reachable stepIntent (IntentLog.start N) log) :
    (log.made.Pairwise fun a b => a.generation < b.generation)
      ∧ (∀ (key : Text) (s s' : Charge.System), s.queue = log.tables.queue ⟨.charge, key⟩ →
        ∀ (through : Int) (upload : Charge.Upload) (doc : Charge.ChargeDoc) (receipt : Option Charge.Attempt),
          s.confirm through upload doc receipt = some s' → ReplayedCharge log key s s' through doc)
      ∧ ∀ (drive : Text) (st st' : Drive.Store), st.queue drive = log.tables.queue ⟨.drive, drive⟩ →
        ∀ (through revision : Int) (confirmed : List Text) (sources : List Drive.VerifiedKey) (receipt : Option Drive.Attempt)
          (current : List (Text × List Text)),
          st.confirmDrive drive through revision confirmed sources receipt current = some (st', true) →
            ReplayedDrive log drive st st' through confirmed current := by
  have haccounted : Accounted log := h.invariant accounted_start fun _ _ _ hlog _ hstep => accounted_step hlog hstep
  refine ⟨haccounted.increasing, ?_, ?_⟩
  · intro key s s' hqueue through upload doc receipt hconfirm
    exact confirmCharge_replays haccounted hqueue hconfirm
  · intro drive st st' hqueue through revision confirmed sources receipt current hconfirm
    exact confirmDrive_replays haccounted hqueue hconfirm

/-- A charge of this queue, shown with one tag and uploaded. -/
def chargeOf (queue : Queue Charge.ChargeEdit) : Charge.System where
  tags := [['l']]
  cost := none
  queue := queue
  upload := some ⟨['c'], none, 1⟩
  receipt := none
  cloud _ := none
  log := OperationLog.empty
  requests := []
  responses := []
  nextNonce := 0
  proc := .idle
  made := []
  attempts := []
  writes := []
  reads := []
  unchanged := []

/-- The store of a drive with this queue, shown with one tag. -/
def driveOf (queue : Queue TagEdit) : Drive.Store where
  revision := 0
  routes _ := none
  groups := []
  tags _ := [['l']]
  queue _ := queue
  scope _ := none
  receipt _ := none

/-- A tag is added to a charge and to a drive, and the wall clock steps back for a second tag. -/
def twoEdits : List (IntentStep Nat) :=
  [.edit ⟨.charge, ['7']⟩ 5 (.tags ⟨[['a']], []⟩), .edit ⟨.drive, ['d']⟩ 5 (⟨[['a']], []⟩ : TagEdit),
    .edit ⟨.charge, ['7']⟩ 3 (.tags ⟨[['b']], []⟩)]

/-- The first tag is confirmed; the second is replayed and stays queued. -/
theorem confirm_replays_second_tag :
    ∃ log s', run stepIntent (IntentLog.start Nat) twoEdits = some log
      ∧ (chargeOf (log.tables.queue ⟨.charge, ['7']⟩)).confirm 5 ⟨['c'], none, 1⟩ ⟨[['a']], none, []⟩ none = some s'
      ∧ s'.tags = [['a'], ['b']]
      ∧ ReplayedCharge log ['7'] (chargeOf (log.tables.queue ⟨.charge, ['7']⟩)) s' 5 ⟨[['a']], none, []⟩ := by
  obtain ⟨log, hlog⟩ : ∃ log, run stepIntent (IntentLog.start Nat) twoEdits = some log :=
    Option.isSome_iff_exists.mp (by decide +kernel)
  have hsome : ∀ log ∈ run stepIntent (IntentLog.start Nat) twoEdits,
      ((chargeOf (log.tables.queue ⟨.charge, ['7']⟩)).confirm 5 ⟨['c'], none, 1⟩ ⟨[['a']], none, []⟩ none).isSome = true := by
    decide +kernel
  have hshown : ∀ log ∈ run stepIntent (IntentLog.start Nat) twoEdits,
      ∀ s' ∈ (chargeOf (log.tables.queue ⟨.charge, ['7']⟩)).confirm 5 ⟨['c'], none, 1⟩ ⟨[['a']], none, []⟩ none,
        s'.tags = [['a'], ['b']] := by decide +kernel
  obtain ⟨s', hs'⟩ := Option.isSome_iff_exists.mp (hsome log hlog)
  obtain ⟨-, hcharge, -⟩ := confirm_replays (reachable_of_run hlog)
  exact ⟨log, s', hlog, hs', hshown log hlog s' hs', hcharge ['7'] _ s' rfl 5 _ _ none hs'⟩

/-- An untracked edit of a charge, and a recorded one of a drive. -/
def untrackedEdit : List (IntentStep Nat) :=
  [.mark ⟨.charge, ['7']⟩ 10, .edit ⟨.drive, ['d']⟩ 10 (⟨[['a']], []⟩ : TagEdit)]

/-- **Untracked edits are kept as shown, empty tags are not stored, and a drive without queued edits shows what the list of
current drives says.** -/
theorem confirm_keeps_untracked :
    ∃ log, run stepIntent (IntentLog.start Nat) untrackedEdit = some log
      ∧ log.tables.events ⟨.charge, ['7']⟩ = []
      ∧ (∃ s', (chargeOf (log.tables.queue ⟨.charge, ['7']⟩)).confirm 5 ⟨['c'], none, 1⟩ ⟨[['a']], some (some ⟨⟨4, []⟩, []⟩), []⟩ none
          = some s' ∧ s'.tags = [['l']] ∧ s'.cost = none)
      ∧ (∃ st', (driveOf (log.tables.queue ⟨.drive, ['d']⟩)).confirmDrive ['d'] 11 0 [['a'], []] [] none [] = some (st', true)
          ∧ st'.tags ['d'] = [['a']])
      ∧ ∃ st', (driveOf (log.tables.queue ⟨.drive, ['d']⟩)).confirmDrive ['d'] 11 0 [['a'], []] [] none [(['d'], [['z']])]
          = some (st', true) ∧ st'.tags ['d'] = [['z']] := by
  obtain ⟨log, hlog⟩ : ∃ log, run stepIntent (IntentLog.start Nat) untrackedEdit = some log :=
    Option.isSome_iff_exists.mp (by decide +kernel)
  have hevents : ∀ log ∈ run stepIntent (IntentLog.start Nat) untrackedEdit,
      (log.tables.events ⟨.charge, ['7']⟩).length = 0 := by decide +kernel
  have hcharge : ∀ log ∈ run stepIntent (IntentLog.start Nat) untrackedEdit,
      ((chargeOf (log.tables.queue ⟨.charge, ['7']⟩)).confirm 5 ⟨['c'], none, 1⟩
        ⟨[['a']], some (some ⟨⟨4, []⟩, []⟩), []⟩ none).map (fun s' => (s'.tags, s'.cost)) = some ([['l']], none) := by
    decide +kernel
  have hdrive : ∀ log ∈ run stepIntent (IntentLog.start Nat) untrackedEdit, ∀ current ∈ [[], [(['d'], [['z']])]],
      ((driveOf (log.tables.queue ⟨.drive, ['d']⟩)).confirmDrive ['d'] 11 0 [['a'], []] [] none current).map
        (fun r => (r.2, r.1.tags ['d'])) = some (true, if current = [] then [['a']] else [['z']]) := by decide +kernel
  obtain ⟨s', hs', hshown⟩ := Option.map_eq_some_iff.mp (hcharge log hlog)
  obtain ⟨⟨st₁, ok₁⟩, hst₁, hshown₁⟩ := Option.map_eq_some_iff.mp (hdrive log hlog [] (by decide))
  obtain ⟨⟨st₂, ok₂⟩, hst₂, hshown₂⟩ := Option.map_eq_some_iff.mp (hdrive log hlog [(['d'], [['z']])] (by decide))
  obtain ⟨rfl, htags₁⟩ := Prod.mk.inj hshown₁
  obtain ⟨rfl, htags₂⟩ := Prod.mk.inj hshown₂
  refine ⟨log, hlog, List.length_eq_zero_iff.mp (hevents log hlog), ⟨s', hs', (Prod.mk.inj hshown).1, (Prod.mk.inj hshown).2⟩, ?_, ?_⟩
  · exact ⟨st₁, hst₁, htags₁⟩
  · exact ⟨st₂, hst₂, htags₂⟩

end SentryUsb.Sync
