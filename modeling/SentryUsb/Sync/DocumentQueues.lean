import SentryUsb.Sync.IntentTables

/-! # One document among the others

The documents share the tables of the edit queue and their clock. A document sees its own edits, confirmations and deletion,
and of the others only that the clock moves.

* **`Queue.tick`**, **`Queue.mark`**, **`Queue.clear`** — what else happens to a queue;
* **`Queue.see`** — a step as one document sees it;
* **`queue_run`** — after any steps a document's queue is what it makes of what it saw. -/

namespace SentryUsb.Sync

open Library

variable {N : Type}

namespace Queue

variable {ε : Type} (q : Queue ε) (now : Int)

/-- Another document is edited. -/
def tick : Queue ε :=
  { q with
    clock := q.nextGeneration now
    ticked := fun d hd => (q.ticked d hd).trans (q.clock_lt_nextGeneration now).le }

/-- An edit whose operation is not recorded. -/
def mark : Queue ε :=
  { q with
    dirty := some (q.nextGeneration now)
    clock := q.nextGeneration now
    queued := fun _ he => ⟨_, rfl, (le_clock he).trans (q.clock_lt_nextGeneration now).le⟩
    ticked := fun _ hd => (Option.some.inj hd).ge }

/-- The document is deleted. -/
def clear : Queue ε :=
  ⟨none, [], none, q.clock, empty.queued, fun d hd => absurd hd (Option.some_ne_none d).symm⟩

/-- A step as one document sees it. -/
def see (k : DocKey) (q : Queue (k.kind.Edit N)) : IntentStep N → Queue (k.kind.Edit N)
  | .edit k' now e => if h : k' = k then q.record now (h ▸ e) else q.tick now
  | .mark k' now => if k' = k then q.mark now else q.tick now
  | .confirm k' through => if k' = k ∧ q.reached through = true then q.settle through else q
  | .drop k' => if k' = k then q.clear else q

end Queue

section

variable {log log' : IntentLog N} {k k' : DocKey}

/-- Rows that go do not move the clock. -/
theorem Accounted.last_eq (h : Accounted log) {dirty : SortedMap DocKey Int}
    (hdirty : ∀ k d, dirty.get k = some d → log.tables.dirty.get k = some d) :
    lastGeneration log.tables.clock dirty = log.tables.last := by
  unfold IntentTables.last
  cases hclock : log.tables.clock with
  | some c => rfl
  | none =>
    -- without a clock there are no rows
    have hnone : ∀ k, log.tables.dirty.get k = none := (h.clocked hclock).2
    have hempty : ∀ m : SortedMap DocKey Int, (∀ k d, m.get k = some d → log.tables.dirty.get k = some d) →
        m.entries = [] := fun m hm => by
      refine List.eq_nil_iff_forall_not_mem.mpr fun e he => ?_
      have hget := hm e.1 e.2 (SortedMap.mem_entries.mp he)
      rw [hnone] at hget
      exact nomatch hget
    rw [lastGeneration, lastGeneration, hempty dirty hdirty, hempty _ fun _ _ hd => hd]

/-- The row of another document is new. -/
theorem get_insert_of_ne {m : SortedMap DocKey Int} {d : Int} (hne : k' ≠ k) : (m.insert k' d).get k = m.get k := by
  rw [SortedMap.get_insert, if_neg (Ne.symm hne)]

/-- Another document's edit moves the clock. -/
theorem queue_ticked {t t' : IntentTables N} {now : Int} (hclock : t'.clock = some (t.nextGeneration now))
    (hdirty : t'.dirty.get k = t.dirty.get k) (hevents : t'.events k = t.events k) (hstate : t'.state k = t.state k) :
    t'.queue k = (t.queue k).tick now :=
  IntentTables.queue_eq hdirty hevents hstate (congrArg (lastGeneration · t'.dirty) hclock)

/-- The rows of another document do not matter. -/
theorem queue_drop_of_ne (h : Accounted log) {t : IntentTables N} (hclock : t.clock = log.tables.clock)
    (hdirty : t.dirty = log.tables.dirty) (hne : k ≠ k') (hevents : t.events k = log.tables.events k)
    (hstate : t.state k = log.tables.state k) : (t.drop k').queue k = log.tables.queue k := by
  refine IntentTables.queue_eq ?_ ?_ ?_ ?_
  · show (t.dirty.remove k').get k = _
    rw [SortedMap.get_remove, if_neg hne, hdirty]
    rfl
  · exact (IntentTables.events_drop_of_ne hne).trans hevents
  · exact (Function.update_of_ne hne _ _).trans hstate
  · show lastGeneration t.clock (t.dirty.remove k') = _
    rw [hclock, hdirty]
    refine h.last_eq fun k d hd => ?_
    rw [SortedMap.get_remove] at hd
    split at hd
    · simp at hd
    · exact hd

/-- **One step, as a document sees it.** -/
theorem queue_step (h : Accounted log) {a : IntentStep N} (hstep : stepIntent log a = some log') :
    log'.tables.queue k = (log.tables.queue k).see k a := by
  cases a with
  | edit k' now e =>
    obtain ⟨t, ht, rfl⟩ := Option.map_eq_some_iff.mp hstep
    by_cases hk : k' = k
    · subst hk
      rw [Queue.see, dif_pos rfl]
      exact IntentTables.queue_edit ht
    · obtain ⟨hclock, hdirty, hstate, hevents⟩ := IntentTables.edit_eq_some ht
      rw [Queue.see, dif_neg hk]
      exact queue_ticked hclock (hdirty ▸ get_insert_of_ne hk) (by rw [hevents, Function.update_of_ne (Ne.symm hk)])
        (by rw [hstate, Function.update_of_ne (Ne.symm hk)])
  | mark k' now =>
    obtain ⟨t, ht, rfl⟩ := Option.map_eq_some_iff.mp hstep
    obtain ⟨hclock, hdirty, hstate, hevents⟩ := IntentTables.markMutableDirtyAt_eq_some ht
    by_cases hk : k' = k
    · subst hk
      rw [Queue.see, if_pos rfl]
      refine IntentTables.queue_eq ?_ (congrFun hevents k') (congrFun hstate k') (congrArg (lastGeneration · t.dirty) hclock)
      show t.dirty.get k' = _
      rw [hdirty, SortedMap.get_insert_self]
      rfl
    · rw [Queue.see, if_neg hk]
      exact queue_ticked hclock (hdirty ▸ get_insert_of_ne hk) (congrFun hevents k) (congrFun hstate k)
  | confirm k' through =>
    obtain rfl := Option.some.inj hstep
    by_cases hk : k' = k
    · subst hk
      rw [Queue.see]
      by_cases hreached : (log.tables.queue k').reached through = true
      · rw [if_pos ⟨rfl, hreached⟩]
        refine IntentTables.queue_confirm (Option.isSome_iff_ne_none.mpr fun hnone => ?_) hreached
        -- without a clock there are no rows
        have hrow : (log.tables.dirty.get k').any (fun d => decide (through ≤ d)) = true := hreached
        rw [(h.clocked hnone).2 k'] at hrow
        exact nomatch hrow
      · rw [if_neg fun hboth => hreached hboth.2]
        exact congrArg (IntentTables.queue · k') (if_neg hreached)
    · rw [Queue.see, if_neg fun hboth => hk hboth.1]
      show (log.tables.confirm k' through).queue k = _
      unfold IntentTables.confirm
      split
      · split
        · exact queue_drop_of_ne h rfl rfl (Ne.symm hk) (IntentTables.events_retire_of_ne (Ne.symm hk) through)
            (Function.update_of_ne (Ne.symm hk) _ _)
        · exact IntentTables.queue_eq rfl (IntentTables.events_retire_of_ne (Ne.symm hk) through)
            (Function.update_of_ne (Ne.symm hk) _ _) rfl
      · rfl
  | drop k' =>
    obtain rfl := Option.some.inj hstep
    by_cases hk : k' = k
    · subst hk
      rw [Queue.see, if_pos rfl]
      refine IntentTables.queue_eq ?_ (IntentTables.events_drop _ _) (IntentTables.state_drop _ _) ?_
      · show (log.tables.dirty.remove k').get k' = none
        rw [SortedMap.get_remove, if_pos rfl]
      · exact h.last_eq fun _ _ hd => (get_drop hd).2
    · rw [Queue.see, if_neg hk]
      exact queue_drop_of_ne h rfl rfl (Ne.symm hk) rfl rfl

end

/-- **After any steps each document's queue is what it makes of what it saw**: its own, and the ticks of the others. -/
theorem queue_run {log : IntentLog N} {steps : List (IntentStep N)} (hrun : run stepIntent (IntentLog.start N) steps = some log)
    (k : DocKey) : log.tables.queue k = steps.foldl (Queue.see k) Queue.empty := by
  have hgeneral : ∀ (steps : List (IntentStep N)) (log₀ : IntentLog N), Accounted log₀ →
      run stepIntent log₀ steps = some log → log.tables.queue k = steps.foldl (Queue.see k) (log₀.tables.queue k) := by
    intro steps
    induction steps with
    | nil =>
      intro log₀ _ hrun
      obtain rfl := Option.some.inj hrun
      rfl
    | cons a steps ih =>
      intro log₀ h hrun
      obtain ⟨log₁, hstep, hrest⟩ := Option.bind_eq_some_iff.mp hrun
      rw [List.foldl_cons, ← queue_step h hstep]
      exact ih log₁ (accounted_step h hstep) hrest
  exact hgeneral steps _ accounted_start hrun

/-- A charge and a drive that are edited by turns. -/
theorem queue_run_two_edits : ∃ log, run stepIntent (IntentLog.start Nat) twoEdits = some log
    ∧ log.tables.queue ⟨.charge, ['7']⟩ = twoEdits.foldl (Queue.see ⟨.charge, ['7']⟩) Queue.empty := by
  obtain ⟨log, hlog⟩ : ∃ log, run stepIntent (IntentLog.start Nat) twoEdits = some log :=
    Option.isSome_iff_exists.mp (by decide +kernel)
  exact ⟨log, hlog, queue_run hlog _⟩

end SentryUsb.Sync
