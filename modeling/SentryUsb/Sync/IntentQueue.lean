import SentryUsb.Grouper.Clip

/-! # The local edit queue of one document

Every local edit of a synced document advances a clock, marks the document dirty at the new
generation and records the field operation at that generation. A confirmation of a generation retires
the operations up to it and the dirty mark only if no newer edit moved it.

* **`Queue`** — dirty generation, recorded operations and the clock, with the invariant that every
  operation is at or below the dirty generation (`mutable_intent.rs`);
* **`tagEdit`** — the operation between two tag lists;
* **`Queue.record`**, **`Queue.settle`** — an edit, and a confirmation;
* **`Queue.Covers`** — a snapshot holds every queued operation up to its generation;
* **`Queue.covers_record`**, **`Queue.covers_settle`** — it keeps doing so. -/

namespace SentryUsb.Sync

variable {ε : Type}

/-! ## Tag operations -/

/-- Tags as a sorted set. -/
def tagSet (tags : List Text) : List Text := tags.dedup.insertionSort (· ≤ ·)

/-- Tags added and removed by an edit. -/
structure TagEdit where
  added : List Text
  removed : List Text
  deriving DecidableEq

/-- The operation between two tag lists (`tag_edit`). -/
def tagEdit (before after : List Text) : TagEdit :=
  let b := before.filter fun t => decide (t ≠ [])
  let a := after.filter fun t => decide (t ≠ [])
  ⟨tagSet (a.filter fun t => decide (t ∉ b)), tagSet (b.filter fun t => decide (t ∉ a))⟩

/-- Apply an operation to a set of tags. -/
def TagEdit.apply (tags : List Text) (e : TagEdit) : List Text :=
  tags.filter (fun t => decide (t ∉ e.removed)) ++ e.added

/-! ## Queue -/

/-- The queue of one document. `legacyThrough` is the row of `mutable_intent_state`: absent, or
tracked, or with a generation up to which the operations were never recorded. -/
structure Queue (ε : Type) where
  dirty : Option Int
  events : List (Int × ε)
  legacyThrough : Option (Option Int)
  clock : Int
  queued : ∀ e ∈ events, ∃ d, dirty = some d ∧ e.1 ≤ d
  ticked : ∀ d, dirty = some d → d ≤ clock

namespace Queue

/-- No edit is queued. -/
def empty : Queue ε := ⟨none, [], none, 0, by simp, by simp⟩

/-- The generation of an edit made now (`mark_mutable_dirty_at`). -/
def nextGeneration (q : Queue ε) (now : Int) : Int := max now (q.clock + 1)

theorem clock_lt_nextGeneration (q : Queue ε) (now : Int) : q.clock < q.nextGeneration now := by
  unfold nextGeneration
  omega

theorem le_clock {q : Queue ε} {e : Int × ε} (h : e ∈ q.events) : e.1 ≤ q.clock := by
  obtain ⟨d, hd, hle⟩ := q.queued e h
  exact le_trans hle (q.ticked d hd)

/-- A local edit: a new generation, the dirty mark, and the operation. A queue that was dirty before
its operations were recorded is legacy up to its old generation (`record`). -/
def record (q : Queue ε) (now : Int) (edit : ε) : Queue ε where
  dirty := some (q.nextGeneration now)
  events := q.events ++ [(q.nextGeneration now, edit)]
  legacyThrough := some (q.legacyThrough.getD q.dirty)
  clock := q.nextGeneration now
  queued := by
    intro e he
    refine ⟨_, rfl, ?_⟩
    rcases List.mem_append.mp he with he | he
    · exact le_of_lt (lt_of_le_of_lt (le_clock he) (q.clock_lt_nextGeneration now))
    · rw [List.mem_singleton.mp he]
  ticked := by
    intro d hd
    rw [← Option.some.inj hd]

/-- Whether the field history of the queue is lost (`read`). -/
def legacy (q : Queue ε) : Bool :=
  match q.legacyThrough with
  | some none => false
  | _ => true

/-- Whether the queue is at `through` or newer. -/
def reached (q : Queue ε) (through : Int) : Bool := q.dirty.any fun d => decide (through ≤ d)

/-- Whether unrecorded edits newer than `through` may be queued. -/
def unknownNewer (q : Queue ε) (through : Int) : Bool :=
  (q.dirty.any fun d => decide (through < d))
    && match q.legacyThrough with
      | some at? => at?.any fun t => decide (through < t)
      | none => true

/-- The operations newer than a generation. -/
def newer (q : Queue ε) (through : Int) : List (Int × ε) :=
  q.events.filter fun e => decide (through < e.1)

/-- Retire a confirmed generation: its operations go, and the dirty mark if no newer edit moved it, with
the legacy boundary in its wake (`retire`). -/
def settle (q : Queue ε) (through : Int) : Queue ε where
  dirty := if q.dirty = some through then none else q.dirty
  events := q.newer through
  legacyThrough := if q.dirty = some through then none
    else q.legacyThrough.map fun at? => at?.filter fun t => decide (through < t)
  clock := q.clock
  queued := by
    intro e he
    obtain ⟨hmem, hlt⟩ := List.mem_filter.mp he
    obtain ⟨d, hd, hle⟩ := q.queued e hmem
    have hlt : through < e.1 := of_decide_eq_true hlt
    refine ⟨d, ?_, hle⟩
    rw [if_neg, hd]
    rw [hd]
    intro heq
    obtain rfl := Option.some.inj heq
    omega
  ticked := by
    intro d hd
    split at hd
    · exact absurd hd (by simp)
    · exact q.ticked d hd

@[simp] theorem events_record (q : Queue ε) (now : Int) (edit : ε) :
    (q.record now edit).events = q.events ++ [(q.nextGeneration now, edit)] := rfl

@[simp] theorem clock_record (q : Queue ε) (now : Int) (edit : ε) :
    (q.record now edit).clock = q.nextGeneration now := rfl

theorem mem_newer {q : Queue ε} {through : Int} {e : Int × ε} :
    e ∈ q.newer through ↔ e ∈ q.events ∧ through < e.1 := by
  simp [newer]

/-! ## Snapshots -/

/-- A snapshot holds every queued operation up to its generation. -/
def Covers (q : Queue ε) (through : Int) (edits : List (Int × ε)) : Prop :=
  ∀ e ∈ q.events, e.1 ≤ through → e ∈ edits

theorem covers_self (q : Queue ε) (through : Int) : q.Covers through q.events := fun _ he _ => he

/-- **Later edits stay out of a snapshot's generation.** -/
theorem covers_record {q : Queue ε} {through : Int} {edits : List (Int × ε)}
    (h : q.Covers through edits) (hclock : through ≤ q.clock) (now : Int) (edit : ε) :
    (q.record now edit).Covers through edits := by
  intro e he hle
  rw [events_record, List.mem_append] at he
  rcases he with he | he
  · exact h e he hle
  · have hlt := q.clock_lt_nextGeneration now
    rw [List.mem_singleton.mp he] at hle
    exact absurd (lt_of_le_of_lt hclock hlt) (not_lt.mpr hle)

/-- **Confirmations only shrink what a snapshot has to cover.** -/
theorem covers_settle {q : Queue ε} {through : Int} {edits : List (Int × ε)}
    (h : q.Covers through edits) (settled : Int) : (q.settle settled).Covers through edits :=
  fun e he hle => h e (mem_newer.mp he).1 hle

/-- An operation that a confirmation retires was in the snapshot it confirms. -/
theorem mem_of_settled {q : Queue ε} {through : Int} {edits : List (Int × ε)}
    (h : q.Covers through edits) {e : Int × ε} (he : e ∈ q.events)
    (hgone : e ∉ (q.settle through).events) : e ∈ edits := by
  refine h e he ?_
  by_contra hlt
  exact hgone (mem_newer.mpr ⟨he, not_le.mp hlt⟩)

end Queue

end SentryUsb.Sync
