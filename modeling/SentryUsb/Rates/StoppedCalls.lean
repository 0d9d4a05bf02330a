import SentryUsb.Rates.RatePublication

/-! # What stopped calls leave

A call on the rates may be stopped anywhere, and a recovery settles what it left. Stated for the publication: which journal
entry is there, which edits are queued, and what the next recovery makes of receipt, queue and rates.

* **`Steady`** — no confirmation is under way;
* **`stored_settled`** — a recovery drops a receipt only with the confirmation that carries it;
* **`run_traces`** — what a stopped call leaves in the journal and in the queue;
* **`Moves`**, **`Outcome.moves`** — calls from outside a push queue edits, and touch no receipt;
* **`Outcome.confirms`** — a confirmation retires its generation, with its receipt. -/

set_option linter.unusedSectionVars false

namespace SentryUsb.Rates.Publication

open SentryUsb.Library

variable {N R H : Type} [DecidableEq N] [DecidableEq R] [DecidableEq H]
variable {S : Setup N R H} {env : Env N R H} {m t : Machine N H}

/-! ## The journal and the queue -/

/-- No confirmation is under way. -/
def Steady (m : Machine N H) : Prop := ∀ p, m.journal = some p → p.confirmation = none

theorem steady_of_none (h : m.journal = none) : Steady m := by
  intro p hp
  rw [h] at hp
  exact absurd hp (by simp)

theorem settled_of_steady (h : Steady m) : (settled m).queue = m.queue ∧ (settled m).receipts = m.receipts := by
  cases hjournal : m.journal with
  | none =>
    rw [settled_of_none hjournal]
    exact ⟨rfl, rfl⟩
  | some p =>
    rw [settled_of_edit hjournal (h p hjournal)]
    exact ⟨rfl, rfl⟩

/-- A recovery changes the queue only by retiring a confirmed generation. -/
theorem queue_settled (m : Machine N H) :
    (settled m).queue = m.queue ∨ ∃ through, (settled m).queue = m.queue.settle through := by
  cases hjournal : m.journal with
  | none => exact Or.inl (by rw [settled_of_none hjournal])
  | some p =>
    cases hc : p.confirmation with
    | none => exact Or.inl (by rw [settled_of_edit hjournal hc]; rfl)
    | some c => exact Or.inr ⟨c.through, by rw [settled_of_confirmation hjournal hc]; rfl⟩

theorem events_settled (m : Machine N H) : (settled m).queue.events ⊆ m.queue.events := by
  intro e he
  rcases queue_settled m with hqueue | ⟨through, hqueue⟩
  · exact hqueue ▸ he
  · rw [hqueue] at he
    exact (Sync.Queue.mem_newer.mp he).1

theorem clock_settled (m : Machine N H) : (settled m).queue.clock = m.queue.clock := by
  rcases queue_settled m with hqueue | ⟨through, hqueue⟩
  · rw [hqueue]
  · rw [hqueue]
    rfl

/-- A confirmation that fits the database carries the receipt that is stored. -/
theorem receipt_of_validate {c : Confirmation N} (h : validate env m c = .ok ()) {key raw : Text}
    (hreceipt : c.receipt = some (key, raw)) : getEntry key m.receipts = some raw := by
  have hnone : receiptError env m c.receipt = none := by
    unfold validate at h
    split at h
    · exact absurd h (by simp)
    obtain ⟨now, -, h⟩ := bind_eq_ok.mp h
    split at h
    · exact absurd h (by simp)
    split at h
    · exact absurd h (by simp)
    split at h
    · exact absurd h (by simp)
    · assumption
  rw [hreceipt] at hnone
  unfold receiptError at hnone
  dsimp only at hnone
  split at hnone
  · exact absurd hnone (by simp)
  split at hnone
  · exact absurd hnone (by simp)
  · rename_i hsame
    exact not_not.mp hsame

/-- A recovery drops a receipt only with the confirmation that carries it. -/
theorem stored_settled (S : Setup N R H) (hrecoverable : Recoverable S.env m) {raw : Text}
    (hraw : stored S m = some raw) :
    stored S (settled m) = some raw
      ∨ stored S (settled m) = none ∧ ∃ p c, m.journal = some p ∧ p.confirmation = some c
        ∧ c.receipt = some (S.receiptKey, raw) := by
  cases hjournal : m.journal with
  | none =>
    rw [settled_of_none hjournal]
    exact Or.inl hraw
  | some p =>
    cases hc : p.confirmation with
    | none =>
      rw [settled_of_edit hjournal hc]
      exact Or.inl hraw
    | some c =>
      rw [settled_of_confirmation hjournal hc]
      unfold stored confirmed
      dsimp only
      cases hreceipt : c.receipt with
      | none => exact Or.inl hraw
      | some r =>
        obtain ⟨key, raw'⟩ := r
        dsimp only
        rw [getEntry_dropEntry]
        by_cases hkey : S.receiptKey = key
        · subst hkey
          rw [if_pos rfl]
          -- a journalled confirmation was checked against the stored receipt
          obtain ⟨-, c', hc', hvalid⟩ := (hrecoverable p hjournal).kind.resolve_left fun h => by
            rw [hc] at h
            exact absurd h.2 (by simp)
          obtain rfl := Option.some.inj (hc.symm.trans hc')
          have hsame := receipt_of_validate hvalid hreceipt
          obtain rfl := Option.some.inj (hraw.symm.trans hsame)
          exact Or.inr ⟨rfl, p, c, rfl, hc, hreceipt⟩
        · rw [if_neg hkey]
          exact Or.inl hraw

theorem stored_of_settled {raw : Text} (h : stored S (settled m) = some raw) : stored S m = some raw := by
  cases hjournal : m.journal with
  | none => rwa [settled_of_none hjournal] at h
  | some p =>
    cases hc : p.confirmation with
    | none => rwa [settled_of_edit hjournal hc] at h
    | some c =>
      rw [settled_of_confirmation hjournal hc] at h
      unfold stored confirmed at h
      dsimp only at h
      split at h
      · rw [getEntry_dropEntry] at h
        split at h
        · exact absurd h (by simp)
        · exact h
      · exact h

/-! ## Stopped calls -/

theorem recover_traces (h : Recoverable env m) (ht : t ∈ (recover env).stops m) :
    (t.journal = m.journal ∧ t.queue = m.queue) ∨ t = settled m := by
  unfold Stoppable.stops at ht
  cases hjournal : m.journal with
  | none =>
    rw [recover_eq_none hjournal] at ht
    obtain rfl := List.mem_singleton.mp ht
    exact Or.inl ⟨hjournal, rfl⟩
  | some pending =>
    rw [recover_eq (h pending hjournal) hjournal] at ht
    simp only [List.mem_cons, List.not_mem_nil, or_false] at ht
    rcases ht with rfl | rfl | rfl
    · exact Or.inl ⟨hjournal, rfl⟩
    · exact Or.inl ⟨hjournal, rfl⟩
    · exact Or.inr rfl

/-- What a stopped call leaves in the journal: nothing, an edit, or the confirmation it was asked for. -/
def Leaves (m : Machine N H) (call : Call N) (t : Machine N H) : Prop :=
  t.journal = none ∨ ∃ p, t.journal = some p ∧ (p.confirmation = none
    ∨ t.queue = m.queue ∧ ∃ cloud c, call = .confirm cloud c.through c.receipt ∧ p.confirmation = some c)

theorem publishWithTag_leaves (hjournal : m.journal = none) {before after : Prefs N} {force : Bool}
    {requiredTag : Option Text} {now : Int} {call : Call N}
    (ht : t ∈ (publishWithTag env before after force requiredTag now).stops m) : Leaves m call t := by
  rcases Stoppable.stops_lift_bind ht with rfl | ⟨path, -, ht⟩
  · exact Or.inl hjournal
  rcases stage_save_retire_stops ht with rfl | ⟨staged, hstage, ht⟩
  · exact Or.inl hjournal
  obtain rfl := stageRatePreferences_eq_ok hstage
  rcases ht with rfl | rfl | hretired
  · exact Or.inr ⟨_, rfl, Or.inl rfl⟩
  · exact Or.inr ⟨_, rfl, Or.inl rfl⟩
  · obtain ⟨-, rfl⟩ := finish_eq_ok hretired
    exact Or.inl rfl

theorem body_leaves (hjournal : m.journal = none) (call : Call N) (ht : t ∈ (call.body env m.load).stops m) :
    Leaves m call t := by
  have hsave : ∀ {prefs : Prefs N} {t}, t ∈ (Stoppable.effect (ε := String) fun m => .ok (m.save prefs)).stops m →
      Leaves m call t := by
    intro prefs t ht
    rcases Stoppable.stops_effect ht with rfl | ht
    · exact Or.inl hjournal
    · obtain rfl := Except.ok.inj ht
      exact Or.inl hjournal
  cases call with
  | editPrefs force edit now =>
    rcases Stoppable.stops_lift_bind ht with rfl | ⟨after, -, hstop⟩
    · exact Or.inl hjournal
    cases after with
    | none => exact Or.inl (List.mem_singleton.mp hstop ▸ hjournal)
    | some after =>
      dsimp only at hstop
      split at hstop
      · exact publishWithTag_leaves hjournal hstop
      · exact hsave hstop
  | updateRatePlan tag edit now =>
    rcases Stoppable.stops_lift_bind ht with rfl | ⟨after, -, ht⟩
    · exact Or.inl hjournal
    cases after with
    | none => exact Or.inl (List.mem_singleton.mp ht ▸ hjournal)
    | some after => exact publishWithTag_leaves hjournal ht
  | confirm cloud through receipt =>
    rcases Stoppable.stops_lift_bind (Stoppable.stops_get_bind ht) with rfl | ⟨snap, -, ht⟩
    · exact Or.inl hjournal
    rcases Stoppable.stops_lift_bind ht with rfl | ⟨merged, -, ht⟩
    · exact Or.inl hjournal
    rcases Stoppable.stops_lift_bind ht with rfl | ⟨path, -, ht⟩
    · exact Or.inl hjournal
    rcases stage_save_retire_stops ht with rfl | ⟨staged, hstage, ht⟩
    · exact Or.inl hjournal
    obtain ⟨-, rfl⟩ := stageRateConfirmation_eq_ok hstage
    rcases ht with rfl | rfl | hretired
    · exact Or.inr ⟨_, rfl, Or.inr ⟨rfl, cloud, ⟨through, snap, receipt⟩, rfl, rfl⟩⟩
    · exact Or.inr ⟨_, rfl, Or.inr ⟨rfl, cloud, ⟨through, snap, receipt⟩, rfl, rfl⟩⟩
    · obtain rfl := finishRateConfirmation_eq_ok hretired
      exact Or.inl rfl
  | storeRateDoc doc =>
    have ht := Stoppable.stops_get_bind ht
    split at ht
    · exact Or.inl (List.mem_singleton.mp ht ▸ hjournal)
    · obtain ⟨v, hv⟩ := doc
      cases v with
      | object l => exact hsave ht
      | _ => exact Or.inl (List.mem_singleton.mp ht ▸ hjournal)
  | loadPrefs => exact Or.inl (List.mem_singleton.mp ht ▸ hjournal)

/-- **A stopped call** was stopped in its recovery, or after it. -/
theorem run_traces (h : Recoverable env m) {call : Call N} (ht : t ∈ (call.run env).stops m) :
    (t.journal = m.journal ∧ t.queue = m.queue) ∨ Leaves (settled m) call t := by
  obtain ⟨hresult, hfinal, -⟩ := recover_settles h
  have hrest : ∀ {t}, t ∈ Stoppable.stops (do
      let before ← recover env
      call.body env before) m → (t.journal = m.journal ∧ t.queue = m.queue) ∨ Leaves (settled m) call t := by
    intro t ht
    rcases Stoppable.mem_stops_bind.mp ht with ht | ⟨before, hbefore, ht⟩
    · rcases recover_traces h ht with hsame | rfl
      · exact Or.inl hsame
      · exact Or.inr (Or.inl (journal_settled m))
    · obtain rfl := Except.ok.inj (hresult.symm.trans hbefore)
      rw [hfinal] at ht
      exact Or.inr (body_leaves (journal_settled m) call ht)
  unfold Call.run at ht
  split at ht
  · rcases Stoppable.mem_stops_bind.mp ht with ht | ⟨u, -, ht⟩
    · exact Or.inl (List.mem_singleton.mp ht ▸ ⟨rfl, rfl⟩)
    · exact hrest ht
  · exact hrest ht

/-- Edits that are new in the queue stay there through a recovery. -/
theorem events_of_traces {call : Call N}
    (h : (t.journal = m.journal ∧ t.queue = m.queue) ∨ Leaves (settled m) call t) {e : Int × Edit N}
    (he : e ∈ t.queue.events) : e ∈ m.queue.events ∨ e ∈ (settled t).queue.events := by
  rcases h with ⟨-, hqueue⟩ | hnone | ⟨p, hp, hc | ⟨hqueue, -⟩⟩
  · exact Or.inl (hqueue ▸ he)
  · exact Or.inr (by rwa [settled_of_none hnone])
  · refine Or.inr ?_
    rw [settled_of_edit hp hc]
    exact he
  · rw [hqueue] at he
    exact Or.inl (events_settled m he)

/-- The rates of the first publication are queued, or there are none. -/
def Ready (m : Machine N H) : Prop := m.queue.dirty ≠ none ∨ m.load.rates = Prefs.empty

/-- What calls other than confirmations make of a settled machine: an edit more, or the same queue with the same rates. -/
structure Moves (m t : Machine N H) : Prop where
  receipts : t.receipts = m.receipts
  queue : (∃ now e, t.queue = m.queue.record now e) ∨ t.queue = m.queue

namespace Moves

theorem refl (m : Machine N H) : Moves m m := ⟨rfl, Or.inr rfl⟩

theorem events (h : Moves m t) : m.queue.events ⊆ t.queue.events := by
  intro e he
  rcases h.queue with ⟨now, edit, hqueue⟩ | hqueue
  · rw [hqueue]
    exact List.mem_append_left _ he
  · exact hqueue ▸ he

theorem clock (h : Moves m t) : m.queue.clock ≤ t.queue.clock := by
  rcases h.queue with ⟨now, edit, hqueue⟩ | hqueue
  · rw [hqueue]
    exact le_of_lt (m.queue.clock_lt_nextGeneration now)
  · rw [hqueue]

theorem covers (h : Moves m t) {through : Int} {edits : List (Int × Edit N)} (hclock : through ≤ m.queue.clock)
    (hcovers : m.queue.Covers through edits) : t.queue.Covers through edits := by
  rcases h.queue with ⟨now, edit, hqueue⟩ | hqueue
  · rw [hqueue]
    exact Sync.Queue.covers_record hcovers hclock now edit
  · rw [hqueue]
    exact hcovers

end Moves

/-- The rates go with the queue: while it is as it was, so are they. -/
def SameRates (m t : Machine N H) : Prop := t.queue = m.queue → t.load.rates = m.load.rates

theorem Ready.mono (h : Ready m) (hmoves : Moves m t) (hrates : SameRates m t) : Ready t := by
  rcases hmoves.queue with ⟨now, edit, hqueue⟩ | hqueue
  · refine Or.inl ?_
    rw [hqueue]
    exact Option.some_ne_none _
  · rcases h with hdirty | hempty
    · exact Or.inl (by rwa [hqueue])
    · exact Or.inr ((hrates hqueue).trans hempty)

/-- A queue that is dirty at an older generation is the queue it was. -/
theorem Moves.queue_of_dirty (h : Moves m t) {through : Int} (hclock : through ≤ m.queue.clock)
    (hdirty : t.queue.dirty = some through) : t.queue = m.queue := by
  rcases h.queue with ⟨now, edit, hqueue⟩ | hqueue
  · rw [hqueue] at hdirty
    have hlater := m.queue.clock_lt_nextGeneration now
    obtain rfl := Option.some.inj hdirty
    exact absurd hclock (not_le.mpr hlater)
  · exact hqueue

/-- What a call from outside a push does to the settled machine. -/
theorem Outcome.moves {call : Call N} (h : Outcome env m call t) {p : Point N} (hadmits : p.admits call = true) :
    Moves m t ∧ (p ≠ .idle → SameRates m t) := by
  have hnew : ∀ {now : Int} {e : Edit N} {t : Machine N H}, t.queue = m.queue.record now e → SameRates m t := by
    intro now e t hqueue hsame
    -- an edit moves the clock
    have hlater := m.queue.clock_lt_nextGeneration now
    rw [← Sync.Queue.clock_record m.queue now e, ← hqueue, hsame] at hlater
    exact absurd hlater (lt_irrefl _)
  cases h with
  | nothing => exact ⟨Moves.refl m, fun _ _ => rfl⟩
  | saved edit now after _ hsame => exact ⟨⟨rfl, Or.inr rfl⟩, fun _ _ => hsame.symm⟩
  | edited force edit now after file _ _ => exact ⟨⟨rfl, Or.inl ⟨_, _, rfl⟩⟩, fun _ => hnew rfl⟩
  | planned tag edit now after file _ _ => exact ⟨⟨rfl, Or.inl ⟨_, _, rfl⟩⟩, fun _ => hnew rfl⟩
  | confirmed => exact absurd hadmits (by simp [Point.admits])
  | stored doc l _ _ =>
    refine ⟨⟨rfl, Or.inr rfl⟩, fun hidle => ?_⟩
    cases p with
    | idle => exact absurd rfl hidle
    | _ => exact absurd hadmits (by simp [Point.admits])

/-- A confirmation, however far it gets, settles to nothing or to the retirement of its generation. -/
theorem Outcome.confirms {cloud : Value N} {through : Int} {receipt : Option (Text × Text)}
    (h : Outcome env m (.confirm cloud through receipt) t) :
    t = m ∨ t.queue = m.queue.settle through
      ∧ (receipt = none → t.receipts = m.receipts)
      ∧ ∀ key raw, receipt = some (key, raw) →
          getEntry key m.receipts = some raw ∧ t.receipts = dropEntry key m.receipts := by
  cases h with
  | nothing => exact Or.inl rfl
  | confirmed cloud receipt c merged hsnapshot hreceived hreplayed hvalid =>
    refine Or.inr ⟨rfl, fun hnone => ?_, fun key raw hreceipt => ⟨?_, ?_⟩⟩
    · unfold confirmed
      rw [hreceived, hnone]
      rfl
    · exact receipt_of_validate hvalid (hreceived.trans hreceipt)
    · unfold confirmed
      rw [hreceived, hreceipt]
      rfl

/-- The first publication: the recovery, and one edit more at most. -/
theorem queueInitialRateConfig_eq_ok {f : Reading N R} {doc : Prefs N} {now : Int}
    (h : queueInitialRateConfig f doc now m = .ok t) (hdoc : doc = m.load.rates) :
    (t = m ∨ ∃ e, t = { m with queue := m.queue.record now e }) ∧ Ready t := by
  obtain ⟨after, -, h⟩ := bind_eq_ok.mp h
  split at h
  · rename_i hempty
    obtain rfl := Except.ok.inj h
    exact ⟨Or.inl rfl, Or.inr (hdoc.symm.trans hempty)⟩
  split at h
  · exact absurd h (by simp)
  split at h
  · rename_i hdirty
    obtain rfl := Except.ok.inj h
    exact ⟨Or.inl rfl, Or.inl (Option.isSome_iff_ne_none.mp hdirty)⟩
  · obtain rfl := Except.ok.inj h
    exact ⟨Or.inr ⟨_, rfl⟩, Or.inl (Option.some_ne_none _)⟩

theorem queueInitialRates_stops (h : Recoverable env m) {now : Int} (ht : t ∈ (queueInitialRates env now).stops m) :
    Recoverable env t ∧ Moves (settled m) (settled t) ∧ SameRates (settled m) (settled t)
      ∧ ((t.journal = m.journal ∧ t.queue = m.queue) ∨ t.journal = none) := by
  obtain ⟨hresult, hfinal, hstops⟩ := recover_settles h
  have hself : Moves (settled m) (settled m) ∧ SameRates (settled m) (settled m) := ⟨Moves.refl _, fun _ => rfl⟩
  have hnone := settled_of_none (journal_settled m)
  rcases Stoppable.mem_stops_bind.mp ht with ht | ⟨prefs, hprefs, ht⟩
  · obtain ⟨hrecoverable, hsettled⟩ := hstops t ht
    rw [hsettled]
    refine ⟨hrecoverable, hself.1, hself.2, ?_⟩
    rcases recover_traces h ht with hsame | rfl
    · exact Or.inl hsame
    · exact Or.inr (journal_settled m)
  · obtain rfl := Except.ok.inj (hresult.symm.trans hprefs)
    rw [hfinal] at ht
    rcases Stoppable.stops_effect ht with rfl | hqueued
    · rw [hnone]
      exact ⟨recoverable_of_none env (journal_settled m), hself.1, hself.2, Or.inr (journal_settled m)⟩
    · obtain ⟨rfl | ⟨e, rfl⟩, -⟩ := queueInitialRateConfig_eq_ok hqueued rfl
      · rw [hnone]
        exact ⟨recoverable_of_none env (journal_settled m), hself.1, hself.2, Or.inr (journal_settled m)⟩
      · have hjournal : ({ settled m with queue := (settled m).queue.record now e } : Machine N H).journal = none :=
          journal_settled m
        rw [settled_of_none hjournal]
        exact ⟨recoverable_of_none env hjournal, ⟨rfl, Or.inl ⟨now, e, rfl⟩⟩, fun _ => rfl, Or.inr hjournal⟩

/-- When it is through, the rates are queued, or there are none. -/
theorem ready_of_queueInitialRates (h : Recoverable env m) {now : Int} {u : Unit}
    (hok : (queueInitialRates env now).result m = .ok u) : Ready (settled ((queueInitialRates env now).final m)) := by
  obtain ⟨hresult, hfinal, -⟩ := recover_settles h
  obtain ⟨hresult', hfinal'⟩ := Stoppable.bind_ok (g := fun prefs =>
    Stoppable.effect (queueInitialRateConfig env.reading prefs.rates now)) hresult
  have hqueue : Stoppable.result (Stoppable.effect (queueInitialRateConfig env.reading (settled m).load.rates now))
      (settled m) = .ok u := by
    have hran := hresult'.symm.trans hok
    rw [hfinal] at hran
    exact hran
  rw [show (queueInitialRates env now).final m = _ from hfinal', hfinal]
  cases hq : queueInitialRateConfig env.reading (settled m).load.rates now (settled m) with
  | error e =>
    rw [(Stoppable.effect_error hq).2] at hqueue
    exact absurd hqueue (by simp)
  | ok t =>
    rw [(Stoppable.effect_ok hq).2.2]
    obtain ⟨ht, hready⟩ := queueInitialRateConfig_eq_ok hq rfl
    have hjournal : t.journal = none := by
      rcases ht with rfl | ⟨e, rfl⟩
      · exact journal_settled m
      · exact journal_settled m
    rw [settled_of_none hjournal]
    exact hready

end SentryUsb.Rates.Publication
