import SentryUsb.Library.Stoppable
import SentryUsb.Rates.RateHistory

/-! # Rate saves across two stores

The rates live in a preferences file, their outgoing edits in the database. A save first stages the edit and a journal in
one transaction, then replaces the file, then retires the journal; a confirmation from the Cloud does the same with the
edits it retires. A call may be stopped between any two of these effects (`preferences_journal.rs`, `preferences.rs`,
`rate_confirmation.rs`).

* **`Machine`** — the journal, the queue of edits, the receipts and the two files;
* **`recover`** — bring the file up to a journal that is left, and retire it;
* **`Call`** — the calls that write preferences, each starting with a recovery;
* **`settled`** — what a recovery makes of a machine;
* **`Recoverable`** — the invariant: a journal that is left can be recovered;
* **`Outcome`** — what a call does to the settled machine, however far it gets;
* **`journal_crash_safe`** — every machine that stopped calls lead to recovers, and every call is all or nothing. -/

set_option linter.unusedSectionVars false

namespace SentryUsb.Rates

open SentryUsb.Library

variable {N R H : Type} [DecidableEq N] [DecidableEq R] [DecidableEq H]

/-! ## Merged documents are sorted -/

section Sorted

variable {f : Reading N R} {evs : List (Event N)} {check : Bool} {document document' : Json Text N}

theorem sorted_mergeChange (hread : ∀ e ∈ evs, e.IsRead f) {p : Path} (hsorted : document.Sorted)
    (h : mergeChange f evs check document p = .ok document') : document'.Sorted := by
  unfold mergeChange at h
  split at h
  · exact absurd h (by simp)
  · rename_i first rest htouching
    dsimp only at h
    split at h
    · exact Except.ok.inj h ▸ hsorted
    · obtain ⟨w, -, h⟩ := bind_eq_ok.mp h
      split at h
      · exact absurd h (by simp)
      · split at h
        · exact absurd h (by simp)
        · split at h
          · exact Except.ok.inj h ▸ hsorted
          · refine sorted_set hsorted (fun x hx => Json.sorted_getPath (hread _ ?_).sorted_after hx) h
            refine List.mem_of_mem_filter (p := fun event => event.paths.any fun change => p.isPrefixOf change) ?_
            rw [show evs.filter _ = touching evs p from rfl, htouching]
            exact List.getLast_mem _

theorem sorted_mergeAsserted {last : Event N} (hlast : last.IsRead f) {p : Path} (hsorted : document.Sorted)
    (h : mergeAsserted f last check document p = .ok document') : document'.Sorted := by
  unfold mergeAsserted at h
  split at h
  · exact Except.ok.inj h ▸ hsorted
  · rename_i desired hdesired
    obtain ⟨w, -, h⟩ := bind_eq_ok.mp h
    dsimp only at h
    split at h
    · exact absurd h (by simp)
    · split at h
      · exact Except.ok.inj h ▸ hsorted
      · refine sorted_set hsorted (fun x hx => ?_) h
        rw [← Option.some.inj hx]
        exact Json.sorted_getPath hlast.sorted_after hdesired

theorem sorted_mergeRequired {last : Event N} (hlast : last.IsRead f) {tag : Text} (hsorted : document.Sorted)
    (h : mergeRequired f last check document tag = .ok document') : document'.Sorted := by
  unfold mergeRequired at h
  split at h
  · exact Except.ok.inj h ▸ hsorted
  · rename_i desired hdesired
    have hplan : desired.Sorted := Json.sorted_getPath hlast.sorted_after hdesired
    obtain ⟨w, -, h⟩ := bind_eq_ok.mp h
    dsimp only at h
    split at h
    · exact sorted_set hsorted (fun x hx => Option.some.inj hx ▸ hplan) h
    · split at h
      · split at h
        · exact Except.ok.inj h ▸ hsorted
        · exact absurd h (by simp)
      · split at h
        · exact Except.ok.inj h ▸ hsorted
        · refine foldlM_invariant (fun _ document => document.Sorted) h hsorted ?_
          intro done field document document' _ hsorted hstep
          refine sorted_set hsorted (fun x hx => ?_) hstep
          exact Json.sorted_getPath hplan ((Json.getPath_singleton field desired).trans hx)

/-- **What a merge makes of a sorted document is sorted.** -/
theorem sorted_apply {intent : Intent N} {after : Option Int} (hsorted : document.Sorted)
    (h : apply f intent document after check = .ok document') : document'.Sorted := by
  unfold apply at h
  split at h
  · exact absurd h (by simp)
  · obtain ⟨evs, hevents, h⟩ := bind_eq_ok.mp h
    have hread := isRead_of_events hevents
    split at h
    · unfold mergeEvents at h
      obtain ⟨r₁, hr₁, h⟩ := bind_eq_ok.mp h
      obtain ⟨paths, -, h⟩ := bind_eq_ok.mp h
      have hsorted₁ := foldlM_invariant (fun _ document => document.Sorted) hr₁ hsorted
        fun _ _ _ _ _ hsorted hstep => sorted_mergeChange hread hsorted hstep
      split at h
      · exact Except.ok.inj h ▸ hsorted₁
      · rename_i last hlast
        have hlast := hread last (List.mem_of_getLast? hlast)
        obtain ⟨r₂, hr₂, h⟩ := bind_eq_ok.mp h
        have hsorted₂ := foldlM_invariant (fun _ document => document.Sorted) hr₂ hsorted₁
          fun _ _ _ _ _ hsorted hstep => sorted_mergeAsserted hlast hsorted hstep
        exact foldlM_invariant (fun _ document => document.Sorted) h hsorted₂
          fun _ _ _ _ _ hsorted hstep => sorted_mergeRequired hlast hsorted hstep
    · exact absurd h (by simp)

end Sorted

/-! ## Preferences -/

/-- A preferences document: a map of JSON values. -/
abbrev Prefs (N : Type) := { l : List (Text × Json Text N) // (Json.object l).Sorted }

namespace Prefs

def get (prefs : Prefs N) (k : Text) : Option (Json Text N) := getEntry k prefs.1

theorem ext_get {p q : Prefs N} (h : ∀ k, p.get k = q.get k) : p = q :=
  Subtype.ext (Json.object.inj (Json.object_ext p.2 q.2 h))

/-- No preference. -/
def empty : Prefs N := ⟨[], .object List.Pairwise.nil (by simp)⟩

theorem pairwise_rateKeys : rateKeys.Pairwise (· < ·) := by
  unfold rateKeys
  decide +kernel

/-- The rate fields of a document (`rates`). -/
def rates (prefs : Prefs N) : Prefs N :=
  ⟨rateKeys.filterMap fun key => (prefs.get key).map fun v => (key, v), by
    refine .object (List.Pairwise.filterMap _ ?_ pairwise_rateKeys) fun e he => ?_
    · intro k k' hlt e he e' he'
      obtain ⟨v, -, rfl⟩ := Option.map_eq_some_iff.mp he
      obtain ⟨v', -, rfl⟩ := Option.map_eq_some_iff.mp he'
      exact hlt
    · obtain ⟨k, -, hk⟩ := List.mem_filterMap.mp he
      obtain ⟨v, hv, rfl⟩ := Option.map_eq_some_iff.mp hk
      exact (Json.sorted_object.mp prefs.2).2 _ (mem_of_getEntry hv)⟩

/-- Replace the rate fields of a document (`apply_rates`). -/
def applyRates (prefs rates : Prefs N) : Prefs N :=
  ⟨rateKeys.foldl (fun l key => Json.writeEntry key (rates.get key) l) prefs.1, by
    have hrates : ∀ key x, rates.get key = some x → x.Sorted := fun key x hx =>
      (Json.sorted_object.mp rates.2).2 _ (mem_of_getEntry hx)
    generalize rateKeys = keys
    obtain ⟨l, hl⟩ := prefs
    dsimp only
    induction keys generalizing l with
    | nil => exact hl
    | cons key keys ih => exact ih _ (Json.sorted_writeEntry hl (hrates key))⟩

theorem get_rates (prefs : Prefs N) (k : Text) : (rates prefs).get k = if k ∈ rateKeys then prefs.get k else none := by
  unfold rates get
  dsimp only
  generalize rateKeys = keys
  induction keys with
  | nil => rfl
  | cons key keys ih =>
    rw [List.filterMap_cons]
    cases hget : getEntry key prefs.1 with
    | none =>
      simp only [Option.map_none]
      rw [ih]
      by_cases hk : k = key
      · subst hk
        simp [hget]
      · simp [hk]
    | some v =>
      simp only [Option.map_some]
      rw [getEntry, ih]
      by_cases hk : k = key
      · subst hk
        simp [hget]
      · simp [hk, Ne.symm hk]

theorem get_applyRates (prefs r : Prefs N) (k : Text) :
    (applyRates prefs r).get k = if k ∈ rateKeys then r.get k else prefs.get k := by
  unfold applyRates get
  dsimp only
  generalize rateKeys = keys
  obtain ⟨l, hl⟩ := prefs
  dsimp only
  clear hl
  induction keys generalizing l with
  | nil => rfl
  | cons key keys ih =>
    rw [List.foldl_cons, ih, Json.getEntry_writeEntry]
    by_cases hk : k = key
    · subst hk
      simp
    · simp [hk]

@[simp] theorem rates_applyRates (prefs m : Prefs N) : rates (applyRates prefs (rates m)) = rates m := by
  refine ext_get fun k => ?_
  rw [get_rates, get_applyRates, get_rates]
  split <;> rfl

@[simp] theorem rates_rates (m : Prefs N) : rates (rates m) = rates m := by
  refine ext_get fun k => ?_
  rw [get_rates, get_rates]
  split <;> rfl

@[simp] theorem applyRates_rates (prefs : Prefs N) : applyRates prefs (rates prefs) = prefs := by
  refine ext_get fun k => ?_
  rw [get_applyRates, get_rates]
  split <;> rfl

@[simp] theorem applyRates_applyRates (prefs r : Prefs N) : applyRates (applyRates prefs r) r = applyRates prefs r := by
  refine ext_get fun k => ?_
  rw [get_applyRates, get_applyRates]
  split <;> rfl

/-- The document as a JSON value. -/
def toValue (prefs : Prefs N) : Value N := ⟨.object prefs.1, prefs.2⟩

end Prefs

/-! ## The two stores -/

/-- The queued edits at one moment (`Snapshot`). -/
structure Snapshot (N : Type) where
  generation : Int
  intent : Intent N
  deriving DecidableEq

/-- A confirmation of the edits up to a generation (`Confirmation`). -/
structure Confirmation (N : Type) where
  through : Int
  snapshot : Snapshot N
  receipt : Option (Text × Text)
  deriving DecidableEq

/-- A journal entry (`Pending`), with fingerprints of type `H`. -/
structure Pending (N H : Type) where
  version : Nat
  path : Text
  beforeHash : H
  afterHash : H
  rates : Prefs N
  confirmation : Option (Confirmation N)
  deriving DecidableEq

/-- What is fixed during a run: how numbers are read, the fingerprint, the path of the file if it is a text, and which
receipt keys name a binding. -/
structure Env (N R H : Type) where
  reading : Reading N R
  hash : Prefs N → H
  path : Option Text
  isReceiptKey : Text → Bool

/-- The database and the files. A stored text stands for the value that is read from it. -/
structure Machine (N H : Type) where
  journal : Option (Pending N H)
  queue : Sync.Queue (Edit N)
  receipts : List (Text × Text)
  primary : Option (Prefs N)
  legacy : Option (Prefs N)

/-- The preferences: those of the file, of the older file if there is none, or none (`load`). -/
def Machine.load (m : Machine N H) : Prefs N := m.primary.getD (m.legacy.getD Prefs.empty)

/-- Replace the file (`save`). -/
def Machine.save (m : Machine N H) (prefs : Prefs N) : Machine N H := { m with primary := some prefs }

@[simp] theorem Machine.load_save (m : Machine N H) (prefs : Prefs N) : (m.save prefs).load = prefs := rfl

variable (env : Env N R H)

/-- The queued edits now (`snapshot`). -/
def snapshot (m : Machine N H) : Except String (Snapshot N) :=
  match m.queue.dirty with
  | some generation => .ok ⟨generation, m.queue.legacy, m.queue.events⟩
  | none => .error "rate edit is no longer queued"

/-- Whether a receipt is the stored one. -/
def receiptError (m : Machine N H) (receipt : Option (Text × Text)) : Option String :=
  match receipt with
  | none => none
  | some (key, raw) =>
    if !env.isReceiptKey key then some "invalid rate receipt binding"
    else if getEntry key m.receipts ≠ some raw then some "rate publication receipt changed"
    else none

/-- Whether a confirmation fits the database (`validate`). -/
def validate (m : Machine N H) (c : Confirmation N) : Except String Unit :=
  if ¬ (0 < c.through ∧ c.through ≤ c.snapshot.generation) then .error "invalid rate confirmation generation"
  else (snapshot m).bind fun now =>
    if now ≠ c.snapshot then .error "rate intent changed before confirmation"
    else if c.snapshot.intent.legacy && decide (c.through ≠ c.snapshot.generation) then
      .error "newer untracked rate edits cannot be replayed"
    else match receiptError env m c.receipt with
      | some message => .error message
      | none => .ok ()

/-- Whether every key is a rate key. -/
def onlyRates (prefs : Prefs N) : Bool := prefs.1.all fun e => decide (e.1 ∈ rateKeys)

/-- Whether the required plan is among the plans that are saved. -/
def requiredPlanSaved (after : Prefs N) (force : Bool) (tag : Text) : Bool :=
  decide (trim tag ≠ []) && !force
    && ((after.get tagRates).bind Json.asObject).any fun plans => (getEntry tag plans).isSome

/-- Stage an edit with its journal entry (`stage_rate_preferences_with_tag`). -/
def stageRatePreferences (before after : Prefs N) (force : Bool) (requiredTag : Option Text) (now : Int)
    (pending : Pending N H) (m : Machine N H) : Except String (Machine N H) :=
  if requiredTag.any fun tag => !requiredPlanSaved after force tag then .error "required rate plan is missing"
  else if !(onlyRates before && onlyRates after) then .error "unrelated preferences cannot enter rate intent"
  else if m.journal.isSome then .error "rate preference publication already pending"
  else .ok { m with
    queue := m.queue.record now (.rateConfig before.toValue after.toValue force requiredTag),
    journal := some pending }

/-- Retire a journal entry (`finish`). -/
def finish (pending : Pending N H) (m : Machine N H) : Except String (Machine N H) :=
  if m.journal ≠ some pending then .error "rate preference journal changed" else .ok { m with journal := none }

/-- Stage a confirmation (`stage_rate_confirmation`). -/
def stageRateConfirmation (c : Confirmation N) (pending : Pending N H) (m : Machine N H) :
    Except String (Machine N H) :=
  (validate env m c).bind fun _ =>
    if m.journal.isSome then .error "rate file publication is already pending"
    else .ok { m with journal := some pending }

/-- What recovery checks of a confirmation before it touches the file (`check_rate_confirmation`). -/
def checkRateConfirmation (c : Confirmation N) (pending : Pending N H) (m : Machine N H) : Except String Unit :=
  (validate env m c).bind fun _ =>
    if m.journal ≠ some pending then .error "rate file publication changed" else .ok ()

/-- The database after a confirmation: its edits are retired, its receipt is gone, and so is the journal. -/
def confirmed (c : Confirmation N) (m : Machine N H) : Machine N H :=
  { m with
    queue := m.queue.settle c.through,
    receipts := match c.receipt with
      | some (key, _) => dropEntry key m.receipts
      | none => m.receipts,
    journal := none }

/-- Retire the edits of a confirmation with its journal entry (`finish_rate_confirmation`). The queue's own generation is
at least the confirmed one, so the row goes exactly when they are equal. -/
def finishRateConfirmation (c : Confirmation N) (pending : Pending N H) (m : Machine N H) :
    Except String (Machine N H) :=
  (validate env m c).bind fun _ =>
    if m.journal ≠ some pending then .error "rate file publication changed" else .ok (confirmed c m)

/-! ## Recovery -/

/-- Whether a journal entry is one of this file. -/
def isSource (pending : Pending N H) (path : Text) : Bool :=
  (decide (pending.version = 1) && pending.confirmation.isNone
      || decide (pending.version = 2) && pending.confirmation.isSome)
    && decide (pending.path = path) && onlyRates pending.rates

/-- The preferences with the rates of a journal entry: put in when the file was not replaced, else found there. -/
def broughtUp (pending : Pending N H) (current : Prefs N) : Except String (Prefs N) :=
  if env.hash current.rates = pending.beforeHash then .ok (current.applyRates pending.rates)
  else if env.hash current.rates = pending.afterHash then .ok current
  else .error "rates changed after an interrupted save; reconciliation required"

/-- The preferences that recovery saves. -/
def recovered (pending : Pending N H) (current : Prefs N) : Except String (Prefs N) :=
  (broughtUp env pending current).bind fun current =>
    if env.hash pending.rates = pending.afterHash ∧ current.rates = pending.rates then .ok current
    else .error "pending rate values do not match their fingerprint"

/-- The path of the preferences file. -/
def primaryPath : Except String Text :=
  match env.path with
  | some path => .ok path
  | none => .error "invalid preferences path"

/-- Retire a journal entry of either kind. -/
def retire (pending : Pending N H) (m : Machine N H) : Except String (Machine N H) :=
  match pending.confirmation with
  | some c => finishRateConfirmation env c pending m
  | none => finish pending m

/-- What recovery checks before it touches the file. -/
def checkPending (pending : Pending N H) (m : Machine N H) : Except String Unit :=
  match pending.confirmation with
  | some c => checkRateConfirmation env c pending m
  | none => .ok ()

/-- Bring the file up to a journal entry that is left, and retire it (`recover`). -/
def recover : Stoppable (Machine N H) String (Prefs N) := do
  let m ← Stoppable.get
  match m.journal with
  | none => pure m.load
  | some pending => do
    let path ← Stoppable.lift (primaryPath env)
    Stoppable.check (isSource pending path) "pending rate preference source changed"
    Stoppable.lift (checkPending env pending m)
    let current ← Stoppable.lift (recovered env pending m.load)
    Stoppable.effect fun m => .ok (m.save current)
    Stoppable.effect (retire env pending)
    pure current

/-! ## Calls -/

/-- Stage, replace the file, retire (`publish_with_tag`). -/
def publishWithTag (before after : Prefs N) (force : Bool) (requiredTag : Option Text) (now : Int) :
    Stoppable (Machine N H) String Unit := do
  let path ← Stoppable.lift (primaryPath env)
  let pending : Pending N H := ⟨1, path, env.hash before.rates, env.hash after.rates, after.rates, none⟩
  Stoppable.effect (stageRatePreferences before.rates after.rates force requiredTag now pending)
  Stoppable.effect fun m => .ok (m.save after)
  Stoppable.effect (finish pending)

/-- The confirmed document with the edits newer than a generation on top. -/
def replayed (intent : Intent N) (through : Int) (cloud : Value N) : Except String (Prefs N) :=
  match h : replayAfter env.reading intent through cloud.1 with
  | .error message => .error message
  | .ok (.object l) => .ok ⟨l, sorted_apply cloud.2 h⟩
  | .ok _ => .error "invalid confirmed rate document"

/-- Stage a confirmation, replace the file, retire (`confirm` after its recovery). -/
def publishConfirmation (before : Prefs N) (cloud : Value N) (through : Int) (receipt : Option (Text × Text)) :
    Stoppable (Machine N H) String Unit := do
  let m ← Stoppable.get
  let snapshot ← Stoppable.lift (snapshot m)
  let merged ← Stoppable.lift (replayed env snapshot.intent through cloud)
  let path ← Stoppable.lift (primaryPath env)
  let c : Confirmation N := ⟨through, snapshot, receipt⟩
  let pending : Pending N H := ⟨2, path, env.hash before.rates, env.hash merged.rates, merged.rates, some c⟩
  Stoppable.effect (stageRateConfirmation env c pending)
  Stoppable.effect fun m => .ok (m.save (before.applyRates merged.rates))
  Stoppable.effect (finishRateConfirmation env c pending)

/-- A call that writes preferences. An edit returns the new preferences, or nothing when there is nothing to save. -/
inductive Call (N : Type) where
  /-- `edit_prefs_at`. -/
  | editPrefs (force : Bool) (edit : Prefs N → Except String (Option (Prefs N))) (now : Int)
  /-- `update_rate_plan_at`. -/
  | updateRatePlan (tag : Text) (edit : Prefs N → Except String (Option (Prefs N))) (now : Int)
  /-- `confirm`. -/
  | confirm (cloud : Value N) (through : Int) (receipt : Option (Text × Text))
  /-- `store_rate_doc`. -/
  | storeRateDoc (doc : Value N)
  /-- A recovery of its own (`load_prefs_checked`). -/
  | loadPrefs

/-- What a call does once it has recovered. -/
def Call.body (before : Prefs N) : Call N → Stoppable (Machine N H) String Unit
  | .editPrefs force edit now => do
    let after ← Stoppable.lift (edit before)
    match after with
    | none => pure ()
    | some after =>
      if force ∨ before.rates ≠ after.rates then publishWithTag env before after force none now
      else Stoppable.effect fun m => .ok (m.save after)
  | .updateRatePlan tag edit now => do
    let after ← Stoppable.lift (edit before)
    match after with
    | none => pure ()
    | some after => publishWithTag env before after false (some tag) now
  | .confirm cloud through receipt => publishConfirmation env before cloud through receipt
  | .storeRateDoc doc => do
    let m ← Stoppable.get
    if m.queue.dirty.isSome then pure ()
    else match doc with
      | ⟨.object l, h⟩ => Stoppable.effect fun m => .ok (m.save (before.applyRates ⟨l, h⟩))
      | _ => pure ()
  | .loadPrefs => pure ()

/-- A call: the document it is given must be an object, then it recovers and does its work. -/
def Call.run (call : Call N) : Stoppable (Machine N H) String Unit := do
  match call with
  | .storeRateDoc doc => Stoppable.check doc.1.asObject.isSome "rate config doc is not an object"
  | _ => pure ()
  let before ← recover env
  call.body env before

/-! ## Invariant -/

/-- A journal entry that can be recovered: it is of this file, the file has its rates or those it started from, and a
confirmation still fits the database. -/
structure Pending.Recovers (m : Machine N H) (pending : Pending N H) : Prop where
  path : env.path = some pending.path
  rates : pending.rates.rates = pending.rates
  after : pending.afterHash = env.hash pending.rates
  side : env.hash m.load.rates = pending.beforeHash ∨ m.load.rates = pending.rates
  kind : (pending.version = 1 ∧ pending.confirmation = none)
    ∨ (pending.version = 2 ∧ ∃ c, pending.confirmation = some c ∧ validate env m c = .ok ())

/-- A journal entry that is left can be recovered. -/
def Recoverable (m : Machine N H) : Prop := ∀ pending, m.journal = some pending → pending.Recovers env m

/-- What retiring a journal entry makes of the queue: a confirmation retires its edits, an edit was recorded before. -/
def Pending.queueAfter (pending : Pending N H) (queue : Sync.Queue (Edit N)) : Sync.Queue (Edit N) :=
  match pending.confirmation with
  | some c => queue.settle c.through
  | none => queue

/-- What a recovery makes of a machine. -/
def settled (m : Machine N H) : Machine N H :=
  match m.journal with
  | none => m
  | some pending =>
    match pending.confirmation with
    | some c => confirmed c (m.save (m.load.applyRates pending.rates))
    | none => { m.save (m.load.applyRates pending.rates) with journal := none }

theorem settled_of_none {m : Machine N H} (h : m.journal = none) : settled m = m := by
  rw [settled, h]

theorem settled_of_edit {m : Machine N H} {pending : Pending N H} (h : m.journal = some pending)
    (hnone : pending.confirmation = none) :
    settled m = { m.save (m.load.applyRates pending.rates) with journal := none } := by
  rw [settled, h]
  dsimp only
  rw [hnone]

theorem settled_of_confirmation {m : Machine N H} {pending : Pending N H} {c : Confirmation N}
    (h : m.journal = some pending) (hc : pending.confirmation = some c) :
    settled m = confirmed c (m.save (m.load.applyRates pending.rates)) := by
  rw [settled, h]
  dsimp only
  rw [hc]

@[simp] theorem journal_settled (m : Machine N H) : (settled m).journal = none := by
  unfold settled
  split
  · assumption
  · split <;> rfl

theorem load_settled {m : Machine N H} {pending : Pending N H} (h : m.journal = some pending) :
    (settled m).load = m.load.applyRates pending.rates := by
  rw [settled, h]
  dsimp only
  split <;> rfl

theorem recoverable_of_none {m : Machine N H} (h : m.journal = none) : Recoverable env m := by
  intro pending hpending
  rw [h] at hpending
  exact absurd hpending (by simp)

variable {env} {m : Machine N H} {pending : Pending N H}

theorem onlyRates_rates (prefs : Prefs N) : onlyRates prefs.rates = true := by
  refine List.all_eq_true.mpr fun e he => ?_
  obtain ⟨k, hk, he⟩ := List.mem_filterMap.mp he
  obtain ⟨v, -, rfl⟩ := Option.map_eq_some_iff.mp he
  exact decide_eq_true hk

/-- The rates recovery saves are those of the journal entry. -/
theorem recovered_eq (h : pending.Recovers env m) :
    recovered env pending m.load = .ok (m.load.applyRates pending.rates) := by
  have hrates : (m.load.applyRates pending.rates).rates = pending.rates := by
    rw [← h.rates, Prefs.rates_applyRates]
  have hup : broughtUp env pending m.load = .ok (m.load.applyRates pending.rates) := by
    unfold broughtUp
    split
    · rfl
    · rename_i hbefore
      -- the file was replaced before the call was stopped
      have hside := h.side.resolve_left hbefore
      rw [if_pos (by rw [hside, h.after]), ← hside, Prefs.applyRates_rates]
  rw [recovered, hup]
  exact if_pos ⟨h.after.symm, hrates⟩

theorem isSource_eq (h : pending.Recovers env m) : isSource pending pending.path = true := by
  have honly : onlyRates pending.rates = true := h.rates ▸ onlyRates_rates pending.rates
  unfold isSource
  rcases h.kind with ⟨hversion, hnone⟩ | ⟨hversion, c, hc, -⟩
  · simp [hversion, hnone, honly]
  · simp [hversion, hc, honly]

theorem checkPending_eq (h : pending.Recovers env m) (hjournal : m.journal = some pending) :
    checkPending env pending m = .ok () := by
  unfold checkPending
  rcases h.kind with ⟨-, hnone⟩ | ⟨-, c, hc, hvalid⟩
  · rw [hnone]
  · rw [hc]
    simp [checkRateConfirmation, hvalid, hjournal, Except.bind]

/-- Retiring the entry settles the machine. -/
theorem retire_eq (h : pending.Recovers env m) (hjournal : m.journal = some pending) :
    retire env pending (m.save (m.load.applyRates pending.rates)) = .ok (settled m) := by
  have hsaved : (m.save (m.load.applyRates pending.rates)).journal = some pending := hjournal
  unfold retire
  rcases h.kind with ⟨-, hnone⟩ | ⟨-, c, hc, hvalid⟩
  · rw [settled_of_edit hjournal hnone, hnone]
    exact if_neg (not_not.mpr hsaved)
  · have hvalid' : validate env (m.save (m.load.applyRates pending.rates)) c = .ok () := hvalid
    rw [settled_of_confirmation hjournal hc, hc]
    dsimp only
    rw [finishRateConfirmation, hvalid']
    exact if_neg (not_not.mpr hsaved)

/-- **What a recovery does**: it saves the file with the entry's rates, and settles the machine. -/
theorem recover_eq (h : pending.Recovers env m) (hjournal : m.journal = some pending) :
    recover env m = ([m.save (m.load.applyRates pending.rates), settled m], .ok (m.load.applyRates pending.rates)) := by
  have hpath : primaryPath env = .ok pending.path := by rw [primaryPath, h.path]
  unfold recover
  simp only [Stoppable.andThen, Stoppable.result, Stoppable.final, Stoppable.get, Stoppable.lift, Stoppable.check, Stoppable.effect,
    bind, pure, Stoppable.done, hjournal, hpath, isSource_eq h, checkPending_eq h hjournal, recovered_eq h,
    List.getLastD_nil, List.getLastD_cons, List.nil_append, List.append_nil, if_pos, retire_eq h hjournal,
    List.singleton_append]

theorem recover_eq_none (h : m.journal = none) : recover env m = ([], .ok m.load) := by
  unfold recover
  simp only [Stoppable.andThen, Stoppable.result, Stoppable.get, bind, pure, Stoppable.done, h, List.append_nil]

/-- **A recovery succeeds and settles the machine, and it may be stopped anywhere.** -/
theorem recover_settles (h : Recoverable env m) :
    (recover env).result m = .ok (settled m).load ∧ (recover env).final m = settled m
      ∧ ∀ t ∈ (recover env).stops m, Recoverable env t ∧ settled t = settled m := by
  cases hjournal : m.journal with
  | none =>
    unfold Stoppable.result Stoppable.final Stoppable.stops
    rw [recover_eq_none hjournal, settled_of_none hjournal]
    refine ⟨rfl, rfl, fun t ht => ?_⟩
    rw [List.mem_singleton.mp ht]
    exact ⟨h, settled_of_none hjournal⟩
  | some pending =>
    have hok := h pending hjournal
    unfold Stoppable.result Stoppable.final Stoppable.stops
    rw [recover_eq hok hjournal, load_settled hjournal]
    refine ⟨rfl, rfl, fun t ht => ?_⟩
    simp only [List.mem_cons, List.not_mem_nil, or_false] at ht
    rcases ht with rfl | rfl | rfl
    · exact ⟨h, rfl⟩
    · -- the file is replaced, the entry is still there
      refine ⟨fun p hp => ?_, ?_⟩
      · obtain rfl : pending = p := Option.some.inj (hjournal.symm.trans hp)
        refine ⟨hok.path, hok.rates, hok.after, Or.inr ?_, hok.kind⟩
        rw [Machine.load_save, ← hok.rates, Prefs.rates_applyRates]
      · have hsaved : (m.save (m.load.applyRates pending.rates)).journal = some pending := hjournal
        unfold settled
        rw [hsaved, hjournal]
        dsimp only
        rw [Machine.load_save, Prefs.applyRates_applyRates]
        split <;> rfl
    · exact ⟨recoverable_of_none env (journal_settled m), settled_of_none (journal_settled m)⟩

/-! ## What calls do -/

/-- The machine with one edit more in its queue and a new file. -/
def Machine.published (m : Machine N H) (before after : Prefs N) (force : Bool) (requiredTag : Option Text) (now : Int)
    (file : Prefs N) : Machine N H :=
  { m.save file with
    queue := m.queue.record now (.rateConfig before.rates.toValue after.rates.toValue force requiredTag),
    journal := none }

variable (env) in
/-- **What a call does to a settled machine, however far it gets**: nothing; a plain save; one more edit in the queue,
with the whole new file or with its rates only; one confirmation; or the Cloud's rates. -/
inductive Outcome (m : Machine N H) : Call N → Machine N H → Prop where
  | nothing (call : Call N) : Outcome m call m
  | saved (edit : Prefs N → Except String (Option (Prefs N))) (now : Int) (after : Prefs N)
      (edited : edit m.load = .ok (some after)) (same : m.load.rates = after.rates) :
      Outcome m (.editPrefs false edit now) (m.save after)
  | edited (force : Bool) (edit : Prefs N → Except String (Option (Prefs N))) (now : Int) (after file : Prefs N)
      (edited : edit m.load = .ok (some after)) (whole : file = after ∨ file = m.load.applyRates after.rates) :
      Outcome m (.editPrefs force edit now) (m.published m.load after force none now file)
  | planned (tag : Text) (edit : Prefs N → Except String (Option (Prefs N))) (now : Int) (after file : Prefs N)
      (edited : edit m.load = .ok (some after)) (whole : file = after ∨ file = m.load.applyRates after.rates) :
      Outcome m (.updateRatePlan tag edit now) (m.published m.load after false (some tag) now file)
  | confirmed (cloud : Value N) (receipt : Option (Text × Text)) (c : Confirmation N) (merged : Prefs N)
      (snapshotted : snapshot m = .ok c.snapshot) (received : c.receipt = receipt)
      (replayed : replayed env c.snapshot.intent c.through cloud = .ok merged) (valid : validate env m c = .ok ()) :
      Outcome m (.confirm cloud c.through receipt)
        (SentryUsb.Rates.confirmed c (m.save (m.load.applyRates merged.rates)))
  | stored (doc : Value N) (l : Prefs N) (object : doc = l.toValue) (clean : m.queue.dirty = none) :
      Outcome m (.storeRateDoc doc) (m.save (m.load.applyRates l))

/-- Stage, save, retire: stopped before, after staging, after saving, or at the end. -/
theorem stage_save_retire_stops {stage retire : Machine N H → Except String (Machine N H)} {file : Prefs N}
    {t : Machine N H} (ht : t ∈ Stoppable.stops (do
      Stoppable.effect stage
      Stoppable.effect fun m => .ok (m.save file)
      Stoppable.effect retire) m) :
    t = m ∨ ∃ staged, stage m = .ok staged ∧ (t = staged ∨ t = staged.save file ∨ retire (staged.save file) = .ok t) := by
  rcases Stoppable.stops_effect_bind ht with rfl | ⟨staged, hstaged, ht⟩
  · exact Or.inl rfl
  · refine Or.inr ⟨staged, hstaged, ?_⟩
    rcases Stoppable.stops_effect_bind ht with rfl | ⟨saved, hsaved, ht⟩
    · exact Or.inl rfl
    · obtain rfl := Except.ok.inj hsaved
      rcases Stoppable.stops_effect ht with rfl | ht
      · exact Or.inr (Or.inl rfl)
      · exact Or.inr (Or.inr ht)

theorem path_of_primaryPath {path : Text} (h : primaryPath env = .ok path) : env.path = some path := by
  unfold primaryPath at h
  split at h
  · rename_i p hp
    rw [hp, Except.ok.inj h]
  · exact absurd h (by simp)

theorem stageRatePreferences_eq_ok {before after : Prefs N} {force : Bool} {requiredTag : Option Text} {now : Int}
    {staged : Machine N H} (h : stageRatePreferences before after force requiredTag now pending m = .ok staged) :
    staged = { m with
      queue := m.queue.record now (.rateConfig before.toValue after.toValue force requiredTag),
      journal := some pending } := by
  unfold stageRatePreferences at h
  split at h
  · exact absurd h (by simp)
  · split at h
    · exact absurd h (by simp)
    · split at h
      · exact absurd h (by simp)
      · exact (Except.ok.inj h).symm

theorem finish_eq_ok {t : Machine N H} (h : finish pending m = .ok t) :
    m.journal = some pending ∧ t = { m with journal := none } := by
  unfold finish at h
  split at h
  · exact absurd h (by simp)
  · rename_i hjournal
    exact ⟨not_not.mp hjournal, (Except.ok.inj h).symm⟩

/-- A publication, stopped anywhere: nothing, or one edit more. -/
theorem publishWithTag_stops (hjournal : m.journal = none) {after : Prefs N} {force : Bool} {requiredTag : Option Text}
    {now : Int} {t : Machine N H} (ht : t ∈ (publishWithTag env m.load after force requiredTag now).stops m) :
    Recoverable env t ∧ (settled t = m ∨ ∃ file, (file = after ∨ file = m.load.applyRates after.rates)
      ∧ settled t = m.published m.load after force requiredTag now file) := by
  have hself : Recoverable env m ∧ settled m = m := ⟨recoverable_of_none env hjournal, settled_of_none hjournal⟩
  rcases Stoppable.stops_lift_bind ht with rfl | ⟨path, hpath, ht⟩
  · exact ⟨hself.1, Or.inl hself.2⟩
  rcases stage_save_retire_stops ht with rfl | ⟨staged, hstage, ht⟩
  · exact ⟨hself.1, Or.inl hself.2⟩
  obtain rfl := stageRatePreferences_eq_ok hstage
  have hrecovers : ∀ t : Machine N H, t.load = m.load ∨ t.load = after →
      Pending.Recovers env t ⟨1, path, env.hash m.load.rates, env.hash after.rates, after.rates, none⟩ := by
    intro t hload
    refine ⟨path_of_primaryPath hpath, Prefs.rates_rates after, rfl, ?_, Or.inl ⟨rfl, rfl⟩⟩
    rcases hload with hload | hload
    · exact Or.inl (by rw [hload])
    · exact Or.inr (by rw [hload])
  rcases ht with rfl | rfl | hretired
  · refine ⟨fun p hp => ?_, Or.inr ⟨_, Or.inr rfl, ?_⟩⟩
    · obtain rfl := Option.some.inj hp
      exact hrecovers _ (Or.inl rfl)
    · rw [settled_of_edit rfl rfl]
      rfl
  · refine ⟨fun p hp => ?_, Or.inr ⟨after, Or.inl rfl, ?_⟩⟩
    · obtain rfl := Option.some.inj hp
      exact hrecovers _ (Or.inr rfl)
    · rw [settled_of_edit rfl rfl, Machine.load_save, Prefs.applyRates_rates]
      rfl
  · obtain ⟨-, rfl⟩ := finish_eq_ok hretired
    refine ⟨recoverable_of_none env rfl, Or.inr ⟨after, Or.inl rfl, ?_⟩⟩
    rw [settled_of_none rfl]
    rfl

theorem stageRateConfirmation_eq_ok {c : Confirmation N} {staged : Machine N H}
    (h : stageRateConfirmation env c pending m = .ok staged) :
    validate env m c = .ok () ∧ staged = { m with journal := some pending } := by
  obtain ⟨u, hvalid, h⟩ := bind_eq_ok.mp h
  split at h
  · exact absurd h (by simp)
  · exact ⟨hvalid, (Except.ok.inj h).symm⟩

theorem finishRateConfirmation_eq_ok {c : Confirmation N} {t : Machine N H}
    (h : finishRateConfirmation env c pending m = .ok t) : t = confirmed c m := by
  obtain ⟨u, -, h⟩ := bind_eq_ok.mp h
  split at h
  · exact absurd h (by simp)
  · exact (Except.ok.inj h).symm

/-- A confirmation, stopped anywhere: nothing, or one confirmation. -/
theorem publishConfirmation_stops (hjournal : m.journal = none) {cloud : Value N} {through : Int}
    {receipt : Option (Text × Text)} {t : Machine N H}
    (ht : t ∈ (publishConfirmation env m.load cloud through receipt).stops m) :
    Recoverable env t ∧ Outcome env m (.confirm cloud through receipt) (settled t) := by
  have hself : Recoverable env m ∧ Outcome env m (.confirm cloud through receipt) (settled m) := by
    rw [settled_of_none hjournal]
    exact ⟨recoverable_of_none env hjournal, .nothing _⟩
  rcases Stoppable.stops_lift_bind (Stoppable.stops_get_bind ht) with rfl | ⟨snap, hsnap, ht⟩
  · exact hself
  rcases Stoppable.stops_lift_bind ht with rfl | ⟨merged, hmerged, ht⟩
  · exact hself
  rcases Stoppable.stops_lift_bind ht with rfl | ⟨path, hpath, ht⟩
  · exact hself
  rcases stage_save_retire_stops ht with rfl | ⟨staged, hstage, ht⟩
  · exact hself
  obtain ⟨hvalid, rfl⟩ := stageRateConfirmation_eq_ok hstage
  have houtcome := Outcome.confirmed cloud receipt ⟨through, snap, receipt⟩ merged hsnap rfl hmerged hvalid
  have hrecovers : ∀ t : Machine N H, validate env t ⟨through, snap, receipt⟩ = .ok () →
      t.load = m.load ∨ t.load = m.load.applyRates merged.rates →
      Pending.Recovers env t ⟨2, path, env.hash m.load.rates, env.hash merged.rates, merged.rates,
        some ⟨through, snap, receipt⟩⟩ := by
    intro t hvalid hload
    refine ⟨path_of_primaryPath hpath, Prefs.rates_rates merged, rfl, ?_, Or.inr ⟨rfl, _, rfl, hvalid⟩⟩
    rcases hload with hload | hload
    · exact Or.inl (by rw [hload])
    · exact Or.inr (by rw [hload, Prefs.rates_applyRates])
  rcases ht with rfl | rfl | hretired
  · refine ⟨fun p hp => ?_, ?_⟩
    · obtain rfl := Option.some.inj hp
      exact hrecovers _ hvalid (Or.inl rfl)
    · rw [settled_of_confirmation rfl rfl]
      exact houtcome
  · refine ⟨fun p hp => ?_, ?_⟩
    · obtain rfl := Option.some.inj hp
      exact hrecovers _ hvalid (Or.inr rfl)
    · rw [settled_of_confirmation rfl rfl, Machine.load_save, Prefs.applyRates_applyRates]
      exact houtcome
  · obtain rfl := finishRateConfirmation_eq_ok hretired
    rw [settled_of_none rfl]
    exact ⟨recoverable_of_none env rfl, houtcome⟩

/-- **What the body of a call does**, stopped anywhere. -/
theorem body_stops (hjournal : m.journal = none) (call : Call N) {t : Machine N H}
    (ht : t ∈ (call.body env m.load).stops m) : Recoverable env t ∧ Outcome env m call (settled t) := by
  have hself : ∀ call, Recoverable env m ∧ Outcome env m call (settled m) := by
    intro call
    rw [settled_of_none hjournal]
    exact ⟨recoverable_of_none env hjournal, .nothing _⟩
  have hsave : ∀ {prefs : Prefs N} {t}, t ∈ (Stoppable.effect (ε := String) fun m => .ok (m.save prefs)).stops m →
      Outcome env m call (m.save prefs) → Recoverable env t ∧ Outcome env m call (settled t) := by
    intro prefs t ht houtcome
    rcases Stoppable.stops_effect ht with rfl | ht
    · exact hself call
    · obtain rfl := Except.ok.inj ht
      have hnone : (m.save prefs).journal = none := hjournal
      rw [settled_of_none hnone]
      exact ⟨recoverable_of_none env hnone, houtcome⟩
  cases call with
  | editPrefs force edit now =>
    rcases Stoppable.stops_lift_bind ht with rfl | ⟨after, hafter, hstop⟩
    · exact hself _
    cases after with
    | none => exact List.mem_singleton.mp hstop ▸ hself _
    | some after =>
      dsimp only at hstop
      split at hstop
      · obtain ⟨hrecoverable, hsettled | ⟨file, hfile, hsettled⟩⟩ := publishWithTag_stops hjournal hstop
        · rw [hsettled]
          exact ⟨hrecoverable, .nothing _⟩
        · rw [hsettled]
          exact ⟨hrecoverable, .edited force edit now after file hafter hfile⟩
      · rename_i hsame
        rw [not_or, not_not] at hsame
        obtain rfl : force = false := by simpa using hsame.1
        exact hsave hstop (.saved edit now after hafter hsame.2)
  | updateRatePlan tag edit now =>
    rcases Stoppable.stops_lift_bind ht with rfl | ⟨after, hafter, ht⟩
    · exact hself _
    cases after with
    | none => exact List.mem_singleton.mp ht ▸ hself _
    | some after =>
      obtain ⟨hrecoverable, hsettled | ⟨file, hfile, hsettled⟩⟩ := publishWithTag_stops hjournal ht
      · rw [hsettled]
        exact ⟨hrecoverable, .nothing _⟩
      · rw [hsettled]
        exact ⟨hrecoverable, .planned tag edit now after file hafter hfile⟩
  | confirm cloud through receipt => exact publishConfirmation_stops hjournal ht
  | storeRateDoc doc =>
    have ht := Stoppable.stops_get_bind ht
    split at ht
    · exact List.mem_singleton.mp ht ▸ hself _
    · rename_i hclean
      obtain ⟨v, hv⟩ := doc
      cases v with
      | object l => exact hsave ht (.stored _ ⟨l, hv⟩ rfl (by simpa using hclean))
      | _ => exact List.mem_singleton.mp ht ▸ hself _
  | loadPrefs => exact List.mem_singleton.mp ht ▸ hself _

/-- **Every call, stopped anywhere, is all or nothing once the machine is settled.** -/
theorem run_stops (h : Recoverable env m) (call : Call N) {t : Machine N H} (ht : t ∈ (call.run env).stops m) :
    Recoverable env t ∧ Outcome env (settled m) call (settled t) := by
  obtain ⟨hresult, hfinal, hstops⟩ := recover_settles h
  have hrest : ∀ {t}, t ∈ Stoppable.stops (do
      let before ← recover env
      call.body env before) m → Recoverable env t ∧ Outcome env (settled m) call (settled t) := by
    intro t ht
    rcases Stoppable.mem_stops_bind.mp ht with ht | ⟨before, hbefore, ht⟩
    · obtain ⟨hrecoverable, hsettled⟩ := hstops t ht
      rw [hsettled]
      exact ⟨hrecoverable, .nothing _⟩
    · obtain rfl := Except.ok.inj (hresult.symm.trans hbefore)
      rw [hfinal] at ht
      exact body_stops (journal_settled m) call ht
  have hself : Recoverable env m ∧ Outcome env (settled m) call (settled m) := ⟨h, .nothing _⟩
  unfold Call.run at ht
  split at ht
  · rcases Stoppable.mem_stops_bind.mp ht with ht | ⟨u, -, ht⟩
    · exact List.mem_singleton.mp ht ▸ hself
    · exact hrest ht
  · exact hrest ht

/-! ## Runs -/

variable (env) in
/-- A call is made, and stopped somewhere, at its end at the latest. -/
def Stopped (m t : Machine N H) : Prop := ∃ call : Call N, t ∈ (call.run env).stops m

/-- Whatever calls were stopped where, the journal can be recovered. -/
theorem recoverable_of_run {m₀ : Machine N H} (hstart : m₀.journal = none)
    (hrun : Relation.ReflTransGen (Stopped env) m₀ m) : Recoverable env m := by
  induction hrun with
  | refl => exact recoverable_of_none env hstart
  | tail _ hstep ih =>
    obtain ⟨call, ht⟩ := hstep
    exact (run_stops ih call ht).1

/-- Whole numbers as prices, and documents as their own fingerprints. -/
def plainEnv : Env ℕ ℕ (Prefs ℕ) where
  reading := wholePrices
  hash := id
  path := some "/mutable/.sentryusb_preferences.json".toList
  isReceiptKey := fun _ => true

/-- Preferences with a default rate. -/
def onePrice (price : ℕ) : Prefs ℕ := ⟨[(defaultRate, .number price)], by
  refine .object (List.pairwise_singleton _ _) fun e he => ?_
  rw [List.mem_singleton.mp he]
  exact .number price⟩

/-- A machine with a price, on which nothing was edited yet. -/
def freshMachine : Machine ℕ (Prefs ℕ) := ⟨none, Sync.Queue.empty, [], some (onePrice 1), none⟩

/-- The price is changed. -/
def priceEdit : Call ℕ := .editPrefs false (fun _ => .ok (some (onePrice 2))) 7

/-- The machine after the edit was staged and before the file was replaced. -/
def stagedMachine : Machine ℕ (Prefs ℕ) := ((priceEdit.run plainEnv).stops freshMachine).getD 1 freshMachine

end SentryUsb.Rates
