import SentryUsb.Library.TransitionSystem
import SentryUsb.Store.RouteRow

/-! # The row counters of the store

The store counts its routes and its processed files in two atomics, so that nobody has to count a table. The calls that
change single rows add what they changed after they have given the connection back; those that change many count the
tables again, under the connection's lock, in a second section of their own. Any number of calls may be in progress, and
what lies between two sections of one may be taken apart by the others.

* **`addRouteObj`**, **`deleteRoutesByFiles`**, … — the locked sections (`db.rs`);
* **`Call`** — a call in progress: what it still has to add, or how far its recount is;
* **`Balanced`** — counters and what is still to be added make up the rows, unless a recount is to come;
* **`counters_agree`** — with no recount while an addition is outstanding, idle counters are the numbers of rows. -/

namespace SentryUsb.Store.RowCounters

open Library

/-- The two counters. -/
inductive Counter where
  | routes
  | processed
  deriving DecidableEq, Repr

/-- A call in progress, after its first section. -/
inductive Call where
  /-- Additions that are left, in their order. -/
  | adjusting (rest : List (Counter × Int))
  /-- Before the lock of `refresh_counts`. -/
  | recounting
  /-- Under that lock, the tables counted. -/
  | counted (routes processed : Int)
  /-- Under that lock, `route_count` stored. -/
  | stored (processed : Int)
  deriving DecidableEq, Repr

/-- Rows by their keys, the counters, and the calls in progress. -/
structure StoreState where
  routes : Finset Text
  processed : Finset Text
  routeCount : Int
  processedCount : Int
  calls : List Call
  deriving DecidableEq

/-! ## Locked sections -/

/-- The rows after `INSERT OR IGNORE`, and how many it inserted. -/
def insertOrIgnore (key : Text) (rows : Finset Text) : Finset Text × Int :=
  if key ∈ rows then (rows, 0) else (insert key rows, 1)

/-- The transaction of `add_route_obj`. A clip without points gets no route. -/
def addRouteObj (path : Text) (hasPoints : Bool) (s : StoreState) : StoreState :=
  let norm := normalizePath path
  let pf := insertOrIgnore norm s.processed
  let route := if hasPoints then insertOrIgnore norm s.routes else (s.routes, 0)
  { s with
    processed := pf.1
    routes := route.1
    calls := .adjusting [(.processed, pf.2), (.routes, route.2)] :: s.calls }

/-- The statement of `mark_processed`. -/
def markProcessed (path : Text) (s : StoreState) : StoreState :=
  let pf := insertOrIgnore (normalizePath path) s.processed
  { s with processed := pf.1, calls := .adjusting [(.processed, pf.2)] :: s.calls }

/-- The rows after one `DELETE` for each file, and how many there were. -/
def deleteFiles : List Text → Finset Text → Finset Text × Int
  | [], rows => (rows, 0)
  | f :: files, rows =>
    let norm := normalizePath f
    let rest := deleteFiles files (rows.erase norm)
    (rest.1, rest.2 + if norm ∈ rows then 1 else 0)

/-- The transaction of `delete_routes_by_files`. -/
def deleteRoutesByFiles (files : List Text) (s : StoreState) : StoreState :=
  let routes := deleteFiles files s.routes
  let processed := deleteFiles files s.processed
  { s with
    routes := routes.1
    processed := processed.1
    calls := .adjusting [(.routes, -routes.2), (.processed, -processed.2)] :: s.calls }

/-- The statement of `clear_processed_for_reprocess`. -/
def clearProcessedForReprocess (s : StoreState) : StoreState :=
  { s with processed := ∅, calls := .recounting :: s.calls }

/-- The statements of `clear_all_drives`, of which the first `done` succeed: routes go with the third, processed files
with the fourth, and unless all five do the call ends with an error. -/
def clearAllDrives (done : Nat) (s : StoreState) : StoreState :=
  { s with
    routes := if 3 ≤ done then ∅ else s.routes
    processed := if 4 ≤ done then ∅ else s.processed
    calls := if 5 ≤ done then .recounting :: s.calls else s.calls }

/-- The import of `import_json_file` has committed the rows it takes; the cursor reset after it may fail the call. -/
def importJsonFile (routes processed : Finset Text) (fails : Bool) (s : StoreState) : StoreState :=
  { s with
    routes := s.routes ∪ routes
    processed := s.processed ∪ processed
    calls := if fails then s.calls else .recounting :: s.calls }

/-! ## Steps -/

def Call.holdsLock : Call → Bool
  | .counted _ _ | .stored _ => true
  | .adjusting _ | .recounting => false

/-- A step of a call: its first section, or the next step of a call in progress. A section whose transaction fails
changes nothing and is no step. -/
inductive Act where
  | addRouteObj (path : Text) (hasPoints : Bool)
  | markProcessed (path : Text)
  | deleteRoutesByFiles (files : List Text)
  | clearProcessedForReprocess
  | clearAllDrives (done : Nat)
  | importJsonFile (routes processed : Finset Text) (fails : Bool)
  /-- One atomic addition, or the return after the last one. -/
  | adjust (rest : List (Counter × Int))
  /-- `refresh_counts` takes the lock and counts, or fails. -/
  | count (fails : Bool)
  | storeRoutes (routes processed : Int)
  | storeProcessed (processed : Int)

/-- Nobody holds the connection. -/
def StoreState.free (s : StoreState) : Prop := ∀ c ∈ s.calls, c.holdsLock = false

instance (s : StoreState) : Decidable s.free := inferInstanceAs (Decidable (∀ c ∈ s.calls, c.holdsLock = false))

/-- An atomic addition. -/
def StoreState.fetchAdd (s : StoreState) : Counter × Int → StoreState
  | (.routes, d) => { s with routeCount := s.routeCount + d }
  | (.processed, d) => { s with processedCount := s.processedCount + d }

/-- A call in progress gives way to its next point. -/
def StoreState.next (s : StoreState) (call : Call) (after : List Call) : StoreState :=
  { s with calls := after ++ s.calls.erase call }

def step (s : StoreState) : Act → Option StoreState
  | .addRouteObj path hasPoints => if s.free then some (addRouteObj path hasPoints s) else none
  | .markProcessed path => if s.free then some (markProcessed path s) else none
  | .deleteRoutesByFiles files => if s.free then some (deleteRoutesByFiles files s) else none
  | .clearProcessedForReprocess => if s.free then some (clearProcessedForReprocess s) else none
  | .clearAllDrives done => if s.free then some (clearAllDrives done s) else none
  | .importJsonFile routes processed fails =>
    if s.free then some (importJsonFile routes processed fails s) else none
  | .adjust [] => if .adjusting [] ∈ s.calls then some (s.next (.adjusting []) []) else none
  | .adjust (a :: rest) =>
    if .adjusting (a :: rest) ∈ s.calls then
      some ((s.fetchAdd a).next (.adjusting (a :: rest)) [.adjusting rest])
    else none
  | .count fails =>
    if s.free ∧ .recounting ∈ s.calls then
      some (s.next .recounting (if fails then [] else [.counted s.routes.card s.processed.card]))
    else none
  | .storeRoutes routes processed =>
    if .counted routes processed ∈ s.calls then
      some ({ s with routeCount := routes }.next (.counted routes processed) [.stored processed])
    else none
  | .storeProcessed processed =>
    if .stored processed ∈ s.calls then some ({ s with processedCount := processed }.next (.stored processed) [])
    else none

/-- A store as it is opened, counted. -/
def opened (routes processed : Finset Text) : StoreState := ⟨routes, processed, routes.card, processed.card, []⟩

/-! ## Additions that are left -/

def Call.adjustments : Call → List (Counter × Int)
  | .adjusting rest => rest
  | .recounting | .counted _ _ | .stored _ => []

/-- What additions amount to for a counter. -/
def amount (k : Counter) (as : List (Counter × Int)) : Int := (as.map fun a => if a.1 = k then a.2 else 0).sum

/-- What is left to be added to a counter. -/
def StoreState.pending (s : StoreState) (k : Counter) : Int := (s.calls.map fun c => amount k c.adjustments).sum

/-- Nobody has anything left to add. -/
def StoreState.settled (s : StoreState) : Prop := ∀ c ∈ s.calls, ∀ a ∈ c.adjustments, a.2 = 0

/-- **The condition on a step.** Tables are counted while no call has an addition left, and a call that has changed rows
it does not count singly gets to its recount. -/
def Careful (s : StoreState) : Act → Prop
  | .count fails => fails = false ∧ s.settled
  | .clearAllDrives done => done < 3 ∨ 5 ≤ done
  | .importJsonFile _ _ fails => fails = false
  | _ => True

/-! ## Rows and additions -/

def StoreState.rows (s : StoreState) : Counter → Finset Text
  | .routes => s.routes
  | .processed => s.processed

def StoreState.counter (s : StoreState) : Counter → Int
  | .routes => s.routeCount
  | .processed => s.processedCount

theorem card_insertOrIgnore (key : Text) (rows : Finset Text) :
    ((insertOrIgnore key rows).1.card : Int) = rows.card + (insertOrIgnore key rows).2 := by
  unfold insertOrIgnore
  split
  · exact (Int.add_zero _).symm
  · rename_i hnew
    rw [Finset.card_insert_of_notMem hnew]
    rfl

theorem card_deleteFiles (files : List Text) (rows : Finset Text) :
    ((deleteFiles files rows).1.card : Int) = rows.card - (deleteFiles files rows).2 := by
  induction files generalizing rows with
  | nil => exact (Int.sub_zero _).symm
  | cons f files ih =>
    simp only [deleteFiles]
    rw [ih]
    split
    · rename_i hmem
      have hcard := Finset.card_erase_add_one hmem
      omega
    · rename_i hnew
      rw [Finset.erase_eq_of_notMem hnew]
      omega

theorem amount_cons (k : Counter) (a : Counter × Int) (as : List (Counter × Int)) :
    amount k (a :: as) = (if a.1 = k then a.2 else 0) + amount k as := by
  simp only [amount, List.map_cons, List.sum_cons]

theorem amount_of_zero {k : Counter} {as : List (Counter × Int)} (h : ∀ a ∈ as, a.2 = 0) : amount k as = 0 := by
  induction as with
  | nil => rfl
  | cons a as ih =>
    rw [amount_cons, ih fun b hb => h b (List.mem_cons_of_mem _ hb), h a List.mem_cons_self]
    simp

/-- What a call that goes on leaves to be added. -/
theorem pending_next {s : StoreState} {call : Call} (hcall : call ∈ s.calls) (after : List Call) (k : Counter) :
    (s.next call after).pending k + amount k call.adjustments
      = s.pending k + (after.map fun c => amount k c.adjustments).sum := by
  have hperm := (List.perm_cons_erase hcall).map fun c => amount k c.adjustments
  have hsum := hperm.sum_eq
  rw [List.map_cons, List.sum_cons] at hsum
  simp only [StoreState.pending, StoreState.next, List.map_append, List.sum_append]
  rw [hsum]
  omega

theorem mem_of_mem_next {s : StoreState} {call c : Call} {after : List Call} (h : c ∈ (s.next call after).calls) :
    c ∈ after ∨ c ∈ s.calls := by
  rcases List.mem_append.mp h with h | h
  · exact Or.inl h
  · exact Or.inr (List.mem_of_mem_erase h)

theorem mem_next_of_ne {s : StoreState} {call c : Call} (after : List Call) (h : c ∈ s.calls) (hne : c ≠ call) :
    c ∈ (s.next call after).calls :=
  List.mem_append_right _ ((List.mem_erase_of_ne hne).mpr h)

theorem pending_of_settled {s : StoreState} (h : s.settled) (k : Counter) : s.pending k = 0 := by
  have hzero : ∀ x ∈ s.calls.map (fun c => amount k c.adjustments), x = 0 := by
    intro x hx
    obtain ⟨c, hc, rfl⟩ := List.mem_map.mp hx
    exact amount_of_zero (h c hc)
  exact List.sum_eq_zero hzero

/-! ## What every run keeps -/

/-- A call that has changed rows and is to count them, or is counting. -/
def Call.recounts : Call → Bool
  | .adjusting _ => false
  | .recounting | .counted _ _ | .stored _ => true

/-- What a call under the lock knows. -/
def Call.Sound (s : StoreState) : Call → Prop
  | .counted routes processed => s.settled ∧ routes = s.routes.card ∧ processed = s.processed.card
  | .stored processed => s.settled ∧ s.routeCount = s.routes.card ∧ processed = s.processed.card
  | .adjusting _ | .recounting => True

/-- **The invariant.** Counters and what is left to be added make up the rows, unless a recount is to come. -/
structure Balanced (s : StoreState) : Prop where
  sound : ∀ c ∈ s.calls, c.Sound s
  balance : (∀ c ∈ s.calls, c.recounts = false) → ∀ k, s.counter k + s.pending k = (s.rows k).card

theorem Call.sound_of_free {s t : StoreState} (hfree : s.free) {c : Call} (hc : c ∈ s.calls) : c.Sound t := by
  cases c with
  | adjusting _ | recounting => trivial
  | counted _ _ | stored _ => exact absurd (hfree _ hc) (by simp [Call.holdsLock])

/-- A section that leaves its additions. -/
theorem Balanced.adjusting {s t : StoreState} {as : List (Counter × Int)} (h : Balanced s) (hfree : s.free)
    (hcalls : t.calls = .adjusting as :: s.calls) (hcounter : ∀ k, t.counter k = s.counter k)
    (hrows : ∀ k, ((t.rows k).card : Int) = (s.rows k).card + amount k as) : Balanced t := by
  refine ⟨fun c hc => ?_, fun hnone k => ?_⟩
  · rw [hcalls] at hc
    rcases List.mem_cons.mp hc with rfl | hc
    · trivial
    · exact Call.sound_of_free hfree hc
  · rw [hcalls] at hnone
    have hbefore := h.balance (fun c hc => hnone c (List.mem_cons_of_mem _ hc)) k
    have hpending : t.pending k = amount k as + s.pending k := by
      simp only [StoreState.pending, hcalls, List.map_cons, List.sum_cons, Call.adjustments]
    rw [hcounter, hpending, hrows]
    omega

/-- A section that leaves a recount. -/
theorem Balanced.recounting {s t : StoreState} (hfree : s.free) (hcalls : t.calls = .recounting :: s.calls) :
    Balanced t := by
  refine ⟨fun c hc => ?_, fun hnone => ?_⟩
  · rw [hcalls] at hc
    rcases List.mem_cons.mp hc with rfl | hc
    · trivial
    · exact Call.sound_of_free hfree hc
  · rw [hcalls] at hnone
    exact absurd (hnone _ List.mem_cons_self) (by simp [Call.recounts])

theorem settled_next {s : StoreState} (h : s.settled) {call : Call} {after : List Call}
    (hafter : ∀ c ∈ after, ∀ a ∈ c.adjustments, a.2 = 0) : (s.next call after).settled := by
  intro c hc
  rcases mem_of_mem_next hc with hc | hc
  · exact hafter c hc
  · exact h c hc

/-- One addition. -/
theorem Balanced.adjust {s : StoreState} {a : Counter × Int} {rest : List (Counter × Int)} (h : Balanced s)
    (hcall : .adjusting (a :: rest) ∈ s.calls) :
    Balanced ((s.fetchAdd a).next (.adjusting (a :: rest)) [.adjusting rest]) := by
  have hcalls : (s.fetchAdd a).calls = s.calls := by
    obtain ⟨k, d⟩ := a
    cases k <;> rfl
  have hrows : ∀ k, (s.fetchAdd a).rows k = s.rows k := by
    obtain ⟨k, d⟩ := a
    cases k <;> exact fun k' => by cases k' <;> rfl
  have hcounter : ∀ k, (s.fetchAdd a).counter k = s.counter k + if a.1 = k then a.2 else 0 := by
    obtain ⟨k, d⟩ := a
    intro k'
    cases k <;> cases k' <;> simp [StoreState.fetchAdd, StoreState.counter]
  have hpendingAdd : ∀ k, (s.fetchAdd a).pending k = s.pending k := fun k => by
    rw [StoreState.pending, hcalls]
    rfl
  have hcall' : Call.adjusting (a :: rest) ∈ (s.fetchAdd a).calls := by
    rw [hcalls]
    exact hcall
  refine ⟨fun c hc => ?_, fun hnone k => ?_⟩
  · rcases mem_of_mem_next hc with hc | hc
    · rw [List.mem_singleton.mp hc]
      trivial
    · rw [hcalls] at hc
      have hsound := h.sound c hc
      -- under a lock nobody has an addition left, so this one adds nothing
      have hkeeps : s.settled → ((s.fetchAdd a).next (.adjusting (a :: rest)) [.adjusting rest]).settled
          ∧ s.fetchAdd a = s := by
        intro hsettled
        have hzero : ∀ b ∈ a :: rest, b.2 = 0 := hsettled _ hcall
        obtain ⟨k, d⟩ := a
        obtain rfl : d = 0 := hzero (k, d) List.mem_cons_self
        have hsame : s.fetchAdd (k, 0) = s := by cases k <;> simp [StoreState.fetchAdd]
        rw [hsame]
        refine ⟨settled_next hsettled fun c hc b hb => ?_, rfl⟩
        rw [List.mem_singleton.mp hc] at hb
        exact hzero b (List.mem_cons_of_mem _ hb)
      cases c with
      | adjusting _ | recounting => trivial
      | counted r p =>
        obtain ⟨hsettled, hr, hp⟩ := hsound
        obtain ⟨hsettled', hsame⟩ := hkeeps hsettled
        rw [hsame] at hsettled' ⊢
        exact ⟨hsettled', hr, hp⟩
      | stored p =>
        obtain ⟨hsettled, hr, hp⟩ := hsound
        obtain ⟨hsettled', hsame⟩ := hkeeps hsettled
        rw [hsame] at hsettled' ⊢
        exact ⟨hsettled', hr, hp⟩
  · have hbefore : ∀ c ∈ s.calls, c.recounts = false := by
      intro c hc
      by_cases heq : c = .adjusting (a :: rest)
      · rw [heq]
        rfl
      · exact hnone c (mem_next_of_ne _ (by rw [hcalls]; exact hc) heq)
    have hbalance := h.balance hbefore k
    have hpending := pending_next hcall' [.adjusting rest] k
    simp only [Call.adjustments, amount_cons, List.map_cons, List.map_nil, List.sum_cons, List.sum_nil,
      hpendingAdd] at hpending
    have hnext : ((s.fetchAdd a).next (.adjusting (a :: rest)) [.adjusting rest]).counter k = (s.fetchAdd a).counter k := by
      cases k <;> rfl
    have hnextRows : ((s.fetchAdd a).next (.adjusting (a :: rest)) [.adjusting rest]).rows k = (s.fetchAdd a).rows k := by
      cases k <;> rfl
    rw [hnext, hnextRows, hcounter, hrows]
    omega

/-- The return after the last addition. -/
theorem Balanced.finish {s : StoreState} (h : Balanced s) (hcall : .adjusting [] ∈ s.calls) :
    Balanced (s.next (.adjusting []) []) := by
  refine ⟨fun c hc => ?_, fun hnone k => ?_⟩
  · have hsound := h.sound c ((mem_of_mem_next hc).resolve_left List.not_mem_nil)
    have hkeeps : s.settled → (s.next (.adjusting []) []).settled := fun hsettled =>
      settled_next hsettled fun c hc => absurd hc List.not_mem_nil
    cases c with
    | adjusting _ | recounting => trivial
    | counted _ _ | stored _ => exact ⟨hkeeps hsound.1, hsound.2⟩
  · have hbefore : ∀ c ∈ s.calls, c.recounts = false := by
      intro c hc
      by_cases heq : c = .adjusting []
      · rw [heq]
        rfl
      · exact hnone c (mem_next_of_ne _ hc heq)
    have hbalance := h.balance hbefore k
    have hpending := pending_next hcall [] k
    simp only [Call.adjustments, amount, List.map_nil, List.sum_nil] at hpending
    have hsame : (s.next (.adjusting []) []).counter k = s.counter k ∧ (s.next (.adjusting []) []).rows k = s.rows k := by
      cases k <;> exact ⟨rfl, rfl⟩
    rw [hsame.1, hsame.2]
    omega

theorem Balanced.underLock {t : StoreState} (hsound : ∀ c ∈ t.calls, c.Sound t) {c : Call} (hc : c ∈ t.calls)
    (hrecounts : c.recounts = true) : Balanced t :=
  ⟨hsound, fun hnone => absurd (hnone c hc) (by simp [hrecounts])⟩

/-- **One step.** -/
theorem Balanced.step {s t : StoreState} {a : Act} (h : Balanced s) (hcareful : Careful s a)
    (hstep : step s a = some t) : Balanced t := by
  cases a with
  | addRouteObj path hasPoints =>
    obtain ⟨hfree, heq⟩ := Option.ite_none_right_eq_some.mp hstep
    obtain rfl := Option.some.inj heq
    refine h.adjusting hfree rfl (fun k => by cases k <;> rfl) fun k => ?_
    cases k with
    | routes =>
      cases hasPoints with
      | false => simp [StoreState.rows, RowCounters.addRouteObj, amount]
      | true => simpa [StoreState.rows, RowCounters.addRouteObj, amount] using card_insertOrIgnore _ _
    | processed => simpa [StoreState.rows, RowCounters.addRouteObj, amount] using card_insertOrIgnore _ _
  | markProcessed path =>
    obtain ⟨hfree, heq⟩ := Option.ite_none_right_eq_some.mp hstep
    obtain rfl := Option.some.inj heq
    refine h.adjusting hfree rfl (fun k => by cases k <;> rfl) fun k => ?_
    cases k with
    | routes => simp [StoreState.rows, RowCounters.markProcessed, amount]
    | processed => simpa [StoreState.rows, RowCounters.markProcessed, amount] using card_insertOrIgnore _ _
  | deleteRoutesByFiles files =>
    obtain ⟨hfree, heq⟩ := Option.ite_none_right_eq_some.mp hstep
    obtain rfl := Option.some.inj heq
    refine h.adjusting hfree rfl (fun k => by cases k <;> rfl) fun k => ?_
    cases k <;>
      simpa [StoreState.rows, RowCounters.deleteRoutesByFiles, amount, sub_eq_add_neg] using card_deleteFiles files _
  | clearProcessedForReprocess =>
    obtain ⟨hfree, heq⟩ := Option.ite_none_right_eq_some.mp hstep
    obtain rfl := Option.some.inj heq
    exact Balanced.recounting hfree rfl
  | clearAllDrives done =>
    obtain ⟨hfree, heq⟩ := Option.ite_none_right_eq_some.mp hstep
    obtain rfl := Option.some.inj heq
    rcases hcareful with hearly | hall
    · -- it failed before any row went
      have hsame : RowCounters.clearAllDrives done s = s := by
        simp only [RowCounters.clearAllDrives, if_neg (show ¬ 3 ≤ done by omega), if_neg (show ¬ 4 ≤ done by omega),
          if_neg (show ¬ 5 ≤ done by omega)]
      rw [hsame]
      exact h
    · refine Balanced.recounting hfree ?_
      simp only [RowCounters.clearAllDrives, if_pos hall]
  | importJsonFile routes processed fails =>
    obtain ⟨hfree, heq⟩ := Option.ite_none_right_eq_some.mp hstep
    obtain rfl := Option.some.inj heq
    obtain rfl : fails = false := hcareful
    exact Balanced.recounting hfree rfl
  | adjust rest =>
    cases rest with
    | nil =>
      obtain ⟨hcall, heq⟩ := Option.ite_none_right_eq_some.mp hstep
      obtain rfl := Option.some.inj heq
      exact h.finish hcall
    | cons a rest =>
      obtain ⟨hcall, heq⟩ := Option.ite_none_right_eq_some.mp hstep
      obtain rfl := Option.some.inj heq
      exact h.adjust hcall
  | count fails =>
    obtain ⟨⟨hfree, hcall⟩, heq⟩ := Option.ite_none_right_eq_some.mp hstep
    obtain rfl := Option.some.inj heq
    obtain ⟨rfl, hsettled⟩ := hcareful
    have hsettled' : (s.next .recounting [.counted s.routes.card s.processed.card]).settled :=
      settled_next hsettled fun c hc a ha => by
        rw [List.mem_singleton.mp hc] at ha
        exact absurd ha List.not_mem_nil
    refine Balanced.underLock (fun c hc => ?_) (List.mem_append_left _ List.mem_cons_self) rfl
    rcases mem_of_mem_next hc with hc | hc
    · rw [List.mem_singleton.mp hc]
      exact ⟨hsettled', rfl, rfl⟩
    · exact Call.sound_of_free hfree hc
  | storeRoutes routes processed =>
    obtain ⟨hcall, heq⟩ := Option.ite_none_right_eq_some.mp hstep
    obtain rfl := Option.some.inj heq
    obtain ⟨hsettled, hr, hp⟩ := h.sound _ hcall
    have hsettled' : ({ s with routeCount := routes }.next (.counted routes processed) [.stored processed]).settled :=
      settled_next hsettled fun c hc a ha => by
        rw [List.mem_singleton.mp hc] at ha
        exact absurd ha List.not_mem_nil
    refine Balanced.underLock (fun c hc => ?_) (List.mem_append_left _ List.mem_cons_self) rfl
    rcases mem_of_mem_next hc with hc | hc
    · rw [List.mem_singleton.mp hc]
      exact ⟨hsettled', hr, hp⟩
    · have hsound := h.sound c hc
      cases c with
      | adjusting _ | recounting => trivial
      | counted _ _ => exact ⟨hsettled', hsound.2⟩
      | stored _ => exact ⟨hsettled', hr, hsound.2.2⟩
  | storeProcessed processed =>
    obtain ⟨hcall, heq⟩ := Option.ite_none_right_eq_some.mp hstep
    obtain rfl := Option.some.inj heq
    obtain ⟨hsettled, hr, hp⟩ := h.sound _ hcall
    have hsettled' : ({ s with processedCount := processed }.next (.stored processed) []).settled :=
      settled_next hsettled fun c hc => absurd hc List.not_mem_nil
    refine ⟨fun c hc => ?_, fun _ k => ?_⟩
    · have hsound := h.sound c ((mem_of_mem_next hc).resolve_left List.not_mem_nil)
      cases c with
      | adjusting _ | recounting => trivial
      | counted _ _ | stored _ => exact ⟨hsettled', hsound.2⟩
    · rw [pending_of_settled hsettled', Int.add_zero]
      cases k with
      | routes => exact hr
      | processed => exact hp

theorem balanced_opened (routes processed : Finset Text) : Balanced (opened routes processed) := by
  refine ⟨fun c hc => absurd hc List.not_mem_nil, fun _ k => ?_⟩
  cases k <;> exact Int.add_zero _

/-- **Idle counters are the numbers of rows**, in every run that counts tables only while no call has an addition left
and loses no recount; so an empty store is one whose count is zero. -/
theorem counters_agree {routes processed : Finset Text} {s : StoreState}
    (h : Reaches step Careful (opened routes processed) s) (hidle : s.calls = []) :
    s.routeCount = s.routes.card ∧ s.processedCount = s.processed.card ∧ (s.routeCount = 0 ↔ s.routes = ∅) := by
  have hbalanced := h.invariant (balanced_opened routes processed) fun _ _ _ ht hok hstep => ht.step hok hstep
  have hbalance := hbalanced.balance fun c hc => absurd (hidle ▸ hc) List.not_mem_nil
  have hpending : ∀ k, s.pending k = 0 := fun k => by
    rw [StoreState.pending, hidle]
    rfl
  have hroutes : s.routeCount = s.routes.card := by
    have := hbalance .routes
    rw [hpending, Int.add_zero] at this
    exact this
  have hprocessed : s.processedCount = s.processed.card := by
    have := hbalance .processed
    rw [hpending, Int.add_zero] at this
    exact this
  refine ⟨hroutes, hprocessed, ?_⟩
  rw [hroutes]
  exact Int.natCast_eq_zero.trans Finset.card_eq_zero

/-! ## An addition after a recount -/

instance (s : StoreState) : Decidable s.settled :=
  inferInstanceAs (Decidable (∀ c ∈ s.calls, ∀ a ∈ c.adjustments, a.2 = 0))

instance (s : StoreState) : DecidablePred (Careful s)
  | .count fails => inferInstanceAs (Decidable (fails = false ∧ s.settled))
  | .clearAllDrives done => inferInstanceAs (Decidable (done < 3 ∨ 5 ≤ done))
  | .importJsonFile _ _ fails => inferInstanceAs (Decidable (fails = false))
  | .addRouteObj _ _ | .markProcessed _ | .deleteRoutesByFiles _ | .clearProcessedForReprocess | .adjust _
  | .storeRoutes _ _ | .storeProcessed _ => isTrue trivial

/-- A clip is added, and its additions are made before everything is cleared. -/
def addThenClear : List Act :=
  [.addRouteObj ['a'] true, .adjust [(.processed, 1), (.routes, 1)], .adjust [(.routes, 1)], .adjust [],
    .clearAllDrives 5, .count false, .storeRoutes 0 0, .storeProcessed 0]

/-- A clip is added, and its additions come after everything was cleared and counted. -/
def clearThenAdd : List Act :=
  [.addRouteObj ['a'] true, .clearAllDrives 5, .count false, .storeRoutes 0 0, .storeProcessed 0,
    .adjust [(.processed, 1), (.routes, 1)], .adjust [(.routes, 1)], .adjust []]

theorem counters_agree_after_clear : ∃ s, Reaches step Careful (opened ∅ ∅) s ∧ s.routeCount = s.routes.card
    ∧ s.processedCount = s.processed.card ∧ (s.routeCount = 0 ↔ s.routes = ∅) := by
  have hrun : run (guarded step Careful) (opened ∅ ∅) addThenClear = some ⟨∅, ∅, 0, 0, []⟩ := by decide +kernel
  have hreaches := reaches_of_run_guarded hrun
  exact ⟨_, hreaches, counters_agree hreaches rfl⟩

/-- **The store is empty and counts one route**: the test that keeps an empty export from the archive passes. -/
theorem empty_store_counts_route :
    ∃ s, Reachable step (opened ∅ ∅) s ∧ s.calls = [] ∧ s.routes = ∅ ∧ s.routeCount = 1 ∧ s.processedCount = 1 :=
  ⟨⟨∅, ∅, 1, 1, []⟩, reachable_of_run (show run step (opened ∅ ∅) clearThenAdd = some _ by decide +kernel), rfl, rfl,
    rfl, rfl⟩

end SentryUsb.Store.RowCounters
