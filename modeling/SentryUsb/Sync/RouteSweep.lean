import SentryUsb.Grouper.Clip
import SentryUsb.Library.CursorLoop

/-! # The sweep that uploads routes

Each round of the sweep takes the first pending rows, encrypts and sends them, and records what the server says of each
(`sweep_once`, `cloud_uploader/uploader.rs`). It goes round until no row is pending or something stops it.

* **`selectPending`**, **`prepareFrom`**, **`acknowledge`** — the parts of a round, **`sweepTurn`** — a round;
* **`pendingFiles_sweepTurn`** — what a round leaves pending;
* **`MarksRow`** — a round records something of a row;
* **`sweep_progress`** — that is when it makes progress, and a sweep whose rounds all do so ends. -/

namespace SentryUsb.Sync.RouteSweep

open Library

/-! ## Rows and rounds -/

/-- A stored route: its file, when it was uploaded if it was, and its Cloud id if that is known. -/
structure Row where
  file : Text
  cloudUploadedAt : Option Int
  cloudRouteId : Option Text
  deriving DecidableEq

/-- A row to upload. -/
structure PendingRoute where
  file : Text
  cloudRouteId : Option Text
  deriving DecidableEq

/-- An encrypted route, its parts in base64. -/
structure EncryptedRoute where
  routeId : Text
  routeBlob : Text
  wrappedRouteKey : Text
  deriving DecidableEq

/-- What the server says of one route. -/
structure UploadResult where
  routeId : Text
  status : String
  deriving DecidableEq

/-- The answer to a request. `ends` stands for all that stops a sweep: it is cancelled, the credentials changed, the
request fails, the server refuses it, or its answer cannot be read. With each result goes whether its row is written. -/
inductive Reply where
  | ends
  | results (results : List (UploadResult × Bool))

/-- What a round meets: how often the batch was halved, the files of the routes read for the selected rows, the encrypted
routes, which rows can be written, the answer, and the time. -/
structure Round where
  cancelled : Bool
  shift : Nat
  routes : Option (List Text)
  encrypt : PendingRoute → Option EncryptedRoute
  cacheSaved : Text → Bool
  skipSaved : Text → Bool
  reply : Reply
  now : Int

def maxRouteBlobB64Len : Nat := 384 * 1024

def permanentSkipSentinel : Int := -1

/-- The number of routes and of bytes in a batch, after it was halved. -/
def batchLimits (shift : Nat) : Nat × Nat :=
  (max (32 >>> min shift 5) 1, max ((14 * 1024 * 1024) >>> min shift 5) (512 * 1024))

/-- The first pending rows whose routes are there. -/
def selectPending (rows : List Row) (limit : Nat) (routes : List Text) : List PendingRoute :=
  let selected := ((rows.filter fun row => row.cloudUploadedAt.isNone).insertionSort fun a b => a.file ≤ b.file).take limit
  (selected.zip routes).filterMap fun (row, file) => if file = row.file then some ⟨row.file, row.cloudRouteId⟩ else none

/-- Remember the Cloud id of a row. -/
def cacheRouteId (rows : List Row) (file routeId : Text) : List Row :=
  rows.map fun row => if row.file = file then { row with cloudRouteId := some routeId } else row

/-- Record when a row was uploaded (`mark_uploaded`), or that it never will be (`mark_permanent_skip`). -/
def mark (rows : List Row) (file : Text) (value : Int) : List Row :=
  rows.map fun row => if row.file = file then { row with cloudUploadedAt := some value } else row

/-- A route too large to send. -/
def TooLarge (e : EncryptedRoute) : Prop := maxRouteBlobB64Len < e.routeBlob.length

instance (e : EncryptedRoute) : Decidable (TooLarge e) := inferInstanceAs (Decidable (_ < _))

/-- The bytes of a route in the request. -/
def routeJsonSize (e : EncryptedRoute) : Nat := e.routeBlob.length + e.wrappedRouteKey.length + e.routeId.length + 96

/-- Encrypt the rows of a batch until it is full: the rows of the table, and the ids to send unless a route cannot be
encrypted. -/
def prepareFrom (r : Round) (cap : Nat) :
    List PendingRoute → Nat → List Text → List Row → List Row × Option (List Text)
  | [], _, wire, rows => (rows, some wire)
  | p :: pending, size, wire, rows =>
    match r.encrypt p with
    | none => (rows, none)
    | some e =>
      let rows :=
        if p.cloudRouteId.isNone && r.cacheSaved p.file then cacheRouteId rows p.file e.routeId else rows
      if TooLarge e then
        prepareFrom r cap pending size wire
          (if r.skipSaved p.file then mark rows p.file permanentSkipSentinel else rows)
      else if wire ≠ [] ∧ cap < size + routeJsonSize e then (rows, some wire)
      else prepareFrom r cap pending (size + routeJsonSize e) (wire ++ [e.routeId]) rows

/-- What a status records of its row. -/
def statusMark (now : Int) (status : String) : Option Int :=
  match status with
  | "stored" => some now
  | "duplicate" => some now
  | "rejected_too_large" => some permanentSkipSentinel
  | _ => none

section
variable (routeIdFromPath : Text → Text)

/-- The row a result is about. -/
def sourceFile (pending : List PendingRoute) (result : UploadResult) : Option Text :=
  (pending.find? fun p => decide (p.cloudRouteId = some result.routeId ∨ routeIdFromPath p.file = result.routeId)).map
    PendingRoute.file

/-- One result. -/
def acknowledge (now : Int) (pending : List PendingRoute) (rows : List Row) (result : UploadResult × Bool) : List Row :=
  match statusMark now result.1.status, sourceFile routeIdFromPath pending result.1 with
  | some value, some file => if result.2 then mark rows file value else rows
  | _, _ => rows

/-- The state between rounds: the rows, and how many routes were stored. -/
structure SweepState where
  rows : List Row
  totalStored : Nat

/-- **One round.** -/
def sweepTurn (r : Round) (s : SweepState) : Turn SweepState SweepState :=
  match r.cancelled, r.routes with
  | false, some routes =>
    let pending := selectPending s.rows (batchLimits r.shift).1 routes
    match prepareFrom r (batchLimits r.shift).2 pending 64 [] s.rows with
    | (rows, some (_ :: _)) =>
      match r.reply with
      | .results results =>
        let next : SweepState :=
          ⟨results.foldl (acknowledge routeIdFromPath r.now pending) rows,
            s.totalStored + results.countP fun result => result.1.status == "stored"⟩
        if results.any fun result => result.1.status == "rejected_storage_full" then .done next else .again next
      | .ends => .done { s with rows := rows }
    | (rows, _) => .done { s with rows := rows }
  | _, _ => .done s

/-- The rounds of a sweep, one after another. -/
def sweepBody (rounds : Nat → Round) (s : Nat × SweepState) : Turn (Nat × SweepState) SweepState :=
  match sweepTurn routeIdFromPath (rounds s.1) s.2 with
  | .again next => .again (s.1 + 1, next)
  | .done last => .done last

end

/-- The files of the pending rows. -/
def pendingFiles (rows : List Row) : List Text := (rows.filter fun row => row.cloudUploadedAt.isNone).map Row.file

/-- The rows of a batch that are too large to send, among those it comes to before it is full. -/
def oversize (r : Round) (cap : Nat) : List PendingRoute → Nat → Bool → List Text
  | [], _, _ => []
  | p :: pending, size, started =>
    match r.encrypt p with
    | none => []
    | some e =>
      if TooLarge e then p.file :: oversize r cap pending size started
      else if started ∧ cap < size + routeJsonSize e then []
      else oversize r cap pending (size + routeJsonSize e) true

/-- **A round records something of a row**: a route is too large to send, or the server says of a row of the batch that it
is stored, was already stored or is too large; and this can be written. -/
def MarksRow (routeIdFromPath : Text → Text) (r : Round) (rows : List Row) : Prop :=
  ∃ routes, r.routes = some routes ∧
    ((∃ file ∈ oversize r (batchLimits r.shift).2 (selectPending rows (batchLimits r.shift).1 routes) 64 false,
        r.skipSaved file = true)
      ∨ ∃ results, r.reply = .results results ∧ ∃ result ∈ results, result.2 = true ∧
          result.1.status ∈ ["stored", "duplicate", "rejected_too_large"] ∧
          (sourceFile routeIdFromPath (selectPending rows (batchLimits r.shift).1 routes) result.1).isSome = true)

/-! ## What a round leaves pending -/

/-- Files without the marked ones. -/
def without (files marked : List Text) : List Text := files.filter fun f => !marked.contains f

theorem without_nil (files : List Text) : without files [] = files := List.filter_eq_self.mpr fun _ _ => rfl

/-- Files left out one after another are left out together. -/
theorem without_without (files marked : List Text) (file : Text) :
    without (without files [file]) marked = without files (file :: marked) := by
  rw [without, without, List.filter_filter, without]
  apply List.filter_congr
  intro f _
  rw [List.contains_cons, List.contains_cons, List.contains_nil, Bool.or_false, Bool.not_or, Bool.and_comm]

theorem pendingFiles_cons (row : Row) (rows : List Row) :
    pendingFiles (row :: rows)
      = if row.cloudUploadedAt.isNone then row.file :: pendingFiles rows else pendingFiles rows := by
  rw [pendingFiles, List.filter_cons]
  split
  · rfl
  · rfl

theorem pendingFiles_cacheRouteId (rows : List Row) (file routeId : Text) :
    pendingFiles (cacheRouteId rows file routeId) = pendingFiles rows := by
  induction rows with
  | nil => rfl
  | cons row rows ih =>
    rw [cacheRouteId] at ih ⊢
    rw [List.map_cons, pendingFiles_cons, pendingFiles_cons, ih]
    by_cases hfile : row.file = file
    · rw [if_pos hfile]
    · rw [if_neg hfile]

/-- A row that is marked is pending no more. -/
theorem pendingFiles_mark (rows : List Row) (file : Text) (value : Int) :
    pendingFiles (mark rows file value) = without (pendingFiles rows) [file] := by
  induction rows with
  | nil => rfl
  | cons row rows ih =>
    rw [mark] at ih ⊢
    rw [List.map_cons, pendingFiles_cons, pendingFiles_cons, ih]
    by_cases hfile : row.file = file
    · rw [if_pos hfile]
      cases row.cloudUploadedAt with
      | none =>
        show without (pendingFiles rows) [file] = without (row.file :: pendingFiles rows) [file]
        rw [without, without, List.filter_cons_of_neg]
        rw [hfile, List.contains_cons, beq_self_eq_true, Bool.true_or]
        exact Bool.false_ne_true
      | some time => rfl
    · rw [if_neg hfile]
      cases row.cloudUploadedAt with
      | none =>
        show row.file :: without (pendingFiles rows) [file] = without (row.file :: pendingFiles rows) [file]
        rw [without, without, List.filter_cons_of_pos]
        rw [List.contains_cons, beq_false_of_ne hfile]
        rfl
      | some time => rfl

/-- **Preparing a batch** leaves the rows pending that are not too large to send. -/
theorem pendingFiles_prepareFrom (r : Round) (cap : Nat) (pending : List PendingRoute) (size : Nat) (wire : List Text)
    (rows : List Row) :
    pendingFiles (prepareFrom r cap pending size wire rows).1
      = without (pendingFiles rows) ((oversize r cap pending size (decide (wire ≠ []))).filter r.skipSaved) := by
  induction pending generalizing size wire rows with
  | nil => exact (without_nil _).symm
  | cons p pending ih =>
    rw [prepareFrom, oversize]
    cases r.encrypt p with
    | none => exact (without_nil _).symm
    | some e =>
      have hcached : ∀ b : Bool,
          pendingFiles (if b then cacheRouteId rows p.file e.routeId else rows) = pendingFiles rows := by
        intro b
        cases b with
        | true => exact pendingFiles_cacheRouteId rows p.file e.routeId
        | false => rfl
      dsimp only
      by_cases hlarge : TooLarge e
      · rw [if_pos hlarge, if_pos hlarge, ih]
        cases hsaved : r.skipSaved p.file with
        | true => rw [if_pos rfl, List.filter_cons_of_pos hsaved, pendingFiles_mark, hcached, without_without]
        | false =>
          rw [if_neg Bool.false_ne_true, hcached,
            List.filter_cons_of_neg (by rw [hsaved]; exact Bool.false_ne_true)]
      · rw [if_neg hlarge, if_neg hlarge]
        simp only [decide_eq_true_eq]
        by_cases hfull : wire ≠ [] ∧ cap < size + routeJsonSize e
        · rw [if_pos hfull, if_pos hfull, hcached]
          exact (without_nil _).symm
        · rw [if_neg hfull, if_neg hfull, ih, hcached,
            decide_eq_true (List.append_ne_nil_of_right_ne_nil wire (List.cons_ne_nil _ _))]

variable {routeIdFromPath : Text → Text}

/-- The rows that the results of an answer mark. -/
def acknowledged (routeIdFromPath : Text → Text) (now : Int) (pending : List PendingRoute)
    (results : List (UploadResult × Bool)) : List Text :=
  results.filterMap fun result =>
    if result.2 && (statusMark now result.1.status).isSome then sourceFile routeIdFromPath pending result.1 else none

/-- **The answer** marks the rows its results name. -/
theorem pendingFiles_acknowledge (now : Int) (pending : List PendingRoute) (results : List (UploadResult × Bool))
    (rows : List Row) :
    pendingFiles (results.foldl (acknowledge routeIdFromPath now pending) rows)
      = without (pendingFiles rows) (acknowledged routeIdFromPath now pending results) := by
  induction results generalizing rows with
  | nil => exact (without_nil _).symm
  | cons result results ih =>
    rw [List.foldl_cons, ih, acknowledged, acknowledged, List.filterMap_cons, acknowledge]
    cases statusMark now result.1.status with
    | none => rw [Option.isSome_none, Bool.and_false]; rfl
    | some value =>
      rw [Option.isSome_some, Bool.and_true]
      cases sourceFile routeIdFromPath pending result.1 with
      | none => rw [ite_self]
      | some file =>
        cases result.2 with
        | false => rfl
        | true =>
          dsimp only
          rw [if_pos rfl, if_pos rfl, pendingFiles_mark, without_without]

/-- The rows of a batch are pending. -/
theorem file_mem_pendingFiles {rows : List Row} {limit : Nat} {routes : List Text} {p : PendingRoute}
    (hp : p ∈ selectPending rows limit routes) : p.file ∈ pendingFiles rows := by
  obtain ⟨⟨row, file⟩, hmem, hrow⟩ := List.mem_filterMap.mp hp
  obtain ⟨-, hrow⟩ := Option.ite_none_right_eq_some.mp hrow
  have hselected := List.mem_of_mem_take (List.of_mem_zip hmem).1
  rw [List.mem_insertionSort] at hselected
  rw [← Option.some.inj hrow]
  exact List.mem_map.mpr ⟨row, hselected, rfl⟩

theorem mem_of_mem_oversize {r : Round} {cap size : Nat} {pending : List PendingRoute} {started : Bool} {file : Text}
    (h : file ∈ oversize r cap pending size started) : ∃ p ∈ pending, p.file = file := by
  induction pending generalizing size started with
  | nil => exact nomatch h
  | cons p pending ih =>
    have hlater : (∃ q ∈ pending, q.file = file) → ∃ q ∈ p :: pending, q.file = file :=
      fun ⟨q, hq, hfile⟩ => ⟨q, List.mem_cons_of_mem p hq, hfile⟩
    rw [oversize] at h
    cases hencrypt : r.encrypt p with
    | none =>
      rw [hencrypt] at h
      exact nomatch h
    | some e =>
      rw [hencrypt] at h
      dsimp only at h
      split at h
      · rcases List.mem_cons.mp h with rfl | h
        · exact ⟨p, List.mem_cons_self, rfl⟩
        · exact hlater (ih h)
      · split at h
        · exact nomatch h
        · exact hlater (ih h)

theorem isSome_statusMark {now : Int} {status : String} :
    (statusMark now status).isSome = true ↔ status ∈ ["stored", "duplicate", "rejected_too_large"] := by
  unfold statusMark
  split
  · exact ⟨fun _ => List.mem_cons_self, fun _ => rfl⟩
  · exact ⟨fun _ => List.mem_cons_of_mem _ List.mem_cons_self, fun _ => rfl⟩
  · exact ⟨fun _ => List.mem_cons_of_mem _ (List.mem_cons_of_mem _ List.mem_cons_self), fun _ => rfl⟩
  · rename_i hstored hduplicate hlarge
    refine ⟨fun h => (nomatch h), fun h => ?_⟩
    rcases List.mem_cons.mp h with heq | h
    · exact absurd heq hstored
    · rcases List.mem_cons.mp h with heq | h
      · exact absurd heq hduplicate
      · exact absurd (List.mem_singleton.mp h) hlarge

/-- **A round that goes round again** leaves the rows pending that it did not mark. -/
theorem pendingFiles_sweepTurn {r : Round} {s next : SweepState}
    (h : sweepTurn routeIdFromPath r s = .again next) :
    ∃ routes results, r.routes = some routes ∧ r.reply = .results results ∧
      pendingFiles next.rows = without (without (pendingFiles s.rows)
        ((oversize r (batchLimits r.shift).2 (selectPending s.rows (batchLimits r.shift).1 routes) 64 false).filter
          r.skipSaved))
        (acknowledged routeIdFromPath r.now (selectPending s.rows (batchLimits r.shift).1 routes) results) := by
  rw [sweepTurn] at h
  split at h
  · rename_i routes hcancelled hroutes
    have hprepared := pendingFiles_prepareFrom r (batchLimits r.shift).2
      (selectPending s.rows (batchLimits r.shift).1 routes) 64 [] s.rows
    dsimp only at h
    split at h
    · rename_i rows id wire hwire
      rw [hwire] at hprepared
      split at h
      · rename_i results hreply
        split at h
        · exact nomatch h
        · refine ⟨routes, results, hroutes, hreply, ?_⟩
          rw [← Turn.again.inj h, pendingFiles_acknowledge, hprepared]
          rfl
      · exact nomatch h
    · exact nomatch h
  · exact nomatch h

/-- Leaving out marked files makes a list shorter exactly when one of them is in it. -/
theorem length_without_lt {files skipped marked : List Text} :
    (without (without files skipped) marked).length < files.length ↔ ∃ f ∈ files, f ∈ skipped ∨ f ∈ marked := by
  have hboth : without (without files skipped) marked = files.filter fun f => !skipped.contains f && !marked.contains f := by
    rw [without, without, List.filter_filter]
    exact List.filter_congr fun f _ => Bool.and_comm _ _
  rw [hboth, List.length_filter_lt_length_iff_exists]
  constructor
  · rintro ⟨f, hf, hout⟩
    refine ⟨f, hf, ?_⟩
    by_contra hneither
    obtain ⟨hskipped, hmarked⟩ := not_or.mp hneither
    apply hout
    rw [Bool.and_eq_true, Bool.not_eq_true', Bool.not_eq_true', ← Bool.not_eq_true, ← Bool.not_eq_true,
      List.contains_iff_mem, List.contains_iff_mem]
    exact ⟨hskipped, hmarked⟩
  · rintro ⟨f, hf, hout⟩
    refine ⟨f, hf, fun hin => ?_⟩
    rw [Bool.and_eq_true, Bool.not_eq_true', Bool.not_eq_true', ← Bool.not_eq_true, ← Bool.not_eq_true,
      List.contains_iff_mem, List.contains_iff_mem] at hin
    exact hout.elim hin.1 hin.2

/-- **A round makes progress exactly when it records something of a row.** -/
theorem length_pendingFiles_lt_iff {r : Round} {s next : SweepState}
    (h : sweepTurn routeIdFromPath r s = .again next) :
    (pendingFiles next.rows).length < (pendingFiles s.rows).length ↔ MarksRow routeIdFromPath r s.rows := by
  obtain ⟨routes, results, hroutes, hreply, hfiles⟩ := pendingFiles_sweepTurn h
  rw [hfiles, length_without_lt]
  constructor
  · rintro ⟨f, -, hskipped | hmarked⟩
    · obtain ⟨hover, hsaved⟩ := List.mem_filter.mp hskipped
      exact ⟨routes, hroutes, .inl ⟨f, hover, hsaved⟩⟩
    · obtain ⟨result, hresult, hfile⟩ := List.mem_filterMap.mp hmarked
      obtain ⟨hboth, hfile⟩ := Option.ite_none_right_eq_some.mp hfile
      obtain ⟨hsaved, hstatus⟩ := (Bool.and_eq_true _ _).mp hboth
      exact ⟨routes, hroutes, .inr ⟨results, hreply, result, hresult, hsaved, isSome_statusMark.mp hstatus,
        Option.isSome_iff_exists.mpr ⟨f, hfile⟩⟩⟩
  · rintro ⟨routes', hroutes', hmarks⟩
    obtain rfl := Option.some.inj (hroutes.symm.trans hroutes')
    rcases hmarks with ⟨f, hover, hsaved⟩ | ⟨results', hreply', result, hresult, hsaved, hstatus, hsource⟩
    · obtain ⟨p, hp, rfl⟩ := mem_of_mem_oversize hover
      exact ⟨p.file, file_mem_pendingFiles hp, .inl (List.mem_filter.mpr ⟨hover, hsaved⟩)⟩
    · obtain rfl := Reply.results.inj (hreply.symm.trans hreply')
      obtain ⟨f, hf⟩ := Option.isSome_iff_exists.mp hsource
      obtain ⟨p, hp, rfl⟩ := Option.map_eq_some_iff.mp hf
      refine ⟨p.file, file_mem_pendingFiles (List.mem_of_find?_eq_some hp), .inr ?_⟩
      refine List.mem_filterMap.mpr ⟨result, hresult, ?_⟩
      rw [hsaved, isSome_statusMark.mpr hstatus]
      exact hf

theorem length_pendingFiles_le {r : Round} {s next : SweepState} (h : sweepTurn routeIdFromPath r s = .again next) :
    (pendingFiles next.rows).length ≤ (pendingFiles s.rows).length := by
  obtain ⟨routes, results, -, -, hfiles⟩ := pendingFiles_sweepTurn h
  rw [hfiles]
  exact (List.length_filter_le _ _).trans (List.length_filter_le _ _)

theorem sweepBody_again {rounds : Nat → Round} {s t : Nat × SweepState}
    (h : sweepBody routeIdFromPath rounds s = .again t) :
    sweepTurn routeIdFromPath (rounds s.1) s.2 = .again t.2 := by
  rw [sweepBody] at h
  split at h
  · rename_i next hturn
    rw [hturn, ← Turn.again.inj h]
  · exact nomatch h

/-- A sweep has no more rows pending than at its start. -/
theorem length_pendingFiles_visits {rounds : Nat → Round} {s t : Nat × SweepState}
    (h : Visits (sweepBody routeIdFromPath rounds) s t) :
    (pendingFiles t.2.rows).length ≤ (pendingFiles s.2.rows).length := by
  induction h with
  | start => exact le_rfl
  | next _ htaken ih => exact (length_pendingFiles_le (sweepBody_again htaken)).trans ih

/-- **The sweep makes progress exactly where it records something.** A round that goes round again has fewer rows pending
if and only if it records something of a row; and a sweep in which every such round does so ends. -/
theorem sweep_progress (routeIdFromPath : Text → Text) :
    (∀ (r : Round) (s next : SweepState), sweepTurn routeIdFromPath r s = .again next →
        ((pendingFiles next.rows).length < (pendingFiles s.rows).length ↔ MarksRow routeIdFromPath r s.rows))
      ∧ ∀ (rounds : Nat → Round) (s : SweepState),
          (∀ t u, Visits (sweepBody routeIdFromPath rounds) (0, s) t → sweepBody routeIdFromPath rounds t = .again u →
            MarksRow routeIdFromPath (rounds t.1) t.2.rows) →
          Returns (sweepBody routeIdFromPath rounds) (0, s) := by
  refine ⟨fun r s next h => length_pendingFiles_lt_iff h, fun rounds s hmarks => ?_⟩
  have hless : ∀ t u, Visits (sweepBody routeIdFromPath rounds) (0, s) t →
      sweepBody routeIdFromPath rounds t = .again u →
      (pendingFiles u.2.rows).length < (pendingFiles t.2.rows).length ∧
        (pendingFiles t.2.rows).length ≤ (pendingFiles s.rows).length := fun t u ht hu =>
    ⟨(length_pendingFiles_lt_iff (sweepBody_again hu)).mpr (hmarks t u ht hu), length_pendingFiles_visits ht⟩
  -- the rows that are no longer pending count the rounds
  let cursor : Nat × SweepState → Nat := fun t => (pendingFiles s.rows).length - (pendingFiles t.2.rows).length
  have hadvances : Advances cursor (sweepBody routeIdFromPath rounds) (0, s) := by
    intro t u ht hu
    obtain ⟨hlt, hle⟩ := hless t u ht hu
    simp only [cursor]
    omega
  refine returns_of_advances (pendingFiles s.rows).length hadvances fun t u ht hu => ?_
  obtain ⟨hlt, hle⟩ := hless t u ht hu
  simp only [cursor]
  omega

/-- A round with one small route, answered with one status. -/
def roundAnswered (status : String) : Round where
  cancelled := false
  shift := 0
  routes := some [['a']]
  encrypt _ := some ⟨['r'], ['b'], ['k']⟩
  cacheSaved _ := true
  skipSaved _ := true
  reply := .results [(⟨['r'], status⟩, true)]
  now := 1000

/-- A sweep over one pending row. -/
def oneRow : SweepState := ⟨[⟨['a'], none, some ['r']⟩], 0⟩

/-- A sweep whose only row is stored ends. -/
theorem stored_returns : Returns (sweepBody id fun _ => roundAnswered "stored") (0, oneRow) := by
  let stored : SweepState := ⟨[⟨['a'], some 1000, some ['r']⟩], 1⟩
  have hfirst : sweepBody id (fun _ => roundAnswered "stored") (0, oneRow) = .again (1, stored) := by rfl
  have hsecond : sweepBody id (fun _ => roundAnswered "stored") (1, stored) = .done stored := by rfl
  have hvisits : ∀ t, Visits (sweepBody id fun _ => roundAnswered "stored") (0, oneRow) t →
      t = (0, oneRow) ∨ t = (1, stored) := by
    intro t ht
    induction ht with
    | start => exact .inl rfl
    | next _ htaken ih =>
      rcases ih with rfl | rfl
      · exact .inr (Turn.again.inj (hfirst.symm.trans htaken)).symm
      · exact nomatch hsecond.symm.trans htaken
  refine (sweep_progress id).2 _ _ fun t u ht hu => ?_
  rcases hvisits t ht with rfl | rfl
  · exact ⟨[['a']], rfl, .inr ⟨_, rfl, _, List.mem_singleton_self _, rfl, List.mem_cons_self, rfl⟩⟩
  · exact nomatch hsecond.symm.trans hu

/-- A route whose generation the server calls stale is sent again and again: the rows stay as they are, and the sweep never
ends. -/
theorem stale_generation_never_ends :
    sweepTurn id (roundAnswered "rejected_stale_generation") oneRow = .again oneRow
      ∧ ∀ fuel, loop (sweepBody id fun _ => roundAnswered "rejected_stale_generation") fuel (0, oneRow) = none := by
  have hturn : sweepTurn id (roundAnswered "rejected_stale_generation") oneRow = .again oneRow := by rfl
  refine ⟨hturn, fun fuel => loop_eq_none_of_closed (S := fun t => t.2 = oneRow) ?_ fuel rfl⟩
  rintro ⟨n, s⟩ rfl
  refine ⟨(n + 1, oneRow), rfl, ?_⟩
  rw [sweepBody, hturn]

end SentryUsb.Sync.RouteSweep
