import SentryUsb.Sync.ConditionalCharge
import SentryUsb.Sync.ConditionalDrive

/-! # The incoming revision feed

Changes made elsewhere arrive as pages of a feed. A walk asks for all pages after the persisted
checkpoint; each page is applied record by record, what cannot be applied is written to a retry table in
the transaction that saves the cursor or the checkpoint, and retries read the record's current state.

* **`Walk.validate`** — which pages a walk accepts (`revision.rs`);
* **`Work`** — applying a page: charges and rates one by one, routes in groups that are bisected
  (`incoming_apply.rs`);
* **`recordRetries`** — the retry table (`incoming_retry.rs`);
* **`Tables.applyCharge`** — a charge envelope under the writer lock (`apply_charge_mutable_from_sync`);
* **`step`** — pages, resets, retries, failures, local changes and restarts. -/

namespace SentryUsb.Sync.Feed

open Library

/-! ## Pages and walks -/

/-- What a record is. -/
inductive Kind where
  | charge
  | rateConfig
  | route
  deriving DecidableEq

/-- The order of kinds in a feed. -/
def Kind.rank : Kind → Nat
  | .charge => 0
  | .rateConfig => 1
  | .route => 2

/-- A record. -/
structure Target where
  kind : Kind
  id : Text
  deriving DecidableEq

/-- A decrypted document; `unreadable` does not decrypt, or not to one of its kind. -/
inductive Content where
  | charge (tags : List Text) (cost : Option Charge.Cost)
  | rates (doc : Text)
  | unreadable
  deriving DecidableEq

/-- A change in the feed. -/
structure Item where
  kind : Kind
  id : Text
  revision : Nat
  updatedAt : Int
  ciphertext : Option Content
  wrappedKey : Option Text
  deriving DecidableEq

/-- The record of a change. -/
def Item.target (i : Item) : Target := ⟨i.kind, i.id⟩

/-- A page of the feed. -/
structure Page where
  items : List Item
  nextCursor : Option Text
  revision : Nat
  deriving DecidableEq

/-- A place in a walk. -/
structure Place where
  revision : Nat
  kind : Kind
  id : Text
  deriving DecidableEq

/-- Places are ordered by revision, kind and id. -/
def Place.Before (a b : Place) : Prop :=
  a.revision < b.revision ∨ a.revision = b.revision
    ∧ (a.kind.rank < b.kind.rank ∨ a.kind.rank = b.kind.rank ∧ a.id < b.id)

instance (a b : Place) : Decidable (a.Before b) := inferInstanceAs (Decidable (_ ∨ _))

/-- A walk: where it started, the checkpoint its pages agree on, the cursor to ask with, and the last
place seen. -/
structure Walk where
  since : Option Nat
  checkpoint : Option Nat
  cursor : Option Text
  last : Option Place
  deriving DecidableEq

/-- A walk from a checkpoint, or over everything. -/
def Walk.new (since : Option Nat) : Walk := ⟨since, none, none, none⟩

/-- The row of the checkpoint: a revision of this pairing, or anything else. -/
inductive Mark where
  | revision (n : Nat)
  | other (raw : Text)
  deriving DecidableEq

/-- The revision to start from. -/
def Mark.since : Option Mark → Option Nat
  | some (.revision n) => some n
  | _ => none

/-- The row of a walk in progress, with the checkpoint it was started under. -/
structure SavedWalk where
  base : Option Mark
  walk : Walk
  deriving DecidableEq

/-- The alphabet and the length of cursors. -/
def validCursor (cursor : Text) : Bool :=
  decide (cursor ≠ []) && decide (cursor.length ≤ 2048)
    && cursor.all fun c => c.isAlphanum || decide (c = '_') || decide (c = '-')

/-- Whether an id fits its kind. -/
def validId (piId : Text) (kind : Kind) (id : Text) : Bool :=
  match kind with
  | .rateConfig => decide (id = piId)
  | _ => Drive.hexId id

/-- A saved walk that can be resumed (`resume_valid`). -/
def resumeValid (w : Walk) (piId : Text) : Bool :=
  match w.cursor, w.checkpoint, w.last with
  | some cursor, some checkpoint, some last =>
    validCursor cursor && validId piId last.kind last.id
      && match w.since with
        | some since => decide (since ≤ checkpoint) && decide (since < last.revision)
            && decide (last.revision ≤ checkpoint)
        | none => decide (last.revision = 0)
  | _, _, _ => false

/-- The place of an item; a full walk is ordered by record. -/
def Walk.place (w : Walk) (i : Item) : Place :=
  ⟨if w.since.isSome then i.revision else 0, i.kind, i.id⟩

/-- What is asked of a single item. -/
def Walk.acceptsItem (w : Walk) (checkpoint : Nat) (piId : Text) (i : Item) : Bool :=
  decide (0 ≤ i.updatedAt) && decide (i.updatedAt ≤ 8640000000000000)
    && (w.since.all fun since => decide (since < i.revision) && decide (i.revision ≤ checkpoint))
    && validId piId i.kind i.id
    && match i.kind with
      | .rateConfig => i.wrappedKey.isNone && i.ciphertext.isSome
      | _ => i.wrappedKey.isSome

/-- The last place after the items, if they only advance. -/
def Walk.advance (w : Walk) : Option Place → List Item → Option (Option Place)
  | last, [] => some last
  | last, i :: items =>
    if ∀ l, last = some l → l.Before (w.place i) then w.advance (some (w.place i)) items else none

/-- The walk after a page it accepts (`validate`). -/
def Walk.validate (w : Walk) (page : Page) (piId : Text) : Option Walk :=
  if page.items.length ≤ 200 ∧ (∀ since, w.since = some since → since ≤ page.revision)
      ∧ (∀ previous, w.checkpoint = some previous → previous = page.revision)
      ∧ (∀ cursor, page.nextCursor = some cursor →
        page.items ≠ [] ∧ validCursor cursor = true ∧ w.cursor ≠ some cursor)
      ∧ page.items.all (w.acceptsItem page.revision piId) = true then
    (w.advance w.last page.items).map fun last =>
      { w with checkpoint := some page.revision, cursor := page.nextCursor, last := last }
  else none

/-! ## Local tables -/

/-- The local tables the feed writes. Uploads give the Cloud identity of a charging session; its key can
be unknown. -/
structure Tables where
  uploads : List (Int × Text × Option Text)
  charges : Int → List Text × Option Charge.Cost
  chargeDirty : Int → Option Int
  rates : Text
  rateDirty : Option Int
  drives : Drive.Store

/-- How a change was settled. -/
inductive Outcome where
  /-- Written to a session. -/
  | stored (session : Int) (value : List Text × Option Charge.Cost)
  | storedRates (doc : Text)
  /-- Projected onto the drives that show the clip. -/
  | projected (p : Drive.Projection)
  /-- Left to the queued local edit, whose publication reads the record itself. -/
  | queued
  /-- Nothing local belongs to the record. -/
  | absent
  /-- The upload of its session was removed meanwhile. -/
  | removed (session : Int)
  /-- The record was deleted in the Cloud. -/
  | gone

/-- The session of a Cloud charge. -/
def Tables.session (t : Tables) (id : Text) : Option Int :=
  (t.uploads.find? fun u => decide (u.2.1 = id)).map Prod.fst

/-- Fill in the key of a session's upload. -/
def installKey (uploads : List (Int × Text × Option Text)) (session : Int) (key : Text) :
    List (Int × Text × Option Text) :=
  uploads.map fun u => if u.1 = session ∧ u.2.2 = none then (u.1, u.2.1, some key) else u

/-- Write a charge envelope, unless its session has a queued edit; `none` is the error of a replaced
upload (`apply_charge_mutable_from_sync`). -/
def Tables.applyCharge (t : Tables) (session : Int) (id key : Text)
    (value : List Text × Option Charge.Cost) : Option (Tables × Outcome) :=
  match t.uploads.lookup session with
  | none => some (t, .removed session)
  | some (id', key') =>
    if id' = id ∧ (key' = none ∨ key' = some key) then
      if (t.chargeDirty session).isSome then some (t, .queued)
      else
        let stored := (tagSet (value.1.filter fun tag => decide (tag ≠ [])), value.2)
        some ({ t with
          uploads := installKey t.uploads session key
          charges := Function.update t.charges session stored }, .stored session stored)
    else none

/-- The values of a charge document; reserved tags are derived, never stored. -/
def chargeValue : Option Content → Option (List Text × Option Charge.Cost)
  | none => some ([], none)
  | some (.charge tags cost) => some (tags.filter fun t => !Charge.isReservedTag t, cost)
  | some _ => none

/-! ## Applying changes -/

/-- What is being applied. -/
inductive Job where
  /-- A charge whose session had no queued edit when it was looked up. -/
  | charge (item : Item) (session : Int)
  | rate (item : Item)
  /-- Routes, with the drives that show them frozen. -/
  | group (targets : List Target) (frozen : Drive.Snapshot)

/-- The records of a job. -/
def Job.targets : Job → List Target
  | .charge item _ => [item.target]
  | .rate item => [item.target]
  | .group targets _ => targets

/-- The progress of `apply` over a list of changes. -/
structure Work where
  items : List Item
  routes : List Target
  groups : Option (List (List Target))
  job : Option Job
  done : List (Target × Outcome)
  failed : List Target

/-- Before the first change. -/
def Work.start (items : List Item) (done : List (Target × Outcome)) : Work :=
  ⟨items, [], none, none, done, []⟩

/-- Everything was applied or failed. -/
def Work.finished (w : Work) : Bool :=
  w.items.isEmpty && w.routes.isEmpty && decide (w.groups = some []) && w.job.isNone

/-- A group that failed is bisected, unless the Cloud was unavailable or it is a single record. -/
def Work.failGroup (w : Work) (targets : List Target) (unavailable : Bool) : Work :=
  if 1 < targets.length ∧ unavailable = false then
    { w with
      job := none
      groups := some (targets.take (targets.length / 2) :: targets.drop (targets.length / 2)
        :: w.groups.getD []) }
  else { w with job := none, failed := w.failed ++ targets }

/-- An error in the current job, or in looking up the next change. -/
def Work.fail (w : Work) (unavailable : Bool) : Option Work :=
  match w.job, w.items with
  | some (.charge item _), _ | some (.rate item), _ =>
    some { w with job := none, failed := w.failed ++ [item.target] }
  | some (.group targets _), _ => some (w.failGroup targets unavailable)
  | none, item :: items =>
    if item.kind = .route then none
    else some { w with items := items, failed := w.failed ++ [item.target] }
  | none, [] => none

/-- Settle the next change without a write, or make it the current job. Routes are collected until the
others are through. -/
def Work.take (w : Work) (t : Tables) : Option Work :=
  match w.job, w.items, w.groups with
  | some _, _, _ => none
  | none, item :: items, _ =>
    let w := { w with items := items }
    match item.kind with
    | .route => some { w with routes := w.routes ++ [item.target] }
    | .charge =>
      match t.session item.id with
      | none => some { w with done := w.done ++ [(item.target, .absent)] }
      | some session =>
        if (t.chargeDirty session).isSome then
          some { w with done := w.done ++ [(item.target, .queued)] }
        else some { w with job := some (.charge item session) }
    | .rateConfig =>
      if item.ciphertext.isNone then some { w with done := w.done ++ [(item.target, .absent)] }
      else if t.rateDirty.any fun at? => decide (item.updatedAt < at?) then
        some { w with done := w.done ++ [(item.target, .queued)] }
      else some { w with job := some (.rate item) }
  | none, [], none =>
    some { w with routes := [], groups := some (if w.routes = [] then [] else [w.routes]) }
  | none, [], some [] => none
  | none, [], some (targets :: groups) =>
    let w := { w with groups := some groups }
    match t.drives.snapshotForRoutes (targets.map Target.id) with
    | some (some frozen) => some { w with job := some (.group targets frozen) }
    | some none => some { w with done := w.done ++ targets.map fun x => (x, .absent) }
    | none => some (w.failGroup targets false)

/-- Carry out the current job; for routes with the states the Cloud returned. -/
def Work.write (w : Work) (t : Tables) (states : Drive.States) : Option (Tables × Work) :=
  match w.job with
  | none => none
  | some (.charge item session) =>
    let failed := { w with job := none, failed := w.failed ++ [item.target] }
    match chargeValue item.ciphertext, item.wrappedKey with
    | some value, some key =>
      match t.applyCharge session item.id key value with
      | some (t', o) => some (t', { w with job := none, done := w.done ++ [(item.target, o)] })
      | none => some (t, failed)
    | _, _ => some (t, failed)
  | some (.rate item) =>
    match item.ciphertext with
    | some (.rates doc) =>
      if t.rateDirty.isSome then
        some (t, { w with job := none, done := w.done ++ [(item.target, .queued)] })
      else some ({ t with rates := doc },
        { w with job := none, done := w.done ++ [(item.target, .storedRates doc)] })
    | _ => some (t, { w with job := none, failed := w.failed ++ [item.target] })
  | some (.group targets frozen) =>
    match Drive.project frozen states with
    | none => some (t, w.failGroup targets false)
    | some p =>
      match t.drives.applyProjected p with
      | some drives => some ({ t with drives := drives },
          { w with job := none, done := w.done ++ targets.map fun x => (x, .projected p) })
      | none => some (t, { w with job := none, failed := w.failed ++ targets })

/-! ## Retries -/

/-- The retry table: records with the nonce of their request. -/
abbrev Retries := List (Target × Nat)

/-- Note failed records under a new nonce, then drop those that are done (`record`). -/
def recordRetries (retry : Retries) (nonce : Nat) (failed done : List Target) : Retries :=
  (retry.filter (fun e => decide (e.1 ∉ failed)) ++ failed.dedup.map fun x => (x, nonce)).filter
    fun e => decide (e.1 ∉ done)

/-- The order of keys in the table. -/
def keyBefore (a b : Target) : Bool :=
  decide (a.kind.rank < b.kind.rank ∨ a.kind.rank = b.kind.rank ∧ a.id < b.id)

/-- The next entries after the cursor, from the start if there are none (`entries`). -/
def retryEntries (retry : Retries) (after : Option Target) : Retries :=
  let sorted := retry.insertionSort fun a b => !keyBefore b.1 a.1
  let rows := (sorted.filter fun e => after.all fun c => keyBefore c e.1).take 100
  if rows.isEmpty then sorted.take 100 else rows

/-- The state of a record the Cloud returned for a retry. -/
inductive Row where
  | gone
  | state (updatedAt : Int) (ciphertext : Option Content) (wrappedKey : Option Text)
  | invalid
  deriving DecidableEq

/-- The change to apply for a retry; `none` for a deleted charge, or an unusable state
(`current_item`). -/
def currentItem (piId : Text) (x : Target) : Row → Option Item
  | .state updatedAt ciphertext wrappedKey =>
    match x.kind with
    | .rateConfig =>
      if x.id = piId ∧ ciphertext.isSome ∧ wrappedKey.isNone then
        some ⟨x.kind, x.id, 0, updatedAt, ciphertext, none⟩
      else none
    | _ => if wrappedKey.isSome then some ⟨x.kind, x.id, 0, updatedAt, ciphertext, wrappedKey⟩ else none
  | _ => none

/-- The work of a retry: routes as they are, the others with their current state, and deleted charges
done. -/
def retryWork (piId : Text) (entries : Retries) (rows : Target → Row) : Work :=
  .start (entries.filterMap fun e =>
      if e.1.kind = .route then some ⟨.route, e.1.id, 0, 0, none, none⟩
      else currentItem piId e.1 (rows e.1))
    ((entries.filter fun e => decide (e.1.kind = .charge) && decide (rows e.1 = .gone)).map
      fun e => (e.1, .gone))

/-- Drop the entries that are done and still current (`complete`). -/
def completeRetries (retry entries : Retries) (done : List Target) : Retries :=
  retry.filter fun e => !(decide (e ∈ entries) && decide (e.1 ∈ done))

/-! ## The system -/

/-- A run over the feed: the rows it started from, its walk, and whether it was reset. -/
structure Pull where
  initial : Option Mark
  saved : Option SavedWalk
  walk : Walk
  reset : Bool

/-- A run over the retry table. -/
structure RetryRun where
  initial : Option Mark
  saved : Option SavedWalk
  generation : Nat
  entries : Retries

/-- Where the reader is; all of it is lost on a restart. -/
inductive Proc where
  | idle
  | walking (f : Pull)
  | paging (f : Pull) (next : Walk) (page : Page) (work : Work)
  | listed (r : RetryRun)
  | retrying (r : RetryRun) (work : Work)

/-- A transaction of the reader. -/
inductive Event where
  /-- A page, asked for with `since` and `cursor`. -/
  | page (since : Option Nat) (cursor : Option Text) (page : Page) (done : List (Target × Outcome))
      (failed : List Target)
  | retried (done : List (Target × Outcome))

/-- Persisted progress, local tables, and the reader. `log` is history: the transactions, newest
first. -/
structure System where
  piId : Text
  checkpoint : Option Mark
  walk : Option SavedWalk
  retry : Retries
  generation : Nat
  retryAfter : Option Target
  nextNonce : Nat
  tables : Tables
  proc : Proc
  log : List Event

/-- The walk to go on with: the saved one if it belongs to this checkpoint, or a new one. -/
def System.resume (s : System) : Walk :=
  match s.walk with
  | some saved =>
    if saved.base = s.checkpoint ∧ (saved.walk.since = none ∨ saved.walk.since = Mark.since s.checkpoint)
        ∧ resumeValid saved.walk s.piId = true then
      saved.walk
    else Walk.new (Mark.since s.checkpoint)
  | none => Walk.new (Mark.since s.checkpoint)

/-- Persisted progress is still what a run started from (`check_progress`). -/
def System.progressed (s : System) (initial : Option Mark) (saved : Option SavedWalk) : Bool :=
  decide (s.checkpoint = initial) && decide (s.walk = saved)

/-- Publish a page: its retry records, and the cursor or the checkpoint, in one transaction. -/
def System.commit (s : System) (f : Pull) (next : Walk) (page : Page) (work : Work) : System :=
  if s.progressed f.initial f.saved then
    let done := work.done.map Prod.fst
    let s := { s with
      retry := recordRetries s.retry s.nextNonce work.failed done
      nextNonce := s.nextNonce + 1
      generation := if work.failed = [] ∧ done = [] then s.generation else s.generation + 1
      log := .page f.walk.since f.walk.cursor page work.done work.failed :: s.log }
    match next.cursor with
    | none => { s with checkpoint := some (.revision page.revision), walk := none, proc := .idle }
    | some _ =>
      let saved := some ⟨f.initial, next⟩
      { s with walk := saved, proc := .walking { f with saved := saved, walk := next } }
  else { s with proc := .idle }

/-- Finish a retry run: completed entries go, and the table's cursor moves on. -/
def System.complete (s : System) (r : RetryRun) (work : Work) : System :=
  if s.progressed r.initial r.saved && decide (s.generation = r.generation) then
    let done := work.done.map Prod.fst
    let retry := completeRetries s.retry r.entries done
    { s with
      retry := retry
      generation := s.generation + (s.retry.length - retry.length)
      retryAfter := r.entries.getLast?.map Prod.fst
      log := .retried work.done :: s.log
      proc := .idle }
  else { s with proc := .idle }

/-- What can happen. -/
inductive Act where
  /-- Local edits, uploads, publications and ingestion: anything but the feed's own rows. -/
  | changeTables (tables : Tables)
  /-- A restart, or an error that ends the run. -/
  | restart
  | begin
  /-- The server asks for a full walk. -/
  | reset
  | receive (page : Page)
  | take
  | write (states : Drive.States)
  | fail (unavailable : Bool)
  | commit
  | list
  | readStates (rows : Target → Row)
  | skipRetries
  | complete

/-- One step of the system. -/
def step (s : System) : Act → Option System
  | .changeTables tables => some { s with tables := tables }
  | .restart => some { s with proc := .idle }
  | .begin => match s.proc with
    | .idle => some { s with proc := .walking ⟨s.checkpoint, s.walk, s.resume, false⟩ }
    | _ => none
  | .reset => match s.proc with
    | .walking f =>
      if f.reset = false ∧ s.progressed f.initial f.saved = true then
        some { s with walk := none, proc := .walking ⟨f.initial, none, Walk.new none, true⟩ }
      else some { s with proc := .idle }
    | _ => none
  | .receive page => match s.proc with
    | .walking f =>
      match f.walk.validate page s.piId with
      | some next => some { s with proc := .paging f next page (.start page.items []) }
      | none => some { s with proc := .idle }
    | _ => none
  | .take => match s.proc with
    | .paging f next page work =>
      (work.take s.tables).map fun work => { s with proc := .paging f next page work }
    | .retrying r work => (work.take s.tables).map fun work => { s with proc := .retrying r work }
    | _ => none
  | .write states => match s.proc with
    | .paging f next page work =>
      if s.progressed f.initial f.saved then
        (work.write s.tables states).map fun result =>
          { s with tables := result.1, proc := .paging f next page result.2 }
      else some { s with proc := .idle }
    | .retrying r work =>
      if s.progressed r.initial r.saved && decide (s.generation = r.generation) then
        (work.write s.tables states).map fun result =>
          { s with tables := result.1, proc := .retrying r result.2 }
      else some { s with proc := .idle }
    | _ => none
  | .fail unavailable => match s.proc with
    | .paging f next page work =>
      (work.fail unavailable).map fun work => { s with proc := .paging f next page work }
    | .retrying r work => (work.fail unavailable).map fun work => { s with proc := .retrying r work }
    | _ => none
  | .commit => match s.proc with
    | .paging f next page work => if work.finished then some (s.commit f next page work) else none
    | _ => none
  | .list => match s.proc with
    | .idle =>
      let entries := retryEntries s.retry s.retryAfter
      if entries = [] then none
      else some { s with proc := .listed ⟨s.checkpoint, s.walk, s.generation, entries⟩ }
    | _ => none
  | .readStates rows => match s.proc with
    | .listed r => some { s with proc := .retrying r (retryWork s.piId r.entries rows) }
    | _ => none
  | .skipRetries => match s.proc with
    | .listed r =>
      if s.progressed r.initial r.saved && decide (s.generation = r.generation) then
        some { s with retryAfter := r.entries.getLast?.map Prod.fst, proc := .idle }
      else some { s with proc := .idle }
    | _ => none
  | .complete => match s.proc with
    | .retrying r work => if work.finished then some (s.complete r work) else none
    | _ => none

end SentryUsb.Sync.Feed
