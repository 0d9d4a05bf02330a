import SentryUsb.Charging.BulkDelete
import SentryUsb.Library.TransitionSystem

/-! # The Cloud sweeps over charging sessions

One task runs the upload sweep (`cloud_uploader/charges.rs`) and after it the delete sweep
(`cloud_uploader/charge_deletes.rs`); the sampler, imports and bulk deletions run beside it. Each read,
transaction and message of a sweep is a step of its own, so the others come in anywhere between them. The
lock of the writer is held by an import from its rows to the reset of the cursor, so it is one step.

* **`sweepFrontier`** — the start of the oldest session that is open or unsent, or of the newest one;
* **`Tables.confirmChargeUpload`**, **`Tables.chargeUploadMark`** — the two ways an answer records an upload;
* **`Tables.chargeDeleteAck`**, **`Tables.chargeDeleteRemove`** — the two rounds of a queued deletion;
* **`System`**, **`step`** — the store, the task and what the others do to the store. -/

namespace SentryUsb.Charging

open Library

variable {β : Type}

/-! ## The upload sweep's choices -/

/-- A session no later row can continue. -/
def closed (now : Int) (session : List (Sample β)) : Bool :=
  session.getLast?.any fun last => decide (now - last.ts > sessionGapSecs)

/-- A predicate of the session's start. -/
def startIs (p : Int → Bool) (session : List (Sample β)) : Bool := session.head?.any fun first => p first.ts

/-- Where the next sweep may start. -/
def sweepFrontier (sessions : List (List (Sample β))) (now : Int) (handled : Int → Bool) : Option Int :=
  let present := sessions.filter fun session => !session.isEmpty
  (((present.find? fun session => !(closed now session && startIs handled session)).or present.getLast?).bind
    List.head?).map Sample.ts

/-- The sessions to send. -/
def selectPending (sessions : List (List (Sample β))) (now : Int) (handled outboxed : Int → Bool) :
    List (List (Sample β)) :=
  sessions.filter fun session => closed now session && !startIs handled session && !startIs outboxed session

/-! ## The store -/

/-- An upload the server stored or already had; a deletion queued meanwhile wins. A `duplicate` confirms no
key, and retires no edit. -/
def Tables.confirmChargeUpload (s : Tables β) (ts : Int) (cloudChargeId : Text) (storedKey : Option Text)
    (uploadedAt : Int) (included : Option Int) : Tables β :=
  if (s.outbox.lookup ts).isSome then s
  else
    let retired : Int → Option Int :=
      if storedKey.isSome && included.isSome && decide (s.dirty ts = included) then Function.update s.dirty ts none
      else s.dirty
    match s.uploads ts with
    | some row =>
      if row.cloudChargeId != cloudChargeId || storedKey.any fun key => row.wrappedChargeKey != key then s
      else { s with dirty := retired }
    | none =>
      { s with
        uploads := Function.update s.uploads ts (some ⟨cloudChargeId, storedKey.getD [], uploadedAt⟩)
        dirty := retired }

/-- A permanent skip; the check for a queued deletion is part of the statement. -/
def Tables.chargeUploadMark (s : Tables β) (ts : Int) (cloudChargeId wrappedChargeKey : Text) (uploadedAt : Int) :
    Tables β :=
  if (s.outbox.lookup ts).isSome then s
  else { s with uploads := Function.update s.uploads ts (some ⟨cloudChargeId, wrappedChargeKey, uploadedAt⟩) }

/-- The Cloud confirmed the deletion; the row stays for one more round. -/
def Tables.chargeDeleteAck (s : Tables β) (ts now : Int) : Tables β :=
  match s.outbox.lookup ts with
  | some row => { s with outbox := s.outbox.insert ts { row with ackedAt := some now } }
  | none => s

/-- The last round is over: the row goes if it is still settled. -/
def Tables.chargeDeleteRemove (s : Tables β) (ts : Int) : Tables β :=
  match s.outbox.lookup ts with
  | some row => if row.ackedAt.isSome then { s with outbox := s.outbox.erase ts } else s
  | none => s

/-- Every outbox row: time, Cloud id, whether it is settled. -/
def Tables.chargeDeleteOutboxAll (s : Tables β) : List (Int × Text × Bool) :=
  (s.outbox.entries.map fun e => (e.1, e.2.cloudChargeId, e.2.ackedAt.isSome)).insertionSort fun a b => a.1 ≤ b.1

/-! ## The task -/

/-- What the first read of an upload sweep fixes. -/
structure Scan where
  /-- The stored cursor, to compare with when a new one is written. -/
  token : Option Int
  low : Int
  full : Bool
  today : Text

/-- One session of a batch: the Cloud id, the start and the wrapped key. -/
structure Sent where
  chargeId : Text
  ts : Int
  wrappedKey : Text

/-- The answer to one uploaded session. -/
inductive UploadStatus where
  | stored
  | duplicate
  | rejectedTooLarge
  | rejectedStorageFull
  | rejectedConsentRequired
  | other
deriving DecidableEq

/-- The answer to one deleted session. -/
inductive DeleteStatus where
  | deleted
  | missing
  | other
deriving DecidableEq

/-- Where the task is. `since` is the time an upload sweep chose its sessions, `taken` the time a delete
sweep read the outbox, `sent` the time its request left. -/
inductive Proc (β : Type) where
  | idle
  | begun (scan : Scan)
  | known (scan : Scan) (handled : Int → Bool)
  | loaded (scan : Scan) (handled : Int → Bool) (now : Int) (sessions : List (List (Sample β)))
  | placed (handled : Int → Bool) (now : Int) (sessions : List (List (Sample β)))
  | selected (since : Nat) (pending : List (List (Sample β)))
  | prepared (since : Nat) (pending : List Int) (generations : Int → Option Int)
  | posted (since : Nat) (batch : List Sent) (rest : List Int) (generations : Int → Option Int)
  | acking (since : Nat) (batch : List Sent) (results : List (Text × UploadStatus)) (rest : List Int)
      (generations : Int → Option Int) (stop : Bool)
  | draining (taken : Nat) (rows rest : List (Int × Text × Bool))
  | deleting (taken sent : Nat) (rows rest : List (Int × Text × Bool))
  | settling (taken sent : Nat) (rows rest : List (Int × Text × Bool)) (results : List (Text × DeleteStatus))

/-- An answered bulk-delete request: when it was sent, and what the answer says. -/
structure Post where
  sent : Nat
  results : List (Text × DeleteStatus)

/-- The store and the task. `clock` counts the steps; `queued`, `retired` and `source` say when a session's
deletion was last queued, when its outbox row was last removed, and when the upload that last confirmed it was
chosen. Only the proofs read these and `answered`. -/
structure System (β : Type) where
  tables : Tables β
  cursor : Option Int
  fullDate : Option Text
  proc : Proc β
  clock : Nat
  queued : Int → Option Nat
  retired : Int → Option Nat
  source : Int → Nat
  answered : List Post

/-- A store with an idle task. -/
def System.start (tables : Tables β) (cursor : Option Int) (fullDate : Option Text) : System β :=
  ⟨tables, cursor, fullDate, .idle, 0, fun _ => none, fun _ => none, fun _ => 0, []⟩

/-- One step later. -/
def System.tick (s : System β) : System β := { s with clock := s.clock + 1 }

/-- The task goes on, nothing else changes. -/
def System.goto (s : System β) (proc : Proc β) : System β := { s.tick with proc := proc }

/-- The start of an upload sweep's scan: everything once a day, else from the cursor. -/
def System.scan (s : System β) (today : Text) : Scan :=
  if s.fullDate = some today then ⟨s.cursor, s.cursor.getD 0, false, today⟩ else ⟨s.cursor, 0, true, today⟩

/-- The starts of sessions. -/
def starts (sessions : List (List (Sample β))) : List Int := sessions.filterMap fun session => session.head?.map Sample.ts

/-- The sent session with the id; a later one of the same id hides an earlier one. -/
def sentWith (batch : List Sent) (id : Text) : Option Sent := batch.reverse.find? fun e => e.chargeId == id

/-- The outbox row of a snapshot with the id. -/
def rowWith (rows : List (Int × Text × Bool)) (id : Text) : Option (Int × Text × Bool) :=
  rows.reverse.find? fun r => r.2.1 == id

/-- Every sent session is answered once, with a known status. -/
def validAnswer (batch : List Sent) (results : List (Text × UploadStatus)) : Bool :=
  let sent := (batch.map Sent.chargeId).dedup
  results.length == sent.length && results.all (fun r => sent.contains r.1 && r.2 != .other)
    && decide (results.map Prod.fst).Nodup

/-! ## Steps -/

/-- What happens to the store and the task. -/
inductive Action (β : Type) where
  /-- The sampler writes a row; its clock moves forward. -/
  | sample (r : Sample β)
  /-- An import inserts rows and resets the cursor. -/
  | importRows (rows : List (Sample β))
  /-- One id of a bulk deletion. -/
  | delete (now id : Int)
  | readCursor (today : Text)
  | readUploads
  | loadRows (now : Int)
  | writeCursor
  | readOutbox
  | readGenerations
  | post (keys : Int → Text)
  | answer (results : List (Text × UploadStatus))
  | acknowledge (now : Int)
  | readDeletes
  | postDeletes
  | answerDeletes (results : List (Text × DeleteStatus))
  | settle (now : Int)
  /-- The sweep ends: by an error, a cancellation, a restart, or because nothing is left to do. -/
  | leave

/-- Sessions a POST carries. -/
def uploadBatchLimit : Nat := 32

/-- Deletions a POST carries. -/
def deleteBatchLimit : Nat := 200

/-- The marker of a permanent skip. -/
def permanentSkipSentinel : Int := -1

/-- What one answer does to the tables. -/
def Tables.acknowledge (s : Tables β) (e : Sent) (status : UploadStatus) (now : Int) (included : Option Int) :
    Tables β :=
  match status with
  | .stored => s.confirmChargeUpload e.ts e.chargeId (some e.wrappedKey) now included
  | .duplicate => s.confirmChargeUpload e.ts e.chargeId none now included
  | .rejectedTooLarge => s.chargeUploadMark e.ts e.chargeId e.wrappedKey permanentSkipSentinel
  | .rejectedStorageFull | .rejectedConsentRequired | .other => s

/-- What one answer does to the outbox. -/
def Tables.settle (s : Tables β) (row : Int × Text × Bool) (status : DeleteStatus) (now : Int) : Tables β :=
  match status with
  | .deleted | .missing => if row.2.2 then s.chargeDeleteRemove row.1 else s.chargeDeleteAck row.1 now
  | .other => s

section
variable (chargeId : Int → Text)

/-- One step, or nothing when the task is not at the point the action is taken from. -/
def step (s : System β) : Action β → Option (System β)
  | .sample r =>
    if s.tables.telemetry.rows.all fun q => decide (q.ts < r.ts) then
      some { s.tick with tables := { s.tables with telemetry := s.tables.telemetry.insert r } }
    else none
  | .importRows rows =>
    some { s.tick with
      tables := { s.tables with telemetry := rows.foldl Table.insertOrIgnore s.tables.telemetry }
      cursor := none }
  | .delete now id =>
    match sessionWindow s.tables.telemetry id with
    | none => some s.tick
    | some (first, last) =>
      some { s.tick with
        tables := s.tables.deleteSession chargeId now first last
        queued := Function.update s.queued first (some s.clock) }
  | .readCursor today =>
    match s.proc with
    | .idle => some (s.goto (.begun (s.scan today)))
    | _ => none
  | .readUploads =>
    match s.proc with
    | .begun scan =>
      some (s.goto (.known scan fun ts => decide (scan.low ≤ ts) && (s.tables.uploads ts).isSome))
    | _ => none
  | .loadRows now =>
    match s.proc with
    | .known scan handled =>
      some (s.goto (.loaded scan handled now (groupSessions (loadChargeRows s.tables.telemetry scan.low none))))
    | _ => none
  | .writeCursor =>
    match s.proc with
    | .loaded scan handled now sessions =>
      if s.cursor = scan.token then
        some { s.goto (.placed handled now sessions) with
          cursor := (sweepFrontier sessions now handled).or s.cursor
          fullDate := if scan.full then some scan.today else s.fullDate }
      else some (s.goto (.placed handled now sessions))
    | _ => none
  | .readOutbox =>
    match s.proc with
    | .placed handled now sessions =>
      some (s.goto (.selected s.clock
        (selectPending sessions now handled fun ts => (s.tables.outbox.lookup ts).isSome)))
    | _ => none
  | .readGenerations =>
    match s.proc with
    | .selected since pending => some (s.goto (.prepared since (starts pending) s.tables.dirty))
    | _ => none
  | .post keys =>
    match s.proc with
    | .prepared since pending generations =>
      if pending = [] then none
      else
        some (s.goto (.posted since ((pending.take uploadBatchLimit).map fun ts => ⟨chargeId ts, ts, keys ts⟩)
          (pending.drop uploadBatchLimit) generations))
    | _ => none
  | .answer results =>
    match s.proc with
    | .posted since batch rest generations =>
      if validAnswer batch results then some (s.goto (.acking since batch results rest generations false))
      else none
    | _ => none
  | .acknowledge now =>
    match s.proc with
    | .acking since batch (result :: results) rest generations stop =>
      match sentWith batch result.1 with
      | none => some (s.goto (.acking since batch results rest generations stop))
      | some e =>
        some { s.goto (.acking since batch results rest generations
            (stop || result.2 = .rejectedStorageFull || result.2 = .rejectedConsentRequired)) with
          tables := s.tables.acknowledge e result.2 now (generations e.ts)
          source := if (s.tables.outbox.lookup e.ts).isSome then s.source else Function.update s.source e.ts since }
    | .acking since _ [] rest generations stop =>
      if stop then some (s.goto .idle) else some (s.goto (.prepared since rest generations))
    | _ => none
  | .readDeletes =>
    match s.proc with
    | .idle => some (s.goto (.draining s.clock s.tables.chargeDeleteOutboxAll s.tables.chargeDeleteOutboxAll))
    | _ => none
  | .postDeletes =>
    match s.proc with
    | .draining taken rows rest =>
      if rest = [] then none else some (s.goto (.deleting taken s.clock rows (rest.drop deleteBatchLimit)))
    | _ => none
  | .answerDeletes results =>
    match s.proc with
    | .deleting taken sent rows rest =>
      some { s.goto (.settling taken sent rows rest results) with answered := ⟨sent, results⟩ :: s.answered }
    | _ => none
  | .settle now =>
    match s.proc with
    | .settling taken sent rows rest (result :: results) =>
      match rowWith rows result.1 with
      | none => some (s.goto (.settling taken sent rows rest results))
      | some row =>
        let tables := s.tables.settle row result.2 now
        some { s.goto (.settling taken sent rows rest results) with
          tables := tables
          retired := if (s.tables.outbox.lookup row.1).isSome && (tables.outbox.lookup row.1).isNone then
            Function.update s.retired row.1 (some s.clock) else s.retired }
    | .settling taken _ rows rest [] => some (s.goto (.draining taken rows rest))
    | _ => none
  | .leave => some (s.goto .idle)

end

/-! ## What an answer does to the tables -/

/-- At most the upload record of one session changes. -/
structure Tables.WritesRecord (s t : Tables β) (ts : Int) : Prop where
  telemetry : t.telemetry = s.telemetry
  outbox : t.outbox = s.outbox
  uploads : t.uploads = s.uploads ∨ ∃ row, t.uploads = Function.update s.uploads ts (some row)

theorem Tables.confirmChargeUpload_writes (s : Tables β) (ts : Int) (cloudChargeId : Text) (storedKey : Option Text)
    (uploadedAt : Int) (included : Option Int) :
    s.WritesRecord (s.confirmChargeUpload ts cloudChargeId storedKey uploadedAt included) ts := by
  unfold Tables.confirmChargeUpload
  dsimp only
  by_cases hqueued : (s.outbox.lookup ts).isSome = true
  · rw [if_pos hqueued]
    exact ⟨rfl, rfl, .inl rfl⟩
  · rw [if_neg hqueued]
    cases s.uploads ts with
    | none => exact ⟨rfl, rfl, .inr ⟨_, rfl⟩⟩
    | some row =>
      dsimp only
      split
      · exact ⟨rfl, rfl, .inl rfl⟩
      · exact ⟨rfl, rfl, .inl rfl⟩

/-- An answer writes at most the record of its own session. -/
theorem Tables.acknowledge_writes (s : Tables β) (e : Sent) (status : UploadStatus) (now : Int) (included : Option Int) :
    s.WritesRecord (s.acknowledge e status now included) e.ts := by
  cases status with
  | stored | duplicate => exact s.confirmChargeUpload_writes _ _ _ _ _
  | rejectedTooLarge =>
    show s.WritesRecord (s.chargeUploadMark e.ts e.chargeId e.wrappedKey permanentSkipSentinel) e.ts
    unfold Tables.chargeUploadMark
    split
    · exact ⟨rfl, rfl, .inl rfl⟩
    · exact ⟨rfl, rfl, .inr ⟨_, rfl⟩⟩
  | rejectedStorageFull | rejectedConsentRequired | other => exact ⟨rfl, rfl, .inl rfl⟩

theorem Tables.acknowledge_outbox (s : Tables β) (e : Sent) (status : UploadStatus) (now : Int)
    (included : Option Int) : (s.acknowledge e status now included).outbox = s.outbox :=
  (s.acknowledge_writes e status now included).outbox

theorem Tables.acknowledge_uploads_ne {s : Tables β} {e : Sent} {ts : Int} (h : ts ≠ e.ts)
    (status : UploadStatus) (now : Int) (included : Option Int) :
    (s.acknowledge e status now included).uploads ts = s.uploads ts := by
  rcases (s.acknowledge_writes e status now included).uploads with heq | ⟨row, heq⟩
  · rw [heq]
  · rw [heq, Function.update_of_ne h]

/-- An answer takes no record away. -/
theorem Tables.acknowledge_uploads_ne_none {s : Tables β} {e : Sent} {ts : Int} (h : s.uploads ts ≠ none)
    (status : UploadStatus) (now : Int) (included : Option Int) :
    (s.acknowledge e status now included).uploads ts ≠ none := by
  rcases (s.acknowledge_writes e status now included).uploads with heq | ⟨row, heq⟩
  · rw [heq]
    exact h
  · rw [heq]
    by_cases hts : ts = e.ts
    · rw [hts, Function.update_self]
      exact Option.some_ne_none row
    · rw [Function.update_of_ne hts]
      exact h

theorem Tables.acknowledge_of_queued {s : Tables β} {e : Sent} (h : (s.outbox.lookup e.ts).isSome = true)
    (status : UploadStatus) (now : Int) (included : Option Int) : s.acknowledge e status now included = s := by
  cases status <;> simp only [Tables.acknowledge, Tables.confirmChargeUpload, Tables.chargeUploadMark]
  all_goals simp only [h, if_true]

theorem Tables.settle_telemetry (s : Tables β) (row : Int × Text × Bool) (status : DeleteStatus) (now : Int) :
    (s.settle row status now).telemetry = s.telemetry := by
  cases status <;> simp only [Tables.settle, Tables.chargeDeleteRemove, Tables.chargeDeleteAck]
  all_goals repeat' split
  all_goals rfl

theorem Tables.settle_uploads (s : Tables β) (row : Int × Text × Bool) (status : DeleteStatus) (now : Int) :
    (s.settle row status now).uploads = s.uploads := by
  cases status <;> simp only [Tables.settle, Tables.chargeDeleteRemove, Tables.chargeDeleteAck]
  all_goals repeat' split
  all_goals rfl

/-- What an answer does to the outbox: it removes a settled row, settles a pending one, or does nothing. -/
theorem Tables.settle_cases (s : Tables β) (row : Int × Text × Bool) (status : DeleteStatus) (now : Int) :
    s.settle row status now = s
      ∨ (∃ r, (status = .deleted ∨ status = .missing) ∧ row.2.2 = true ∧ s.outbox.lookup row.1 = some r
          ∧ r.ackedAt.isSome = true ∧ (s.settle row status now).outbox = s.outbox.erase row.1)
      ∨ ∃ r, row.2.2 = false ∧ s.outbox.lookup row.1 = some r
          ∧ (s.settle row status now).outbox = s.outbox.insert row.1 { r with ackedAt := some now } := by
  have hterminal : ∀ status' : DeleteStatus, (status' = .deleted ∨ status' = .missing) →
      s.settle row status' now = if row.2.2 then s.chargeDeleteRemove row.1 else s.chargeDeleteAck row.1 now := by
    rintro status' (rfl | rfl) <;> rfl
  cases status with
  | other => exact .inl rfl
  | deleted | missing =>
    rw [hterminal _ (by simp)]
    by_cases hsettled : row.2.2 = true
    · rw [if_pos hsettled, Tables.chargeDeleteRemove]
      cases hrow : s.outbox.lookup row.1 with
      | none => exact .inl rfl
      | some r =>
        dsimp only
        by_cases hacked : r.ackedAt.isSome = true
        · rw [if_pos hacked]
          exact .inr (.inl ⟨r, by simp, hsettled, rfl, hacked, rfl⟩)
        · rw [if_neg hacked]
          exact .inl rfl
    · rw [if_neg hsettled, Tables.chargeDeleteAck]
      cases hrow : s.outbox.lookup row.1 with
      | none => exact .inl rfl
      | some r => exact .inr (.inr ⟨r, by simpa using hsettled, rfl, rfl⟩)

end SentryUsb.Charging
