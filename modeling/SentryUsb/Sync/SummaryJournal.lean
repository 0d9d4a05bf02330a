import SentryUsb.Library.TransitionSystem
import SentryUsb.Library.Chronicle
import SentryUsb.Library.Json
import SentryUsb.Grouper.Clip

/-! # The journal of location summary repairs

A background pass repairs the summaries of old uploads one at a time. Before a proposal leaves the device it is written
to a journal row of the pairing at hand, and it is sent again from there until an answer to it arrives; when the local
evidence has changed in between, the row is turned into a cancellation first. Passes take turns on one lock; a pass is
cut at the points where it awaits, and may end at any of them.

* **`acknowledgement`**, **`PendingSummary.validate`**, **`replace`** — the checks and the write (`locations.rs`);
* **`step`** — a pass, point by point, with changes of the credentials and restarts in between
  (`locations/background.rs`);
* **`Allowed`** — what may be written to the history of attempts, given their past;
* **`journal_exact`** — every history is allowed, and the rows are its attempts that are not removed. -/

namespace SentryUsb.Sync.Location

open Library

/-! ## Proposals -/

abbrev Value := Json Text Int

structure SummaryProposal where
  routeId : Text
  recordVersion : Text
  wrappedRouteKey : Text
  expectedSummaryCiphertext : Option Text
  summaryCiphertext : Text
  operationId : Text
  deriving DecidableEq, Repr

structure PreparedSummary where
  sourceFingerprint : Text
  proposal : SummaryProposal
  deriving DecidableEq, Repr

/-- A row of the journal. -/
structure PendingSummary where
  version : Nat
  binding : Text
  file : Text
  prepared : PreparedSummary
  cancel : Bool
  deriving DecidableEq, Repr

inductive SummaryOutcome where
  | applied
  | conflict
  | sourceChanged
  | notFound
  | cancelled
  deriving DecidableEq, Repr

/-- What the code takes from elsewhere: of the credentials the fields that a request names and a digest, the route id of
a path, and base64. -/
structure Outside (κ : Type) where
  pairingBinding : κ → Text
  piId : κ → Text
  dekRotationGeneration : κ → Nat
  routeIdFromPath : Text → Text
  decode : Text → Option (List Nat)
  encode : List Nat → Text

variable {κ : Type} (o : Outside κ)

/-! ## Checks -/

/-- Bytes of a text. -/
def byteLength (t : Text) : Nat := (t.map Char.utf8Size).sum

/-- `hex`: a digest in lower-case hexadecimal. -/
def hex (value : Text) : Bool :=
  decide (value.length = 64) && value.all fun c => c.isDigit || (decide ('a' ≤ c) && decide (c ≤ 'f'))

/-- `checked_envelope`. -/
def checkedEnvelope (value : Text) (max : Nat) (exact : Option Nat) : Bool :=
  decide (value.length ≤ (max + 2) / 3 * 4) && (o.decode value).any fun bytes =>
    decide (29 ≤ bytes.length ∧ bytes.length ≤ max ∧ bytes.head? = some 1 ∧ o.encode bytes = value)
      && exact.all fun size => decide (size = bytes.length)

/-- `validate_proposal`. -/
def validateProposal (p : SummaryProposal) : Bool :=
  hex p.routeId && hex p.recordVersion && hex p.operationId && checkedEnvelope o p.wrappedRouteKey 61 (some 61)
    && checkedEnvelope o p.summaryCiphertext 4096 none
    && p.expectedSummaryCiphertext.all fun summary => checkedEnvelope o summary 4096 none

/-- `PendingSummary::validate`. -/
def PendingSummary.validate (p : PendingSummary) (binding : Text) : Bool :=
  decide (p.version = 1 ∧ p.binding = binding) && hex binding && !p.file.isEmpty && decide (byteLength p.file ≤ 4096)
    && decide (o.routeIdFromPath p.file = p.prepared.proposal.routeId) && hex p.prepared.sourceFingerprint
    && validateProposal o p.prepared.proposal

/-- A lower-case hexadecimal digit. -/
def hexDigit (n : Nat) : Char := if n < 10 then Char.ofNat (48 + n) else Char.ofNat (87 + n)

/-- A character inside a JSON string. -/
def escapeChar (c : Char) : Text :=
  if c = '"' ∨ c = '\\' then ['\\', c]
  else if c.toNat = 8 then "\\b".toList
  else if c.toNat = 12 then "\\f".toList
  else if c = '\n' then "\\n".toList
  else if c = '\r' then "\\r".toList
  else if c = '\t' then "\\t".toList
  else if c.toNat < 32 then "\\u00".toList ++ [hexDigit (c.toNat / 16), hexDigit (c.toNat % 16)]
  else [c]

def jsonString (t : Text) : Text := ['"'] ++ t.flatMap escapeChar ++ ['"']

/-- `serde_json::to_string` of a struct, from its fields. -/
def jsonStruct (fields : List (Text × Text)) : Text :=
  ['\x7b'] ++ List.intercalate [','] (fields.map fun f => jsonString f.1 ++ [':'] ++ f.2) ++ ['\x7d']

def SummaryProposal.toText (p : SummaryProposal) : Text :=
  jsonStruct
    [("routeId".toList, jsonString p.routeId), ("recordVersion".toList, jsonString p.recordVersion),
      ("wrappedRouteKey".toList, jsonString p.wrappedRouteKey),
      ("expectedSummaryCiphertext".toList, (p.expectedSummaryCiphertext.map jsonString).getD "null".toList),
      ("summaryCiphertext".toList, jsonString p.summaryCiphertext), ("operationId".toList, jsonString p.operationId)]

/-- The text of a row. -/
def PendingSummary.toText (p : PendingSummary) : Text :=
  jsonStruct
    [("version".toList, (Nat.repr p.version).toList), ("binding".toList, jsonString p.binding),
      ("file".toList, jsonString p.file),
      ("prepared".toList,
        jsonStruct
          [("sourceFingerprint".toList, jsonString p.prepared.sourceFingerprint),
            ("proposal".toList, p.prepared.proposal.toText)]),
      ("cancel".toList, if p.cancel then "true".toList else "false".toList)]

/-- Whether the text of a row is within its limit. -/
def PendingSummary.fits (p : PendingSummary) : Bool := decide (byteLength p.toText ≤ 20 * 1024)

/-! ## Answers -/

/-- A field of a value; what is missing is null. -/
def field (k : String) (v : Value) : Value := (Json.get k.toList v).getD .null

/-- The outcome that a status names; the name alone, or the name with nothing. -/
def outcomeOf (status : Value) : Option SummaryOutcome :=
  let name : Option Text := match status with
    | .string t => some t
    | .object [(t, .null)] => some t
    | _ => none
  name.bind fun t =>
    if t = "applied".toList then some .applied
    else if t = "conflict".toList then some .conflict
    else if t = "source_changed".toList then some .sourceChanged
    else if t = "not_found".toList then some .notFound
    else if t = "cancelled".toList then some .cancelled
    else none

/-- `acknowledgement`: what an answer says of the operation it was asked for. -/
def acknowledgement (response : Value) (p : SummaryProposal) : Except Text SummaryOutcome :=
  if field "ok" response = .bool true ∧ field "protocol" response = .number 1 then
    match field "results" response with
    | .array [result] =>
      if field "routeId" result = .string p.routeId ∧ field "operationId" result = .string p.operationId then
        match outcomeOf (field "status" result) with
        | some outcome => .ok outcome
        | none => .error "unsupported summary acknowledgement".toList
      else .error "summary acknowledgement identity changed".toList
    | .array _ => .error "summary acknowledgement identity changed".toList
    | _ => .error "missing summary acknowledgement".toList
  else .error "invalid summary acknowledgement protocol".toList

/-! ## Requests -/

/-- A request that has left the device. -/
structure SummaryRequest where
  path : String
  piId : Text
  dekRotationGeneration : Nat
  items : List SummaryProposal
  deriving DecidableEq, Repr

/-- The request of `publish`. -/
def publishRequest (creds : κ) (p : SummaryProposal) (cancel : Bool) : SummaryRequest where
  path := if cancel then "/api/pi/sync/route-summaries/cancel/v1" else "/api/pi/sync/route-summaries/v1"
  piId := o.piId creds
  dekRotationGeneration := o.dekRotationGeneration creds
  items := [p]

/-! ## The device -/

/-- An attempt: what is in its row, and its number among all attempts. The number is of the history alone; no step looks
at it. -/
structure Attempt where
  number : Nat
  pending : PendingSummary
  deriving DecidableEq, Repr

/-- The row of an attempt as it was reserved. -/
def PendingSummary.original (p : PendingSummary) : PendingSummary := { p with cancel := false }

/-- What happens to attempts. -/
inductive Event (κ : Type) where
  /-- The row of an attempt is written, for the credentials of the pass. -/
  | reserved (number : Nat) (creds : κ) (pending : PendingSummary)
  /-- The row is turned into a cancellation. -/
  | cancelled (number : Nat)
  /-- A request leaves the device. -/
  | sent (number : Nat) (request : SummaryRequest)
  /-- The answer to a request arrives. -/
  | answered (number : Nat) (response : Value)
  /-- The row is deleted, with these credentials in memory. -/
  | removed (number : Nat) (creds : Option κ)

def Event.number : Event κ → Nat
  | .reserved n _ _ | .cancelled n | .sent n _ | .answered n _ | .removed n _ => n

/-- Where a pass stands; `item` while it repairs a record of its walk. -/
inductive Stage where
  /-- It has taken its turn (`location_sync`). -/
  | starting
  /-- It looks for an attempt left by an earlier pass. -/
  | resolving
  /-- `advance_pending` reads the local evidence. -/
  | reading (a : Attempt) (item : Bool)
  | advancing (a : Attempt) (fingerprint : Option Text) (item : Bool)
  | cancelling (a : Attempt) (item : Bool)
  /-- The row is compared once more before the request. -/
  | verifying (a : Attempt) (item : Bool)
  | sending (a : Attempt) (item : Bool)
  | awaiting (a : Attempt) (item : Bool)
  | acknowledged (a : Attempt) (outcome : SummaryOutcome) (item : Bool)
  /-- It walks over the uploaded records. -/
  | scanning
  | reserving (file : Text) (prepared : PreparedSummary)
  /-- A record has failed: an attempt that is left ends the pass. -/
  | failing

/-- The attempt a pass holds. -/
def Stage.attempt : Stage → Option Attempt
  | .reading a _ | .advancing a _ _ | .cancelling a _ | .verifying a _ | .sending a _ | .awaiting a _
  | .acknowledged a _ _ => some a
  | _ => none

structure Pass (κ : Type) where
  creds : κ
  stage : Stage

structure Device (κ : Type) where
  /-- The credentials in memory. -/
  creds : Option κ
  /-- The rows, by binding (`pending_key`). -/
  journal : Text → Option Attempt
  pass : Option (Pass κ)
  /-- Everything that has happened to attempts, the newest first. -/
  log : List (Event κ)
  /-- Attempts reserved so far. -/
  reserved : Nat

/-- A device without attempts. -/
def Device.new (creds : Option κ) : Device κ := ⟨creds, fun _ => none, none, [], 0⟩

/-- How a durable write ends: it may fail before its commit or after it. -/
inductive Write where
  | done
  | failed (committed : Bool)
  deriving DecidableEq, Repr

def Write.committed : Write → Bool
  | .done => true
  | .failed committed => committed

def Device.goTo (s : Device κ) (creds : κ) (stage : Stage) : Device κ := { s with pass := some ⟨creds, stage⟩ }

/-- An error ends the pass, or the record it repairs. -/
def Device.fail (s : Device κ) (creds : κ) (item : Bool) : Device κ :=
  if item then s.goTo creds .failing else { s with pass := none }

/-- The pass after a durable write. -/
def Device.after (s : Device κ) (creds : κ) (item : Bool) (next : Stage) : Write → Device κ
  | .done => s.goTo creds next
  | .failed _ => s.fail creds item

/-- `PendingSummary::replace`, the comparison and the write; missing if the row is not the expected one. -/
def replace (s : Device κ) (binding : Text) (expected : Option PendingSummary) (next : Option Attempt) (event : Event κ)
    (w : Write) : Option (Device κ) :=
  if (s.journal binding).map Attempt.pending = expected then
    some (if w.committed then { s with journal := Function.update s.journal binding next, log := event :: s.log } else s)
  else none

/-- `PendingSummary::load`: nothing, or the row, or an error. -/
def load (s : Device κ) (creds : κ) : Except Unit (Option Attempt) :=
  match s.journal (o.pairingBinding creds) with
  | none => .ok none
  | some a => if a.pending.fits && a.pending.validate o (o.pairingBinding creds) then .ok (some a) else .error ()

inductive Act (κ : Type) where
  /-- The credentials change: a pairing, its removal, a new key. -/
  | setCreds (creds : Option κ)
  /-- The process starts again, with the credentials it finds. -/
  | restart (creds : Option κ)
  | begin
  /-- `current_credentials`, at the start and after a failed record. -/
  | check
  | load
  /-- The local evidence is read: its fingerprint if the record is there, or nothing if that fails. -/
  | snapshot (evidence : Option (Option Text))
  | decide
  | cancel (w : Write)
  | verify
  | send
  /-- An answer, or none. -/
  | answer (response : Option Value)
  | retire (w : Write)
  /-- A record of the walk needs a repair. -/
  | prepare (file : Text) (prepared : PreparedSummary)
  | reserve (w : Write)
  | finish

section Steps

variable [DecidableEq κ]

/-- One point of a pass. -/
def passStep (s : Device κ) (c : κ) (stage : Stage) (a : Act κ) : Option (Device κ) :=
  let binding := o.pairingBinding c
  match stage, a with
  | .starting, .check => some (if s.creds = some c then s.goTo c .resolving else { s with pass := none })
  | .resolving, .load =>
    some (match load o s c with
      | .ok (some a) => s.goTo c (.reading a false)
      | .ok none => s.goTo c .scanning
      | .error _ => { s with pass := none })
  | .reading a item, .snapshot evidence =>
    some (match evidence with
      | some fingerprint => s.goTo c (.advancing a fingerprint item)
      | none => s.fail c item)
  | .advancing a fingerprint item, .decide =>
    some (if a.pending.validate o binding then
      if a.pending.cancel = false ∧ fingerprint ≠ some a.pending.prepared.sourceFingerprint then
        s.goTo c (.cancelling a item)
      else s.goTo c (.verifying a item)
    else s.fail c item)
  | .cancelling a item, .cancel w =>
    let updated : Attempt := { a with pending := { a.pending with cancel := true } }
    some (if s.creds = some c then
      match replace s binding (some a.pending) (some updated) (.cancelled a.number) w with
      | some t => t.after c item (.verifying updated item) w
      | none => s.fail c item
    else s.fail c item)
  | .verifying a item, .verify =>
    some (if s.creds = some c ∧ (s.journal binding).map Attempt.pending = some a.pending then
      s.goTo c (.sending a item)
    else s.fail c item)
  | .sending a item, .send =>
    let request := publishRequest o c a.pending.prepared.proposal a.pending.cancel
    some (if validateProposal o a.pending.prepared.proposal then
      { s with pass := some ⟨c, .awaiting a item⟩, log := .sent a.number request :: s.log }
    else s.fail c item)
  | .awaiting a item, .answer response =>
    some (match response with
      | none => s.fail c item
      | some response =>
        let arrived := { s with log := .answered a.number response :: s.log }
        match acknowledgement response a.pending.prepared.proposal with
        | .ok outcome => arrived.goTo c (.acknowledged a outcome item)
        | .error _ => arrived.fail c item)
  | .acknowledged a _ item, .retire w =>
    some (if s.creds = some c then
      match replace s binding (some a.pending) none (.removed a.number s.creds) w with
      | some t => t.after c item .scanning w
      | none => s.fail c item
    else s.fail c item)
  | .scanning, .prepare file prepared => some (s.goTo c (.reserving file prepared))
  | .scanning, .finish => some { s with pass := none }
  | .reserving file prepared, .reserve w =>
    let pending : PendingSummary := ⟨1, binding, file, prepared, false⟩
    let a : Attempt := ⟨s.reserved, pending⟩
    some (if pending.validate o binding && pending.fits && decide (s.creds = some c) then
      match replace s binding none (some a) (.reserved a.number c pending) w with
      | some t => { t with reserved := s.reserved + 1 }.after c true (.reading a true) w
      | none => s.fail c true
    else s.fail c true)
  | .failing, .check =>
    some (if s.creds = some c then
      match load o s c with
      | .ok none => s.goTo c .scanning
      | _ => { s with pass := none }
    else { s with pass := none })
  | _, _ => none

/-- One step of the device. A pass that is ended leaves its requests to their fate. -/
def step (s : Device κ) (a : Act κ) : Option (Device κ) :=
  match a, s.pass with
  | .setCreds creds, _ => some { s with creds }
  | .restart creds, _ => some { s with creds, pass := none }
  | .begin, none => s.creds.map fun c => s.goTo c .starting
  | a, some pass => passStep o s pass.creds pass.stage a
  | _, none => none

end Steps

/-! ## The history of attempts -/

/-- An attempt is in the journal: reserved and not removed. -/
def Open (n : Nat) (past : List (Event κ)) : Prop := ∀ creds, .removed n creds ∉ past

/-- **What may happen to an attempt**, given its past. -/
def Allowed : Event κ → List (Event κ) → Prop
  -- a new attempt, and all attempts of its pairing are removed
  | .reserved n c p, past =>
    p.cancel = false ∧ (∀ e ∈ past, e.number ≠ n) ∧
      ∀ m c' q, .reserved m c' q ∈ past → o.pairingBinding c' = o.pairingBinding c → ¬ Open m past
  | .cancelled n, past => (∃ c p, .reserved n c p ∈ past) ∧ Open n past
  -- the proposal that was reserved, as a cancellation once and only once it is cancelled
  | .sent n request, past =>
    ∃ c p, .reserved n c p ∈ past ∧ Open n past ∧
      ((.cancelled n ∈ past ∧ request = publishRequest o c p.prepared.proposal true) ∨
        (.cancelled n ∉ past ∧ request = publishRequest o c p.prepared.proposal false))
  | .answered n _, past => ∃ request, .sent n request ∈ past
  -- after an acknowledgement of its own operation, under the credentials it was reserved with
  | .removed n creds, past =>
    ∃ c p, .reserved n c p ∈ past ∧ Open n past ∧ creds = some c ∧
      ∃ response outcome, .answered n response ∈ past ∧
        acknowledgement response p.prepared.proposal = .ok outcome

/-- An attempt that is pending for a binding, as it is now. -/
def Pending (log : List (Event κ)) (binding : Text) (a : Attempt) : Prop :=
  ∃ c, o.pairingBinding c = binding ∧ .reserved a.number c a.pending.original ∈ log ∧ Open a.number log ∧
    (a.pending.cancel = true ↔ .cancelled a.number ∈ log)

/-! ## What every run keeps -/

/-- The history is allowed, and the journal holds its pending attempts. -/
structure Recorded (journal : Text → Option Attempt) (log : List (Event κ)) (reserved : Nat) : Prop where
  chronicle : Chronicle (Allowed o) log
  rows : ∀ b a, journal b = some a → Pending o log b a
  kept : ∀ n c p, .reserved n c p ∈ log → Open n log → ∃ a, journal (o.pairingBinding c) = some a ∧ a.number = n
  numbered : ∀ e ∈ log, e.number < reserved

/-- The attempt that a pass holds is the one in the journal, and it has come as far as the pass. -/
structure Holds (s : Device κ) (c : κ) (stage : Stage) : Prop where
  row : ∀ a, stage.attempt = some a → s.journal (o.pairingBinding c) = some a
  sent : ∀ a item, stage = .awaiting a item → ∃ request, .sent a.number request ∈ s.log
  answered : ∀ a outcome item, stage = .acknowledged a outcome item → ∃ response, .answered a.number response ∈ s.log ∧
    acknowledgement response a.pending.prepared.proposal = .ok outcome

/-- **The invariant.** -/
structure Journaled (s : Device κ) : Prop where
  recorded : Recorded o s.journal s.log s.reserved
  holds : ∀ pass, s.pass = some pass → Holds o s pass.creds pass.stage

section History

variable {o} {log : List (Event κ)} {n m : Nat} {c c' : κ} {p q : PendingSummary}

theorem Open.of_cons {e : Event κ} (h : Open n (e :: log)) : Open n log := fun creds hr => h creds (List.mem_cons_of_mem _ hr)

theorem Open.cons {e : Event κ} (h : Open n log) (he : ∀ creds, e ≠ .removed n creds) : Open n (e :: log) := by
  intro creds hr
  rcases List.mem_cons.mp hr with heq | hr
  · exact he creds heq.symm
  · exact h creds hr

/-- A number is reserved once. -/
theorem reserved_unique (h : Chronicle (Allowed o) log) (hp : .reserved n c p ∈ log) (hq : .reserved n c' q ∈ log) :
    c = c' ∧ p = q := by
  induction log with
  | nil => exact absurd hp List.not_mem_nil
  | cons e past ih =>
    rcases List.mem_cons.mp hp with rfl | hpast
    · rcases List.mem_cons.mp hq with heq | hq
      · obtain ⟨-, rfl, rfl⟩ := Event.reserved.inj heq
        exact ⟨rfl, rfl⟩
      · exact absurd rfl (h.1.2.1 (.reserved n c' q) hq)
    · rcases List.mem_cons.mp hq with rfl | hq
      · exact absurd rfl (h.1.2.1 (.reserved n c p) hpast)
      · exact ih h.2 hpast hq

/-- Two pending attempts of one number are of one binding. -/
theorem Pending.binding_eq {a a' : Attempt} {b b' : Text} (h : Chronicle (Allowed o) log) (ha : Pending o log b a)
    (ha' : Pending o log b' a') (hnumber : a'.number = a.number) : b' = b := by
  obtain ⟨c, hc, hreserved, -⟩ := ha
  obtain ⟨c', hc', hreserved', -⟩ := ha'
  rw [hnumber] at hreserved'
  rw [← hc, ← hc', (reserved_unique h hreserved hreserved').1]

/-- An event about something else leaves an attempt pending. -/
theorem Pending.cons {e : Event κ} {b : Text} {a : Attempt} (h : Pending o log b a)
    (hremoved : ∀ creds, e ≠ .removed a.number creds) (hcancelled : e ≠ .cancelled a.number) :
    Pending o (e :: log) b a := by
  obtain ⟨c, hc, hreserved, hopen, hcancel⟩ := h
  refine ⟨c, hc, List.mem_cons_of_mem _ hreserved, hopen.cons hremoved, hcancel.trans ?_⟩
  rw [List.mem_cons]
  exact ⟨Or.inr, fun hmem => hmem.resolve_left fun heq => hcancelled heq.symm⟩

end History

section Writes

variable {o} {journal : Text → Option Attempt} {log : List (Event κ)} {reserved : Nat} {c : κ} {a : Attempt} {b : Text}

/-- Something happens to the attempt of a row, which stays as it is. -/
theorem Recorded.note (hs : Recorded o journal log reserved) (ha : journal b = some a) {e : Event κ} (hnumber : e.number = a.number)
    (hallowed : Allowed o e log) (hremoved : ∀ n creds, e ≠ .removed n creds) (hcancelled : ∀ n, e ≠ .cancelled n)
    (hreserved : ∀ n c p, e ≠ .reserved n c p) : Recorded o journal (e :: log) reserved := by
  refine ⟨chronicle_cons.mpr ⟨hallowed, hs.chronicle⟩, fun b' a' ha' => ?_, fun n c p hr hopen => ?_, fun e' he' => ?_⟩
  · exact (hs.rows b' a' ha').cons (hremoved _) (hcancelled _)
  · have hr := (List.mem_cons.mp hr).resolve_left fun heq => hreserved n c p heq.symm
    exact hs.kept n c p hr hopen.of_cons
  · rcases List.mem_cons.mp he' with rfl | he'
    · obtain ⟨c', -, hr, -⟩ := hs.rows b a ha
      rw [hnumber]
      exact hs.numbered _ hr
    · exact hs.numbered e' he'

/-- The row of an attempt becomes a cancellation. -/
theorem Recorded.cancel (hs : Recorded o journal log reserved) (ha : journal b = some a) :
    Recorded o (Function.update journal b (some { a with pending := { a.pending with cancel := true } }))
      (.cancelled a.number :: log) reserved := by
  obtain ⟨c, hc, hreserved, hopen, hcancel⟩ := hs.rows b a ha
  refine ⟨chronicle_cons.mpr ⟨⟨⟨c, _, hreserved⟩, hopen⟩, hs.chronicle⟩, fun b' a' ha' => ?_, fun n c' p hr hopen' => ?_,
    fun e he => ?_⟩
  · by_cases hb : b' = b
    · rw [hb] at ha' ⊢
      rw [Function.update_self] at ha'
      obtain rfl := Option.some.inj ha'
      refine ⟨c, hc, List.mem_cons_of_mem _ hreserved, hopen.cons (fun _ heq => nomatch heq), fun _ => ?_, fun _ => rfl⟩
      exact List.mem_cons_self
    · rw [Function.update_of_ne hb] at ha'
      have hpending := hs.rows b' a' ha'
      refine hpending.cons (fun _ heq => nomatch heq) fun heq => hb ?_
      exact (hs.rows b a ha).binding_eq hs.chronicle hpending (Event.cancelled.inj heq).symm
  · have hr := (List.mem_cons.mp hr).resolve_left fun heq => nomatch heq
    obtain ⟨a', ha', hnumber⟩ := hs.kept n c' p hr hopen'.of_cons
    by_cases hb : o.pairingBinding c' = b
    · rw [hb, Function.update_self]
      rw [hb, ha] at ha'
      obtain rfl := Option.some.inj ha'
      exact ⟨_, rfl, hnumber⟩
    · rw [Function.update_of_ne hb]
      exact ⟨a', ha', hnumber⟩
  · rcases List.mem_cons.mp he with rfl | he
    · exact hs.numbered (.reserved a.number c a.pending.original) hreserved
    · exact hs.numbered e he

/-- The row of an attempt is deleted. -/
theorem Recorded.remove (hs : Recorded o journal log reserved) (ha : journal b = some a) {creds : Option κ}
    (hallowed : Allowed o (.removed a.number creds) log) :
    Recorded o (Function.update journal b none) (.removed a.number creds :: log) reserved := by
  obtain ⟨c, hc, hreserved, -⟩ := hs.rows b a ha
  refine ⟨chronicle_cons.mpr ⟨hallowed, hs.chronicle⟩, fun b' a' ha' => ?_, fun n c' p hr hopen' => ?_, fun e he => ?_⟩
  · by_cases hb : b' = b
    · rw [hb, Function.update_self] at ha'
      exact nomatch ha'
    · rw [Function.update_of_ne hb] at ha'
      have hpending := hs.rows b' a' ha'
      refine hpending.cons (fun creds' heq => hb ?_) fun heq => nomatch heq
      exact (hs.rows b a ha).binding_eq hs.chronicle hpending (Event.removed.inj heq).1.symm
  · have hr := (List.mem_cons.mp hr).resolve_left fun heq => nomatch heq
    obtain ⟨a', ha', hnumber⟩ := hs.kept n c' p hr hopen'.of_cons
    have hb : o.pairingBinding c' ≠ b := by
      intro hb
      rw [hb, ha] at ha'
      obtain rfl := Option.some.inj ha'
      exact hopen' creds (hnumber ▸ List.mem_cons_self)
    rw [Function.update_of_ne hb]
    exact ⟨a', ha', hnumber⟩
  · rcases List.mem_cons.mp he with rfl | he
    · exact hs.numbered (.reserved a.number c a.pending.original) hreserved
    · exact hs.numbered e he

/-- A new attempt takes the empty row of its pairing. -/
theorem Recorded.reserve (hs : Recorded o journal log reserved) {p : PendingSummary} (hcancel : p.cancel = false)
    (hnone : journal (o.pairingBinding c) = none) :
    Recorded o (Function.update journal (o.pairingBinding c) (some ⟨reserved, p⟩))
      (.reserved reserved c p :: log) (reserved + 1) := by
  have hnew : ∀ e ∈ log, e.number ≠ reserved := fun e he => (hs.numbered e he).ne
  have hbinding : ∀ m c' q, .reserved m c' q ∈ log → Open m log → o.pairingBinding c' ≠ o.pairingBinding c := by
    intro m c' q hr hopen hb
    obtain ⟨a, ha, -⟩ := hs.kept m c' q hr hopen
    rw [hb, hnone] at ha
    exact nomatch ha
  refine ⟨chronicle_cons.mpr ⟨⟨hcancel, hnew, fun m c' q hr hb hopen => hbinding m c' q hr hopen hb⟩, hs.chronicle⟩,
    fun b' a' ha' => ?_, fun n c' q hr hopen' => ?_, fun e he => ?_⟩
  · by_cases hb : b' = o.pairingBinding c
    · rw [hb, Function.update_self] at ha'
      obtain rfl := Option.some.inj ha'
      have horiginal : p.original = p := by
        rw [PendingSummary.original, ← hcancel]
      refine ⟨c, hb.symm, ?_, fun creds hr => ?_, fun htrue => ?_, fun hr => ?_⟩
      · rw [horiginal]
        exact List.mem_cons_self
      · exact hnew _ ((List.mem_cons.mp hr).resolve_left fun heq => nomatch heq) rfl
      · exact absurd (hcancel.symm.trans htrue) Bool.false_ne_true
      · exact absurd rfl (hnew _ ((List.mem_cons.mp hr).resolve_left fun heq => nomatch heq))
    · rw [Function.update_of_ne hb] at ha'
      exact (hs.rows b' a' ha').cons (fun _ heq => nomatch heq) fun heq => nomatch heq
  · rcases List.mem_cons.mp hr with heq | hr
    · obtain ⟨rfl, rfl, rfl⟩ := Event.reserved.inj heq
      rw [Function.update_self]
      exact ⟨_, rfl, rfl⟩
    · obtain ⟨a', ha', hnumber⟩ := hs.kept n c' q hr hopen'.of_cons
      rw [Function.update_of_ne (hbinding n c' q hr hopen'.of_cons)]
      exact ⟨a', ha', hnumber⟩
  · rcases List.mem_cons.mp he with rfl | he
    · exact Nat.lt_succ_self _
    · exact (hs.numbered e he).trans (Nat.lt_succ_self _)

end Writes

/-! ## The steps -/

section Steps

variable {o} {s t : Device κ} {c : κ} {a : Attempt} {stage : Stage} {item : Bool}

theorem holds_of_none (hattempt : stage.attempt = none) : Holds o s c stage := by
  refine ⟨fun a ha => ?_, fun a item heq => ?_, fun a outcome item heq => ?_⟩
  · rw [hattempt] at ha
    exact nomatch ha
  · rw [heq] at hattempt
    exact nomatch hattempt
  · rw [heq] at hattempt
    exact nomatch hattempt

/-- A pass that holds an attempt, short of waiting for an answer to it. -/
theorem holds_of_row (hattempt : stage.attempt = some a) (ha : s.journal (o.pairingBinding c) = some a)
    (hawaiting : ∀ a item, stage ≠ .awaiting a item) (hacknowledged : ∀ a outcome item, stage ≠ .acknowledged a outcome item) :
    Holds o s c stage := by
  refine ⟨fun a' ha' => ?_, fun a item heq => absurd heq (hawaiting a item),
    fun a outcome item heq => absurd heq (hacknowledged a outcome item)⟩
  rw [← Option.some.inj (hattempt.symm.trans ha')]
  exact ha

theorem Recorded.goTo (hs : Recorded o s.journal s.log s.reserved) (hstage : Holds o s c stage) :
    Journaled o (s.goTo c stage) := by
  refine ⟨hs, fun pass hpass => ?_⟩
  rw [← Option.some.inj hpass]
  exact ⟨hstage.row, hstage.sent, hstage.answered⟩

theorem Recorded.stop (hs : Recorded o s.journal s.log s.reserved) : Journaled o { s with pass := none } :=
  ⟨hs, fun _ hpass => nomatch hpass⟩

theorem Recorded.fail (hs : Recorded o s.journal s.log s.reserved) : Journaled o (s.fail c item) := by
  unfold Device.fail
  split
  · exact hs.goTo (holds_of_none rfl)
  · exact hs.stop

/-- What the journal gives, a pass may hold. -/
theorem journal_of_load {found : Option Attempt} (h : load o s c = .ok found) :
    s.journal (o.pairingBinding c) = found := by
  unfold load at h
  split at h
  · rename_i hnone
    rw [hnone]
    exact Except.ok.inj h
  · rename_i a ha
    split at h
    · rw [ha]
      exact Except.ok.inj h
    · exact nomatch h

/-- The attempt that a pass holds was reserved for the credentials of the pass. -/
theorem Recorded.reserved_of_row (hs : Recorded o s.journal s.log s.reserved) (hbinding : Function.Injective o.pairingBinding)
    (ha : s.journal (o.pairingBinding c) = some a) :
    .reserved a.number c a.pending.original ∈ s.log ∧ Open a.number s.log ∧
      (a.pending.cancel = true ↔ .cancelled a.number ∈ s.log) := by
  obtain ⟨c', hc', hreserved, hopen, hcancel⟩ := hs.rows _ _ ha
  rw [hbinding hc'] at hreserved
  exact ⟨hreserved, hopen, hcancel⟩

/-- A durable write, which may fail on either side of its commit. -/
theorem Recorded.afterWrite {u : Device κ} {next : Stage} {w : Write} (hs : Recorded o s.journal s.log s.reserved)
    (hu : Recorded o u.journal u.log u.reserved) (hnext : Holds o u c next) :
    Journaled o ((if w.committed then u else s).after c item next w) := by
  cases w with
  | done => exact hu.goTo hnext
  | failed committed =>
    cases committed with
    | false => exact hs.fail
    | true => exact hu.fail

theorem replace_of_row {expected : Option PendingSummary} {next : Option Attempt} {event : Event κ} {w : Write} {b : Text}
    (h : (s.journal b).map Attempt.pending = expected) : replace s b expected next event w =
      some (if w.committed then { s with journal := Function.update s.journal b next, log := event :: s.log } else s) :=
  if_pos h

/-- What a pass sends is allowed. -/
theorem Recorded.allowed_sent (hs : Recorded o s.journal s.log s.reserved) (hbinding : Function.Injective o.pairingBinding)
    (ha : s.journal (o.pairingBinding c) = some a) :
    Allowed o (.sent a.number (publishRequest o c a.pending.prepared.proposal a.pending.cancel)) s.log := by
  obtain ⟨hreserved, hopen, hcancel⟩ := hs.reserved_of_row hbinding ha
  refine ⟨c, a.pending.original, hreserved, hopen, ?_⟩
  cases h : a.pending.cancel with
  | true => exact Or.inl ⟨hcancel.mp h, rfl⟩
  | false =>
    refine Or.inr ⟨fun hmem => ?_, rfl⟩
    exact Bool.false_ne_true (h.symm.trans (hcancel.mpr hmem))

/-- What a pass removes is allowed. -/
theorem Recorded.allowed_removed (hs : Recorded o s.journal s.log s.reserved)
    (hbinding : Function.Injective o.pairingBinding) (ha : s.journal (o.pairingBinding c) = some a)
    {response : Value} {outcome : SummaryOutcome} (hanswered : .answered a.number response ∈ s.log)
    (hacknowledged : acknowledgement response a.pending.prepared.proposal = .ok outcome) :
    Allowed o (.removed a.number (some c)) s.log := by
  obtain ⟨hreserved, hopen, -⟩ := hs.reserved_of_row hbinding ha
  exact ⟨c, a.pending.original, hreserved, hopen, rfl, response, outcome, hanswered, hacknowledged⟩

variable [DecidableEq κ]

/-- **Step lemma**, for a pass. -/
theorem Journaled.passStep (hs : Journaled o s) (hbinding : Function.Injective o.pairingBinding)
    (hstage : Holds o s c stage) {act : Act κ} (ht : passStep o s c stage act = some t) : Journaled o t := by
  have hr := hs.recorded
  unfold Location.passStep at ht
  dsimp only at ht
  split at ht
  · -- the turn is taken
    obtain rfl := Option.some.inj ht
    split
    · exact hr.goTo (holds_of_none rfl)
    · exact hr.stop
  · -- an attempt may be left
    obtain rfl := Option.some.inj ht
    split
    · rename_i a hload
      exact hr.goTo (holds_of_row rfl (journal_of_load hload) (fun _ _ heq => nomatch heq) fun _ _ _ heq => nomatch heq)
    · exact hr.goTo (holds_of_none rfl)
    · exact hr.stop
  · rename_i a item evidence
    obtain rfl := Option.some.inj ht
    have ha := hstage.row a rfl
    split
    · exact hr.goTo (holds_of_row rfl ha (fun _ _ heq => nomatch heq) fun _ _ _ heq => nomatch heq)
    · exact hr.fail
  · rename_i a fingerprint item
    obtain rfl := Option.some.inj ht
    have ha := hstage.row a rfl
    split
    · split
      · exact hr.goTo (holds_of_row rfl ha (fun _ _ heq => nomatch heq) fun _ _ _ heq => nomatch heq)
      · exact hr.goTo (holds_of_row rfl ha (fun _ _ heq => nomatch heq) fun _ _ _ heq => nomatch heq)
    · exact hr.fail
  · -- the cancellation
    rename_i a item w
    obtain rfl := Option.some.inj ht
    have ha := hstage.row a rfl
    split
    · rw [replace_of_row (by rw [ha]; rfl)]
      refine hr.afterWrite (hr.cancel ha) (holds_of_row rfl ?_ (fun _ _ heq => nomatch heq) fun _ _ _ heq => nomatch heq)
      exact Function.update_self ..
    · exact hr.fail
  · rename_i a item
    obtain rfl := Option.some.inj ht
    have ha := hstage.row a rfl
    split
    · exact hr.goTo (holds_of_row rfl ha (fun _ _ heq => nomatch heq) fun _ _ _ heq => nomatch heq)
    · exact hr.fail
  · -- the request
    rename_i a item
    obtain rfl := Option.some.inj ht
    have ha := hstage.row a rfl
    split
    · have hnote := hr.note ha (e := .sent a.number (publishRequest o c a.pending.prepared.proposal a.pending.cancel)) rfl
        (hr.allowed_sent hbinding ha) (fun _ _ heq => nomatch heq) (fun _ heq => nomatch heq) fun _ _ _ heq => nomatch heq
      refine @Recorded.goTo _ o { s with log := _ :: s.log } c (.awaiting a item) hnote ⟨fun a' ha' => ?_, fun a' item' heq => ?_,
        fun _ _ _ heq => nomatch heq⟩
      · exact Option.some.inj ha' ▸ ha
      · obtain ⟨rfl, -⟩ := Stage.awaiting.inj heq
        exact ⟨_, List.mem_cons_self⟩
    · exact hr.fail
  · -- the answer
    rename_i a item response
    obtain rfl := Option.some.inj ht
    have ha := hstage.row a rfl
    split
    · exact hr.fail
    · rename_i response
      have hnote := hr.note ha (e := .answered a.number response) rfl (hstage.sent a item rfl) (fun _ _ heq => nomatch heq)
        (fun _ heq => nomatch heq) fun _ _ _ heq => nomatch heq
      split
      · rename_i outcome houtcome
        refine @Recorded.goTo _ o { s with log := _ :: s.log } c (.acknowledged a outcome item) hnote ⟨fun a' ha' => ?_,
          (fun _ _ heq => nomatch heq), fun a' outcome' item' heq => ?_⟩
        · exact Option.some.inj ha' ▸ ha
        · obtain ⟨rfl, rfl, -⟩ := Stage.acknowledged.inj heq
          exact ⟨response, List.mem_cons_self, houtcome⟩
      · exact @Recorded.fail _ o { s with log := _ :: s.log } c item hnote
  · -- the row is deleted
    rename_i a outcome item w
    obtain rfl := Option.some.inj ht
    have ha := hstage.row a rfl
    obtain ⟨response, hanswered, hacknowledged⟩ := hstage.answered a outcome item rfl
    split
    · rename_i hcreds
      rw [hcreds, replace_of_row (by rw [ha]; rfl)]
      exact hr.afterWrite (hr.remove ha (hr.allowed_removed hbinding ha hanswered hacknowledged)) (holds_of_none rfl)
    · exact hr.fail
  · obtain rfl := Option.some.inj ht
    exact hr.goTo (holds_of_none rfl)
  · obtain rfl := Option.some.inj ht
    exact hr.stop
  · -- a new attempt
    rename_i file prepared w
    obtain rfl := Option.some.inj ht
    split
    · cases hrow : s.journal (o.pairingBinding c) with
      | some a =>
        have hother : replace s (o.pairingBinding c) none (some ⟨s.reserved, ⟨1, o.pairingBinding c, file, prepared, false⟩⟩)
            (.reserved s.reserved c ⟨1, o.pairingBinding c, file, prepared, false⟩) w = none := by
          refine if_neg fun heq => ?_
          rw [hrow] at heq
          exact nomatch heq
        rw [hother]
        exact hr.fail
      | none =>
        rw [replace_of_row (by rw [hrow]; rfl)]
        have hmore : Recorded o s.journal s.log (s.reserved + 1) :=
          ⟨hr.chronicle, hr.rows, hr.kept, fun e he => (hr.numbered e he).trans (Nat.lt_succ_self _)⟩
        have hnew := hr.reserve (p := ⟨1, o.pairingBinding c, file, prepared, false⟩) rfl hrow
        cases w with
        | done =>
          refine @Recorded.goTo _ o { s with journal := _, log := _, reserved := _ } c _ hnew ?_
          exact holds_of_row rfl (Function.update_self ..) (fun _ _ heq => nomatch heq) fun _ _ _ heq => nomatch heq
        | failed committed =>
          cases committed with
          | false => exact @Recorded.fail _ o { s with reserved := _ } c true hmore
          | true => exact @Recorded.fail _ o { s with journal := _, log := _, reserved := _ } c true hnew
    · exact hr.fail
  · obtain rfl := Option.some.inj ht
    split
    · split
      · exact hr.goTo (holds_of_none rfl)
      · exact hr.stop
    · exact hr.stop
  · exact nomatch ht

/-- **Step lemma.** -/
theorem Journaled.step (hs : Journaled o s) (hbinding : Function.Injective o.pairingBinding) {act : Act κ}
    (ht : step o s act = some t) : Journaled o t := by
  unfold Location.step at ht
  split at ht
  · obtain rfl := Option.some.inj ht
    refine ⟨hs.recorded, fun pass hpass => ?_⟩
    have hholds := hs.holds pass hpass
    exact ⟨hholds.row, hholds.sent, hholds.answered⟩
  · obtain rfl := Option.some.inj ht
    exact ⟨hs.recorded, fun _ hpass => nomatch hpass⟩
  · obtain ⟨c, -, rfl⟩ := Option.map_eq_some_iff.mp ht
    exact hs.recorded.goTo (holds_of_none rfl)
  · rename_i pass _ _ hpass
    exact hs.passStep hbinding (hs.holds pass hpass) ht
  · exact nomatch ht

end Steps

/-! ## The journal is exact -/

theorem journaled_new (creds : Option κ) : Journaled o (Device.new creds) :=
  ⟨⟨chronicle_nil, (fun _ _ ha => nomatch ha), (fun _ _ _ hr => absurd hr List.not_mem_nil),
    fun _ he => absurd he List.not_mem_nil⟩, fun _ hpass => nomatch hpass⟩

/-- What is pending by the history is in the journal. -/
theorem Recorded.row_of_pending {journal : Text → Option Attempt} {log : List (Event κ)} {reserved : Nat}
    (hs : Recorded o journal log reserved) {b : Text} {a : Attempt} (ha : Pending o log b a) : journal b = some a := by
  obtain ⟨c, hc, hreserved, hopen, hcancel⟩ := ha
  obtain ⟨a', ha', hnumber⟩ := hs.kept _ _ _ hreserved hopen
  rw [hc] at ha'
  obtain ⟨c', -, hreserved', -, hcancel'⟩ := hs.rows b a' ha'
  rw [hnumber] at hreserved' hcancel'
  -- the same attempt, and the same flag
  have horiginal : a.pending.original = a'.pending.original := (reserved_unique hs.chronicle hreserved hreserved').2
  have hflag : a.pending.cancel = a'.pending.cancel := Bool.eq_iff_iff.mpr (hcancel.trans hcancel'.symm)
  have hpending : a.pending = a'.pending := by
    rcases hp : a.pending with ⟨version, binding, file, prepared, cancel⟩
    rcases hp' : a'.pending with ⟨version', binding', file', prepared', cancel'⟩
    rw [hp, hp'] at horiginal hflag
    obtain ⟨rfl, rfl, rfl, rfl, -⟩ := PendingSummary.mk.inj horiginal
    obtain rfl : cancel = cancel' := hflag
    rfl
  have hsame : a = a' := by
    rcases a with ⟨n, p⟩
    rcases a' with ⟨n', p'⟩
    obtain rfl : n' = n := hnumber
    obtain rfl : p = p' := hpending
    rfl
  rw [ha', hsame]

/-- The credentials of one device, by the generation of its key: the digest of those of the third, and texts that are no
digests for the others. -/
def keyBinding (generation : Nat) : Text :=
  if generation = 3 then "f0e818abc8eb5c6ff4b40c1966f53a722839729e1b322caf3ae3f098ba2cd1a2".toList
  else 'x' :: List.replicate generation 'x'

theorem keyBinding_injective : Function.Injective keyBinding := by
  intro m n h
  unfold keyBinding at h
  split at h
  · rename_i hm
    split at h
    · rename_i hn
      rw [hm, hn]
    · exact absurd (List.cons.inj h).1 (by decide)
  · split at h
    · exact absurd (List.cons.inj h).1 (by decide)
    · have hlength := congrArg List.length (List.cons.inj h).2
      rw [List.length_replicate, List.length_replicate] at hlength
      exact hlength

def parkClip : Text := "RecentClips/2026-01-01/2026-01-01_12-00-00-front.mp4".toList

/-- The base64 of one 1 and sixty zeros. -/
def zeroEnvelope : Text := "AQ".toList ++ List.replicate 80 'A' ++ "==".toList

def keyOutside : Outside Nat where
  pairingBinding := keyBinding
  piId _ := "pi".toList
  dekRotationGeneration := id
  routeIdFromPath file :=
    if file = parkClip then "5184912e9a66389a12783e2bfe625b163823e64b8c0bc4f5f9288f74dd1aca16".toList else []
  decode value := if value = zeroEnvelope then some (1 :: List.replicate 60 0) else none
  encode bytes := if bytes = 1 :: List.replicate 60 0 then zeroEnvelope else []

def parkProposal : SummaryProposal where
  routeId := "5184912e9a66389a12783e2bfe625b163823e64b8c0bc4f5f9288f74dd1aca16".toList
  recordVersion := List.replicate 64 'b'
  wrappedRouteKey := zeroEnvelope
  expectedSummaryCiphertext := none
  summaryCiphertext := zeroEnvelope
  operationId := List.replicate 64 'c'

/-- The answer that acknowledges the proposal. -/
def parkAnswer : Value :=
  .object
    [("ok".toList, .bool true), ("protocol".toList, .number 1),
      ("results".toList,
        .array [.object
          [("operationId".toList, .string parkProposal.operationId), ("routeId".toList, .string parkProposal.routeId),
            ("status".toList, .string "applied".toList)]])]

/-- A proposal whose answer is lost; the key changes and comes back, the record is gone, and the proposal is cancelled. -/
def lostAnswer : List (Act Nat) :=
  [.begin, .check, .load, .prepare parkClip ⟨List.replicate 64 'a', parkProposal⟩, .reserve .done,
    .snapshot (some (some (List.replicate 64 'a'))), .decide, .verify, .send, .answer none, .check, .setCreds (some 4),
    .begin, .check, .load, .finish, .setCreds (some 3), .begin, .check, .load, .snapshot (some none), .decide,
    .cancel .done, .verify, .send, .answer (some parkAnswer), .retire .done, .finish]

end SentryUsb.Sync.Location
