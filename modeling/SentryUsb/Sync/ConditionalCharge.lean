import SentryUsb.Library.OperationLog
import SentryUsb.Library.TransitionSystem
import SentryUsb.Sync.IntentQueue

/-! # Publishing charge edits

One charging session: local edits are queued as field operations, merged into a freshly read Cloud
document, reserved as an encrypted proposal in a durable receipt, posted as a conditional write and
confirmed. Edits, other Cloud writers, lost messages and restarts come between any two steps.

* **`mergeCharge`** — field operations applied to a Cloud document (`merge_intent.rs`);
* **`System.confirm`** — adopt a document and retire its generation
  (`confirm_charge_mutable_push_with_receipt`);
* **`step`** — local edits, the server, and `push` and `recover` of `conditional_charge.rs`. -/

namespace SentryUsb.Sync.Charge

open Library

/-! ## Documents -/

/-- A cost; of the amount only equality is used. -/
structure Cost where
  amount : Nat
  currency : Text
  deriving DecidableEq

/-- A cost in a Cloud document, with the members the device does not know. -/
structure CostDoc where
  cost : Cost
  rest : List (Text × Text)
  deriving DecidableEq

/-- The mutable document of a charging session, with the members the device does not know. The cost
member may be missing, null or a cost. -/
structure ChargeDoc where
  tags : List Text
  costOverride : Option (Option CostDoc)
  rest : List (Text × Text)
  deriving DecidableEq

/-- The cost of a document (`cost_core`). -/
def ChargeDoc.cost (doc : ChargeDoc) : Option Cost := doc.costOverride.join.map CostDoc.cost

/-- A field operation. -/
inductive ChargeEdit where
  | tags (edit : TagEdit)
  | costOverride (before after : Option Cost)
  deriving DecidableEq

/-- The tag operations of a queue. -/
def tagEdits (edits : List (Int × ChargeEdit)) : List TagEdit :=
  edits.filterMap fun e => match e.2 with
    | .tags edit => some edit
    | .costOverride _ _ => none

/-- Apply tag operations in order (`merge_tags`). -/
def mergeTags (edits : List (Int × ChargeEdit)) (tags : List Text) : List Text :=
  tagSet ((tagEdits edits).foldl TagEdit.apply tags)

/-- Whether an operation edits tags. -/
def ChargeEdit.isTags : ChargeEdit → Bool
  | .tags _ => true
  | .costOverride _ _ => false

/-- The cost operation of an edit. -/
def ChargeEdit.cost? : ChargeEdit → Option (Option Cost × Option Cost)
  | .tags _ => none
  | .costOverride before after => some (before, after)

/-- Merge operations into a Cloud document; a cost the queue does not know is a conflict
(`merge_charge`). -/
def mergeCharge (edits : List (Int × ChargeEdit)) (doc : ChargeDoc) : Option ChargeDoc :=
  let costs := edits.filterMap fun e => e.2.cost?
  let tags := if edits.any fun e => e.2.isTags then mergeTags edits doc.tags else doc.tags
  match costs.head?, costs.getLast? with
  | some first, some last =>
    if doc.cost = first.1 ∨ ∃ c ∈ costs, doc.cost = c.2 then
      some { doc with
        tags := tags
        costOverride := some (last.2.map fun c =>
          ⟨c, (doc.costOverride.join.map CostDoc.rest).getD []⟩) }
    else none
  | _, _ => some { doc with tags := tags }

/-- An encrypted document. Every sealing draws a new nonce. -/
structure Cipher where
  nonce : Nat
  doc : ChargeDoc
  deriving DecidableEq

/-- The document behind a ciphertext; none is an empty document (`decrypt`). -/
def plaintext : Option Cipher → ChargeDoc
  | some c => c.doc
  | none => ⟨[], some none, []⟩

/-! ## The two sides -/

/-- A record of the Cloud. -/
structure Record where
  recordVersion : Text
  wrappedKey : Text
  ciphertext : Option Cipher
  deriving DecidableEq

/-- A conditional write. Its operation id is a digest of the whole, so a proposal is its own id. -/
structure Proposal where
  id : Text
  recordVersion : Text
  wrappedKey : Text
  expected : Option Cipher
  ciphertext : Cipher
  changedAt : Int
  deriving DecidableEq

/-- A reserved attempt, as the receipt stores it (`Pending`); `edits` records the operations it was
merged from. -/
structure Attempt where
  uploadedAt : Int
  proposal : Proposal
  edits : List (Int × ChargeEdit)
  deriving DecidableEq

/-- Upload identity of the session; an unknown key is filled in later. -/
structure Upload where
  id : Text
  wrappedKey : Option Text
  uploadedAt : Int
  deriving DecidableEq

/-- Local values, identity and queue at one generation (`ChargeMutableSyncSnapshot`). -/
structure Snapshot where
  tags : List Text
  cost : Option Cost
  upload : Upload
  edits : List (Int × ChargeEdit)
  legacy : Bool
  deriving DecidableEq

/-- A snapshot whose upload key is known now. -/
def Snapshot.withKey (snap : Snapshot) (key : Text) : Snapshot :=
  { snap with upload := { snap.upload with wrappedKey := some key } }

/-- Where the sweep is with this session; all of it is lost on a restart. -/
inductive Proc where
  | idle
  /-- The dirty row was read. -/
  | listed (through : Int)
  /-- There was no receipt. -/
  | vacant (through : Int)
  | snapped (through : Int) (snap : Snapshot)
  | fetched (through : Int) (snap : Snapshot) (remote : Option Record)
  | reserved (a : Attempt)
  | posted (a : Attempt)
  | answered (a : Attempt) (applied : Bool)
  /-- Recovery of the attempt of a receipt. -/
  | recovering (a : Attempt)
  | readBack (a : Attempt) (remote : Option Record)
  | reposted (a : Attempt)
  | reanswered (a : Attempt) (applied : Bool)
  | reread (a : Attempt) (remote : Option Record)

/-- Device, Cloud and the messages between them. The last five fields are history: every edit made,
every attempt reserved, every proposal applied, every record a fetch returned, and every snapshot
confirmed because its merge left the fetched record as it was. -/
structure System where
  tags : List Text
  cost : Option Cost
  queue : Queue ChargeEdit
  upload : Option Upload
  receipt : Option Attempt
  cloud : Text → Option Record
  log : OperationLog Proposal
  requests : List Proposal
  responses : List (Proposal × Bool)
  nextNonce : Nat
  proc : Proc
  made : List (Int × ChargeEdit)
  attempts : List Attempt
  writes : List Proposal
  reads : List (Text × Record)
  unchanged : List (Snapshot × Record)

/-! ## Local transactions -/

/-- Reserved labels are derived, never stored (`is_reserved_tag`). -/
def isReservedTag (tag : Text) : Bool :=
  decide (tag.map Char.toLower = "home".toList) || decide (tag.map Char.toLower = "fast charging".toList)

/-- A local edit is queued in the transaction that changes the values. -/
def System.edit (s : System) (now : Int) (e : ChargeEdit) : System :=
  { s with
    queue := s.queue.record now e
    made := s.made ++ [(s.queue.nextGeneration now, e)] }

/-- Adopt a confirmed document, replay newer operations on it, and retire its generation. `none` is
the refusal: the receipt is not this attempt's, the upload was replaced, or the generation is not
queued any more. -/
def System.confirm (s : System) (through : Int) (upload : Upload) (doc : ChargeDoc)
    (receipt : Option Attempt) : Option System :=
  if receipt.isSome ∧ s.receipt ≠ receipt then none
  else if s.upload ≠ some upload ∨ s.queue.reached through = false then none
  else
    let newer := s.queue.newer through
    some { s with
      tags := if s.queue.unknownNewer through then s.tags
        else (mergeTags newer doc.tags).filter fun t => !isReservedTag t && decide (t ≠ [])
      cost := if s.queue.unknownNewer through || newer.any (fun e => !e.2.isTags) then s.cost
        else doc.cost
      queue := s.queue.settle through
      receipt := if receipt.isSome then none else s.receipt }

/-- Drop the receipt of a rejected attempt (`retire_attempt`). -/
def System.retireAttempt (s : System) (a : Attempt) : System :=
  if s.receipt = some a then { s with receipt := none } else s

/-- The upload identity an attempt was reserved for. -/
def Attempt.upload (a : Attempt) : Upload := ⟨a.proposal.id, some a.proposal.wrappedKey, a.uploadedAt⟩

/-- The document to publish: the merge, or the Cloud's own if a queue without history equals it. -/
def Snapshot.merged (snap : Snapshot) (doc : ChargeDoc) : Option ChargeDoc :=
  if snap.legacy then
    if tagSet snap.tags = tagSet doc.tags ∧ snap.cost = doc.cost then some doc
    else none
  else mergeCharge snap.edits doc

/-- The attempt of a snapshot against a record. -/
def attemptOf (through : Int) (snap : Snapshot) (r : Record) (sealed : Cipher) : Attempt where
  uploadedAt := snap.upload.uploadedAt
  proposal := ⟨snap.upload.id, r.recordVersion, r.wrappedKey, r.ciphertext, sealed, through⟩
  edits := snap.edits

/-- Reserve an attempt: no receipt, the same upload, the generation still queued. -/
def System.reserve (s : System) (a : Attempt) : Option System :=
  if s.receipt = none ∧ s.upload = some a.upload ∧ s.queue.reached a.proposal.changedAt = true then
    some { s with receipt := some a, attempts := a :: s.attempts, proc := .reserved a }
  else none

/-- Prepare a fetched session: confirm if the merge changes nothing, reserve it otherwise. Any error
leaves the session queued. -/
def System.prepare (s : System) (through : Int) (snap : Snapshot) (r : Record) : System :=
  let doc := plaintext r.ciphertext
  let idle := { s with proc := Proc.idle }
  if snap.upload.wrappedKey ≠ some r.wrappedKey then idle
  else match snap.merged doc with
    | none => idle
    | some merged =>
      if merged = doc then
        match s.confirm through snap.upload merged none with
        | some s' => { s' with proc := .idle, unchanged := (snap, r) :: s'.unchanged }
        | none => idle
      else
        match { s with nextNonce := s.nextNonce + 1 }.reserve
            (attemptOf through snap r ⟨s.nextNonce, merged⟩) with
        | some s' => s'
        | none => idle

/-- Install a key the device did not know (`backfill_charge_upload_key`). -/
def System.backfill (s : System) (snap : Snapshot) (key : Text) : Option System :=
  match s.upload with
  | some u =>
    if u.id = snap.upload.id ∧ u.uploadedAt = snap.upload.uploadedAt
        ∧ (u.wrappedKey = none ∨ u.wrappedKey = some key) then
      some { s with upload := some { u with wrappedKey := some key } }
    else none
  | none => none

/-- Confirm an attempt with a document, under its receipt. -/
def System.confirmAttempt (s : System) (a : Attempt) (doc : ChargeDoc) : System :=
  match s.confirm a.proposal.changedAt a.upload doc (some a) with
  | some s' => { s' with proc := .idle }
  | none => { s with proc := .idle }

/-- Whether a record is still the one an attempt was prepared against (`matches_source`). -/
def matchesSource (a : Attempt) (r : Record) : Bool :=
  decide (r.recordVersion = a.proposal.recordVersion) && decide (r.wrappedKey = a.proposal.wrappedKey)

/-! ## The server -/

/-- The condition of a write: record version and expected ciphertext match. -/
def accepts (cloud : Text → Option Record) (p : Proposal) : Bool :=
  (cloud p.id).any fun r =>
    decide (r.recordVersion = p.recordVersion) && decide (r.ciphertext = p.expected)

/-- The Cloud after a write. -/
def write (cloud : Text → Option Record) (p : Proposal) : Text → Option Record :=
  Function.update cloud p.id ((cloud p.id).map fun r => { r with ciphertext := some p.ciphertext })

/-- The server handles a request, and its answer arrives or is lost. -/
def System.deliver (s : System) (i : Nat) (lost : Bool) : Option System :=
  s.requests[i]?.map fun p =>
    let accept := accepts s.cloud p
    let answer := s.log.answer p accept
    { s with
      requests := s.requests.eraseIdx i
      log := answer.1
      responses := if lost then s.responses else (p, answer.2) :: s.responses
      cloud := if s.log.effective p accept then write s.cloud p else s.cloud
      writes := if s.log.effective p accept then p :: s.writes else s.writes }

/-! ## Steps -/

/-- What can happen. -/
inductive Act where
  | setTags (now : Int) (tags : List Text)
  | setCost (now : Int) (cost : Option Cost)
  | replaceUpload (upload : Option Upload)
  /-- Another writer: a record with a document of its own, or a cleared one. -/
  | otherWrite (id recordVersion wrappedKey : Text) (doc : Option ChargeDoc)
  | removeRecord (id : Text)
  | deliver (i : Nat) (lost : Bool)
  | loseRequest (i : Nat)
  /-- A restart, a cancelled sweep, or an error that ends the session's turn. -/
  | restart
  | list
  | lookup
  | snapshot
  | fetch
  | backfill
  | prepare
  | post
  | receive (applied : Bool)
  | giveUp
  | finish
  | readBack
  | decide
  | refetch
  | adopt

/-- The steps of the sweep (`push`, `recover`). -/
def System.sweep (s : System) : Act → Option System
  | .list => match s.proc, s.queue.dirty with
    | .idle, some through => some { s with proc := .listed through }
    | _, _ => none
  | .lookup => match s.proc, s.receipt with
    | .listed _, some a => some { s with proc := .recovering a }
    | .listed through, none => some { s with proc := .vacant through }
    | _, _ => none
  | .snapshot => match s.proc, s.upload with
    | .vacant through, some u =>
      if s.queue.dirty = some through ∧ 0 ≤ u.uploadedAt then
        some { s with proc := .snapped through ⟨s.tags, s.cost, u, s.queue.events, s.queue.legacy⟩ }
      else some { s with proc := .idle }
    | .vacant _, none => some { s with proc := .idle }
    | _, _ => none
  | .fetch => match s.proc with
    | .snapped through snap =>
      let remote := s.cloud snap.upload.id
      some { s with
        proc := .fetched through snap remote
        reads := remote.toList.map (Prod.mk snap.upload.id) ++ s.reads }
    | _ => none
  | .backfill => match s.proc with
    | .fetched through snap (some r) =>
      if snap.upload.wrappedKey = none then
        (s.backfill snap r.wrappedKey).map fun s' =>
          { s' with proc := .fetched through (snap.withKey r.wrappedKey) (some r) }
      else none
    | _ => none
  | .prepare => match s.proc with
    | .fetched through snap (some r) => some (s.prepare through snap r)
    | .fetched _ _ none => some { s with proc := .idle }
    | _ => none
  | .post => match s.proc with
    | .reserved a => some { s with requests := a.proposal :: s.requests, proc := .posted a }
    | _ => none
  | .receive applied => match s.proc with
    | .posted a =>
      if (a.proposal, applied) ∈ s.responses then some { s with proc := .answered a applied }
      else none
    | .reposted a =>
      if (a.proposal, applied) ∈ s.responses then some { s with proc := .reanswered a applied }
      else none
    | _ => none
  | .giveUp => match s.proc with
    | .posted a => some { s with proc := .recovering a }
    | .reposted _ => some { s with proc := .idle }
    | _ => none
  | .finish => match s.proc with
    | .answered a true => some (s.confirmAttempt a a.proposal.ciphertext.doc)
    | .answered a false => some { (s.retireAttempt a) with proc := .idle }
    | .reanswered a false => some { (s.retireAttempt a) with proc := .idle }
    | _ => none
  | .readBack => match s.proc with
    | .recovering a => some { s with proc := .readBack a (s.cloud a.proposal.id) }
    | _ => none
  | .decide => match s.proc with
    | .readBack a remote =>
      match remote.filter fun r =>
          matchesSource a r && Decidable.decide (r.ciphertext = some a.proposal.ciphertext) with
      | some r => some (s.confirmAttempt a (plaintext r.ciphertext))
      -- not the attempt's own ciphertext: repeat the original operation unchanged
      | none => some { s with requests := a.proposal :: s.requests, proc := .reposted a }
    | _ => none
  | .refetch => match s.proc with
    | .reanswered a true => some { s with proc := .reread a (s.cloud a.proposal.id) }
    | _ => none
  | .adopt => match s.proc with
    | .reread a remote =>
      match remote.filter (matchesSource a) with
      | some r => some (s.confirmAttempt a (plaintext r.ciphertext))
      | none => some { s with proc := .idle }
    | _ => none
  | _ => none

/-- One step of the system. -/
def step (s : System) : Act → Option System
  | .setTags now tags => some { (s.edit now (.tags (tagEdit s.tags tags))) with
    tags := tagSet (tags.filter fun t => Decidable.decide (t ≠ [])) }
  | .setCost now cost => some { (s.edit now (.costOverride s.cost cost)) with cost := cost }
  | .replaceUpload upload => some { s with upload := upload }
  | .otherWrite id recordVersion wrappedKey doc => some { s with
    cloud := Function.update s.cloud id
      (some ⟨recordVersion, wrappedKey, doc.map fun d => ⟨s.nextNonce, d⟩⟩)
    nextNonce := s.nextNonce + 1 }
  | .removeRecord id => some { s with cloud := Function.update s.cloud id none }
  | .deliver i lost => s.deliver i lost
  | .loseRequest i => some { s with requests := s.requests.eraseIdx i }
  | .restart => some { s with proc := .idle }
  | a => s.sweep a

end SentryUsb.Sync.Charge
