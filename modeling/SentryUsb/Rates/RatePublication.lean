import SentryUsb.Library.SealedWrites
import SentryUsb.Rates.PreferencesJournal

/-! # Publishing rate edits

The rate document of a pairing: what it takes to bring queued edits to the Cloud. A first publication is queued when the
Cloud has no document. A push merges the queued edits into a freshly read document, reserves the sealed result in a
receipt, posts it as a conditional write, and confirms it with a document that is read again. Local edits, other Cloud
writers, lost messages and restarts come between any two steps (`conditional_rate.rs`).

* **`queueInitialRates`** — queue the rates of the preferences (`queue_initial_rates`);
* **`mergedOf`** — the document to publish;
* **`Point`** — where a push is;
* **`step`** — local calls, the server, and `prepare_initial`, `push`, `recover` and `confirm_current`. -/

namespace SentryUsb.Rates.Publication

open SentryUsb.Library

variable {N R H : Type} [DecidableEq N] [DecidableEq R] [DecidableEq H]

/-! ## Documents -/

/-- A rate document as the Cloud stores it. -/
abbrev Ciphertext (N : Type) := Sealed (Value N)

/-- A conditional write, tagged with the generation it publishes. Its operation id is a digest of the whole, so a
proposal is its own id. -/
abbrev Proposal (N : Type) := CondWrite (Value N) Int

/-- What is fixed during a pairing: how preferences are read, the key of the receipt, the check of an envelope, and the
text of a receipt. -/
structure Setup (N R H : Type) where
  env : Env N R H
  receiptKey : Text
  validEnvelope : Ciphertext N → Bool
  toText : Proposal N → Text
  ofText : Text → Option (Proposal N)
  ofText_toText : ∀ p, validEnvelope p.content = true → (∀ c ∈ p.expected, validEnvelope c = true) →
    ofText (toText p) = some p

/-- The document behind a ciphertext; none is an empty document (`decrypt`). -/
def decrypt (ciphertext : Option (Ciphertext N)) : Except String (Prefs N) :=
  match ciphertext with
  | none => .ok Prefs.empty
  | some c =>
    match c.doc with
    | ⟨.object l, h⟩ => .ok ⟨l, h⟩
    | _ => .error "Cloud rates are not an object"

/-- The local rates as a first document (`initial_document`). -/
def initialDocument (f : Reading N R) (localRates : Prefs N) : Except String (Value N) :=
  if !onlyRates localRates then .error "unrelated preferences cannot enter Cloud rates"
  else (view f (.object localRates.1)).bind fun _ => .ok localRates.toValue

/-- The queued edits merged into a document (`merge`). -/
def mergeValue (f : Reading N R) (intent : Intent N) (cloud : Prefs N) : Except String (Value N) :=
  match h : merge f intent (.object cloud.1) with
  | .error message => .error message
  | .ok v => .ok ⟨v, sorted_apply cloud.2 h⟩

/-- The document to publish: the local rates if the Cloud has none, its own if a queue without history equals it, else the
merge. -/
def mergedOf (f : Reading N R) (localRates : Prefs N) (intent : Intent N) (remote : Option (Ciphertext N))
    (cloud : Prefs N) : Except String (Value N) :=
  match remote with
  | none => initialDocument f localRates
  | some _ =>
    if intent.legacy then
      if localRates = cloud.rates then .ok cloud.toValue else .error "older rate edits need reconciliation"
    else mergeValue f intent cloud

/-! ## The first publication -/

/-- Queue rates for an absent Cloud document (`queue_initial_rate_config`). -/
def queueInitialRateConfig (f : Reading N R) (doc : Prefs N) (now : Int) (m : Machine N H) :
    Except String (Machine N H) :=
  (initialDocument f doc).bind fun after =>
    if doc = Prefs.empty then .ok m
    else if m.journal.isSome then .error "rate preference publication already pending"
    else if m.queue.dirty.isSome then .ok m
    else .ok { m with queue := m.queue.record now (.rateConfig Prefs.empty.toValue after false none) }

/-- Recover, and queue the rates of the preferences (`queue_initial_rates`). -/
def queueInitialRates (env : Env N R H) (now : Int) : Stoppable (Machine N H) String Unit := do
  let prefs ← recover env
  Stoppable.effect (queueInitialRateConfig env.reading prefs.rates now)

/-! ## State -/

/-- A sealed proposal, with the queued edits and the local rates it was made from. -/
structure Attempt (N : Type) where
  proposal : Proposal N
  snapshot : Snapshot N
  localRates : Prefs N

/-- A merge that left the document as it was read. -/
structure NoChange (N : Type) where
  snapshot : Snapshot N
  localRates : Prefs N
  remote : Option (Ciphertext N)

/-- A proposal with the text of its receipt. -/
structure Held (N : Type) where
  proposal : Proposal N
  raw : Text

/-- Where a push is; all of it is lost on a restart. -/
inductive Point (N : Type) where
  | idle
  /-- Nothing is queued, and the first publication was not checked. -/
  | initial
  | initialRead (current : Option (Ciphertext N))
  | marking (current : Option (Ciphertext N))
  | listing
  /-- The dirty row was read. -/
  | listed (through : Int)
  | loaded (through : Int) (localRates : Prefs N)
  | snapped (through : Int) (localRates : Prefs N) (snap : Snapshot N)
  /-- There was no receipt. -/
  | vacant (through : Int) (localRates : Prefs N) (snap : Snapshot N)
  | fetched (through : Int) (localRates : Prefs N) (snap : Snapshot N) (remote : Option (Ciphertext N))
  | prepared (a : Attempt N)
  | reserved (h : Held N)
  | posted (h : Held N)
  | answered (h : Held N) (applied : Bool)
  /-- Recovery of the proposal of a receipt. -/
  | recovering (h : Held N)
  | readBack (h : Held N) (current : Option (Ciphertext N))
  | reposted (h : Held N)
  | reanswered (h : Held N) (applied : Bool)
  /-- The write was applied, and the document is read again. -/
  | rereading (h : Held N)
  | confirming (cloud : Prefs N) (through : Int) (receipt : Option (Held N))

/-- Device, Cloud and the messages between them. The last five fields are history: every edit that was queued, every
attempt sealed, every snapshot with the rates of the preferences at its moment, every document read, the newest first, and
every merge that changed nothing. -/
structure System (N H : Type) where
  machine : Machine N H
  /-- The first publication was checked (`cloud_rate_initial_checked`). -/
  checked : Bool
  exchange : Exchange (Value N) Int
  point : Point N
  made : List (Int × Edit N)
  attempts : List (Attempt N)
  snapshots : List (Snapshot N × Prefs N)
  reads : List (Option (Ciphertext N))
  unchanged : List (NoChange N)

/-- The device after its machine moved: edits that are new in the queue were made. -/
def System.withMachine (s : System N H) (m : Machine N H) : System N H :=
  { s with machine := m, made := m.queue.events.filter (fun e => decide (e ∉ s.made)) ++ s.made }

def System.goto (s : System N H) (p : Point N) : System N H := { s with point := p }

variable (S : Setup N R H)

/-- The receipt that is stored. -/
def stored (m : Machine N H) : Option Text := getEntry S.receiptKey m.receipts

/-- Read the Cloud document, and go on if its envelope is valid (`read`). -/
def System.read (s : System N H) (next : Option (Ciphertext N) → Point N) : System N H :=
  { s with
    reads := s.exchange.current :: s.reads
    point := if s.exchange.current.all S.validEnvelope then next s.exchange.current else .idle }

/-- The document that a read shows, or the end of the push. -/
def orIdle (x : Except String (Prefs N)) (next : Prefs N → Point N) : Point N :=
  match x with
  | .ok cloud => next cloud
  | .error _ => .idle

/-- The proposal of a receipt, if its text is one (`recover`). -/
def parseReceipt (raw : Text) : Option (Proposal N) :=
  (S.ofText raw).filter fun p =>
    decide (0 < p.tag) && S.validEnvelope p.content && p.expected.all S.validEnvelope
      && (decrypt (some p.content)).isOk

/-- Take up the proposal of a receipt, or leave it. -/
def takeUp (raw : Text) : Point N :=
  match parseReceipt S raw with
  | some p => .recovering ⟨p, raw⟩
  | none => .idle

/-- Drop the receipt of a rejected attempt (`retire_attempt`). -/
def retireAttempt (h : Held N) (m : Machine N H) : Machine N H :=
  if stored S m = some h.raw then { m with receipts := dropEntry S.receiptKey m.receipts } else m

/-- Prepare a document: confirm if the merge changes nothing, else seal it. -/
def System.prepare (s : System N H) (through : Int) (localRates : Prefs N) (snap : Snapshot N)
    (remote : Option (Ciphertext N)) : System N H :=
  match decrypt remote with
  | .error _ => s.goto .idle
  | .ok cloud =>
    match mergedOf S.env.reading localRates snap.intent remote cloud with
    | .error _ => s.goto .idle
    | .ok merged =>
      if merged = cloud.toValue then
        { s with
          point := .confirming cloud through none
          unchanged := ⟨snap, localRates, remote⟩ :: s.unchanged }
      else
        let a : Attempt N := ⟨s.exchange.proposal remote merged through, snap, localRates⟩
        if S.validEnvelope a.proposal.content then
          { s with
            exchange := s.exchange.prepare remote merged through
            attempts := a :: s.attempts
            point := .prepared a }
        else { s with exchange := s.exchange.prepare remote merged through, point := .idle }

/-- Reserve an attempt: no receipt, and the queue is still as it was. -/
def System.reserve (s : System N H) (a : Attempt N) : System N H :=
  if stored S s.machine = none ∧ snapshot s.machine = .ok a.snapshot then
    { s with
      machine := { s.machine with
        receipts := putEntry S.receiptKey (S.toText a.proposal) s.machine.receipts }
      point := .reserved ⟨a.proposal, S.toText a.proposal⟩ }
  else s.goto .idle

/-! ## Steps -/

/-- What can happen. -/
inductive Act (N : Type) where
  /-- A call, up to one of the states it may be stopped in. -/
  | call (c : Call N) (i : Nat)
  | otherWrite (doc : Option (Value N))
  | deliver (i : Nat) (lost : Bool)
  | lose (i : Nat)
  /-- A restart, a cancelled push, or an error that ends it. -/
  | restart
  | begin
  | readInitial
  | queueInitial (now : Int) (stopped : Option Nat)
  | mark
  | list
  | load (stopped : Option Nat)
  | snapshot
  | lookup
  | fetch
  | prepare
  | reserve
  | post
  | receive (applied : Bool)
  | giveUp
  | conclude
  | readBack
  | decide
  | reread
  | confirm (i : Nat)

/-- Whether a call comes from outside a push: confirmations are its own, and a pull comes after a push. -/
def Point.admits (p : Point N) (c : Call N) : Bool :=
  match c, p with
  | .confirm _ _ _, _ => false
  | .storeRateDoc _, .idle => true
  | .storeRateDoc _, _ => false
  | _, _ => true

/-- Run a program of the device, to its end or to a state it is stopped in. -/
def System.runs {A : Type} (s : System N H) (x : Stoppable (Machine N H) String A) (stopped : Option Nat)
    (next : A → Point N) : Option (System N H) :=
  match stopped with
  | some i => (x.stops s.machine)[i]?.map fun m => (s.withMachine m).goto .idle
  | none =>
    some <| (s.withMachine (x.final s.machine)).goto <|
      match x.result s.machine with
      | .ok a => next a
      | .error _ => .idle

/-- The steps of a push. -/
def System.push (s : System N H) : Act N → Option (System N H)
  | .begin => match s.point with
    | .idle =>
      if s.machine.queue.dirty.isSome ∨ s.checked then some (s.goto .listing)
      else if stored S s.machine = none then some (s.goto .initial)
      else some s
    | _ => none
  | .readInitial => match s.point with
    | .initial => some (s.read S fun current => orIdle (decrypt current) fun _ => .initialRead current)
    | _ => none
  | .queueInitial now stopped => match s.point with
    | .initialRead (some c) => some (s.goto (.marking (some c)))
    | .initialRead none => s.runs (queueInitialRates S.env now) stopped fun _ => .marking none
    | _ => none
  | .mark => match s.point with
    | .marking _ => some { s with checked := true, point := .listing }
    | _ => none
  | .list => match s.point, s.machine.queue.dirty with
    | .listing, some through => some (s.goto (.listed through))
    | .listing, none => some (s.goto .idle)
    | _, _ => none
  | .load stopped => match s.point with
    | .listed through => s.runs (recover S.env) stopped fun prefs => .loaded through prefs.rates
    | _ => none
  | .snapshot => match s.point, Rates.snapshot s.machine with
    | .loaded through localRates, .ok snap =>
      if snap.generation = through then
        some { s with
          point := .snapped through localRates snap
          snapshots := (snap, (settled s.machine).load.rates) :: s.snapshots }
      else some (s.goto .idle)
    | .loaded _ _, .error _ => some (s.goto .idle)
    | _, _ => none
  | .lookup => match s.point, stored S s.machine with
    | .snapped _ _ _, some raw => some (s.goto (takeUp S raw))
    | .snapped through localRates snap, none => some (s.goto (.vacant through localRates snap))
    | _, _ => none
  | .fetch => match s.point with
    | .vacant through localRates snap => some (s.read S (.fetched through localRates snap))
    | _ => none
  | .prepare => match s.point with
    | .fetched through localRates snap remote => some (s.prepare S through localRates snap remote)
    | _ => none
  | .reserve => match s.point with
    | .prepared a => some (s.reserve S a)
    | _ => none
  | .post => match s.point with
    | .reserved h => some { s with exchange := s.exchange.post h.proposal, point := .posted h }
    | _ => none
  | .receive applied => match s.point with
    | .posted h =>
      if (h.proposal, applied) ∈ s.exchange.responses then some (s.goto (.answered h applied)) else none
    | .reposted h =>
      if (h.proposal, applied) ∈ s.exchange.responses then some (s.goto (.reanswered h applied)) else none
    | _ => none
  | .giveUp => match s.point with
    | .posted h => some (s.goto (takeUp S h.raw))
    | .reposted _ => some (s.goto .idle)
    | _ => none
  | .conclude => match s.point with
    | .answered h true | .reanswered h true => some (s.goto (.rereading h))
    | .answered h false | .reanswered h false =>
      some { s with machine := retireAttempt S h s.machine, point := .idle }
    | _ => none
  | .readBack => match s.point with
    | .recovering h => some (s.read S (.readBack h))
    | _ => none
  | .decide => match s.point with
    | .readBack h current =>
      if current = some h.proposal.content then
        some (s.goto (orIdle (decrypt current) fun cloud => .confirming cloud h.proposal.tag (some h)))
      -- not the proposal's own ciphertext: repeat the original operation unchanged
      else some { s with exchange := s.exchange.post h.proposal, point := .reposted h }
    | _ => none
  | .reread => match s.point with
    | .rereading h =>
      some (s.read S fun current =>
        orIdle (decrypt current) fun cloud => .confirming cloud h.proposal.tag (some h))
    | _ => none
  | .confirm i => match s.point with
    | .confirming cloud through receipt =>
      s.runs ((Call.confirm cloud.toValue through (receipt.map fun h => (S.receiptKey, h.raw))).run S.env) (some i)
        fun _ => .idle
    | _ => none
  | _ => none

/-- One step of the system. -/
def step (s : System N H) : Act N → Option (System N H)
  | .call c i =>
    if s.point.admits c then ((c.run S.env).stops s.machine)[i]?.map s.withMachine else none
  | .otherWrite doc => some { s with exchange := s.exchange.otherWrite doc }
  | .deliver i lost => (s.exchange.deliver i lost).map fun x => { s with exchange := x }
  | .lose i => some { s with exchange := s.exchange.lose i }
  | .restart => some (s.goto .idle)
  | a => s.push S a

end SentryUsb.Rates.Publication
