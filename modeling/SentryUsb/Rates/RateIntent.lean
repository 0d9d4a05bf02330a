import SentryUsb.Library.Json
import SentryUsb.Library.TextLines
import SentryUsb.Sync.IntentQueue

/-! # Rate edits and their merge into the Cloud document

The charging rates are a currency, a default rate and a map of plans by tag. A plan has three spellings: a number, a
text, or an object with a flat price and schedules; the whole map may be a text too. Recorded edits are merged into the
Cloud document field by field (`rate_intent.rs`).

* **`view`** — a document with every plan spelled as an object;
* **`equal`**, **`diff`** — whether two values mean the same, and the paths at which two values differ;
* **`set`** — write the value at a path of a document;
* **`apply`** — the merge: changed fields, then plans that were asserted, then plans that are required;
* **`merge`**, **`replayAfter`** — with and without the check for conflicting Cloud edits. -/

namespace SentryUsb.Rates

open SentryUsb.Library

/-- A path of fields. -/
abbrev Path := List Text

/-- A JSON value whose objects are maps in key order. -/
abbrev Value (N : Type) := { v : Json Text N // v.Sorted }

/-- How numbers and texts are read: `Value::as_f64`, `str::parse`, the test for a finite price of at least zero, and
`serde_json::from_str` for a map. The numbers `R` are `f64` up to `==`. -/
structure Reading (N R : Type) where
  asF64 : N → R
  parse : Text → Option R
  isPrice : R → Bool
  fromStr : Text → Option (List (Text × Json Text N))
  fromStr_sorted : ∀ t l, fromStr t = some l → (Json.object l).Sorted

/-- Whole numbers as prices, with no text that is a price. -/
def wholePrices : Reading ℕ ℕ := ⟨id, fun _ => none, fun _ => true, fun _ => none, by simp⟩

variable {N R : Type} [DecidableEq N] [DecidableEq R] (f : Reading N R)

/-! ## Keys -/

def currency : Text := "charging_currency".toList
def defaultRate : Text := "charging_default_rate".toList
def tagRates : Text := "charging_tag_rates".toList
def flat : Text := "flat".toList
def schedules : Text := "schedules".toList

/-- The keys of the rate document (`RATE_KEYS`). -/
def rateKeys : List Text := [currency, defaultRate, tagRates]

/-! ## One spelling for every plan -/

/-- A price: absent, or a number. Anything else is no price (`number`). -/
def number (value : Option (Json Text N)) : Option (Option R) :=
  match value with
  | none => some none
  | some .null => some none
  | some (.string text) =>
    if trim text = [] then some none
    else (f.parse (trim text)).bind fun parsed => if f.isPrice parsed then some (some parsed) else none
  | some (.number n) => if f.isPrice (f.asF64 n) then some (some (f.asF64 n)) else none
  | some _ => none

/-- The fields of a plan: its own, or a flat price (`plan`). -/
def plan (value : Json Text N) : Except String (List (Text × Json Text N)) :=
  match value with
  | .object fields => .ok fields
  | value => if (number f (some value)).isSome then .ok [(flat, value)] else .error "unsupported rate plan"

/-- The plans of a document (`plans`). -/
@[grind =] def plans (value : Option (Json Text N)) : Except String (List (Text × Json Text N)) :=
  match value with
  | none => .ok []
  | some .null => .ok []
  | some (.object fields) => .ok fields
  | some (.string text) =>
    match f.fromStr text with
    | some fields => .ok fields
    | none => .error "unreadable rate plans"
  | some _ => .error "unreadable rate plans"

/-- A plan with its tag, spelled as an object. -/
def normalized (e : Text × Json Text N) : Except String (Text × Json Text N) :=
  (plan f e.2).map fun fields => (e.1, .object fields)

/-- The document with every plan spelled as an object (`view`). -/
def view (document : Json Text N) : Except String (Json Text N) :=
  match document with
  | .object root =>
    (plans f (getEntry tagRates root)).bind fun values =>
      (values.mapM (normalized f)).bind fun values =>
        .ok (.object (putEntry tagRates (.object values) root))
  | _ => .error "rate document is not an object"

/-! ## Values that mean the same -/

/-- Whether a path is the field `name` of a plan. -/
@[grind =] def isPlanField (name : Text) (path : Path) : Bool :=
  match path with
  | [key, _, field] => decide (key = tagRates) && decide (field = name)
  | _ => false

/-- Whether a path is a plan. -/
@[grind =] def isPlan (path : Path) : Bool :=
  match path with
  | [key, _] => decide (key = tagRates)
  | _ => false

/-- The currency a value stands for: `$` when blank. -/
def currencyText (value : Option (Json Text N)) : Option Text :=
  match value with
  | none => some ['$']
  | some .null => some ['$']
  | some (.string text) => some (if trim text = [] then ['$'] else trim text)
  | some _ => none

/-- Schedules that are there (`empty_schedules`). -/
def emptySchedules (value : Option (Json Text N)) : Option (Json Text N) :=
  value.filter fun value => decide (value ≠ .null ∧ value ≠ .array [])

/-- Whether two readings both succeed with the same result. -/
def sameReading {A : Type} [DecidableEq A] (a b : Option A) : Bool := a.isSome && decide (a = b)

/-- Whether two values at a path mean the same, plans apart (`equal` before its last case). -/
def equalField (path : Path) (a b : Option (Json Text N)) : Bool :=
  if a = b then true
  else if path = [defaultRate] ∨ isPlanField flat path then sameReading (number f a) (number f b)
  else if path = [currency] then sameReading (currencyText a) (currencyText b)
  else if isPlanField schedules path then decide (emptySchedules a = emptySchedules b)
  else false

/-- The keys of two objects. -/
def keysOf (left right : List (Text × Json Text N)) : List Text :=
  sortedSet (left.map Prod.fst ++ right.map Prod.fst)

/-- Whether two values at a path mean the same (`equal`). A plan is compared field by field; a field of a plan is no
plan, so the recursion of the source ends there. -/
def equal (path : Path) (a b : Option (Json Text N)) : Bool :=
  equalField f path a b
    || isPlan path && match a, b with
      | some (.object left), some (.object right) =>
        (keysOf left right).all fun key => equalField f (path ++ [key]) (getEntry key left) (getEntry key right)
      | _, _ => false

/-! ## Differences -/

/-- `diff` down to a depth. -/
@[grind =] def diffWithin : Nat → Path → Option (Json Text N) → Option (Json Text N) → List Path
  | fuel, path, before, after =>
    if equal f path before after then []
    else match fuel, before, after with
      | fuel + 1, some (.object left), some (.object right) =>
        (keysOf left right).flatMap fun key =>
          diffWithin fuel (path ++ [key]) (getEntry key left) (getEntry key right)
      | _, _, _ => [path]

/-- The paths at which two values differ (`diff`): objects are compared field by field, everything else as a whole. -/
def diff (path : Path) (before after : Option (Json Text N)) : List Path :=
  diffWithin f ((before.map Json.depth).getD 0) path before after

/-- The paths at which two documents differ. -/
def changed (before after : Json Text N) : List Path :=
  rateKeys.flatMap fun key => diff f [key] (before.get key) (after.get key)

/-! ## Recorded edits -/

/-- A recorded edit (`Edit`). -/
inductive Edit (N : Type) where
  | tags (edit : Sync.TagEdit)
  | costOverride (before after : Value N)
  | rateConfig (before after : Value N) (force : Bool) (requiredTag : Option Text)
  deriving DecidableEq

/-- The recorded edits of a document, with their generations (`Intent`). -/
structure Intent (N : Type) where
  legacy : Bool
  edits : List (Int × Edit N)
  deriving DecidableEq

/-- A rate edit between two views, with the paths it changed (`Event`). -/
structure Event (N : Type) where
  before : Json Text N
  after : Json Text N
  paths : List Path
  force : Bool
  requiredTag : Option Text
  deriving DecidableEq

/-- One recorded edit, as an event. -/
def readEvent (edit : Edit N) : Except String (Event N) :=
  match edit with
  | .rateConfig before after force requiredTag =>
    (view f before).bind fun before => (view f after).bind fun after =>
      .ok ⟨before, after, changed f before after, force, requiredTag⟩
  | _ => .error "unsupported rate intent"

/-- The edits newer than a generation (`events`). -/
def events (intent : Intent N) (after : Option Int) : Except String (List (Event N)) :=
  (intent.edits.filter fun e => !after.any fun through => decide (e.1 ≤ through)).mapM fun e => readEvent f e.2

/-! ## Writing -/

/-- The fields of the plan with a tag, none if it is absent. -/
@[grind =] def planAt (tag : Text) (values : List (Text × Json Text N)) : Except String (List (Text × Json Text N)) :=
  match getEntry tag values with
  | some value => plan f value
  | none => .ok []

/-- The root with the plans as a map, and the plan on the way as an object. -/
def openPlans (root : List (Text × Json Text N)) (below : Path) : Except String (List (Text × Json Text N)) :=
  match below with
  | [] => .ok root
  | [_] => (plans f (getEntry tagRates root)).map fun values => putEntry tagRates (.object values) root
  | tag :: _ :: _ =>
    (plans f (getEntry tagRates root)).bind fun values =>
      (planAt f tag values).map fun value =>
        putEntry tagRates (.object (putEntry tag (.object value) values)) root

/-- Write or remove the value at a path (`set`). -/
@[grind =] def set (document : Json Text N) (path : Path) (value : Option (Json Text N)) : Except String (Json Text N) :=
  match path, document with
  | [], _ => .error "empty rate field path"
  | key :: below, .object root =>
    (if key = tagRates then openPlans f root below else .ok root).bind fun root =>
      match Json.setFields (key :: below) value root with
      | some root => .ok (.object root)
      | none => .error "rate field parent changed type"
  | _ :: _, _ => .error "invalid rate document"

/-! ## Merging -/

/-- The paths changed by some event, in order. -/
def changedPaths (events : List (Event N)) : List Path := sortedSet (events.flatMap Event.paths)

/-- The paths without those below another. -/
def collapse (all : List Path) : List Path :=
  all.foldl (fun paths path => if paths.any fun parent => parent.isPrefixOf path then paths else paths ++ [path]) []

/-- The events that changed a path or something below it. -/
def touching (events : List (Event N)) (path : Path) : List (Event N) :=
  events.filter fun event => event.paths.any fun change => path.isPrefixOf change

/-- Whether a plan or another parent of the path that was there before is gone. -/
def parentRemoved (before observed : Json Text N) (path : Path) : Bool :=
  (List.range' 2 (path.length - 2)).any fun length =>
    (before.getPath (path.take length)).isSome && (observed.getPath (path.take length)).isNone

/-- Merge the changes at one path. -/
def mergeChange (events : List (Event N)) (checkConflicts : Bool) (result : Json Text N) (path : Path) :
    Except String (Json Text N) :=
  match touching events path with
  | [] => .error "missing rate baseline"
  | first :: rest =>
    let before := first.before.getPath path
    let desired := ((first :: rest).getLast (List.cons_ne_nil _ _)).after.getPath path
    if equal f path before desired then .ok result
    else (view f result).bind fun observed =>
      -- an absent parent is a concurrent deletion
      if checkConflicts && parentRemoved first.before observed path then
        .error "rate field parent was removed in Cloud"
      else if checkConflicts && !(equal f path (observed.getPath path) before
          || (first :: rest).any fun event => equal f path (observed.getPath path) (event.after.getPath path)) then
        .error "rate field changed in Cloud"
      else if equal f path (observed.getPath path) desired then .ok result
      else set f result path desired

/-- The paths an event asserts: those of its prices that are there. -/
def assertedBy (event : Event N) : Except String (List Path) :=
  (plans f (event.after.get tagRates)).map fun values =>
    (([currency, defaultRate].filter fun key => (event.after.get key).isSome).map fun key => [key])
      ++ values.map fun e => [tagRates, e.1]

/-- The paths asserted by events that were forced and changed nothing. -/
def asserted (events : List (Event N)) : Except String (List Path) :=
  ((events.filter fun event => event.force && event.paths.isEmpty).mapM (assertedBy f)).map fun paths =>
    sortedSet paths.flatten

/-- Publish an asserted value. -/
def mergeAsserted (last : Event N) (checkConflicts : Bool) (result : Json Text N) (path : Path) :
    Except String (Json Text N) :=
  match last.after.getPath path with
  | none => .ok result
  | some desired =>
    (view f result).bind fun observed =>
      let current := observed.getPath path
      if checkConflicts && !(current.isNone || equal f path current (some desired)) then
        .error "required local rate differs from Cloud"
      else if equal f path current (some desired) then .ok result
      else set f result path (some desired)

/-- Whether two plans have the same prices. -/
def agrees (tag : Text) (current : Option (Json Text N)) (desired : Json Text N) : Bool :=
  [flat, schedules].all fun field =>
    equal f [tagRates, tag, field] (current.bind (Json.get field)) (desired.get field)

/-- Publish a required plan. -/
def mergeRequired (last : Event N) (checkConflicts : Bool) (result : Json Text N) (tag : Text) :
    Except String (Json Text N) :=
  match last.after.getPath [tagRates, tag] with
  | none => .ok result
  | some desired =>
    (view f result).bind fun observed =>
      let current := observed.getPath [tagRates, tag]
      if current.isNone then set f result [tagRates, tag] (some desired)
      else if checkConflicts then
        if agrees f tag current desired then .ok result else .error "required rate plan differs from Cloud"
      else if agrees f tag current desired then .ok result
      else [flat, schedules].foldlM (fun result field => set f result [tagRates, tag, field] (desired.get field)) result

/-- The plans that are required. -/
def required (events : List (Event N)) : List Text := sortedSet (events.filterMap Event.requiredTag)

/-- Merge events into a document: changed paths, asserted values, required plans. -/
def mergeEvents (events : List (Event N)) (checkConflicts : Bool) (current : Json Text N) :
    Except String (Json Text N) :=
  ((collapse (changedPaths events)).foldlM (mergeChange f events checkConflicts) current).bind fun result =>
    (asserted f events).bind fun paths =>
      match events.getLast? with
      | none => .ok result
      | some last =>
        (paths.foldlM (mergeAsserted f last checkConflicts) result).bind fun result =>
          (required events).foldlM (mergeRequired f last checkConflicts) result

/-- Merge the edits newer than a generation into a document (`apply`). -/
def apply (intent : Intent N) (current : Json Text N) (after : Option Int) (checkConflicts : Bool) :
    Except String (Json Text N) :=
  if intent.legacy && checkConflicts then .error "older rate edits need reconciliation"
  else (events f intent after).bind fun events =>
    match current with
    | .object _ => mergeEvents f events checkConflicts current
    | _ => .error "unreadable Cloud rates"

/-- Merge every recorded edit into the Cloud document (`merge`). -/
def merge (intent : Intent N) (cloud : Json Text N) : Except String (Json Text N) := apply f intent cloud none true

/-- The Cloud document with the edits newer than `through` on top (`replay_after`). -/
def replayAfter (intent : Intent N) (through : Int) (cloud : Json Text N) : Except String (Json Text N) :=
  apply f intent cloud (some through) false

end SentryUsb.Rates
