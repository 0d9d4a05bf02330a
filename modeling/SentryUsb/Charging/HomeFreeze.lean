import SentryUsb.Charging.Sessions
import SentryUsb.Rates.RateIntent
import SentryUsb.Snapshot.Store
import SentryUsb.Sync.ConditionalCharge

/-! # Freezing Home sessions

Charges inside the home geofence are priced with the Home plan without carrying a tag. Before Home moves, the charges that
would lose it are given a label, and the label the plan of Home (`charging.rs`).

* **`RateConfig`**, **`planKeys`**, **`applyRates`** — the plans of the preferences, and how a session is priced;
* **`homeRateCopyPlan`** — what freezing does to the plans; **`homeRateCopyPlan_spec`** — when it prices the same;
* **`freezeHomeSessions`** — the freeze;
* **`freeze_keeps_prices`** — it changes the plans of no session. -/

namespace SentryUsb.Charging

open Library Rates

/-! ## Plans -/

/-- How numbers are read for schedules too: `Value::as_i64`. -/
structure NumberReading (N R : Type) extends Reading N R where
  asI64 : N → Option Int

/-- A price for a part of the day, of the week and of the year. -/
structure RateSchedule (R : Type) where
  rate : R
  startMin : Int
  endMin : Int
  days : List Int
  startMonth : Int
  endMonth : Int
  deriving DecidableEq

/-- A plan: a flat price and schedules. -/
structure TagRate (R : Type) where
  flat : Option R
  schedules : List (RateSchedule R)
  deriving DecidableEq

variable {N R : Type}

/-- A plan without any price is none. -/
def TagRate.isConfigured (p : TagRate R) : Bool := p.flat.isSome || !p.schedules.isEmpty

/-- The electricity rates of the preferences. -/
structure RateConfig (R : Type) where
  currency : Text
  defaultRate : Option R
  tags : List (Text × TagRate R)

section Parsing

/-- A signed number of `w` bits, as the standard library reads it. -/
def parseSigned (w : Nat) (t : Text) : Option Int :=
  let digits := if t.head? = some '+' ∨ t.head? = some '-' then t.tail else t
  let magnitude : Int := Nat.ofDigitChars 10 digits 0
  let n := if t.head? = some '-' then -magnitude else magnitude
  if digits ≠ [] ∧ digits.all Char.isDigit = true ∧ -2 ^ (w - 1) ≤ n ∧ n < 2 ^ (w - 1) then some n else none

/-- A wide number cut to 32 bits (`as i32`). -/
def asI32 (n : Int) : Int := n.bmod (2 ^ 32)

variable (f : NumberReading N R)

/-- A price of at least zero, as a number or a text. -/
def numFromJson (v : Json Text N) : Option R :=
  (match v with
    | .number n => some (f.asF64 n)
    | .string s => f.parse (trim s)
    | _ => none).filter f.isPrice

/-- A time of day in minutes. -/
def parseMinuteOfDay (v : Json Text N) : Option Int :=
  match v with
  | .string s =>
    match Snapshot.splitOnce ':' (trim s) with
    | some (h, m) => do
      let h ← parseSigned 32 (trim h)
      let m ← parseSigned 32 (trim m)
      if 0 ≤ h ∧ h ≤ 24 ∧ 0 ≤ m ∧ m < 60 then some (min (h * 60 + m) 1440) else none
    | none => (parseSigned 32 (trim s)).filter fun m => decide (0 ≤ m ∧ m ≤ 1440)
  | .number n => ((f.asI64 n).map asI32).filter fun m => decide (0 ≤ m ∧ m ≤ 1440)
  | _ => none

/-- The elements of an array. -/
def asArray : Json Text N → Option (List (Json Text N))
  | .array items => some items
  | _ => none

def asI64 (v : Json Text N) : Option Int :=
  match v with
  | .number n => f.asI64 n
  | _ => none

/-- Days of the week, each once; no days are all days. -/
def parseDays (v : Option (Json Text N)) : List Int :=
  match v.bind asArray with
  | none => []
  | some items => sortedSet (((items.filterMap (asI64 f)).map asI32).filter fun d => decide (0 ≤ d ∧ d ≤ 6))

/-- A month, as a number or a text. -/
def parseMonth (v : Option (Json Text N)) : Option Int :=
  v.bind fun v => (((asI64 f v).or (match v with
    | .string s => parseSigned 64 (trim s)
    | _ => none)).map asI32).filter fun m => decide (1 ≤ m ∧ m ≤ 12)

/-- A schedule, if its price and its times can be read. -/
def parseSchedule (v : Json Text N) : Option (RateSchedule R) := do
  let obj ← v.asObject
  let rate ← numFromJson f (← getEntry "rate".toList obj)
  let startMin ← parseMinuteOfDay f (← getEntry "start".toList obj)
  let endMin ← parseMinuteOfDay f (← getEntry "end".toList obj)
  return ⟨rate, startMin, endMin, parseDays f (getEntry "days".toList obj),
    (parseMonth f (getEntry "startMonth".toList obj)).getD 1, (parseMonth f (getEntry "endMonth".toList obj)).getD 12⟩

/-- A plan, as an object or as a flat price. -/
def parseTagRate (v : Json Text N) : TagRate R :=
  match v.asObject with
  | some obj => ⟨(getEntry flat obj).bind (numFromJson f),
      (((getEntry schedules obj).bind asArray).map fun items => items.filterMap (parseSchedule f)).getD []⟩
  | none => ⟨numFromJson f v, []⟩

/-- The plans of the preferences. -/
def ratesOf (prefs : List (Text × Json Text N)) : Option (List (Text × Json Text N)) :=
  (getEntry tagRates prefs).bind Json.asObject

/-- The rates of the preferences (`RateConfig::load`). -/
def RateConfig.load (prefs : List (Text × Json Text N)) : RateConfig R where
  currency := ((((getEntry Rates.currency prefs).bind fun v => match v with
    | .string s => some s
    | _ => none).map trim).filter fun s => decide (s ≠ [])).getD ['$']
  defaultRate := (getEntry Rates.defaultRate prefs).bind (numFromJson f)
  tags := ((ratesOf prefs).getD []).map fun e => (e.1, parseTagRate f e.2)

end Parsing

/-! ## Prices of a session -/

/-- The Home label. -/
def homeTag : Text := "Home".toList

/-- Whether a text is the Home label but for case (`eq_ignore_ascii_case`). -/
def isHomeTag (t : Text) : Bool := decide (t.map Char.toLower = homeTag.map Char.toLower)

/-- The labels a session is priced by: its tags, and at home each configured spelling of Home. -/
def planKeys (rates : RateConfig R) (tags : List Text) (atHome : Bool) : List Text :=
  if atHome then
    (rates.tags.map Prod.fst).foldl (fun keys k => if isHomeTag k && !keys.contains k then keys ++ [k] else keys) tags
  else tags

/-- The configured plans a session is priced by. -/
def plansOf (rates : RateConfig R) (tags : List Text) (atHome : Bool) : List (TagRate R) :=
  ((planKeys rates tags atHome).filterMap fun t => getEntry t rates.tags).filter TagRate.isConfigured

/-- The price of a session. -/
structure Priced (R : Type) where
  cost : Option R
  rate : Option R
  currency : Text
  tags : List Text
  atHome : Bool

/-- The price under other tags. -/
def Priced.under (p : Priced R) (tags : List Text) (atHome : Bool) : Priced R := { p with tags := tags, atHome := atHome }

section Pricing

variable [LinearOrder R] [Zero R] [Mul R] [Div R]

/-- The highest cost. -/
def highest (costs : List R) : Option R := costs.foldl (fun acc c => some (acc.elim c fun a => max a c)) none

/-- Prices a session (`apply_rates`): the most expensive plan, else the default rate. `planCost` integrates the power of the
rows with a plan and the default rate. -/
def applyRates (planCost : TagRate R → Option R → Option R) (energyUsed : Option R) (tags : List Text) (atHome : Bool)
    (rates : RateConfig R) : Priced R :=
  let best := highest ((plansOf rates tags atHome).filterMap fun p => planCost p rates.defaultRate)
  let (cost, rate) :=
    match best with
    | some c => (some c, (energyUsed.filter fun u => decide (0 < u)).map fun u => c / u)
    | none => match rates.defaultRate with
      | some dr => (energyUsed.map fun u => dr * u, some dr)
      | none => (none, none)
  ⟨cost, rate, rates.currency, tags, atHome⟩

end Pricing

/-! ## Freezing -/

/-- What freezing under a label does to the plans. -/
inductive RateCopy (N : Type) where
  | nothing
  | conflict (why : Text)
  | copy (rate : Json Text N)

section Copying

variable [DecidableEq R] (f : NumberReading N R)

/-- Whether two neighbours of a list of plans differ. -/
def neighboursDiffer (values : List (Json Text N)) : Bool :=
  (values.zip values.tail).any fun w => decide (parseTagRate f w.1 ≠ parseTagRate f w.2)

/-- How to keep the prices under a label (`home_rate_copy_plan`). -/
def homeRateCopyPlan (prefs : List (Text × Json Text N)) (tag : Text) : RateCopy N :=
  match ratesOf prefs with
  | none => .nothing
  | some rates =>
    let homeKeys := (rates.filter fun e => isHomeTag e.1 && (parseTagRate f e.2).isConfigured).map Prod.snd
    if homeKeys.length > 1 ∧ neighboursDiffer f homeKeys = true then
      .conflict "there are two \"Home\" rates differing only in capitalization — remove one first".toList
    else
      let homeRate := ((getEntry homeTag rates).filter fun v => (parseTagRate f v).isConfigured).or homeKeys.head?
      let dest := (getEntry tag rates).filter fun v => (parseTagRate f v).isConfigured
      match homeRate, dest with
      | none, some _ => .conflict ("\"".toList ++ tag
          ++ "\" already has a rate, and these charges had none — pick another name".toList)
      | none, none => .nothing
      | some home, none => .copy home
      | some home, some d =>
        if parseTagRate f home = parseTagRate f d then .nothing
        else .conflict ("\"".toList ++ tag ++ "\" already has a different rate — pick another name, or those charges would be repriced instead of preserved".toList)

/-- Whether a label has a plan. -/
def tagIsPriced (prefs : List (Text × Json Text N)) (tag : Text) : Bool :=
  ((ratesOf prefs).bind (getEntry tag)).any fun v => (parseTagRate f v).isConfigured

/-- The plan of Home under a label (`RateConfig::copy_home_rate_to`): whether the rates are to be published, and the
preferences then. -/
def copyHomeRateTo (prefs : List (Text × Json Text N)) (tag : Text) (labelInUse : Bool) :
    Except Text (Bool × List (Text × Json Text N)) :=
  match homeRateCopyPlan f prefs tag with
  | .nothing => .ok (tagIsPriced f prefs tag, prefs)
  | .conflict why => .error why
  | .copy rate =>
    if labelInUse then
      .error ("\"".toList ++ tag ++ "\" is already used by other charges — pick a name that isn't in use".toList)
    else .ok (true, putEntry tagRates (.object (putEntry tag rate ((ratesOf prefs).getD []))) prefs)

end Copying

/-- The samples, the tags of charges by the id of a session, the preferences, and the home of the settings. -/
structure ChargeStore (β N H : Type) where
  table : Table β
  tags : List (Int × Text)
  prefs : List (Text × Json Text N)
  home : Option H

section Freezing

variable {β H L : Type} [DecidableEq R] (f : NumberReading N R) (contains : H → L → Bool)
  (location : List (Sample β) → L)

/-- The tags of a session. -/
def ChargeStore.tagsOf (s : ChargeStore β N H) (id : Int) : List Text :=
  ((s.tags.filter fun r => decide (r.1 = id)).map Prod.snd).insertionSort (· ≤ ·)

/-- The id of a session: the time of its first row. -/
def sessionId (session : List (Sample β)) : Int := (session.head?.map Sample.ts).getD 0

def ChargeStore.sessions (s : ChargeStore β N H) : List (List (Sample β)) := groupSessions (loadChargeRows s.table 0 none)

/-- Whether a place is at home: a home that is set, and valid, and around it. -/
def isHomeCharge (place : L) (home : Option H) : Bool := home.any fun h => contains h place

def losesHome (place : L) (oldHome : H) (newHome : Option H) : Bool :=
  isHomeCharge contains place (some oldHome) && !isHomeCharge contains place newHome

/-- The sessions a move would take out of Home. -/
def ChargeStore.sessionsLosingHome (s : ChargeStore β N H) (newHome : Option H) : List Int :=
  match s.home with
  | none => []
  | some oldHome => (s.sessions.filter fun session => losesHome contains (location session) oldHome newHome).map sessionId

/-- Adds a tag to sessions (`add_charge_tag_bulk`). -/
def addChargeTagBulk (tags : List (Int × Text)) (ids : List Int) (tag : Text) : List (Int × Text) :=
  ids.foldl (fun rows id => if rows.contains (id, tag) then rows else rows ++ [(id, tag)]) tags

/-- The plans a session is priced by, at home or away. -/
def ChargeStore.plansAt (s : ChargeStore β N H) (id : Int) (atHome : Bool) : List (TagRate R) :=
  plansOf (RateConfig.load f s.prefs) (s.tagsOf id) atHome

/-- What a freeze did. -/
structure Frozen where
  tagged : Nat
  ratesDirty : Bool

/-- Freezes the sessions that leave Home under a label (`freeze_home_sessions`). -/
def freezeHomeSessions (s : ChargeStore β N H) (label : Text) (newHome : Option H) : Except Text (Frozen × ChargeStore β N H) :=
  let tag := trim label
  if tag = [] ∨ Sync.Charge.isReservedTag tag = true then .error "pick a name that isn't a reserved tag".toList
  else
    let ids := s.sessionsLosingHome contains location newHome
    if ids = [] then .ok (⟨0, false⟩, s)
    else
      let labelInUse := (s.tags.map Prod.fst).any fun id => !ids.contains id && (s.tagsOf id).any fun t => t == tag
      (copyHomeRateTo f s.prefs tag labelInUse).map fun copied =>
        (⟨ids.length, copied.1⟩, { s with prefs := copied.2, tags := addChargeTagBulk s.tags ids tag })

end Freezing

/-! ## Which plans price a session -/

section Plans

variable {f : NumberReading N R} {prefs : List (Text × Json Text N)} {tags : List Text} {atHome : Bool}
  {k tag : Text} {p : TagRate R}

variable (f prefs k) in
/-- The plan of a label, if it is configured. -/
def planAt : Option (TagRate R) := (((ratesOf prefs).bind (getEntry k)).map (parseTagRate f)).filter TagRate.isConfigured

variable (f prefs p) in
/-- A plan of Home, in any spelling. -/
def IsHomePlan : Prop := ∃ k, isHomeTag k = true ∧ planAt f prefs k = some p

theorem getEntry_tags (f : NumberReading N R) (prefs : List (Text × Json Text N)) (k : Text) :
    getEntry k (RateConfig.load f prefs).tags = ((ratesOf prefs).bind (getEntry k)).map (parseTagRate f) := by
  rw [RateConfig.load, getEntry_map]
  cases ratesOf prefs with
  | none => rfl
  | some rates => rfl

theorem mem_foldl_spellings {keys : List Text} :
    k ∈ keys.foldl (fun found k => if isHomeTag k && !found.contains k then found ++ [k] else found) tags
      ↔ k ∈ tags ∨ isHomeTag k = true ∧ k ∈ keys := by
  induction keys generalizing tags with
  | nil => simp
  | cons key keys ih =>
    rw [List.foldl_cons, ih]
    by_cases hhome : isHomeTag key = true
    · by_cases hfound : key ∈ tags
      · simp only [hhome, List.contains_iff_mem.mpr hfound, Bool.not_true, Bool.and_false, Bool.false_eq_true, if_false,
          List.mem_cons]
        constructor
        · exact Or.imp_right fun h => ⟨h.1, .inr h.2⟩
        · rintro (h | ⟨h, rfl | hmem⟩)
          · exact .inl h
          · exact .inl hfound
          · exact .inr ⟨h, hmem⟩
      · have hnew : tags.contains key = false := by simpa using hfound
        simp only [hhome, hnew, Bool.not_false, Bool.and_self, if_true, List.mem_append, List.mem_cons, List.not_mem_nil, or_false]
        constructor
        · rintro ((h | rfl) | ⟨h, hmem⟩)
          · exact .inl h
          · exact .inr ⟨hhome, .inl rfl⟩
          · exact .inr ⟨h, .inr hmem⟩
        · rintro (h | ⟨h, rfl | hmem⟩)
          · exact .inl (.inl h)
          · exact .inl (.inr rfl)
          · exact .inr ⟨h, hmem⟩
    · have hother : isHomeTag key = false := by simpa using hhome
      simp only [hother, Bool.false_and, Bool.false_eq_true, if_false, List.mem_cons]
      constructor
      · exact Or.imp_right fun h => ⟨h.1, .inr h.2⟩
      · rintro (h | ⟨h, rfl | hmem⟩)
        · exact .inl h
        · exact absurd h hhome
        · exact .inr ⟨h, hmem⟩

/-- **A session is priced by the configured plans of its tags**, and at home by those of Home. -/
theorem mem_plansOf : p ∈ plansOf (RateConfig.load f prefs) tags atHome
    ↔ (∃ k ∈ tags, planAt f prefs k = some p) ∨ atHome = true ∧ IsHomePlan f prefs p := by
  have hplan : ∀ k, planAt f prefs k = some p ↔ getEntry k (RateConfig.load f prefs).tags = some p ∧ p.isConfigured = true := by
    intro k
    rw [planAt, ← getEntry_tags, Option.filter_eq_some_iff]
  have hkey : ∀ k, planAt f prefs k = some p → k ∈ (RateConfig.load f prefs).tags.map Prod.fst := fun k hk =>
    List.mem_map_of_mem (f := Prod.fst) (mem_of_getEntry ((hplan k).mp hk).1)
  rw [plansOf, List.mem_filter, List.mem_filterMap]
  cases atHome with
  | false =>
    rw [planKeys, if_neg Bool.false_ne_true]
    constructor
    · rintro ⟨⟨k, hk, hget⟩, hconf⟩
      exact .inl ⟨k, hk, (hplan k).mpr ⟨hget, hconf⟩⟩
    · rintro (⟨k, hk, hat⟩ | ⟨hhome, -⟩)
      · exact ⟨⟨k, hk, ((hplan k).mp hat).1⟩, ((hplan k).mp hat).2⟩
      · exact absurd hhome Bool.false_ne_true
  | true =>
    rw [planKeys, if_pos rfl]
    constructor
    · rintro ⟨⟨k, hk, hget⟩, hconf⟩
      rcases mem_foldl_spellings.mp hk with htag | ⟨hhome, -⟩
      · exact .inl ⟨k, htag, (hplan k).mpr ⟨hget, hconf⟩⟩
      · exact .inr ⟨rfl, k, hhome, (hplan k).mpr ⟨hget, hconf⟩⟩
    · rintro (⟨k, hk, hat⟩ | ⟨-, k, hhome, hat⟩)
      · exact ⟨⟨k, mem_foldl_spellings.mpr (.inl hk), ((hplan k).mp hat).1⟩, ((hplan k).mp hat).2⟩
      · exact ⟨⟨k, mem_foldl_spellings.mpr (.inr ⟨hhome, hkey k hat⟩), ((hplan k).mp hat).1⟩, ((hplan k).mp hat).2⟩

end Plans

/-! ## What is copied -/

section Copied

variable {f : NumberReading N R} {prefs : List (Text × Json Text N)} {tag : Text}

theorem isHomeTag_homeTag : isHomeTag homeTag = true := decide_eq_true rfl

theorem filter_configured {v : Json Text N} (h : (parseTagRate f v).isConfigured = true) :
    (some v).filter (fun v => (parseTagRate f v).isConfigured) = some v :=
  Option.filter_some_pos (p := fun v => (parseTagRate f v).isConfigured) h

/-- The plan of a label among the rates. -/
theorem planAt_of_ratesOf {rates : List (Text × Json Text N)} (hrates : ratesOf prefs = some rates) (k : Text) :
    planAt f prefs k = ((getEntry k rates).filter fun v => (parseTagRate f v).isConfigured).map (parseTagRate f) := by
  rw [planAt, hrates, Option.bind_some]
  cases getEntry k rates with
  | none => rfl
  | some v =>
    rw [Option.map_some, Option.filter_some, Option.filter_some]
    split
    · rfl
    · rfl

theorem sorted_ratesOf (hsorted : (Json.object prefs).Sorted) {rates : List (Text × Json Text N)}
    (hrates : ratesOf prefs = some rates) : (Json.object rates).Sorted := by
  obtain ⟨value, hvalue, hobject⟩ := Option.bind_eq_some_iff.mp hrates
  cases value with
  | object l =>
    obtain rfl := Option.some.inj hobject
    exact (Json.sorted_object.mp hsorted).2 _ (mem_of_getEntry hvalue)
  | _ => exact nomatch hobject

variable [DecidableEq R]

/-- Values of which no two neighbours differ are one plan. -/
theorem eq_of_not_neighboursDiffer {values : List (Json Text N)} (h : ¬neighboursDiffer f values = true) :
    ∀ v ∈ values, ∀ w ∈ values, parseTagRate f v = parseTagRate f w := by
  have hhead : ∀ (first : Json Text N) (l : List (Json Text N)), ¬neighboursDiffer f (first :: l) = true →
      ∀ v ∈ first :: l, parseTagRate f v = parseTagRate f first := by
    intro first l
    induction l generalizing first with
    | nil =>
      intro _ v hv
      rw [List.mem_singleton.mp hv]
    | cons second l ih =>
      intro hsame v hv
      rw [neighboursDiffer, List.tail_cons, List.zip_cons_cons, List.any_cons, Bool.or_eq_true, not_or,
        decide_eq_true_eq, not_not] at hsame
      rcases List.mem_cons.mp hv with rfl | hv
      · rfl
      · exact (ih second hsame.2 v hv).trans hsame.1.symm
  cases values with
  | nil => exact fun v hv => nomatch hv
  | cons first l => exact fun v hv w hw => (hhead first l h v hv).trans (hhead first l h w hw).symm

/-- **What freezing does to the plans keeps prices**: either the label has the plan of Home, or both have none, or the label
has none and gets the only plan of Home. -/
theorem homeRateCopyPlan_spec (tag : Text) (hsorted : (Json.object prefs).Sorted) :
    (homeRateCopyPlan f prefs tag = .nothing → ∀ p, IsHomePlan f prefs p ↔ planAt f prefs tag = some p)
      ∧ ∀ rate, homeRateCopyPlan f prefs tag = .copy rate → rate.Sorted ∧ planAt f prefs tag = none
        ∧ (parseTagRate f rate).isConfigured = true ∧ ∀ p, IsHomePlan f prefs p ↔ p = parseTagRate f rate := by
  cases hrates : ratesOf prefs with
  | none =>
    have hnone : ∀ k, planAt f prefs k = none := fun k => by rw [planAt, hrates]; rfl
    rw [homeRateCopyPlan, hrates]
    refine ⟨fun _ p => ?_, fun rate h => nomatch h⟩
    rw [hnone]
    exact iff_of_false (fun ⟨k, _, hk⟩ => by rw [hnone] at hk; exact nomatch hk) fun h => nomatch h
  | some rates =>
    obtain ⟨hordered, hvalues⟩ := Json.sorted_object.mp (sorted_ratesOf hsorted hrates)
    obtain ⟨homeKeys, hkeys⟩ : ∃ l, l = (rates.filter fun e => isHomeTag e.1 && (parseTagRate f e.2).isConfigured).map Prod.snd :=
      ⟨_, rfl⟩
    have hmem : ∀ v, v ∈ homeKeys ↔ ∃ k, isHomeTag k = true ∧ getEntry k rates = some v
        ∧ (parseTagRate f v).isConfigured = true := by
      intro v
      rw [hkeys, List.mem_map]
      constructor
      · rintro ⟨e, he, rfl⟩
        obtain ⟨he, hboth⟩ := List.mem_filter.mp he
        obtain ⟨hhome, hconf⟩ := Bool.and_eq_true_iff.mp hboth
        exact ⟨e.1, hhome, getEntry_of_mem hordered he, hconf⟩
      · rintro ⟨k, hhome, hget, hconf⟩
        exact ⟨(k, v), List.mem_filter.mpr ⟨mem_of_getEntry hget, by rw [hhome, hconf]; rfl⟩, rfl⟩
    have hhome : ∀ p, IsHomePlan f prefs p ↔ ∃ v ∈ homeKeys, parseTagRate f v = p := by
      intro p
      constructor
      · rintro ⟨k, hk, hplan⟩
        rw [planAt_of_ratesOf hrates, Option.map_eq_some_iff] at hplan
        obtain ⟨v, hv, rfl⟩ := hplan
        obtain ⟨hget, hconf⟩ := Option.filter_eq_some_iff.mp hv
        exact ⟨v, (hmem v).mpr ⟨k, hk, hget, hconf⟩, rfl⟩
      · rintro ⟨v, hv, rfl⟩
        obtain ⟨k, hk, hget, hconf⟩ := (hmem v).mp hv
        refine ⟨k, hk, ?_⟩
        rw [planAt_of_ratesOf hrates, hget, filter_configured hconf, Option.map_some]
    rw [homeRateCopyPlan, hrates]
    dsimp only
    rw [← hkeys]
    by_cases hdiffer : homeKeys.length > 1 ∧ neighboursDiffer f homeKeys = true
    · rw [if_pos hdiffer]
      exact ⟨fun h => (nomatch h), fun rate h => (nomatch h)⟩
    rw [if_neg hdiffer]
    have hsame : ∀ v ∈ homeKeys, ∀ w ∈ homeKeys, parseTagRate f v = parseTagRate f w := by
      by_cases hlong : homeKeys.length > 1
      · exact eq_of_not_neighboursDiffer fun h => hdiffer ⟨hlong, h⟩
      · intro v hv w hw
        obtain ⟨i, hi, rfl⟩ := List.getElem_of_mem hv
        obtain ⟨j, hj, rfl⟩ := List.getElem_of_mem hw
        have hij : i = j := by omega
        subst hij
        rfl
    have hsource : ∀ v, ((getEntry homeTag rates).filter fun v => (parseTagRate f v).isConfigured).or homeKeys.head? = some v →
        v ∈ homeKeys := by
      intro v hv
      rcases Option.or_eq_some_iff.mp hv with hv | ⟨-, hv⟩
      · obtain ⟨hget, hconf⟩ := Option.filter_eq_some_iff.mp hv
        exact (hmem v).mpr ⟨homeTag, isHomeTag_homeTag, hget, hconf⟩
      · exact List.mem_of_mem_head? hv
    have hplan := planAt_of_ratesOf (f := f) hrates tag
    cases hhomeRate : ((getEntry homeTag rates).filter fun v => (parseTagRate f v).isConfigured).or homeKeys.head? with
    | none =>
      have hempty : homeKeys = [] := List.head?_eq_none_iff.mp (Option.or_eq_none_iff.mp hhomeRate).2
      cases hdest : (getEntry tag rates).filter fun v => (parseTagRate f v).isConfigured with
      | some d => exact ⟨fun h => (nomatch h), fun rate h => (nomatch h)⟩
      | none =>
        refine ⟨fun _ p => ?_, fun rate h => nomatch h⟩
        rw [hhome, hplan, hdest, hempty]
        exact iff_of_false (fun ⟨v, hv, _⟩ => nomatch hv) fun h => nomatch h
    | some home =>
      have hin := hsource home hhomeRate
      have honly : ∀ p, IsHomePlan f prefs p ↔ p = parseTagRate f home := by
        intro p
        rw [hhome]
        constructor
        · rintro ⟨v, hv, rfl⟩
          exact hsame v hv home hin
        · rintro rfl
          exact ⟨home, hin, rfl⟩
      cases hdest : (getEntry tag rates).filter fun v => (parseTagRate f v).isConfigured with
      | none =>
        refine ⟨fun h => (nomatch h), fun rate h => ?_⟩
        obtain rfl := RateCopy.copy.inj h
        obtain ⟨k, hk, hget, hconf⟩ := (hmem home).mp hin
        exact ⟨hvalues _ (mem_of_getEntry hget), by rw [hplan, hdest]; rfl, hconf, honly⟩
      | some d =>
        dsimp only
        by_cases heq : parseTagRate f home = parseTagRate f d
        · rw [if_pos heq]
          refine ⟨fun _ p => ?_, fun rate h => (nomatch h)⟩
          rw [honly, hplan, hdest, Option.map_some, Option.some.injEq, heq]
          exact eq_comm
        · rw [if_neg heq]
          exact ⟨fun h => (nomatch h), fun rate h => (nomatch h)⟩

/-- The preferences after the plan of Home has been copied, or not. -/
theorem copyHomeRateTo_spec (hsorted : (Json.object prefs).Sorted) {inUse dirty : Bool} {prefs' : List (Text × Json Text N)}
    (h : copyHomeRateTo f prefs tag inUse = .ok (dirty, prefs')) :
    (Json.object prefs').Sorted ∧ (∀ k, k ≠ tagRates → getEntry k prefs' = getEntry k prefs)
      ∧ ((∀ k, planAt f prefs' k = planAt f prefs k) ∧ (∀ p, IsHomePlan f prefs p ↔ planAt f prefs tag = some p)
        ∨ inUse = false ∧ planAt f prefs tag = none ∧ ∃ q, (∀ p, IsHomePlan f prefs p ↔ p = q)
          ∧ ∀ k, planAt f prefs' k = if k = tag then some q else planAt f prefs k) := by
  obtain ⟨hnothing, hcopy⟩ := homeRateCopyPlan_spec (f := f) tag hsorted
  cases hplan : homeRateCopyPlan f prefs tag with
  | conflict why =>
    rw [copyHomeRateTo, hplan] at h
    exact nomatch h
  | nothing =>
    rw [copyHomeRateTo, hplan] at h
    obtain rfl : prefs = prefs' := (Prod.mk.inj (Except.ok.inj h)).2
    exact ⟨hsorted, fun _ _ => rfl, .inl ⟨fun _ => rfl, hnothing hplan⟩⟩
  | copy rate =>
    obtain ⟨hrate, hfree, hconf, honly⟩ := hcopy rate hplan
    cases inUse with
    | true =>
      rw [copyHomeRateTo, hplan] at h
      exact nomatch h
    | false =>
      rw [copyHomeRateTo, hplan] at h
      obtain rfl : putEntry tagRates (.object (putEntry tag rate ((ratesOf prefs).getD []))) prefs = prefs' :=
        (Prod.mk.inj (Except.ok.inj h)).2
      have hrates : (Json.object ((ratesOf prefs).getD [])).Sorted := by
        cases hrates : ratesOf prefs with
        | none => exact Json.sorted_object.mpr ⟨List.Pairwise.nil, fun e he => nomatch he⟩
        | some rates => exact sorted_ratesOf hsorted hrates
      have hafter : ratesOf (putEntry tagRates (.object (putEntry tag rate ((ratesOf prefs).getD []))) prefs)
          = some (putEntry tag rate ((ratesOf prefs).getD [])) := by
        rw [ratesOf, getEntry_putEntry, if_pos rfl]
        rfl
      refine ⟨Json.sorted_putEntry_object hsorted (Json.sorted_putEntry_object hrates hrate),
        fun k hk => by rw [getEntry_putEntry, if_neg hk], .inr ⟨rfl, hfree, parseTagRate f rate, honly, fun k => ?_⟩⟩
      rw [planAt_of_ratesOf hafter, getEntry_putEntry]
      by_cases hk : k = tag
      · rw [if_pos hk, if_pos hk, filter_configured hconf, Option.map_some]
      · rw [if_neg hk, if_neg hk]
        cases hrates : ratesOf prefs with
        | none => rw [planAt, hrates]; rfl
        | some rates => rw [planAt_of_ratesOf hrates]; rfl

end Copied

/-! ## What a freeze changes -/

section Freezes

variable {β H L : Type} [DecidableEq R] {f : NumberReading N R} {contains : H → L → Bool} {location : List (Sample β) → L}
  {s t : ChargeStore β N H} {newHome : Option H}

theorem mem_tagsOf {id : Int} {tag : Text} : tag ∈ s.tagsOf id ↔ (id, tag) ∈ s.tags := by
  rw [ChargeStore.tagsOf, List.mem_insertionSort, List.mem_map]
  constructor
  · rintro ⟨r, hr, rfl⟩
    obtain ⟨hr, hid⟩ := List.mem_filter.mp hr
    rw [← of_decide_eq_true hid]
    exact hr
  · intro h
    exact ⟨(id, tag), List.mem_filter.mpr ⟨h, decide_eq_true rfl⟩, rfl⟩

theorem mem_addChargeTagBulk {rows : List (Int × Text)} {ids : List Int} {tag : Text} {r : Int × Text} :
    r ∈ addChargeTagBulk rows ids tag ↔ r ∈ rows ∨ r.1 ∈ ids ∧ r.2 = tag := by
  induction ids generalizing rows with
  | nil => simp [addChargeTagBulk]
  | cons id ids ih =>
    have hstep : r ∈ (if rows.contains (id, tag) then rows else rows ++ [(id, tag)]) ↔ r ∈ rows ∨ r = (id, tag) := by
      by_cases hthere : (id, tag) ∈ rows
      · rw [if_pos (List.contains_iff_mem.mpr hthere)]
        exact ⟨.inl, fun h => h.elim (fun hr => hr) fun heq => heq ▸ hthere⟩
      · rw [if_neg fun h => hthere (List.contains_iff_mem.mp h), List.mem_append, List.mem_singleton]
    have hpair : r = (id, tag) ↔ r.1 = id ∧ r.2 = tag := Prod.ext_iff
    rw [addChargeTagBulk, List.foldl_cons, ← addChargeTagBulk, ih, hstep, hpair, List.mem_cons]
    tauto

/-- **What a freeze does**: nothing when no session leaves Home, else the plan is copied and the sessions are tagged, under a
label that is not Home. -/
theorem freeze_cases {label : Text} {frozen : Frozen}
    (h : freezeHomeSessions f contains location s label newHome = .ok (frozen, t)) :
    s.sessionsLosingHome contains location newHome = [] ∧ t = s
      ∨ isHomeTag (trim label) = false ∧ ∃ inUse dirty prefs,
        (inUse = false → ∀ id, id ∉ s.sessionsLosingHome contains location newHome → trim label ∉ s.tagsOf id)
        ∧ copyHomeRateTo f s.prefs (trim label) inUse = .ok (dirty, prefs)
        ∧ t = { s with
            prefs := prefs
            tags := addChargeTagBulk s.tags (s.sessionsLosingHome contains location newHome) (trim label) } := by
  rw [freezeHomeSessions] at h
  dsimp only at h
  by_cases hreserved : trim label = [] ∨ Sync.Charge.isReservedTag (trim label) = true
  · rw [if_pos hreserved] at h
    exact nomatch h
  · rw [if_neg hreserved] at h
    by_cases hids : s.sessionsLosingHome contains location newHome = []
    · rw [if_pos hids] at h
      exact .inl ⟨hids, (Prod.mk.inj (Except.ok.inj h)).2.symm⟩
    · rw [if_neg hids] at h
      obtain ⟨⟨dirty, prefs⟩, hcopied, heq⟩ := map_eq_ok.mp h
      refine .inr ⟨?_, _, dirty, prefs, fun hunused id hid htag => ?_, hcopied, (Prod.mk.inj heq).2.symm⟩
      · by_contra hhome
        have hhome := of_decide_eq_true ((Bool.not_eq_false _).mp hhome)
        refine hreserved (.inr (Bool.or_eq_true_iff.mpr (.inl (decide_eq_true ?_))))
        rw [hhome]
        rfl
      · -- a row with the label would have been found
        refine Bool.false_ne_true (hunused.symm.trans (List.any_eq_true.mpr ⟨id, List.mem_map_of_mem (mem_tagsOf.mp htag), ?_⟩))
        rw [Bool.and_eq_true, Bool.not_eq_true', List.any_eq_true]
        exact ⟨by simpa using hid, _, htag, beq_self_eq_true _⟩

/-- **A freeze changes the plans of no session**: those that leave Home keep its plan by their label, and no other session has
the label when it is given one. -/
theorem mem_plansAt_freeze {label : Text} {frozen : Frozen} (hprefs : (Json.object s.prefs).Sorted)
    (h : freezeHomeSessions f contains location s label newHome = .ok (frozen, t)) {id : Int} (p : TagRate R) :
    (id ∈ s.sessionsLosingHome contains location newHome → (p ∈ t.plansAt f id false ↔ p ∈ s.plansAt f id true))
      ∧ (id ∉ s.sessionsLosingHome contains location newHome →
        ∀ atHome, p ∈ t.plansAt f id atHome ↔ p ∈ s.plansAt f id atHome) := by
  rcases freeze_cases h with ⟨hnone, rfl⟩ | ⟨hlabel, inUse, dirty, prefs, hunused, hcopied, rfl⟩
  · exact ⟨fun hid => (by rw [hnone] at hid; exact nomatch hid), fun _ _ => Iff.rfl⟩
  obtain ⟨-, -, hplans⟩ := copyHomeRateTo_spec hprefs hcopied
  have htags : ∀ (id : Int) (tag : Text), tag ∈ ChargeStore.tagsOf { s with
        prefs := prefs
        tags := addChargeTagBulk s.tags (s.sessionsLosingHome contains location newHome) (trim label) } id
      ↔ tag ∈ s.tagsOf id ∨ id ∈ s.sessionsLosingHome contains location newHome ∧ tag = trim label := by
    intro id tag
    rw [mem_tagsOf, mem_addChargeTagBulk, mem_tagsOf]
  simp only [ChargeStore.plansAt, mem_plansOf, htags, Bool.false_eq_true, false_and, or_false, true_and]
  rcases hplans with ⟨hsame, hhome⟩ | ⟨hfree, hnone, q, hhome, hnew⟩
  · -- the label has the plan of Home already
    have hhomes : IsHomePlan f prefs p ↔ IsHomePlan f s.prefs p := by simp only [IsHomePlan, hsame]
    simp only [hsame, hhomes, hhome p]
    refine ⟨fun hid => ?_, fun hid atHome => ?_⟩
    · constructor
      · rintro ⟨k, hk | ⟨-, rfl⟩, hat⟩
        · exact .inl ⟨k, hk, hat⟩
        · exact .inr hat
      · rintro (⟨k, hk, hat⟩ | hat)
        · exact ⟨k, .inl hk, hat⟩
        · exact ⟨trim label, .inr ⟨hid, rfl⟩, hat⟩
    · simp only [hid, false_and, or_false]
  · -- the label is new to the plans and to the other sessions
    have hhomes : IsHomePlan f prefs p ↔ IsHomePlan f s.prefs p := by
      refine exists_congr fun k => and_congr_right fun hk => ?_
      have hother : k ≠ trim label := fun heq => Bool.false_ne_true (hlabel.symm.trans (heq ▸ hk))
      rw [hnew, if_neg hother]
    refine ⟨fun hid => ?_, fun hid atHome => ?_⟩
    · constructor
      · rintro ⟨k, hk, hat⟩
        rw [hnew] at hat
        by_cases heq : k = trim label
        · rw [if_pos heq] at hat
          exact .inr ((hhome p).mpr (Option.some.inj hat).symm)
        · rw [if_neg heq] at hat
          exact .inl ⟨k, hk.resolve_right fun h => heq h.2, hat⟩
      · rintro (⟨k, hk, hat⟩ | hat)
        · have hother : k ≠ trim label := by
            rintro rfl
            rw [hnone] at hat
            exact nomatch hat
          refine ⟨k, .inl hk, ?_⟩
          rw [hnew, if_neg hother, hat]
        · refine ⟨trim label, .inr ⟨hid, rfl⟩, ?_⟩
          rw [hnew, if_pos rfl, (hhome p).mp hat]
    · simp only [hid, false_and, or_false, hhomes]
      refine or_congr_left (exists_congr fun k => and_congr_right fun hk => ?_)
      have hother : k ≠ trim label := fun heq => hunused hfree id hid (heq ▸ hk)
      rw [hnew, if_neg hother]

/-- What else a freeze leaves as it was. -/
theorem freeze_frame {label : Text} {frozen : Frozen} (hprefs : (Json.object s.prefs).Sorted)
    (h : freezeHomeSessions f contains location s label newHome = .ok (frozen, t)) :
    t.table = s.table ∧ t.home = s.home ∧ (Json.object t.prefs).Sorted
      ∧ ∀ k, k ≠ tagRates → getEntry k t.prefs = getEntry k s.prefs := by
  rcases freeze_cases h with ⟨-, rfl⟩ | ⟨-, inUse, dirty, prefs, -, hcopied, rfl⟩
  · exact ⟨rfl, rfl, hprefs, fun _ _ => rfl⟩
  · obtain ⟨hsorted, hother, -⟩ := copyHomeRateTo_spec hprefs hcopied
    exact ⟨rfl, rfl, hsorted, hother⟩

end Freezes

/-! ## Prices -/

section Prices

variable [LinearOrder R]

theorem highest_eq_max? (costs : List R) : highest costs = costs.max? := by
  cases costs with
  | nil => rfl
  | cons a costs =>
    have hfold : ∀ (l : List R) (a : R), l.foldl (fun acc c => some (acc.elim c fun a => max a c)) (some a)
        = some (l.foldl max a) := by
      intro l
      induction l with
      | nil => exact fun _ => rfl
      | cons b l ih => exact fun a => ih (max a b)
    rw [List.max?_cons', ← hfold]
    rfl

theorem highest_congr {costs costs' : List R} (h : ∀ c, c ∈ costs ↔ c ∈ costs') : highest costs = highest costs' := by
  rw [highest_eq_max?, highest_eq_max?]
  refine Option.ext fun m => ?_
  simp only [List.max?_eq_some_iff, h]

variable [Zero R] [Mul R] [Div R]

/-- Sessions with the same plans are priced the same. -/
theorem applyRates_congr {planCost : TagRate R → Option R → Option R} {energyUsed : Option R} {tags tags' : List Text}
    {atHome atHome' : Bool} {rates rates' : RateConfig R}
    (hplans : ∀ p, p ∈ plansOf rates tags atHome ↔ p ∈ plansOf rates' tags' atHome')
    (hdefault : rates.defaultRate = rates'.defaultRate) (hcurrency : rates.currency = rates'.currency) :
    applyRates planCost energyUsed tags atHome rates
      = (applyRates planCost energyUsed tags' atHome' rates').under tags atHome := by
  have hbest : highest ((plansOf rates tags atHome).filterMap fun p => planCost p rates.defaultRate)
      = highest ((plansOf rates' tags' atHome').filterMap fun p => planCost p rates'.defaultRate) := by
    apply highest_congr
    intro c
    rw [List.mem_filterMap, List.mem_filterMap, hdefault]
    exact exists_congr fun p => and_congr_left fun _ => hplans p
  rw [Priced.under, applyRates, applyRates, hbest, hdefault, hcurrency]

variable {β H L : Type} {f : NumberReading N R} {contains : H → L → Bool} {location : List (Sample β) → L}
  {s t : ChargeStore β N H} {newHome : Option H}

theorem mem_sessionsLosingHome {session : List (Sample β)} (hsession : session ∈ s.sessions) {old : H} (hold : s.home = some old)
    (hloses : losesHome contains (location session) old newHome = true) :
    sessionId session ∈ s.sessionsLosingHome contains location newHome := by
  rw [ChargeStore.sessionsLosingHome, hold]
  exact List.mem_map_of_mem (List.mem_filter.mpr ⟨hsession, hloses⟩)

/-- **Freezing Home sessions keeps their prices.** A session that leaves Home has, outside the new home, the plans it had
inside the old one, so that it costs the same; and the plans of no other session change. -/
theorem freeze_keeps_prices (planCost : List (Sample β) → TagRate R → Option R → Option R)
    (energyUsed : List (Sample β) → Option R) {label : Text} {frozen : Frozen} (hprefs : (Json.object s.prefs).Sorted)
    (h : freezeHomeSessions f contains location s label newHome = .ok (frozen, t)) :
    (∀ session ∈ s.sessions, ∀ old, s.home = some old → losesHome contains (location session) old newHome = true →
        (∀ p, p ∈ t.plansAt f (sessionId session) (isHomeCharge contains (location session) newHome)
          ↔ p ∈ s.plansAt f (sessionId session) (isHomeCharge contains (location session) s.home))
        ∧ applyRates (planCost session) (energyUsed session) (t.tagsOf (sessionId session))
            (isHomeCharge contains (location session) newHome) (RateConfig.load f t.prefs)
          = (applyRates (planCost session) (energyUsed session) (s.tagsOf (sessionId session))
              (isHomeCharge contains (location session) s.home) (RateConfig.load f s.prefs)).under
            (t.tagsOf (sessionId session)) false)
      ∧ (∀ id, id ∉ s.sessionsLosingHome contains location newHome → ∀ atHome p,
        p ∈ t.plansAt f id atHome ↔ p ∈ s.plansAt f id atHome)
      ∧ t.table = s.table ∧ t.home = s.home ∧ (Json.object t.prefs).Sorted := by
  obtain ⟨htable, hhome, hsorted, hother⟩ := freeze_frame hprefs h
  refine ⟨fun session hsession old hold hloses => ?_, fun id hid atHome p => (mem_plansAt_freeze hprefs h p).2 hid atHome,
    htable, hhome, hsorted⟩
  obtain ⟨hinside, houtside⟩ := Bool.and_eq_true_iff.mp hloses
  have houtside : isHomeCharge contains (location session) newHome = false := (Bool.not_eq_true' _).mp houtside
  have hplans := fun p => (mem_plansAt_freeze hprefs h p).1 (mem_sessionsLosingHome hsession hold hloses)
  rw [hold, hinside, houtside]
  refine ⟨hplans, applyRates_congr hplans ?_ ?_⟩
  · rw [RateConfig.load, RateConfig.load, hother Rates.defaultRate (by decide)]
  · rw [RateConfig.load, RateConfig.load, hother Rates.currency (by decide)]

end Prices

/-! ### A charge at home -/

/-- Whole numbers as prices and as numbers. -/
def wholeNumbers : NumberReading ℕ ℕ := ⟨wholePrices, fun n => some n⟩

/-- One charge, with a plan of Home. -/
def oneCharge : ChargeStore Unit ℕ Unit where
  table := ⟨[⟨1000, some "charging".toList, some 7, none, ()⟩], List.pairwise_singleton _ _⟩
  tags := []
  prefs := [(tagRates, .object [(homeTag, .number 3)])]
  home := some ()

theorem sorted_oneCharge : (Json.object oneCharge.prefs).Sorted := by
  apply Json.sorted_object.mpr
  refine ⟨List.pairwise_singleton _ _, fun e he => ?_⟩
  rw [List.mem_singleton.mp he]
  apply Json.sorted_object.mpr
  refine ⟨List.pairwise_singleton _ _, fun e he => ?_⟩
  rw [List.mem_singleton.mp he]
  exact .number 3

/-- The charge frozen as "Old House". -/
def oldHouse : ChargeStore Unit ℕ Unit :=
  { oneCharge with
    tags := [(1000, "Old House".toList)]
    prefs := [(tagRates, .object [(homeTag, .number 3), ("Old House".toList, .number 3)])] }

theorem freeze_oneCharge : freezeHomeSessions wholeNumbers (fun _ _ => true) (fun _ => ()) oneCharge "Old House".toList none
    = .ok (⟨1, true⟩, oldHouse) := by
  rfl

/-- It costs as much with its label as it did at home. -/
theorem freeze_keeps_prices_oneCharge :
    (applyRates (fun p _ => p.flat) (some 2) (oldHouse.tagsOf 1000) false (RateConfig.load wholeNumbers oldHouse.prefs)).cost
      = (applyRates (fun p _ => p.flat) (some 2) (oneCharge.tagsOf 1000) true
          (RateConfig.load wholeNumbers oneCharge.prefs)).cost := by
  have hcost := congrArg Priced.cost ((freeze_keeps_prices (fun _ p _ => p.flat) (fun _ => some 2) sorted_oneCharge
    freeze_oneCharge).1 _ (List.mem_singleton_self _) () rfl rfl).2
  exact hcost

end SentryUsb.Charging
