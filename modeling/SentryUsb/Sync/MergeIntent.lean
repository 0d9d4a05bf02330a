import SentryUsb.Library.Json
import SentryUsb.Library.TransitionSystem
import SentryUsb.Sync.ScopedTagEdits

/-! # Merging local edits into a document of the Cloud

Before local edits of a charge or a drive are published, they are applied to the document the Cloud has now, which other
devices may have changed (`merge_intent.rs`). Tags are edited one by one; a cost only when the Cloud still has one that
the queue knows.

* **`mergeTags`**, **`mergeCharge`** — the local edits on a document;
* **`RemoteEdit`** — what another device does to a document;
* **`mergeCharge_apply`** — apart from the tags and the cost it edits, a merge does not mind it;
* **`mergeCharge_self`** — merged twice is merged once;
* **`merge_laws`** — these, what a merge keeps, and when a cost edit is refused. -/

namespace SentryUsb.Sync.MergeIntent

open Library

variable {N R : Type}

/-! ## Intents -/

/-- A queued edit (`mutable_intent.rs`, `Edit`); edits of the rates do not concern a charge or a drive. -/
inductive Edit (N : Type) where
  | tags (edit : TagEdit)
  | costOverride (before after : Json Text N)
  | rateConfig

/-- The queued edits of a document with their generations, and whether older ones were not recorded. -/
structure Intent (N : Type) where
  legacy : Bool
  edits : List (Int × Edit N)

/-- The tag operation of an edit. -/
def Edit.tags? : Edit N → Option TagEdit
  | .tags edit => some edit
  | _ => none

/-- The values of a cost edit. -/
def Edit.cost? : Edit N → Option (Json Text N × Json Text N)
  | .costOverride before after => some (before, after)
  | _ => none

def Intent.tagEdits (intent : Intent N) : List TagEdit := intent.edits.filterMap fun e => e.2.tags?

def Intent.costs (intent : Intent N) : List (Json Text N × Json Text N) := intent.edits.filterMap fun e => e.2.cost?

/-! ## Fields -/

def tagsKey : Text := "tags".toList

def costKey : Text := "costOverride".toList

def amountKey : Text := "amount".toList

def currencyKey : Text := "currency".toList

/-- Tags as a document has them. -/
def tagArray (tags : List Text) : Json Text N := .array (tags.map .string)

def readTag : Json Text N → Except String Text
  | .string tag => .ok tag
  | _ => .error "unreadable Cloud tag"

/-- The tags of a document (`tags`). -/
def readTags : Json Text N → Except String (List Text)
  | .array items => items.mapM readTag
  | _ => .error "unreadable Cloud tags"

def asNumber : Json Text N → Option N
  | .number n => some n
  | _ => none

def asString : Json Text N → Option Text
  | .string t => some t
  | _ => none

section Merging

-- a number of a document as a float, up to their equality, and the finite ones that are not negative
variable [DecidableEq N] [DecidableEq R] (asF64 : N → R) (isAmount : R → Bool)

/-- The amount and the currency of a cost (`cost_core`). -/
def costCore (value : Json Text N) : Except String (Option (R × Text)) :=
  if value = .null then .ok none
  else match (value.get amountKey).bind asNumber with
    | none => .error "unreadable Cloud cost"
    | some amount => match (value.get currencyKey).bind asString with
      | none => .error "unreadable Cloud cost currency"
      | some currency =>
        if isAmount (asF64 amount) then .ok (some (asF64 amount, currency)) else .error "invalid Cloud cost"

/-! ## Merging -/

/-- The local tag edits on the tags of the Cloud (`merge_tags`). -/
def mergeTags (intent : Intent N) (cloud : Json Text N) : Except String (Json Text N) :=
  if intent.legacy then .error "older queued edit needs reconciliation"
  else (readTags cloud).map fun tags => tagArray (tagSet (intent.tagEdits.foldl TagEdit.apply tags))

/-- A cost with the amount and the currency of another; its other members stay. -/
def withCore (cost desired : Json Text N) : Json Text N :=
  let value := putEntry amountKey ((desired.get amountKey).getD .null) (cost.asObject.getD [])
  .object (putEntry currencyKey ((desired.get currencyKey).getD .null) value)

/-- The cost a merge writes: none without a cost edit, and none the queue does not know is replaced. -/
def nextCost (costs : List (Json Text N × Json Text N)) (currentCost : Json Text N) :
    Except String (Option (Json Text N)) :=
  (costCore asF64 isAmount currentCost).bind fun current =>
    match costs.head?, costs.getLast? with
    | some first, some last =>
      (costCore asF64 isAmount first.1).bind fun before =>
        (costs.mapM fun c => costCore asF64 isAmount c.2).bind fun afters =>
          if current = before ∨ current ∈ afters then
            .ok (some (if last.2 = .null then .null else withCore currentCost last.2))
          else .error "charge cost changed in Cloud"
    | _, _ => .ok none

/-- The local edits on a document of the Cloud (`merge_charge`). -/
def mergeCharge (intent : Intent N) (cloud : Json Text N) : Except String (Json Text N) :=
  if intent.legacy then .error "older queued edit needs reconciliation"
  else match cloud.asObject with
    | none => .error "unreadable Cloud charge mutable"
    | some result => match getEntry tagsKey result with
      | none => .error "missing Cloud tags"
      | some currentTags =>
        (readTags currentTags).bind fun _ =>
          (nextCost asF64 isAmount intent.costs ((getEntry costKey result).getD .null)).bind fun next =>
            (if intent.tagEdits = [] then .ok result
              else (mergeTags intent currentTags).map fun tags => putEntry tagsKey tags result).map fun result =>
              .object (next.elim result fun cost => putEntry costKey cost result)

/-! ## Local edits -/

-- a float as a number of a document
variable (ofF64 : R → N)

/-- The value of a cost (`cost_value`). -/
def costValue (cost : Option (R × Text)) : Except String (Json Text N) :=
  match cost with
  | none => .ok .null
  | some (amount, currency) =>
    if isAmount amount then .ok (.object (putEntry amountKey (.number (ofF64 amount))
      (putEntry currencyKey (.string currency) [])))
    else .error "invalid cost intent"

/-- An edit of a charge on the device: its values before and after. -/
inductive LocalEdit (R : Type) where
  | tags (before after : List Text)
  | cost (before after : Option (R × Text))

/-- How an edit is queued. -/
def LocalEdit.record : LocalEdit R → Except String (Edit N)
  | .tags before after => .ok (.tags (tagEdit before after))
  | .cost before after =>
    (costValue isAmount ofF64 before).bind fun b => (costValue isAmount ofF64 after).map fun a => .costOverride b a

end Merging

/-! ## Other devices -/

/-- Fields written or removed one by one. -/
def writeFields (writes : List (Text × Option (Json Text N))) (l : List (Text × Json Text N)) : List (Text × Json Text N) :=
  writes.foldl (fun l w => Json.writeEntry w.1 w.2 l) l

/-- Changes the value under a key, if there is one. -/
def mapEntry (k : Text) (f : Json Text N → Json Text N) (l : List (Text × Json Text N)) : List (Text × Json Text N) :=
  l.map fun e => (e.1, if e.1 = k then f e.2 else e.2)

/-- An edit of another device: what it makes of the tags, the fields of the document it writes or removes, and those of the
cost. -/
structure RemoteEdit (N : Type) where
  tags : List Text → List Text
  fields : List (Text × Option (Json Text N))
  costFields : List (Text × Option (Json Text N))

def RemoteEdit.onTags (e : RemoteEdit N) (value : Json Text N) : Json Text N :=
  match readTags value with
  | .ok tags => tagArray (e.tags tags)
  | .error _ => value

def RemoteEdit.onCost (e : RemoteEdit N) (value : Json Text N) : Json Text N :=
  match value.asObject with
  | some cost => .object (writeFields e.costFields cost)
  | none => value

def RemoteEdit.onFields (e : RemoteEdit N) (l : List (Text × Json Text N)) : List (Text × Json Text N) :=
  writeFields e.fields (mapEntry costKey e.onCost (mapEntry tagsKey e.onTags l))

/-- The edit on a document; what is not there or cannot be read stays. -/
def RemoteEdit.apply (e : RemoteEdit N) (doc : Json Text N) : Json Text N :=
  match doc.asObject with
  | some l => .object (e.onFields l)
  | none => doc

/-- **Another device edits other tags and unknown fields only**: it adds and removes tags that no local edit is about, and
writes neither the tags, the cost, the amount nor the currency. -/
structure RemoteEdit.Apart (e : RemoteEdit N) (edits : List TagEdit) : Prop where
  tags : ∃ added removed : Set Text, (∀ l t, t ∈ e.tags l ↔ t ∈ added ∨ t ∈ l ∧ t ∉ removed)
    ∧ ∀ t, t ∈ added ∨ t ∈ removed → ∀ d ∈ edits, t ∉ d.added ∧ t ∉ d.removed
  fields : ∀ w ∈ e.fields, w.1 ≠ tagsKey ∧ w.1 ≠ costKey
  costFields : ∀ w ∈ e.costFields, w.1 ≠ amountKey ∧ w.1 ≠ currencyKey

/-- Two documents that are the same but for the order of their tags. -/
def SameButTagOrder (a b : Json Text N) : Prop :=
  ∃ la lb, a = .object la ∧ b = .object lb ∧ (∀ k, k ≠ tagsKey → getEntry k la = getEntry k lb)
    ∧ ∃ l l', getEntry tagsKey la = some (tagArray l) ∧ getEntry tagsKey lb = some (tagArray l') ∧ ∀ t, t ∈ l ↔ t ∈ l'

/-! ## Tags -/

section Tags

variable {edits : List TagEdit} {t : Text} {l l' : List Text}

/-- A tag no edit is about stays as it was. -/
theorem mem_foldl_of_untouched (h : ∀ d ∈ edits, t ∉ d.added ∧ t ∉ d.removed) :
    t ∈ edits.foldl TagEdit.apply l ↔ t ∈ l := by
  induction edits generalizing l with
  | nil => exact Iff.rfl
  | cons d edits ih =>
    obtain ⟨hadded, hremoved⟩ := h d List.mem_cons_self
    rw [List.foldl_cons, ih fun d' hd' => h d' (List.mem_cons_of_mem d hd')]
    simp [TagEdit.apply, hadded, hremoved]

/-- Edits act on each tag by itself. -/
theorem mem_foldl_congr (h : t ∈ l ↔ t ∈ l') :
    t ∈ edits.foldl TagEdit.apply l ↔ t ∈ edits.foldl TagEdit.apply l' := by
  induction edits generalizing l l' with
  | nil => exact h
  | cons d edits ih =>
    rw [List.foldl_cons, List.foldl_cons]
    apply ih
    simp [TagEdit.apply, h]

/-- **A chain decides a tag or leaves it**: the last edit about it says whether it is there. -/
theorem mem_foldl_cases (edits : List TagEdit) (t : Text) :
    (∀ l, t ∈ edits.foldl TagEdit.apply l ↔ t ∈ l) ∨ ∃ there : Prop, ∀ l, t ∈ edits.foldl TagEdit.apply l ↔ there := by
  induction edits with
  | nil => exact .inl fun _ => Iff.rfl
  | cons d edits ih =>
    rcases ih with hleft | ⟨there, hdecided⟩
    · by_cases hadded : t ∈ d.added
      · refine .inr ⟨True, fun l => ?_⟩
        rw [List.foldl_cons, hleft]
        simp [TagEdit.apply, hadded]
      · by_cases hremoved : t ∈ d.removed
        · refine .inr ⟨False, fun l => ?_⟩
          rw [List.foldl_cons, hleft]
          simp [TagEdit.apply, hadded, hremoved]
        · refine .inl fun l => ?_
          rw [List.foldl_cons, hleft]
          simp [TagEdit.apply, hadded, hremoved]
    · exact .inr ⟨there, fun l => by rw [List.foldl_cons, hdecided]⟩

theorem mem_foldl_foldl :
    t ∈ edits.foldl TagEdit.apply (tagSet (edits.foldl TagEdit.apply l)) ↔ t ∈ edits.foldl TagEdit.apply l := by
  rcases mem_foldl_cases edits t with hleft | ⟨there, hdecided⟩
  · rw [hleft, mem_tagSet]
  · rw [hdecided, hdecided]

/-- **Edits of other tags commute with a chain.** -/
theorem RemoteEdit.Apart.mem_tags {e : RemoteEdit N} (h : e.Apart edits) :
    t ∈ edits.foldl TagEdit.apply (e.tags l) ↔ t ∈ e.tags (tagSet (edits.foldl TagEdit.apply l)) := by
  obtain ⟨added, removed, hmem, hother⟩ := h.tags
  rw [hmem, mem_tagSet]
  by_cases hremote : t ∈ added ∨ t ∈ removed
  · rw [mem_foldl_of_untouched (hother t hremote), mem_foldl_of_untouched (hother t hremote), hmem]
  · obtain ⟨hadded, hremoved⟩ := not_or.mp hremote
    have hsame : t ∈ e.tags l ↔ t ∈ l := by simp [hmem, hadded, hremoved]
    rw [mem_foldl_congr hsame]
    simp [hadded, hremoved]

end Tags

@[simp] theorem readTags_tagArray (tags : List Text) : readTags (tagArray tags : Json Text N) = .ok tags := by
  rw [tagArray, readTags]
  induction tags with
  | nil => rfl
  | cons t tags ih =>
    rw [List.map_cons, List.mapM_cons, ih]
    rfl

/-- What is read as tags is an array of them. -/
theorem eq_tagArray {value : Json Text N} {tags : List Text} (h : readTags value = .ok tags) : value = tagArray tags := by
  cases value with
  | array items =>
    rw [readTags] at h
    rw [tagArray]
    congr 1
    induction items generalizing tags with
    | nil =>
      obtain rfl := Except.ok.inj h
      rfl
    | cons item items ih =>
      cases item with
      | string tag =>
        rw [List.mapM_cons] at h
        cases hrest : items.mapM readTag with
        | error err =>
          rw [hrest] at h
          exact nomatch h
        | ok rest =>
          rw [hrest] at h
          obtain rfl := Except.ok.inj h
          rw [List.map_cons, ← ih hrest]
      | _ => exact nomatch h
  | _ => exact nomatch h

/-! ## Fields -/

section Fields

variable {k k' : Text} {l l' : List (Text × Json Text N)}

theorem getEntry_mapEntry (f : Json Text N → Json Text N) :
    getEntry k' (mapEntry k f l) = if k' = k then (getEntry k l).map f else getEntry k' l := by
  induction l with
  | nil => simp [mapEntry]
  | cons e l ih =>
    rw [mapEntry] at ih
    rw [mapEntry, List.map_cons, getEntry, getEntry, getEntry, ih]
    by_cases hk : k' = k
    · subst hk
      by_cases he : e.1 = k'
      · simp [he]
      · simp [he]
    · by_cases he : e.1 = k'
      · simp [hk, he]
      · simp [hk, he]

theorem pairwise_mapEntry (f : Json Text N → Json Text N) (h : l.Pairwise fun a b => a.1 < b.1) :
    (mapEntry k f l).Pairwise fun a b => a.1 < b.1 := List.pairwise_map.mpr h

/-- Other fields than those written stay. -/
theorem getEntry_writeFields {writes : List (Text × Option (Json Text N))} (h : ∀ w ∈ writes, w.1 ≠ k) :
    getEntry k (writeFields writes l) = getEntry k l := by
  induction writes generalizing l with
  | nil => rfl
  | cons w writes ih =>
    simp only [writeFields, List.foldl_cons] at ih ⊢
    rw [ih fun w' hw' => h w' (List.mem_cons_of_mem w hw'), Json.getEntry_writeEntry,
      if_neg (Ne.symm (h w List.mem_cons_self))]

/-- What writes make of a field depends on that field alone. -/
theorem getEntry_writeFields_congr {writes : List (Text × Option (Json Text N))} (h : getEntry k l = getEntry k l') :
    getEntry k (writeFields writes l) = getEntry k (writeFields writes l') := by
  induction writes generalizing l l' with
  | nil => exact h
  | cons w writes ih =>
    simp only [writeFields, List.foldl_cons]
    apply ih
    rw [Json.getEntry_writeEntry, Json.getEntry_writeEntry, h]

theorem pairwise_writeFields (writes : List (Text × Option (Json Text N))) (h : l.Pairwise fun a b => a.1 < b.1) :
    (writeFields writes l).Pairwise fun a b => a.1 < b.1 := by
  induction writes generalizing l with
  | nil => exact h
  | cons w writes ih =>
    rw [writeFields, List.foldl_cons]
    apply ih
    obtain ⟨key, value⟩ := w
    cases value with
    | none => exact h.filter _
    | some value => exact sorted_putEntry h

/-- **Writes of other fields commute** with one that is made under a key. -/
theorem writeFields_putEntry {writes : List (Text × Option (Json Text N))} (h : ∀ w ∈ writes, w.1 ≠ k) (v : Json Text N)
    (hl : l.Pairwise fun a b => a.1 < b.1) : writeFields writes (putEntry k v l) = putEntry k v (writeFields writes l) := by
  apply entries_ext (pairwise_writeFields writes (sorted_putEntry hl)) (sorted_putEntry (pairwise_writeFields writes hl))
  intro j
  rw [getEntry_putEntry]
  by_cases hj : j = k
  · rw [if_pos hj, hj, getEntry_writeFields h, getEntry_putEntry, if_pos rfl]
  · rw [if_neg hj]
    exact getEntry_writeFields_congr (by rw [getEntry_putEntry, if_neg hj])

/-- Writing what is there changes nothing. -/
theorem putEntry_of_getEntry {v : Json Text N} (hl : l.Pairwise fun a b => a.1 < b.1) (h : getEntry k l = some v) :
    putEntry k v l = l := by
  apply entries_ext (sorted_putEntry hl) hl
  intro j
  rw [getEntry_putEntry]
  by_cases hj : j = k
  · rw [if_pos hj, hj, h]
  · rw [if_neg hj]

end Fields

/-! ## Remote edits -/

section Remote

variable {e : RemoteEdit N} {edits : List TagEdit} {l c : List (Text × Json Text N)}

theorem onTags_tagArray (e : RemoteEdit N) (tags : List Text) : e.onTags (tagArray tags) = tagArray (e.tags tags) := by
  rw [RemoteEdit.onTags, readTags_tagArray]

theorem onTags_of_error {value : Json Text N} {err : String} (h : readTags value = .error err) :
    e.onTags value = value := by
  rw [RemoteEdit.onTags, h]

theorem onCost_object (e : RemoteEdit N) (c : List (Text × Json Text N)) :
    e.onCost (.object c) = .object (writeFields e.costFields c) := rfl

theorem onCost_of_nil (h : e.costFields = []) (value : Json Text N) : e.onCost value = value := by
  cases value with
  | object c => rw [onCost_object, h, writeFields, List.foldl_nil]
  | _ => rfl

theorem apply_object (e : RemoteEdit N) (l : List (Text × Json Text N)) : e.apply (.object l) = .object (e.onFields l) := rfl

theorem tagsKey_ne_costKey : tagsKey ≠ costKey := by decide

theorem amountKey_ne_currencyKey : amountKey ≠ currencyKey := by decide

theorem RemoteEdit.Apart.getEntry_tags (h : e.Apart edits) :
    getEntry tagsKey (e.onFields l) = (getEntry tagsKey l).map e.onTags := by
  rw [RemoteEdit.onFields, getEntry_writeFields fun w hw => (h.fields w hw).1, getEntry_mapEntry, if_neg tagsKey_ne_costKey, getEntry_mapEntry,
    if_pos rfl]

theorem RemoteEdit.Apart.getEntry_cost (h : e.Apart edits) :
    getEntry costKey (e.onFields l) = (getEntry costKey l).map e.onCost := by
  rw [RemoteEdit.onFields, getEntry_writeFields fun w hw => (h.fields w hw).2, getEntry_mapEntry, if_pos rfl, getEntry_mapEntry,
    if_neg tagsKey_ne_costKey.symm]

/-- What a remote edit does to another field depends on that field alone. -/
theorem getEntry_onFields_congr {l' : List (Text × Json Text N)} {k : Text} (htags : k ≠ tagsKey) (hcost : k ≠ costKey)
    (h : getEntry k l = getEntry k l') : getEntry k (e.onFields l) = getEntry k (e.onFields l') := by
  apply getEntry_writeFields_congr
  rw [getEntry_mapEntry, if_neg hcost, getEntry_mapEntry, if_neg htags, getEntry_mapEntry, if_neg hcost, getEntry_mapEntry,
    if_neg htags, h]

/-- It commutes with writing another amount and currency. -/
theorem RemoteEdit.Apart.withCore_onCost (h : e.Apart edits) {c : List (Text × Json Text N)}
    (hc : c.Pairwise fun a b => a.1 < b.1) (desired : Json Text N) :
    withCore (e.onCost (.object c)) desired = e.onCost (withCore (.object c) desired) := by
  simp only [withCore, onCost_object, Json.asObject_object, Option.getD_some]
  rw [writeFields_putEntry (fun w hw => (h.costFields w hw).2) _ (sorted_putEntry hc),
    writeFields_putEntry (fun w hw => (h.costFields w hw).1) _ hc]

theorem pairwise_onFields (e : RemoteEdit N) (h : l.Pairwise fun a b => a.1 < b.1) :
    (e.onFields l).Pairwise fun a b => a.1 < b.1 :=
  pairwise_writeFields e.fields (pairwise_mapEntry e.onCost (pairwise_mapEntry e.onTags h))

theorem RemoteEdit.Apart.mem_tags_congr (h : e.Apart edits) {tags tags' : List Text}
    (hsame : ∀ t, t ∈ tags ↔ t ∈ tags') (t : Text) : t ∈ e.tags tags ↔ t ∈ e.tags tags' := by
  obtain ⟨added, removed, hmem, -⟩ := h.tags
  rw [hmem, hmem, hsame]

end Remote

/-! ## Documents -/

section Documents

variable {intent : Intent N}

/-- A document with the local tag edits. -/
def tagged (intent : Intent N) (tags : List Text) (l : List (Text × Json Text N)) : List (Text × Json Text N) :=
  if intent.tagEdits = [] then l
  else putEntry tagsKey (tagArray (tagSet (intent.tagEdits.foldl TagEdit.apply tags))) l

theorem getEntry_tagged {tags : List Text} {l : List (Text × Json Text N)} {k : Text} (h : k ≠ tagsKey) :
    getEntry k (tagged intent tags l) = getEntry k l := by
  rw [tagged]
  by_cases hnone : intent.tagEdits = []
  · rw [if_pos hnone]
  · rw [if_neg hnone, getEntry_putEntry, if_neg h]

theorem pairwise_tagged (tags : List Text) {l : List (Text × Json Text N)} (h : l.Pairwise fun a b => a.1 < b.1) :
    (tagged intent tags l).Pairwise fun a b => a.1 < b.1 := by
  rw [tagged]
  by_cases hnone : intent.tagEdits = []
  · rw [if_pos hnone]
    exact h
  · rw [if_neg hnone]
    exact sorted_putEntry h

/-- The tags of a document with the local tag edits. -/
theorem getEntry_tagged_tags (intent : Intent N) {tags : List Text} {l : List (Text × Json Text N)}
    (h : getEntry tagsKey l = some (tagArray tags)) :
    ∃ merged, getEntry tagsKey (tagged intent tags l) = some (tagArray merged)
      ∧ (∀ t, t ∈ merged ↔ t ∈ intent.tagEdits.foldl TagEdit.apply tags)
      ∧ (merged = tagSet merged ∨ intent.tagEdits = [] ∧ merged = tags) := by
  rw [tagged]
  by_cases hnone : intent.tagEdits = []
  · rw [if_pos hnone]
    exact ⟨tags, h, fun t => by rw [hnone, List.foldl_nil], .inr ⟨hnone, rfl⟩⟩
  · rw [if_neg hnone, getEntry_putEntry, if_pos rfl]
    exact ⟨_, rfl, fun t => mem_tagSet, .inl (tagSet_tagSet _).symm⟩

/-- A document with the local tag edits and the cost a merge writes. -/
def merged (intent : Intent N) (tags : List Text) (next : Option (Json Text N)) (l : List (Text × Json Text N)) :
    List (Text × Json Text N) :=
  next.elim (tagged intent tags l) fun cost => putEntry costKey cost (tagged intent tags l)

theorem getEntry_merged_cost {tags : List Text} {next : Option (Json Text N)} {l : List (Text × Json Text N)} :
    getEntry costKey (merged intent tags next l) = next.or (getEntry costKey l) := by
  rw [merged]
  cases next with
  | none => rw [Option.elim_none, getEntry_tagged tagsKey_ne_costKey.symm, Option.none_or]
  | some cost => rw [Option.elim_some, getEntry_putEntry, if_pos rfl, Option.some_or]

theorem getEntry_merged {tags : List Text} {next : Option (Json Text N)} {l : List (Text × Json Text N)} {k : Text}
    (hk : k ≠ costKey) : getEntry k (merged intent tags next l) = getEntry k (tagged intent tags l) := by
  rw [merged]
  cases next with
  | none => rw [Option.elim_none]
  | some cost => rw [Option.elim_some, getEntry_putEntry, if_neg hk]

theorem pairwise_merged (intent : Intent N) (tags : List Text) (next : Option (Json Text N)) {l : List (Text × Json Text N)}
    (h : l.Pairwise fun a b => a.1 < b.1) : (merged intent tags next l).Pairwise fun a b => a.1 < b.1 := by
  cases next with
  | none => exact pairwise_tagged tags h
  | some cost => exact sorted_putEntry (pairwise_tagged tags h)

/-- **A merged document after a remote edit** is the remote edit of the merged document, but for the order of the tags. -/
theorem RemoteEdit.Apart.merged_onFields {e : RemoteEdit N} (h : e.Apart intent.tagEdits) {tags : List Text}
    (next : Option (Json Text N)) {l : List (Text × Json Text N)} (hl : l.Pairwise fun a b => a.1 < b.1)
    (htags : getEntry tagsKey l = some (tagArray tags)) :
    SameButTagOrder (.object (merged intent (e.tags tags) (next.map e.onCost) (e.onFields l)))
        (.object (e.onFields (merged intent tags next l)))
      ∧ ((∀ tags, tagSet (e.tags tags) = e.tags tags) →
        merged intent (e.tags tags) (next.map e.onCost) (e.onFields l) = e.onFields (merged intent tags next l)) := by
  have htags' := h.getEntry_tags (l := l)
  rw [htags, Option.map_some, onTags_tagArray] at htags'
  obtain ⟨ours, hours, hmem, hcanonical⟩ := getEntry_tagged_tags intent htags
  obtain ⟨theirs, htheirs, hmem', hcanonical'⟩ := getEntry_tagged_tags intent htags'
  have hother : ∀ k, k ≠ tagsKey → getEntry k (merged intent (e.tags tags) (next.map e.onCost) (e.onFields l))
      = getEntry k (e.onFields (merged intent tags next l)) := by
    intro k hk
    by_cases hcost : k = costKey
    · subst hcost
      rw [getEntry_merged_cost, h.getEntry_cost, h.getEntry_cost, getEntry_merged_cost, Option.map_or]
    · rw [getEntry_merged hcost, getEntry_tagged hk]
      exact getEntry_onFields_congr hk hcost (by rw [getEntry_merged hcost, getEntry_tagged hk])
  have hleft : getEntry tagsKey (merged intent (e.tags tags) (next.map e.onCost) (e.onFields l)) = some (tagArray theirs) := by
    rw [getEntry_merged tagsKey_ne_costKey, htheirs]
  have hright : getEntry tagsKey (e.onFields (merged intent tags next l)) = some (tagArray (e.tags ours)) := by
    rw [h.getEntry_tags, getEntry_merged tagsKey_ne_costKey, hours, Option.map_some, onTags_tagArray]
  have hsame : ∀ t, t ∈ theirs ↔ t ∈ e.tags ours := by
    intro t
    rw [hmem' t, h.mem_tags]
    exact h.mem_tags_congr (fun t => by rw [mem_tagSet, hmem t]) t
  refine ⟨⟨_, _, rfl, rfl, hother, theirs, e.tags ours, hleft, hright, hsame⟩, fun hset => ?_⟩
  have htheirs : theirs = tagSet theirs := by
    rcases hcanonical' with hcanonical | ⟨-, rfl⟩
    · exact hcanonical
    · exact (hset tags).symm
  apply entries_ext (pairwise_merged _ _ _ (pairwise_onFields e hl)) (pairwise_onFields e (pairwise_merged _ _ _ hl))
  intro k
  by_cases hk : k = tagsKey
  · rw [hk, hleft, hright, htheirs, tagSet_congr hsame, hset]
  · exact hother k hk

end Documents

/-! ## Costs -/

section Costs

variable [DecidableEq N] [DecidableEq R] {asF64 : N → R} {isAmount : R → Bool} {e : RemoteEdit N} {edits : List TagEdit}
  {costs : List (Json Text N × Json Text N)} {value : Json Text N}

omit [DecidableEq R] in
/-- A remote edit of a cost's other members does not change the cost. -/
theorem RemoteEdit.Apart.costCore_onCost (h : e.Apart edits) (value : Json Text N) :
    costCore asF64 isAmount (e.onCost value) = costCore asF64 isAmount value := by
  cases value with
  | object c =>
    have hamount : getEntry amountKey (writeFields e.costFields c) = getEntry amountKey c :=
      getEntry_writeFields fun w hw => (h.costFields w hw).1
    have hcurrency : getEntry currencyKey (writeFields e.costFields c) = getEntry currencyKey c :=
      getEntry_writeFields fun w hw => (h.costFields w hw).2
    simp only [onCost_object, costCore, reduceCtorEq, if_false, Json.get_object, hamount, hcurrency]
  | _ => rfl

/-- **The cost a merge writes** over a remote edit is what the remote edit makes of it. -/
theorem RemoteEdit.Apart.nextCost_onCost (h : e.Apart edits)
    (hcost : e.costFields = [] ∨ ∃ c, value = .object c ∧ c.Pairwise fun a b => a.1 < b.1) :
    nextCost asF64 isAmount costs (e.onCost value) = (nextCost asF64 isAmount costs value).map (Option.map e.onCost) := by
  rcases hcost with hnil | ⟨c, rfl, hc⟩
  · have hid : e.onCost = id := funext (onCost_of_nil hnil)
    rw [hid, Option.map_id, id_eq]
    cases nextCost asF64 isAmount costs value <;> rfl
  · rw [nextCost, nextCost, h.costCore_onCost]
    cases costCore asF64 isAmount (.object c) with
    | error err => rfl
    | ok current =>
      cases hfirst : costs.head? with
      | none => rfl
      | some first =>
        cases hlast : costs.getLast? with
        | none => rfl
        | some last =>
          simp only [Except.bind]
          cases costCore asF64 isAmount first.1 with
          | error err => rfl
          | ok before =>
            dsimp only
            cases costs.mapM fun c => costCore asF64 isAmount c.2 with
            | error err => rfl
            | ok afters =>
              dsimp only
              by_cases hknown : current = before ∨ current ∈ afters
              · rw [if_pos hknown, if_pos hknown]
                by_cases hnull : last.2 = .null
                · rw [if_pos hnull, if_pos hnull]
                  rfl
                · rw [if_neg hnull, if_neg hnull, h.withCore_onCost hc]
                  rfl
              · rw [if_neg hknown, if_neg hknown]
                rfl

end Costs

/-! ## Merges -/

section Merges

variable [DecidableEq N] [DecidableEq R] {asF64 : N → R} {isAmount : R → Bool} {intent : Intent N}

/-- **A merge of a document with tags**: its tags with the edits, and the cost. -/
theorem mergeCharge_object (hlegacy : intent.legacy = false) {l : List (Text × Json Text N)} {tags : List Text}
    (htags : getEntry tagsKey l = some (tagArray tags)) :
    mergeCharge asF64 isAmount intent (.object l)
      = (nextCost asF64 isAmount intent.costs ((getEntry costKey l).getD .null)).map fun next =>
          .object (merged intent tags next l) := by
  simp only [mergeCharge, hlegacy, Bool.false_eq_true, if_false, Json.asObject_object, htags, readTags_tagArray]
  simp only [Except.bind]
  cases nextCost asF64 isAmount intent.costs ((getEntry costKey l).getD .null) with
  | error err => rfl
  | ok next =>
    by_cases hnone : intent.tagEdits = []
    · simp only [merged, tagged, if_pos hnone]
      rfl
    · simp only [merged, tagged, if_neg hnone, mergeTags, hlegacy, Bool.false_eq_true, if_false, readTags_tagArray]
      rfl

/-- What a merge that succeeds has read and written. -/
theorem mergeCharge_eq_ok {cloud d : Json Text N} (h : mergeCharge asF64 isAmount intent cloud = .ok d) :
    intent.legacy = false ∧ ∃ l tags next, cloud = .object l ∧ getEntry tagsKey l = some (tagArray tags)
      ∧ nextCost asF64 isAmount intent.costs ((getEntry costKey l).getD .null) = .ok next
      ∧ d = .object (merged intent tags next l) := by
  cases hlegacy : intent.legacy with
  | true =>
    rw [mergeCharge, hlegacy, if_pos rfl] at h
    exact nomatch h
  | false =>
    refine ⟨rfl, ?_⟩
    cases cloud with
    | object l =>
      cases hget : getEntry tagsKey l with
      | none =>
        simp only [mergeCharge, hlegacy, Bool.false_eq_true, if_false, Json.asObject_object, hget, reduceCtorEq] at h
      | some value =>
        cases hread : readTags value with
        | error err =>
          simp only [mergeCharge, hlegacy, Bool.false_eq_true, if_false, Json.asObject_object, hget, hread] at h
          exact nomatch h
        | ok tags =>
          obtain rfl := eq_tagArray hread
          rw [mergeCharge_object hlegacy hget] at h
          cases hnext : nextCost asF64 isAmount intent.costs ((getEntry costKey l).getD .null) with
          | error err =>
            rw [hnext] at h
            exact nomatch h
          | ok next =>
            rw [hnext] at h
            exact ⟨l, tags, next, rfl, hget, hnext, (Except.ok.inj h).symm⟩
    | _ =>
      rw [mergeCharge, hlegacy, if_neg Bool.false_ne_true] at h
      exact nomatch h

/-- The cost of a document is no cost, or an object in key order where a remote edit writes into it. -/
def CostReady (e : RemoteEdit N) (doc : Json Text N) : Prop :=
  e.costFields = [] ∨ ∃ c, doc.get costKey = some (.object c)

/-- **A merge after a remote edit** reads what the merge reads. -/
theorem RemoteEdit.Apart.mergeCharge_onFields {e : RemoteEdit N} (h : e.Apart intent.tagEdits)
    (hlegacy : intent.legacy = false) {l : List (Text × Json Text N)} (hdoc : (Json.object l).Sorted)
    (hcost : CostReady e (.object l)) {tags : List Text} (htags : getEntry tagsKey l = some (tagArray tags)) :
    mergeCharge asF64 isAmount intent (e.apply (.object l))
      = (nextCost asF64 isAmount intent.costs ((getEntry costKey l).getD .null)).map fun next =>
          .object (merged intent (e.tags tags) (next.map e.onCost) (e.onFields l)) := by
  have htags' := h.getEntry_tags (l := l)
  rw [htags, Option.map_some, onTags_tagArray] at htags'
  have hread : ((getEntry costKey l).map e.onCost).getD .null = e.onCost ((getEntry costKey l).getD .null) := by
    cases getEntry costKey l <;> rfl
  have hobject : e.costFields = []
      ∨ ∃ c, (getEntry costKey l).getD .null = .object c ∧ c.Pairwise fun a b => a.1 < b.1 := by
    rcases hcost with hnil | ⟨c, hc⟩
    · exact .inl hnil
    · rw [Json.get_object] at hc
      refine .inr ⟨c, by rw [hc, Option.getD_some], ?_⟩
      exact (Json.sorted_object.mp ((Json.sorted_object.mp hdoc).2 (costKey, .object c) (mem_of_getEntry hc))).1
  rw [apply_object, mergeCharge_object hlegacy htags', h.getEntry_cost, hread, h.nextCost_onCost hobject]
  cases nextCost asF64 isAmount intent.costs ((getEntry costKey l).getD .null) <;> rfl

/-- **A merge after a remote edit** succeeds where the merge does, and shows the remote edit of what it shows. -/
theorem RemoteEdit.Apart.mergeCharge_apply {e : RemoteEdit N} (h : e.Apart intent.tagEdits) {doc d : Json Text N}
    (hdoc : doc.Sorted) (hcost : CostReady e doc) (hmerge : mergeCharge asF64 isAmount intent doc = .ok d) :
    ∃ d', mergeCharge asF64 isAmount intent (e.apply doc) = .ok d' ∧ SameButTagOrder d' (e.apply d)
      ∧ ((∀ tags, tagSet (e.tags tags) = e.tags tags) → d' = e.apply d) := by
  obtain ⟨hlegacy, l, tags, next, rfl, htags, hnext, rfl⟩ := mergeCharge_eq_ok hmerge
  obtain ⟨hsame, hequal⟩ := h.merged_onFields next (Json.sorted_object.mp hdoc).1 htags
  refine ⟨_, ?_, hsame, fun hset => congrArg Json.object (hequal hset)⟩
  rw [h.mergeCharge_onFields hlegacy hdoc hcost htags, hnext]
  rfl

/-- **A merge that is refused** is refused after a remote edit for the same reason. -/
theorem RemoteEdit.Apart.mergeCharge_error {e : RemoteEdit N} (h : e.Apart intent.tagEdits) {doc : Json Text N}
    (hdoc : doc.Sorted) (hcost : CostReady e doc) {err : String}
    (hmerge : mergeCharge asF64 isAmount intent doc = .error err) :
    mergeCharge asF64 isAmount intent (e.apply doc) = .error err := by
  cases hlegacy : intent.legacy with
  | true =>
    rw [mergeCharge, hlegacy, if_pos rfl] at hmerge ⊢
    exact hmerge
  | false =>
    cases doc with
    | object l =>
      have htags' := h.getEntry_tags (l := l)
      cases hget : getEntry tagsKey l with
      | none =>
        rw [hget, Option.map_none] at htags'
        rw [apply_object]
        simp only [mergeCharge, hlegacy, Bool.false_eq_true, if_false, Json.asObject_object, hget, htags'] at hmerge ⊢
        exact hmerge
      | some value =>
        cases hread : readTags value with
        | error err' =>
          rw [hget, Option.map_some, onTags_of_error hread] at htags'
          rw [apply_object]
          simp only [mergeCharge, hlegacy, Bool.false_eq_true, if_false, Json.asObject_object, hget, htags',
            hread] at hmerge ⊢
          exact hmerge
        | ok tags =>
          obtain rfl := eq_tagArray hread
          rw [mergeCharge_object hlegacy hget] at hmerge
          rw [h.mergeCharge_onFields hlegacy hdoc hcost hget]
          cases hnext : nextCost asF64 isAmount intent.costs ((getEntry costKey l).getD .null) with
          | error err' =>
            rw [hnext] at hmerge
            exact hmerge
          | ok next =>
            rw [hnext] at hmerge
            exact nomatch hmerge
    | _ => exact hmerge

/-! ### Merging twice -/

omit [DecidableEq R] in
/-- A cost with the amount and currency of another has its core. -/
theorem costCore_withCore (value : Json Text N) {desired : Json Text N} (hnull : desired ≠ .null) :
    costCore asF64 isAmount (withCore value desired) = costCore asF64 isAmount desired := by
  have hamount : (withCore value desired).get amountKey = some ((desired.get amountKey).getD .null) := by
    rw [withCore, Json.get_object, getEntry_putEntry, if_neg amountKey_ne_currencyKey, getEntry_putEntry, if_pos rfl]
  have hcurrency : (withCore value desired).get currencyKey = some ((desired.get currencyKey).getD .null) := by
    rw [withCore, Json.get_object, getEntry_putEntry, if_pos rfl]
  have hobject : withCore value desired ≠ .null := fun heq => nomatch heq
  have hnumber : asNumber ((desired.get amountKey).getD .null) = (desired.get amountKey).bind asNumber := by
    cases desired.get amountKey <;> rfl
  have hstring : asString ((desired.get currencyKey).getD .null) = (desired.get currencyKey).bind asString := by
    cases desired.get currencyKey <;> rfl
  rw [costCore, if_neg hobject, hamount, hcurrency, Option.bind_some, Option.bind_some, hnumber, hstring, costCore,
    if_neg hnull]

omit [DecidableEq N] in
/-- Writing an amount and a currency twice. -/
theorem withCore_withCore {c : List (Text × Json Text N)} (hc : c.Pairwise fun a b => a.1 < b.1) (value desired : Json Text N)
    (h : value.asObject.getD [] = c) : withCore (withCore value desired) desired = withCore value desired := by
  rw [withCore, withCore, h, Json.asObject_object, Option.getD_some]
  congr 1
  have hordered := sorted_putEntry (k := currencyKey) (v := (desired.get currencyKey).getD .null)
    (sorted_putEntry (k := amountKey) (v := (desired.get amountKey).getD .null) hc)
  rw [putEntry_of_getEntry (k := amountKey) hordered, putEntry_of_getEntry (k := currencyKey) hordered]
  · rw [getEntry_putEntry, if_pos rfl]
  · rw [getEntry_putEntry, if_neg amountKey_ne_currencyKey, getEntry_putEntry, if_pos rfl]

/-- What `nextCost` has compared when it writes a cost. -/
theorem nextCost_eq_some {costs : List (Json Text N × Json Text N)} {value next : Json Text N}
    (h : nextCost asF64 isAmount costs value = .ok (some next)) :
    ∃ first last current before afters, costs.head? = some first ∧ costs.getLast? = some last
      ∧ costCore asF64 isAmount value = .ok current ∧ costCore asF64 isAmount first.1 = .ok before
      ∧ (costs.mapM fun c => costCore asF64 isAmount c.2) = .ok afters ∧ (current = before ∨ current ∈ afters)
      ∧ next = if last.2 = .null then .null else withCore value last.2 := by
  obtain ⟨current, hcurrent, h⟩ := bind_eq_ok.mp h
  cases hfirst : costs.head? with
  | none =>
    rw [hfirst] at h
    exact nomatch h
  | some first =>
    cases hlast : costs.getLast? with
    | none =>
      rw [hfirst, hlast] at h
      exact nomatch h
    | some last =>
      rw [hfirst, hlast] at h
      obtain ⟨before, hbefore, h⟩ := bind_eq_ok.mp h
      obtain ⟨afters, hafters, h⟩ := bind_eq_ok.mp h
      by_cases hknown : current = before ∨ current ∈ afters
      · rw [if_pos hknown] at h
        exact ⟨first, last, current, before, afters, rfl, rfl, hcurrent, hbefore, hafters, hknown,
          (Option.some.inj (Except.ok.inj h)).symm⟩
      · rw [if_neg hknown] at h
        exact nomatch h

/-- **A cost that was written is written again**: the Cloud has a cost the queue knows. -/
theorem nextCost_self {costs : List (Json Text N × Json Text N)} {value next : Json Text N} {c : List (Text × Json Text N)}
    (hc : c.Pairwise fun a b => a.1 < b.1) (hvalue : value.asObject.getD [] = c)
    (h : nextCost asF64 isAmount costs value = .ok (some next)) : nextCost asF64 isAmount costs next = .ok (some next) := by
  obtain ⟨first, last, current, before, afters, hfirst, hlast, -, hbefore, hafters, -, rfl⟩ := nextCost_eq_some h
  obtain ⟨core, hcore, hlastCore⟩ : ∃ core ∈ afters, costCore asF64 isAmount last.2 = .ok core := by
    have hall := mapM_eq_ok.mp hafters
    obtain ⟨i, hi, hget⟩ := List.mem_iff_getElem.mp (List.mem_of_getLast? hlast)
    have hlen := hall.length_eq
    refine ⟨afters[i], List.getElem_mem _, ?_⟩
    rw [← hget]
    exact hall.get hi (by omega)
  have hnextCore : costCore asF64 isAmount (if last.2 = .null then .null else withCore value last.2) = .ok core := by
    by_cases hnull : last.2 = .null
    · rw [if_pos hnull, ← hnull]
      exact hlastCore
    · rw [if_neg hnull, costCore_withCore value hnull]
      exact hlastCore
  rw [nextCost, hnextCore]
  simp only [hfirst, hlast]
  rw [hbefore, hafters]
  simp only [Except.bind]
  rw [if_pos (.inr hcore)]
  by_cases hnull : last.2 = .null
  · rw [if_pos hnull, if_pos hnull]
  · rw [if_neg hnull, if_neg hnull, withCore_withCore hc value last.2 hvalue]

omit [DecidableEq N] in
/-- The entries of a sorted document's cost stand in key order. -/
theorem pairwise_cost {l : List (Text × Json Text N)} (h : (Json.object l).Sorted) :
    (((getEntry costKey l).getD .null).asObject.getD []).Pairwise fun a b => a.1 < b.1 := by
  cases hget : getEntry costKey l with
  | none => exact List.Pairwise.nil
  | some value =>
    have hvalue := (Json.sorted_object.mp h).2 _ (mem_of_getEntry hget)
    cases value with
    | object c => exact (Json.sorted_object.mp hvalue).1
    | _ => exact List.Pairwise.nil

/-- **Merged twice is merged once.** -/
theorem mergeCharge_self {doc d : Json Text N} (hdoc : doc.Sorted) (h : mergeCharge asF64 isAmount intent doc = .ok d) :
    mergeCharge asF64 isAmount intent d = .ok d := by
  obtain ⟨hlegacy, l, tags, next, rfl, htags, hnext, rfl⟩ := mergeCharge_eq_ok h
  have hordered := pairwise_merged intent tags next (Json.sorted_object.mp hdoc).1
  obtain ⟨ours, hours, hmem, hcanonical⟩ := getEntry_tagged_tags intent htags
  have htags' : getEntry tagsKey (merged intent tags next l) = some (tagArray ours) := by
    rw [getEntry_merged tagsKey_ne_costKey, hours]
  have hnext' : nextCost asF64 isAmount intent.costs ((next.or (getEntry costKey l)).getD .null) = .ok next := by
    cases next with
    | none => exact hnext
    | some cost => exact nextCost_self (pairwise_cost hdoc) rfl hnext
  rw [mergeCharge_object hlegacy htags', getEntry_merged_cost, hnext']
  -- the tags and the cost are there already
  have htagged : tagged intent ours (merged intent tags next l) = merged intent tags next l := by
    rw [tagged]
    by_cases hnone : intent.tagEdits = []
    · rw [if_pos hnone]
    · rw [if_neg hnone]
      apply putEntry_of_getEntry hordered
      have hset : ours = tagSet ours := hcanonical.resolve_right fun h => hnone h.1
      have hagain : tagSet (intent.tagEdits.foldl TagEdit.apply ours) = tagSet ours := by
        apply tagSet_congr
        intro t
        have hsame : t ∈ ours ↔ t ∈ tagSet (intent.tagEdits.foldl TagEdit.apply tags) := by rw [mem_tagSet, hmem]
        rw [mem_foldl_congr hsame, mem_foldl_foldl, hmem]
      rw [htags', hagain, ← hset]
  have hmerged : merged intent ours next (merged intent tags next l) = merged intent tags next l := by
    rw [merged, htagged]
    cases next with
    | none => rfl
    | some cost =>
      apply putEntry_of_getEntry hordered
      rw [getEntry_merged_cost, Option.some_or]
  exact congrArg (fun m => Except.ok (Json.object m)) hmerged

/-! ### What a merge keeps -/

theorem get_mergeCharge {doc d : Json Text N} (h : mergeCharge asF64 isAmount intent doc = .ok d) {k : Text}
    (htags : k ≠ tagsKey) (hcost : k ≠ costKey) : d.get k = doc.get k := by
  obtain ⟨-, l, tags, next, rfl, -, -, rfl⟩ := mergeCharge_eq_ok h
  rw [Json.get_object, Json.get_object, getEntry_merged hcost, getEntry_tagged htags]

/-- **A merge keeps the members of the cost it does not know**, unless it removes the cost. -/
theorem get_cost_mergeCharge {doc d : Json Text N} (h : mergeCharge asF64 isAmount intent doc = .ok d) {k : Text}
    (hamount : k ≠ amountKey) (hcurrency : k ≠ currencyKey) (hkept : d.get costKey ≠ some .null) :
    (d.get costKey).bind (Json.get k) = (doc.get costKey).bind (Json.get k) := by
  obtain ⟨-, l, tags, next, rfl, -, hnext, rfl⟩ := mergeCharge_eq_ok h
  rw [Json.get_object, getEntry_merged_cost] at hkept ⊢
  rw [Json.get_object]
  cases next with
  | none => rw [Option.none_or]
  | some cost =>
    rw [Option.some_or] at hkept ⊢
    obtain ⟨-, last, -, -, -, -, -, -, -, -, -, rfl⟩ := nextCost_eq_some hnext
    by_cases hnull : last.2 = .null
    · rw [if_pos hnull] at hkept
      exact absurd rfl hkept
    · rw [if_neg hnull, Option.bind_some, withCore, Json.get_object, getEntry_putEntry, if_neg hcurrency,
        getEntry_putEntry, if_neg hamount]
      cases getEntry costKey l with
      | none => rfl
      | some value => cases value <;> rfl

/-! ### When a cost edit is refused -/

variable {ofF64 : R → N}

/-- The costs of a chain, before and after each edit. -/
def localCosts (chain : List (LocalEdit R)) : List (Option (R × Text) × Option (R × Text)) :=
  chain.filterMap fun edit => match edit with
    | .tags _ _ => none
    | .cost before after => some (before, after)

omit [DecidableEq R] in
/-- A recorded cost is read as it was. -/
theorem costCore_costValue (hnumber : ∀ r, isAmount r = true → asF64 (ofF64 r) = r) {cost : Option (R × Text)}
    {value : Json Text N} (h : costValue isAmount ofF64 cost = .ok value) : costCore asF64 isAmount value = .ok cost := by
  cases cost with
  | none =>
    obtain rfl := Except.ok.inj h
    rfl
  | some cost =>
    obtain ⟨amount, currency⟩ := cost
    rw [costValue] at h
    by_cases hamount : isAmount amount = true
    · rw [if_pos hamount] at h
      obtain rfl := Except.ok.inj h
      have hobject : ∀ l : List (Text × Json Text N), Json.object l ≠ .null := fun l heq => nomatch heq
      rw [costCore, if_neg (hobject _), Json.get_object, getEntry_putEntry, if_pos rfl, Json.get_object, getEntry_putEntry,
        if_neg amountKey_ne_currencyKey.symm, getEntry_putEntry, if_pos rfl]
      simp only [Option.bind_some, asNumber, asString, hnumber amount hamount, hamount, if_true]
    · rw [if_neg hamount] at h
      exact nomatch h

omit [DecidableEq R] in
/-- **The recorded costs** of a chain are read as they were. -/
theorem costs_of_record (hnumber : ∀ r, isAmount r = true → asF64 (ofF64 r) = r) {chain : List (LocalEdit R)}
    {edits : List (Int × Edit N)} (h : chain.mapM (LocalEdit.record isAmount ofF64) = .ok (edits.map Prod.snd)) :
    List.Forall₂ (fun p c => costCore asF64 isAmount p.1 = .ok c.1 ∧ costCore asF64 isAmount p.2 = .ok c.2)
      (edits.filterMap fun e => e.2.cost?) (localCosts chain) := by
  have hall := mapM_eq_ok.mp h
  clear h
  induction chain generalizing edits with
  | nil =>
    cases edits with
    | nil => exact .nil
    | cons e edits => exact nomatch hall
  | cons edit chain ih =>
    cases edits with
    | nil => exact nomatch hall
    | cons e edits =>
      obtain ⟨hedit, hrest⟩ := List.forall₂_cons.mp hall
      obtain ⟨at?, e⟩ := e
      cases edit with
      | tags before after =>
        obtain rfl : Edit.tags (tagEdit before after) = e := Except.ok.inj hedit
        have hcosts := ih hrest
        exact hcosts
      | cost before after =>
        obtain ⟨b, hb, hedit⟩ := bind_eq_ok.mp hedit
        obtain ⟨a, ha, heq⟩ := map_eq_ok.mp hedit
        obtain rfl : Edit.costOverride b a = e := heq
        exact .cons ⟨costCore_costValue hnumber hb, costCore_costValue hnumber ha⟩ (ih hrest)

/-- **Whether a cost is written** is decided by the cost of the Cloud and the recorded ones. -/
theorem nextCost_of_record {costs : List (Json Text N × Json Text N)} {recorded : List (Option (R × Text) × Option (R × Text))}
    (h : List.Forall₂ (fun p c => costCore asF64 isAmount p.1 = .ok c.1 ∧ costCore asF64 isAmount p.2 = .ok c.2) costs recorded)
    {value : Json Text N} {current : Option (R × Text)} (hcurrent : costCore asF64 isAmount value = .ok current) :
    (∃ next, nextCost asF64 isAmount costs value = .ok next)
        ∧ (recorded = [] ∨ ∃ first, recorded.head? = some first ∧ (current = first.1 ∨ ∃ c ∈ recorded, current = c.2))
      ∨ nextCost asF64 isAmount costs value = .error "charge cost changed in Cloud"
        ∧ ∃ first, recorded.head? = some first ∧ current ≠ first.1 ∧ ∀ c ∈ recorded, current ≠ c.2 := by
  cases h with
  | nil => exact .inl ⟨⟨none, by rw [nextCost, hcurrent]; rfl⟩, .inl rfl⟩
  | cons hfirst hrest =>
    rename_i first first' costs recorded
    have hafters : (List.mapM (fun c => costCore asF64 isAmount c.2) (first :: costs))
        = .ok ((first' :: recorded).map Prod.snd) := by
      apply mapM_eq_ok.mpr
      rw [List.forall₂_map_right_iff]
      exact .cons hfirst.2 (hrest.imp fun _ _ h => h.2)
    obtain ⟨last, hlast⟩ := Option.isSome_iff_exists.mp (List.getLast?_isSome.mpr (List.cons_ne_nil first costs))
    rw [nextCost, hcurrent]
    simp only [Except.bind, List.head?_cons, hlast, hfirst.1, hafters]
    by_cases hknown : current = first'.1 ∨ current ∈ (first' :: recorded).map Prod.snd
    · rw [if_pos hknown]
      refine .inl ⟨⟨_, rfl⟩, .inr ⟨first', rfl, hknown.imp id fun hmem => ?_⟩⟩
      obtain ⟨c, hc, heq⟩ := List.mem_map.mp hmem
      exact ⟨c, hc, heq.symm⟩
    · rw [if_neg hknown]
      obtain ⟨hbefore, hafter⟩ := not_or.mp hknown
      exact .inr ⟨rfl, first', rfl, hbefore, fun c hc heq => hafter (List.mem_map.mpr ⟨c, hc, heq.symm⟩)⟩

/-- **A cost edit is refused exactly when the Cloud has a cost the queue does not know**: neither the one before the first
edit nor one after an edit. -/
theorem mergeCharge_refused_iff (hnumber : ∀ r, isAmount r = true → asF64 (ofF64 r) = r) {chain : List (LocalEdit R)}
    (hrecord : chain.mapM (LocalEdit.record isAmount ofF64) = .ok (intent.edits.map Prod.snd))
    (hlegacy : intent.legacy = false) {l : List (Text × Json Text N)} {tags : List Text}
    (htags : getEntry tagsKey l = some (tagArray tags)) {current : Option (R × Text)}
    (hcurrent : costCore asF64 isAmount ((getEntry costKey l).getD .null) = .ok current) :
    ((∃ err, mergeCharge asF64 isAmount intent (.object l) = .error err)
        ↔ ∃ first, (localCosts chain).head? = some first ∧ current ≠ first.1 ∧ ∀ c ∈ localCosts chain, current ≠ c.2)
      ∧ ∀ err, mergeCharge asF64 isAmount intent (.object l) = .error err → err = "charge cost changed in Cloud" := by
  have hcosts := costs_of_record hnumber hrecord
  rw [mergeCharge_object hlegacy htags]
  rcases nextCost_of_record hcosts hcurrent with ⟨⟨next, hnext⟩, hknown⟩ | ⟨hrefused, hunknown⟩
  · have hnext : nextCost asF64 isAmount intent.costs ((getEntry costKey l).getD .null) = .ok next := hnext
    rw [hnext]
    refine ⟨⟨fun herr => ?_, fun hunknown => ?_⟩, fun err herr => nomatch herr⟩
    · obtain ⟨err, herr⟩ := herr
      exact nomatch herr
    · obtain ⟨first, hfirst, hne, hnone⟩ := hunknown
      rcases hknown with hnil | ⟨first', hfirst', hcurrent | ⟨c, hc, heq⟩⟩
      · rw [hnil] at hfirst
        exact nomatch hfirst
      · rw [hfirst] at hfirst'
        rw [← Option.some.inj hfirst'] at hcurrent
        exact absurd hcurrent hne
      · exact absurd heq (hnone c hc)
  · have hrefused : nextCost asF64 isAmount intent.costs ((getEntry costKey l).getD .null)
        = .error "charge cost changed in Cloud" := hrefused
    rw [hrefused]
    exact ⟨⟨fun _ => hunknown, fun _ => ⟨_, rfl⟩⟩, fun err herr => (Except.error.inj herr).symm⟩

end Merges

/-! ## Tags of a drive -/

section Drives

variable {intent : Intent N} {e : RemoteEdit N}

theorem mergeTags_eq_ok {cloud w : Json Text N} (h : mergeTags intent cloud = .ok w) :
    intent.legacy = false ∧ ∃ tags, cloud = tagArray tags
      ∧ w = tagArray (tagSet (intent.tagEdits.foldl TagEdit.apply tags)) := by
  cases hlegacy : intent.legacy with
  | true =>
    rw [mergeTags, hlegacy, if_pos rfl] at h
    exact nomatch h
  | false =>
    rw [mergeTags, hlegacy, if_neg Bool.false_ne_true] at h
    obtain ⟨tags, hread, rfl⟩ := map_eq_ok.mp h
    exact ⟨rfl, tags, eq_tagArray hread, rfl⟩

theorem mergeTags_tagArray (hlegacy : intent.legacy = false) (tags : List Text) :
    mergeTags intent (tagArray tags) = .ok (tagArray (tagSet (intent.tagEdits.foldl TagEdit.apply tags))) := by
  rw [mergeTags, hlegacy, if_neg Bool.false_ne_true, readTags_tagArray]
  rfl

theorem mergeTags_self {cloud w : Json Text N} (h : mergeTags intent cloud = .ok w) : mergeTags intent w = .ok w := by
  obtain ⟨hlegacy, tags, rfl, rfl⟩ := mergeTags_eq_ok h
  rw [mergeTags_tagArray hlegacy]
  refine congrArg (fun tags => Except.ok (tagArray tags)) (tagSet_congr fun t => ?_)
  exact mem_foldl_foldl

/-- **The tags of a drive merged after a remote edit** are the remote edit of the merged tags, but for their order. -/
theorem RemoteEdit.Apart.mergeTags_onTags (h : e.Apart intent.tagEdits) {cloud w : Json Text N}
    (hmerge : mergeTags intent cloud = .ok w) :
    ∃ tags tags', mergeTags intent (e.onTags cloud) = .ok (tagArray tags) ∧ e.onTags w = tagArray tags'
      ∧ (∀ t, t ∈ tags ↔ t ∈ tags') ∧ ((∀ tags, tagSet (e.tags tags) = e.tags tags) → tags = tags') := by
  obtain ⟨hlegacy, tags, rfl, rfl⟩ := mergeTags_eq_ok hmerge
  have hsame : ∀ t, t ∈ tagSet (intent.tagEdits.foldl TagEdit.apply (e.tags tags))
      ↔ t ∈ e.tags (tagSet (intent.tagEdits.foldl TagEdit.apply tags)) := by
    intro t
    rw [mem_tagSet, h.mem_tags]
  refine ⟨_, _, ?_, onTags_tagArray e _, hsame, fun hset => ?_⟩
  · rw [onTags_tagArray, mergeTags_tagArray hlegacy]
  · calc tagSet (intent.tagEdits.foldl TagEdit.apply (e.tags tags))
        = tagSet (tagSet (intent.tagEdits.foldl TagEdit.apply (e.tags tags))) := (tagSet_tagSet _).symm
      _ = tagSet (e.tags (tagSet (intent.tagEdits.foldl TagEdit.apply tags))) := tagSet_congr hsame
      _ = e.tags (tagSet (intent.tagEdits.foldl TagEdit.apply tags)) := hset _

/-- Tags of a drive that are refused are refused after a remote edit for the same reason. -/
theorem mergeTags_error {cloud : Json Text N} {err : String} (hmerge : mergeTags intent cloud = .error err) :
    mergeTags intent (e.onTags cloud) = .error err := by
  cases hread : readTags cloud with
  | error err' => rw [onTags_of_error hread, hmerge]
  | ok tags =>
    cases hlegacy : intent.legacy with
    | true =>
      rw [mergeTags, hlegacy, if_pos rfl] at hmerge ⊢
      exact hmerge
    | false =>
      rw [mergeTags, hlegacy, if_neg Bool.false_ne_true, hread] at hmerge
      exact nomatch hmerge

end Drives

/-! ## The laws of the merges -/

section Laws

variable [DecidableEq N] [DecidableEq R] (asF64 : N → R) (isAmount : R → Bool) (ofF64 : R → N)

/-- **The merges commute with edits of other tags and unknown fields, are idempotent, and keep what they do not know.** A merge
after such an edit of another device shows that edit of what the merge shows, up to the order of the tags, and fails for the
same reason. Members of a cost are kept unless the cost is removed. Where tags and cost can be read, a cost edit is refused
exactly when the Cloud has neither the cost before the first edit nor one after an edit. -/
theorem merge_laws (hnumber : ∀ r, isAmount r = true → asF64 (ofF64 r) = r) (intent : Intent N) (doc : Json Text N)
    (hdoc : doc.Sorted) :
    (∀ e : RemoteEdit N, e.Apart intent.tagEdits → CostReady e doc →
        (∀ d, mergeCharge asF64 isAmount intent doc = .ok d →
          ∃ d', mergeCharge asF64 isAmount intent (e.apply doc) = .ok d' ∧ SameButTagOrder d' (e.apply d)
            ∧ ((∀ tags, tagSet (e.tags tags) = e.tags tags) → d' = e.apply d))
        ∧ (∀ err, mergeCharge asF64 isAmount intent doc = .error err →
          mergeCharge asF64 isAmount intent (e.apply doc) = .error err)
        ∧ (∀ w, mergeTags intent doc = .ok w →
          ∃ tags tags', mergeTags intent (e.onTags doc) = .ok (tagArray tags) ∧ e.onTags w = tagArray tags'
            ∧ (∀ t, t ∈ tags ↔ t ∈ tags') ∧ ((∀ tags, tagSet (e.tags tags) = e.tags tags) → tags = tags'))
        ∧ ∀ err, mergeTags intent doc = .error err → mergeTags intent (e.onTags doc) = .error err)
      ∧ (∀ d, mergeCharge asF64 isAmount intent doc = .ok d →
        mergeCharge asF64 isAmount intent d = .ok d
        ∧ (∀ k, k ≠ tagsKey → k ≠ costKey → d.get k = doc.get k)
        ∧ (d.get costKey ≠ some .null → ∀ k, k ≠ amountKey → k ≠ currencyKey →
          (d.get costKey).bind (Json.get k) = (doc.get costKey).bind (Json.get k)))
      ∧ (∀ w, mergeTags intent doc = .ok w → mergeTags intent w = .ok w)
      ∧ ∀ chain : List (LocalEdit R), chain.mapM (LocalEdit.record isAmount ofF64) = .ok (intent.edits.map Prod.snd) →
        intent.legacy = false → ∀ l tags current, doc = .object l → getEntry tagsKey l = some (tagArray tags) →
        costCore asF64 isAmount ((getEntry costKey l).getD .null) = .ok current →
        ((∃ err, mergeCharge asF64 isAmount intent doc = .error err)
          ↔ ∃ first, (localCosts chain).head? = some first ∧ current ≠ first.1 ∧ ∀ c ∈ localCosts chain, current ≠ c.2)
        ∧ ∀ err, mergeCharge asF64 isAmount intent doc = .error err → err = "charge cost changed in Cloud" := by
  refine ⟨fun e h hcost => ⟨fun d => h.mergeCharge_apply hdoc hcost, fun err => h.mergeCharge_error hdoc hcost,
    fun w => h.mergeTags_onTags, fun err => mergeTags_error⟩, fun d hd => ⟨mergeCharge_self hdoc hd,
    fun k => get_mergeCharge hd, fun hkept k hamount hcurrency => get_cost_mergeCharge hd hamount hcurrency hkept⟩,
    fun w => mergeTags_self, ?_⟩
  intro chain hrecord hlegacy l tags current heq htags hcurrent
  rw [heq]
  exact mergeCharge_refused_iff hnumber hrecord hlegacy htags hcurrent

end Laws

/-! ### Queues of one edit -/

/-- A cost with some other members. -/
def costOf (amount : Nat) (rest : List (Text × Json Text Nat)) : Json Text Nat :=
  .object ((amountKey, .number amount) :: (currencyKey, .string ['$']) :: rest)

/-- A document with a cost and tags. -/
def charge (cost : Json Text Nat) (tags : List Text) : Json Text Nat := .object [(costKey, cost), (tagsKey, tagArray tags)]

/-- A queue that removes a cost of four dollars. -/
def removal : Intent Nat := ⟨false, [(1, .costOverride (costOf 4 []) .null)]⟩

/-- A queue that adds a tag. -/
def addition : Intent Nat := ⟨false, [(1, .tags ⟨[['b']], []⟩)]⟩

/-- Another device that appends a tag. -/
def appending : RemoteEdit Nat := ⟨fun tags => tags ++ [['a']], [], []⟩

theorem sorted_charge (amount : Nat) : (charge (costOf amount []) []).Sorted := by
  apply Json.sorted_object.mpr
  refine ⟨List.pairwise_pair.mpr (by decide : costKey < tagsKey), ?_⟩
  intro e he
  rcases List.mem_cons.mp he with rfl | he
  · apply Json.sorted_object.mpr
    refine ⟨List.pairwise_pair.mpr (by decide : amountKey < currencyKey), ?_⟩
    intro e he
    rcases List.mem_cons.mp he with rfl | he
    · exact .number amount
    · rw [List.mem_singleton.mp he]
      exact .string ['$']
  · rw [List.mem_singleton.mp he]
    exact .array fun v hv => nomatch hv

/-- The Cloud has five dollars, the queue knows four. -/
theorem merge_laws_fiveDollars :
    ∃ err, mergeCharge (fun n : Nat => n) (fun _ => true) removal (charge (costOf 5 []) []) = .error err :=
  ((merge_laws (fun n : Nat => n) (fun _ => true) (fun n => n) (fun _ _ => rfl) removal (charge (costOf 5 []) []) (sorted_charge 5)).2.2.2
    [.cost (some (4, ['$'])) none] rfl rfl _ [] (some (5, ['$'])) rfl rfl rfl).1.mpr
      ⟨(some (4, ['$']), none), rfl, by decide, by decide⟩

/-- Removing a cost drops its receipt; a tag another device appends ends up in order or at the end; and a cost edit of a
document without tags is refused although the cost is the known one. -/
theorem not_merge_laws :
    (mergeCharge (fun n : Nat => n) (fun _ => true) removal
        (charge (costOf 4 [("receipt".toList, .string ['r'])]) [])).toOption = some (charge .null [])
      ∧ (mergeCharge (fun n : Nat => n) (fun _ => true) addition (appending.apply (charge .null []))).toOption
        ≠ ((mergeCharge (fun n : Nat => n) (fun _ => true) addition (charge .null [])).map appending.apply).toOption
      ∧ (mergeCharge (fun n : Nat => n) (fun _ => true) removal (.object [(costKey, costOf 4 [])])).toOption = none := by
  refine ⟨by decide +kernel, by decide +kernel, by decide +kernel⟩

end SentryUsb.Sync.MergeIntent
