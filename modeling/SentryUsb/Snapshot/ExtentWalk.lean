import SentryUsb.Library.Checked
import SentryUsb.Library.Chronicle
import SentryUsb.Library.TransitionSystem

/-! # Walking the extents of a file

The map of a file's extents is read page by page (`Walk`, `usb_gadget/src/reflink.rs`). A walk adds up the bytes no other
file shares and keeps the physical ranges. It is given up at the first page that does not fit.

* **`Walk.accept`**, **`Walk.ingest`**, **`Walk.ingestEmptyPage`** — one record, one page, a page without records;
* **`Maps`**, **`maps_accept`** — what a walk says of the records it took;
* **`Sound`** — a result is that of a complete and consistent map;
* **`sound_iff`** — and so it is exactly when nothing but an empty page follows the end of the map. -/

namespace SentryUsb.Snapshot.Reflink

open Library

/-! ## Records and walks -/

def FIEMAP_EXTENT_LAST : UInt32 := 0x0001
def FIEMAP_EXTENT_UNKNOWN : UInt32 := 0x0002
def FIEMAP_EXTENT_DELALLOC : UInt32 := 0x0004
def FIEMAP_EXTENT_SHARED : UInt32 := 0x2000

/-- Where a range of bytes starts on the disk, and its length. -/
abbrev PhysicalRange := UInt64 × UInt64

/-- One record of a map. -/
structure MappedExtent where
  logical : UInt64
  physical : UInt64
  length : UInt64
  flags : UInt32
  deriving DecidableEq

namespace MappedExtent

/-- The first offset of the file past a record. -/
def stop (e : MappedExtent) : Nat := e.logical.toNat + e.length.toNat

/-- The record is the last of the map. -/
def Last (e : MappedExtent) : Prop := e.flags &&& FIEMAP_EXTENT_LAST ≠ 0

/-- No other file shares the bytes of a record. -/
def Unshared (e : MappedExtent) : Prop := e.flags &&& FIEMAP_EXTENT_SHARED = 0

instance (e : MappedExtent) : Decidable e.Last := inferInstanceAs (Decidable (_ ≠ _))

instance (e : MappedExtent) : Decidable e.Unshared := inferInstanceAs (Decidable (_ = _))

/-- The bytes only this record holds. -/
def exclusive (e : MappedExtent) : Nat := if e.Unshared then e.length.toNat else 0

end MappedExtent

/-- A sum of 64 bits, if it fits. -/
def checkedAdd (a b : UInt64) : Option UInt64 := if a.toNat + b.toNat < 2 ^ 64 then some (a + b) else none

theorem toNat_of_checkedAdd {a b c : UInt64} (h : checkedAdd a b = some c) : c.toNat = a.toNat + b.toNat := by
  obtain ⟨hfits, hsum⟩ := Option.ite_none_right_eq_some.mp h
  rw [← Option.some.inj hsum, UInt64.toNat_add, Nat.mod_eq_of_lt hfits]

/-- A walk: the unshared bytes so far, the next offset to ask for, whether the end of the map was seen, whether a page
did not fit, and the ranges so far. -/
structure Walk where
  total : UInt64
  cursor : UInt64
  done : Bool
  poisoned : Bool
  ranges : List PhysicalRange
  deriving DecidableEq

namespace Walk

def new : Walk := ⟨0, 0, false, false, []⟩

/-- The total with a record's bytes, unless another file shares them. -/
def addExclusive (w : Walk) (e : MappedExtent) : Checked UInt64 :=
  if e.Unshared then context "FIEMAP exclusive-byte total overflows u64" (checkedAdd w.total e.length)
  else pure w.total

/-- The checks of one record, and what it adds to the walk. -/
def accept (w : Walk) (e : MappedExtent) : Checked Walk :=
  if e.flags &&& (FIEMAP_EXTENT_DELALLOC ||| FIEMAP_EXTENT_UNKNOWN) ≠ 0 then
    fail "extent map incomplete (delalloc/unknown present) — retry later"
  else if e.length = 0 then fail s!"FIEMAP returned a zero-length extent at offset {e.logical}"
  else if e.logical < w.cursor then
    fail s!"FIEMAP returned an out-of-order or overlapping extent: logical {e.logical} precedes cursor {w.cursor}"
  else do
    let stop ← context "FIEMAP extent logical+length overflows u64" (checkedAdd e.logical e.length)
    let total ← w.addExclusive e
    pure { w with total := total, ranges := w.ranges ++ [(e.physical, e.length)], cursor := stop }

/-- The records of a page of `n` from the one at `i` on. The last record of the map must be the last of its page; what a
page added before its error stays. -/
def ingestFrom (n : Nat) : Nat → List MappedExtent → Walk → Checked Unit × Walk
  | _, [], w => (pure (), w)
  | i, e :: page, w =>
    match w.accept e with
    | .error s => (.error s, w)
    | .ok w =>
      if e.Last then
        if i + 1 ≠ n then
          (fail s!"FIEMAP flagged the last extent at index {i} of a {n}-record page; {n - i - 1} record(s) follow it", w)
        else (pure (), { w with done := true })
      else ingestFrom n (i + 1) page w

def ingestInner (w : Walk) (page : List MappedExtent) : Checked Unit × Walk := ingestFrom page.length 0 page w

/-- The walk is given up. -/
def poison (w : Walk) : Walk := { w with poisoned := true }

/-- One page. -/
def ingest (w : Walk) (page : List MappedExtent) : Checked Unit × Walk :=
  if w.poisoned then (fail "FIEMAP walk was poisoned by an earlier error", w)
  else if w.done then (fail "FIEMAP walk already terminated; refusing further records", w.poison)
  else
    match w.ingestInner page with
    | (.ok (), w) => (pure (), w)
    | (.error s, w) => (.error s, w.poison)

/-- A page without records, which ends a walk that has none. -/
def ingestEmptyPage (w : Walk) : Checked Unit × Walk :=
  if w.poisoned then (fail "FIEMAP walk was poisoned by an earlier error", w)
  else if w.cursor = 0 ∧ w.total = 0 then (pure (), { w with done := true })
  else
    (fail s!"FIEMAP returned no records at offset {w.cursor} after mapping {w.total} bytes, without ever flagging the last extent — the map changed mid-walk",
      w.poison)

/-- Whether the end of the map was seen. -/
def checkComplete (w : Walk) : Checked Unit :=
  if w.done then pure ()
  else
    fail s!"FIEMAP walk did not reach the end of the map (stopped at offset {w.cursor}, {w.total} exclusive bytes so far) — refusing to report a partial result"

/-- The unshared bytes. -/
def finish (w : Walk) : Checked UInt64 := do
  w.checkComplete
  pure w.total

/-- The physical ranges. -/
def finishMap (w : Walk) : Checked (List PhysicalRange) := do
  w.checkComplete
  pure w.ranges

end Walk

/-! ## Sequences of calls -/

inductive Call where
  | ingest (page : List MappedExtent)
  | ingestEmptyPage
  deriving DecidableEq

/-- The records a call brings. -/
def Call.records : Call → List MappedExtent
  | .ingest page => page
  | .ingestEmptyPage => []

namespace Walk

def call (w : Walk) : Call → Checked Unit × Walk
  | .ingest page => w.ingest page
  | .ingestEmptyPage => w.ingestEmptyPage

/-- What calls on a new walk leave, the newest call first. -/
def after : List Call → Walk
  | [] => new
  | c :: past => ((after past).call c).2

end Walk

open Walk (after)

/-- The records of all calls, in the order they came. -/
def recordsOf (calls : List Call) : List MappedExtent := calls.reverse.flatMap Call.records

/-- No call failed. -/
def AllSucceed (calls : List Call) : Prop := Chronicle (fun c past => ((after past).call c).1 = .ok ()) calls

/-- Every page with records that was taken moves the next offset on. -/
def Advances (calls : List Call) : Prop :=
  Chronicle (fun c past => c.records ≠ [] → ((after past).call c).1 = .ok () →
    (after past).cursor < ((after past).call c).2.cursor) calls

/-- **The calls brought a complete and consistent map.** None failed, the last record is the last of the map or there is
none, and the records follow one another without an overflow. -/
structure Complete (calls : List Call) : Prop where
  succeed : AllSucceed calls
  ended : (∃ e, (recordsOf calls).getLast? = some e ∧ e.Last) ∨ (recordsOf calls = [] ∧ Call.ingestEmptyPage ∈ calls)
  apart : (recordsOf calls).Pairwise fun a b => a.stop ≤ b.logical.toNat
  fits : ∀ e ∈ recordsOf calls, e.stop < 2 ^ 64
  sum : ((recordsOf calls).map MappedExtent.exclusive).sum < 2 ^ 64

/-- **A walk reports only complete maps**: the total is that of the unshared records, the ranges are those of all. -/
structure Sound (calls : List Call) : Prop where
  finish : ∀ total, (after calls).finish = .ok total →
    Complete calls ∧ total.toNat = ((recordsOf calls).map MappedExtent.exclusive).sum
  finishMap : ∀ ranges, (after calls).finishMap = .ok ranges →
    Complete calls ∧ ranges = (recordsOf calls).map fun e => (e.physical, e.length)
  advances : Advances calls

/-- **Nothing but an empty page, on a walk that took no record, follows the end of the map.** -/
def NoSurplus (calls : List Call) : Prop :=
  Chronicle (fun c past => (after past).done = true → c = .ingestEmptyPage ∧ (after past).cursor = 0) calls

/-! ## What a walk says of its records -/

/-- A walk counts and keeps exactly these records, and asks for what follows them. -/
structure Maps (w : Walk) (records : List MappedExtent) : Prop where
  total : w.total.toNat = (records.map MappedExtent.exclusive).sum
  ranges : w.ranges = records.map fun e => (e.physical, e.length)
  positive : ∀ e ∈ records, 0 < e.length.toNat
  below : ∀ e ∈ records, e.stop ≤ w.cursor.toNat
  apart : records.Pairwise fun a b => a.stop ≤ b.logical.toNat
  start : records = [] → w.cursor = 0

theorem maps_new : Maps Walk.new [] :=
  ⟨rfl, rfl, List.forall_mem_nil _, List.forall_mem_nil _, List.Pairwise.nil, fun _ => rfl⟩

/-- A walk at offset 0 took no record. -/
theorem Maps.eq_nil {w : Walk} {records : List MappedExtent} (h : Maps w records) (hcursor : w.cursor = 0) :
    records = [] := by
  apply List.eq_nil_iff_forall_not_mem.mpr
  intro e he
  have hpos := h.positive e he
  have hbelow := h.below e he
  rw [hcursor, MappedExtent.stop] at hbelow
  have hzero : (0 : UInt64).toNat = 0 := rfl
  omega

/-- **One record taken**: it does not begin before the next offset, which goes past it. -/
theorem of_accept {w w' : Walk} {e : MappedExtent} (h : w.accept e = .ok w') :
    0 < e.length.toNat ∧ w.cursor.toNat ≤ e.logical.toNat ∧ ∃ stop total : UInt64,
      w' = { w with total := total, ranges := w.ranges ++ [(e.physical, e.length)], cursor := stop }
        ∧ stop.toNat = e.stop ∧ total.toNat = w.total.toNat + e.exclusive := by
  rw [Walk.accept] at h
  split at h
  · exact nomatch h
  · split at h
    · exact nomatch h
    · rename_i hlength
      split at h
      · exact nomatch h
      · rename_i horder
        obtain ⟨stop, hstop, h⟩ := bind_eq_ok.mp h
        obtain ⟨total, htotal, h⟩ := bind_eq_ok.mp h
        have hpos : e.length.toNat ≠ 0 := fun hzero => hlength (UInt64.toNat_inj.mp hzero)
        refine ⟨Nat.pos_of_ne_zero hpos, UInt64.le_iff_toNat_le.mp (UInt64.not_lt.mp horder), stop, total,
          (Except.ok.inj h).symm, toNat_of_checkedAdd ((answers_context _ _).ok_iff.mp hstop), ?_⟩
        rw [MappedExtent.exclusive]
        rw [Walk.addExclusive] at htotal
        split at htotal
        · rename_i hunshared
          rw [if_pos hunshared]
          exact toNat_of_checkedAdd ((answers_context _ _).ok_iff.mp htotal)
        · rename_i hshared
          rw [if_neg hshared, ← Except.ok.inj htotal, Nat.add_zero]

theorem cursor_lt_of_accept {w w' : Walk} {e : MappedExtent} (h : w.accept e = .ok w') :
    w.cursor < w'.cursor ∧ w'.done = w.done ∧ w'.poisoned = w.poisoned := by
  obtain ⟨hpos, horder, stop, total, rfl, hstop, -⟩ := of_accept h
  rw [MappedExtent.stop] at hstop
  exact ⟨UInt64.lt_iff_toNat_lt.mpr (show w.cursor.toNat < stop.toNat by omega), rfl, rfl⟩

/-- **One record more.** -/
theorem maps_accept {w w' : Walk} {e : MappedExtent} {records : List MappedExtent} (hw : Maps w records)
    (h : w.accept e = .ok w') : Maps w' (records ++ [e]) := by
  obtain ⟨hpos, horder, stop, total, rfl, hstop, htotal⟩ := of_accept h
  have hmono : w.cursor.toNat ≤ stop.toNat := by
    rw [hstop, MappedExtent.stop]
    omega
  refine ⟨?_, ?_, ?_, ?_, ?_, ?_⟩
  · rw [List.map_append, List.sum_append, ← hw.total]
    exact htotal
  · rw [List.map_append, ← hw.ranges]
    rfl
  · intro r hr
    rcases List.mem_append.mp hr with hr | hr
    · exact hw.positive r hr
    · rw [List.mem_singleton.mp hr]
      exact hpos
  · intro r hr
    rcases List.mem_append.mp hr with hr | hr
    · exact (hw.below r hr).trans hmono
    · rw [List.mem_singleton.mp hr]
      exact hstop.ge
  · refine List.pairwise_append.mpr ⟨hw.apart, List.pairwise_singleton _ _, ?_⟩
    intro r hr last hlast
    rw [List.mem_singleton.mp hlast]
    exact (hw.below r hr).trans horder
  · exact fun hnil => absurd (List.append_eq_nil_iff.mp hnil).2 (List.cons_ne_nil _ _)

/-- **One record of a page**: it is refused, or the map ends with it too early or where the page does, or the page goes
on. -/
theorem ingestFrom_cons (n i : Nat) (e : MappedExtent) (page : List MappedExtent) (w : Walk) :
    (∃ s, Walk.ingestFrom n i (e :: page) w = (.error s, w))
      ∨ ∃ v, w.accept e = .ok v ∧
        ((∃ s, Walk.ingestFrom n i (e :: page) w = (.error s, v))
          ∨ e.Last ∧ i + 1 = n ∧ Walk.ingestFrom n i (e :: page) w = (.ok (), { v with done := true })
          ∨ Walk.ingestFrom n i (e :: page) w = Walk.ingestFrom n (i + 1) page v) := by
  rw [Walk.ingestFrom]
  cases w.accept e with
  | error s => exact .inl ⟨s, rfl⟩
  | ok v =>
    refine .inr ⟨v, rfl, ?_⟩
    dsimp only
    by_cases hlast : e.Last
    · rw [if_pos hlast]
      by_cases hfollow : i + 1 ≠ n
      · rw [if_pos hfollow]
        exact .inl ⟨_, rfl⟩
      · rw [if_neg hfollow]
        exact .inr (.inl ⟨hlast, not_not.mp hfollow, rfl⟩)
    · rw [if_neg hlast]
      exact .inr (.inr rfl)

/-- **A page taken**: its records are counted, and the walk is at its end if the last of them is the last of the map. -/
theorem of_ingestFrom {n i : Nat} {page records : List MappedExtent} {w w' : Walk} (hn : i + page.length = n)
    (hw : Maps w records) (h : Walk.ingestFrom n i page w = (.ok (), w')) :
    Maps w' (records ++ page) ∧ w'.poisoned = w.poisoned
      ∧ (w'.done = true → w.done = true ∨ ∃ e, page.getLast? = some e ∧ e.Last) := by
  induction page generalizing i w records with
  | nil =>
    obtain rfl := (Prod.mk.inj h).2
    rw [List.append_nil]
    exact ⟨hw, rfl, .inl⟩
  | cons e page ih =>
    rw [List.length_cons] at hn
    rcases ingestFrom_cons n i e page w with ⟨s, hs⟩ | ⟨v, haccept, ⟨s, hs⟩ | ⟨hlast, hi, hv⟩ | hrest⟩
    · exact nomatch hs.symm.trans h
    · exact nomatch hs.symm.trans h
    · obtain rfl := (Prod.mk.inj (hv.symm.trans h)).2
      have hnil : page = [] := List.length_eq_zero_iff.mp (by omega)
      have hmaps := maps_accept hw haccept
      rw [hnil]
      exact ⟨⟨hmaps.total, hmaps.ranges, hmaps.positive, hmaps.below, hmaps.apart, hmaps.start⟩,
        (cursor_lt_of_accept haccept).2.2, fun _ => .inr ⟨e, rfl, hlast⟩⟩
    · obtain ⟨-, hdone, hpoisoned⟩ := cursor_lt_of_accept haccept
      obtain ⟨hmaps, hpoisoned', hended⟩ := ih (by omega) (maps_accept hw haccept) (hrest.symm.trans h)
      rw [List.append_assoc] at hmaps
      refine ⟨hmaps, hpoisoned'.trans hpoisoned, fun hw' => ?_⟩
      rcases hended hw' with hbefore | ⟨last, hlast, hflag⟩
      · exact .inl (hdone ▸ hbefore)
      · refine .inr ⟨last, ?_, hflag⟩
        rw [List.getLast?_cons, hlast]
        rfl

/-- A page that fails does not end the walk. -/
theorem done_of_ingestFrom_error {n i : Nat} {page : List MappedExtent} {w w' : Walk} {s : Stop}
    (h : Walk.ingestFrom n i page w = (.error s, w')) : w'.done = w.done := by
  induction page generalizing i w with
  | nil => exact nomatch (Prod.mk.inj h).1
  | cons e page ih =>
    rcases ingestFrom_cons n i e page w with ⟨s', hs⟩ | ⟨v, haccept, ⟨s', hs⟩ | ⟨-, -, hv⟩ | hrest⟩
    · rw [(Prod.mk.inj (hs.symm.trans h)).2]
    · rw [← (Prod.mk.inj (hs.symm.trans h)).2]
      exact (cursor_lt_of_accept haccept).2.1
    · exact nomatch hv.symm.trans h
    · exact (ih (hrest.symm.trans h)).trans (cursor_lt_of_accept haccept).2.1

/-- **A page with records moves the next offset on.** -/
theorem cursor_lt_of_ingestFrom {n i : Nat} {page : List MappedExtent} {w w' : Walk} (hpage : page ≠ [])
    (h : Walk.ingestFrom n i page w = (.ok (), w')) : w.cursor < w'.cursor := by
  induction page generalizing i w with
  | nil => exact absurd rfl hpage
  | cons e page ih =>
    rcases ingestFrom_cons n i e page w with ⟨s, hs⟩ | ⟨v, haccept, ⟨s, hs⟩ | ⟨-, -, hv⟩ | hrest⟩
    · exact nomatch hs.symm.trans h
    · exact nomatch hs.symm.trans h
    · rw [← (Prod.mk.inj (hv.symm.trans h)).2]
      exact (cursor_lt_of_accept haccept).1
    · have hlt := (cursor_lt_of_accept haccept).1
      cases page with
      | nil =>
        rw [← (Prod.mk.inj (hrest.symm.trans h)).2]
        exact hlt
      | cons e' page => exact UInt64.lt_trans hlt (ih (List.cons_ne_nil _ _) (hrest.symm.trans h))

/-! ## One call -/

theorem ingest_of_poisoned {w : Walk} (page : List MappedExtent) (h : w.poisoned = true) :
    (∃ s, (w.ingest page).1 = .error s) ∧ (w.ingest page).2 = w := by
  rw [Walk.ingest, if_pos h]
  exact ⟨⟨_, rfl⟩, rfl⟩

theorem ingest_of_done {w : Walk} (page : List MappedExtent) (hpoisoned : w.poisoned = false) (h : w.done = true) :
    (∃ s, (w.ingest page).1 = .error s) ∧ (w.ingest page).2 = w.poison := by
  rw [Walk.ingest, if_neg (by rw [hpoisoned]; exact Bool.false_ne_true), if_pos h]
  exact ⟨⟨_, rfl⟩, rfl⟩

/-- A page on a walk that goes on. -/
theorem ingest_of_alive {w : Walk} (page : List MappedExtent) (hpoisoned : w.poisoned = false) (h : w.done = false) :
    (∃ w', w.ingestInner page = (.ok (), w') ∧ w.ingest page = (.ok (), w'))
      ∨ ∃ s w', w.ingestInner page = (.error s, w') ∧ w.ingest page = (.error s, w'.poison) := by
  rw [Walk.ingest, if_neg (by rw [hpoisoned]; exact Bool.false_ne_true), if_neg (by rw [h]; exact Bool.false_ne_true)]
  obtain ⟨r, w'⟩ := w.ingestInner page
  cases r with
  | ok u => exact .inl ⟨w', rfl, rfl⟩
  | error s => exact .inr ⟨s, w', rfl, rfl⟩

/-- The end of the map, once seen, is not taken back. -/
theorem done_call {w : Walk} (c : Call) (h : w.done = true) : (w.call c).2.done = true := by
  cases c with
  | ingest page =>
    rw [Walk.call]
    cases hpoisoned : w.poisoned with
    | true => rwa [(ingest_of_poisoned page hpoisoned).2]
    | false => rwa [(ingest_of_done page hpoisoned h).2]
  | ingestEmptyPage =>
    rw [Walk.call, Walk.ingestEmptyPage]
    split
    · exact h
    · split
      · rfl
      · exact h

/-- After the end of the map only an empty page on a walk without records succeeds. -/
theorem call_of_done {w : Walk} {c : Call} (h : w.done = true) (hok : (w.call c).1 = .ok ()) :
    c = .ingestEmptyPage ∧ w.cursor = 0 := by
  cases c with
  | ingest page =>
    rw [Walk.call] at hok
    cases hpoisoned : w.poisoned with
    | true =>
      obtain ⟨s, hs⟩ := (ingest_of_poisoned page hpoisoned).1
      exact nomatch hs.symm.trans hok
    | false =>
      obtain ⟨s, hs⟩ := (ingest_of_done page hpoisoned h).1
      exact nomatch hs.symm.trans hok
  | ingestEmptyPage =>
    rw [Walk.call, Walk.ingestEmptyPage] at hok
    split at hok
    · exact nomatch hok
    · split at hok
      · rename_i hstart
        exact ⟨rfl, hstart.1⟩
      · exact nomatch hok

theorem cursor_lt_of_call {w : Walk} {c : Call} (hc : c.records ≠ []) (hok : (w.call c).1 = .ok ()) :
    w.cursor < (w.call c).2.cursor := by
  cases c with
  | ingest page =>
    rw [Walk.call] at hok ⊢
    cases hpoisoned : w.poisoned with
    | true =>
      obtain ⟨s, hs⟩ := (ingest_of_poisoned page hpoisoned).1
      exact nomatch hs.symm.trans hok
    | false =>
      cases hdone : w.done with
      | true =>
        obtain ⟨s, hs⟩ := (ingest_of_done page hpoisoned hdone).1
        exact nomatch hs.symm.trans hok
      | false =>
        rcases ingest_of_alive page hpoisoned hdone with ⟨w', hinner, heq⟩ | ⟨s, w', -, heq⟩
        · rw [heq]
          exact cursor_lt_of_ingestFrom hc hinner
        · rw [heq] at hok
          exact nomatch hok
  | ingestEmptyPage => exact absurd rfl hc

/-! ## Sequences of calls that report -/

theorem recordsOf_cons (c : Call) (past : List Call) : recordsOf (c :: past) = recordsOf past ++ c.records := by
  rw [recordsOf, List.reverse_cons, List.flatMap_append, List.flatMap_singleton]
  rfl

/-- A walk that no call failed on. -/
structure Healthy (calls : List Call) : Prop where
  alive : (after calls).poisoned = false
  succeed : AllSucceed calls
  maps : Maps (after calls) (recordsOf calls)
  ended : (after calls).done = true →
    (∃ e, (recordsOf calls).getLast? = some e ∧ e.Last) ∨ (recordsOf calls = [] ∧ Call.ingestEmptyPage ∈ calls)

/-- **One call more**, if it is no surplus one: the walk stays healthy, or it is given up before its end. -/
theorem healthy_cons {c : Call} {past : List Call} (h : Healthy past)
    (hc : (after past).done = true → c = .ingestEmptyPage ∧ (after past).cursor = 0) :
    Healthy (c :: past) ∨ (after (c :: past)).poisoned = true ∧ (after (c :: past)).done = false := by
  cases c with
  | ingest page =>
    have hdone : (after past).done = false := by
      by_contra hdone
      exact nomatch (hc (Bool.of_not_eq_false hdone)).1
    rcases ingest_of_alive page h.alive hdone with ⟨w', hinner, heq⟩ | ⟨s, w', hinner, heq⟩
    · obtain ⟨hmaps, hpoisoned, hended⟩ := of_ingestFrom (Nat.zero_add _) h.maps hinner
      have hafter : after (.ingest page :: past) = w' := by rw [after, Walk.call, heq]
      refine .inl ⟨?_, chronicle_cons.mpr ⟨?_, h.succeed⟩, ?_, ?_⟩
      · rw [hafter, hpoisoned, h.alive]
      · rw [Walk.call, heq]
      · rw [hafter, recordsOf_cons]
        exact hmaps
      · intro hw'
        rw [hafter] at hw'
        rcases hended hw' with hbefore | ⟨e, hlast, hflag⟩
        · exact absurd hbefore (by rw [hdone]; exact Bool.false_ne_true)
        · refine .inl ⟨e, ?_, hflag⟩
          rw [recordsOf_cons, Call.records, List.getLast?_append, hlast]
          rfl
    · have hafter : after (.ingest page :: past) = w'.poison := by rw [after, Walk.call, heq]
      rw [hafter]
      exact .inr ⟨rfl, (done_of_ingestFrom_error hinner).trans hdone⟩
  | ingestEmptyPage =>
    have hrecords : recordsOf (.ingestEmptyPage :: past) = recordsOf past := by
      rw [recordsOf_cons, Call.records, List.append_nil]
    have halive : ¬ (after past).poisoned = true := by
      rw [h.alive]
      exact Bool.false_ne_true
    by_cases hstart : (after past).cursor = 0 ∧ (after past).total = 0
    · have heq : (after past).ingestEmptyPage = (.ok (), { after past with done := true }) := by
        rw [Walk.ingestEmptyPage, if_neg halive, if_pos hstart]
        rfl
      have hafter : after (.ingestEmptyPage :: past) = { after past with done := true } := by
        rw [after, Walk.call, heq]
      refine .inl ⟨?_, chronicle_cons.mpr ⟨?_, h.succeed⟩, ?_, ?_⟩
      · rw [hafter]
        exact h.alive
      · rw [Walk.call, heq]
      · rw [hafter, hrecords]
        exact ⟨h.maps.total, h.maps.ranges, h.maps.positive, h.maps.below, h.maps.apart, h.maps.start⟩
      · intro _
        exact .inr ⟨hrecords.trans (h.maps.eq_nil hstart.1), List.mem_cons_self⟩
    · refine .inr ?_
      rw [after, Walk.call, Walk.ingestEmptyPage, if_neg halive, if_neg hstart]
      refine ⟨rfl, Bool.eq_false_of_not_eq_true fun hdone => hstart ?_⟩
      -- a walk that ended without records has counted no bytes
      have hcursor := (hc hdone).2
      refine ⟨hcursor, UInt64.toNat_inj.mp ?_⟩
      rw [h.maps.total, h.maps.eq_nil hcursor]
      rfl

theorem call_of_poisoned {w : Walk} (c : Call) (h : w.poisoned = true) : (w.call c).2 = w := by
  cases c with
  | ingest page => exact (ingest_of_poisoned page h).2
  | ingestEmptyPage => rw [Walk.call, Walk.ingestEmptyPage, if_pos h]

theorem healthy_or_given_up {calls : List Call} (h : NoSurplus calls) :
    Healthy calls ∨ (after calls).poisoned = true ∧ (after calls).done = false := by
  induction calls with
  | nil => exact .inl ⟨rfl, chronicle_nil, maps_new, fun hdone => nomatch hdone⟩
  | cons c past ih =>
    obtain ⟨hc, hpast⟩ := chronicle_cons.mp h
    rcases ih hpast with hhealthy | ⟨hpoisoned, hdone⟩
    · exact healthy_cons hhealthy hc
    · rw [after, call_of_poisoned c hpoisoned]
      exact .inr ⟨hpoisoned, hdone⟩

theorem advances (calls : List Call) : Advances calls := by
  apply chronicle_iff.mpr
  intro _ c past _ hc hok
  exact cursor_lt_of_call hc hok

theorem done_of_finish {w : Walk} {total : UInt64} (h : w.finish = .ok total) : w.done = true ∧ total = w.total := by
  obtain ⟨u, hu, htotal⟩ := bind_eq_ok.mp h
  rw [Walk.checkComplete] at hu
  split at hu
  · rename_i hdone
    exact ⟨hdone, (Except.ok.inj htotal).symm⟩
  · exact nomatch hu

theorem done_of_finishMap {w : Walk} {ranges : List PhysicalRange} (h : w.finishMap = .ok ranges) :
    w.done = true ∧ ranges = w.ranges := by
  obtain ⟨u, hu, hranges⟩ := bind_eq_ok.mp h
  rw [Walk.checkComplete] at hu
  split at hu
  · rename_i hdone
    exact ⟨hdone, (Except.ok.inj hranges).symm⟩
  · exact nomatch hu

theorem finish_of_done {w : Walk} (h : w.done = true) : w.finish = .ok w.total := by
  rw [Walk.finish, Walk.checkComplete, if_pos h]
  rfl

/-- A healthy walk that ended is a complete map. -/
theorem Healthy.complete {calls : List Call} (h : Healthy calls) (hdone : (after calls).done = true) : Complete calls where
  succeed := h.succeed
  ended := h.ended hdone
  apart := h.maps.apart
  fits e he := lt_of_le_of_lt (h.maps.below e he) (UInt64.toNat_lt _)
  sum := h.maps.total ▸ UInt64.toNat_lt _

theorem sound_of_noSurplus {calls : List Call} (h : NoSurplus calls) : Sound calls := by
  have hhealthy : (after calls).done = true → Healthy calls := by
    intro hdone
    rcases healthy_or_given_up h with hhealthy | ⟨-, hnot⟩
    · exact hhealthy
    · exact absurd hdone (by rw [hnot]; exact Bool.false_ne_true)
  refine ⟨fun total htotal => ?_, fun ranges hranges => ?_, advances calls⟩
  · obtain ⟨hdone, rfl⟩ := done_of_finish htotal
    exact ⟨(hhealthy hdone).complete hdone, (hhealthy hdone).maps.total⟩
  · obtain ⟨hdone, rfl⟩ := done_of_finishMap hranges
    exact ⟨(hhealthy hdone).complete hdone, (hhealthy hdone).maps.ranges⟩

theorem done_after {later past : List Call} (h : (after past).done = true) : (after (later ++ past)).done = true := by
  induction later with
  | nil => exact h
  | cons c later ih => exact done_call c ih

/-- **A walk reports only complete and consistent maps exactly when nothing but an empty page on a walk without records
follows the end of its map.** -/
theorem sound_iff (calls : List Call) : Sound calls ↔ NoSurplus calls := by
  constructor
  · intro h
    apply chronicle_iff.mpr
    rintro later c past rfl hdone
    -- the end of the map is still marked, so the walk reports, and no call may have failed
    have hend : (after (later ++ c :: past)).done = true := done_after (done_call c hdone)
    have hcomplete := (h.finish _ (finish_of_done hend)).1
    exact call_of_done hdone (chronicle_iff.mp hcomplete.succeed later c past rfl)
  · exact sound_of_noSurplus

/-- A page after the end of the map is refused, and the walk still reports its total. -/
theorem not_sound_of_page_after_end :
    ¬ Sound [.ingest [⟨4096, 4096, 4096, 0⟩], .ingest [⟨0, 0, 4096, FIEMAP_EXTENT_LAST⟩]] := by
  intro h
  have hfinish : (after [.ingest [⟨4096, 4096, 4096, 0⟩], .ingest [⟨0, 0, 4096, FIEMAP_EXTENT_LAST⟩]]).finish
      = .ok 4096 := by rfl
  have hrefused := (chronicle_cons.mp (h.finish 4096 hfinish).1.succeed).1
  exact nomatch hrefused

end SentryUsb.Snapshot.Reflink
