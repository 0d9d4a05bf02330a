import SentryUsb.Library.SortedMap
import SentryUsb.Library.SweepLine
import SentryUsb.Snapshot.ExtentWalk

/-! # What deleting the oldest snapshots frees

A range of bytes is freed with its newest holder, unless a file outside the snapshots holds it too. One sweep over the
boundaries of all ranges finds the newest holder of each span (`cumulative_reclaim`, `usb_gadget/src/reflink.rs`).

* **`cumulativeReclaim`** — the sweep, and the running totals of what it finds;
* **`freed`** — the bytes that deleting the snapshots up to one of them frees;
* **`reclaim_exact`** — the totals count them. -/

namespace SentryUsb.Snapshot.Reflink

open Library

/-- A sum of 64 bits, or the greatest number. -/
def saturatingAdd (a b : UInt64) : UInt64 := (checkedAdd a b).getD 0xFFFFFFFFFFFFFFFF

/-- A boundary of a range: how the number of its owner's ranges changes there. Ranges of outside files have no owner. -/
structure Boundary where
  pos : UInt64
  delta : Int
  owner : Option Nat
  deriving DecidableEq

/-- The boundaries of a range. -/
def push (owner : Option Nat) (r : PhysicalRange) : List Boundary :=
  if r.2 = 0 then [] else [⟨r.1, 1, owner⟩, ⟨saturatingAdd r.1 r.2, -1, owner⟩]

/-- The boundaries of all ranges. -/
def boundaries (ordered : List (List PhysicalRange)) (external : List PhysicalRange) : List Boundary :=
  (ordered.zipIdx.flatMap fun rs => rs.1.flatMap (push (some rs.2))) ++ external.flatMap (push none)

/-- How many outside ranges hold a position, and how many ranges of each snapshot that holds it. -/
structure Depths where
  external : Int
  active : SortedMap Nat Int

namespace Depths

def empty : Depths := ⟨0, SortedMap.empty⟩

/-- One boundary. -/
def apply (d : Depths) (e : Boundary) : Depths :=
  match e.owner with
  | none => { d with external := d.external + e.delta }
  | some idx =>
    let c := (d.active.get idx).getD 0 + e.delta
    { d with active := if c ≤ 0 then d.active.remove idx else d.active.insert idx c }

/-- The snapshot that frees a position: its newest holder, if no outside file holds it. -/
def lastHolder (d : Depths) : Option Nat := if d.external = 0 then d.active.lastKey else none

end Depths

/-- The sweep: the bytes found for each snapshot, the depths, and the last position. -/
structure Sweep where
  ownedBy : List UInt64
  depths : Depths
  prevPos : UInt64

namespace Sweep

/-- The span before a position. -/
def account (s : Sweep) (pos : UInt64) : Sweep :=
  if s.prevPos < pos then
    match s.depths.lastHolder with
    | some holder => { s with ownedBy := s.ownedBy.modify holder fun bytes => saturatingAdd bytes (pos - s.prevPos) }
    | none => s
  else s

/-- All boundaries at one position. -/
def visit (s : Sweep) : List Boundary → Sweep
  | [] => s
  | e :: group => { s.account e.pos with depths := (e :: group).foldl Depths.apply s.depths, prevPos := e.pos }

end Sweep

/-- The running totals. -/
def prefixTotals : UInt64 → List UInt64 → List UInt64
  | _, [] => []
  | running, bytes :: rest => saturatingAdd running bytes :: prefixTotals (saturatingAdd running bytes) rest

/-- **The bytes freed by deleting the snapshots up to each.** -/
def cumulativeReclaim (ordered : List (List PhysicalRange)) (external : List PhysicalRange) : List UInt64 :=
  match (boundaries ordered external).insertionSort fun a b => a.pos ≤ b.pos with
  | [] => List.replicate ordered.length 0
  | first :: rest =>
    let groups := (first :: rest).splitBy fun a b => a.pos == b.pos
    prefixTotals 0 (groups.foldl Sweep.visit ⟨List.replicate ordered.length 0, Depths.empty, first.pos⟩).ownedBy

/-! ## What the totals count -/

/-- A range holds a position. A range that would end past the greatest number ends there. -/
def Covers (r : PhysicalRange) (p : ℕ) : Prop := r.1.toNat ≤ p ∧ p < min (r.1.toNat + r.2.toNat) (2 ^ 64 - 1)

instance (r : PhysicalRange) (p : ℕ) : Decidable (Covers r p) := inferInstanceAs (Decidable (_ ∧ _))

/-- A snapshot holds a position. -/
def Holds (ordered : List (List PhysicalRange)) (i p : ℕ) : Prop :=
  ∃ ranges, ordered[i]? = some ranges ∧ ∃ r ∈ ranges, Covers r p

/-- **The bytes that deleting the snapshots up to `k` frees**: one of them holds each, and neither a later snapshot nor an
outside file does. -/
def freed (ordered : List (List PhysicalRange)) (external : List PhysicalRange) (k : ℕ) : Set ℕ :=
  {p | (∃ i ≤ k, Holds ordered i p) ∧ (∀ i, k < i → ¬ Holds ordered i p) ∧ ∀ r ∈ external, ¬ Covers r p}

/-! ## The sweep, boundary by boundary -/

/-- One boundary. -/
def Sweep.step (s : Sweep) (e : Boundary) : Sweep :=
  { s.account e.pos with depths := s.depths.apply e, prevPos := e.pos }

/-- After the first boundary at a position the others find no span before them. -/
theorem foldl_step_of_pos {s : Sweep} {group : List Boundary} (h : ∀ e ∈ group, e.pos = s.prevPos) :
    group.foldl Sweep.step s = { s with depths := group.foldl Depths.apply s.depths } := by
  induction group generalizing s with
  | nil => rfl
  | cons e group ih =>
    have hpos := h e List.mem_cons_self
    have haccount : s.account e.pos = s := by
      rw [Sweep.account, hpos, if_neg (UInt64.lt_irrefl _)]
    have hstep : s.step e = { s with depths := s.depths.apply e } := by
      rw [Sweep.step, haccount, hpos]
    have hrest := ih (s := s.step e) fun e' he' => by
      rw [hstep]
      exact h e' (List.mem_cons_of_mem e he')
    rw [List.foldl_cons, hrest, hstep]
    rfl

theorem visit_eq_foldl {s : Sweep} {group : List Boundary} (h : group.IsChain fun a b => (a.pos == b.pos) = true) :
    s.visit group = group.foldl Sweep.step s := by
  cases group with
  | nil => rfl
  | cons e group =>
    have hchain : (e :: group).IsChain fun a b => a.pos = b.pos := h.imp fun a b hab => eq_of_beq hab
    have hpairs : (e :: group).Pairwise fun a b => a.pos = b.pos :=
      List.isChain_iff_pairwise (R := fun a b : Boundary => a.pos = b.pos) |>.mp hchain
    rw [List.foldl_cons, foldl_step_of_pos]
    · rfl
    · exact fun e' he' => ((List.pairwise_cons.mp hpairs).1 e' he').symm

/-- **The groups of one position, visited in turn, are the boundaries in turn.** -/
theorem foldl_visit_splitBy (s : Sweep) (events : List Boundary) :
    (events.splitBy fun a b => a.pos == b.pos).foldl Sweep.visit s = events.foldl Sweep.step s := by
  have hgroups : ∀ groups : List (List Boundary),
      (∀ group ∈ groups, group.IsChain fun a b => (a.pos == b.pos) = true) →
        ∀ s, groups.foldl Sweep.visit s = groups.flatten.foldl Sweep.step s := by
    intro groups
    induction groups with
    | nil => exact fun _ _ => rfl
    | cons group groups ih =>
      intro hchain s
      rw [List.foldl_cons, List.flatten_cons, List.foldl_append, visit_eq_foldl (hchain group List.mem_cons_self),
        ih fun g hg => hchain g (List.mem_cons_of_mem group hg)]
  rw [hgroups _ fun group hgroup => List.isChain_of_mem_splitBy hgroup, List.flatten_splitBy]

/-- The bytes found for a snapshot. -/
def Sweep.owned (s : Sweep) (o : ℕ) : ℕ := (s.ownedBy[o]?.getD 0).toNat

/-- The length of the spans that a snapshot frees. -/
def lengthOf (o : ℕ) (l : List (Option ℕ × ℕ)) : ℕ := ((l.filter fun x => decide (x.1 = some o)).map Prod.snd).sum

/-- The spans between boundaries, with the snapshots that free them. -/
abbrev holderSpans (d : Depths) (prev : ℕ) (events : List Boundary) : List (Option ℕ × ℕ) :=
  spans (fun e => e.pos.toNat) Depths.apply Depths.lastHolder d prev events

theorem toNat_saturatingAdd (a b : UInt64) : (saturatingAdd a b).toNat = min (a.toNat + b.toNat) (2 ^ 64 - 1) := by
  have ha := a.toNat_lt
  have hb := b.toNat_lt
  rw [saturatingAdd, checkedAdd]
  by_cases hfits : a.toNat + b.toNat < 2 ^ 64
  · rw [if_pos hfits, Option.getD_some, UInt64.toNat_add, Nat.mod_eq_of_lt hfits]
    omega
  · rw [if_neg hfits, Option.getD_none]
    have hmax : (0xFFFFFFFFFFFFFFFF : UInt64).toNat = 2 ^ 64 - 1 := rfl
    omega

theorem length_account (s : Sweep) (pos : UInt64) : (s.account pos).ownedBy.length = s.ownedBy.length := by
  rw [Sweep.account]
  split
  · cases s.depths.lastHolder with
    | none => rfl
    | some holder => exact List.length_modify _ _ _
  · rfl

/-- **One span**: it is added to the bytes of the snapshot that frees it. -/
theorem owned_account {s : Sweep} {pos : UInt64} (hpos : s.prevPos.toNat ≤ pos.toNat) {o : ℕ} (ho : o < s.ownedBy.length)
    (hfits : s.owned o + (if s.depths.lastHolder = some o then pos.toNat - s.prevPos.toNat else 0) < 2 ^ 64) :
    (s.account pos).owned o
      = s.owned o + if s.depths.lastHolder = some o then pos.toNat - s.prevPos.toNat else 0 := by
  rw [Sweep.account]
  by_cases hlt : s.prevPos < pos
  · rw [if_pos hlt]
    have hle : s.prevPos ≤ pos := UInt64.le_iff_toNat_le.mpr hpos
    cases hholder : s.depths.lastHolder with
    | none => rw [if_neg (Option.some_ne_none o).symm, Nat.add_zero]
    | some holder =>
      have hget : s.ownedBy[o]? = some s.ownedBy[o] := List.getElem?_eq_getElem ho
      rw [hholder] at hfits
      dsimp only
      rw [Sweep.owned, Sweep.owned, List.getElem?_modify, hget, Option.map_eq_map]
      rw [Sweep.owned, hget] at hfits
      by_cases hsame : holder = o
      · rw [if_pos (congrArg some hsame)] at hfits ⊢
        rw [Option.getD_some] at hfits
        rw [Option.map_some, if_pos hsame, Option.getD_some, Option.getD_some, toNat_saturatingAdd,
          UInt64.toNat_sub_of_le _ _ hle]
        omega
      · rw [if_neg fun h => hsame (Option.some.inj h), Option.map_some, if_neg hsame, Nat.add_zero]
  · have hsame : pos.toNat - s.prevPos.toNat = 0 := by
      have hge := UInt64.le_iff_toNat_le.mp (UInt64.not_lt.mp hlt)
      omega
    rw [if_neg hlt, hsame, ite_self, Nat.add_zero]

/-- **What a sweep finds for a snapshot** is the length of the spans it frees. -/
theorem owned_foldl_step {s : Sweep} {events : List Boundary}
    (hsorted : events.Pairwise fun a b => a.pos.toNat ≤ b.pos.toNat) (hprev : ∀ e ∈ events, s.prevPos.toNat ≤ e.pos.toNat)
    {o : ℕ} (ho : o < s.ownedBy.length)
    (hfits : s.owned o + lengthOf o (holderSpans s.depths s.prevPos.toNat events) < 2 ^ 64) :
    (events.foldl Sweep.step s).owned o = s.owned o + lengthOf o (holderSpans s.depths s.prevPos.toNat events) := by
  induction events generalizing s with
  | nil => rfl
  | cons e events ih =>
    obtain ⟨hfirst, hrest⟩ := List.pairwise_cons.mp hsorted
    have hspan : lengthOf o (holderSpans s.depths s.prevPos.toNat (e :: events))
        = (if s.depths.lastHolder = some o then e.pos.toNat - s.prevPos.toNat else 0)
          + lengthOf o (holderSpans (s.step e).depths (s.step e).prevPos.toNat events) := by
      rw [lengthOf, holderSpans, spans, List.filter_cons]
      by_cases hholder : s.depths.lastHolder = some o
      · rw [decide_eq_true hholder, if_pos rfl, if_pos hholder]
        rfl
      · rw [decide_eq_false hholder, if_neg Bool.false_ne_true, if_neg hholder, Nat.zero_add]
        rfl
    rw [hspan] at hfits
    have haccount : (s.step e).owned o
        = s.owned o + if s.depths.lastHolder = some o then e.pos.toNat - s.prevPos.toNat else 0 :=
      owned_account (hprev e List.mem_cons_self) ho (by omega)
    have hlength : (s.step e).ownedBy.length = s.ownedBy.length := length_account s e.pos
    rw [List.foldl_cons, hspan, ih hrest hfirst (hlength ▸ ho) (by omega), haccount, Nat.add_assoc]

theorem length_foldl_step (s : Sweep) (events : List Boundary) :
    (events.foldl Sweep.step s).ownedBy.length = s.ownedBy.length := by
  induction events generalizing s with
  | nil => rfl
  | cons e events ih => exact (ih (s.step e)).trans (length_account s e.pos)

/-! ## Depths -/

/-- Every range with its owner. -/
def holdings (ordered : List (List PhysicalRange)) (external : List PhysicalRange) : List (Option ℕ × PhysicalRange) :=
  (ordered.zipIdx.flatMap fun rs => rs.1.map fun r => (some rs.2, r)) ++ external.map fun r => (none, r)

theorem boundaries_eq (ordered : List (List PhysicalRange)) (external : List PhysicalRange) :
    boundaries ordered external = (holdings ordered external).flatMap fun h => push h.1 h.2 := by
  rw [boundaries, holdings, List.flatMap_append, List.flatMap_assoc, List.flatMap_map]
  congr 2
  funext rs
  rw [List.flatMap_map]

/-- How the boundaries of a list change the number of an owner's ranges. -/
def depthIn (o : Option ℕ) (l : List Boundary) : ℤ := (l.map fun e => if e.owner = o then e.delta else 0).sum

theorem depthIn_concat (o : Option ℕ) (l : List Boundary) (e : Boundary) :
    depthIn o (l ++ [e]) = depthIn o l + if e.owner = o then e.delta else 0 := by
  rw [depthIn, List.map_append, List.sum_append, List.map_singleton, List.sum_singleton, depthIn]

/-- A sum over the boundaries is one over the ranges. -/
theorem sum_boundaries {events : List Boundary} {ordered : List (List PhysicalRange)} {external : List PhysicalRange}
    (hperm : events.Perm (boundaries ordered external)) (g : Boundary → ℤ) :
    (events.map g).sum = ((holdings ordered external).map fun h => ((push h.1 h.2).map g).sum).sum := by
  rw [(hperm.map g).sum_eq, boundaries_eq]
  induction holdings ordered external with
  | nil => rfl
  | cons h l ih => rw [List.flatMap_cons, List.map_append, List.sum_append, ih, List.map_cons, List.sum_cons]

variable {ordered : List (List PhysicalRange)} {external : List PhysicalRange}

/-- **No depth is negative** on the way, below the greatest position: what has ended by `q` had begun before it. -/
theorem depthIn_nonneg {before later : List Boundary} (hperm : (before ++ later).Perm (boundaries ordered external))
    {q : ℕ} (hq : q < 2 ^ 64 - 1) (hbefore : ∀ e ∈ before, e.pos.toNat ≤ q) (hlater : ∀ e ∈ later, q ≤ e.pos.toNat)
    (o : Option ℕ) : 0 ≤ depthIn o before := by
  -- at `q` itself only the ends count
  let g : Boundary → ℤ := fun e =>
    if e.owner = o then if e.pos.toNat < q then e.delta else if e.pos.toNat = q then min e.delta 0 else 0 else 0
  have hall : 0 ≤ ((before ++ later).map g).sum := by
    rw [sum_boundaries hperm g]
    apply List.sum_nonneg
    intro n hn
    obtain ⟨h, -, rfl⟩ := List.mem_map.mp hn
    rw [push]
    by_cases hempty : h.2.2 = 0
    · rw [if_pos hempty]
      exact le_rfl
    · have hlength : h.2.2.toNat ≠ 0 := fun hzero => hempty (UInt64.toNat_inj.mp hzero)
      have hstop := toNat_saturatingAdd h.2.1 h.2.2
      rw [if_neg hempty]
      simp only [List.map_cons, List.map_nil, List.sum_cons, List.sum_nil, g]
      by_cases howner : h.1 = o
      · rw [if_pos howner, if_pos howner]
        split_ifs <;> omega
      · rw [if_neg howner, if_neg howner]
        exact le_rfl
  have hearlier : (before.map g).sum ≤ depthIn o before := by
    apply List.sum_le_sum
    intro e he
    have hle := hbefore e he
    simp only [g]
    split_ifs <;> omega
  have hrest : (later.map g).sum ≤ (later.map fun _ => (0 : ℤ)).sum := by
    apply List.sum_le_sum
    intro e he
    have hge := hlater e he
    simp only [g]
    split_ifs <;> omega
  rw [List.map_const', List.sum_replicate, smul_zero] at hrest
  rw [List.map_append, List.sum_append] at hall
  omega

/-- **The depth at a position** is the number of ranges that hold it. -/
theorem depthIn_eq {before later : List Boundary} (hperm : (before ++ later).Perm (boundaries ordered external))
    {p : ℕ} (hbefore : ∀ e ∈ before, e.pos.toNat ≤ p) (hlater : ∀ e ∈ later, p < e.pos.toNat)
    (o : Option ℕ) :
    depthIn o before = (holdings ordered external).countP fun h => decide (h.1 = o ∧ Covers h.2 p) := by
  let g : Boundary → ℤ := fun e => if e.owner = o then if e.pos.toNat ≤ p then e.delta else 0 else 0
  have hearlier : depthIn o before = (before.map g).sum := by
    rw [depthIn]
    congr 1
    apply List.map_congr_left
    intro e he
    simp only [g]
    rw [if_pos (hbefore e he)]
  have hrest : (later.map g).sum = 0 := by
    apply List.sum_eq_zero
    intro n hn
    obtain ⟨e, he, rfl⟩ := List.mem_map.mp hn
    simp only [g]
    rw [if_neg (not_le.mpr (hlater e he)), ite_self]
  have hrange : ∀ h : Option ℕ × PhysicalRange,
      ((push h.1 h.2).map g).sum = if h.1 = o ∧ Covers h.2 p then 1 else 0 := by
    intro h
    rw [push]
    by_cases hempty : h.2.2 = 0
    · have hnot : ¬ Covers h.2 p := by
        rintro ⟨hlow, hhigh⟩
        rw [hempty] at hhigh
        have hzero : (0 : UInt64).toNat = 0 := rfl
        omega
      rw [if_pos hempty, if_neg fun hboth => hnot hboth.2]
      rfl
    · have hlength : h.2.2.toNat ≠ 0 := fun hzero => hempty (UInt64.toNat_inj.mp hzero)
      have hstop := toNat_saturatingAdd h.2.1 h.2.2
      have hcovers : Covers h.2 p ↔ h.2.1.toNat ≤ p ∧ ¬ (saturatingAdd h.2.1 h.2.2).toNat ≤ p := by
        rw [Covers]
        omega
      rw [if_neg hempty]
      simp only [List.map_cons, List.map_nil, List.sum_cons, List.sum_nil, g]
      by_cases howner : h.1 = o
      · rw [if_pos howner, if_pos howner]
        by_cases hhere : Covers h.2 p
        · obtain ⟨hlow, hhigh⟩ := hcovers.mp hhere
          rw [if_pos hlow, if_neg hhigh, if_pos ⟨howner, hhere⟩]
          rfl
        · have hneither : ¬ (h.1 = o ∧ Covers h.2 p) := fun hboth => hhere hboth.2
          rw [if_neg hneither]
          by_cases hlow : h.2.1.toNat ≤ p
          · -- it has begun and ended
            have hhigh : (saturatingAdd h.2.1 h.2.2).toNat ≤ p := by
              by_contra hhigh
              exact hhere (hcovers.mpr ⟨hlow, hhigh⟩)
            rw [if_pos hlow, if_pos hhigh]
            rfl
          · have hstart := h.2.1.toNat_lt
            have hhigh : ¬ (saturatingAdd h.2.1 h.2.2).toNat ≤ p := by omega
            rw [if_neg hlow, if_neg hhigh]
            rfl
      · rw [if_neg howner, if_neg howner, if_neg fun hboth => howner hboth.1]
        rfl
  have hall := sum_boundaries hperm g
  rw [List.map_append, List.sum_append, hrest, add_zero, ← hearlier] at hall
  rw [hall]
  induction holdings ordered external with
  | nil => rfl
  | cons h l ih =>
    rw [List.map_cons, List.sum_cons, ih, hrange, List.countP_cons]
    by_cases hcovers : h.1 = o ∧ Covers h.2 p
    · rw [if_pos hcovers, decide_eq_true hcovers, if_pos rfl]
      push_cast
      exact add_comm _ _
    · rw [if_neg hcovers, decide_eq_false hcovers, if_neg Bool.false_ne_true, zero_add]
      rfl

/-- **The depths after the boundaries up to a place**: those of the snapshots that hold something there are on record. -/
theorem foldl_apply {before later : List Boundary} (hperm : (before ++ later).Perm (boundaries ordered external))
    (hsorted : (before ++ later).Pairwise fun a b => a.pos.toNat ≤ b.pos.toNat)
    (hbelow : ∀ e ∈ before, e.pos.toNat < 2 ^ 64 - 1) :
    (before.foldl Depths.apply Depths.empty).external = depthIn none before
      ∧ ∀ o, (before.foldl Depths.apply Depths.empty).active.get o
          = if 0 < depthIn (some o) before then some (depthIn (some o) before) else none := by
  induction before using List.reverseRecOn generalizing later with
  | nil => exact ⟨rfl, fun o => rfl⟩
  | append_singleton before e ih =>
    have hsplit : before ++ [e] ++ later = before ++ e :: later := by rw [List.append_assoc, List.singleton_append]
    have hbefore : ∀ e' ∈ before, e'.pos.toNat ≤ e.pos.toNat := by
      intro e' he'
      rw [hsplit] at hsorted
      exact (List.pairwise_append.mp hsorted).2.2 e' he' e List.mem_cons_self
    have hlater : ∀ e' ∈ e :: later, e.pos.toNat ≤ e'.pos.toNat := by
      rw [hsplit] at hsorted
      exact List.forall_mem_cons.mpr ⟨le_rfl, (List.pairwise_cons.mp (List.pairwise_append.mp hsorted).2.1).1⟩
    have hpos := hbelow e (List.mem_append_right _ (List.mem_singleton_self e))
    obtain ⟨hexternal, hactive⟩ := ih (hsplit ▸ hperm) (hsplit ▸ hsorted)
      fun e' he' => hbelow e' (List.mem_append_left _ he')
    have hnonneg : ∀ o, 0 ≤ depthIn o before := depthIn_nonneg (hsplit ▸ hperm) hpos hbefore hlater
    rw [List.foldl_append, List.foldl_cons, List.foldl_nil, Depths.apply]
    cases howner : e.owner with
    | none =>
      have hother : ∀ o, ¬ e.owner = some o := by
        intro o
        rw [howner]
        exact (Option.some_ne_none o).symm
      refine ⟨?_, fun o => ?_⟩
      · rw [depthIn_concat, if_pos howner, ← hexternal]
      · rw [depthIn_concat, if_neg (hother o), add_zero]
        exact hactive o
    | some idx =>
      have hcount : ((before.foldl Depths.apply Depths.empty).active.get idx).getD 0 = depthIn (some idx) before := by
        rw [hactive idx]
        split
        · rfl
        · exact le_antisymm (hnonneg _) (not_lt.mp ‹_›)
      have hinside : ¬ e.owner = none := by
        rw [howner]
        exact Option.some_ne_none idx
      refine ⟨?_, fun o => ?_⟩
      · rw [depthIn_concat, if_neg hinside, add_zero]
        exact hexternal
      · dsimp only
        rw [hcount, depthIn_concat]
        by_cases hsame : o = idx
        · have hmine : e.owner = some o := by rw [howner, hsame]
          rw [if_pos hmine, hsame]
          by_cases hzero : depthIn (some idx) before + e.delta ≤ 0
          · rw [if_pos hzero, SortedMap.get_remove, if_pos rfl, if_neg (not_lt.mpr hzero)]
          · rw [if_neg hzero, SortedMap.get_insert_self, if_pos (not_le.mp hzero)]
        · have hother : ¬ e.owner = some o := by
            rw [howner]
            exact fun h => hsame (Option.some.inj h).symm
          rw [if_neg hother, add_zero, ← hactive o]
          split
          · rw [SortedMap.get_remove, if_neg hsame]
          · rw [SortedMap.get_insert, if_neg hsame]

/-! ## The holder of a position -/

theorem mem_holdings {o : Option ℕ} {r : PhysicalRange} :
    (o, r) ∈ holdings ordered external
      ↔ (∃ i ranges, o = some i ∧ ordered[i]? = some ranges ∧ r ∈ ranges) ∨ o = none ∧ r ∈ external := by
  rw [holdings, List.mem_append, List.mem_flatMap, List.mem_map]
  constructor
  · rintro (⟨⟨ranges, i⟩, hmem, hr⟩ | ⟨r', hr', heq⟩)
    · obtain ⟨r', hr', heq⟩ := List.mem_map.mp hr
      obtain ⟨rfl, rfl⟩ := Prod.mk.inj heq
      exact .inl ⟨i, ranges, rfl, List.mk_mem_zipIdx_iff_getElem?.mp hmem, hr'⟩
    · obtain ⟨rfl, rfl⟩ := Prod.mk.inj heq
      exact .inr ⟨rfl, hr'⟩
  · rintro (⟨i, ranges, rfl, hget, hr⟩ | ⟨rfl, hr⟩)
    · exact .inl ⟨(ranges, i), List.mk_mem_zipIdx_iff_getElem?.mpr hget, List.mem_map.mpr ⟨r, hr, rfl⟩⟩
    · exact .inr ⟨r, hr, rfl⟩

/-- The ranges of an owner that hold a position. -/
theorem countP_holdings_pos (external : List PhysicalRange) {o p : ℕ} :
    0 < (holdings ordered external).countP (fun h => decide (h.1 = some o ∧ Covers h.2 p)) ↔ Holds ordered o p := by
  rw [List.countP_pos_iff]
  constructor
  · rintro ⟨⟨o', r⟩, hmem, hboth⟩
    obtain ⟨rfl, hcovers⟩ := of_decide_eq_true hboth
    rcases mem_holdings.mp hmem with ⟨i, ranges, heq, hget, hr⟩ | ⟨hnone, -⟩
    · obtain rfl := Option.some.inj heq
      exact ⟨ranges, hget, r, hr, hcovers⟩
    · exact absurd hnone (Option.some_ne_none o)
  · rintro ⟨ranges, hget, r, hr, hcovers⟩
    exact ⟨(some o, r), mem_holdings.mpr (.inl ⟨o, ranges, rfl, hget, hr⟩), decide_eq_true ⟨rfl, hcovers⟩⟩

theorem countP_holdings_external (ordered : List (List PhysicalRange)) {p : ℕ} :
    (holdings ordered external).countP (fun h => decide (h.1 = none ∧ Covers h.2 p)) = 0
      ↔ ∀ r ∈ external, ¬ Covers r p := by
  rw [List.countP_eq_zero]
  constructor
  · intro h r hr hcovers
    exact h (none, r) (mem_holdings.mpr (.inr ⟨rfl, hr⟩)) (decide_eq_true ⟨rfl, hcovers⟩)
  · rintro h ⟨o, r⟩ hmem hboth
    obtain ⟨rfl, hcovers⟩ := of_decide_eq_true hboth
    rcases mem_holdings.mp hmem with ⟨i, ranges, heq, -, -⟩ | ⟨-, hr⟩
    · exact absurd heq (Option.some_ne_none i).symm
    · exact h r hr hcovers

/-- **The snapshot that frees a position** below the greatest is the newest that holds it, if no outside file does. -/
theorem lastHolder_stateAt {events : List Boundary} (hperm : events.Perm (boundaries ordered external))
    (hsorted : events.Pairwise fun a b => a.pos.toNat ≤ b.pos.toNat) {p : ℕ} (hp : p < 2 ^ 64 - 1) (o : ℕ) :
    (stateAt (fun e => e.pos.toNat) Depths.apply Depths.empty events p).lastHolder = some o
      ↔ Holds ordered o p ∧ (∀ i, o < i → ¬ Holds ordered i p) ∧ ∀ r ∈ external, ¬ Covers r p := by
  obtain ⟨before, later, rfl, hbefore, hlater, hstate⟩ :=
    exists_stateAt_eq Depths.apply Depths.empty hsorted p
  have hdepth := depthIn_eq hperm hbefore hlater
  obtain ⟨hexternal, hactive⟩ := foldl_apply hperm hsorted fun e he => (hbefore e he).trans_lt hp
  have hget : ∀ i, (before.foldl Depths.apply Depths.empty).active.get i = none
      ↔ ¬ Holds ordered i p := by
    intro i
    rw [hactive, hdepth, ← countP_holdings_pos external]
    by_cases hpos : 0 < (holdings ordered external).countP fun h => decide (h.1 = some i ∧ Covers h.2 p)
    · rw [if_pos (by exact_mod_cast hpos)]
      exact ⟨fun h => absurd h (Option.some_ne_none _), fun h => absurd hpos h⟩
    · rw [if_neg (by exact_mod_cast hpos)]
      exact ⟨fun _ => hpos, fun _ => rfl⟩
  have houtside : (before.foldl Depths.apply Depths.empty).external = 0
      ↔ ∀ r ∈ external, ¬ Covers r p := by
    rw [hexternal, hdepth, ← countP_holdings_external ordered]
    exact_mod_cast Iff.rfl
  rw [hstate, Depths.lastHolder]
  by_cases hnone : (before.foldl Depths.apply Depths.empty).external = 0
  · rw [if_pos hnone, SortedMap.lastKey_eq_some, and_iff_left (houtside.mp hnone)]
    refine and_congr ?_ (forall_congr' fun i => forall_congr' fun _ => hget i)
    rw [Option.isSome_iff_ne_none, ne_eq, hget o, not_not]
  · rw [if_neg hnone]
    exact ⟨fun h => absurd h (Option.some_ne_none o).symm, fun h => absurd (houtside.mpr h.2.2) hnone⟩

/-! ## The totals -/

theorem length_prefixTotals (running : UInt64) (l : List UInt64) : (prefixTotals running l).length = l.length := by
  induction l generalizing running with
  | nil => rfl
  | cons bytes rest ih => rw [prefixTotals, List.length_cons, ih, List.length_cons]

/-- **The running totals** that fit. -/
theorem prefixTotals_spec (running : UInt64) (l : List UInt64)
    (hfits : running.toNat + (∑ i ∈ Finset.range l.length, (l[i]?.getD 0).toNat) < 2 ^ 64) {k : ℕ} (hk : k < l.length) :
    ∃ n, (prefixTotals running l)[k]? = some n
      ∧ n.toNat = running.toNat + ∑ i ∈ Finset.range (k + 1), (l[i]?.getD 0).toNat := by
  induction l generalizing running k with
  | nil => exact absurd hk (Nat.not_lt_zero k)
  | cons bytes rest ih =>
    have hfirst : ∀ n, (∑ i ∈ Finset.range (n + 1), ((bytes :: rest)[i]?.getD 0).toNat)
        = (∑ i ∈ Finset.range n, (rest[i]?.getD 0).toNat) + bytes.toNat := fun n => Finset.sum_range_succ' _ n
    rw [List.length_cons, hfirst] at hfits
    have hsum : (saturatingAdd running bytes).toNat = running.toNat + bytes.toNat := by
      rw [toNat_saturatingAdd]
      omega
    rw [hfirst]
    cases k with
    | zero => exact ⟨_, rfl, by rw [hsum, Finset.range_zero, Finset.sum_empty, Nat.zero_add]⟩
    | succ k =>
      obtain ⟨n, hget, hn⟩ := ih (saturatingAdd running bytes) (by omega) (Nat.lt_of_succ_lt_succ hk)
      exact ⟨n, hget, by omega⟩

/-- The last boundary is no later than the greatest position. -/
theorem lastPos_le (first : Boundary) (rest : List Boundary) :
    lastPos (fun e => e.pos.toNat) first.pos.toNat (first :: rest) ≤ 2 ^ 64 - 1 := by
  have hmem : ∃ e ∈ first :: rest, lastPos (fun e => e.pos.toNat) first.pos.toNat (first :: rest) = e.pos.toNat :=
    lastPos_mem first.pos.toNat (List.cons_ne_nil first rest)
  obtain ⟨e, -, heq⟩ := hmem
  have hlt := e.pos.toNat_lt
  omega

/-- A position that is freed lies between the first boundary and the last, and is freed with its holder. -/
theorem freed_eq {first : Boundary} {rest : List Boundary} (hperm : (first :: rest).Perm (boundaries ordered external))
    (hsorted : (first :: rest).Pairwise fun a b => a.pos.toNat ≤ b.pos.toNat) (k : ℕ) :
    freed ordered external k = ((Finset.range (k + 1)).biUnion fun o =>
      (Finset.Ico first.pos.toNat (lastPos (fun e => e.pos.toNat) first.pos.toNat (first :: rest))).filter fun p =>
        (stateAt (fun e => e.pos.toNat) Depths.apply Depths.empty (first :: rest) p).lastHolder = some o : Finset ℕ) := by
  have hlast := lastPos_le first rest
  ext p
  simp only [freed, Set.mem_ofPred_eq, Finset.coe_biUnion, Set.mem_iUnion, Finset.mem_coe, Finset.mem_range,
    Finset.mem_filter, Finset.mem_Ico, exists_prop]
  constructor
  · rintro ⟨⟨i, hi, hholds⟩, hlater, hexternal⟩
    -- the newest holder is among the snapshots up to `k`
    have hnewest : ∃ o ≤ k, Holds ordered o p ∧ ∀ j, o < j → ¬ Holds ordered j p := by
      classical
      refine ⟨Nat.findGreatest (fun j => Holds ordered j p) k, Nat.findGreatest_le k,
        Nat.findGreatest_spec (P := fun j => Holds ordered j p) hi hholds, fun j hj => ?_⟩
      by_cases hjk : j ≤ k
      · exact Nat.findGreatest_is_greatest (P := fun j => Holds ordered j p) hj hjk
      · exact hlater j (not_le.mp hjk)
    obtain ⟨o, ho, hholder, hnone⟩ := hnewest
    obtain ⟨ranges, hget, r, hr, hcovers⟩ := hholder
    have hpushed : ∀ e ∈ push (some o) r, e ∈ first :: rest := by
      intro e he
      rw [hperm.mem_iff, boundaries_eq]
      exact List.mem_flatMap.mpr ⟨(some o, r), mem_holdings.mpr (.inl ⟨o, ranges, rfl, hget, hr⟩), he⟩
    have hlength : r.2 ≠ 0 := by
      intro hzero
      have hhigh := hcovers.2
      have hlow := hcovers.1
      have htoNat : r.2.toNat = 0 := by rw [hzero]; rfl
      omega
    rw [push, if_neg hlength] at hpushed
    have hstart := hpushed _ List.mem_cons_self
    have hstop := hpushed _ (List.mem_cons_of_mem _ (List.mem_singleton_self _))
    have hlow : first.pos.toNat ≤ r.1.toNat := by
      rcases List.mem_cons.mp hstart with heq | hmem
      · rw [← heq]
      · exact (List.pairwise_cons.mp hsorted).1 _ hmem
    have hhigh := le_lastPos_of_mem first.pos.toNat hsorted _ hstop
    rw [toNat_saturatingAdd] at hhigh
    have hp := hcovers.2
    refine ⟨o, Nat.lt_succ_of_le ho, ⟨hlow.trans hcovers.1, hp.trans_le hhigh⟩, ?_⟩
    rw [lastHolder_stateAt hperm hsorted (by omega)]
    exact ⟨⟨ranges, hget, r, hr, hcovers⟩, hnone, hexternal⟩
  · rintro ⟨o, ho, ⟨-, hp⟩, hholder⟩
    obtain ⟨hholds, hnone, hexternal⟩ := (lastHolder_stateAt hperm hsorted (hp.trans_le hlast) o).mp hholder
    exact ⟨⟨o, Nat.le_of_lt_succ ho, hholds⟩, fun i hi => hnone i (by omega), hexternal⟩

/-- Without boundaries nothing is freed. -/
theorem freed_of_nil (h : boundaries ordered external = []) (k : ℕ) : freed ordered external k = ∅ := by
  apply Set.eq_empty_of_forall_notMem
  rintro p ⟨⟨i, -, ranges, hget, r, hr, hcovers⟩, -, -⟩
  have hnone : push (some i) r = [] := by
    rw [boundaries_eq] at h
    exact List.flatMap_eq_nil_iff.mp h (some i, r) (mem_holdings.mpr (.inl ⟨i, ranges, rfl, hget, hr⟩))
  rw [push] at hnone
  by_cases hlength : r.2 = 0
  · have hhigh := hcovers.2
    have hlow := hcovers.1
    have htoNat : r.2.toNat = 0 := by rw [hlength]; rfl
    omega
  · rw [if_neg hlength] at hnone
    exact nomatch hnone

/-- **The totals over sorted boundaries.** -/
theorem prefixTotals_sweep {first : Boundary} {rest : List Boundary}
    (hperm : (first :: rest).Perm (boundaries ordered external))
    (hsorted : (first :: rest).Pairwise fun a b => a.pos.toNat ≤ b.pos.toNat) {k : ℕ} (hk : k < ordered.length) :
    ∃ n, (prefixTotals 0 (((first :: rest).splitBy fun a b => a.pos == b.pos).foldl Sweep.visit
        ⟨List.replicate ordered.length 0, Depths.empty, first.pos⟩).ownedBy)[k]? = some n
      ∧ (n.toNat : ℕ∞) = (freed ordered external k).encard := by
  let start : Sweep := ⟨List.replicate ordered.length 0, Depths.empty, first.pos⟩
  let window := Finset.Ico first.pos.toNat (lastPos (fun e : Boundary => e.pos.toNat) first.pos.toNat (first :: rest))
  let heldBy : ℕ → Finset ℕ := fun o => window.filter fun p =>
    (stateAt (fun e => e.pos.toNat) Depths.apply Depths.empty (first :: rest) p).lastHolder = some o
  have hprev : ∀ e ∈ first :: rest, first.pos.toNat ≤ e.pos.toNat :=
    List.forall_mem_cons.mpr ⟨le_rfl, (List.pairwise_cons.mp hsorted).1⟩
  have hwindow : window.card < 2 ^ 64 := by
    have hlast := lastPos_le first rest
    rw [Nat.card_Ico]
    omega
  -- no position is held by two snapshots
  have hdisjoint : ∀ n, Set.PairwiseDisjoint (Finset.range n : Set ℕ) heldBy := by
    intro n o _ o' _ hne
    apply Finset.disjoint_left.mpr
    intro p hp hp'
    exact hne (Option.some.inj ((Finset.mem_filter.mp hp).2.symm.trans (Finset.mem_filter.mp hp').2))
  have hsum : ∀ n, ∑ o ∈ Finset.range n, (heldBy o).card = ((Finset.range n).biUnion heldBy).card := fun n =>
    (Finset.card_biUnion (hdisjoint n)).symm
  have hle : ∀ n, ∑ o ∈ Finset.range n, (heldBy o).card < 2 ^ 64 := by
    intro n
    rw [hsum]
    refine (Finset.card_le_card ?_).trans_lt hwindow
    exact Finset.biUnion_subset.mpr fun o _ => Finset.filter_subset _ _
  have hlength : ((first :: rest).foldl Sweep.step start).ownedBy.length = ordered.length := by
    rw [length_foldl_step]
    exact List.length_replicate
  have howned : ∀ o < ordered.length,
      (((first :: rest).foldl Sweep.step start).ownedBy[o]?.getD 0).toNat = (heldBy o).card := by
    intro o ho
    have hzero : start.owned o = 0 := by
      rw [Sweep.owned, List.getElem?_replicate_of_lt ho]
      rfl
    have hspans : lengthOf o (holderSpans Depths.empty first.pos.toNat (first :: rest)) = (heldBy o).card :=
      sum_spans hsorted hprev (some o)
    have hfits : (heldBy o).card < 2 ^ 64 := by
      refine (Finset.card_le_card ?_).trans_lt hwindow
      exact Finset.filter_subset _ _
    have hfound := owned_foldl_step (s := start) hsorted hprev (o := o) (by rw [List.length_replicate]; exact ho)
      (by rw [hzero, Nat.zero_add]; exact hspans.trans_lt hfits)
    rw [hzero, Nat.zero_add] at hfound
    exact hfound.trans hspans
  have htotals : ∀ n ≤ ordered.length,
      (∑ i ∈ Finset.range n, (((first :: rest).foldl Sweep.step start).ownedBy[i]?.getD 0).toNat)
        = ∑ o ∈ Finset.range n, (heldBy o).card := by
    intro n hn
    apply Finset.sum_congr rfl
    intro o ho
    exact howned o ((Finset.mem_range.mp ho).trans_le hn)
  rw [foldl_visit_splitBy]
  obtain ⟨n, hget, hn⟩ := prefixTotals_spec 0 ((first :: rest).foldl Sweep.step start).ownedBy
    (by
      rw [hlength, htotals _ le_rfl]
      exact (Nat.zero_add _).trans_lt (hle _))
    (k := k) (by rw [hlength]; exact hk)
  refine ⟨n, hget, ?_⟩
  rw [hn, htotals (k + 1) hk, hsum, freed_eq hperm hsorted, Set.encard_coe_eq_coe_finsetCard]
  exact congrArg _ (Nat.zero_add _)

theorem freed_mono {k l : ℕ} (h : k ≤ l) : freed ordered external k ⊆ freed ordered external l := by
  rintro p ⟨⟨i, hi, hholds⟩, hlater, hexternal⟩
  exact ⟨⟨i, hi.trans h, hholds⟩, fun j hj => hlater j (h.trans_lt hj), hexternal⟩

/-- **The reclaim totals are exact**: there is one for each snapshot, it counts the bytes that deleting the snapshots up
to it frees, and the totals never decrease. -/
theorem reclaim_exact (ordered : List (List PhysicalRange)) (external : List PhysicalRange) :
    (cumulativeReclaim ordered external).length = ordered.length
      ∧ (∀ k < ordered.length, ∃ n, (cumulativeReclaim ordered external)[k]? = some n
          ∧ (n.toNat : ℕ∞) = (freed ordered external k).encard)
      ∧ (cumulativeReclaim ordered external).Pairwise (· ≤ ·) := by
  have hperm := List.perm_insertionSort (fun a b : Boundary => a.pos ≤ b.pos) (boundaries ordered external)
  have hsorted : ((boundaries ordered external).insertionSort fun a b => a.pos ≤ b.pos).Pairwise
      fun a b => a.pos.toNat ≤ b.pos.toNat := by
    have htotal : Std.Total fun a b : Boundary => a.pos ≤ b.pos := ⟨fun a b => UInt64.le_total a.pos b.pos⟩
    have htrans : IsTrans Boundary fun a b => a.pos ≤ b.pos := ⟨fun a b c => UInt64.le_trans⟩
    exact (List.pairwise_insertionSort (fun a b : Boundary => a.pos ≤ b.pos) _).imp fun h => UInt64.le_iff_toNat_le.mp h
  have hboth : (cumulativeReclaim ordered external).length = ordered.length
      ∧ ∀ k < ordered.length, ∃ n, (cumulativeReclaim ordered external)[k]? = some n
          ∧ (n.toNat : ℕ∞) = (freed ordered external k).encard := by
    rw [cumulativeReclaim]
    cases hevents : (boundaries ordered external).insertionSort fun a b => a.pos ≤ b.pos with
    | nil =>
      rw [hevents] at hperm
      refine ⟨List.length_replicate, fun k hk => ⟨0, List.getElem?_replicate_of_lt hk, ?_⟩⟩
      rw [freed_of_nil hperm.nil_eq.symm, Set.encard_empty]
      rfl
    | cons first rest =>
      rw [hevents] at hperm hsorted
      refine ⟨?_, fun k hk => prefixTotals_sweep hperm hsorted hk⟩
      rw [length_prefixTotals, foldl_visit_splitBy, length_foldl_step]
      exact List.length_replicate
  refine ⟨hboth.1, hboth.2, List.pairwise_iff_getElem.mpr fun i j hi hj hij => ?_⟩
  obtain ⟨n, hn, hcount⟩ := hboth.2 i (hboth.1 ▸ hi)
  obtain ⟨m, hm, hcount'⟩ := hboth.2 j (hboth.1 ▸ hj)
  rw [List.getElem?_eq_getElem hi] at hn
  rw [List.getElem?_eq_getElem hj] at hm
  rw [Option.some.inj hn, Option.some.inj hm]
  have hle : (n.toNat : ℕ∞) ≤ m.toNat := by
    rw [hcount, hcount']
    exact Set.encard_le_encard (freed_mono hij.le)
  exact UInt64.le_iff_toNat_le.mpr (by exact_mod_cast hle)

end SentryUsb.Snapshot.Reflink
