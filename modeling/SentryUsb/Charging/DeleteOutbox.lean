import SentryUsb.Charging.CloudSweep

/-! # A deleted charge is not resurrected

What every interleaving of the sweeps, bulk deletions and imports keeps of the delete outbox and the upload
records.

* **`Facts`**, **`Proc.Sound`** — the invariant: no session has both rows, an upload record is younger than the
  session's last deletion, and a settled row of a snapshot has not been queued again unless it is pending;
* **`step_keeps`** — every step keeps it;
* **`deleted_charge_stays_deleted`** — the outbox row guards the session until a request sent after its last
  queueing is answered, and the session can be uploaded again afterwards. -/

namespace SentryUsb.Charging

open Library

variable {β : Type}

/-! ## Invariant -/

/-- What holds of the tables. -/
structure Facts (s : System β) : Prop where
  exclusive : ∀ ts, (s.tables.outbox.lookup ts).isSome = true → s.tables.uploads ts = none
  /-- An upload record comes from an upload chosen after the last deletion, and after its outbox row went. -/
  fresh : ∀ ts d, (s.tables.uploads ts).isSome = true → s.queued ts = some d ∨ s.retired ts = some d → d < s.source ts
  past : ∀ ts d, s.queued ts = some d ∨ s.retired ts = some d → d < s.clock

/-- An upload sweep that chose its sessions at `since`: what was deleted since then is queued, and no outbox row
went. -/
structure Chosen (s : System β) (since : Nat) : Prop where
  clock : since < s.clock
  deleted : ∀ ts d, s.queued ts = some d → d < since ∨ (s.tables.outbox.lookup ts).isSome = true
  kept : ∀ ts d, s.retired ts = some d → d < since

/-- A snapshot of the outbox taken at `taken`: a row it shows as settled is as it was, or pending again. -/
structure Snapshot (s : System β) (taken : Nat) (rows : List (Int × Text × Bool)) : Prop where
  clock : taken < s.clock
  nodup : (rows.map Prod.fst).Nodup
  settled : ∀ ts id row, (ts, id, true) ∈ rows → s.tables.outbox.lookup ts = some row → row.ackedAt.isSome = true →
    row.cloudChargeId = id ∧ ∀ d, s.queued ts = some d → d < taken

/-- What the task knows at each point. -/
def Proc.Sound (s : System β) : Proc β → Prop
  | .idle | .begun _ | .known _ _ | .loaded _ _ _ _ | .placed _ _ _ => True
  | .selected since _ | .prepared since _ _ | .posted since _ _ _ | .acking since _ _ _ _ _ => Chosen s since
  | .draining taken rows _ => Snapshot s taken rows
  | .deleting taken sent rows _ => Snapshot s taken rows ∧ taken ≤ sent
  | .settling taken sent rows _ results =>
    Snapshot s taken rows ∧ taken ≤ sent ∧ ∃ post ∈ s.answered, post.sent = sent ∧ ∀ r ∈ results, r ∈ post.results

/-- The invariant. -/
def Inv (s : System β) : Prop := Facts s ∧ s.proc.Sound s

/-! ## Steps that leave the two tables alone -/

/-- The outbox, the upload records and what is known about them stay. -/
structure Quiet (s t : System β) : Prop where
  outbox : t.tables.outbox = s.tables.outbox
  uploads : t.tables.uploads = s.tables.uploads
  queued : t.queued = s.queued
  retired : t.retired = s.retired
  source : t.source = s.source
  clock : t.clock = s.clock + 1
  answered : ∀ p ∈ s.answered, p ∈ t.answered

theorem Quiet.goto (s : System β) (proc : Proc β) : Quiet s (s.goto proc) :=
  ⟨rfl, rfl, rfl, rfl, rfl, rfl, fun _ h => h⟩

theorem Facts.quiet {s t : System β} (h : Facts s) (hq : Quiet s t) : Facts t := by
  refine ⟨?_, ?_, ?_⟩
  · rw [hq.outbox, hq.uploads]
    exact h.exclusive
  · rw [hq.uploads, hq.queued, hq.retired, hq.source]
    exact h.fresh
  · rw [hq.queued, hq.retired, hq.clock]
    exact fun ts d hd => Nat.lt_succ_of_lt (h.past ts d hd)

theorem Chosen.quiet {s t : System β} {since : Nat} (h : Chosen s since) (hq : Quiet s t) : Chosen t since := by
  refine ⟨?_, ?_, ?_⟩
  · rw [hq.clock]
    exact Nat.lt_succ_of_lt h.clock
  · rw [hq.queued, hq.outbox]
    exact h.deleted
  · rw [hq.retired]
    exact h.kept

theorem Snapshot.quiet {s t : System β} {taken : Nat} {rows : List (Int × Text × Bool)}
    (h : Snapshot s taken rows) (hq : Quiet s t) : Snapshot t taken rows := by
  refine ⟨?_, h.nodup, ?_⟩
  · rw [hq.clock]
    exact Nat.lt_succ_of_lt h.clock
  · rw [hq.queued, hq.outbox]
    exact h.settled

theorem Proc.Sound.quiet {s t : System β} {p : Proc β} (h : p.Sound s) (hq : Quiet s t) : p.Sound t := by
  cases p with
  | idle | begun _ | known _ _ | loaded _ _ _ _ | placed _ _ _ => trivial
  | selected _ _ | prepared _ _ _ | posted _ _ _ _ | acking _ _ _ _ _ _ => exact Chosen.quiet h hq
  | draining _ _ _ => exact Snapshot.quiet h hq
  | deleting _ _ _ _ => exact ⟨h.1.quiet hq, h.2⟩
  | settling _ _ _ _ _ =>
    obtain ⟨hsnapshot, hle, post, hpost, hrest⟩ := h
    exact ⟨hsnapshot.quiet hq, hle, post, hq.answered post hpost, hrest⟩

theorem Inv.goto {s : System β} (h : Inv s) {proc : Proc β} (hsound : proc.Sound (s.goto proc)) : Inv (s.goto proc) :=
  ⟨h.1.quiet (Quiet.goto s proc), hsound⟩

theorem Inv.stay {s t : System β} (h : Inv s) (hproc : t.proc = s.proc) (hq : Quiet s t) : Inv t := by
  refine ⟨h.1.quiet hq, ?_⟩
  rw [hproc]
  exact Proc.Sound.quiet h.2 hq

/-! ## A deletion -/

section
variable {chargeId : Int → Text} {s : System β} {now first last : Int}

/-- The state after a deletion. -/
def System.afterDelete (chargeId : Int → Text) (s : System β) (now first last : Int) : System β :=
  { s.tick with
    tables := s.tables.deleteSession chargeId now first last
    queued := Function.update s.queued first (some s.clock) }

theorem Facts.delete (h : Facts s) : Facts (s.afterDelete chargeId now first last) := by
  refine ⟨fun ts hqueued => ?_, fun ts d hup hd => ?_, fun ts d hd => ?_⟩
  · show Function.update s.tables.uploads first none ts = none
    by_cases hts : ts = first
    · rw [hts, Function.update_self]
    · rw [Function.update_of_ne hts]
      refine h.exclusive ts ?_
      rw [← AList.lookup_insert_ne hts]
      exact hqueued
  · by_cases hts : ts = first
    · -- its record is gone
      have hgone : (s.afterDelete chargeId now first last).tables.uploads ts = none := by
        rw [hts]
        exact Function.update_self _ _ _
      rw [hgone] at hup
      exact absurd hup (by simp)
    · have hsame : (s.afterDelete chargeId now first last).tables.uploads ts = s.tables.uploads ts :=
        Function.update_of_ne hts _ _
      have hqueued : (s.afterDelete chargeId now first last).queued ts = s.queued ts := Function.update_of_ne hts _ _
      rw [hsame] at hup
      rw [hqueued] at hd
      exact h.fresh ts d hup hd
  · show d < s.clock + 1
    by_cases hts : ts = first
    · rcases hd with hd | hd
      · have hself : (s.afterDelete chargeId now first last).queued ts = some s.clock := by
          rw [hts]
          exact Function.update_self _ _ _
        rw [hself] at hd
        have := Option.some.inj hd
        omega
      · exact Nat.lt_succ_of_lt (h.past ts d (.inr hd))
    · have hqueued : (s.afterDelete chargeId now first last).queued ts = s.queued ts := Function.update_of_ne hts _ _
      rw [hqueued] at hd
      exact Nat.lt_succ_of_lt (h.past ts d hd)

theorem Chosen.delete {since : Nat} (h : Chosen s since) : Chosen (s.afterDelete chargeId now first last) since := by
  refine ⟨Nat.lt_succ_of_lt h.clock, fun ts d hd => ?_, h.kept⟩
  show d < since ∨ ((s.tables.outbox.insert first _).lookup ts).isSome = true
  by_cases hts : ts = first
  · rw [hts, AList.lookup_insert]
    exact .inr rfl
  · rw [AList.lookup_insert_ne hts]
    refine h.deleted ts d ?_
    rw [← hd]
    exact (Function.update_of_ne hts _ _).symm

theorem Snapshot.delete {taken : Nat} {rows : List (Int × Text × Bool)} (h : Snapshot s taken rows) :
    Snapshot (s.afterDelete chargeId now first last) taken rows := by
  refine ⟨Nat.lt_succ_of_lt h.clock, h.nodup, fun ts id row hmem hlookup hacked => ?_⟩
  by_cases hts : ts = first
  · -- the row is pending again
    have hnew : (s.afterDelete chargeId now first last).tables.outbox.lookup ts = some ⟨chargeId first, now, none⟩ := by
      rw [hts]
      exact AList.lookup_insert _
    rw [hnew] at hlookup
    rw [← Option.some.inj hlookup] at hacked
    exact absurd hacked (by simp)
  · have hsame : (s.afterDelete chargeId now first last).tables.outbox.lookup ts = s.tables.outbox.lookup ts :=
      AList.lookup_insert_ne hts
    have hqueued : (s.afterDelete chargeId now first last).queued ts = s.queued ts := Function.update_of_ne hts _ _
    rw [hqueued]
    exact h.settled ts id row hmem (by rw [← hsame]; exact hlookup) hacked

theorem Inv.delete (h : Inv s) : Inv (s.afterDelete chargeId now first last) := by
  refine ⟨h.1.delete, ?_⟩
  have hsound := h.2
  show s.proc.Sound _
  cases hproc : s.proc with
  | idle | begun _ | known _ _ | loaded _ _ _ _ | placed _ _ _ => trivial
  | selected _ _ | prepared _ _ _ | posted _ _ _ _ | acking _ _ _ _ _ _ =>
    rw [hproc] at hsound
    exact Chosen.delete hsound
  | draining _ _ _ =>
    rw [hproc] at hsound
    exact Snapshot.delete hsound
  | deleting _ _ _ _ =>
    rw [hproc] at hsound
    exact ⟨hsound.1.delete, hsound.2⟩
  | settling _ _ _ _ _ =>
    rw [hproc] at hsound
    exact ⟨hsound.1.delete, hsound.2⟩

end

/-! ## An answered upload -/

section
variable {s : System β} {since : Nat} {proc : Proc β} {e : Sent} {status : UploadStatus} {now : Int}
  {included : Option Int}

/-- The state after one answer of an upload. -/
def System.afterAcknowledge (s : System β) (proc : Proc β) (since : Nat) (e : Sent) (status : UploadStatus) (now : Int)
    (included : Option Int) : System β :=
  { s.goto proc with
    tables := s.tables.acknowledge e status now included
    source := if (s.tables.outbox.lookup e.ts).isSome then s.source else Function.update s.source e.ts since }

theorem Facts.acknowledge (h : Facts s) (hchosen : Chosen s since) :
    Facts (s.afterAcknowledge proc since e status now included) := by
  have hpast : ∀ ts d, s.queued ts = some d ∨ s.retired ts = some d → d < s.clock + 1 :=
    fun ts d hd => Nat.lt_succ_of_lt (h.past ts d hd)
  by_cases hqueued : (s.tables.outbox.lookup e.ts).isSome = true
  · -- refused: nothing changes
    have htables := Tables.acknowledge_of_queued hqueued status now included
    refine ⟨fun ts hts => ?_, fun ts d hup hd => ?_, hpast⟩
    · show (s.tables.acknowledge e status now included).uploads ts = none
      rw [htables]
      refine h.exclusive ts ?_
      rw [← htables]
      exact hts
    · show d < (if (s.tables.outbox.lookup e.ts).isSome then s.source else _) ts
      rw [if_pos hqueued]
      refine h.fresh ts d ?_ hd
      rw [← htables]
      exact hup
  · refine ⟨fun ts hts => ?_, fun ts d hup hd => ?_, hpast⟩
    · have hts : (s.tables.outbox.lookup ts).isSome = true := by
        rw [← s.tables.acknowledge_outbox e status now included]
        exact hts
      have hne : ts ≠ e.ts := fun heq => hqueued (heq ▸ hts)
      show (s.tables.acknowledge e status now included).uploads ts = none
      rw [Tables.acknowledge_uploads_ne hne]
      exact h.exclusive ts hts
    · show d < (if (s.tables.outbox.lookup e.ts).isSome then s.source else Function.update s.source e.ts since) ts
      rw [if_neg hqueued]
      by_cases hts : ts = e.ts
      · rw [hts, Function.update_self]
        rcases hd with hd | hd
        · rcases hchosen.deleted ts d hd with hlt | hqueued'
          · exact hlt
          · rw [hts] at hqueued'
            exact absurd hqueued' hqueued
        · exact hchosen.kept ts d hd
      · rw [Function.update_of_ne hts]
        refine h.fresh ts d ?_ hd
        rw [← Tables.acknowledge_uploads_ne hts status now included]
        exact hup

theorem Chosen.acknowledge (h : Chosen s since) : Chosen (s.afterAcknowledge proc since e status now included) since := by
  refine ⟨Nat.lt_succ_of_lt h.clock, fun ts d hd => ?_, h.kept⟩
  show d < since ∨ ((s.tables.acknowledge e status now included).outbox.lookup ts).isSome = true
  rw [Tables.acknowledge_outbox]
  exact h.deleted ts d hd

end

/-! ## An answered deletion -/

theorem mem_of_rowWith {rows : List (Int × Text × Bool)} {id : Text} {row : Int × Text × Bool}
    (h : rowWith rows id = some row) : row ∈ rows ∧ row.2.1 = id := by
  unfold rowWith at h
  have hid : (row.2.1 == id) = true := @List.find?_some _ (fun r : Int × Text × Bool => r.2.1 == id) _ _ h
  exact ⟨List.mem_reverse.mp (List.mem_of_find?_eq_some h), eq_of_beq hid⟩

section
variable {s : System β} {taken : Nat} {rows : List (Int × Text × Bool)} {proc : Proc β} {row : Int × Text × Bool}
  {status : DeleteStatus} {now : Int}

/-- The state after one answer of a deletion. -/
def System.afterSettle (s : System β) (proc : Proc β) (row : Int × Text × Bool) (status : DeleteStatus) (now : Int) :
    System β :=
  { s.goto proc with
    tables := s.tables.settle row status now
    retired := if (s.tables.outbox.lookup row.1).isSome
        && ((s.tables.settle row status now).outbox.lookup row.1).isNone then
      Function.update s.retired row.1 (some s.clock) else s.retired }

theorem Facts.settle (h : Facts s) : Facts (s.afterSettle proc row status now) := by
  have huploads : (s.afterSettle proc row status now).tables.uploads = s.tables.uploads :=
    s.tables.settle_uploads row status now
  -- a row that is left after the answer was there before it
  have hleft : ∀ ts, ((s.afterSettle proc row status now).tables.outbox.lookup ts).isSome = true →
      (s.tables.outbox.lookup ts).isSome = true := by
    intro ts hts
    have hts : ((s.tables.settle row status now).outbox.lookup ts).isSome = true := hts
    rcases s.tables.settle_cases row status now with heq | ⟨r, -, -, hrow, -, heq⟩ | ⟨r, -, hrow, heq⟩
    · rw [heq] at hts
      exact hts
    · rw [heq] at hts
      by_cases hne : ts = row.1
      · rw [hne, hrow]
        rfl
      · rw [AList.lookup_erase_ne hne] at hts
        exact hts
    · rw [heq] at hts
      by_cases hne : ts = row.1
      · rw [hne, hrow]
        rfl
      · rw [AList.lookup_insert_ne hne] at hts
        exact hts
  -- only the session of a removed row is retired now, and it had no upload record
  have hretired : ∀ ts d, (s.afterSettle proc row status now).retired ts = some d →
      s.retired ts = some d ∨ ((s.tables.outbox.lookup ts).isSome = true ∧ d = s.clock) := by
    intro ts d hd
    have hd : (if (s.tables.outbox.lookup row.1).isSome
        && ((s.tables.settle row status now).outbox.lookup row.1).isNone then
        Function.update s.retired row.1 (some s.clock) else s.retired) ts = some d := hd
    split at hd
    · rename_i hgone
      by_cases hts : ts = row.1
      · rw [hts, Function.update_self] at hd
        rw [Bool.and_eq_true] at hgone
        rw [hts]
        exact .inr ⟨hgone.1, (Option.some.inj hd).symm⟩
      · rw [Function.update_of_ne hts] at hd
        exact .inl hd
    · exact .inl hd
  refine ⟨fun ts hts => ?_, fun ts d hup hd => ?_, fun ts d hd => ?_⟩
  · rw [huploads]
    exact h.exclusive ts (hleft ts hts)
  · rw [huploads] at hup
    rcases hd with hd | hd
    · exact h.fresh ts d hup (.inl hd)
    · rcases hretired ts d hd with hd | ⟨hqueued, -⟩
      · exact h.fresh ts d hup (.inr hd)
      · rw [h.exclusive ts hqueued] at hup
        exact absurd hup (by simp)
  · show d < s.clock + 1
    rcases hd with hd | hd
    · exact Nat.lt_succ_of_lt (h.past ts d (.inl hd))
    · rcases hretired ts d hd with hd | ⟨-, rfl⟩
      · exact Nat.lt_succ_of_lt (h.past ts d (.inr hd))
      · exact Nat.lt_succ_self _

theorem Snapshot.settle (h : Snapshot s taken rows) (hrow : row ∈ rows) :
    Snapshot (s.afterSettle proc row status now) taken rows := by
  refine ⟨Nat.lt_succ_of_lt h.clock, h.nodup, fun ts id r hmem hlookup hacked => ?_⟩
  have hlookup : (s.tables.settle row status now).outbox.lookup ts = some r := hlookup
  show r.cloudChargeId = id ∧ ∀ d, s.queued ts = some d → d < taken
  rcases s.tables.settle_cases row status now with heq | ⟨r', -, -, -, -, heq⟩ | ⟨r', hpending, -, heq⟩
  · rw [heq] at hlookup
    exact h.settled ts id r hmem hlookup hacked
  · rw [heq] at hlookup
    by_cases hts : ts = row.1
    · rw [hts, AList.lookup_erase] at hlookup
      exact absurd hlookup (by simp)
    · rw [AList.lookup_erase_ne hts] at hlookup
      exact h.settled ts id r hmem hlookup hacked
  · rw [heq] at hlookup
    by_cases hts : ts = row.1
    · -- the snapshot has one row for a session, and this one is pending
      have hsame : (ts, id, true) = row :=
        List.inj_on_of_nodup_map h.nodup hmem hrow hts
      rw [← hsame] at hpending
      exact absurd hpending (by simp)
    · rw [AList.lookup_insert_ne hts] at hlookup
      exact h.settled ts id r hmem hlookup hacked

end

/-- A fresh snapshot of the outbox. -/
theorem Facts.snapshot {s : System β} (h : Facts s) (proc : Proc β) :
    Snapshot (s.goto proc) s.clock s.tables.chargeDeleteOutboxAll := by
  refine ⟨Nat.lt_succ_self _, ?_, fun ts id row hmem hlookup hacked => ?_⟩
  · have hperm := (List.perm_insertionSort (fun a b : Int × Text × Bool => a.1 ≤ b.1)
      (s.tables.outbox.entries.map fun e => (e.1, e.2.cloudChargeId, e.2.ackedAt.isSome))).map Prod.fst
    refine hperm.nodup_iff.mpr ?_
    rw [List.map_map]
    exact s.tables.outbox.nodupKeys
  · unfold Tables.chargeDeleteOutboxAll at hmem
    rw [List.mem_insertionSort] at hmem
    obtain ⟨entry, hentry, heq⟩ := List.mem_map.mp hmem
    obtain ⟨rfl, rest⟩ := Prod.mk.inj heq
    have hfound : s.tables.outbox.lookup entry.1 = some entry.2 := AList.mem_lookup_iff.mpr hentry
    have hlookup : s.tables.outbox.lookup entry.1 = some row := hlookup
    rw [hfound] at hlookup
    obtain rfl := Option.some.inj hlookup
    exact ⟨(Prod.mk.inj rest).1, fun d hd => h.past _ d (.inl hd)⟩

theorem Facts.chosen {s : System β} (h : Facts s) (proc : Proc β) : Chosen (s.goto proc) s.clock :=
  ⟨Nat.lt_succ_self _, fun ts d hd => .inl (h.past ts d (.inl hd)), fun ts d hd => h.past ts d (.inr hd)⟩

/-! ## Every step -/

theorem step_keeps {chargeId : Int → Text} {s t : System β} {a : Action β} (h : Inv s)
    (ht : step chargeId s a = some t) : Inv t := by
  have hsound := h.2
  cases a with
  | sample r =>
    simp only [step] at ht
    split at ht
    · obtain rfl := Option.some.inj ht
      exact h.stay rfl ⟨rfl, rfl, rfl, rfl, rfl, rfl, fun _ hp => hp⟩
    · simp at ht
  | importRows rows =>
    obtain rfl := Option.some.inj ht
    exact h.stay rfl ⟨rfl, rfl, rfl, rfl, rfl, rfl, fun _ hp => hp⟩
  | delete now id =>
    simp only [step] at ht
    split at ht
    · obtain rfl := Option.some.inj ht
      exact h.stay rfl ⟨rfl, rfl, rfl, rfl, rfl, rfl, fun _ hp => hp⟩
    · obtain rfl := Option.some.inj ht
      exact Inv.delete h
  | readCursor today | readUploads | loadRows now =>
    simp only [step] at ht
    split at ht
    · obtain rfl := Option.some.inj ht
      exact h.goto trivial
    · simp at ht
  | writeCursor =>
    simp only [step] at ht
    split at ht
    · split at ht
      · obtain rfl := Option.some.inj ht
        exact ⟨h.1.quiet ⟨rfl, rfl, rfl, rfl, rfl, rfl, fun _ hp => hp⟩, trivial⟩
      · obtain rfl := Option.some.inj ht
        exact h.goto trivial
    · simp at ht
  | readOutbox =>
    simp only [step] at ht
    split at ht
    · obtain rfl := Option.some.inj ht
      exact h.goto (h.1.chosen _)
    · simp at ht
  | readGenerations =>
    simp only [step] at ht
    split at ht
    · rename_i hproc
      rw [hproc] at hsound
      obtain rfl := Option.some.inj ht
      exact h.goto (Chosen.quiet hsound (Quiet.goto s _))
    · simp at ht
  | post keys =>
    simp only [step] at ht
    split at ht
    · rename_i hproc
      rw [hproc] at hsound
      split at ht
      · simp at ht
      · obtain rfl := Option.some.inj ht
        exact h.goto (Chosen.quiet hsound (Quiet.goto s _))
    · simp at ht
  | answer results =>
    simp only [step] at ht
    split at ht
    · rename_i hproc
      rw [hproc] at hsound
      split at ht
      · obtain rfl := Option.some.inj ht
        exact h.goto (Chosen.quiet hsound (Quiet.goto s _))
      · simp at ht
    · simp at ht
  | acknowledge now =>
    simp only [step] at ht
    split at ht
    · rename_i hproc
      rw [hproc] at hsound
      split at ht
      · obtain rfl := Option.some.inj ht
        exact h.goto (Chosen.quiet hsound (Quiet.goto s _))
      · obtain rfl := Option.some.inj ht
        exact ⟨Facts.acknowledge h.1 hsound, Chosen.acknowledge hsound⟩
    · rename_i hproc
      rw [hproc] at hsound
      split at ht
      · obtain rfl := Option.some.inj ht
        exact h.goto trivial
      · obtain rfl := Option.some.inj ht
        exact h.goto (Chosen.quiet hsound (Quiet.goto s _))
    · simp at ht
  | readDeletes =>
    simp only [step] at ht
    split at ht
    · obtain rfl := Option.some.inj ht
      exact h.goto (h.1.snapshot _)
    · simp at ht
  | postDeletes =>
    simp only [step] at ht
    split at ht
    · rename_i hproc
      rw [hproc] at hsound
      split at ht
      · simp at ht
      · obtain rfl := Option.some.inj ht
        exact h.goto ⟨Snapshot.quiet hsound (Quiet.goto s _), le_of_lt hsound.clock⟩
    · simp at ht
  | answerDeletes results =>
    simp only [step] at ht
    split at ht
    · rename_i taken sent rows rest hproc
      rw [hproc] at hsound
      obtain rfl := Option.some.inj ht
      have hquiet : Quiet s { s.goto (.settling taken sent rows rest results) with
          answered := ⟨sent, results⟩ :: s.answered } :=
        ⟨rfl, rfl, rfl, rfl, rfl, rfl, fun _ hp => List.mem_cons_of_mem _ hp⟩
      exact ⟨h.1.quiet hquiet, hsound.1.quiet hquiet, hsound.2, _, List.mem_cons_self, rfl, fun r hr => hr⟩
    · simp at ht
  | settle now =>
    simp only [step] at ht
    split at ht
    · rename_i hproc
      rw [hproc] at hsound
      obtain ⟨hsnapshot, hle, post, hpost, hsent, hresults⟩ := hsound
      have hresults := fun r hr => hresults r (List.mem_cons_of_mem _ hr)
      split at ht
      · obtain rfl := Option.some.inj ht
        exact h.goto ⟨hsnapshot.quiet (Quiet.goto s _), hle, post, hpost, hsent, hresults⟩
      · rename_i row hrow
        obtain rfl := Option.some.inj ht
        exact ⟨Facts.settle h.1, Snapshot.settle hsnapshot (mem_of_rowWith hrow).1, hle, post, hpost, hsent, hresults⟩
    · rename_i hproc
      rw [hproc] at hsound
      obtain rfl := Option.some.inj ht
      exact h.goto (Snapshot.quiet hsound.1 (Quiet.goto s _))
    · simp at ht
  | leave =>
    obtain rfl := Option.some.inj ht
    exact h.goto trivial

/-! ## What a step does to the two tables -/

/-- What a step does to the outbox and the upload records. -/
inductive Effect (chargeId : Int → Text) (s t : System β) : Prop where
  | quiet (outbox : t.tables.outbox = s.tables.outbox) (uploads : t.tables.uploads = s.tables.uploads)
  | deleted (now first last : Int) (tables : t.tables = s.tables.deleteSession chargeId now first last)
  | acknowledged (e : Sent) (status : UploadStatus) (now : Int) (included : Option Int)
      (tables : t.tables = s.tables.acknowledge e status now included)
  | settled (taken sent : Nat) (rows rest : List (Int × Text × Bool)) (result : Text × DeleteStatus)
      (results : List (Text × DeleteStatus)) (proc : s.proc = .settling taken sent rows rest (result :: results))
      (row : Int × Text × Bool) (found : rowWith rows result.1 = some row) (now : Int)
      (tables : t.tables = s.tables.settle row result.2 now)

theorem step_effect {chargeId : Int → Text} {s t : System β} {a : Action β} (ht : step chargeId s a = some t) :
    Effect chargeId s t := by
  cases a with
  | sample r =>
    simp only [step] at ht
    split at ht
    · obtain rfl := Option.some.inj ht
      exact .quiet rfl rfl
    · simp at ht
  | importRows _ | leave =>
    obtain rfl := Option.some.inj ht
    exact .quiet rfl rfl
  | delete now id =>
    simp only [step] at ht
    split at ht
    · obtain rfl := Option.some.inj ht
      exact .quiet rfl rfl
    · obtain rfl := Option.some.inj ht
      exact .deleted now _ _ rfl
  | readCursor _ | readUploads | loadRows _ | readOutbox | readGenerations | readDeletes | answerDeletes _ =>
    simp only [step] at ht
    split at ht
    · obtain rfl := Option.some.inj ht
      exact .quiet rfl rfl
    · simp at ht
  | writeCursor =>
    simp only [step] at ht
    split at ht
    · split at ht
      · obtain rfl := Option.some.inj ht
        exact .quiet rfl rfl
      · obtain rfl := Option.some.inj ht
        exact .quiet rfl rfl
    · simp at ht
  | post _ | postDeletes =>
    simp only [step] at ht
    split at ht
    · split at ht
      · simp at ht
      · obtain rfl := Option.some.inj ht
        exact .quiet rfl rfl
    · simp at ht
  | answer _ =>
    simp only [step] at ht
    split at ht
    · split at ht
      · obtain rfl := Option.some.inj ht
        exact .quiet rfl rfl
      · simp at ht
    · simp at ht
  | acknowledge now =>
    simp only [step] at ht
    split at ht
    · split at ht
      · obtain rfl := Option.some.inj ht
        exact .quiet rfl rfl
      · obtain rfl := Option.some.inj ht
        exact .acknowledged _ _ now _ rfl
    · split at ht
      · obtain rfl := Option.some.inj ht
        exact .quiet rfl rfl
      · obtain rfl := Option.some.inj ht
        exact .quiet rfl rfl
    · simp at ht
  | settle now =>
    simp only [step] at ht
    split at ht
    · rename_i hproc
      split at ht
      · obtain rfl := Option.some.inj ht
        exact .quiet rfl rfl
      · rename_i row hrow
        obtain rfl := Option.some.inj ht
        exact .settled _ _ _ _ _ _ hproc row hrow now rfl
    · obtain rfl := Option.some.inj ht
      exact .quiet rfl rfl
    · simp at ht

/-- A queued deletion keeps the upload record away, whatever the step. -/
theorem no_record_while_queued {chargeId : Int → Text} {s t : System β} {a : Action β} (h : Inv s)
    (ht : step chargeId s a = some t) {ts : Int} (hqueued : (s.tables.outbox.lookup ts).isSome = true) :
    t.tables.uploads ts = none := by
  have hnone := h.1.exclusive ts hqueued
  cases step_effect ht with
  | quiet _ huploads =>
    rw [huploads]
    exact hnone
  | deleted now first last htables =>
    rw [htables]
    show Function.update s.tables.uploads first none ts = none
    by_cases hts : ts = first
    · rw [hts, Function.update_self]
    · rw [Function.update_of_ne hts]
      exact hnone
  | acknowledged e status now included htables =>
    rw [htables]
    by_cases hts : ts = e.ts
    · rw [Tables.acknowledge_of_queued (by rw [← hts]; exact hqueued)]
      exact hnone
    · rw [Tables.acknowledge_uploads_ne hts]
      exact hnone
  | settled taken sent rows rest result results hproc row hrow now htables =>
    rw [htables, Tables.settle_uploads]
    exact hnone

/-- An outbox row goes only when an answer to a request sent after its last queueing names it. -/
theorem removed_after_answer {chargeId : Int → Text} {s t : System β} {a : Action β} (h : Inv s)
    (ht : step chargeId s a = some t) {ts : Int} {row : OutboxRow} (hbefore : s.tables.outbox.lookup ts = some row)
    (hafter : t.tables.outbox.lookup ts = none) :
    ∃ post ∈ s.answered, (∀ d, s.queued ts = some d → d < post.sent)
      ∧ ((row.cloudChargeId, .deleted) ∈ post.results ∨ (row.cloudChargeId, .missing) ∈ post.results) := by
  cases step_effect ht with
  | quiet houtbox _ =>
    rw [houtbox, hbefore] at hafter
    exact absurd hafter (by simp)
  | deleted now first last htables =>
    rw [htables] at hafter
    have hafter : (s.tables.outbox.insert first _).lookup ts = none := hafter
    by_cases hts : ts = first
    · rw [hts, AList.lookup_insert] at hafter
      exact absurd hafter (by simp)
    · rw [AList.lookup_insert_ne hts, hbefore] at hafter
      exact absurd hafter (by simp)
  | acknowledged e status now included htables =>
    rw [htables, Tables.acknowledge_outbox, hbefore] at hafter
    exact absurd hafter (by simp)
  | settled taken sent rows rest result results hproc entry hentry now htables =>
    rw [htables] at hafter
    have hsound := h.2
    rw [hproc] at hsound
    obtain ⟨hsnapshot, hle, post, hpost, hsent, hresults⟩ := hsound
    obtain ⟨hmem, hid⟩ := mem_of_rowWith hentry
    rcases s.tables.settle_cases entry result.2 now with heq | ⟨r, hstatus, hsettled, hrow, hacked, heq⟩ | ⟨r, -, hrow, heq⟩
    · rw [heq, hbefore] at hafter
      exact absurd hafter (by simp)
    · rw [heq] at hafter
      by_cases hts : ts = entry.1
      · -- the removed row is settled, so it is the one of the snapshot
        have hentry : (ts, result.1, true) ∈ rows := by
          rw [hts, ← hid, ← hsettled]
          exact hmem
        rw [hts, hrow] at hbefore
        obtain rfl := Option.some.inj hbefore
        obtain ⟨hcloud, htaken⟩ := hsnapshot.settled ts result.1 r hentry (by rw [hts]; exact hrow) hacked
        refine ⟨post, hpost, fun d hd => ?_, ?_⟩
        · rw [hsent]
          exact lt_of_lt_of_le (htaken d hd) hle
        · rw [hcloud]
          have hnamed := hresults result List.mem_cons_self
          rcases hstatus with hstatus | hstatus
          · exact .inl (by rw [← hstatus]; exact hnamed)
          · exact .inr (by rw [← hstatus]; exact hnamed)
      · rw [AList.lookup_erase_ne hts, hbefore] at hafter
        exact absurd hafter (by simp)
    · rw [heq] at hafter
      by_cases hts : ts = entry.1
      · rw [hts, AList.lookup_insert] at hafter
        exact absurd hafter (by simp)
      · rw [AList.lookup_insert_ne hts, hbefore] at hafter
        exact absurd hafter (by simp)

/-! ## The next sweep -/

/-- The reads of an upload sweep, up to its choice. -/
def choosing (today : Text) (now : Int) : List (Action β) :=
  [.readCursor today, .readUploads, .loadRows now, .writeCursor, .readOutbox]

/-- The store of the cursor, whether it is refused or not, is no more than a move of the task to the sweep. -/
theorem step_writeCursor {chargeId : Int → Text} {s : System β} {scan : Scan} {handled : Int → Bool} {now : Int}
    {sessions : List (List (Sample β))} (hproc : s.proc = .loaded scan handled now sessions) :
    ∃ t, step chargeId s .writeCursor = some t ∧ t.proc = .placed handled now sessions ∧ t.tables = s.tables := by
  simp only [step, hproc]
  split
  · exact ⟨_, rfl, rfl, rfl⟩
  · exact ⟨_, rfl, rfl, rfl⟩

/-- A sweep that nothing disturbs chooses every closed session in its scan that has neither row. -/
theorem choosing_selects (chargeId : Int → Text) (s : System β) (hidle : s.proc = .idle) (today : Text) (now : Int) :
    ∃ t since pending, run (step chargeId) s (choosing today now) = some t ∧ t.proc = .selected since pending
      ∧ ∀ session ∈ groupSessions (loadChargeRows s.tables.telemetry (s.scan today).low none), ∀ first ∈ session.head?,
        s.tables.uploads first.ts = none → s.tables.outbox.lookup first.ts = none → closed now session = true →
        session ∈ pending := by
  have hbegin : step chargeId s (.readCursor today) = some (s.goto (.begun (s.scan today))) := by
    simp only [step, hidle]
  let handled : Int → Bool := fun ts => decide ((s.scan today).low ≤ ts) && (s.tables.uploads ts).isSome
  let sessions := groupSessions (loadChargeRows s.tables.telemetry (s.scan today).low none)
  let scanned := ((s.goto (.begun (s.scan today))).goto (.known (s.scan today) handled)).goto
    (.loaded (s.scan today) handled now sessions)
  obtain ⟨placed, hwrite, hplaced, htables⟩ := step_writeCursor (s := scanned) rfl
  have hchoose : step chargeId placed .readOutbox = some (placed.goto (.selected placed.clock
      (selectPending sessions now handled fun ts => (s.tables.outbox.lookup ts).isSome))) := by
    simp only [step, hplaced, htables]
    rfl
  have hrun : run (step chargeId) s (choosing today now) = some (placed.goto (.selected placed.clock
      (selectPending sessions now handled fun ts => (s.tables.outbox.lookup ts).isSome))) := by
    rw [choosing, run, hbegin]
    show (step chargeId scanned .writeCursor).bind (fun t => run (step chargeId) t [.readOutbox]) = _
    rw [hwrite]
    show (step chargeId placed .readOutbox).bind (fun t => run (step chargeId) t []) = _
    rw [hchoose]
    rfl
  refine ⟨_, placed.clock, _, hrun, rfl, fun session hsession first hfirst hup houtbox hclosed => ?_⟩
  refine List.mem_filter.mpr ⟨hsession, ?_⟩
  have hhandled : startIs handled session = false := by
    unfold startIs
    rw [hfirst]
    show (decide _ && (s.tables.uploads first.ts).isSome) = false
    rw [hup, Option.isSome_none, Bool.and_false]
  have houtboxed : startIs (fun ts => (s.tables.outbox.lookup ts).isSome) session = false := by
    unfold startIs
    rw [hfirst]
    show (s.tables.outbox.lookup first.ts).isSome = false
    rw [houtbox]
    rfl
  rw [hclosed, hhandled, houtboxed]
  rfl

/-- **A deleted charge is not resurrected, and a re-imported one is not blocked.** -/
theorem deleted_charge_stays_deleted (chargeId : Int → Text) (tables : Tables β) (cursor : Option Int)
    (fullDate : Option Text)
    (hstart : ∀ ts, (tables.outbox.lookup ts).isSome = true → tables.uploads ts = none) {s : System β}
    (hs : Reachable (step chargeId) (System.start tables cursor fullDate) s) :
    (∀ ts, ¬ ((s.tables.outbox.lookup ts).isSome = true ∧ (s.tables.uploads ts).isSome = true))
      ∧ (∀ a t ts, step chargeId s a = some t → (s.tables.outbox.lookup ts).isSome = true → t.tables.uploads ts = none)
      ∧ (∀ a t ts row, step chargeId s a = some t → s.tables.outbox.lookup ts = some row →
          t.tables.outbox.lookup ts = none → ∃ post ∈ s.answered, (∀ d, s.queued ts = some d → d < post.sent)
            ∧ ((row.cloudChargeId, .deleted) ∈ post.results ∨ (row.cloudChargeId, .missing) ∈ post.results))
      ∧ ∀ ts gone, s.retired ts = some gone → s.tables.outbox.lookup ts = none →
          ((s.tables.uploads ts).isSome = true → gone < s.source ts)
            ∧ (s.tables.uploads ts = none → s.proc = .idle → ∀ today now,
              ∃ t since pending, run (step chargeId) s (choosing today now) = some t ∧ t.proc = .selected since pending
                ∧ ∀ session ∈ groupSessions (loadChargeRows s.tables.telemetry (s.scan today).low none),
                  ∀ first ∈ session.head?, first.ts = ts → closed now session = true → session ∈ pending) := by
  have hinv : Inv s := hs.invariant
    ⟨⟨hstart, fun ts d _ hd => by simp [System.start] at hd, fun ts d hd => by simp [System.start] at hd⟩, trivial⟩
    fun t a u ht _ hu => step_keeps ht hu
  refine ⟨fun ts hboth => ?_, fun a t ts ht hqueued => ?_, fun a t ts row ht hbefore hafter => ?_,
    fun ts gone hgone houtbox => ⟨fun hup => ?_, fun hup hidle today now => ?_⟩⟩
  · have hnone := hinv.1.exclusive ts hboth.1
    rw [hnone] at hboth
    exact absurd hboth.2 (by simp)
  · exact no_record_while_queued hinv ht hqueued
  · exact removed_after_answer hinv ht hbefore hafter
  · exact hinv.1.fresh ts gone hup (.inr hgone)
  · obtain ⟨t, since, pending, hrun, hproc, hchosen⟩ := choosing_selects chargeId s hidle today now
    refine ⟨t, since, pending, hrun, hproc, fun session hsession first hfirst hts hclosed => ?_⟩
    subst hts
    exact hchosen session hsession first hfirst hup houtbox hclosed

/-- A session is deleted, the Cloud confirms it in two rounds, and the outbox row goes. -/
theorem deleted_charge_stays_deleted_twoRounds :
    ∃ s, Reachable (step fun _ => ['a']) (System.start twoSessions none none) s ∧ s.retired 1000 = some 9
      ∧ s.tables.outbox.lookup 1000 = none ∧ ¬ (s.tables.uploads 1000).isSome = true := by
  obtain ⟨s, hrun, hretired, houtbox, hsource⟩ : ∃ s, run (step fun _ => ['a']) (System.start twoSessions none none)
      [.delete 30000 1000, .readDeletes, .postDeletes, .answerDeletes [(['a'], .deleted)], .settle 30001, .leave,
        .readDeletes, .postDeletes, .answerDeletes [(['a'], .missing)], .settle 30002, .leave] = some s
      ∧ s.retired 1000 = some 9 ∧ s.tables.outbox.lookup 1000 = none ∧ s.source 1000 = 0 :=
    ⟨_, rfl, rfl, rfl, rfl⟩
  have hs := reachable_of_run hrun
  refine ⟨s, hs, hretired, houtbox, fun hup => ?_⟩
  have hstays := deleted_charge_stays_deleted (fun _ => ['a']) twoSessions none none (fun ts _ => rfl) hs
  have hlater := (hstays.2.2.2 1000 9 hretired houtbox).1 hup
  rw [hsource] at hlater
  exact absurd hlater (by decide)

end SentryUsb.Charging
