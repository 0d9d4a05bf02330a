import SentryUsb.Api.AutoUpdate

/-! # The receipt of an update is kept in order

What the receipt at hand has behind it, kept by every step of the machine, whatever the steps are.

* **`Stored`** — the receipt is the last one written, and has behind it what its phase says;
* **`Works`** — what the coordinator has behind it, point by point;
* **`Kept`** — both, with what a startup has seen;
* **`Kept.step`** — every step keeps it, so that all history is in order. -/

namespace SentryUsb.Api.AutoUpdate

open Library

/-! ## What was written about an attempt -/

/-- The shutdown helper confirms an attempt. -/
def Event.confirms (e : Event) (id : Text) : Bool :=
  match e with
  | .confirmed id' _ => decide (id' = id)
  | _ => false

/-- A sign that an attempt is past its installation, or that this was undone. -/
def Event.spoils (e : Event) (id : Text) : Bool := e.undoes id || (e.replays id || e.confirms id)

/-- An attempt that is at most installed. -/
def Clean (log : List Event) (id : Text) : Prop := ∀ e ∈ log, e.spoils id = false

/-- What an attempt has behind it when these files are replaced, the last one first. -/
def replacedBy (a : Attempt) (done files : List Dest) : List Event :=
  done.map (.replaced a.id) ++ [.saved (a.inPhase .installing), .staged a.id files]

/-- What a saved attempt that awaits its reboot has behind it. -/
def awaited (a : Attempt) (files : List Dest) : List Event :=
  .saved (a.inPhase .awaitingReboot) :: installed a files

/-- The same, with its shutdown. -/
def confirmed (a : Attempt) (files : List Dest) : List Event := .confirmed a.id a.bootId :: awaited a files

/-- What an attempt has behind it at the beginning of its verification. -/
def begun (a : Attempt) (files : List Dest) : List Event :=
  .saved (a.inPhase .verifying) :: .started a.binarySha256 :: .booted a.verifyingBootId :: confirmed a.unverified files

/-- What an attempt that awaits its reboot has behind it by now. -/
def trail (k : Records) (a : Attempt) (files : List Dest) : List Event :=
  match k.shutdown a.id with
  | none => awaited a files
  | some _ => if a.bootId = k.boot then confirmed a files else .booted k.boot :: confirmed a files

/-- A history has these entries in this order, for what was staged. -/
def Passed (log : List Event) (a : Attempt) (marks : List Dest → List Event) : Prop :=
  ∃ s : Staged, s.binary = a.binarySha256 ∧ (marks s.files).Sublist log

section Histories

variable {log : List Event} {id : Text} {a : Attempt} {e : Event} {phase : Phase} {marks : List Dest → List Event}

theorem inPhase_eq (h : a.phase = phase) : a.inPhase phase = a := by
  subst h
  rfl

theorem unverified_eq (h : a.verifyingBootId = []) : a.unverified = a := by
  unfold Attempt.unverified
  rw [← h]

theorem spoils_of_attempt (h : e.attempt ≠ some id) : e.spoils id = false := by
  cases e <;> simp_all [Event.attempt, Event.spoils, Event.undoes, Event.replays, Event.confirms]

theorem Clean.of_fresh (h : ∀ e ∈ log, e.attempt ≠ some id) : Clean log id :=
  fun e he => spoils_of_attempt (h e he)

theorem Clean.cons (h : Clean log id) (he : e.spoils id = false) : Clean (e :: log) id :=
  List.forall_mem_cons.mpr ⟨he, h⟩

theorem Clean.undoes (h : Clean log id) (he : e ∈ log) : e.undoes id = false :=
  (Bool.or_eq_false_iff.mp (h e he)).1

theorem Clean.replays (h : Clean log id) (he : e ∈ log) : e.replays id = false :=
  (Bool.or_eq_false_iff.mp (Bool.or_eq_false_iff.mp (h e he)).2).1

theorem Passed.note (h : Passed log a marks) (e : Event) : Passed (e :: log) a marks := by
  obtain ⟨s, hs, hsub⟩ := h
  exact ⟨s, hs, hsub.cons e⟩

theorem Passed.next (h : Passed log a marks) (e : Event) : Passed (e :: log) a fun files => e :: marks files := by
  obtain ⟨s, hs, hsub⟩ := h
  exact ⟨s, hs, hsub.cons_cons e⟩

end Histories

/-! ## The receipt -/

/-- An attempt awaits its reboot. -/
structure Awaits (k : Records) (r : Attempt) : Prop where
  unverified : r.verifyingBootId = []
  undone : ∀ e ∈ k.log, e.undoes r.id = false
  replayed : ∀ e ∈ k.log, e.replays r.id = false
  trail : Passed k.log r (trail k r)

/-- The verification of an attempt has begun. -/
structure Verifies (k : Records) (r : Attempt) : Prop where
  undone : ∀ e ∈ k.log, e.undoes r.id = false
  other : r.bootId ≠ r.verifyingBootId
  begun : Passed k.log r (begun r)

/-- What the receipt at hand has behind it. -/
structure Backed (k : Records) (r : Attempt) : Prop where
  own : .booted r.bootId ∈ k.log
  differs : r.target = [] ∨ r.source ≠ r.target
  written : r.phase ∈ [.awaitingReboot, .verifying, .verified] → k.writer = some r.id ∧ k.version = some r.target
  awaits : r.phase = .awaitingReboot → Awaits k r
  verifies : r.phase = .verifying → Verifies k r

/-- The records are in order. -/
structure Stored (k : Records) : Prop where
  ordered : Chronicle Ordered k.log
  last : lastSaved k.log = k.receipt
  boot : bootOf k.log = some k.boot
  booted : .booted k.boot ∈ k.log
  shutdown : ∀ id, k.shutdown id ≠ none → ∃ boot, .confirmed id boot ∈ k.log
  receipt : ∀ r ∈ k.receipt, Backed k r

section Receipt

variable {k : Records} {r a : Attempt} {e : Event} {id : Text}

/-- An attempt that is neither installed nor verified. -/
theorem Backed.early (hown : .booted r.bootId ∈ k.log) (hdiffers : r.target = [] ∨ r.source ≠ r.target)
    (hphase : r.phase ∉ [.awaitingReboot, .verifying, .verified]) : Backed k r := by
  refine ⟨hown, hdiffers, fun h => absurd h hphase, fun h => absurd ?_ hphase, fun h => absurd ?_ hphase⟩
  · rw [h]
    decide
  · rw [h]
    decide

/-- An entry that is not about the receipt at hand, or after the fact. -/
theorem Backed.note (h : Backed k r) (hundoes : r.phase ∈ [.awaitingReboot, .verifying] → e.undoes r.id = false)
    (hreplays : r.phase = .awaitingReboot → e.replays r.id = false) : Backed (k.note e) r := by
  refine ⟨List.mem_cons_of_mem _ h.own, h.differs, h.written, fun hphase => ?_, fun hphase => ?_⟩
  · have hawaits := h.awaits hphase
    have he : e.undoes r.id = false := hundoes (by rw [hphase]; decide)
    exact ⟨hawaits.unverified, List.forall_mem_cons.mpr ⟨he, hawaits.undone⟩,
      List.forall_mem_cons.mpr ⟨hreplays hphase, hawaits.replayed⟩, hawaits.trail.note e⟩
  · have hverifies := h.verifies hphase
    have he : e.undoes r.id = false := hundoes (by rw [hphase]; decide)
    exact ⟨List.forall_mem_cons.mpr ⟨he, hverifies.undone⟩, hverifies.other, hverifies.begun.note e⟩

/-- Entries that are no receipt and no boot. -/
theorem Stored.note (h : Stored k) (hordered : Ordered e k.log) (hlast : lastSaved (e :: k.log) = lastSaved k.log)
    (hboot : bootOf (e :: k.log) = bootOf k.log) (hbacked : ∀ r ∈ k.receipt, Backed (k.note e) r) :
    Stored (k.note e) := by
  refine ⟨⟨hordered, h.ordered⟩, hlast.trans h.last, hboot.trans h.boot, List.mem_cons_of_mem _ h.booted, ?_, hbacked⟩
  intro id hid
  obtain ⟨boot, hmem⟩ := h.shutdown id hid
  exact ⟨boot, List.mem_cons_of_mem _ hmem⟩

/-- The receipt is written. -/
theorem Stored.save (h : Stored k) (io : Write) (hordered : Ordered (.saved a) k.log)
    (hbacked : Backed (Write.done.save k a) a) : Stored (io.save k a) := by
  have hsaved : Stored (Write.done.save k a) := by
    refine ⟨⟨hordered, h.ordered⟩, rfl, h.boot, List.mem_cons_of_mem _ h.booted, ?_, ?_⟩
    · intro id hid
      obtain ⟨boot, hmem⟩ := h.shutdown id hid
      exact ⟨boot, List.mem_cons_of_mem _ hmem⟩
    · intro r hr
      obtain rfl := Option.some.inj hr
      exact hbacked
  cases io with
  | failed => exact h
  | unsynced => exact hsaved
  | done => exact hsaved

/-- An attempt that is at most installed has no shutdown on file. -/
theorem Stored.shutdown_of_clean (h : Stored k) (hclean : Clean k.log id) : k.shutdown id = none := by
  by_contra hne
  obtain ⟨boot, hmem⟩ := h.shutdown id hne
  have hspoils := hclean _ hmem
  simp [Event.spoils, Event.confirms] at hspoils

theorem Stored.begins (h : Stored k) (hterminal : ∀ r ∈ k.receipt, r.terminal = true)
    (hfresh : ∀ e ∈ k.log, e.attempt ≠ some id) : Begins k.log id := by
  refine ⟨?_, hfresh⟩
  rw [h.last]
  exact hterminal

end Receipt

/-! ## The coordinator -/

/-- The coordinator may save its attempt as failed. -/
def Held (log : List Event) (id : Text) : Prop :=
  (∃ r, lastSaved log = some r ∧ r.id = id ∧ r.terminal = false) ∨ Begins log id

/-- What the coordinator has behind it at a point. -/
def AtPoint (k : Records) (a : Attempt) : Point → Prop
  | .checking => a.phase = .preparing ∧ Begins k.log a.id
  | .saving => a.phase = .preparing ∧ Begins k.log a.id
  | .staging => k.receipt = some a ∧ a.phase = .preparing ∧ Clean k.log a.id
  | .gated s => k.receipt = some a ∧ a.phase = .preparing ∧ Clean k.log a.id ∧ .staged a.id s.files ∈ k.log
  | .replacing s done rest =>
    k.receipt = some a ∧ a.phase = .installing ∧ Clean k.log a.id ∧ s.binary = a.binarySha256 ∧
      s.files = (done.map Replaced.dest).reverse ++ rest ∧
      (replacedBy a (done.map Replaced.dest) s.files).Sublist k.log ∧
      (.version ∈ done.map Replaced.dest → k.writer = some a.id ∧ k.version = some a.target)
  | .rollingBack _ => k.receipt = some a ∧ a.phase = .installing
  | .armed =>
    k.receipt = some a ∧ a.phase = .installing ∧ Clean k.log a.id ∧ Passed k.log a (installed a) ∧
      k.writer = some a.id ∧ k.version = some a.target
  | .awaiting | .restarting => k.receipt = some a ∧ a.phase = .awaitingReboot
  | .failing => Held k.log a.id

/-- What the coordinator has behind it. -/
structure Works (k : Records) (c : Coordinator) : Prop where
  own : c.attempt.bootId = k.boot
  unverified : c.attempt.verifyingBootId = []
  differs : c.attempt.target = [] ∨ c.attempt.source ≠ c.attempt.target
  point : AtPoint k c.attempt c.point

/-- What a running service has seen. -/
def Runs (k : Records) (exe : Text) : Stage → Prop
  | .starting =>
    ∀ r ∈ k.receipt, r.phase = .awaitingReboot → r.bootId ≠ k.boot → k.shutdown r.id ≠ none →
      Passed k.log r fun files => .started exe :: .booted k.boot :: confirmed r files
  | .migrating _ (some id) => ∃ r, k.receipt = some r ∧ r.id = id ∧ r.phase = .verifying ∧ r.verifyingBootId = k.boot
  | .migrating _ none => ∀ r ∈ k.receipt, r.terminal = true
  | .recovering true =>
    ∀ r ∈ k.receipt, r.phase = .verifying → r.verifyingBootId = k.boot → Passed k.log r (milestones r)
  | .recovering false | .ready none => True
  | .ready (some c) => Works k c

/-- The machine is in order. -/
structure Kept (d : Device) : Prop where
  stored : Stored d.records
  runs : ∀ s ∈ d.service, Runs d.records s.exe s.stage

theorem kept_start (boot : Text) (version : Option Text) (binary : Text) (migrated : List Text) :
    Kept (start boot version binary migrated) := by
  refine ⟨⟨⟨trivial, trivial⟩, rfl, rfl, List.mem_singleton_self _, fun id h => absurd rfl h, ?_⟩, ?_⟩
  · exact fun r hr => nomatch hr
  · exact fun s hs => nomatch hs

/-! ## The machine -/

section Machine

variable {k : Records} {r : Attempt} {id exe : Text} {d d' : Device} {a : Act}

/-- A boot with a new id ends what the helper can confirm. -/
theorem Awaits.boot (h : Awaits k r) (hown : .booted r.bootId ∈ k.log) (hnew : .booted id ∉ k.log) :
    Awaits { k with boot := id, log := .booted id :: k.log } r := by
  refine ⟨h.unverified, List.forall_mem_cons.mpr ⟨rfl, h.undone⟩, List.forall_mem_cons.mpr ⟨rfl, h.replayed⟩, ?_⟩
  have hother : r.bootId ≠ id := by
    rintro rfl
    exact hnew hown
  obtain ⟨s, hs, hsub⟩ := h.trail
  refine ⟨s, hs, ?_⟩
  unfold AutoUpdate.trail at hsub ⊢
  dsimp only
  cases hshutdown : k.shutdown r.id with
  | none =>
    rw [hshutdown] at hsub
    exact hsub.cons _
  | some p =>
    rw [hshutdown] at hsub
    dsimp only at hsub ⊢
    rw [if_neg hother]
    split at hsub
    · exact hsub.cons_cons _
    · exact ((List.sublist_cons_self _ _).trans hsub).cons_cons _

theorem Stored.boots (h : Stored k) (hnew : .booted id ∉ k.log) :
    Stored { k with boot := id, log := .booted id :: k.log } := by
  refine ⟨⟨trivial, h.ordered⟩, h.last, rfl, List.mem_cons_self, ?_, fun r hr => ?_⟩
  · intro id' hid
    obtain ⟨boot, hmem⟩ := h.shutdown id' hid
    exact ⟨boot, List.mem_cons_of_mem _ hmem⟩
  · have hbacked := h.receipt r hr
    refine ⟨List.mem_cons_of_mem _ hbacked.own, hbacked.differs, hbacked.written,
      fun hphase => (hbacked.awaits hphase).boot hbacked.own hnew, fun hphase => ?_⟩
    have hverifies := hbacked.verifies hphase
    exact ⟨List.forall_mem_cons.mpr ⟨rfl, hverifies.undone⟩, hverifies.other, hverifies.begun.note _⟩

/-- The helper writes its file in the boot of the attempt. -/
theorem Awaits.confirm (h : Awaits k r) (hboot : r.bootId = k.boot) :
    Awaits
      { k with
        shutdown := Function.update k.shutdown r.id (some (r.id, k.boot))
        log := .confirmed r.id k.boot :: k.log } r := by
  refine ⟨h.unverified, List.forall_mem_cons.mpr ⟨rfl, h.undone⟩, List.forall_mem_cons.mpr ⟨rfl, h.replayed⟩, ?_⟩
  obtain ⟨s, hs, hsub⟩ := h.trail
  refine ⟨s, hs, ?_⟩
  have hawaited : (awaited r s.files).Sublist k.log := by
    unfold AutoUpdate.trail at hsub
    cases hshutdown : k.shutdown r.id with
    | none =>
      rw [hshutdown] at hsub
      exact hsub
    | some p =>
      rw [hshutdown] at hsub
      dsimp only at hsub
      rw [if_pos hboot] at hsub
      exact (List.sublist_cons_self _ _).trans hsub
  unfold AutoUpdate.trail
  dsimp only
  rw [Function.update_self]
  dsimp only
  rw [if_pos hboot, confirmed, hboot]
  exact hawaited.cons_cons _

theorem Stored.confirm (h : Stored k) (hr : k.receipt = some r) (hphase : r.phase = .awaitingReboot)
    (hboot : r.bootId = k.boot) :
    Stored
      { k with
        shutdown := Function.update k.shutdown r.id (some (r.id, k.boot))
        log := .confirmed r.id k.boot :: k.log } := by
  have hbacked := h.receipt r hr
  refine ⟨⟨trivial, h.ordered⟩, h.last, h.boot, List.mem_cons_of_mem _ h.booted, fun id' hid => ?_, fun r' hr' => ?_⟩
  · by_cases hsame : id' = r.id
    · exact ⟨k.boot, by rw [hsame]; exact List.mem_cons_self⟩
    · dsimp only at hid
      rw [Function.update_of_ne hsame] at hid
      obtain ⟨boot, hmem⟩ := h.shutdown id' hid
      exact ⟨boot, List.mem_cons_of_mem _ hmem⟩
  · obtain rfl := Option.some.inj (hr.symm.trans hr')
    refine ⟨List.mem_cons_of_mem _ hbacked.own, hbacked.differs, hbacked.written,
      fun _ => (hbacked.awaits hphase).confirm hboot, fun hverifying => ?_⟩
    rw [hphase] at hverifying
    exact nomatch hverifying

/-- While the last receipt awaits a reboot, the coordinator waits for it or has failed. -/
theorem Works.confirm {c : Coordinator} {shutdown : Text → Option (Text × Text)} (h : Works k c) (hstored : Stored k)
    (hr : k.receipt = some r) (hphase : r.phase = .awaitingReboot) :
    Works { k with shutdown, log := .confirmed r.id k.boot :: k.log } c := by
  have hawaiting : r.terminal = false := by rw [Attempt.terminal, hphase]
  have hunsaved : ¬ Begins k.log c.attempt.id := by
    rintro ⟨hterminal, -⟩
    have hended := hterminal r (hstored.last.trans hr)
    exact Bool.false_ne_true (hawaiting.symm.trans hended)
  have hother {phase : Phase} (hne : phase ≠ .awaitingReboot) (ha : k.receipt = some c.attempt)
      (hc : c.attempt.phase = phase) : False := by
    obtain rfl := Option.some.inj (hr.symm.trans ha)
    exact hne (hc.symm.trans hphase)
  refine ⟨h.own, h.unverified, h.differs, ?_⟩
  have hpoint := h.point
  cases hp : c.point <;> rw [hp] at hpoint
  case checking => exact absurd hpoint.2 hunsaved
  case saving => exact absurd hpoint.2 hunsaved
  case staging => exact (hother (by decide) hpoint.1 hpoint.2.1).elim
  case gated s => exact (hother (by decide) hpoint.1 hpoint.2.1).elim
  case replacing s done rest => exact (hother (by decide) hpoint.1 hpoint.2.1).elim
  case rollingBack done => exact (hother (by decide) hpoint.1 hpoint.2).elim
  case armed => exact (hother (by decide) hpoint.1 hpoint.2.1).elim
  case awaiting => exact hpoint
  case restarting => exact hpoint
  case failing => exact Or.inl (hpoint.resolve_right hunsaved)

theorem Runs.confirm {stage : Stage} {shutdown : Text → Option (Text × Text)} (h : Runs k exe stage)
    (hstored : Stored k) (hr : k.receipt = some r) (hphase : r.phase = .awaitingReboot) (hboot : r.bootId = k.boot) :
    Runs { k with shutdown, log := .confirmed r.id k.boot :: k.log } exe stage := by
  cases stage with
  | starting =>
    intro r' hr' _ hother
    obtain rfl := Option.some.inj (hr.symm.trans hr')
    exact absurd hboot hother
  | migrating version automatic =>
    cases automatic with
    | none => exact h
    | some id => exact h
  | recovering ok =>
    cases ok with
    | false => trivial
    | true => exact fun r' hr' hverifying hown => (h r' hr' hverifying hown).note _
  | ready c =>
    cases c with
    | none => trivial
    | some c => exact Works.confirm h hstored hr hphase

/-- A startup may see the shutdown of the attempt it has to verify. -/
theorem Stored.starts (h : Stored k) : Stored (k.note (.started exe)) ∧ Runs (k.note (.started exe)) exe .starting := by
  refine ⟨h.note trivial rfl rfl fun r hr => (h.receipt r hr).note (fun _ => rfl) fun _ => rfl, ?_⟩
  intro r hr hphase hother hshutdown
  obtain ⟨s, hs, hsub⟩ := ((h.receipt r hr).awaits hphase).trail
  refine ⟨s, hs, ?_⟩
  unfold AutoUpdate.trail at hsub
  obtain ⟨p, hp⟩ := Option.ne_none_iff_exists'.mp hshutdown
  have hp' : k.shutdown r.id = some p := hp
  have hother' : r.bootId ≠ k.boot := hother
  rw [hp'] at hsub
  dsimp only at hsub
  rw [if_neg hother'] at hsub
  exact hsub.cons_cons _

/-- **Steps of the machine.** -/
theorem Kept.machineStep (h : Kept d) (hd : machineStep d a = some d') : Kept d' := by
  cases a with
  | boot id =>
    obtain ⟨hnew, hd⟩ := Option.ite_none_right_eq_some.mp hd
    obtain rfl := Option.some.inj hd
    exact ⟨h.stored.boots hnew, fun s hs => nomatch hs⟩
  | reboot queued =>
    obtain rfl := Option.some.inj hd
    exact ⟨h.stored, h.runs⟩
  | confirmShutdown =>
    obtain ⟨r, hr, rfl⟩ := Option.map_eq_some_iff.mp hd
    obtain ⟨hreceipt, hguard⟩ := Option.filter_eq_some_iff.mp hr
    simp only [Bool.and_eq_true, decide_eq_true_eq] at hguard
    obtain ⟨⟨-, hphase⟩, hboot⟩ := hguard
    exact ⟨h.stored.confirm hreceipt hphase hboot,
      fun s hs => (h.runs s hs).confirm h.stored hreceipt hphase hboot⟩
  | startService =>
    obtain ⟨-, hd⟩ := Option.ite_none_right_eq_some.mp hd
    obtain rfl := Option.some.inj hd
    refine ⟨h.stored.starts.1, fun s hs => ?_⟩
    obtain rfl := Option.some.inj hs
    exact h.stored.starts.2
  | stopService =>
    obtain rfl := Option.some.inj hd
    exact ⟨h.stored, fun s hs => nomatch hs⟩
  | _ => exact nomatch hd

end Machine

/-! ## Startup -/

section Startup

variable {k : Records} {r v : Attempt} {exe version : Text} {migrated : List Text} {d d' : Device} {s : Service}
  {a : Act}

theorem terminal_of_phase (h : r.terminal = true) : r.phase ∉ [.awaitingReboot, .verifying] := by
  intro hphase
  unfold Attempt.terminal at h
  split at h <;> simp_all

/-- What `begin_verification` requires, and the attempt it saves. -/
theorem beginVerification_eq_some (h : beginVerification exe k = some v) :
    ∃ r, k.receipt = some r ∧ exe = r.binarySha256 ∧ r.phase = .awaitingReboot ∧ r.bootId ≠ k.boot ∧
      k.shutdown r.id ≠ none ∧ v = { r with phase := .verifying, verifyingBootId := k.boot } := by
  unfold beginVerification at h
  split at h
  · exact nomatch h
  · rename_i r hr
    obtain ⟨⟨-, hexe, hphase, hboot, hshutdown⟩, hv⟩ := Option.ite_none_right_eq_some.mp h
    exact ⟨r, hr, hexe, hphase, hboot, by rw [hshutdown]; simp, (Option.some.inj hv).symm⟩

/-- The verification begins with all that the attempt has behind it. -/
theorem Stored.begin (h : Stored k) (hruns : Runs k exe .starting) (hv : beginVerification exe k = some v) :
    Ordered (.saved v) k.log ∧ Backed (Write.done.save k v) v ∧ v.phase = .verifying ∧ v.verifyingBootId = k.boot := by
  obtain ⟨r, hr, hexe, hphase, hother, hshutdown, rfl⟩ := beginVerification_eq_some hv
  have hbacked := h.receipt r hr
  have hawaits := hbacked.awaits hphase
  refine ⟨⟨⟨r, h.last.trans hr, rfl, hphase⟩, h.boot, hother⟩, ?_, rfl, rfl⟩
  refine ⟨List.mem_cons_of_mem _ hbacked.own, hbacked.differs, fun _ => hbacked.written (by rw [hphase]; decide),
    (fun hawaiting => nomatch hawaiting), fun _ => ?_⟩
  refine ⟨List.forall_mem_cons.mpr ⟨rfl, hawaits.undone⟩, hother, ?_⟩
  obtain ⟨s, hs, hsub⟩ := hruns r hr hphase hother hshutdown
  refine ⟨s, hs, ?_⟩
  -- what is behind it was saved before its verification
  have hconfirmed (files : List Dest) : confirmed r.unverified files = confirmed r files := by
    rw [unverified_eq hawaits.unverified]
  dsimp only at hsub
  rw [hexe, ← hconfirmed] at hsub
  exact hsub.cons_cons _

theorem Stored.migrate (h : Stored k) (automatic : Option Text)
    (hautomatic : ∀ id ∈ automatic, ∃ r, k.receipt = some r ∧ r.id = id ∧ r.phase = .verifying ∧
      r.verifyingBootId = k.boot) (hnone : automatic = none → ∀ r ∈ k.receipt, r.terminal = true) :
    Stored (migrate version automatic k).1 ∧ Runs (migrate version automatic k).1 exe (migrate version automatic k).2 := by
  cases automatic with
  | none =>
    refine ⟨h.note trivial rfl rfl fun r hr => ?_, hnone rfl⟩
    exact (h.receipt r hr).note (fun _ => rfl) fun _ => rfl
  | some id =>
    obtain ⟨r, hr, hid, hphase, hboot⟩ := hautomatic id rfl
    refine ⟨h.note ⟨r, h.last.trans hr, hid, hphase, h.boot.trans (by rw [hboot])⟩ rfl rfl fun r' hr' => ?_,
      r, hr, hid, hphase, hboot⟩
    obtain rfl := Option.some.inj (hr.symm.trans hr')
    refine (h.receipt r hr).note (fun _ => rfl) fun hawaiting => ?_
    rw [hphase] at hawaiting
    exact nomatch hawaiting

theorem Stored.migrateOnce (h : Stored k) (hterminal : ∀ r ∈ k.receipt, r.terminal = true) :
    Stored (migrateOnce version migrated k).1 ∧
      Runs (migrateOnce version migrated k).1 exe (migrateOnce version migrated k).2 := by
  unfold AutoUpdate.migrateOnce
  split
  · refine ⟨h, fun r hr hphase _ => ?_⟩
    have hended := terminal_of_phase (hterminal r hr)
    exact absurd (by rw [hphase]; decide) hended
  · exact h.migrate none (fun _ hid => nomatch hid) fun _ => hterminal

theorem Stored.migrateVerifying (h : Stored k) (hruns : Runs k exe .starting) (io : Write) :
    Stored (migrateVerifying exe version io k).1 ∧
      Runs (migrateVerifying exe version io k).1 exe (migrateVerifying exe version io k).2 := by
  unfold AutoUpdate.migrateVerifying
  split
  · exact ⟨h, trivial⟩
  · rename_i v hv
    obtain ⟨hordered, hbacked, hverifying, hboot⟩ := h.begin hruns hv
    have hsaved := h.save io hordered hbacked
    split
    · rename_i hdone
      subst hdone
      refine hsaved.migrate (some v.id) (fun id hid => ?_) fun hnone => nomatch hnone
      exact ⟨v, rfl, Option.some.inj hid, hverifying, hboot⟩
    · exact ⟨hsaved, trivial⟩

/-- `run_startup_migration` keeps the records in order. -/
theorem Stored.runStartupMigration (h : Stored k) (hruns : Runs k exe .starting) (io : Write) :
    Stored (runStartupMigration exe migrated io k).1 ∧
      Runs (runStartupMigration exe migrated io k).1 exe (runStartupMigration exe migrated io k).2 := by
  have hrefused : Stored k ∧ Runs k exe (.recovering false) := ⟨h, trivial⟩
  unfold AutoUpdate.runStartupMigration
  split
  · exact hrefused
  · rename_i version hversion
    split
    · exact hrefused
    · split
      · rename_i hr
        exact h.migrateOnce fun r hr' => by rw [hr] at hr'; exact nomatch hr'
      · rename_i a hr
        split
        · split
          · exact hrefused
          · exact h.migrateVerifying hruns io
        · rename_i hended
          split
          · exact hrefused
          · refine h.migrateOnce fun r hr' => ?_
            obtain rfl := Option.some.inj (hr.symm.trans hr')
            exact Bool.eq_true_of_not_eq_false hended

/-- The end of a migration. -/
theorem Stored.migrationEnds (h : Stored k) (automatic : Option Text) (hruns : Runs k exe (.migrating version automatic)) :
    Stored (noteMigrated k automatic) ∧ Runs (noteMigrated k automatic) exe (.recovering true) := by
  cases automatic with
  | none =>
    refine ⟨h, fun r hr hphase _ => ?_⟩
    have hended := terminal_of_phase (hruns r hr)
    exact absurd (by rw [hphase]; decide) hended
  | some id =>
    refine ⟨h.note trivial rfl rfl fun r hr => (h.receipt r hr).note (fun _ => rfl) fun _ => rfl, ?_⟩
    intro r hr hphase hown
    obtain ⟨r', hr', rfl, -, hboot⟩ := hruns
    obtain rfl := Option.some.inj (hr'.symm.trans hr)
    have hbegun := ((h.receipt r' hr').verifies hphase).begun.next (.migrated r'.id r'.verifyingBootId)
    show Passed (.migrated r'.id k.boot :: k.log) r' (milestones r')
    rw [← hboot]
    exact hbegun

/-- What `boot_outcome` requires of a success. -/
theorem bootOutcome_verified {boot : Text} {binaryMatches migrationOk : Bool}
    (h : r.bootOutcome boot binaryMatches migrationOk = .verified) :
    r.phase = .verifying ∧ r.verifyingBootId = boot ∧ migrationOk = true := by
  unfold Attempt.bootOutcome at h
  split_ifs at h with hrefused hfailed
  push Not at hrefused
  exact ⟨hrefused.1, hrefused.2.1, Bool.eq_true_of_not_eq_false hfailed⟩

theorem bootOutcome_terminal (r : Attempt) (boot : Text) (binaryMatches migrationOk : Bool) :
    r.bootOutcome boot binaryMatches migrationOk ∈ [.verified, .failed, .interrupted] := by
  unfold Attempt.bootOutcome
  split_ifs <;> decide

/-- An attempt that is saved as ended, but not as verified. -/
theorem Backed.ends (h : Backed k r) {phase : Phase} (hphase : phase = .failed ∨ phase = .interrupted) :
    Backed (Write.done.save k (r.inPhase phase)) (r.inPhase phase) := by
  refine Backed.early (List.mem_cons_of_mem _ h.own) h.differs ?_
  rcases hphase with rfl | rfl
  · show Phase.failed ∉ _
    decide
  · show Phase.interrupted ∉ _
    decide

theorem ordered_ends {phase : Phase} (h : Held k.log r.id) (hphase : phase = .failed ∨ phase = .interrupted) :
    Ordered (.saved (r.inPhase phase)) k.log := by
  rcases hphase with rfl | rfl
  · exact h
  · exact h

/-- `recover_after_startup` keeps the records in order. -/
theorem Stored.recoverAfterStartup {exeReads migrationOk : Bool} (h : Stored k)
    (hruns : Runs k exe (.recovering migrationOk)) (io : Write) :
    Stored (recoverAfterStartup exe exeReads migrationOk io k) := by
  unfold AutoUpdate.recoverAfterStartup
  split
  · exact h
  · rename_i r hr
    split
    · exact h
    · rename_i hopen
      have hbacked := h.receipt r hr
      dsimp only
      generalize hphase : r.bootOutcome k.boot _ migrationOk = phase
      have hends : phase ∈ [.verified, .failed, .interrupted] := hphase ▸ bootOutcome_terminal _ _ _ _
      have hheld : Held k.log r.id := Or.inl ⟨r, h.last.trans hr, rfl, Bool.eq_false_of_not_eq_true hopen⟩
      cases phase with
      | verified =>
        obtain ⟨hverifying, hboot, rfl⟩ := bootOutcome_verified hphase
        have hverifies := hbacked.verifies hverifying
        refine h.save io ⟨?_, ?_, hverifies.other, hruns r hr hverifying hboot, hverifies.undone⟩ ?_
        · rw [h.last, hr]
          exact congrArg some (inPhase_eq hverifying).symm
        · exact h.boot.trans (congrArg some hboot.symm)
        · exact ⟨List.mem_cons_of_mem _ hbacked.own, hbacked.differs,
            fun _ => hbacked.written (by rw [hverifying]; decide), (fun hawaiting => nomatch hawaiting),
            fun hverifying' => nomatch hverifying'⟩
      | failed => exact h.save io (ordered_ends hheld (Or.inl rfl)) (hbacked.ends (Or.inl rfl))
      | interrupted => exact h.save io (ordered_ends hheld (Or.inr rfl)) (hbacked.ends (Or.inr rfl))
      | preparing => exact absurd hends (by decide)
      | installing => exact absurd hends (by decide)
      | awaitingReboot => exact absurd hends (by decide)
      | verifying => exact absurd hends (by decide)

/-- A new attempt. -/
theorem Stored.coordinate {id cycle recorded current : Text} (h : Stored k)
    (hterminal : ∀ r ∈ k.receipt, r.terminal = true) (hfresh : ∀ e ∈ k.log, e.attempt ≠ some id) :
    Stored (k.note (.compared recorded k.writer current)) ∧
      Works (k.note (.compared recorded k.writer current)) ⟨.new id k.boot cycle current [], .checking⟩ := by
  refine ⟨h.note trivial rfl rfl fun r hr => (h.receipt r hr).note (fun _ => rfl) fun _ => rfl,
    rfl, rfl, Or.inl rfl, rfl, ?_⟩
  obtain ⟨hended, hnew⟩ := h.begins hterminal hfresh
  exact ⟨hended, List.forall_mem_cons.mpr ⟨(fun heq => nomatch heq), hnew⟩⟩

/-- **Steps of a startup, and the beginning of a cycle.** -/
theorem Kept.serviceStep (h : Kept d) (hs : d.service = some s) (hd : serviceStep d s a = some d') : Kept d' := by
  have hruns := h.runs s hs
  unfold AutoUpdate.serviceStep at hd
  split at hd
  · rename_i io hstage
    rw [hstage] at hruns
    obtain rfl := Option.some.inj hd
    obtain ⟨hstored, hstarted⟩ : Stored (AutoUpdate.runStartupMigration s.exe d.migrated io d.records).1 ∧
        Runs (AutoUpdate.runStartupMigration s.exe d.migrated io d.records).1 s.exe
          (AutoUpdate.runStartupMigration s.exe d.migrated io d.records).2 :=
      h.stored.runStartupMigration hruns io
    refine ⟨hstored, fun s' hs' => ?_⟩
    obtain rfl := Option.some.inj hs'
    exact hstarted
  · rename_i version automatic marker hstage
    rw [hstage] at hruns
    obtain rfl := Option.some.inj hd
    obtain ⟨hstored, hrecovering⟩ := h.stored.migrationEnds automatic hruns
    cases marker with
    | done =>
      refine ⟨hstored, fun s' hs' => ?_⟩
      obtain rfl := Option.some.inj hs'
      exact hrecovering
    | failed =>
      refine ⟨h.stored, fun s' hs' => ?_⟩
      obtain rfl := Option.some.inj hs'
      trivial
    | unsynced =>
      refine ⟨h.stored, fun s' hs' => ?_⟩
      obtain rfl := Option.some.inj hs'
      trivial
  · rename_i migrationOk exeReads io hstage
    rw [hstage] at hruns
    obtain rfl := Option.some.inj hd
    refine ⟨h.stored.recoverAfterStartup hruns io, fun s' hs' => ?_⟩
    obtain rfl := Option.some.inj hs'
    trivial
  · rename_i id cycle otherVersion hstage
    obtain ⟨⟨-, hfresh, hterminal⟩, hd⟩ := Option.ite_none_right_eq_some.mp hd
    obtain rfl := Option.some.inj hd
    have hended : ∀ r ∈ d.records.receipt, r.terminal = true := fun r hr => by
      rw [hr] at hterminal
      exact hterminal
    obtain ⟨hstored, hworks⟩ := h.stored.coordinate hended hfresh
    refine ⟨hstored, fun s' hs' => ?_⟩
    obtain rfl := Option.some.inj hs'
    exact hworks
  · exact nomatch hd

end Startup

/-! ## The coordinator's steps -/

section Coordinator

variable {k : Records} {c : Coordinator} {a : Attempt} {id target : Text} {staged : Staged} {done : List Replaced}
  {file : Dest} {rest : List Dest} {d d' : Device} {s : Service} {act : Act}

/-- What is written about an attempt that is being installed. -/
theorem Stored.noteInstalling {e : Event} (h : Stored k) (ha : k.receipt = some a) (hphase : a.phase = .installing)
    (he : Ordered e k.log) (hlast : lastSaved (e :: k.log) = lastSaved k.log)
    (hboot : bootOf (e :: k.log) = bootOf k.log) (version : Option Text) (writer : Option Text) :
    Stored { k with version, writer, log := e :: k.log } := by
  refine ⟨⟨he, h.ordered⟩, hlast.trans h.last, hboot.trans h.boot, List.mem_cons_of_mem _ h.booted, ?_, ?_⟩
  · intro id hid
    obtain ⟨boot, hmem⟩ := h.shutdown id hid
    exact ⟨boot, List.mem_cons_of_mem _ hmem⟩
  · intro r hr
    obtain rfl := Option.some.inj (ha.symm.trans hr)
    have hbacked := h.receipt a ha
    refine Backed.early (List.mem_cons_of_mem _ hbacked.own) hbacked.differs ?_
    rw [hphase]
    decide

theorem numericVersion_nil : numericVersion [] = none := by decide

/-- The target of an attempt is newer than its source. -/
theorem latestStable_eq_some {answer : Option Release} (h : latestStable id answer = some (some target)) :
    id ≠ target ∧ target ≠ [] ∧ ∃ release, answer = some release ∧ release.tag = target := by
  unfold latestStable at h
  split at h
  · exact nomatch h
  · rename_i release
    obtain ⟨hnumeric, h⟩ := Option.ite_none_right_eq_some.mp h
    obtain ⟨hnewer, htag⟩ := Option.ite_none_right_eq_some.mp (Option.some.inj h)
    obtain rfl := Option.some.inj htag
    refine ⟨?_, ?_, release, rfl, rfl⟩
    · rintro rfl
      unfold stableTargetIsNewer at hnewer
      split_ifs at hnewer
      split at hnewer
      · rename_i current target hcurrent htarget
        obtain rfl := Option.some.inj (hcurrent.symm.trans htarget)
        simp [isBelow] at hnewer
      · exact nomatch hnewer
    · intro hempty
      rw [hempty, numericVersion_nil] at hnumeric
      simp at hnumeric

theorem Held.saved (hlast : lastSaved k.log = k.receipt) (ha : k.receipt = some a) (hterminal : a.terminal = false) :
    Held k.log a.id :=
  Or.inl ⟨a, hlast.trans ha, rfl, hterminal⟩

/-- The first save of an attempt. -/
theorem Works.savePreparing (h : Works k c) (hstored : Stored k) (hpoint : c.point = .saving) (io : Write) :
    Stored (io.save k c.attempt) ∧
      Works (io.save k c.attempt) (c.goTo (if io = .done then .staging else .failing)) := by
  have hat := h.point
  rw [hpoint] at hat
  obtain ⟨hphase, hbegins⟩ := hat
  have hordered : Ordered (.saved c.attempt) k.log := by
    unfold Ordered
    dsimp only
    rw [hphase]
    exact ⟨hbegins, hstored.boot.trans (congrArg some h.own.symm)⟩
  have hbacked : Backed (Write.done.save k c.attempt) c.attempt := by
    refine Backed.early (List.mem_cons_of_mem _ ?_) h.differs (by rw [hphase]; decide)
    rw [h.own]
    exact hstored.booted
  refine ⟨hstored.save io hordered hbacked, ?_⟩
  have hopen : c.attempt.terminal = false := by rw [Attempt.terminal, hphase]
  cases io with
  | failed => exact ⟨h.own, h.unverified, h.differs, Or.inr hbegins⟩
  | unsynced => exact ⟨h.own, h.unverified, h.differs, Or.inl ⟨_, rfl, rfl, hopen⟩⟩
  | done => exact ⟨h.own, h.unverified, h.differs, rfl, hphase, (Clean.of_fresh hbegins.2).cons rfl⟩

/-- The release is staged. -/
theorem Works.stage (h : Works k c) (hstored : Stored k) (hpoint : c.point = .staging) (staged : Staged) :
    Stored (k.note (.staged c.attempt.id staged.files)) ∧
      Works (k.note (.staged c.attempt.id staged.files)) (c.goTo (.gated staged)) := by
  have hat := h.point
  rw [hpoint] at hat
  obtain ⟨ha, hphase, hclean⟩ := hat
  refine ⟨hstored.note trivial rfl rfl fun r hr => (hstored.receipt r hr).note (fun _ => rfl) fun _ => rfl, ?_⟩
  exact ⟨h.own, h.unverified, h.differs, ha, hphase, hclean.cons rfl, List.mem_cons_self⟩

/-- The installation begins. -/
theorem Works.commit (h : Works k c) (hstored : Stored k) (hpoint : c.point = .gated staged) (io : Write)
    (ha : a = { c.attempt with binarySha256 := staged.binary, phase := .installing }) :
    Stored (io.save k a) ∧
      Works (io.save k a) ⟨a, if io = .done then .replacing staged [] staged.files else .failing⟩ := by
  have hat := h.point
  rw [hpoint] at hat
  obtain ⟨hreceipt, hphase, hclean, hstaged⟩ := hat
  subst ha
  have hbacked := hstored.receipt _ hreceipt
  have hopen : c.attempt.terminal = false := by rw [Attempt.terminal, hphase]
  have hsaved := hstored.save (a := { c.attempt with binarySha256 := staged.binary, phase := .installing }) io
    ⟨⟨c.attempt, hstored.last.trans hreceipt, rfl, hphase⟩, hstored.boot.trans (congrArg some h.own.symm)⟩
    (Backed.early (List.mem_cons_of_mem _ hbacked.own) hbacked.differs (by simp))
  refine ⟨hsaved, ?_⟩
  cases io with
  | failed => exact ⟨h.own, h.unverified, h.differs, Or.inl ⟨_, hstored.last.trans hreceipt, rfl, hopen⟩⟩
  | unsynced => exact ⟨h.own, h.unverified, h.differs, Or.inl ⟨_, rfl, rfl, rfl⟩⟩
  | done =>
    refine ⟨h.own, h.unverified, h.differs, rfl, rfl, hclean.cons rfl, rfl, rfl, ?_, fun hmem => nomatch hmem⟩
    exact (List.singleton_sublist.mpr hstaged).cons_cons _

/-- A file is replaced, and with it maybe the version. -/
theorem Works.replaceFile (h : Works k c) (hstored : Stored k) (hpoint : c.point = .replacing staged done (file :: rest))
    {version writer : Option Text} (backup : Replaced) (hdest : backup.dest = file)
    (hwritten : file = .version → writer = some c.attempt.id ∧ version = some c.attempt.target)
    (hkept : file ≠ .version → writer = k.writer ∧ version = k.version) :
    Stored { k with version, writer, log := .replaced c.attempt.id file :: k.log } ∧
      Works { k with version, writer, log := .replaced c.attempt.id file :: k.log }
        (c.goTo (.replacing staged (backup :: done) rest)) := by
  have hat := h.point
  rw [hpoint] at hat
  obtain ⟨ha, hphase, hclean, hbinary, hfiles, hsub, hversion⟩ := hat
  refine ⟨hstored.noteInstalling (e := .replaced c.attempt.id file) ha hphase trivial rfl rfl version writer,
    h.own, h.unverified, h.differs, ha, hphase, hclean.cons rfl, hbinary, ?_, ?_, fun hmem => ?_⟩
  · rw [hfiles, List.map_cons, hdest]
    simp
  · rw [List.map_cons, hdest]
    exact hsub.cons_cons _
  · by_cases hfile : file = .version
    · exact hwritten hfile
    · obtain ⟨hwriter, hversion'⟩ := hkept hfile
      rw [List.map_cons, hdest] at hmem
      have hdone := hversion ((List.mem_cons.mp hmem).resolve_left fun heq => hfile heq.symm)
      exact ⟨hwriter.trans hdone.1, hversion'.trans hdone.2⟩

/-- While files are replaced or put back, the receipt says so. -/
theorem Works.installing (h : Works k c)
    (hpoint : (∃ staged rest, c.point = .replacing staged done rest) ∨ c.point = .rollingBack done) :
    k.receipt = some c.attempt ∧ c.attempt.phase = .installing := by
  have hat := h.point
  rcases hpoint with ⟨staged, rest, hpoint⟩ | hpoint
  · rw [hpoint] at hat
    exact ⟨hat.1, hat.2.1⟩
  · rw [hpoint] at hat
    exact hat

/-- All files are replaced. -/
theorem Works.arm (h : Works k c) (hpoint : c.point = .replacing staged done []) : Works k (c.goTo .armed) := by
  have hat := h.point
  rw [hpoint] at hat
  obtain ⟨ha, hphase, hclean, hbinary, hfiles, hsub, hversion⟩ := hat
  have hdone : done.map Replaced.dest = staged.files.reverse := by
    rw [hfiles, List.append_nil, List.reverse_reverse]
  rw [hdone] at hsub hversion
  have hwritten := hversion (List.mem_reverse.mpr (by simp [Staged.files]))
  exact ⟨h.own, h.unverified, h.differs, ha, hphase, hclean, ⟨staged, hbinary, hsub⟩, hwritten⟩

/-- The attempt awaits the reboot. -/
theorem Works.saveAwaiting (h : Works k c) (hstored : Stored k) (hpoint : c.point = .armed) (io : Write) :
    Stored (io.save k (c.attempt.inPhase .awaitingReboot)) ∧
      Works (io.save k (c.attempt.inPhase .awaitingReboot))
        ⟨c.attempt.inPhase .awaitingReboot, if io = .done then .awaiting else .failing⟩ := by
  have hat := h.point
  rw [hpoint] at hat
  obtain ⟨ha, hphase, hclean, hpassed, hwriter, hversion⟩ := hat
  have hbacked := hstored.receipt _ ha
  have hopen : c.attempt.terminal = false := by rw [Attempt.terminal, hphase]
  have hawaits : Awaits (Write.done.save k (c.attempt.inPhase .awaitingReboot)) (c.attempt.inPhase .awaitingReboot) := by
    refine ⟨h.unverified, List.forall_mem_cons.mpr ⟨rfl, fun e he => hclean.undoes he⟩,
      List.forall_mem_cons.mpr ⟨rfl, fun e he => hclean.replays he⟩, ?_⟩
    obtain ⟨s, hs, hsub⟩ := hpassed
    refine ⟨s, hs, ?_⟩
    unfold AutoUpdate.trail
    have hshutdown : (Write.done.save k (c.attempt.inPhase .awaitingReboot)).shutdown
        (c.attempt.inPhase .awaitingReboot).id = none := hstored.shutdown_of_clean hclean
    rw [hshutdown]
    exact hsub.cons_cons _
  have hbacked' : Backed (Write.done.save k (c.attempt.inPhase .awaitingReboot)) (c.attempt.inPhase .awaitingReboot) :=
    ⟨List.mem_cons_of_mem _ hbacked.own, hbacked.differs, fun _ => ⟨hwriter, hversion⟩, fun _ => hawaits,
      fun hverifying => nomatch hverifying⟩
  have hsaved := hstored.save (a := c.attempt.inPhase .awaitingReboot) io
    ⟨⟨c.attempt, hstored.last.trans ha, rfl, hphase⟩, hstored.boot.trans (congrArg some h.own.symm)⟩ hbacked'
  refine ⟨hsaved, ?_⟩
  cases io with
  | failed => exact ⟨h.own, h.unverified, h.differs, Or.inl ⟨_, hstored.last.trans ha, rfl, hopen⟩⟩
  | unsynced => exact ⟨h.own, h.unverified, h.differs, Or.inl ⟨_, rfl, rfl, rfl⟩⟩
  | done => exact ⟨h.own, h.unverified, h.differs, rfl, rfl⟩

theorem Works.fail (h : Works k c) (hlast : lastSaved k.log = k.receipt) (ha : k.receipt = some c.attempt)
    (hopen : c.attempt.terminal = false) : Works k (c.goTo .failing) :=
  ⟨h.own, h.unverified, h.differs, Held.saved hlast ha hopen⟩

/-- The attempt is saved as failed. -/
theorem Works.saveFailed (h : Works k c) (hstored : Stored k) (hpoint : c.point = .failing) (io : Write) :
    Stored (io.save k (c.attempt.inPhase .failed)) := by
  have hat := h.point
  rw [hpoint] at hat
  refine hstored.save io (ordered_ends hat (Or.inl rfl)) (Backed.early ?_ h.differs ?_)
  · refine List.mem_cons_of_mem _ ?_
    show Event.booted c.attempt.bootId ∈ k.log
    rw [h.own]
    exact hstored.booted
  · show Phase.failed ∉ _
    decide

/-- The service goes on with a coordinator or without. -/
theorem Kept.proceed {records : Records} {next : Option Coordinator} (hstored : Stored records)
    (hworks : ∀ c ∈ next, Works records c) : Kept (d.proceed s records next) := by
  refine ⟨hstored, fun s' hs' => ?_⟩
  obtain rfl := Option.some.inj hs'
  cases next with
  | none => trivial
  | some c => exact hworks c rfl

/-- What replacing a file makes of the records. -/
theorem replace_records (d : Device) (a : Attempt) (staged : Staged) (file : Dest) :
    ∃ version writer, (d.replace a staged file).records =
        { d.records with version, writer, log := .replaced a.id file :: d.records.log } ∧
      (file = .version → writer = some a.id ∧ version = some a.target) ∧
      (file ≠ .version → writer = d.records.writer ∧ version = d.records.version) := by
  cases file with
  | version => exact ⟨some a.target, some a.id, rfl, fun _ => ⟨rfl, rfl⟩, fun hne => absurd rfl hne⟩
  | _ => exact ⟨d.records.version, d.records.writer, rfl, (fun heq => nomatch heq), fun _ => ⟨rfl, rfl⟩⟩

/-- What putting a file back makes of the records. -/
theorem restore_records (d : Device) (a : Attempt) (r : Replaced) :
    ∃ version writer, (d.restore a r).records =
        { d.records with version, writer, log := .restored a.id r.dest :: d.records.log } ∧
      (writer = d.records.writer ∧ version = d.records.version ∨ writer = r.writer ∧ version = r.version) := by
  unfold Device.restore
  cases r.dest with
  | version => exact ⟨r.version, r.writer, rfl, Or.inr ⟨rfl, rfl⟩⟩
  | _ => exact ⟨d.records.version, d.records.writer, rfl, Or.inl ⟨rfl, rfl⟩⟩

/-- `replace_files`, one file. -/
theorem Kept.replaceFile (h : Stored d.records) (hworks : Works d.records c)
    (hpoint : c.point = .replacing staged done (file :: rest)) (io : Write)
    (hd : coordinatorStep d s c (.replaceFile io) = some d') : Kept d' := by
  obtain ⟨ha, hphase⟩ := hworks.installing (Or.inl ⟨_, _, hpoint⟩)
  have hmoved : Stored (d.replace c.attempt staged file).records ∧
      Works (d.replace c.attempt staged file).records (c.goTo (.replacing staged (d.backup file :: done) rest)) := by
    obtain ⟨version, writer, hrecords, hwritten, hkept⟩ := replace_records d c.attempt staged file
    rw [hrecords]
    exact hworks.replaceFile h hpoint (d.backup file) rfl hwritten hkept
  obtain ⟨hstored, hnext⟩ := hmoved
  unfold AutoUpdate.coordinatorStep at hd
  rw [hpoint] at hd
  dsimp only at hd
  cases io with
  | failed =>
    obtain rfl := Option.some.inj hd
    refine Kept.proceed h fun c' hc' => ?_
    obtain rfl := Option.some.inj hc'
    exact ⟨hworks.own, hworks.unverified, hworks.differs, ha, hphase⟩
  | unsynced =>
    obtain rfl := Option.some.inj hd
    refine Kept.proceed hstored fun c' hc' => ?_
    obtain rfl := Option.some.inj hc'
    exact ⟨hnext.own, hnext.unverified, hnext.differs, hnext.point.1, hphase⟩
  | done =>
    obtain rfl := Option.some.inj hd
    refine Kept.proceed hstored fun c' hc' => ?_
    obtain rfl := Option.some.inj hc'
    exact hnext

/-- One file is put back, or is not. -/
theorem Kept.rollback (h : Stored d.records) (hworks : Works d.records c) {r : Replaced} {restored : Device}
    (hpoint : c.point = .rollingBack (r :: done)) (hrestored : restored = d.restore c.attempt r ∨ restored = d) :
    Kept (restored.proceed s restored.records (some (c.goTo (.rollingBack done)))) := by
  obtain ⟨ha, hphase⟩ := hworks.installing (Or.inr hpoint)
  have hstored : Stored restored.records ∧ restored.records.receipt = some c.attempt ∧
      restored.records.boot = d.records.boot := by
    rcases hrestored with rfl | rfl
    · obtain ⟨version, writer, hrecords, -⟩ := restore_records d c.attempt r
      rw [hrecords]
      exact ⟨h.noteInstalling (e := .restored c.attempt.id r.dest) ha hphase trivial rfl rfl version writer, ha, rfl⟩
    · exact ⟨h, ha, rfl⟩
  refine Kept.proceed hstored.1 fun c' hc' => ?_
  obtain rfl := Option.some.inj hc'
  exact ⟨hworks.own.trans hstored.2.2.symm, hworks.unverified, hworks.differs, hstored.2.1, hphase⟩

/-- **Steps of the coordinator.** -/
theorem Kept.coordinatorStep (h : Stored d.records) (hworks : Works d.records c)
    (hd : coordinatorStep d s c act = some d') : Kept d' := by
  have hat := hworks.point
  -- a coordinator fails at a point where the receipt is its own
  have hfail (ha : d.records.receipt = some c.attempt) (hopen : c.attempt.terminal = false) :
      Kept (d.proceed s d.records (some (c.goTo .failing))) := by
    refine Kept.proceed h fun c' hc' => ?_
    obtain rfl := Option.some.inj hc'
    exact hworks.fail h.last ha hopen
  have hopen {phase : Phase} (hphase : c.attempt.phase = phase) (hne : phase ∉ [.verified, .failed, .interrupted]) :
      c.attempt.terminal = false := by
    subst hphase
    unfold Attempt.terminal
    split <;> simp_all
  have hd' := hd
  unfold AutoUpdate.coordinatorStep at hd
  split at hd <;> rename_i hpoint
  · rw [hpoint] at hat
    split at hd
    · obtain rfl := Option.some.inj hd
      refine Kept.proceed h fun c' hc' => ?_
      obtain rfl := Option.some.inj hc'
      exact ⟨hworks.own, hworks.unverified, hworks.differs, Or.inr hat.2⟩
    · obtain rfl := Option.some.inj hd
      exact Kept.proceed h fun c' hc' => nomatch hc'
    · rename_i target hlatest
      obtain rfl := Option.some.inj hd
      refine Kept.proceed h fun c' hc' => ?_
      obtain rfl := Option.some.inj hc'
      exact ⟨hworks.own, hworks.unverified, Or.inr (latestStable_eq_some hlatest).1, hat⟩
  · obtain rfl := Option.some.inj hd
    obtain ⟨hstored, hnext⟩ := hworks.savePreparing h hpoint _
    exact Kept.proceed hstored fun c' hc' => Option.some.inj hc' ▸ hnext
  · obtain rfl := Option.some.inj hd
    obtain ⟨hstored, hnext⟩ := hworks.stage h hpoint _
    exact Kept.proceed hstored fun c' hc' => Option.some.inj hc' ▸ hnext
  · obtain rfl := Option.some.inj hd
    obtain ⟨hstored, hnext⟩ := hworks.commit h hpoint _ rfl
    exact Kept.proceed hstored fun c' hc' => Option.some.inj hc' ▸ hnext
  · exact Kept.replaceFile h hworks hpoint _ hd'
  · obtain rfl := Option.some.inj hd
    refine Kept.rollback h hworks hpoint ?_
    split
    · exact Or.inl rfl
    · exact Or.inr rfl
  · obtain rfl := Option.some.inj hd
    exact Kept.proceed h fun c' hc' => Option.some.inj hc' ▸ hworks.arm hpoint
  · obtain rfl := Option.some.inj hd
    obtain ⟨hstored, hnext⟩ := hworks.saveAwaiting h hpoint _
    exact Kept.proceed hstored fun c' hc' => Option.some.inj hc' ▸ hnext
  · rw [hpoint] at hat
    obtain rfl := Option.some.inj hd
    refine Kept.proceed h fun c' hc' => ?_
    obtain rfl := Option.some.inj hc'
    exact ⟨hworks.own, hworks.unverified, hworks.differs, hat⟩
  · rw [hpoint] at hat
    exact Option.some.inj hd ▸ hfail hat.1 (hopen hat.2.1 (by decide))
  · rw [hpoint] at hat
    exact Option.some.inj hd ▸ hfail hat.1 (hopen hat.2.1 (by decide))
  · rw [hpoint] at hat
    exact Option.some.inj hd ▸ hfail hat.1 (hopen hat.2.1 (by decide))
  · rw [hpoint] at hat
    exact Option.some.inj hd ▸ hfail hat.1 (hopen hat.2 (by decide))
  · rw [hpoint] at hat
    exact Option.some.inj hd ▸ hfail hat.1 (hopen hat.2 (by decide))
  · rw [hpoint] at hat
    exact Option.some.inj hd ▸ hfail hat.1 (hopen hat.2 (by decide))
  · obtain rfl := Option.some.inj hd
    exact Kept.proceed (hworks.saveFailed h hpoint _) fun c' hc' => nomatch hc'
  · exact nomatch hd

/-- What a step is a step of. -/
theorem step_cases (hd : step d act = some d') : machineStep d act = some d' ∨ ∃ s, d.service = some s ∧
    ((∃ c, s.stage = .ready (some c) ∧ coordinatorStep d s c act = some d') ∨ serviceStep d s act = some d') := by
  unfold step at hd
  split at hd
  · rename_i hmachine
    exact Or.inl (hmachine.trans hd)
  · obtain ⟨s, hs, hd⟩ := Option.bind_eq_some_iff.mp hd
    refine Or.inr ⟨s, hs, ?_⟩
    split at hd
    · rename_i c hstage
      exact Or.inl ⟨c, hstage, hd⟩
    · exact Or.inr hd

theorem Kept.works (h : Kept d) (hs : d.service = some s) (hstage : s.stage = .ready (some c)) : Works d.records c := by
  have hruns := h.runs s hs
  rw [hstage] at hruns
  exact hruns

/-- **Step lemma.** -/
theorem Kept.step (h : Kept d) (hd : step d act = some d') : Kept d' := by
  rcases step_cases hd with hd | ⟨s, hs, ⟨c, hstage, hd⟩ | hd⟩
  · exact h.machineStep hd
  · exact Kept.coordinatorStep h.stored (h.works hs hstage) hd
  · exact h.serviceStep hs hd

end Coordinator

end SentryUsb.Api.AutoUpdate
