import SentryUsb.Library.TransitionSystem
import SentryUsb.Library.Tasks

/-! # Import, processing and deletion

Requests that process clips, import an upload or delete drives look at the flags of the others, and then set their own:
`running` of the processor, `importing` of the import; a deletion sets none. The looks and the sets are steps of their
own, a reprocess or a summon check reserves the processor in a task that starts after the answer, and the handler of an
upload vanishes with its client while it receives the body.

* **`Task`** — where requests, passes, imports and deletions stand;
* **`step`** — the steps (`drives_handler.rs`, `processor.rs`);
* **`Flagged`** — flags are set by exactly one owner;
* **`work_excluded`** — the exclusion, in runs whose requests act while what they looked at still holds. -/

namespace SentryUsb.Api.DriveRequests

open Library

/-! ## State -/

/-- A request. -/
inductive Request where
  | processFiles
  | reprocessAll
  | checkSummon
  | uploadData
  | deleteAllDrives
  | bulkDeleteDrives
  deriving DecidableEq, Repr

/-- Requests at the points between their steps, and the work they start. -/
inductive Task where
  /-- The processor was not running (all requests but `process_files` look at that first). -/
  | foundIdle (request : Request)
  /-- The import was not running either; for an upload there is no such point. -/
  | foundFree (request : Request)
  /-- A pass with the processor reserved. -/
  | processing
  /-- An upload that has claimed the import and receives its body. -/
  | receiving
  /-- The import into the store. -/
  | importing
  /-- A deletion at work on the store. -/
  | deleting
  deriving DecidableEq, Repr

/-- The flags and the tasks. -/
structure Drives where
  running : Bool
  importing : Bool
  tasks : List Task
  deriving DecidableEq, Repr

def idle : Drives := ⟨false, false, []⟩

/-! ## Steps -/

inductive Act where
  /-- A request arrives and takes its first look. -/
  | request (request : Request)
  /-- A request that found the processor idle looks at the import. -/
  | checkImporting (request : Request)
  /-- `try_reserve`. -/
  | reserve (request : Request)
  | endPass
  /-- The swap of `importing` by an upload. -/
  | claim
  /-- The body of an upload ends in an error. -/
  | bodyError
  /-- The body is there, and the blocking task imports it. -/
  | received
  /-- The client of an upload disconnects while the body is received: the handler is dropped. -/
  | disconnect
  | endImport
  | beginDelete (request : Request)
  | endDelete
  deriving DecidableEq, Repr

def Drives.next (s : Drives) (task : Task) (after : List Task) : Drives := { s with tasks := advance s.tasks task after }

/-- The first look of a request: what it has found if it goes on. -/
def firstLook (s : Drives) : Request → Option Task
  | .processFiles => if s.importing then none else some (.foundFree .processFiles)
  | request => if s.running then none else some (.foundIdle request)

/-- Requests that reserve the processor. -/
def Request.processes : Request → Bool
  | .processFiles | .reprocessAll | .checkSummon => true
  | .uploadData | .deleteAllDrives | .bulkDeleteDrives => false

/-- Requests that delete. -/
def Request.deletes : Request → Bool
  | .deleteAllDrives | .bulkDeleteDrives => true
  | .processFiles | .reprocessAll | .checkSummon | .uploadData => false

def step (s : Drives) : Act → Option Drives
  | .request request =>
    match firstLook s request with
    | some task => some { s with tasks := task :: s.tasks }
    | none => some s
  | .checkImporting request =>
    if .foundIdle request ∈ s.tasks ∧ request ≠ .uploadData then
      some (s.next (.foundIdle request) (if s.importing then [] else [.foundFree request]))
    else none
  | .reserve request =>
    if .foundFree request ∈ s.tasks ∧ request.processes = true then
      if s.running then some (s.next (.foundFree request) [])
      else some { s.next (.foundFree request) [.processing] with running := true }
    else none
  | .endPass => if .processing ∈ s.tasks then some { s.next .processing [] with running := false } else none
  | .claim =>
    if .foundIdle .uploadData ∈ s.tasks then
      if s.importing then some (s.next (.foundIdle .uploadData) [])
      else some { s.next (.foundIdle .uploadData) [.receiving] with importing := true }
    else none
  | .bodyError => if .receiving ∈ s.tasks then some { s.next .receiving [] with importing := false } else none
  | .received => if .receiving ∈ s.tasks then some (s.next .receiving [.importing]) else none
  | .disconnect => if .receiving ∈ s.tasks then some (s.next .receiving []) else none
  | .endImport => if .importing ∈ s.tasks then some { s.next .importing [] with importing := false } else none
  | .beginDelete request =>
    if .foundFree request ∈ s.tasks ∧ request.deletes = true then some (s.next (.foundFree request) [.deleting])
    else none
  | .endDelete => if .deleting ∈ s.tasks then some (s.next .deleting []) else none

/-- **The condition on a step.** A request acts while the flags it looked at are still clear; neither a pass nor an import
starts during a deletion, which sets no flag; and no client disconnects while its upload is received. -/
def Careful (s : Drives) : Act → Prop
  | .reserve _ => s.running = false → s.importing = false ∧ .deleting ∉ s.tasks
  | .claim => s.importing = false → s.running = false
  | .received => .deleting ∉ s.tasks
  | .beginDelete _ => s.running = false ∧ s.importing = false
  | .disconnect => False
  | _ => True

/-! ## What every run keeps -/

/-- The owner of the import flag. -/
def Task.imports : Task → Bool
  | .receiving | .importing => true
  | _ => false

/-- **The invariant.** Each flag has one owner exactly while it is set, the two are not set at once, and a deletion works
beside neither. -/
structure Flagged (s : Drives) : Prop where
  pass : s.tasks.countP (· == .processing) = if s.running then 1 else 0
  upload : s.tasks.countP Task.imports = if s.importing then 1 else 0
  apart : ¬ (s.running = true ∧ s.importing = true)
  alone : .deleting ∈ s.tasks → s.running = false ∧ .importing ∉ s.tasks

theorem flagged_idle : Flagged idle := ⟨rfl, rfl, by decide, fun h => absurd h List.not_mem_nil⟩

/-- A step that leaves the flags alone, from a task without a flag to tasks without one, none of them a deletion. -/
theorem Flagged.next {s : Drives} (h : Flagged s) {t : Task} {after : List Task} (ht : t ∈ s.tasks)
    (hpass : t ≠ .processing) (himports : t.imports = false)
    (hafter : ∀ u ∈ after, u ≠ .processing ∧ u.imports = false ∧ u ≠ .deleting) : Flagged (s.next t after) := by
  have hcountP := @countP_advance _ _ s.tasks after t (· == .processing) ht
  have hcountI := @countP_advance _ _ s.tasks after t Task.imports ht
  have hzeroP : after.countP (· == .processing) = 0 :=
    List.countP_eq_zero.mpr fun u hu => by simpa using (hafter u hu).1
  have hzeroI : after.countP Task.imports = 0 :=
    List.countP_eq_zero.mpr fun u hu => by rw [(hafter u hu).2.1]; exact Bool.false_ne_true
  rw [hzeroP, if_neg (by simpa using hpass)] at hcountP
  rw [hzeroI, himports, if_neg Bool.false_ne_true] at hcountI
  refine ⟨?_, ?_, h.apart, fun hd => ?_⟩
  · exact (hcountP.trans (Nat.zero_add _)).trans h.pass
  · exact (hcountI.trans (Nat.zero_add _)).trans h.upload
  · have hd' := (mem_of_mem_advance hd).resolve_left fun hmem => (hafter _ hmem).2.2 rfl
    refine ⟨(h.alone hd').1, fun hi => ?_⟩
    rcases mem_of_mem_advance hi with hi | hi
    · exact absurd (hafter _ hi).2.1 (by decide)
    · exact (h.alone hd').2 hi

/-- A task that owns the import shows in its flag. -/
theorem Flagged.importing {s : Drives} (h : Flagged s) {t : Task} (ht : t ∈ s.tasks) (himports : t.imports = true) :
    s.importing = true := by
  by_contra hclear
  have hupload := h.upload
  rw [if_neg hclear] at hupload
  exact List.countP_eq_zero.mp hupload t ht himports

theorem Flagged.running {s : Drives} (h : Flagged s) (ht : .processing ∈ s.tasks) : s.running = true := by
  by_contra hclear
  have hpass := h.pass
  rw [if_neg hclear] at hpass
  exact List.countP_eq_zero.mp hpass _ ht rfl

/-- The processor is reserved. -/
theorem Flagged.reserve {s : Drives} (h : Flagged s) {t : Task} (ht : t ∈ s.tasks) (hpass : t ≠ .processing)
    (himports : t.imports = false) (hrunning : s.running = false) (himporting : s.importing = false)
    (hdeleting : .deleting ∉ s.tasks) : Flagged { s.next t [.processing] with running := true } := by
  have hcountP := @countP_advance _ _ s.tasks [.processing] t (· == .processing) ht
  have hcountI := @countP_advance _ _ s.tasks [.processing] t Task.imports ht
  rw [if_neg (by simpa using hpass), h.pass, hrunning] at hcountP
  rw [himports, h.upload] at hcountI
  refine ⟨hcountP, hcountI.trans (Nat.zero_add _), ?_, fun hd => ?_⟩
  · rintro ⟨-, hi⟩
    rw [show s.importing = true from hi] at himporting
    exact absurd himporting (by decide)
  · exact absurd ((mem_of_mem_advance hd).resolve_left (by decide)) hdeleting

/-- The pass ends. -/
theorem Flagged.endPass {s : Drives} (h : Flagged s) (ht : .processing ∈ s.tasks) :
    Flagged { s.next .processing [] with running := false } := by
  have hcountP := @countP_advance _ _ s.tasks [] .processing (· == .processing) ht
  have hcountI := @countP_advance _ _ s.tasks [] .processing Task.imports ht
  rw [h.pass, h.running ht] at hcountP
  rw [h.upload] at hcountI
  refine ⟨Nat.succ.inj hcountP, hcountI.trans (Nat.zero_add _), fun hboth => absurd hboth.1 Bool.false_ne_true, fun hd => ?_⟩
  obtain ⟨-, hi⟩ := h.alone ((mem_of_mem_advance hd).resolve_left List.not_mem_nil)
  exact ⟨rfl, fun hi' => hi ((mem_of_mem_advance hi').resolve_left List.not_mem_nil)⟩

/-- The import is claimed. -/
theorem Flagged.claim {s : Drives} (h : Flagged s) {t : Task} (ht : t ∈ s.tasks) (hpass : t ≠ .processing)
    (himports : t.imports = false) (himporting : s.importing = false) (hrunning : s.running = false) :
    Flagged { s.next t [.receiving] with importing := true } := by
  have hcountP := @countP_advance _ _ s.tasks [.receiving] t (· == .processing) ht
  have hcountI := @countP_advance _ _ s.tasks [.receiving] t Task.imports ht
  rw [if_neg (by simpa using hpass), h.pass] at hcountP
  rw [himports, h.upload, himporting] at hcountI
  refine ⟨hcountP.trans (Nat.zero_add _), hcountI, ?_, fun hd => ⟨hrunning, fun hi => ?_⟩⟩
  · rintro ⟨hr, -⟩
    rw [show s.running = true from hr] at hrunning
    exact absurd hrunning (by decide)
  · have hi' := (mem_of_mem_advance hi).resolve_left (by decide)
    rw [h.importing hi' rfl] at himporting
    exact absurd himporting (by decide)

/-- The import is given up. -/
theorem Flagged.unclaim {s : Drives} (h : Flagged s) {t : Task} (ht : t ∈ s.tasks) (hpass : t ≠ .processing)
    (himports : t.imports = true) : Flagged { s.next t [] with importing := false } := by
  have hcountP := @countP_advance _ _ s.tasks [] t (· == .processing) ht
  have hcountI := @countP_advance _ _ s.tasks [] t Task.imports ht
  rw [if_neg (by simpa using hpass), h.pass] at hcountP
  rw [himports, h.upload, h.importing ht himports] at hcountI
  refine ⟨hcountP.trans (Nat.zero_add _), Nat.succ.inj hcountI, fun hboth => absurd hboth.2 Bool.false_ne_true,
    fun hd => ?_⟩
  obtain ⟨hr, hi⟩ := h.alone ((mem_of_mem_advance hd).resolve_left List.not_mem_nil)
  exact ⟨hr, fun hi' => hi ((mem_of_mem_advance hi').resolve_left List.not_mem_nil)⟩

/-- The body of an upload is there. -/
theorem Flagged.received {s : Drives} (h : Flagged s) (ht : .receiving ∈ s.tasks) (hdeleting : .deleting ∉ s.tasks) :
    Flagged (s.next .receiving [.importing]) := by
  have hcountP := @countP_advance _ _ s.tasks [.importing] .receiving (· == .processing) ht
  have hcountI := @countP_advance _ _ s.tasks [.importing] .receiving Task.imports ht
  rw [h.pass] at hcountP
  rw [h.upload] at hcountI
  refine ⟨hcountP.trans (Nat.zero_add _), ?_, h.apart, fun hd => ?_⟩
  · exact Nat.add_right_cancel (hcountI.trans (Nat.add_comm _ _))
  · exact absurd ((mem_of_mem_advance hd).resolve_left (by decide)) hdeleting

/-- A deletion begins. -/
theorem Flagged.beginDelete {s : Drives} (h : Flagged s) {t : Task} (ht : t ∈ s.tasks) (hpass : t ≠ .processing)
    (himports : t.imports = false) (hrunning : s.running = false) (himporting : s.importing = false) :
    Flagged (s.next t [.deleting]) := by
  have hcountP := @countP_advance _ _ s.tasks [.deleting] t (· == .processing) ht
  have hcountI := @countP_advance _ _ s.tasks [.deleting] t Task.imports ht
  rw [if_neg (by simpa using hpass), h.pass] at hcountP
  rw [himports, h.upload] at hcountI
  refine ⟨hcountP.trans (Nat.zero_add _), hcountI.trans (Nat.zero_add _), h.apart, fun _ => ⟨hrunning, fun hi => ?_⟩⟩
  have hi' := (mem_of_mem_advance hi).resolve_left (by decide)
  rw [h.importing hi' rfl] at himporting
  exact absurd himporting (by decide)

/-- A request that arrives. -/
theorem Flagged.arrive {s : Drives} (h : Flagged s) {t : Task} (hpass : t ≠ .processing) (himports : t.imports = false)
    (hdeleting : t ≠ .deleting) : Flagged { s with tasks := t :: s.tasks } := by
  refine ⟨?_, ?_, h.apart, fun hd => ?_⟩
  · rw [List.countP_cons_of_neg (by simpa using hpass)]
    exact h.pass
  · rw [List.countP_cons_of_neg (by rw [himports]; exact Bool.false_ne_true)]
    exact h.upload
  · have hd' := (List.mem_cons.mp hd).resolve_left fun heq => hdeleting heq.symm
    refine ⟨(h.alone hd').1, fun hi => (h.alone hd').2 ((List.mem_cons.mp hi).resolve_left fun heq => ?_)⟩
    rw [← heq] at himports
    exact absurd himports (by decide)

theorem firstLook_spec {s : Drives} {request : Request} {t : Task} (h : firstLook s request = some t) :
    t ≠ .processing ∧ t.imports = false ∧ t ≠ .deleting := by
  cases request <;>
    · simp only [firstLook, Option.ite_none_left_eq_some] at h
      obtain rfl := Option.some.inj h.2
      exact ⟨by simp, rfl, by simp⟩

/-- **One step.** -/
theorem Flagged.step {s t : Drives} {a : Act} (h : Flagged s) (hcareful : Careful s a) (hstep : step s a = some t) :
    Flagged t := by
  cases a with
  | request request =>
    simp only [DriveRequests.step] at hstep
    split at hstep
    · rename_i task htask
      obtain rfl := Option.some.inj hstep
      obtain ⟨hpass, himports, hdeleting⟩ := firstLook_spec htask
      exact h.arrive hpass himports hdeleting
    · obtain rfl := Option.some.inj hstep
      exact h
  | checkImporting request =>
    obtain ⟨⟨ht, -⟩, heq⟩ := Option.ite_none_right_eq_some.mp hstep
    obtain rfl := Option.some.inj heq
    refine h.next ht (by simp) rfl fun u hu => ?_
    split at hu
    · exact absurd hu List.not_mem_nil
    · rw [List.mem_singleton.mp hu]
      exact ⟨by simp, rfl, by simp⟩
  | reserve request =>
    obtain ⟨⟨ht, -⟩, heq⟩ := Option.ite_none_right_eq_some.mp hstep
    split at heq
    · obtain rfl := Option.some.inj heq
      exact h.next ht (by simp) rfl fun u hu => absurd hu List.not_mem_nil
    · rename_i hrunning
      obtain rfl := Option.some.inj heq
      have hclear := Bool.eq_false_iff.mpr hrunning
      obtain ⟨himporting, hdeleting⟩ := hcareful hclear
      exact h.reserve ht (by simp) rfl hclear himporting hdeleting
  | endPass =>
    obtain ⟨ht, heq⟩ := Option.ite_none_right_eq_some.mp hstep
    obtain rfl := Option.some.inj heq
    exact h.endPass ht
  | claim =>
    obtain ⟨ht, heq⟩ := Option.ite_none_right_eq_some.mp hstep
    split at heq
    · obtain rfl := Option.some.inj heq
      exact h.next ht (by simp) rfl fun u hu => absurd hu List.not_mem_nil
    · rename_i himporting
      obtain rfl := Option.some.inj heq
      have hclear := Bool.eq_false_iff.mpr himporting
      exact h.claim ht (by simp) rfl hclear (hcareful hclear)
  | bodyError =>
    obtain ⟨ht, heq⟩ := Option.ite_none_right_eq_some.mp hstep
    obtain rfl := Option.some.inj heq
    exact h.unclaim ht (by simp) rfl
  | received =>
    obtain ⟨ht, heq⟩ := Option.ite_none_right_eq_some.mp hstep
    obtain rfl := Option.some.inj heq
    exact h.received ht hcareful
  | disconnect => exact hcareful.elim
  | endImport =>
    obtain ⟨ht, heq⟩ := Option.ite_none_right_eq_some.mp hstep
    obtain rfl := Option.some.inj heq
    exact h.unclaim ht (by simp) rfl
  | beginDelete request =>
    obtain ⟨⟨ht, -⟩, heq⟩ := Option.ite_none_right_eq_some.mp hstep
    obtain rfl := Option.some.inj heq
    exact h.beginDelete ht (by simp) rfl hcareful.1 hcareful.2
  | endDelete =>
    obtain ⟨ht, heq⟩ := Option.ite_none_right_eq_some.mp hstep
    obtain rfl := Option.some.inj heq
    exact h.next ht (by simp) rfl fun u hu => absurd hu List.not_mem_nil

/-! ## Exclusion -/

/-- **Import, processing and deletion exclude each other**: no import runs beside a pass, neither beside a deletion, no
two imports run at once, and the import flag is set only while an upload is received or imported. -/
theorem work_excluded {s : Drives} (h : Reaches step Careful idle s) :
    (.importing ∈ s.tasks → .processing ∉ s.tasks)
      ∧ (.deleting ∈ s.tasks → .importing ∉ s.tasks ∧ .processing ∉ s.tasks)
      ∧ s.tasks.count .importing ≤ 1
      ∧ (s.importing = true → .receiving ∈ s.tasks ∨ .importing ∈ s.tasks) := by
  have hs := h.invariant flagged_idle fun _ _ _ ht hok hstep => ht.step hok hstep
  refine ⟨fun hi hp => hs.apart ⟨hs.running hp, hs.importing hi rfl⟩, fun hd => ?_, ?_, fun hflag => ?_⟩
  · obtain ⟨hrunning, hi⟩ := hs.alone hd
    refine ⟨hi, fun hp => ?_⟩
    rw [hs.running hp] at hrunning
    exact absurd hrunning (by decide)
  · have hle : s.tasks.count .importing ≤ s.tasks.countP Task.imports :=
      List.countP_mono_left fun t _ ht => by rw [beq_iff_eq.mp ht]; rfl
    refine hle.trans ?_
    rw [hs.upload]
    split <;> decide
  · have hone := hs.upload
    rw [if_pos hflag] at hone
    obtain ⟨t, ht, himports⟩ := List.countP_pos_iff.mp (by rw [hone]; decide)
    cases t with
    | receiving => exact Or.inl ht
    | importing => exact Or.inr ht
    | foundIdle _ | foundFree _ | processing | deleting => exact absurd himports Bool.false_ne_true

instance (s : Drives) : DecidablePred (Careful s)
  | .reserve _ => inferInstanceAs (Decidable (s.running = false → s.importing = false ∧ .deleting ∉ s.tasks))
  | .claim => inferInstanceAs (Decidable (s.importing = false → s.running = false))
  | .received => inferInstanceAs (Decidable (.deleting ∉ s.tasks))
  | .beginDelete _ => inferInstanceAs (Decidable (s.running = false ∧ s.importing = false))
  | .disconnect => isFalse id
  | .request _ | .checkImporting _ | .endPass | .bodyError | .endImport | .endDelete => isTrue trivial

/-- An upload arrives while another one is received, and is refused; then the first one is imported. -/
theorem second_upload_refused : ∃ s, Reaches step Careful idle s ∧ .importing ∈ s.tasks
    ∧ (.importing ∈ s.tasks → .processing ∉ s.tasks)
    ∧ (.deleting ∈ s.tasks → .importing ∉ s.tasks ∧ .processing ∉ s.tasks) ∧ s.tasks.count .importing ≤ 1
    ∧ (s.importing = true → .receiving ∈ s.tasks ∨ .importing ∈ s.tasks) := by
  have hrun : run (guarded step Careful) idle
      [.request .uploadData, .claim, .request .uploadData, .claim, .received] = some ⟨false, true, [.importing]⟩ := by
    decide
  have hreaches := reaches_of_run_guarded hrun
  exact ⟨_, hreaches, by decide, work_excluded hreaches⟩

/-- **The exclusion fails**: an upload claims the import between the two steps of a process request, and both run; a
process request starts a pass during a deletion; and a client that disconnects leaves the import flag set with nothing
under way. -/
theorem work_overlaps :
    Reachable step idle ⟨true, true, [.importing, .processing]⟩
      ∧ Reachable step idle ⟨true, false, [.processing, .deleting]⟩
      ∧ Reachable step idle ⟨false, true, []⟩ := by
  have hboth : run step idle
      [.request .processFiles, .request .uploadData, .reserve .processFiles, .claim, .received]
        = some ⟨true, true, [.importing, .processing]⟩ := by decide
  have hdeletion : run step idle
      [.request .deleteAllDrives, .checkImporting .deleteAllDrives, .beginDelete .deleteAllDrives,
        .request .processFiles, .reserve .processFiles] = some ⟨true, false, [.processing, .deleting]⟩ := by decide
  have hdropped : run step idle [.request .uploadData, .claim, .disconnect] = some ⟨false, true, []⟩ := by decide
  exact ⟨reachable_of_run hboth, reachable_of_run hdeletion, reachable_of_run hdropped⟩

end SentryUsb.Api.DriveRequests
