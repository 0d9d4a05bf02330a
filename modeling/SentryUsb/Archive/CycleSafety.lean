import SentryUsb.Archive.CycleControl

/-! # An accepted cancel protects footage

* **`Safe`** — cycle file, request files and marker agree with what happened, and the holder of the lock knows how far it
  has come;
* **`safe_step`** — every step of the shell, of the call that holds the lock, and every power loss keeps it;
* **`cancel_protects_footage`** — an accepted cancel keeps the marker until another, uncancelled cycle releases it, is
  accepted only for the cycle under way, and is reported by the end of that cycle and no other. -/

namespace SentryUsb.Archive.CycleControl

open Library

/-! ## The invariant -/

/-- What the holder of the lock knows. -/
def Knows (s : System) : Lock → Prop
  | .free => True
  | .cleanup removed => s.shell.phase = .running ∧ (removed = false → s.cancelRequested = false)
  | .request expected stage =>
    (stage ≠ .locked → s.shell.cycle = some expected)
      ∧ (stage = .opened ∨ stage = .fileSynced → s.marker.present = true)
      ∧ (stage = .secured ∨ stage = .published → s.marker.Durable)
      ∧ (stage = .published → .requested expected ∈ s.log)

/-- **The invariant.** -/
structure Safe (s : System) : Prop where
  isId : ∀ c, s.shell.id = some c → IsId c
  idle : s.shell.phase = .idle ↔ s.shell.id = none
  /-- The cycle file names the cycle under way. -/
  file : s.cycleFile = s.shell.cycle.map (· ++ ['\n'])
  active : activeIn s.log = s.shell.cycle
  fresh : s.shell.phase = .named → ∀ c, s.shell.id = some c → .begun c ∉ s.log
  /-- A request file was written by a request, -/
  receipts : ∀ c ∈ s.cancels, .requested c ∈ s.log
  /-- and is there while its cycle is under way. -/
  received : ∀ c, s.shell.cycle = some c → .requested c ∈ s.log → c ∈ s.cancels
  settled : s.shell.phase = .settled → s.shell.cancelled = true → s.cancelRequested = true
  holder : Knows s s.lock
  owed : owed s.log = true → s.marker.Durable
  history : Chronicle Allowed s.log

variable {s s' : System} {c : Text}

theorem Booted.safe (h : Booted s) : Safe s where
  isId := by
    intro c hc
    rw [h.shell] at hc
    exact absurd hc (by simp [Shell.fresh])
  idle := by rw [h.shell]; simp [Shell.fresh]
  file := by rw [h.cycleFile, h.shell]; rfl
  active := by rw [h.log, h.shell]; rfl
  fresh := by
    intro hphase
    rw [h.shell] at hphase
    exact absurd hphase (by simp [Shell.fresh])
  receipts := by
    intro c hc
    rw [h.cancels] at hc
    exact absurd hc List.not_mem_nil
  received := by
    intro c hc
    rw [h.shell] at hc
    exact absurd hc (by simp [Shell.fresh, Shell.cycle])
  settled := by
    intro hphase
    rw [h.shell] at hphase
    exact absurd hphase (by simp [Shell.fresh])
  holder := by rw [h.lock]; trivial
  owed := by
    intro howed
    rw [h.log] at howed
    exact absurd howed (by simp [CycleControl.owed])
  history := by rw [h.log]; exact chronicle_nil

/-! ### What the invariant says of the cycle under way -/

theorem Shell.id_of_cycle {sh : Shell} (hc : sh.cycle = some c) : sh.id = some c := by
  unfold Shell.cycle at hc
  split at hc
  · exact absurd hc (by simp)
  · exact absurd hc (by simp)
  · exact hc
  · exact hc

theorem Safe.cancelRequested_iff (h : Safe s) (hc : s.shell.cycle = some c) :
    s.cancelRequested = true ↔ .requested c ∈ s.log := by
  rw [System.cancelRequested, Shell.id_of_cycle hc, Option.any_some, decide_eq_true_eq]
  exact ⟨h.receipts c, h.received c hc⟩

theorem Safe.ownsFile (h : Safe s) (hc : s.shell.cycle = some c) : s.ownsFile = true := by
  rw [System.ownsFile, Shell.id_of_cycle hc, Option.any_some, h.file, hc, Option.map_some,
    catFile_cycleId (h.isId c (Shell.id_of_cycle hc))]
  exact decide_eq_true rfl

/-- So the end of a cycle captures its cancel. -/
theorem Safe.captured_iff (h : Safe s) (hc : s.shell.cycle = some c) :
    s.captured = true ↔ .requested c ∈ s.log := by
  rw [System.captured, h.ownsFile hc, Bool.true_and]
  exact h.cancelRequested_iff hc

/-- After the locked part of the end there is no cycle file. -/
theorem Safe.file_closed (h : Safe s) : (if s.ownsFile then none else s.cycleFile) = none := by
  cases hc : s.shell.cycle with
  | none =>
    rw [h.file, hc]
    exact ite_self _
  | some c => rw [if_pos (h.ownsFile hc)]

/-- **A check succeeds for the cycle under way only.** -/
theorem Safe.cycle_of_activeCycle (h : Safe s) {procs : List Nat}
    (hactive : activeCycle procs s.cycleFile = some c) : s.shell.cycle = some c := by
  rw [h.file] at hactive
  cases hcycle : s.shell.cycle with
  | none => rw [hcycle] at hactive; exact absurd hactive (by simp [activeCycle])
  | some d =>
    rw [hcycle, Option.map_some] at hactive
    have htrim := trim_of_activeCycle hactive
    rw [trim_cycleId (h.isId d (Shell.id_of_cycle hcycle))] at htrim
    rw [htrim]

theorem Safe.not_requested (h : Safe s) (hc : .begun c ∉ s.log) : .requested c ∉ s.log :=
  fun hrequested => hc (begun_of_requested h.history hrequested)

/-! ### Steps that change one thing -/

theorem Safe.withLock (h : Safe s) {l : Lock} (hl : Knows s l) : Safe { s with lock := l } where
  isId := h.isId
  idle := h.idle
  file := h.file
  active := h.active
  fresh := h.fresh
  receipts := h.receipts
  received := h.received
  settled := h.settled
  holder := hl
  owed := h.owed
  history := h.history

/-- A marker that is created or written to the disk stays. -/
theorem Safe.withMarker (h : Safe s) {m : Marker} (hpresent : s.marker.present = true → m.present = true)
    (hdurable : s.marker.Durable → m.Durable) : Safe { s with marker := m } where
  isId := h.isId
  idle := h.idle
  file := h.file
  active := h.active
  fresh := h.fresh
  receipts := h.receipts
  received := h.received
  settled := h.settled
  holder := by
    have hholder := h.holder
    show Knows { s with marker := m } s.lock
    cases hlock : s.lock with
    | free => trivial
    | cleanup removed => rw [hlock] at hholder; exact hholder
    | request expected stage =>
      rw [hlock] at hholder
      obtain ⟨hcycle, hopened, hsecured, hpublished⟩ := hholder
      exact ⟨hcycle, fun hstage => hpresent (hopened hstage), fun hstage => hdurable (hsecured hstage), hpublished⟩
  owed := fun howed => hdurable (h.owed howed)
  history := h.history

theorem Marker.Durable.create {m : Marker} (h : m.Durable) : m.create.Durable := ⟨rfl, h.2⟩

theorem Marker.durable_sync {m : Marker} (h : m.present = true) : m.sync.Durable := by
  refine ⟨h, ?_⟩
  show (!m.present) = false
  rw [h]
  rfl

/-- A call that goes on keeps the invariant if the next stage's knowledge is there. -/
theorem Safe.proceed (h : Safe s) {ok : Bool} {expected : Text} {stage : Stage}
    (hl : ok = true → Knows s (.request expected stage)) : Safe (proceed s ok expected stage) := by
  refine h.withLock ?_
  cases ok with
  | false => trivial
  | true => exact hl rfl

/-! ### The shell -/

theorem safe_beginCycle {uuid : Text} (h : Safe s) (hstep : step s (.beginCycle uuid) = some s') : Safe s' := by
  simp only [step] at hstep
  obtain ⟨⟨hidle, huuid, hfresh⟩, hs'⟩ := Option.ite_none_right_eq_some.mp hstep
  obtain rfl := Option.some.inj hs'
  -- no cycle is under way before or after
  have hcycle : s.shell.cycle = none := by rw [Shell.cycle, hidle]
  have hholder := h.holder
  refine ⟨?_, ?_, ?_, ?_, ?_, h.receipts, ?_, ?_, ?_, h.owed, h.history⟩
  · intro c hc
    exact ⟨s.shell.pid, uuid, (Option.some.inj hc).symm, huuid⟩
  · simp
  · show s.cycleFile = none
    rw [h.file, hcycle]
    rfl
  · show activeIn s.log = none
    rw [h.active, hcycle]
  · intro _ c hc
    exact Option.some.inj hc ▸ hfresh
  · intro c hc
    exact absurd hc (by simp [Shell.cycle])
  · intro hphase
    exact absurd hphase (by simp)
  · show Knows _ s.lock
    cases hlock : s.lock with
    | free => trivial
    | cleanup removed =>
      rw [hlock] at hholder
      exact absurd hholder.1 (by simp [hidle])
    | request expected stage =>
      rw [hlock] at hholder
      obtain ⟨hchecked, hopened, hsecured, hpublished⟩ := hholder
      refine ⟨fun hstage => ?_, hopened, hsecured, hpublished⟩
      exact absurd (hchecked hstage) (by simp [hcycle])

theorem safe_publishCycle (h : Safe s) (hstep : step s .publishCycle = some s') : Safe s' := by
  simp only [step] at hstep
  split at hstep
  · rename_i c hphase hid
    obtain rfl := Option.some.inj hstep
    have hcycle : s.shell.cycle = none := by rw [Shell.cycle, hphase]
    have hnew := h.fresh hphase c hid
    have hholder := h.holder
    refine ⟨h.isId, ?_, ?_, ?_, ?_, ?_, ?_, ?_, ?_, h.owed, hnew, h.history⟩
    · simp [hid]
    · show some (c ++ ['\n']) = s.shell.id.map _
      rw [hid]
      rfl
    · exact hid.symm
    · intro hnamed
      exact absurd hnamed (by simp)
    · intro d hd
      exact List.mem_cons_of_mem _ (h.receipts d hd)
    · -- an id that never began was never cancelled
      intro d hd hrequested
      obtain rfl : c = d := Option.some.inj (hid.symm.trans hd)
      rcases List.mem_cons.mp hrequested with heq | hrequested
      · exact absurd heq (by simp)
      · exact absurd hrequested (h.not_requested hnew)
    · intro hsettled
      exact absurd hsettled (by simp)
    · show Knows _ s.lock
      cases hlock : s.lock with
      | free => trivial
      | cleanup removed =>
        rw [hlock] at hholder
        exact absurd hholder.1 (by simp [hphase])
      | request expected stage =>
        rw [hlock] at hholder
        obtain ⟨hchecked, hopened, hsecured, hpublished⟩ := hholder
        refine ⟨fun hstage => ?_, hopened, hsecured, fun hstage => List.mem_cons_of_mem _ (hpublished hstage)⟩
        exact absurd (hchecked hstage) (by simp [hcycle])
  · exact absurd hstep (by simp)


theorem safe_runCycle (h : Safe s) (hstep : step s .runCycle = some s') : Safe s' := by
  simp only [step] at hstep
  split at hstep
  · exact absurd hstep (by simp)
  · rename_i hphase hlock
    obtain rfl := Option.some.inj hstep
    have hcycle : s.shell.cycle = s.shell.id := by rw [Shell.cycle, hphase]
    have hholder := h.holder
    refine ⟨h.isId, ?_, ?_, ?_, ?_, h.receipts, ?_, fun _ hcancelled => hcancelled, ?_, h.owed, h.history⟩
    · rw [← h.idle, hphase]
      simp
    · rw [h.file, hcycle]
      rfl
    · rw [h.active, hcycle]
      rfl
    · intro hnamed
      exact absurd hnamed (by simp)
    · exact fun d hd => h.received d (hcycle.trans hd)
    · show Knows _ s.lock
      cases hl : s.lock with
      | free => trivial
      | cleanup removed => exact absurd hl (hlock removed)
      | request expected stage =>
        rw [hl] at hholder
        exact ⟨fun hstage => hcycle.symm.trans (hholder.1 hstage), hholder.2⟩
  · exact absurd hstep (by simp)

/-- The end of a cycle says whether the cycle was cancelled. -/
theorem safe_endCycle (h : Safe s) (hstep : step s .endCycle = some s') : Safe s' := by
  simp only [step] at hstep
  split at hstep
  · rename_i c hphase hid hlock
    obtain rfl := Option.some.inj hstep
    have hcycle : s.shell.cycle = some c := by rw [Shell.cycle, hphase, hid]
    have hcaptured := h.captured_iff hcycle
    -- `run_archive_cycle` has reset the variable to this cycle's request file
    have hsame : (s.captured || s.shell.cancelled) = s.captured := by
      cases hcancelled : s.shell.cancelled with
      | false => exact Bool.or_false _
      | true =>
        have hrequested := h.settled hphase hcancelled
        rw [System.captured, h.ownsFile hcycle, hrequested]
        rfl
    refine ⟨?_, ?_, ?_, rfl, ?_, ?_, ?_, ?_, ?_, h.owed, ?_, h.history⟩
    · intro d hd
      exact absurd hd (by simp)
    · exact ⟨fun _ => rfl, fun _ => rfl⟩
    · exact h.file_closed
    · intro hnamed
      exact absurd hnamed (by simp)
    · exact fun d hd => List.mem_cons_of_mem _ (h.receipts d hd)
    · intro d hd
      exact absurd hd (by simp [Shell.cycle])
    · intro hsettled
      exact absurd hsettled (by simp)
    · show Knows _ s.lock
      rw [hlock]
      trivial
    · exact ⟨h.active.trans hcycle, hcaptured, hsame⟩
  · exact absurd hstep (by simp)

/-- The trap ends the cycle under way, if there is one. -/
theorem System.exitLog_cases (s : System) :
    (∃ c, s.shell.cycle = some c ∧ s.exitLog = .exited c s.captured :: s.log)
      ∨ s.shell.cycle = none ∧ s.exitLog = s.log := by
  unfold System.exitLog
  cases hcycle : s.shell.cycle with
  | none => exact .inr ⟨rfl, rfl⟩
  | some c => exact .inl ⟨c, rfl, rfl⟩

theorem safe_exitShell {pid : Nat} (h : Safe s) (hstep : step s (.exitShell pid) = some s') : Safe s' := by
  simp only [step] at hstep
  split at hstep
  · rename_i hlock
    obtain rfl := Option.some.inj hstep
    have hnew : (∀ e ∈ s.log, e ∈ s.exitLog) ∧ activeIn s.exitLog = none
        ∧ (CycleControl.owed s.exitLog = true → s.marker.Durable) ∧ Chronicle Allowed s.exitLog := by
      rcases s.exitLog_cases with ⟨c, hcycle, hlog⟩ | ⟨hcycle, hlog⟩
      · rw [hlog]
        exact ⟨fun e he => List.mem_cons_of_mem _ he, rfl, h.owed,
          ⟨h.active.trans hcycle, h.captured_iff hcycle⟩, h.history⟩
      · rw [hlog]
        exact ⟨fun e he => he, h.active.trans hcycle, h.owed, h.history⟩
    obtain ⟨hkept, hactive, howed, hhistory⟩ := hnew
    refine ⟨?_, ?_, h.file_closed, hactive, ?_, fun d hd => hkept _ (h.receipts d hd), ?_, ?_, ?_, howed, hhistory⟩
    · intro d hd
      exact absurd hd (by simp [Shell.fresh])
    · simp [Shell.fresh]
    · intro hnamed
      exact absurd hnamed (by simp [Shell.fresh])
    · intro d hd
      exact absurd hd (by simp [Shell.fresh, Shell.cycle])
    · intro hsettled
      exact absurd hsettled (by simp [Shell.fresh])
    · show Knows _ s.lock
      rw [hlock]
      trivial
  · exact absurd hstep (by simp)

/-! ### The cleanup release -/

theorem safe_allowCleanup (h : Safe s) (hstep : step s .allowCleanup = some s') : Safe s' := by
  simp only [step] at hstep
  obtain ⟨⟨hphase, -⟩, hs'⟩ := Option.ite_none_right_eq_some.mp hstep
  obtain rfl := Option.some.inj hs'
  refine h.withLock ?_
  cases hrequested : s.cancelRequested with
  | true => trivial
  | false => exact ⟨hphase, fun _ => hrequested⟩

/-- **The marker is released by the cycle under way, and only if that is not cancelled.** -/
theorem safe_removeMarker {ok : Bool} (h : Safe s) (hstep : step s (.removeMarker ok) = some s') : Safe s' := by
  simp only [step] at hstep
  split at hstep
  · rename_i c hlock hid
    split at hstep
    · obtain rfl := Option.some.inj hstep
      have hholder := h.holder
      rw [hlock] at hholder
      obtain ⟨hphase, hcheck⟩ := hholder
      have hcycle : s.shell.cycle = some c := by rw [Shell.cycle, hphase, hid]
      have hrequested : .requested c ∉ s.log := by
        intro hmem
        have := (h.cancelRequested_iff hcycle).mpr hmem
        rw [hcheck rfl] at this
        exact absurd this (by simp)
      refine ⟨h.isId, h.idle, h.file, h.active, ?_, ?_, ?_, h.settled, ⟨hphase, fun hr => absurd hr (by simp)⟩, ?_,
        ⟨h.active.trans hcycle, hrequested⟩, h.history⟩
      · intro hnamed
        exact absurd (hphase.symm.trans hnamed) (by simp)
      · exact fun d hd => List.mem_cons_of_mem _ (h.receipts d hd)
      · intro d hd hmem
        rcases List.mem_cons.mp hmem with heq | hmem
        · exact absurd heq (by simp)
        · exact h.received d hd hmem
      · intro howed
        exact absurd howed (by simp [CycleControl.owed])
    · obtain rfl := Option.some.inj hstep
      exact h.withLock trivial
  · exact absurd hstep (by simp)

theorem safe_syncRemoval {ok : Bool} (h : Safe s) (hstep : step s (.syncRemoval ok) = some s') : Safe s' := by
  simp only [step] at hstep
  split at hstep
  · obtain rfl := Option.some.inj hstep
    have hfree : Safe { s with lock := .free } := h.withLock trivial
    cases ok with
    | false => exact hfree
    | true => exact hfree.withMarker (fun hpresent => hpresent) fun hdurable => Marker.durable_sync hdurable.1
  · exact absurd hstep (by simp)

theorem safe_cancelCleanup {written synced : Bool} (h : Safe s)
    (hstep : step s (.cancelCleanup written synced) = some s') : Safe s' := by
  simp only [step] at hstep
  obtain ⟨-, hs'⟩ := Option.ite_none_right_eq_some.mp hstep
  obtain rfl := Option.some.inj hs'
  refine h.withMarker ?_ ?_
  · intro hpresent
    cases written <;> cases synced
    all_goals first | exact hpresent | rfl
  · intro hdurable
    cases written <;> cases synced
    · exact hdurable
    · exact Marker.durable_sync hdurable.1
    · exact hdurable.create
    · exact Marker.durable_sync rfl

/-! ### The call -/

theorem safe_acquire {expected : Text} (h : Safe s) (hstep : step s (.acquire expected) = some s') : Safe s' := by
  simp only [step] at hstep
  obtain ⟨-, hs'⟩ := Option.ite_none_right_eq_some.mp hstep
  obtain rfl := Option.some.inj hs'
  refine h.withLock ⟨fun hstage => absurd rfl hstage, fun hstage => ?_, fun hstage => ?_, fun hstage => ?_⟩
  all_goals exact absurd hstage (by simp)

theorem safe_checkActive {procs : List Nat} (h : Safe s) (hstep : step s (.checkActive procs) = some s') :
    Safe s' := by
  simp only [step] at hstep
  split at hstep
  · rename_i expected hlock
    obtain rfl := Option.some.inj hstep
    refine h.proceed fun hok => ⟨fun _ => h.cycle_of_activeCycle (of_decide_eq_true hok), fun hstage => ?_,
      fun hstage => ?_, fun hstage => ?_⟩
    all_goals exact absurd hstage (by simp)
  · exact absurd hstep (by simp)

theorem safe_openMarker {ok : Bool} (h : Safe s) (hstep : step s (.openMarker ok) = some s') : Safe s' := by
  simp only [step] at hstep
  split at hstep
  · rename_i expected hlock
    obtain rfl := Option.some.inj hstep
    have hholder := h.holder
    rw [hlock] at hholder
    have hcycle := hholder.1 (by simp)
    cases ok with
    | false => exact h.withLock trivial
    | true =>
      have hcreated := h.withMarker (m := s.marker.create) (fun _ => rfl) fun hdurable => hdurable.create
      refine hcreated.withLock ⟨fun _ => hcycle, fun _ => rfl, fun hstage => ?_, fun hstage => ?_⟩
      all_goals exact absurd hstage (by simp)
  · exact absurd hstep (by simp)

theorem safe_syncFile {ok : Bool} (h : Safe s) (hstep : step s (.syncFile ok) = some s') : Safe s' := by
  simp only [step] at hstep
  split at hstep
  · rename_i expected hlock
    obtain rfl := Option.some.inj hstep
    have hholder := h.holder
    rw [hlock] at hholder
    refine h.proceed fun _ => ⟨fun _ => hholder.1 (by simp), fun _ => hholder.2.1 (.inl rfl), fun hstage => ?_,
      fun hstage => ?_⟩
    all_goals exact absurd hstage (by simp)
  · exact absurd hstep (by simp)

/-- The directory is synced before the request file is written, so the protection survives a power loss. -/
theorem safe_syncDirectory {ok : Bool} (h : Safe s) (hstep : step s (.syncDirectory ok) = some s') : Safe s' := by
  simp only [step] at hstep
  split at hstep
  · rename_i expected hlock
    obtain rfl := Option.some.inj hstep
    have hholder := h.holder
    rw [hlock] at hholder
    have hcycle := hholder.1 (by simp)
    have hpresent := hholder.2.1 (.inr rfl)
    cases ok with
    | false => exact h.withLock trivial
    | true =>
      have hsynced := h.withMarker (m := s.marker.sync) (fun _ => hpresent) fun _ => Marker.durable_sync hpresent
      refine hsynced.withLock ⟨fun _ => hcycle, fun _ => hpresent, fun _ => Marker.durable_sync hpresent,
        fun hstage => ?_⟩
      exact absurd hstage (by simp)
  · exact absurd hstep (by simp)

theorem safe_publishRequest {ok : Bool} (h : Safe s) (hstep : step s (.publishRequest ok) = some s') : Safe s' := by
  simp only [step] at hstep
  split at hstep
  · rename_i expected hlock
    have hholder := h.holder
    rw [hlock] at hholder
    have hcycle := hholder.1 (by simp)
    have hdurable := hholder.2.2.1 (.inl rfl)
    split at hstep
    · obtain rfl := Option.some.inj hstep
      refine ⟨h.isId, h.idle, h.file, h.active, ?_, ?_, ?_, ?_, ?_, h.owed, h.active.trans hcycle, h.history⟩
      · intro hnamed
        have hnone : s.shell.cycle = none := by rw [Shell.cycle, hnamed]
        exact absurd (hnone.symm.trans hcycle) (by simp)
      · intro d hd
        rcases List.mem_cons.mp hd with rfl | hd
        · exact List.mem_cons_self
        · exact List.mem_cons_of_mem _ (h.receipts d hd)
      · intro d hd hmem
        rcases List.mem_cons.mp hmem with heq | hmem
        · obtain rfl := Event.requested.inj heq
          exact List.mem_cons_self
        · exact List.mem_cons_of_mem _ (h.received d hd hmem)
      · -- the request file is that of the cycle under way
        intro _ _
        show s.shell.id.any (fun c => decide (c ∈ expected :: s.cancels)) = true
        rw [Shell.id_of_cycle hcycle, Option.any_some]
        exact decide_eq_true List.mem_cons_self
      · exact ⟨fun _ => hcycle, fun _ => hdurable.1, fun _ => hdurable, fun _ => List.mem_cons_self⟩
    · obtain rfl := Option.some.inj hstep
      exact h.withLock trivial
  · exact absurd hstep (by simp)

theorem safe_returnOk (h : Safe s) (hstep : step s .returnOk = some s') : Safe s' := by
  simp only [step] at hstep
  split at hstep
  · rename_i expected hlock
    obtain rfl := Option.some.inj hstep
    have hholder := h.holder
    rw [hlock] at hholder
    have hcycle := hholder.1 (by simp)
    have hdurable := hholder.2.2.1 (.inr rfl)
    have hrequested := hholder.2.2.2 rfl
    refine ⟨h.isId, h.idle, h.file, h.active, ?_, ?_, ?_, h.settled, ?_, fun _ => hdurable,
      ⟨h.active.trans hcycle, hrequested⟩, h.history⟩
    · intro hnamed
      have hnone : s.shell.cycle = none := by rw [Shell.cycle, hnamed]
      exact absurd (hnone.symm.trans hcycle) (by simp)
    · exact fun d hd => List.mem_cons_of_mem _ (h.receipts d hd)
    · intro d hd hmem
      rcases List.mem_cons.mp hmem with heq | hmem
      · exact absurd heq (by simp)
      · exact h.received d hd hmem
    · refine ⟨fun _ => hcycle, fun hstage => ?_, fun hstage => ?_, fun hstage => ?_⟩
      all_goals exact absurd hstage (by simp)
  · exact absurd hstep (by simp)

theorem safe_dropGuard (h : Safe s) (hstep : step s .dropGuard = some s') : Safe s' := by
  simp only [step] at hstep
  split at hstep
  · obtain rfl := Option.some.inj hstep
    exact h.withLock trivial
  · exact absurd hstep (by simp)

/-- A power loss cannot take away a marker that is owed. -/
theorem safe_powerLoss {survives : Bool} {pid : Nat} (h : Safe s)
    (hstep : step s (.powerLoss survives pid) = some s') : Safe s' := by
  simp only [step] at hstep
  obtain ⟨houtcome, hs'⟩ := Option.ite_none_right_eq_some.mp hstep
  obtain rfl := Option.some.inj hs'
  refine ⟨?_, ?_, rfl, rfl, ?_, ?_, ?_, ?_, trivial, ?_, trivial, h.history⟩
  · intro c hc
    exact absurd hc (by simp [Shell.fresh])
  · simp [Shell.fresh]
  · intro hnamed
    exact absurd hnamed (by simp [Shell.fresh])
  · intro c hc
    exact absurd hc List.not_mem_nil
  · intro c hc
    exact absurd hc (by simp [Shell.fresh, Shell.cycle])
  · intro hsettled
    exact absurd hsettled (by simp [Shell.fresh])
  · intro howed
    have hdurable := h.owed howed
    rcases houtcome with ⟨rfl, -⟩ | ⟨-, hvanish⟩
    · exact ⟨rfl, rfl⟩
    · exact absurd (hdurable.2.symm.trans hvanish) (by simp)

/-! ## Whole runs -/

/-- **Every step keeps the invariant.** -/
theorem safe_step {a : Action} (h : Safe s) (hstep : step s a = some s') : Safe s' := by
  cases a with
  | beginCycle uuid => exact safe_beginCycle h hstep
  | publishCycle => exact safe_publishCycle h hstep
  | runCycle => exact safe_runCycle h hstep
  | allowCleanup => exact safe_allowCleanup h hstep
  | removeMarker ok => exact safe_removeMarker h hstep
  | syncRemoval ok => exact safe_syncRemoval h hstep
  | cancelCleanup written synced => exact safe_cancelCleanup h hstep
  | endCycle => exact safe_endCycle h hstep
  | exitShell pid => exact safe_exitShell h hstep
  | acquire expected => exact safe_acquire h hstep
  | checkActive procs => exact safe_checkActive h hstep
  | openMarker ok => exact safe_openMarker h hstep
  | syncFile ok => exact safe_syncFile h hstep
  | syncDirectory ok => exact safe_syncDirectory h hstep
  | publishRequest ok => exact safe_publishRequest h hstep
  | returnOk => exact safe_returnOk h hstep
  | dropGuard => exact safe_dropGuard h hstep
  | powerLoss survives pid => exact safe_powerLoss h hstep

theorem Booted.safe_of_reachable {boot : System} (hboot : Booted boot) (h : Reachable step boot s) : Safe s :=
  h.invariant hboot.safe fun _ _ _ ht _ hstep => safe_step ht hstep

/-- A release after a cancel is by another cycle, which is not cancelled. -/
theorem release_of_history {later past : List Event} {d : Text}
    (h : Chronicle Allowed (later ++ .accepted c :: past)) (hd : .released d ∈ later) :
    ∃ newer older, later = newer ++ .released d :: older ∧ d ≠ c ∧ .requested d ∉ older ++ .accepted c :: past := by
  obtain ⟨newer, older, rfl⟩ := List.append_of_mem hd
  rw [List.append_assoc, List.cons_append] at h
  obtain ⟨⟨-, hnot⟩, holder⟩ := chronicle_cons.mp h.of_append
  have haccepted : Allowed (.accepted c) past := (chronicle_cons.mp holder.of_append).1
  refine ⟨newer, older, rfl, ?_, hnot⟩
  rintro rfl
  exact hnot (List.mem_append_right _ (List.mem_cons_of_mem _ haccepted.2))

/-- What the events say once a call for `c` has returned `Ok`. -/
structure Protects (s : System) (later : List Event) (c : Text) (past : List Event) : Prop where
  /-- The cycle was under way. -/
  active : activeIn past = some c
  /-- The marker is there and survives a power loss, or a cycle other than `c` has released it that was not cancelled
  itself. -/
  marker : s.marker.Durable ∨ ∃ newer d older, later = newer ++ .released d :: older ∧ d ≠ c
    ∧ .requested d ∉ older ++ .accepted c :: past

/-- **An accepted cancel protects footage.** In every state that any order of cycle begins and ends, calls, cleanup
releases and power losses leads to: every accepted cancel of `c` was accepted while `c` was under way and protects the
marker; and the end of a cycle reports it as cancelled exactly if a request for that very cycle was written before, so
at the latest if one was accepted. -/
theorem cancel_protects_footage {boot : System} (hboot : Booted boot) (h : Reachable step boot s) :
    (∀ later c past, s.log = later ++ .accepted c :: past → Protects s later c past)
      ∧ (∀ later c captured cancelled past, s.log = later ++ .ended c captured cancelled :: past →
          (cancelled = true ↔ .requested c ∈ past) ∧ (.accepted c ∈ past → cancelled = true))
      ∧ (∀ later c captured past, s.log = later ++ .exited c captured :: past →
          (captured = true ↔ .requested c ∈ past) ∧ (.accepted c ∈ past → captured = true)) := by
  have hsafe := hboot.safe_of_reachable h
  have hhistory := hsafe.history
  -- an accepted cancel was written
  have hwritten : ∀ {later past : List Event} {e : Event} {c : Text}, s.log = later ++ e :: past →
      .accepted c ∈ past → .requested c ∈ past := by
    intro later past e c heq hmem
    rw [heq] at hhistory
    obtain ⟨newer, older, rfl, -, hrequested⟩ := (chronicle_cons.mp hhistory.of_append).2.of_mem hmem
    exact List.mem_append_right _ (List.mem_cons_of_mem _ hrequested)
  refine ⟨?_, ?_, ?_⟩
  · intro later c past heq
    have hallowed := chronicle_iff.mp hhistory later _ past heq
    refine ⟨hallowed.1, ?_⟩
    by_cases hreleased : ∃ d, .released d ∈ later
    · obtain ⟨d, hd⟩ := hreleased
      obtain ⟨newer, older, hlater, hne, hnot⟩ := release_of_history (heq ▸ hhistory) hd
      exact .inr ⟨newer, d, older, hlater, hne, hnot⟩
    · refine .inl (hsafe.owed ?_)
      rw [heq]
      exact owed_of_append (not_exists.mp hreleased)
  · intro later c captured cancelled past heq
    obtain ⟨-, hcaptured, rfl⟩ := chronicle_iff.mp hhistory later _ past heq
    exact ⟨hcaptured, fun haccepted => hcaptured.mpr (hwritten heq haccepted)⟩
  · intro later c captured past heq
    obtain ⟨-, hcaptured⟩ := chronicle_iff.mp hhistory later _ past heq
    exact ⟨hcaptured, fun haccepted => hcaptured.mpr (hwritten heq haccepted)⟩


/-! ### A cancelled cycle and the next ones -/

/-- A device that has just booted without a marker. -/
def bareBoot : System := ⟨.fresh 41, none, [], .free, ⟨false, false, true⟩, []⟩

/-- A UUID of one repeated character. -/
def sameUuid (c : Char) : Text := List.replicate 36 c

/-- A call of `request_cancel` without an error. -/
def acceptedCall (c : Text) : List Action :=
  [.acquire c, .checkActive [41], .openMarker true, .syncFile true, .syncDirectory true, .publishRequest true, .returnOk,
    .dropGuard]

/-- A cycle is cancelled and its cleanup refused; the power fails in the second, and the third releases the marker. -/
def cancelledThenReleased : List Action :=
  ([.beginCycle (sameUuid 'a'), .publishCycle] : List Action) ++ acceptedCall (cycleId 41 (sameUuid 'a'))
    ++ ([.allowCleanup, .cancelCleanup true true, .runCycle, .endCycle, .cancelCleanup true false] : List Action)
    ++ ([.beginCycle (sameUuid 'b'), .publishCycle, .powerLoss true 52] : List Action)
    ++ ([.beginCycle (sameUuid 'c'), .publishCycle, .allowCleanup, .removeMarker true, .syncRemoval true, .runCycle,
      .endCycle] : List Action)

theorem cancel_protects_footage_cancelledThenReleased :
    ∃ s, (run step bareBoot cancelledThenReleased = some s ∧ s.log.length = 9 ∧ s.marker = ⟨false, false, true⟩)
      ∧ (∀ later c past, s.log = later ++ .accepted c :: past → Protects s later c past)
      ∧ (∀ later c captured cancelled past, s.log = later ++ .ended c captured cancelled :: past →
          (cancelled = true ↔ .requested c ∈ past) ∧ (.accepted c ∈ past → cancelled = true))
      ∧ (∀ later c captured past, s.log = later ++ .exited c captured :: past →
          (captured = true ↔ .requested c ∈ past) ∧ (.accepted c ∈ past → captured = true)) := by
  have hrun : (run step bareBoot cancelledThenReleased).map (fun s => (s.log.length, s.marker))
      = some (9, ⟨false, false, true⟩) := by decide +kernel
  obtain ⟨s, hs, hend⟩ := Option.map_eq_some_iff.mp hrun
  refine ⟨s, ⟨hs, congrArg Prod.fst hend, congrArg Prod.snd hend⟩, ?_⟩
  exact cancel_protects_footage ⟨rfl, rfl, rfl, rfl, rfl⟩ (reachable_of_run hs)

end SentryUsb.Archive.CycleControl
