import SentryUsb.Api.UpdateReceipts

/-! # The version of an unverified update

While the version file carries what an unverified attempt wrote, the receipt at hand has to say so: by it the version is
taken for not installed, and its migration is not run again. Replacing the receipt is what may lose this.

* **`Told`** — the receipt says what an unverified attempt wrote to the version file;
* **`Sound`** — the machine is in order, and the receipt says it;
* **`updates_allowed`** — in every run whose steps are careful, all history is allowed. -/

namespace SentryUsb.Api.AutoUpdate

open Library

/-! ## What the receipt says -/

/-- A version file that an attempt wrote reads as it was written. -/
def Readable (writer version : Option Text) : Prop := ∀ w ∈ writer, ∃ t, version = some t ∧ trim t = t ∧ t ≠ []

/-- The receipt says what an unverified attempt wrote to the version file. -/
structure Told (k : Records) : Prop where
  guarded : Chronicle Guarded k.log
  readable : Readable k.writer k.version
  told : ∀ w ∈ k.writer, verifiedIn k.log w = false →
    ∃ r, k.receipt = some r ∧ (r.terminal = true → k.version = some r.target)

section Told

variable {k k' : Records} {a r : Attempt} {e : Event} {w exe version : Text} {migrated : List Text}

theorem mem_of_lastSaved {log : List Event} (h : lastSaved log = some r) : .saved r ∈ log := by
  induction log with
  | nil => exact nomatch h
  | cons e past ih =>
    cases e with
    | saved a =>
      obtain rfl := Option.some.inj h
      exact List.mem_cons_self
    | _ => exact List.mem_cons_of_mem _ (ih h)

theorem Stored.verifiedIn (h : Stored k) (hr : k.receipt = some r) (hphase : r.phase = .verified) :
    verifiedIn k.log r.id = true := by
  refine List.any_eq_true.mpr ⟨.saved r, mem_of_lastSaved (h.last.trans hr), ?_⟩
  exact decide_eq_true ⟨rfl, hphase⟩

/-- An entry that is no receipt. -/
theorem Told.frame (h : Told k) (hreceipt : k'.receipt = k.receipt) (hversion : k'.version = k.version)
    (hwriter : k'.writer = k.writer) (hlog : k'.log = e :: k.log) (hguarded : Guarded e k.log)
    (hverified : ∀ w, AutoUpdate.verifiedIn (e :: k.log) w = AutoUpdate.verifiedIn k.log w) : Told k' := by
  refine ⟨?_, ?_, ?_⟩
  · rw [hlog]
    exact ⟨hguarded, h.guarded⟩
  · rw [hwriter, hversion]
    exact h.readable
  · rw [hwriter, hversion, hreceipt, hlog]
    intro w hw hunverified
    rw [hverified] at hunverified
    exact h.told w hw hunverified

/-- The receipt is written; of an attempt that has ended it says what it has to. -/
theorem Told.save (h : Told k) (io : Write) (hends : io ≠ .failed → a.terminal = true → k.Keeps a) :
    Told (io.save k a) := by
  have hsaved (hkeeps : a.terminal = true → k.Keeps a) : Told (Write.done.save k a) := by
    refine ⟨⟨trivial, h.guarded⟩, h.readable, fun w hw hunverified => ⟨a, rfl, fun hterminal => ?_⟩⟩
    exact hkeeps hterminal w hw (Bool.or_eq_false_iff.mp hunverified).2
  cases io with
  | failed => exact h
  | unsynced => exact hsaved (hends (by decide))
  | done => exact hsaved (hends (by decide))

/-- The version file changes while a receipt says that files are being replaced. -/
theorem Told.replace (h : Told k) (ha : k.receipt = some a) (hopen : a.terminal = false)
    {version writer : Option Text} (hreadable : Readable writer version) (hguarded : Guarded e k.log) :
    Told { k with version, writer, log := e :: k.log } := by
  refine ⟨⟨hguarded, h.guarded⟩, hreadable, fun w _ _ => ⟨a, ha, fun hterminal => ?_⟩⟩
  exact absurd (hopen.symm.trans hterminal) Bool.false_ne_true

/-- What is known of a version file that an unverified attempt wrote. -/
theorem Told.unverified (h : Told k) (hstored : Stored k) (hw : k.writer = some w)
    (hunverified : verifiedIn k.log w = false) :
    ∃ r t, k.receipt = some r ∧ k.version = some t ∧ trim t = t ∧ t ≠ [] ∧ r.phase ≠ .verified ∧
      (r.terminal = true → r.target = t) := by
  obtain ⟨t, hversion, htrim, hne⟩ := h.readable w hw
  obtain ⟨r, hr, htold⟩ := h.told w hw hunverified
  refine ⟨r, t, hr, hversion, htrim, hne, fun hphase => ?_, fun hterminal => ?_⟩
  · have hwritten := (hstored.receipt r hr).written (by rw [hphase]; decide)
    obtain rfl := Option.some.inj (hw.symm.trans hwritten.1)
    exact Bool.false_ne_true (hunverified.symm.trans (hstored.verifiedIn hr hphase))
  · exact (Option.some.inj (hversion.symm.trans (htold hterminal))).symm

/-! ## Readers of the version file -/

/-- `comparison_version` does not return the version of an unverified attempt. -/
theorem Told.compared (h : Told k) (hstored : Stored k) (hterminal : ∀ r ∈ k.receipt, r.terminal = true)
    (otherVersion : Text) :
    Guarded (.compared (readCurrentVersion k otherVersion) k.writer
      (comparisonVersion (readCurrentVersion k otherVersion) k.receipt)) k.log := by
  cases hw : k.writer with
  | none => trivial
  | some w =>
    intro hunverified
    obtain ⟨r, t, hr, hversion, htrim, hne, hphase, htarget⟩ := h.unverified hstored hw hunverified
    have hread : readCurrentVersion k otherVersion = t := by
      unfold readCurrentVersion
      rw [hversion]
      exact htrim
    have hsame := htarget (hterminal r hr)
    rw [hread, hr]
    show (if r.phase ≠ .verified ∧ r.target = t then r.source else t) ≠ t
    rw [if_pos ⟨hphase, hsame⟩]
    rcases (hstored.receipt r hr).differs with hempty | hdiffers
    · exact absurd (hsame.symm.trans hempty) hne
    · rw [← hsame]
      exact hdiffers

theorem Told.migrate (h : Told k) {automatic : Option Text}
    (hguarded : Guarded (.migrates version k.writer automatic) k.log) : Told (migrate version automatic k).1 :=
  h.frame rfl rfl rfl rfl hguarded fun _ => rfl

/-- A version without an attempt to verify is migrated only if its attempt was verified. -/
theorem Told.migrateOnce (h : Told k)
    (hverified : ∀ w ∈ k.writer, verifiedIn k.log w = true) : Told (migrateOnce version migrated k).1 := by
  unfold AutoUpdate.migrateOnce
  split
  · exact h
  · refine h.migrate ?_
    cases hw : k.writer with
    | none => trivial
    | some w =>
      intro hunverified
      exact absurd (hunverified.symm.trans (hverified w hw)) Bool.false_ne_true

/-- The migration that verifies an attempt is the first one for it. -/
theorem Told.migrateVerifying (h : Told k) (hstored : Stored k) (io : Write) :
    Told (migrateVerifying exe version io k).1 := by
  unfold AutoUpdate.migrateVerifying
  split
  · exact h
  · rename_i v hv
    obtain ⟨r, hr, -, hphase, -, -, rfl⟩ := beginVerification_eq_some hv
    have hsaved : Told (io.save k { r with phase := .verifying, verifyingBootId := k.boot }) :=
      h.save io fun _ hterminal => nomatch hterminal
    split
    · rename_i hdone
      subst hdone
      refine hsaved.migrate ?_
      have hwriter := ((hstored.receipt r hr).written (by rw [hphase]; decide)).1
      show Guarded (.migrates version k.writer (some r.id)) _
      rw [hwriter]
      exact fun _ => ⟨rfl, List.forall_mem_cons.mpr ⟨rfl, ((hstored.receipt r hr).awaits hphase).replayed⟩⟩
    · exact hsaved

/-- `run_startup_migration` does not run the migration of an unverified attempt again. -/
theorem Told.runStartupMigration (h : Told k) (hstored : Stored k) (io : Write) :
    Told (runStartupMigration exe migrated io k).1 := by
  unfold AutoUpdate.runStartupMigration
  split
  · exact h
  · rename_i version hversion
    split
    · exact h
    · split
      · rename_i hr
        refine h.migrateOnce fun w hw => Bool.eq_true_of_not_eq_false fun hunverified => ?_
        obtain ⟨r, t, hr', -⟩ := h.unverified hstored hw hunverified
        exact nomatch hr.symm.trans hr'
      · rename_i a hr
        split
        · split
          · exact h
          · exact h.migrateVerifying hstored io
        · rename_i hended
          split
          · exact h
          · rename_i hother
            refine h.migrateOnce fun w hw => Bool.eq_true_of_not_eq_false fun hunverified => hother ?_
            obtain ⟨r, t, hr', hversion', htrim, -, hphase, htarget⟩ := h.unverified hstored hw hunverified
            obtain rfl := Option.some.inj (hr.symm.trans hr')
            rw [hversion', Option.map_some, htrim] at hversion
            obtain rfl := Option.some.inj hversion
            exact ⟨hphase, htarget (Bool.eq_true_of_not_eq_false hended)⟩

/-- `recover_after_startup`, where it does not lose what the receipt says. -/
theorem Told.recoverAfterStartup {exeReads migrationOk : Bool} (h : Told k) (io : Write)
    (hkeeps : io ≠ .failed → ∀ r ∈ k.receipt, r.terminal = false → k.Keeps r) :
    Told (recoverAfterStartup exe exeReads migrationOk io k) := by
  unfold AutoUpdate.recoverAfterStartup
  split
  · exact h
  · rename_i r hr
    split
    · exact h
    · rename_i hopen
      exact h.save io fun hio _ => hkeeps hio r hr (Bool.eq_false_of_not_eq_true hopen)

end Told

/-! ## Steps -/

/-- What was put aside. -/
def Point.backups : Point → List Replaced
  | .replacing _ done _ | .rollingBack done => done
  | _ => []

/-- The coordinator writes a version file that reads as written, and puts back what it found. -/
structure Prepared (c : Coordinator) : Prop where
  target : c.point ≠ .checking → c.point ≠ .failing → trim c.attempt.target = c.attempt.target ∧ c.attempt.target ≠ []
  backups : ∀ r ∈ c.point.backups, Readable r.writer r.version

/-- The machine is in order, and the receipt says what it has to. -/
structure Sound (d : Device) : Prop where
  kept : Kept d
  told : Told d.records
  prepared : ∀ c ∈ d.coordinator, Prepared c

section Steps

variable {d d' : Device} {s : Service} {c : Coordinator} {act : Act} {staged : Staged} {done : List Replaced}
  {file : Dest} {rest : List Dest} {point : Point}

theorem coordinator_eq (hs : d.service = some s) (hstage : s.stage = .ready (some c)) : d.coordinator = some c := by
  unfold Device.coordinator
  rw [hs]
  dsimp only [Option.bind_some]
  rw [hstage]

theorem coordinator_eq_none (hs : d.service = some s) (hstage : ∀ c, s.stage ≠ .ready c) : d.coordinator = none := by
  unfold Device.coordinator
  rw [hs]
  dsimp only [Option.bind_some]
  split
  · rename_i c hready
    exact absurd hready (hstage c)
  · rfl

theorem Prepared.goTo (h : Prepared c) (hchecking : c.point ≠ .checking) (hfailing : c.point ≠ .failing)
    (hbackups : ∀ r ∈ point.backups, Readable r.writer r.version) : Prepared (c.goTo point) :=
  ⟨fun _ _ => h.target hchecking hfailing, hbackups⟩

theorem prepared_failing (c : Coordinator) : Prepared (c.goTo .failing) :=
  ⟨fun _ hne => absurd rfl hne, fun _ hr => nomatch hr⟩

theorem runStartupMigration_stage {exe : Text} {migrated : List Text} {io : Write} {k : Records}
    (next : Option Coordinator) : (runStartupMigration exe migrated io k).2 ≠ .ready next := by
  unfold runStartupMigration migrateOnce migrateVerifying migrate
  repeat' split
  all_goals exact nofun

/-- **Steps of the machine.** -/
theorem Sound.machineStep (h : Sound d) (hd : machineStep d act = some d') :
    Told d'.records ∧ ∀ c ∈ d'.coordinator, Prepared c := by
  cases act with
  | boot id =>
    obtain ⟨hnew, hd⟩ := Option.ite_none_right_eq_some.mp hd
    obtain rfl := Option.some.inj hd
    exact ⟨h.told.frame rfl rfl rfl rfl trivial fun _ => rfl, fun c hc => nomatch hc⟩
  | reboot queued =>
    obtain rfl := Option.some.inj hd
    exact ⟨h.told, h.prepared⟩
  | confirmShutdown =>
    obtain ⟨r, hr, rfl⟩ := Option.map_eq_some_iff.mp hd
    exact ⟨h.told.frame (e := .confirmed r.id d.records.boot) rfl rfl rfl rfl trivial fun _ => rfl, h.prepared⟩
  | startService =>
    obtain ⟨-, hd⟩ := Option.ite_none_right_eq_some.mp hd
    obtain rfl := Option.some.inj hd
    exact ⟨h.told.frame rfl rfl rfl rfl trivial fun _ => rfl, fun c hc => nomatch hc⟩
  | stopService =>
    obtain rfl := Option.some.inj hd
    exact ⟨h.told, fun c hc => nomatch hc⟩
  | _ => exact nomatch hd

/-- **Steps of a startup, and the beginning of a cycle.** -/
theorem Sound.serviceStep (h : Sound d) (hcareful : Careful d act)
    (hd : serviceStep d s act = some d') : Told d'.records ∧ ∀ c ∈ d'.coordinator, Prepared c := by
  unfold AutoUpdate.serviceStep at hd
  split at hd
  · rename_i io hstage
    obtain rfl := Option.some.inj hd
    refine ⟨h.told.runStartupMigration h.kept.stored io, fun c hc => ?_⟩
    have hstarting : ∀ next, (runStartupMigration s.exe d.migrated io d.records).2 ≠ .ready next :=
      runStartupMigration_stage
    exact absurd ((coordinator_eq_none rfl hstarting).symm.trans hc) (by simp)
  · rename_i version automatic marker hstage
    obtain rfl := Option.some.inj hd
    refine ⟨?_, fun c hc => absurd hc (Option.not_mem_none c)⟩
    cases marker with
    | failed => exact h.told
    | unsynced => exact h.told
    | done =>
      cases automatic with
      | none => exact h.told
      | some id => exact h.told.frame rfl rfl rfl rfl trivial fun _ => rfl
  · rename_i migrationOk exeReads io hstage
    obtain rfl := Option.some.inj hd
    exact ⟨h.told.recoverAfterStartup io hcareful, fun c hc => absurd hc (Option.not_mem_none c)⟩
  · rename_i id cycle otherVersion hstage
    obtain ⟨⟨-, -, hterminal⟩, hd⟩ := Option.ite_none_right_eq_some.mp hd
    obtain rfl := Option.some.inj hd
    have hended : ∀ r ∈ d.records.receipt, r.terminal = true := fun r hr => by
      rw [hr] at hterminal
      exact hterminal
    refine ⟨h.told.frame rfl rfl rfl rfl (h.told.compared h.kept.stored hended otherVersion) fun _ => rfl, fun c hc => ?_⟩
    obtain rfl := Option.some.inj hc
    exact ⟨fun hne => absurd rfl hne, fun r hr => absurd hr List.not_mem_nil⟩
  · exact absurd hd (by simp)

/-- `replace_files`, one file. -/
theorem Sound.replaceFile (h : Sound d) (hworks : Works d.records c) (hprepared : Prepared c)
    (hpoint : c.point = .replacing staged done (file :: rest)) (io : Write)
    (hd : coordinatorStep d s c (.replaceFile io) = some d') : Told d'.records ∧ ∀ c ∈ d'.coordinator, Prepared c := by
  obtain ⟨ha, hphase⟩ := hworks.installing (Or.inl ⟨_, _, hpoint⟩)
  have hopen : c.attempt.terminal = false := by rw [Attempt.terminal, hphase]
  have htarget := hprepared.target (by simp [hpoint]) (by simp [hpoint])
  have hdone : ∀ r ∈ done, Readable r.writer r.version := by
    have hbackups := hprepared.backups
    rw [hpoint] at hbackups
    exact hbackups
  have hmoved : Told (d.replace c.attempt staged file).records := by
    obtain ⟨version, writer, hrecords, hwritten, hkept⟩ := replace_records d c.attempt staged file
    rw [hrecords]
    refine h.told.replace (e := .replaced c.attempt.id file) ha hopen ?_ trivial
    by_cases hfile : file = .version
    · obtain ⟨rfl, rfl⟩ := hwritten hfile
      exact fun w _ => ⟨c.attempt.target, rfl, htarget⟩
    · obtain ⟨rfl, rfl⟩ := hkept hfile
      exact h.told.readable
  have hbackups : ∀ r ∈ d.backup file :: done, Readable r.writer r.version :=
    List.forall_mem_cons.mpr ⟨h.told.readable, hdone⟩
  have hgo {point : Point} (hpoint' : ∀ r ∈ point.backups, Readable r.writer r.version) : Prepared (c.goTo point) :=
    hprepared.goTo (by simp [hpoint]) (by simp [hpoint]) hpoint'
  unfold AutoUpdate.coordinatorStep at hd
  rw [hpoint] at hd
  dsimp only at hd
  cases io with
  | failed =>
    obtain rfl := Option.some.inj hd
    exact ⟨h.told, fun c' hc' => Option.some.inj hc' ▸ hgo hdone⟩
  | unsynced =>
    obtain rfl := Option.some.inj hd
    exact ⟨hmoved, fun c' hc' => Option.some.inj hc' ▸ hgo hbackups⟩
  | done =>
    obtain rfl := Option.some.inj hd
    exact ⟨hmoved, fun c' hc' => Option.some.inj hc' ▸ hgo hbackups⟩

/-- **Steps of the coordinator.** -/
theorem Sound.coordinatorStep (h : Sound d) (hcareful : Careful d act) (hs : d.service = some s)
    (hstage : s.stage = .ready (some c)) (hd : coordinatorStep d s c act = some d') :
    Told d'.records ∧ ∀ c ∈ d'.coordinator, Prepared c := by
  have hworks := h.kept.works hs hstage
  have hcoordinator := coordinator_eq hs hstage
  have hprepared := h.prepared c hcoordinator
  have hat := hworks.point
  have hfail : ∀ c' ∈ (d.proceed s d.records (some (c.goTo .failing))).coordinator, Prepared c' :=
    fun c' hc' => Option.some.inj hc' ▸ prepared_failing c
  have hgo {point : Point} (hchecking : c.point ≠ .checking) (hfailing : c.point ≠ .failing)
      (hnone : point.backups = []) : ∀ c' ∈ some (c.goTo point), Prepared c' := by
    intro c' hc'
    obtain rfl := Option.some.inj hc'
    refine hprepared.goTo hchecking hfailing ?_
    rw [hnone]
    exact fun r hr => absurd hr List.not_mem_nil
  have hd' := hd
  unfold AutoUpdate.coordinatorStep at hd
  split at hd <;> rename_i hpoint
  · rename_i answer
    split at hd
    · obtain rfl := Option.some.inj hd
      exact ⟨h.told, hfail⟩
    · obtain rfl := Option.some.inj hd
      exact ⟨h.told, fun c hc => absurd hc (Option.not_mem_none c)⟩
    · rename_i target hlatest
      obtain rfl := Option.some.inj hd
      obtain ⟨-, hne, release, rfl, rfl⟩ := latestStable_eq_some hlatest
      refine ⟨h.told, fun c' hc' => ?_⟩
      obtain rfl := Option.some.inj hc'
      exact ⟨fun _ _ => ⟨hcareful, hne⟩, fun r hr => absurd hr List.not_mem_nil⟩
  · rename_i io
    rw [hpoint] at hat
    obtain rfl := Option.some.inj hd
    refine ⟨h.told.save io fun _ hterminal => ?_, hgo (by simp [hpoint]) (by simp [hpoint]) ?_⟩
    · rw [Attempt.terminal, hat.1] at hterminal
      exact absurd hterminal (by simp)
    · split <;> rfl
  · obtain rfl := Option.some.inj hd
    exact ⟨h.told.frame rfl rfl rfl rfl trivial fun _ => rfl,
      hgo (by simp [hpoint]) (by simp [hpoint]) rfl⟩
  · rename_i staged io
    obtain rfl := Option.some.inj hd
    refine ⟨h.told.save io (fun _ hterminal => absurd hterminal (by simp [Attempt.terminal])), fun c' hc' => ?_⟩
    obtain rfl := Option.some.inj hc'
    refine ⟨fun _ _ => hprepared.target (by simp [hpoint]) (by simp [hpoint]), ?_⟩
    dsimp only
    split <;> exact fun r hr => absurd hr List.not_mem_nil
  · exact h.replaceFile hworks hprepared hpoint _ hd'
  · rename_i r done ok
    obtain rfl := Option.some.inj hd
    obtain ⟨ha, hphase⟩ := hworks.installing (Or.inr hpoint)
    have hopen : c.attempt.terminal = false := by rw [Attempt.terminal, hphase]
    have hbackups := hprepared.backups
    rw [hpoint] at hbackups
    obtain ⟨hr, hdone⟩ := List.forall_mem_cons.mp hbackups
    have hrestored : Told (if ok = true then d.restore c.attempt r else d).records := by
      split
      · obtain ⟨version, writer, hrecords, hwas⟩ := restore_records d c.attempt r
        rw [hrecords]
        refine h.told.replace (e := .restored c.attempt.id r.dest) ha hopen ?_ trivial
        rcases hwas with ⟨rfl, rfl⟩ | ⟨rfl, rfl⟩
        · exact h.told.readable
        · exact hr
      · exact h.told
    refine ⟨hrestored, fun c' hc' => ?_⟩
    obtain rfl := Option.some.inj hc'
    exact hprepared.goTo (by simp [hpoint]) (by simp [hpoint]) hdone
  · obtain rfl := Option.some.inj hd
    exact ⟨h.told, hgo (by simp [hpoint]) (by simp [hpoint]) rfl⟩
  · rename_i io
    obtain rfl := Option.some.inj hd
    refine ⟨h.told.save io (fun _ hterminal => absurd hterminal (by simp [Attempt.terminal, Attempt.inPhase])), fun c' hc' => ?_⟩
    obtain rfl := Option.some.inj hc'
    refine ⟨fun _ _ => hprepared.target (by simp [hpoint]) (by simp [hpoint]), ?_⟩
    dsimp only
    split <;> exact fun r hr => absurd hr List.not_mem_nil
  · obtain rfl := Option.some.inj hd
    exact ⟨h.told, hgo (by simp [hpoint]) (by simp [hpoint]) rfl⟩
  · obtain rfl := Option.some.inj hd
    exact ⟨h.told, hfail⟩
  · obtain rfl := Option.some.inj hd
    exact ⟨h.told, hfail⟩
  · obtain rfl := Option.some.inj hd
    exact ⟨h.told, hfail⟩
  · obtain rfl := Option.some.inj hd
    exact ⟨h.told, hfail⟩
  · obtain rfl := Option.some.inj hd
    exact ⟨h.told, hfail⟩
  · obtain rfl := Option.some.inj hd
    exact ⟨h.told, hfail⟩
  · obtain rfl := Option.some.inj hd
    exact ⟨h.told.save _ fun hio _ => hcareful hio c hcoordinator, fun c hc => absurd hc (Option.not_mem_none c)⟩
  · exact absurd hd (by simp)

/-- **Step lemma.** -/
theorem Sound.step (h : Sound d) (hcareful : Careful d act) (hd : step d act = some d') : Sound d' := by
  have hrest : Told d'.records ∧ ∀ c ∈ d'.coordinator, Prepared c := by
    rcases step_cases hd with hd | ⟨s, hs, ⟨c, hstage, hd⟩ | hd⟩
    · exact h.machineStep hd
    · exact h.coordinatorStep hcareful hs hstage hd
    · exact h.serviceStep hcareful hd
  exact ⟨h.kept.step hd, hrest.1, hrest.2⟩

theorem sound_start (boot : Text) (version : Option Text) (binary : Text) (migrated : List Text) :
    Sound (start boot version binary migrated) :=
  ⟨kept_start boot version binary migrated,
    ⟨⟨trivial, trivial⟩, (fun _ hw => nomatch hw), fun _ hw => nomatch hw⟩, fun _ hc => nomatch hc⟩

end Steps

/-! ## Runs -/

section Runs

variable {boot binary : Text} {version : Option Text} {migrated : List Text} {d : Device}

/-- **Only a completed update is treated as installed.** Where no attempt ends on top of an unverified one that another
wrote to the version file, all history is allowed. -/
theorem updates_allowed (h : Reaches step Careful (start boot version binary migrated) d) :
    Chronicle Allowed d.records.log := by
  have hsound := h.invariant (sound_start boot version binary migrated)
    fun _ _ _ ht hcareful hstep => ht.step hcareful hstep
  exact chronicle_and.mpr ⟨hsound.kept.stored.ordered, hsound.told.guarded⟩

/-- `v1.0.0`. -/
def oldVersion : Text := ['v', '1', '.', '0', '.', '0']

/-- `v2.0.0`. -/
def newVersion : Text := ['v', '2', '.', '0', '.', '0']

/-- The steps of an attempt up to its last file. -/
def installing (id cycle tag : Text) : List Act :=
  [.coordinate id cycle [], .latestStable (some ⟨tag, false, false⟩), .savePreparing .done, .stage tag [],
    .commit .done, .replaceFile .done, .replaceFile .done, .replaceFile .done, .replaceFile .done, .replaceFile .done,
    .replaceFile .done, .replaceFile .done]

/-- A startup up to the end of its migration. -/
def starting : List Act := [.startService, .runStartupMigration .done]

/-- An update that loses power before its reboot, and the beginning of the next one. -/
def retried : List Act :=
  starting ++ ([.recoverAfterStartup true .done] : List Act) ++ installing ['a'] ['1'] newVersion
    ++ ([.boot ['2']] : List Act) ++ starting
    ++ ([.recoverAfterStartup true .done, .coordinate ['b'] ['2'] []] : List Act)

theorem updates_allowed_retried : ∃ d,
    Reaches step Careful (start ['1'] (some oldVersion) oldVersion [oldVersion]) d ∧
      Chronicle Allowed d.records.log ∧ d.records.version = some newVersion ∧
      .compared newVersion (some ['a']) oldVersion ∈ d.records.log := by
  have hrun : ((run (guarded step Careful) (start ['1'] (some oldVersion) oldVersion [oldVersion]) retried).map
      fun d => (d.records.version, decide (.compared newVersion (some ['a']) oldVersion ∈ d.records.log))) =
        some (some newVersion, true) := by
    decide +kernel
  obtain ⟨d, hd, hrecords⟩ := Option.map_eq_some_iff.mp hrun
  obtain ⟨hversion, hcompared⟩ := Prod.mk.inj hrecords
  have hreaches := reaches_of_run_guarded hd
  exact ⟨d, hreaches, updates_allowed hreaches, hversion, of_decide_eq_true hcompared⟩

/-- The update is installed, but its migration fails; a check for updates fails in the next cycle. -/
def forgotten : List Act :=
  starting ++ ([.recoverAfterStartup true .done] : List Act) ++ installing ['a'] ['1'] newVersion
    ++ ([.armShutdownReceipt, .saveAwaiting .done, .restart, .stopService, .confirmShutdown, .boot ['2']] : List Act)
    ++ starting ++ ([.migrationEnds .failed, .recoverAfterStartup true .done, .coordinate ['b'] ['2'] [],
      .latestStable none, .saveFailed .done, .coordinate ['c'] ['3'] [], .stopService] : List Act)
    ++ starting

/-- **A failed check forgets an update that was never verified.** Its version is then compared with as if it were
installed, and the next startup runs its migration again. -/
theorem not_updates_allowed : ∃ d,
    Reachable step (start ['1'] (some oldVersion) oldVersion [oldVersion]) d ∧
      .compared newVersion (some ['a']) newVersion ∈ d.records.log ∧
      (∃ past, d.records.log = .migrates newVersion (some ['a']) none :: past ∧
        .migrates newVersion (some ['a']) (some ['a']) ∈ past) ∧
      verifiedIn d.records.log ['a'] = false ∧ ¬ Chronicle Allowed d.records.log := by
  have hrun : ((run step
      (start ['1'] (some oldVersion) oldVersion [oldVersion]) forgotten).map fun d =>
        (decide (.compared newVersion (some ['a']) newVersion ∈ d.records.log), d.records.log.head?,
          decide (.migrates newVersion (some ['a']) (some ['a']) ∈ d.records.log.tail),
          verifiedIn d.records.log ['a'])) =
      some (true, some (.migrates newVersion (some ['a']) none), true, false) := by
    decide +kernel
  obtain ⟨d, hd, hlog⟩ := Option.map_eq_some_iff.mp hrun
  simp only [Prod.mk.injEq, decide_eq_true_eq] at hlog
  obtain ⟨hcompared, hhead, hmigrated, hunverified⟩ := hlog
  have hcons := List.eq_cons_of_mem_head? hhead
  refine ⟨d, reachable_of_run hd, hcompared, ⟨d.records.log.tail, hcons, hmigrated⟩, hunverified, fun hallowed => ?_⟩
  rw [hcons] at hallowed hunverified
  obtain ⟨hautomatic, -⟩ := hallowed.1.2 hunverified
  exact nomatch hautomatic

end Runs

end SentryUsb.Api.AutoUpdate
