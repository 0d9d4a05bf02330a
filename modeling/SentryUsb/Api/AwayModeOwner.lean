import SentryUsb.Api.AwayMode

/-! # The hotspot has one owner

What a step of the hotspot keeps, in three parts that read different fields of the state.

* **`Watched`** — the timer and the automatic mode each have their watcher;
* **`Recorded`** — the mode on file is the mode in memory, unless a handler is between the two;
* **`RadioOwned`** — of the generation at hand a request waits, or runs, or the radio is as the phase says;
* **`one_owner`** — in every run whose steps are careful, the hotspot has one owner between handlers. -/

namespace SentryUsb.Api.AwayMode

open Library

/-! ## The watcher -/

/-- A watcher goes on looping for the epoch at hand, or a handler is about to spawn it. -/
def Hotspot.Guarded (s : Hotspot) (geofence : Bool) : Prop :=
  (∃ w ∈ s.watchers, w.Live geofence s.inner.epoch) ∨ ∃ stop, .launching geofence stop s.inner.epoch ∈ s.handlers

/-- The timer and the automatic mode each have their watcher. -/
structure Watched (s : Hotspot) : Prop where
  active : s.inner.state = .active → s.inner.mode = .manual ∧ s.Guarded false
  auto : s.inner.mode = .auto → s.Guarded true

section Guards

variable {s t : Hotspot} {h : Handler} {w : Watcher} {geofence : Bool}

theorem Hotspot.Guarded.serve {after : List Handler} (hs : s.Guarded geofence)
    (hne : ∀ stop, h ≠ .launching geofence stop s.inner.epoch) : (s.serve h after).Guarded geofence := by
  rcases hs with hw | ⟨stop, hl⟩
  · exact Or.inl hw
  · exact Or.inr ⟨stop, mem_advance_of_ne hl fun heq => hne stop heq.symm⟩

/-- What a watcher turns into takes its place. -/
theorem Hotspot.Guarded.move {after : List Watcher} (hs : s.Guarded geofence)
    (hafter : w.Live geofence s.inner.epoch → ∃ v ∈ after, v.Live geofence s.inner.epoch) :
    (s.move w after).Guarded geofence := by
  rcases hs with ⟨v, hv, hlive⟩ | hl
  · refine Or.inl ?_
    by_cases hvw : v = w
    · obtain ⟨u, hu, hulive⟩ := hafter (hvw ▸ hlive)
      exact ⟨u, mem_advance_of_mem hu, hulive⟩
    · exact ⟨v, mem_advance_of_ne hv hvw, hlive⟩
  · exact Or.inr hl

theorem Hotspot.Guarded.goTo {stage : Stage} (hs : s.Guarded geofence) (hstage : stage ≠ .asleep true) :
    (s.move w [w.goTo stage]).Guarded geofence :=
  hs.move fun hw => ⟨w.goTo stage, List.mem_singleton_self _, hw.1, hw.2.1, hstage⟩

/-- A step within an epoch and a mode. -/
theorem Watched.keep (hs : Watched s) (hmode : t.inner.mode = s.inner.mode)
    (hstate : t.inner.state = .active → s.inner.state = .active)
    (htimer : t.inner.state = .active → s.Guarded false → t.Guarded false)
    (hgeofence : s.Guarded true → t.Guarded true) : Watched t := by
  refine ⟨fun hactive => ?_, fun hauto => hgeofence (hs.auto (hmode ▸ hauto))⟩
  obtain ⟨hmanual, hguarded⟩ := hs.active (hstate hactive)
  exact ⟨hmode.trans hmanual, htimer hactive hguarded⟩

theorem Watched.serve {after : List Handler} (hs : Watched s)
    (hne : ∀ geofence stop epoch, h ≠ .launching geofence stop epoch) : Watched (s.serve h after) :=
  hs.keep rfl id (fun _ hg => hg.serve fun stop => hne _ stop _) (fun hg => hg.serve fun stop => hne _ stop _)

theorem Watched.goTo {stage : Stage} (hs : Watched s) (hstage : stage ≠ .asleep true) :
    Watched (s.move w [w.goTo stage]) :=
  hs.keep rfl id (fun _ hg => hg.goTo hstage) (fun hg => hg.goTo hstage)

/-- With nothing to watch there is nothing to show. -/
theorem watched_of_idle (hstate : t.inner.state = .idle) (hmode : t.inner.mode = .manual) : Watched t := by
  refine ⟨fun hactive => ?_, fun hauto => ?_⟩
  · rw [hstate] at hactive
    exact absurd hactive (by decide)
  · rw [hmode] at hauto
    exact absurd hauto (by decide)

end Guards

/-! ## The mode on file -/

/-- Unless a mode is on its way from the configuration file to memory, they agree. -/
def Recorded (s : Hotspot) : Prop :=
  s.handlers.any Handler.isPersisted = false → s.configAuto = decide (s.inner.mode = .auto)

theorem Recorded.serve {s : Hotspot} {h : Handler} {after : List Handler} (hs : Recorded s)
    (hh : h.isPersisted = false) : Recorded (s.serve h after) := by
  intro hnone
  rw [Hotspot.serve, any_advance _ hh, Bool.or_eq_false_iff] at hnone
  exact hs hnone.2

/-! ## The radio -/

section Radio

variable (waiting : List Request) (generation : Nat) (phase : ApPhase) (radio : Bool)

/-- No request of the generation waits. -/
def NoneWaiting : Prop := ∀ r ∈ waiting, r.generation ≠ generation

/-- One request of the generation waits, and the phase is that of it. -/
structure OneWaiting : Prop where
  one : waiting.countP (fun r => r.generation == generation) = 1
  phase_eq : ∀ r ∈ waiting, r.generation = generation → phase = r.phase

/-- The radio is as the phase says. -/
def Settled : Prop := (radio = true ↔ phase = .on) ∧ phase ≠ .starting

theorem settled_off : Settled .off false := ⟨by decide, by decide⟩

/-- What the holder of the lock may rely on while the generation is its own. -/
def Operation.Sound : Operation → Prop
  | .starting _ => phase = .starting
  | .started _ result | .completing _ result => phase = .starting ∧ (result.isOk = true → radio = true)
  | .cleaning _ result => phase = .starting ∧ result.isOk = false
  | .stopping _ | .stopFailed _ _ => phase = .off
  | .checking _ => Settled phase radio
  | .unhealthy _ _ => phase ≠ .starting

end Radio

/-- The generation at hand has its request waiting, or running, or it is over and the radio as the phase says. An
obsolete holder of the lock has the request waiting behind it. -/
structure RadioOwned (s : Hotspot) : Prop where
  waiting_le : ∀ r ∈ s.waiting, r.generation ≤ s.inner.apGeneration
  probing_le : ∀ w ∈ s.watchers, ∀ g, w.stage = .probing g → g ≤ s.inner.apGeneration
  probing_now : ∀ w ∈ s.watchers, w.stage = .probing s.inner.apGeneration → NoneWaiting s.waiting s.inner.apGeneration
  free : s.operation = none → OneWaiting s.waiting s.inner.apGeneration s.inner.apPhase ∨
    NoneWaiting s.waiting s.inner.apGeneration ∧ Settled s.inner.apPhase s.radio
  current : ∀ op, s.operation = some op → op.generation = s.inner.apGeneration →
    NoneWaiting s.waiting s.inner.apGeneration ∧ op.Sound s.inner.apPhase s.radio
  stale : ∀ op, s.operation = some op → op.generation ≠ s.inner.apGeneration →
    op.generation < s.inner.apGeneration ∧ OneWaiting s.waiting s.inner.apGeneration s.inner.apPhase

section Radio

variable {s t : Hotspot} {op : Operation}

theorem OneWaiting.exists_request {waiting : List Request} {generation : Nat} {phase : ApPhase}
    (h : OneWaiting waiting generation phase) : ∃ r ∈ waiting, r.generation = generation := by
  have hpos : 0 < waiting.countP (fun r => r.generation == generation) := by rw [h.one]; exact Nat.one_pos
  obtain ⟨r, hr, hgen⟩ := List.countP_pos_iff.mp hpos
  exact ⟨r, hr, eq_of_beq hgen⟩

theorem OneWaiting.not_none {waiting : List Request} {generation : Nat} {phase : ApPhase}
    (h : OneWaiting waiting generation phase) : ¬ NoneWaiting waiting generation := by
  intro hnone
  obtain ⟨r, hr, hgen⟩ := h.exists_request
  exact hnone r hr hgen

theorem Request.phase_ne_on (r : Request) : r.phase ≠ .on := by
  unfold Request.phase
  split <;> exact fun heq => nomatch heq

/-- While the access point is on, no request of its generation waits. -/
theorem RadioOwned.none_of_on (hs : RadioOwned s) (hon : s.inner.apPhase = .on) :
    NoneWaiting s.waiting s.inner.apGeneration := by
  have hnot : ¬ OneWaiting s.waiting s.inner.apGeneration s.inner.apPhase := by
    intro hone
    obtain ⟨r, hr, hgen⟩ := hone.exists_request
    exact r.phase_ne_on ((hone.phase_eq r hr hgen).symm.trans hon)
  cases hop : s.operation with
  | none => exact ((hs.free hop).resolve_left hnot).1
  | some op =>
    by_cases hgen : op.generation = s.inner.apGeneration
    · exact (hs.current op hop hgen).1
    · exact absurd (hs.stale op hop hgen).2 hnot

/-- A step that is not about the access point. -/
theorem RadioOwned.frame (hs : RadioOwned s) (hwaiting : t.waiting = s.waiting) (hop : t.operation = s.operation)
    (hgen : t.inner.apGeneration = s.inner.apGeneration) (hphase : t.inner.apPhase = s.inner.apPhase)
    (hradio : t.radio = s.radio)
    (hwatchers : ∀ w ∈ t.watchers, ∀ g, w.stage = .probing g → ∃ v ∈ s.watchers, v.stage = .probing g) :
    RadioOwned t := by
  constructor
  · rw [hwaiting, hgen]
    exact hs.waiting_le
  · intro w hw g hg
    obtain ⟨v, hv, hvg⟩ := hwatchers w hw g hg
    rw [hgen]
    exact hs.probing_le v hv g hvg
  · intro w hw hg
    obtain ⟨v, hv, hvg⟩ := hwatchers w hw _ hg
    rw [hgen] at hvg
    rw [hwaiting, hgen]
    exact hs.probing_now v hv hvg
  · rw [hop, hwaiting, hgen, hphase, hradio]
    exact hs.free
  · rw [hop, hwaiting, hgen, hphase, hradio]
    exact hs.current
  · rw [hop, hwaiting, hgen, hphase]
    exact hs.stale

/-- A request begins a generation. -/
theorem RadioOwned.request (hs : RadioOwned s) (start : Bool) : RadioOwned (request start s) := by
  have hold : ∀ r ∈ s.waiting, r.generation ≠ s.inner.apGeneration + 1 := by
    intro r hr heq
    have := hs.waiting_le r hr
    omega
  have hone : OneWaiting (⟨start, s.inner.apGeneration + 1⟩ :: s.waiting) (s.inner.apGeneration + 1)
      (Request.phase ⟨start, s.inner.apGeneration + 1⟩) := by
    refine ⟨?_, fun r hr hgen => ?_⟩
    · have hzero : s.waiting.countP (fun r => r.generation == s.inner.apGeneration + 1) = 0 :=
        List.countP_eq_zero.mpr fun r hr heq => hold r hr (eq_of_beq heq)
      rw [List.countP_cons, hzero, if_pos (beq_self_eq_true _)]
    · rcases List.mem_cons.mp hr with rfl | hr
      · rfl
      · exact absurd hgen (hold r hr)
  have hle : ∀ op, s.operation = some op → op.generation ≤ s.inner.apGeneration := by
    intro op hop
    by_cases hgen : op.generation = s.inner.apGeneration
    · exact hgen.le
    · exact (hs.stale op hop hgen).1.le
  refine ⟨fun r hr => ?_, fun w hw g hg => (hs.probing_le w hw g hg).trans (Nat.le_succ _), fun w hw hg => ?_,
    fun _ => Or.inl hone, fun op hop hgen => ?_, fun op hop _ => ⟨Nat.lt_succ_of_le (hle op hop), hone⟩⟩
  · rcases List.mem_cons.mp hr with rfl | hr
    · exact le_rfl
    · exact (hs.waiting_le r hr).trans (Nat.le_succ _)
  · have := hs.probing_le w hw _ hg
    exact absurd this (Nat.not_succ_le_self _)
  · have := hle op hop
    rw [hgen] at this
    exact absurd this (Nat.not_succ_le_self _)

/-- The holder of the lock goes on. -/
theorem RadioOwned.goOn (hs : RadioOwned s) (hop : s.operation = some op) {next : Operation} {radio : Bool}
    (hgen : next.generation = op.generation)
    (hsound : op.generation = s.inner.apGeneration → op.Sound s.inner.apPhase s.radio → next.Sound s.inner.apPhase radio) :
    RadioOwned { s with operation := some next, radio } := by
  refine ⟨hs.waiting_le, hs.probing_le, hs.probing_now, (fun hnone => nomatch hnone), fun op' hop' hgen' => ?_,
    fun op' hop' hgen' => ?_⟩
  · obtain rfl := Option.some.inj hop'
    have hcurrent := hgen.symm.trans hgen'
    obtain ⟨hnone, hs'⟩ := hs.current op hop hcurrent
    exact ⟨hnone, hsound hcurrent hs'⟩
  · obtain rfl := Option.some.inj hop'
    rw [hgen] at hgen' ⊢
    exact hs.stale op hop hgen'

/-- The lock is released. -/
theorem RadioOwned.release (hs : RadioOwned s) (hop : s.operation = some op) (hfree : t.operation = none)
    (hwaiting : t.waiting = s.waiting) (hgen : t.inner.apGeneration = s.inner.apGeneration)
    (hstale : op.generation ≠ s.inner.apGeneration → t.inner.apPhase = s.inner.apPhase)
    (hsettled : op.generation = s.inner.apGeneration → op.Sound s.inner.apPhase s.radio → Settled t.inner.apPhase t.radio)
    (hwatchers : ∀ w ∈ t.watchers, ∀ g, w.stage = .probing g → ∃ v ∈ s.watchers, v.stage = .probing g) :
    RadioOwned t := by
  constructor
  · rw [hwaiting, hgen]
    exact hs.waiting_le
  · intro w hw g hg
    obtain ⟨v, hv, hvg⟩ := hwatchers w hw g hg
    rw [hgen]
    exact hs.probing_le v hv g hvg
  · intro w hw hg
    obtain ⟨v, hv, hvg⟩ := hwatchers w hw _ hg
    rw [hgen] at hvg
    rw [hwaiting, hgen]
    exact hs.probing_now v hv hvg
  · intro _
    rw [hwaiting, hgen]
    by_cases hcurrent : op.generation = s.inner.apGeneration
    · obtain ⟨hnone, hsound⟩ := hs.current op hop hcurrent
      exact Or.inr ⟨hnone, hsettled hcurrent hsound⟩
    · rw [hstale hcurrent]
      exact Or.inl (hs.stale op hop hcurrent).2
  · intro op' hop'
    rw [hfree] at hop'
    exact nomatch hop'
  · intro op' hop'
    rw [hfree] at hop'
    exact nomatch hop'

theorem RadioOwned.move {w : Watcher} {after : List Watcher} (hs : RadioOwned s)
    (hafter : ∀ v ∈ after, ∀ g, v.stage ≠ .probing g) : RadioOwned (s.move w after) := by
  refine hs.frame rfl rfl rfl rfl rfl fun v hv g hg => ?_
  rcases mem_of_mem_advance hv with hv | hv
  · exact absurd hg (hafter v hv g)
  · exact ⟨v, hv, hg⟩

/-- A notification lets nobody begin a check. -/
theorem probing_of_notifyWaiters : ∀ w ∈ (notifyWaiters s).watchers, ∀ g, w.stage = .probing g →
    ∃ v ∈ s.watchers, v.stage = .probing g := by
  intro w hw g hg
  obtain ⟨v, hv, rfl⟩ := List.mem_map.mp hw
  refine ⟨v, hv, ?_⟩
  unfold Watcher.wake at hg
  split at hg
  · exact nomatch hg
  · exact hg

end Radio

/-! ## What the sections keep -/

/-- **The invariant.** -/
structure Owned (s : Hotspot) : Prop where
  watched : Watched s
  recorded : Recorded s
  radio : RadioOwned s

section Sections

variable {s : Hotspot} {w : Watcher}

theorem Owned.flag (hs : Owned s) (flag : Option FlagFile) : Owned { s with flag } :=
  ⟨⟨hs.watched.active, hs.watched.auto⟩, hs.recorded,
    hs.radio.frame rfl rfl rfl rfl rfl fun w hw _ hg => ⟨w, hw, hg⟩⟩

theorem Owned.writeFlagFile (hs : Owned s) (now : Int) : Owned (writeFlagFile now s) := by
  unfold AwayMode.writeFlagFile
  split
  · exact hs
  · exact hs.flag _

theorem Owned.writeAutoFlagFile (hs : Owned s) (now : Int) : Owned (writeAutoFlagFile now s) := hs.flag _

theorem Owned.removeFlagFile (hs : Owned s) : Owned (removeFlagFile s) := hs.flag none

theorem Owned.request (hs : Owned s) (start : Bool) : Owned (request start s) :=
  ⟨⟨hs.watched.active, hs.watched.auto⟩, hs.recorded, hs.radio.request start⟩

theorem Owned.requestApStart (hs : Owned s) : Owned (requestApStart s) := hs.request true

theorem Owned.requestApStop (hs : Owned s) : Owned (requestApStop s) := hs.request false

theorem Owned.serve {h : Handler} {after : List Handler} (hs : Owned s)
    (hne : ∀ geofence stop epoch, h ≠ .launching geofence stop epoch) (hh : h.isPersisted = false) :
    Owned (s.serve h after) :=
  ⟨hs.watched.serve hne, hs.recorded.serve hh, hs.radio.frame rfl rfl rfl rfl rfl fun w hw _ hg => ⟨w, hw, hg⟩⟩

theorem Owned.goTo {stage : Stage} (hs : Owned s) (hlive : stage ≠ .asleep true) (hprobing : ∀ g, stage ≠ .probing g) :
    Owned (s.move w [w.goTo stage]) := by
  refine ⟨hs.watched.goTo hlive, hs.recorded, hs.radio.move fun v hv g => ?_⟩
  rw [List.mem_singleton.mp hv]
  exact hprobing g

/-- A watcher returns that is not the one at hand. -/
theorem Owned.drop (hs : Owned s) (htimer : s.inner.state = .active → ¬ w.Live false s.inner.epoch)
    (hgeofence : ¬ w.Live true s.inner.epoch ∨ s.inner.mode = .manual) : Owned (s.move w []) := by
  refine ⟨⟨fun hactive => ?_, fun hauto => ?_⟩, hs.recorded, hs.radio.move fun v hv => absurd hv List.not_mem_nil⟩
  · obtain ⟨hmanual, hguarded⟩ := hs.watched.active hactive
    exact ⟨hmanual, hguarded.move fun hw => absurd hw (htimer hactive)⟩
  · refine (hs.watched.auto hauto).move fun hw => ?_
    rcases hgeofence with hnot | hmanual
    · exact absurd hw hnot
    · exact absurd (hmanual.symm.trans hauto) (by decide)

theorem Owned.enableSection (hs : Owned s) (hmanual : s.inner.mode = .manual) (minutes : Nat) (now : Int) :
    Owned (enableSection minutes now s) := by
  unfold AwayMode.enableSection
  dsimp only
  split
  · apply Owned.writeFlagFile
    refine ⟨⟨hs.watched.active, hs.watched.auto⟩, hs.recorded, ?_⟩
    exact hs.radio.frame rfl rfl rfl rfl rfl fun w hw _ hg => ⟨w, hw, hg⟩
  · apply Owned.requestApStart
    apply Owned.writeFlagFile
    refine ⟨⟨fun _ => ⟨hmanual, ?_⟩, fun hauto => ?_⟩, fun hnone => hs.recorded hnone, ?_⟩
    · exact Or.inr ⟨_, List.mem_cons_self⟩
    · exact absurd (hmanual.symm.trans hauto) (by decide)
    · exact hs.radio.frame rfl rfl rfl rfl rfl probing_of_notifyWaiters

theorem Owned.disable (hs : Owned s) : Owned (disable s) := by
  unfold AwayMode.disable
  split
  · exact hs
  · rename_i hnot
    have hmanual : s.inner.mode = .manual := by
      cases hmode : s.inner.mode with
      | manual => rfl
      | auto => exact absurd (Or.inl hmode) hnot
    apply Owned.requestApStop
    apply Owned.removeFlagFile
    refine ⟨watched_of_idle rfl hmanual, hs.recorded, ?_⟩
    exact hs.radio.frame rfl rfl rfl rfl rfl probing_of_notifyWaiters

/-- A mode is applied; the last one on its way is the one on file. -/
theorem owned_applyMode (hs : RadioOwned s) (wantAuto : Bool)
    (hconfig : s.handlers.any Handler.isPersisted = false → s.configAuto = wantAuto) : Owned (applyMode wantAuto s) := by
  unfold AwayMode.applyMode
  cases wantAuto with
  | true =>
    dsimp only
    rw [if_pos rfl]
    have hrecorded : s.handlers.any Handler.isPersisted = false → s.configAuto = decide (Mode.auto = .auto) := hconfig
    split
    · apply Owned.requestApStop
      apply Owned.removeFlagFile
      refine ⟨⟨fun hactive => (nomatch hactive), fun _ => Or.inr ⟨_, List.mem_cons_self⟩⟩, hrecorded, ?_⟩
      exact hs.frame rfl rfl rfl rfl rfl probing_of_notifyWaiters
    · refine ⟨⟨fun hactive => (nomatch hactive), fun _ => Or.inr ⟨_, List.mem_cons_self⟩⟩, hrecorded, ?_⟩
      exact hs.frame rfl rfl rfl rfl rfl probing_of_notifyWaiters
  | false =>
    dsimp only
    rw [if_neg Bool.false_ne_true]
    apply Owned.requestApStop
    apply Owned.removeFlagFile
    refine ⟨watched_of_idle rfl rfl, hconfig, ?_⟩
    exact hs.frame rfl rfl rfl rfl rfl probing_of_notifyWaiters

theorem Owned.folded (hs : Owned s) (lastIsHome pendingIsHome : Option Bool) (pendingCount : Nat) :
    Owned { s with inner := { s.inner with lastIsHome, pendingIsHome, pendingCount } } :=
  ⟨⟨hs.watched.active, hs.watched.auto⟩, hs.recorded,
    hs.radio.frame rfl rfl rfl rfl rfl fun w hw _ hg => ⟨w, hw, hg⟩⟩

theorem Owned.autoEvalTick (hs : Owned s) (epoch : Nat) (candidate : Option Bool) (now : Int) :
    Owned (autoEvalTick epoch candidate now s) := by
  unfold AwayMode.autoEvalTick
  split
  · exact hs
  · dsimp only
    split
    · rename_i isHome _
      split
      · exact (hs.folded (some isHome) _ _).removeFlagFile.requestApStop
      · exact ((hs.folded (some isHome) _ _).writeAutoFlagFile now).requestApStart
    · split
      · exact ((hs.folded s.inner.lastIsHome _ _).writeAutoFlagFile now).requestApStart
      · exact hs.folded s.inner.lastIsHome _ _

theorem Owned.timerTick (hs : Owned s) (hw : w.geofence = false) (now : Int) : Owned (timerTick w now s) := by
  have hgeofence : ¬ w.Live true s.inner.epoch := by
    rintro ⟨htrue, -⟩
    exact Bool.false_ne_true (hw.symm.trans htrue)
  unfold AwayMode.timerTick
  split
  · rename_i hstale
    refine hs.drop (fun hactive hlive => ?_) (Or.inl hgeofence)
    exact hstale.elim (fun hne => hne hactive) fun hne => hne hlive.2.1.symm
  · split
    · apply Owned.requestApStop
      apply Owned.removeFlagFile
      refine ⟨⟨fun hactive => (nomatch hactive), fun hauto => ?_⟩, hs.recorded, ?_⟩
      · exact (hs.watched.auto hauto).move fun hlive => absurd hlive hgeofence
      · exact hs.radio.frame rfl rfl rfl rfl rfl fun v hv g hg =>
          ⟨v, (mem_of_mem_advance hv).resolve_left List.not_mem_nil, hg⟩
    · exact (hs.goTo (by decide) fun g => by simp).writeFlagFile now

theorem Owned.look (hs : Owned s) : Owned (look w s) := by
  unfold AwayMode.look
  split
  · rename_i hon
    have hmem : ∀ v ∈ (s.move w [w.goTo (.probing s.inner.apGeneration)]).watchers, ∀ g, v.stage = .probing g →
        g = s.inner.apGeneration ∨ ∃ u ∈ s.watchers, u.stage = .probing g := by
      intro v hv g hg
      rcases mem_of_mem_advance hv with hv | hv
      · rw [List.mem_singleton.mp hv] at hg
        exact Or.inl (Stage.probing.inj hg).symm
      · exact Or.inr ⟨v, hv, hg⟩
    refine ⟨hs.watched.goTo (fun heq => nomatch heq), hs.recorded, ⟨hs.radio.waiting_le, fun v hv g hg => ?_,
      fun v hv hg => hs.radio.none_of_on hon, hs.radio.free, hs.radio.current, hs.radio.stale⟩⟩
    rcases hmem v hv g hg with rfl | ⟨u, hu, hug⟩
    · exact le_rfl
    · exact hs.radio.probing_le u hu g hug
  · exact hs.goTo (by decide) fun g => by simp

/-- A start is over, or a check that failed: the lock is released. -/
theorem owned_completeApStart {op : Operation} {watchers : List Watcher} {result : Outcome} {now : Int} (hs : Owned s)
    (hop : s.operation = some op)
    (hwatched : Watched { s with operation := none, watchers })
    (hwatchers : ∀ v ∈ watchers, ∀ g, v.stage = .probing g → ∃ u ∈ s.watchers, u.stage = .probing g)
    (hok : result.isOk = true → op.Sound s.inner.apPhase s.radio → s.radio = true)
    (hdown : op.generation = s.inner.apGeneration → result.isOk = false → s.radio = false) :
    Owned (completeApStart op.generation result now { s with operation := none, watchers }) := by
  unfold completeApStart finishApStart
  by_cases hgen : s.inner.apGeneration = op.generation
  · rw [if_neg (not_not_intro hgen)]
    cases result with
    | ok _ =>
      refine ⟨⟨hwatched.active, hwatched.auto⟩, hs.recorded, hs.radio.release hop rfl rfl rfl ?_ ?_ hwatchers⟩
      · exact fun hne => absurd hgen.symm hne
      · exact fun _ hsound => ⟨⟨fun _ => rfl, fun _ => hok rfl hsound⟩, (fun heq => nomatch heq)⟩
    | error e =>
      have hsettled : Settled .off s.radio := by
        rw [hdown hgen.symm rfl]
        exact settled_off
      dsimp only
      by_cases hmode : s.inner.mode = .manual
      · rw [if_pos hmode]
        refine ⟨watched_of_idle rfl hmode, hs.recorded, hs.radio.release hop rfl rfl rfl ?_ (fun _ _ => hsettled) ?_⟩
        · exact fun hne => absurd hgen.symm hne
        · intro v hv g hg
          obtain ⟨u, hu, hug⟩ := @probing_of_notifyWaiters { s with operation := none, watchers } v hv g hg
          exact hwatchers u hu g hug
      · rw [if_neg hmode]
        refine ⟨⟨hwatched.active, hwatched.auto⟩, hs.recorded,
          hs.radio.release hop rfl rfl rfl ?_ (fun _ _ => hsettled) hwatchers⟩
        exact fun hne => absurd hgen.symm hne
  · rw [if_pos hgen]
    refine ⟨hwatched, hs.recorded, hs.radio.release hop rfl rfl rfl (fun _ => rfl) ?_ hwatchers⟩
    exact fun heq => absurd heq.symm hgen

end Sections

/-! ## What a step keeps -/

section Steps

variable {s t : Hotspot} {a : Act}

theorem Owned.handlerStep (hs : Owned s) (hcareful : Careful s a) (ht : handlerStep s a = some t) : Owned t := by
  cases a with
  | enable body =>
    dsimp only [AwayMode.handlerStep] at ht
    split at ht
    · exact Option.some.inj ht ▸ hs
    · obtain rfl := Option.some.inj ht
      refine ⟨hs.watched.keep rfl id (fun _ hg => ?_) fun hg => ?_, fun hnone => hs.recorded hnone, ?_⟩
      · exact hg.imp_right fun ⟨stop, hl⟩ => ⟨stop, List.mem_cons_of_mem _ hl⟩
      · exact hg.imp_right fun ⟨stop, hl⟩ => ⟨stop, List.mem_cons_of_mem _ hl⟩
      · exact hs.radio.frame rfl rfl rfl rfl rfl fun w hw _ hg => ⟨w, hw, hg⟩
  | enableApply minutes profile now =>
    obtain ⟨-, ht⟩ := Option.ite_none_right_eq_some.mp ht
    have hserved : Owned (s.serve (.enabling minutes) []) := hs.serve (fun _ _ _ heq => nomatch heq) rfl
    cases hprofile : requireApProfile profile with
    | error e =>
      rw [hprofile] at ht
      exact Option.some.inj ht ▸ hserved
    | ok p =>
      rw [hprofile] at ht
      obtain rfl := Option.some.inj ht
      exact hserved.enableSection (hcareful (by rw [hprofile]; rfl)) minutes now
  | launch geofence stop epoch =>
    obtain ⟨hmem, ht⟩ := Option.ite_none_right_eq_some.mp ht
    obtain rfl := Option.some.inj ht
    -- the watcher it spawns guards what the handler guarded
    have hguard : ∀ k, s.Guarded k → Hotspot.Guarded
        { s.serve (.launching geofence stop epoch) [] with
          watchers := ⟨geofence, stop, epoch, .asleep false⟩ :: s.watchers } k := by
      rintro k (⟨w, hw, hlive⟩ | ⟨stop', hl⟩)
      · exact Or.inl ⟨w, List.mem_cons_of_mem _ hw, hlive⟩
      · by_cases heq : Handler.launching k stop' s.inner.epoch = .launching geofence stop epoch
        · obtain ⟨rfl, rfl, rfl⟩ := Handler.launching.inj heq
          exact Or.inl ⟨_, List.mem_cons_self, rfl, rfl, fun h => nomatch h⟩
        · exact Or.inr ⟨stop', mem_advance_of_ne hl heq⟩
    refine ⟨hs.watched.keep rfl id (fun _ => hguard false) (hguard true),
      hs.recorded.serve rfl, hs.radio.frame rfl rfl rfl rfl rfl fun w hw g hg => ?_⟩
    rcases List.mem_cons.mp hw with rfl | hw
    · exact nomatch hg
    · exact ⟨w, hw, hg⟩
  | disable => exact Option.some.inj ht ▸ hs.disable
  | setMode mode =>
    have hpush (h : Handler) (hh : h.isPersisted = false) : Owned { s with handlers := h :: s.handlers } := by
      refine ⟨hs.watched.keep rfl id (fun _ hg => ?_) fun hg => ?_, fun hnone => hs.recorded ?_, ?_⟩
      · exact hg.imp_right fun ⟨stop, hl⟩ => ⟨stop, List.mem_cons_of_mem _ hl⟩
      · exact hg.imp_right fun ⟨stop, hl⟩ => ⟨stop, List.mem_cons_of_mem _ hl⟩
      · rw [List.any_cons, hh] at hnone
        exact hnone
      · exact hs.radio.frame rfl rfl rfl rfl rfl fun w hw _ hg => ⟨w, hw, hg⟩
    dsimp only [AwayMode.handlerStep] at ht
    split at ht
    · exact Option.some.inj ht ▸ hs
    · exact Option.some.inj ht ▸ hpush .choosing rfl
    · exact Option.some.inj ht ▸ hpush (.persisting false) rfl
  | choose profile =>
    obtain ⟨-, ht⟩ := Option.ite_none_right_eq_some.mp ht
    cases hprofile : requireApProfile profile with
    | error e =>
      rw [hprofile] at ht
      exact Option.some.inj ht ▸ hs.serve (fun _ _ _ heq => nomatch heq) rfl
    | ok p =>
      rw [hprofile] at ht
      exact Option.some.inj ht ▸ hs.serve (fun _ _ _ heq => nomatch heq) rfl
  | persist wantAuto ok =>
    obtain ⟨-, ht⟩ := Option.ite_none_right_eq_some.mp ht
    have hserved (after : List Handler) : Owned (s.serve (.persisting wantAuto) after) :=
      hs.serve (fun _ _ _ heq => nomatch heq) rfl
    cases ok with
    | false => exact Option.some.inj ht ▸ hserved []
    | true =>
      obtain rfl := Option.some.inj ht
      have hnext := hserved [.persisted wantAuto]
      refine ⟨⟨hnext.watched.active, hnext.watched.auto⟩, fun hnone => ?_, ?_⟩
      · exact absurd rfl (List.any_eq_false.mp hnone (.persisted wantAuto)
          (mem_advance_of_mem (List.mem_singleton_self _)))
      · exact hnext.radio.frame rfl rfl rfl rfl rfl fun w hw _ hg => ⟨w, hw, hg⟩
  | applyMode wantAuto =>
    obtain ⟨-, ht⟩ := Option.ite_none_right_eq_some.mp ht
    obtain rfl := Option.some.inj ht
    refine owned_applyMode ?_ wantAuto hcareful
    exact hs.radio.frame rfl rfl rfl rfl rfl fun w hw _ hg => ⟨w, hw, hg⟩
  | disconnect h =>
    obtain ⟨-, ht⟩ := Option.ite_none_right_eq_some.mp ht
    obtain ⟨begun, hdropped, rfl⟩ := Option.map_eq_some_iff.mp ht
    have hne : ∀ geofence stop epoch, h ≠ .launching geofence stop epoch := by
      rintro geofence stop epoch rfl
      exact nomatch hdropped
    have hwatched : Watched (s.serve h []) := hs.watched.serve hne
    refine ⟨⟨hwatched.active, hwatched.auto⟩, fun hnone => ?_, ?_⟩
    · cases hh : h.isPersisted with
      | false => exact hs.recorded.serve hh hnone
      | true => exact hcareful hh hnone
    · exact hs.radio.frame rfl rfl rfl rfl rfl fun w hw _ hg => ⟨w, hw, hg⟩
  | lateWrite wantAuto ok =>
    obtain ⟨-, ht⟩ := Option.ite_none_right_eq_some.mp ht
    obtain rfl := Option.some.inj ht
    refine ⟨⟨hs.watched.active, hs.watched.auto⟩, fun hnone => ?_, ?_⟩
    · cases ok with
      | false => exact hs.recorded hnone
      | true => exact hcareful rfl hnone
    · exact hs.radio.frame rfl rfl rfl rfl rfl fun w hw _ hg => ⟨w, hw, hg⟩
  | _ => exact nomatch ht

/-- The access point's request gets the lock. -/
theorem RadioOwned.acquire (hs : RadioOwned s) {r : Request} (hr : r ∈ s.waiting) (hfree : s.operation = none)
    (hgen : r.generation = s.inner.apGeneration) {op : Operation} (hop : op.generation = r.generation)
    (hsound : s.inner.apPhase = r.phase → op.Sound s.inner.apPhase s.radio) :
    RadioOwned { s with waiting := advance s.waiting r [], operation := some op } := by
  have hmem : ∀ u ∈ advance s.waiting r [], u ∈ s.waiting := fun u hu =>
    (mem_of_mem_advance hu).resolve_left List.not_mem_nil
  have hone : OneWaiting s.waiting s.inner.apGeneration s.inner.apPhase :=
    (hs.free hfree).resolve_right fun hnone => hnone.1 r hr hgen
  have hnone : NoneWaiting (advance s.waiting r []) s.inner.apGeneration := by
    have hcount := @countP_advance _ _ s.waiting [] r (fun u => u.generation == s.inner.apGeneration) hr
    rw [hone.one, if_pos (beq_iff_eq.mpr hgen), List.countP_nil] at hcount
    intro u hu heq
    exact List.countP_eq_zero.mp (Nat.succ.inj hcount) u hu (beq_iff_eq.mpr heq)
  refine ⟨fun u hu => hs.waiting_le u (hmem u hu), hs.probing_le, fun _ _ _ => hnone, (fun heq => nomatch heq),
    fun op' hop' _ => ?_, fun op' hop' hne => ?_⟩
  · obtain rfl := Option.some.inj hop'
    exact ⟨hnone, hsound (hone.phase_eq r hr hgen)⟩
  · obtain rfl := Option.some.inj hop'
    exact absurd (hop.trans hgen) hne

/-- An obsolete request gives up. -/
theorem RadioOwned.giveUp (hs : RadioOwned s) {r : Request} (hr : r ∈ s.waiting) (hfree : s.operation = none)
    (hgen : r.generation ≠ s.inner.apGeneration) : RadioOwned { s with waiting := advance s.waiting r [] } := by
  have hmem : ∀ u ∈ advance s.waiting r [], u ∈ s.waiting := fun u hu =>
    (mem_of_mem_advance hu).resolve_left List.not_mem_nil
  have hnone : NoneWaiting s.waiting s.inner.apGeneration → NoneWaiting (advance s.waiting r []) s.inner.apGeneration :=
    fun h u hu => h u (hmem u hu)
  refine ⟨fun u hu => hs.waiting_le u (hmem u hu), hs.probing_le, fun w hw hg => hnone (hs.probing_now w hw hg),
    fun _ => ?_, fun op hop => ?_, fun op hop => ?_⟩
  · refine (hs.free hfree).imp (fun hone => ⟨?_, fun u hu => hone.phase_eq u (hmem u hu)⟩) fun h => ⟨hnone h.1, h.2⟩
    have hcount := @countP_advance _ _ s.waiting [] r (fun u => u.generation == s.inner.apGeneration) hr
    rw [hone.one, if_neg fun heq => hgen (eq_of_beq heq), List.countP_nil] at hcount
    exact hcount
  · exact nomatch hfree.symm.trans hop
  · exact nomatch hfree.symm.trans hop

/-- A check of the access point at hand gets the lock. -/
theorem RadioOwned.check (hs : RadioOwned s) {w : Watcher} (hw : w ∈ s.watchers) (hfree : s.operation = none)
    (hstage : w.stage = .probing s.inner.apGeneration) :
    RadioOwned { s with operation := some (.checking s.inner.apGeneration) } := by
  have hnone := hs.probing_now w hw hstage
  have hsettled := ((hs.free hfree).resolve_left fun hone => hone.not_none hnone).2
  refine ⟨hs.waiting_le, hs.probing_le, hs.probing_now, (fun heq => nomatch heq), fun op hop _ => ?_,
    fun op hop hne => ?_⟩
  · obtain rfl := Option.some.inj hop
    exact ⟨hnone, hsettled⟩
  · obtain rfl := Option.some.inj hop
    exact absurd rfl hne

theorem Owned.watcherStep (hs : Owned s) (ht : watcherStep s a = some t) : Owned t := by
  cases a with
  | timer w =>
    dsimp only [AwayMode.watcherStep] at ht
    split at ht
    · obtain ⟨-, ht⟩ := Option.ite_none_right_eq_some.mp ht
      obtain rfl := Option.some.inj ht
      cases w.geofence with
      | true => exact hs.goTo (by decide) fun g => by simp
      | false => exact hs.goTo (by decide) fun g => by simp
    · exact nomatch ht
  | notified w =>
    obtain ⟨⟨-, hwoken⟩, ht⟩ := Option.ite_none_right_eq_some.mp ht
    obtain rfl := Option.some.inj ht
    exact hs.drop (fun _ hlive => hlive.2.2 hwoken) (Or.inl fun hlive => hlive.2.2 hwoken)
  | precheck w =>
    obtain ⟨⟨-, -, hgeofence⟩, ht⟩ := Option.ite_none_right_eq_some.mp ht
    obtain rfl := Option.some.inj ht
    split
    · rename_i hstale
      have htimer : ¬ w.Live false s.inner.epoch := by
        rintro ⟨hfalse, -⟩
        exact Bool.false_ne_true (hfalse.symm.trans hgeofence)
      refine hs.drop (fun _ => htimer) ?_
      cases hmode : s.inner.mode with
      | manual => exact Or.inr rfl
      | auto => exact Or.inl fun hlive => hstale.elim (fun hne => hne hmode) fun hne => hne hlive.2.1.symm
    · exact hs.goTo (by decide) fun g => by simp
  | look w =>
    obtain ⟨-, ht⟩ := Option.ite_none_right_eq_some.mp ht
    exact Option.some.inj ht ▸ hs.look
  | probe w applicable =>
    dsimp only [AwayMode.watcherStep] at ht
    split at ht
    · rename_i generation hstage
      obtain ⟨hw, ht⟩ := Option.ite_none_right_eq_some.mp ht
      have hready : Owned (s.move w [w.goTo .ready]) := hs.goTo (by decide) fun g => by simp
      split at ht
      · obtain ⟨hfree, ht⟩ := Option.ite_none_right_eq_some.mp ht
        split at ht
        · exact Option.some.inj ht ▸ hready
        · rename_i hgen
          obtain rfl := Option.some.inj ht
          have hcurrent : generation = s.inner.apGeneration := (not_ne_iff.mp hgen).symm
          rw [hcurrent] at hstage ⊢
          have hholding : Watched (s.move w [w.goTo .holding]) := hs.watched.goTo (by decide)
          refine ⟨⟨hholding.active, hholding.auto⟩, hs.recorded, ?_⟩
          refine (hs.radio.check hw (Option.isNone_iff_eq_none.mp hfree) hstage).frame rfl rfl rfl rfl rfl ?_
          intro v hv g hg
          rcases mem_of_mem_advance hv with hv | hv
          · rw [List.mem_singleton.mp hv] at hg
            exact nomatch hg
          · exact ⟨v, hv, hg⟩
      · exact Option.some.inj ht ▸ hready
    · exact nomatch ht
  | timerTick w now =>
    obtain ⟨⟨-, -, hw⟩, ht⟩ := Option.ite_none_right_eq_some.mp ht
    exact Option.some.inj ht ▸ hs.timerTick hw now
  | geofenceTick w candidate now =>
    obtain ⟨-, ht⟩ := Option.ite_none_right_eq_some.mp ht
    have hasleep : Owned (s.move w [w.goTo (.asleep false)]) := hs.goTo (by decide) fun g => by simp
    exact Option.some.inj ht ▸ hasleep.autoEvalTick w.epoch candidate now
  | acquire r =>
    obtain ⟨⟨hr, hfree⟩, ht⟩ := Option.ite_none_right_eq_some.mp ht
    have hfree := Option.isNone_iff_eq_none.mp hfree
    dsimp only at ht
    split at ht
    · rename_i hgen
      obtain rfl := Option.some.inj ht
      exact ⟨⟨hs.watched.active, hs.watched.auto⟩, hs.recorded, hs.radio.giveUp hr hfree hgen.symm⟩
    · rename_i hgen
      obtain rfl := Option.some.inj ht
      refine ⟨⟨hs.watched.active, hs.watched.auto⟩, hs.recorded,
        hs.radio.acquire hr hfree (not_ne_iff.mp hgen).symm ?_ ?_⟩
      · cases r.start <;> rfl
      · intro hphase
        cases hstart : r.start with
        | true => exact hphase.trans (if_pos hstart)
        | false => exact hphase.trans (if_neg (ne_true_of_eq_false hstart))
  | _ => exact nomatch ht

theorem Owned.operationStep {op : Operation} (hs : Owned s) (hop : s.operation = some op) (hcareful : Careful s a)
    (ht : operationStep s op a = some t) : Owned t := by
  have hkeep : Watched { s with operation := none } := ⟨hs.watched.active, hs.watched.auto⟩
  -- what the condition says of the holder of the lock
  have hdown (hfails : s.FailsDown) (hfailed : op.failed = true) (hgen : op.generation = s.inner.apGeneration) :
      s.radio = false := by
    refine hfails ?_
    rw [hop]
    exact Bool.and_eq_true_iff.mpr ⟨hfailed, beq_iff_eq.mpr hgen⟩
  have hgoOn (next : Operation) (radio : Bool) (hgen : next.generation = op.generation)
      (hsound : op.generation = s.inner.apGeneration → op.Sound s.inner.apPhase s.radio →
        next.Sound s.inner.apPhase radio) : Owned { s with operation := some next, radio } :=
    ⟨⟨hs.watched.active, hs.watched.auto⟩, hs.recorded, hs.radio.goOn hop hgen hsound⟩
  cases op with
  | starting g =>
    cases a with
    | startReturns result up =>
      obtain rfl := Option.some.inj ht
      refine hgoOn _ _ rfl fun _ hsound => ⟨hsound, fun hok => ?_⟩
      cases result with
      | ok _ => rfl
      | error e => exact absurd hok Bool.false_ne_true
    | _ => exact nomatch ht
  | started g result =>
    cases a with
    | judge =>
      obtain rfl := Option.some.inj ht
      split
      · exact hgoOn (.completing g result) s.radio rfl fun _ hsound => hsound
      · rename_i hnot
        refine hgoOn (.cleaning g result) s.radio rfl fun hgen hsound => ⟨hsound.1, ?_⟩
        exact Bool.eq_false_iff.mpr fun hok => hnot ⟨hok, hgen.symm⟩
    | _ => exact nomatch ht
  | cleaning g result =>
    cases a with
    | cleaned error up =>
      obtain rfl := Option.some.inj ht
      refine hgoOn _ _ rfl fun _ hsound => ⟨hsound.1, fun hok => ?_⟩
      cases error with
      | none => exact absurd (hsound.2.symm.trans hok) Bool.false_ne_true
      | some e => exact absurd hok Bool.false_ne_true
    | _ => exact nomatch ht
  | completing g result =>
    cases a with
    | complete now =>
      obtain rfl := Option.some.inj ht
      refine owned_completeApStart hs hop hkeep (fun v hv _ hg => ⟨v, hv, hg⟩) (fun hok hsound => hsound.2 hok) ?_
      exact fun hgen herror => hdown hcareful (by rw [Operation.failed, herror]; rfl) hgen
    | _ => exact nomatch ht
  | stopping g =>
    cases a with
    | stopReturns error up =>
      obtain rfl := Option.some.inj ht
      cases error with
      | none =>
        refine ⟨⟨hkeep.active, hkeep.auto⟩, hs.recorded, hs.radio.release hop rfl rfl rfl (fun _ => rfl)
          (fun _ hsound => ?_) fun v hv _ hg => ⟨v, hv, hg⟩⟩
        have hoff : s.inner.apPhase = .off := hsound
        show Settled s.inner.apPhase false
        rw [hoff]
        exact settled_off
      | some e => exact hgoOn _ _ rfl fun _ hsound => hsound
    | _ => exact nomatch ht
  | stopFailed g e =>
    cases a with
    | recordStopFailure =>
      obtain rfl := Option.some.inj ht
      have hsettled : g = s.inner.apGeneration → s.inner.apPhase = .off → Settled s.inner.apPhase s.radio := by
        intro hgen hoff
        rw [hdown hcareful rfl hgen, hoff]
        exact settled_off
      split
      · refine ⟨⟨hs.watched.active, hs.watched.auto⟩, hs.recorded, hs.radio.release hop rfl rfl rfl (fun _ => rfl)
          hsettled fun v hv _ hg => ⟨v, hv, hg⟩⟩
      · exact ⟨hkeep, hs.recorded, hs.radio.release hop rfl rfl rfl (fun _ => rfl) hsettled
          fun v hv _ hg => ⟨v, hv, hg⟩⟩
    | _ => exact nomatch ht
  | checking g =>
    cases a with
    | checked w error cleanup up =>
      obtain ⟨-, ht⟩ := Option.ite_none_right_eq_some.mp ht
      cases error with
      | none =>
        obtain rfl := Option.some.inj ht
        have hready : Owned (s.move w [w.goTo .ready]) := hs.goTo (by decide) fun g => by simp
        refine ⟨⟨hready.watched.active, hready.watched.auto⟩, hs.recorded,
          hready.radio.release hop rfl rfl rfl (fun _ => rfl) (fun _ hsound => hsound)
            fun v hv _ hg => ⟨v, hv, hg⟩⟩
      | some e =>
        obtain rfl := Option.some.inj ht
        exact hgoOn _ _ rfl fun _ hsound => hsound.2
    | _ => exact nomatch ht
  | unhealthy g message =>
    cases a with
    | healthDone w now =>
      obtain ⟨-, ht⟩ := Option.ite_none_right_eq_some.mp ht
      obtain rfl := Option.some.inj ht
      have hready : Owned (s.move w [w.goTo .ready]) := hs.goTo (by decide) fun g => by simp
      exact owned_completeApStart hready hop ⟨hready.watched.active, hready.watched.auto⟩
        (fun v hv _ hg => ⟨v, hv, hg⟩) (fun hok => absurd hok Bool.false_ne_true)
        fun hgen _ => hdown hcareful rfl hgen
    | _ => exact nomatch ht

/-- Who takes a step. -/
theorem step_cases (h : step s a = some t) : handlerStep s a = some t ∨ watcherStep s a = some t ∨
    ∃ op, s.operation = some op ∧ operationStep s op a = some t := by
  unfold step at h
  split at h
  · rename_i u hu
    exact Or.inl (hu.trans h)
  · split at h
    · rename_i u hu
      exact Or.inr (Or.inl (hu.trans h))
    · exact Or.inr (Or.inr (Option.bind_eq_some_iff.mp h))

/-- **Step lemma.** -/
theorem Owned.step (hs : Owned s) (hcareful : Careful s a) (ht : step s a = some t) : Owned t := by
  rcases step_cases ht with ht | ht | ⟨op, hop, ht⟩
  · exact hs.handlerStep hcareful ht
  · exact hs.watcherStep ht
  · exact hs.operationStep hop hcareful ht

end Steps

/-! ## Startup -/

/-- Nothing is in progress at startup but what it requests itself. -/
theorem owned_restoreFromFile (configAuto runtimeOwner hasRtc : Bool) (flag : Option FlagFile) (now : Int) :
    Owned (restoreFromFile configAuto runtimeOwner hasRtc flag now) := by
  unfold restoreFromFile
  dsimp only
  have hnew : RadioOwned
      { inner := ⟨.manual, .idle, hasRtc, none, none, none, none, 0, 0, 0, .off, 0, none, none⟩
        flag, configAuto, radio := false, handlers := [], writes := [], watchers := [], waiting := [],
        operation := none } := by
    refine ⟨fun _ hr => absurd hr List.not_mem_nil, fun _ hw => absurd hw List.not_mem_nil,
      fun _ hw => absurd hw List.not_mem_nil, fun _ => Or.inr ⟨fun _ hr => absurd hr List.not_mem_nil, settled_off⟩,
      (fun _ hop => nomatch hop), (fun _ hop => nomatch hop)⟩
  generalize hs : (if runtimeOwner = true ∧ flag.isNone = true then requestApStop _ else _) = s
  have hradio : RadioOwned s := by
    rw [← hs]
    split
    · exact hnew.request false
    · exact hnew
  have hfresh : s.inner.state = .idle ∧ s.inner.mode = .manual ∧ s.configAuto = configAuto := by
    rw [← hs]
    split <;> exact ⟨rfl, rfl, rfl⟩
  obtain ⟨hidle, hmanual, hconfig⟩ := hfresh
  have hasleep (geofence : Bool) (stop epoch : Nat) : ∀ w ∈ [Watcher.mk geofence stop epoch (.asleep false)], ∀ g,
      w.stage = .probing g → ∃ v ∈ s.watchers, v.stage = .probing g := by
    intro w hw g hg
    rw [List.mem_singleton.mp hw] at hg
    exact nomatch hg
  cases configAuto with
  | true =>
    rw [if_pos rfl]
    have hbegun : Owned
        { s with
          inner := { s.inner with
            mode := .auto, lastIsHome := some flag.isNone, stop := s.inner.epoch + 1, epoch := s.inner.epoch + 1 }
          watchers := [⟨true, s.inner.epoch + 1, s.inner.epoch + 1, .asleep false⟩] } := by
      refine ⟨⟨fun hactive => ?_, fun _ => Or.inl ⟨_, List.mem_singleton_self _, rfl, rfl, fun heq => nomatch heq⟩⟩,
        fun _ => hconfig, hradio.frame rfl rfl rfl rfl rfl (hasleep _ _ _)⟩
      exact absurd (hidle.symm.trans hactive) (by decide)
    split
    · exact hbegun.requestApStart
    · exact hbegun
  | false =>
    rw [if_neg Bool.false_ne_true]
    have hfile : s.configAuto = decide (s.inner.mode = .auto) := by
      rw [hconfig, hmanual]
      rfl
    have howned : Owned s := ⟨watched_of_idle hidle hmanual, fun _ => hfile, hradio⟩
    split
    · exact howned
    · split
      · exact howned.removeFlagFile
      · split
        · exact howned.removeFlagFile.requestApStop
        · apply Owned.requestApStart
          refine ⟨⟨fun _ => ⟨hmanual, Or.inl ⟨_, List.mem_singleton_self _, rfl, rfl, fun heq => nomatch heq⟩⟩,
            fun hauto => ?_⟩, fun _ => hfile, hradio.frame rfl rfl rfl rfl rfl (hasleep _ _ _)⟩
          exact absurd (hmanual.symm.trans hauto) (by decide)

/-! ## The hotspot has one owner -/

/-- Between handlers the invariant is what is claimed. -/
theorem Owned.oneOwner {s : Hotspot} (hs : Owned s) (hquiet : s.handlers = []) : OneOwner s := by
  have hguard : ∀ k, s.Guarded k → ∃ w ∈ s.watchers, w.Live k s.inner.epoch := by
    rintro k (hw | ⟨stop, hl⟩)
    · exact hw
    · rw [hquiet] at hl
      exact absurd hl List.not_mem_nil
  refine ⟨fun hactive => (hs.watched.active hactive).imp_right (hguard false), fun hauto => hguard true (hs.watched.auto hauto),
    fun hidle => ?_, ?_⟩
  · -- with nothing waiting the generation at hand is over
    have hempty : s.waiting = [] := not_ne_iff.mp fun hne => hidle (Or.inl hne)
    have hnot : ¬ OneWaiting s.waiting s.inner.apGeneration s.inner.apPhase := by
      intro hone
      obtain ⟨r, hr, -⟩ := hone.exists_request
      rw [hempty] at hr
      exact absurd hr List.not_mem_nil
    cases hop : s.operation with
    | none => exact ((hs.radio.free hop).resolve_left hnot).2.1
    | some op =>
      have hcheck : op.isCheck = true := by
        by_contra hne
        exact hidle (Or.inr ⟨op, hop, Bool.eq_false_iff.mpr hne⟩)
      by_cases hgen : op.generation = s.inner.apGeneration
      · have hsound := (hs.radio.current op hop hgen).2
        cases op with
        | checking g => exact hsound.1
        | _ => exact absurd hcheck Bool.false_ne_true
      · exact absurd (hs.radio.stale op hop hgen).2 hnot
  · have hconfig := hs.recorded (by rw [hquiet]; rfl)
    rw [hconfig]
    exact decide_eq_true_iff

theorem shown_completeApStart {s : Hotspot} {generation : Nat} {result : Outcome} {now : Int}
    (hgen : generation ≠ s.inner.apGeneration) : (completeApStart generation result now s).shown = s.shown := by
  unfold completeApStart finishApStart
  rw [if_pos hgen.symm]
  rfl

/-- What the holder of the lock does for an obsolete generation shows nowhere. -/
theorem shown_of_stale {s t : Hotspot} {op : Operation} {a : Act} (hgen : op.generation ≠ s.inner.apGeneration)
    (ht : operationStep s op a = some t) : t.shown = s.shown := by
  unfold operationStep at ht
  split at ht
  · exact Option.some.inj ht ▸ rfl
  · exact Option.some.inj ht ▸ rfl
  · exact Option.some.inj ht ▸ rfl
  · rw [← Option.some.inj ht]
    exact shown_completeApStart hgen
  · exact Option.some.inj ht ▸ rfl
  · rw [← Option.some.inj ht, if_neg fun heq => hgen heq.symm]
    rfl
  · obtain ⟨-, ht⟩ := Option.ite_none_right_eq_some.mp ht
    split at ht
    · exact Option.some.inj ht ▸ rfl
    · exact Option.some.inj ht ▸ rfl
  · obtain ⟨-, ht⟩ := Option.ite_none_right_eq_some.mp ht
    rw [← Option.some.inj ht]
    exact shown_completeApStart hgen
  · exact nomatch ht

/-- **The hotspot has one owner**, in every run whose steps meet the condition: between handlers mode, state, watcher,
radio and configuration file agree, and an obsolete completion shows nowhere. -/
theorem one_owner {configAuto runtimeOwner hasRtc : Bool} {flag : Option FlagFile} {now : Int} {s : Hotspot}
    (h : Reaches step Careful (restoreFromFile configAuto runtimeOwner hasRtc flag now) s) :
    (s.handlers = [] → OneOwner s) ∧
      ∀ op, s.operation = some op → op.generation ≠ s.inner.apGeneration →
        ∀ a t, operationStep s op a = some t → t.shown = s.shown := by
  have howned : Owned s := h.invariant (owned_restoreFromFile configAuto runtimeOwner hasRtc flag now)
    fun t a u ht hcareful htaken => ht.step hcareful htaken
  exact ⟨howned.oneOwner, fun op _ hgen a t ht => shown_of_stale hgen ht⟩

/-- The access point is configured. -/
def roadWifi : Except Text (Option ApProfile) := .ok (some ⟨"Road WiFi".toList, "192.168.66.1".toList⟩)

/-- The hotspot is started by hand and runs; then the geofence takes it over. -/
def handover : List Act :=
  [.enable (some (some 30)), .enableApply 30 roadWifi 0, .launch false 1 1, .acquire ⟨true, 1⟩,
    .startReturns (.ok ()) true, .judge, .complete 0, .setMode "auto".toList, .choose roadWifi, .persist true true,
    .applyMode true, .launch true 2 2]

/-- An `enable` that looks up the access point while the mode changes. -/
def lateEnable : List Act :=
  [.enable (some (some 30)), .setMode "auto".toList, .choose roadWifi, .persist true true, .applyMode true,
    .launch true 1 1, .enableApply 30 roadWifi 0, .launch false 2 2]

/-- Startup in manual mode, without a flag file. -/
def atBoot : Hotspot := restoreFromFile false false false none 0

theorem one_owner_handover : ∃ s, run (guarded step Careful) atBoot handover = some s ∧ OneOwner s := by
  have hrun : ∃ s, run (guarded step Careful) atBoot handover = some s ∧ s.handlers = [] := by
    refine ⟨_, rfl, rfl⟩
  obtain ⟨s, hs, hquiet⟩ := hrun
  exact ⟨s, hs, (one_owner (reaches_of_run_guarded hs)).1 hquiet⟩

/-- After the late `enable` the manual timer is active in automatic mode. -/
theorem not_one_owner : ∃ s, Reachable step atBoot s ∧ s.handlers = [] ∧ ¬ OneOwner s := by
  have hrun : ∃ s, run step atBoot lateEnable = some s ∧ s.handlers = [] ∧ s.inner.state = .active ∧
      s.inner.mode = .auto := by
    refine ⟨_, rfl, rfl, rfl, rfl⟩
  obtain ⟨s, hs, hquiet, hactive, hauto⟩ := hrun
  refine ⟨s, reachable_of_run hs, hquiet, fun howner => ?_⟩
  exact absurd ((howner.active hactive).1.symm.trans hauto) (by decide)

end SentryUsb.Api.AwayMode
