import SentryUsb.Library.TransitionSystem

/-! # The cache that serves what it has while it loads

A value is kept for a while; when it is old it is still served, and one load brings a new one (`StaleWhileRevalidate`,
`api/src/ttl_cache.rs`). Each access to the shared state is a step of its own. Loads run on other threads, and a caller
may be dropped wherever it waits.

* **`Get`** — a call, the refresh it started in the background, and the load of either;
* **`getStep`**, **`step`** — one step;
* **`Inv`**, **`inv_step`** — what holds between steps, unless a caller is dropped while its load goes on (`Careful`);
* **`cache_correct`** — what is served, and that one load runs at a time. -/

namespace SentryUsb.Api.TtlCache

open Library

/-! ## The state -/

/-- A loaded value, the key it was loaded for, and when that load began. -/
structure Loaded (K T : Type) where
  value : T
  key : K
  began : Nat
  deriving DecidableEq

/-- The stored value, under its key. -/
structure Entry (K T : Type) where
  key : K
  storedAt : Nat
  found : Loaded K T
  deriving DecidableEq

/-- The generation a load starts in; how many clears there were, and when it was read. -/
structure Capture where
  generation : Nat
  clears : Nat
  time : Nat
  deriving DecidableEq

/-- Who holds the refresh lock: a call, or the background task it started. -/
inductive Owner where
  | call (n : Nat)
  | task (n : Nat)
  deriving DecidableEq

/-- The shared state. The time `now` is what entries age by; `clock` counts the steps, `clears` the clears, and
`cleared` is the clock just after the last of them. -/
structure Shared (K T : Type) where
  now : Nat
  clock : Nat
  clears : Nat
  cleared : Nat
  generation : Nat
  slot : Option (Entry K T)
  holder : Option Owner
  deriving DecidableEq

/-- Where a call is. -/
inductive Call (K T : Type) where
  | start
  | missed
  | hit (v : Loaded K T)
  | held (v : Loaded K T)
  | wait
  | guarded
  | empty
  | load (c : Capture)
  | leave (r : Option (Loaded K T))
  | done (r : Option (Loaded K T))
  | gone
  deriving DecidableEq

/-- Where a background refresh is. -/
inductive Task where
  | idle
  | load (c : Capture)
  | leave
  | done
  deriving DecidableEq

/-- Where a load is. -/
inductive Load (K T : Type) where
  | idle
  | queued
  | running (began : Nat)
  | ended (r : Option (Loaded K T))
  deriving DecidableEq

/-- A call of `get`, with the clock just after the last clear before it. -/
structure Get (K T : Type) where
  key : K
  floor : Nat
  call : Call K T
  task : Task
  load : Load K T
  deriving DecidableEq

variable {K T : Type}

/-- The call holds the refresh lock. -/
def Call.Holds : Call K T → Prop
  | .held _ | .guarded | .empty | .load _ | .leave _ => True
  | .start | .missed | .hit _ | .wait | .done _ | .gone => False

/-- The background refresh holds the refresh lock. -/
def Task.Holds : Task → Prop
  | .load _ | .leave => True
  | .idle | .done => False

/-- The load is queued or running. -/
def Load.Active : Load K T → Prop
  | .queued | .running _ => True
  | .idle | .ended _ => False

instance (l : Load K T) : Decidable l.Active := by
  cases l with
  | idle => exact isFalse id
  | queued => exact isTrue trivial
  | running began => exact isTrue trivial
  | ended r => exact isFalse id

/-- The value a call has, to return it or to serve it while it refreshes. -/
def Call.found : Call K T → Option (Loaded K T)
  | .hit v | .held v => some v
  | .leave r | .done r => r
  | .start | .missed | .wait | .guarded | .empty | .load _ | .gone => none

/-- The captured generations a call and its refresh have to compare with. -/
def Get.captures (g : Get K T) : List Capture :=
  (match g.call with
    | .load c => [c]
    | _ => []) ++
  match g.task with
    | .load c => [c]
    | _ => []

def Get.goto (g : Get K T) (c : Call K T) : Get K T := { g with call := c }

/-- The generation, read now. -/
def Shared.capture (s : Shared K T) : Capture := ⟨s.generation, s.clears, s.clock⟩

/-! ## Steps -/

section
variable [DecidableEq K] (ttl : Nat)

/-- The stored value for a key, if it is young enough. -/
def Shared.fresh (s : Shared K T) (key : K) : Option (Loaded K T) :=
  (s.slot.filter fun e => decide (e.key = key) && decide (s.now - e.storedAt < ttl)).map Entry.found

/-- The stored value for a key. -/
def Shared.stale (s : Shared K T) (key : K) : Option (Loaded K T) :=
  (s.slot.filter fun e => decide (e.key = key)).map Entry.found

/-- Store what a load brought, if there was no clear since its generation was read. -/
def Shared.storeIfCurrent (s : Shared K T) (c : Capture) (key : K) : Option (Loaded K T) → Shared K T
  | none => s
  | some v => if s.generation = c.generation then { s with slot := some ⟨key, s.now, v⟩ } else s

/-- What a call, its refresh or its load does next. -/
inductive GetAction (T : Type) where
  | fresh
  | stale
  | tryLock
  | spawnRefresh
  | acquire
  | recheck
  | spawnLoad
  | beginLoad
  | endLoad (r : Option T)
  | finish
  | finishRefresh
  | leave
  | leaveRefresh
  | cancel

/-- One step of the call `n`. -/
@[grind =] def getStep (s : Shared K T) (n : Nat) (g : Get K T) : GetAction T → Option (Shared K T × Get K T)
  | .fresh => match g.call with
    | .start => some (s, g.goto ((s.fresh ttl g.key).elim .missed fun v => .done (some v)))
    | _ => none
  | .stale => match g.call with
    | .missed => some (s, g.goto ((s.stale g.key).elim .wait .hit))
    | _ => none
  | .tryLock => match g.call with
    | .hit v =>
      if s.holder = none then some ({ s with holder := some (.call n) }, g.goto (.held v))
      else some (s, g.goto (.done (some v)))
    | _ => none
  | .spawnRefresh => match g.call with
    | .held v =>
      some ({ s with holder := some (.task n) },
        { g with call := .done (some v), task := .load s.capture, load := .queued })
    | _ => none
  | .acquire => match g.call with
    | .wait => if s.holder = none then some ({ s with holder := some (.call n) }, g.goto .guarded) else none
    | _ => none
  | .recheck => match g.call with
    | .guarded => some (s, g.goto ((s.fresh ttl g.key).elim .empty fun v => .leave (some v)))
    | _ => none
  | .spawnLoad => match g.call with
    | .empty => some (s, { g with call := .load s.capture, load := .queued })
    | _ => none
  | .beginLoad => match g.load with
    | .queued => some (s, { g with load := .running s.clock })
    | _ => none
  | .endLoad r => match g.load with
    | .running began => some (s, { g with load := .ended (r.map fun v => ⟨v, g.key, began⟩) })
    | _ => none
  | .finish => match g.call, g.load with
    | .load c, .ended r => some (s.storeIfCurrent c g.key r, g.goto (.leave r))
    | _, _ => none
  | .finishRefresh => match g.task, g.load with
    | .load c, .ended r => some (s.storeIfCurrent c g.key r, { g with task := .leave })
    | _, _ => none
  | .leave => match g.call with
    | .leave r => some ({ s with holder := none }, g.goto (.done r))
    | _ => none
  | .leaveRefresh => match g.task with
    | .leave => some ({ s with holder := none }, { g with task := .done })
    | _ => none
  | .cancel => match g.call with
    | .start | .wait => some (s, g.goto .gone)
    | .load _ => some ({ s with holder := none }, g.goto .gone)
    | _ => none

/-- The cache and all calls, in the order they came. -/
structure System (K T : Type) where
  shared : Shared K T
  gets : List (Get K T)
  deriving DecidableEq

inductive Action (K T : Type) where
  | tick (d : Nat)
  | clear
  | get (key : K)
  | act (n : Nat) (a : GetAction T)

/-- The cache before any call. -/
def System.init : System K T := ⟨⟨0, 0, 0, 0, 0, none, none⟩, []⟩

/-- The step is counted. -/
def Shared.tock (s : Shared K T) : Shared K T := { s with clock := s.clock + 1 }

/-- Invalidate what is stored and what is being loaded. -/
def Shared.clear (s : Shared K T) : Shared K T :=
  { s with generation := (s.generation + 1) % 2 ^ 64, clears := s.clears + 1, cleared := s.clock + 1, slot := none }

/-- **One step of the whole.** -/
def step (sys : System K T) : Action K T → Option (System K T)
  | .tick d => some { sys with shared := { sys.shared with now := sys.shared.now + d }.tock }
  | .clear => some { sys with shared := sys.shared.clear.tock }
  | .get key => some ⟨sys.shared.tock, sys.gets ++ [⟨key, sys.shared.cleared, .start, .idle, .idle⟩]⟩
  | .act n a => sys.gets[n]?.bind fun g => (getStep ttl sys.shared n g a).map fun r => ⟨r.1.tock, sys.gets.set n r.2⟩

end

/-- **No caller is dropped while its load goes on**, and the generation does not come round while one does. -/
def Careful (sys : System K T) : Action K T → Prop
  | .clear => ∀ g ∈ sys.gets, ∀ c ∈ g.captures, sys.shared.clears + 1 < c.clears + 2 ^ 64
  | .act n .cancel => ∀ g ∈ sys.gets[n]?, ¬ g.load.Active
  | _ => True

/-! ## What holds between steps -/

/-- The shared state: nothing is stored from before the last clear, or under another key. -/
structure SharedOk (s : Shared K T) : Prop where
  generation : s.generation = s.clears % 2 ^ 64
  cleared : s.cleared ≤ s.clock
  slot : ∀ e, s.slot = some e → e.found.key = e.key ∧ s.cleared ≤ e.found.began

/-- A captured generation is the current one only if there was no clear since. -/
structure CaptureOk (s : Shared K T) (c : Capture) : Prop where
  generation : c.generation = c.clears % 2 ^ 64
  clears : c.clears ≤ s.clears
  recent : s.clears < c.clears + 2 ^ 64
  time : c.time ≤ s.clock
  current : c.clears = s.clears → s.cleared ≤ c.time

/-- A load under way for this key, begun after this time. -/
def LoadFor (key : K) (time : Nat) : Load K T → Prop
  | .idle => False
  | .queued => True
  | .running began => time ≤ began
  | .ended r => ∀ v, r = some v → v.key = key ∧ time ≤ v.began

/-- A call: what it found was loaded for its key after the last clear before it, and a load belongs to a call or a
refresh that waits for it. -/
structure Facts (s : Shared K T) (g : Get K T) : Prop where
  floor : g.floor ≤ s.cleared
  found : ∀ v, g.call.found = some v → v.key = g.key ∧ g.floor ≤ v.began
  call : ∀ c, g.call = .load c → CaptureOk s c ∧ g.floor ≤ c.time ∧ LoadFor g.key c.time g.load
  task : ∀ c, g.task = .load c → CaptureOk s c ∧ LoadFor g.key c.time g.load
  active : g.load.Active → (∃ c, g.call = .load c) ∨ ∃ c, g.task = .load c
  idle : g.task ≠ .idle → ∃ r, g.call = .done r

/-- Who holds the lock is who says so. -/
structure Owns (s : Shared K T) (n : Nat) (g : Get K T) : Prop where
  call : g.call.Holds ↔ s.holder = some (.call n)
  task : g.task.Holds ↔ s.holder = some (.task n)

/-- **The invariant.** -/
structure Inv (sys : System K T) : Prop where
  shared : SharedOk sys.shared
  facts : ∀ g ∈ sys.gets, Facts sys.shared g
  owns : ∀ n g, sys.gets[n]? = some g → Owns sys.shared n g
  later : ∀ n, sys.gets.length ≤ n → sys.shared.holder ≠ some (.call n) ∧ sys.shared.holder ≠ some (.task n)

/-- A step changes neither clock nor clears. -/
structure SameMarks (s s' : Shared K T) : Prop where
  clock : s'.clock = s.clock
  clears : s'.clears = s.clears
  cleared : s'.cleared = s.cleared
  generation : s'.generation = s.generation

/-- The lock goes to no other call and is taken from none. -/
def Others (s : Shared K T) (n : Nat) (s' : Shared K T) : Prop :=
  ∀ m, m ≠ n → (s'.holder = some (.call m) ↔ s.holder = some (.call m)) ∧
    (s'.holder = some (.task m) ↔ s.holder = some (.task m))

variable {s s' : Shared K T} {g : Get K T} {n : Nat}

theorem CaptureOk.congr {c : Capture} (h : CaptureOk s c) (hsame : SameMarks s s') : CaptureOk s' c where
  generation := h.generation
  clears := hsame.clears ▸ h.clears
  recent := hsame.clears ▸ h.recent
  time := hsame.clock ▸ h.time
  current hc := hsame.cleared ▸ h.current (hc.trans hsame.clears)

theorem Facts.congr (h : Facts s g) (hsame : SameMarks s s') : Facts s' g where
  floor := hsame.cleared ▸ h.floor
  found := h.found
  call c hc := ⟨(h.call c hc).1.congr hsame, (h.call c hc).2⟩
  task c hc := ⟨(h.task c hc).1.congr hsame, (h.task c hc).2⟩
  active := h.active
  idle := h.idle

theorem Facts.task_idle (h : Facts s g) (hdone : ∀ r, g.call ≠ .done r) : g.task = .idle := by
  by_contra htask
  obtain ⟨r, hr⟩ := h.idle htask
  exact hdone r hr

/-- A call that waits for no load goes on: it finds what is right, and waits for none yet. -/
theorem Facts.goto (h : Facts s g) {c : Call K T} (hload : ∀ d, g.call ≠ .load d) (hdone : ∀ r, g.call ≠ .done r)
    (hfound : ∀ v, c.found = some v → v.key = g.key ∧ g.floor ≤ v.began) (hnext : ∀ d, c ≠ .load d) :
    Facts s (g.goto c) := by
  have hidle := h.task_idle hdone
  have hquiet : ¬ g.load.Active := by
    intro hactive
    rcases h.active hactive with ⟨d, hd⟩ | ⟨d, hd⟩
    · exact hload d hd
    · exact nomatch hidle.symm.trans hd
  exact ⟨h.floor, hfound, fun d hd => absurd hd (hnext d), fun d hd => (nomatch hidle.symm.trans hd),
    fun hactive => absurd hactive hquiet, fun htask => absurd hidle htask⟩

theorem Owns.goto (h : Owns s n g) {c : Call K T} (hholds : c.Holds ↔ g.call.Holds) : Owns s n (g.goto c) :=
  ⟨hholds.trans h.call, h.task⟩

/-- The lock is taken. -/
theorem Owns.take (h : Owns s n g) (hfree : s.holder = none) {c : Call K T} (hholds : c.Holds) :
    Owns { s with holder := some (.call n) } n (g.goto c) ∧ Others s n { s with holder := some (.call n) } := by
  refine ⟨⟨iff_of_true hholds rfl, iff_of_false ?_ fun heq => nomatch heq⟩, fun m hm => ⟨?_, ?_⟩⟩
  · intro htask
    exact nomatch hfree.symm.trans (h.task.mp htask)
  · rw [hfree]
    exact iff_of_false (fun heq => hm (Owner.call.inj (Option.some.inj heq)).symm) fun heq => nomatch heq
  · rw [hfree]
    exact iff_of_false (fun heq => nomatch heq) fun heq => nomatch heq

/-- The lock is given back. -/
theorem Owns.drop (h : Owns s n g) (hheld : g.call.Holds) {c : Call K T} (hholds : ¬ c.Holds) :
    Owns { s with holder := none } n (g.goto c) ∧ Others s n { s with holder := none } := by
  have hmine := h.call.mp hheld
  refine ⟨⟨iff_of_false hholds (fun heq => nomatch heq), iff_of_false ?_ (fun heq => nomatch heq)⟩, fun m hm => ⟨?_, ?_⟩⟩
  · intro htask
    exact nomatch hmine.symm.trans (h.task.mp htask)
  · rw [hmine]
    exact iff_of_false (fun heq => nomatch heq) fun heq => hm (Owner.call.inj (Option.some.inj heq)).symm
  · rw [hmine]
    exact iff_of_false (fun heq => nomatch heq) fun heq => nomatch heq

theorem Others.refl : Others s n s := fun _ _ => ⟨Iff.rfl, Iff.rfl⟩

theorem SameMarks.refl : SameMarks s s := ⟨rfl, rfl, rfl, rfl⟩

/-- **What is stored for a key** was loaded for it, after the last clear. -/
theorem SharedOk.of_slot (h : SharedOk s) [DecidableEq K] {key : K} {p : Entry K T → Bool} {v : Loaded K T}
    (hv : (s.slot.filter fun e => decide (e.key = key) && p e).map Entry.found = some v) :
    v.key = key ∧ s.cleared ≤ v.began := by
  obtain ⟨e, he, rfl⟩ := Option.map_eq_some_iff.mp hv
  obtain ⟨hslot, hkey⟩ := Option.filter_eq_some_iff.mp he
  obtain ⟨hfor, hbegan⟩ := h.slot e hslot
  exact ⟨hfor.trans (of_decide_eq_true ((Bool.and_eq_true _ _).mp hkey).1), hbegan⟩

theorem SharedOk.of_fresh [DecidableEq K] (h : SharedOk s) {ttl : Nat} {key : K} {v : Loaded K T}
    (hv : s.fresh ttl key = some v) : v.key = key ∧ s.cleared ≤ v.began := h.of_slot hv

theorem SharedOk.of_stale [DecidableEq K] (h : SharedOk s) {key : K} {v : Loaded K T}
    (hv : s.stale key = some v) : v.key = key ∧ s.cleared ≤ v.began := by
  refine h.of_slot (p := fun _ => true) ?_
  simp only [Bool.and_true]
  exact hv

/-- **A load's value is stored** only if there was no clear since its generation was read. -/
theorem SharedOk.storeIfCurrent (h : SharedOk s) {c : Capture} (hc : CaptureOk s c) {key : K}
    {r : Option (Loaded K T)} (hload : LoadFor key c.time (.ended r)) : SharedOk (s.storeIfCurrent c key r) := by
  cases r with
  | none => exact h
  | some v =>
    obtain ⟨hkey, hbegan⟩ := hload v rfl
    rw [Shared.storeIfCurrent]
    split
    · rename_i hsame
      have hclears : c.clears = s.clears := by
        have hmod := hc.generation.symm.trans (hsame.symm.trans h.generation)
        have hle := hc.clears
        have hlt := hc.recent
        omega
      refine ⟨h.generation, h.cleared, fun e he => ?_⟩
      rw [← Option.some.inj he]
      exact ⟨hkey, (hc.current hclears).trans hbegan⟩
    · exact h

theorem sameMarks_storeIfCurrent (s : Shared K T) (c : Capture) (key : K) (r : Option (Loaded K T)) :
    SameMarks s (s.storeIfCurrent c key r) ∧ (s.storeIfCurrent c key r).holder = s.holder := by
  cases r with
  | none => exact ⟨.refl, rfl⟩
  | some v =>
    rw [Shared.storeIfCurrent]
    split
    · exact ⟨⟨rfl, rfl, rfl, rfl⟩, rfl⟩
    · exact ⟨.refl, rfl⟩

/-! ## Time and clears -/

theorem Facts.tock (hg : Facts s g) : Facts s.tock g where
  floor := hg.floor
  found := hg.found
  call c hc := ⟨⟨(hg.call c hc).1.generation, (hg.call c hc).1.clears, (hg.call c hc).1.recent,
    Nat.le_succ_of_le (hg.call c hc).1.time, (hg.call c hc).1.current⟩, (hg.call c hc).2⟩
  task c hc := ⟨⟨(hg.task c hc).1.generation, (hg.task c hc).1.clears, (hg.task c hc).1.recent,
    Nat.le_succ_of_le (hg.task c hc).1.time, (hg.task c hc).1.current⟩, (hg.task c hc).2⟩
  active := hg.active
  idle := hg.idle

theorem SharedOk.tock (hs : SharedOk s) : SharedOk s.tock := ⟨hs.generation, Nat.le_succ_of_le hs.cleared, hs.slot⟩

/-- A capture after one clear more is no longer current. -/
theorem CaptureOk.clear {c : Capture} (hc : CaptureOk s c) (hrecent : s.clears + 1 < c.clears + 2 ^ 64) :
    CaptureOk s.clear.tock c where
  generation := hc.generation
  clears := Nat.le_succ_of_le hc.clears
  recent := hrecent
  time := Nat.le_succ_of_le hc.time
  current heq := by
    have hle := hc.clears
    rw [show c.clears = s.clears + 1 from heq] at hle
    exact absurd hle (Nat.not_succ_le_self _)

theorem Facts.clear (hs : SharedOk s) (hg : Facts s g)
    (hrecent : ∀ c ∈ g.captures, s.clears + 1 < c.clears + 2 ^ 64) : Facts s.clear.tock g where
  floor := hg.floor.trans (Nat.le_succ_of_le hs.cleared)
  found := hg.found
  call c hc := by
    refine ⟨(hg.call c hc).1.clear (hrecent c ?_), (hg.call c hc).2⟩
    rw [Get.captures, hc]
    exact List.mem_cons_self
  task c hc := by
    refine ⟨(hg.task c hc).1.clear (hrecent c ?_), (hg.task c hc).2⟩
    rw [Get.captures, hc]
    exact List.mem_append_right _ List.mem_cons_self
  active := hg.active
  idle := hg.idle

theorem SharedOk.clear (hs : SharedOk s) : SharedOk s.clear.tock where
  generation := by
    show (s.generation + 1) % 2 ^ 64 = (s.clears + 1) % 2 ^ 64
    rw [hs.generation]
    omega
  cleared := le_rfl
  slot e he := nomatch he

theorem inv_init : Inv (System.init : System K T) where
  shared := ⟨rfl, le_rfl, fun _ he => nomatch he⟩
  facts _ hg := nomatch hg
  owns _ _ hg := nomatch hg
  later _ _ := ⟨fun heq => (nomatch heq), fun heq => nomatch heq⟩

/-- A load that goes on belongs to the holder of the lock. -/
theorem Inv.holder_of_active {sys : System K T} (hinv : Inv sys) {n : Nat} {g : Get K T} (hget : sys.gets[n]? = some g)
    (hactive : g.load.Active) : sys.shared.holder = some (.call n) ∨ sys.shared.holder = some (.task n) := by
  have howns := hinv.owns n g hget
  rcases (hinv.facts g (List.mem_of_getElem? hget)).active hactive with ⟨c, hc⟩ | ⟨c, hc⟩
  · exact .inl (howns.call.mp (by rw [hc]; trivial))
  · exact .inr (howns.task.mp (by rw [hc]; trivial))

/-- What a load may change. -/
theorem slot_storeIfCurrent {c : Capture} {key : K} {r : Option (Loaded K T)}
    (h : (s.storeIfCurrent c key r).slot ≠ s.slot) :
    ∃ v, r = some v ∧ (s.storeIfCurrent c key r).slot = some ⟨key, s.now, v⟩ := by
  cases r with
  | none => exact absurd rfl h
  | some v =>
    refine ⟨v, rfl, ?_⟩
    rw [Shared.storeIfCurrent] at h ⊢
    split at h
    · rename_i hsame
      rw [if_pos hsame]
    · exact absurd rfl h

/-! ## One step of a call -/

/-- What a step of a call leaves. -/
structure Kept (s : Shared K T) (n : Nat) (s' : Shared K T) (g' : Get K T) : Prop where
  shared : SharedOk s'
  marks : SameMarks s s'
  facts : Facts s' g'
  owns : Owns s' n g'
  others : Others s n s'

theorem Kept.goto (hs : SharedOk s) (hg : Facts s g) (ho : Owns s n g) {c : Call K T} (hload : ∀ d, g.call ≠ .load d)
    (hdone : ∀ r, g.call ≠ .done r) (hfound : ∀ v, c.found = some v → v.key = g.key ∧ g.floor ≤ v.began)
    (hnext : ∀ d, c ≠ .load d) (hholds : c.Holds ↔ g.call.Holds) : Kept s n s (g.goto c) :=
  ⟨hs, .refl, hg.goto hload hdone hfound hnext, ho.goto hholds, .refl⟩

/-- The call goes on and the lock changes hands. -/
theorem Kept.lock (hs : SharedOk s) (hg : Facts s g) {c : Call K T} {holder : Option Owner}
    (hload : ∀ d, g.call ≠ .load d) (hdone : ∀ r, g.call ≠ .done r)
    (hfound : ∀ v, c.found = some v → v.key = g.key ∧ g.floor ≤ v.began) (hnext : ∀ d, c ≠ .load d)
    (ho : Owns { s with holder := holder } n (g.goto c) ∧ Others s n { s with holder := holder }) :
    Kept s n { s with holder := holder } (g.goto c) :=
  ⟨⟨hs.generation, hs.cleared, hs.slot⟩, ⟨rfl, rfl, rfl, rfl⟩,
    (hg.goto hload hdone hfound hnext).congr ⟨rfl, rfl, rfl, rfl⟩, ho.1, ho.2⟩

theorem Facts.of_found (hg : Facts s g) {v : Loaded K T} (hv : v.key = g.key ∧ s.cleared ≤ v.began) :
    v.key = g.key ∧ g.floor ≤ v.began := ⟨hv.1, hg.floor.trans hv.2⟩

/-- **A look at the slot**: the call goes on with what it found, or without. -/
theorem Kept.look (hs : SharedOk s) (hg : Facts s g) (ho : Owns s n g) {o : Option (Loaded K T)} {c : Call K T}
    {f : Loaded K T → Call K T} (hload : ∀ d, g.call ≠ .load d) (hdone : ∀ r, g.call ≠ .done r)
    (hlook : ∀ v, o = some v → v.key = g.key ∧ s.cleared ≤ v.began) (hnone : c.found = none)
    (hsome : ∀ v, (f v).found = some v) (hc : ∀ d, c ≠ .load d) (hf : ∀ v d, f v ≠ .load d)
    (hholds : c.Holds ↔ g.call.Holds) (hholds' : ∀ v, (f v).Holds ↔ g.call.Holds) :
    Kept s n s (g.goto (o.elim c f)) := by
  cases o with
  | none => exact .goto hs hg ho hload hdone (fun v hv => nomatch hnone.symm.trans hv) hc hholds
  | some v =>
    refine .goto hs hg ho hload hdone (fun w hw => ?_) (hf v) (hholds' v)
    rw [← Option.some.inj ((hsome v).symm.trans hw)]
    exact hg.of_found (hlook v rfl)

/-- **The generation is captured** when a load is queued. -/
theorem captureOk_capture (hs : SharedOk s) : CaptureOk s s.capture :=
  ⟨hs.generation, le_rfl, Nat.lt_add_of_pos_right (by decide), le_rfl, fun _ => hs.cleared⟩

/-- A load that goes on stays the load of its call or refresh. -/
theorem Facts.proceed (hg : Facts s g) {l : Load K T} (hactive : g.load.Active)
    (hnext : ∀ time, time ≤ s.clock → LoadFor g.key time g.load → LoadFor g.key time l) :
    Facts s { g with load := l } where
  floor := hg.floor
  found := hg.found
  call c hc := ⟨(hg.call c hc).1, (hg.call c hc).2.1, hnext _ (hg.call c hc).1.time (hg.call c hc).2.2⟩
  task c hc := ⟨(hg.task c hc).1, hnext _ (hg.task c hc).1.time (hg.task c hc).2⟩
  active _ := hg.active hactive
  idle := hg.idle

variable [DecidableEq K] {ttl : Nat} {g' : Get K T}

theorem kept_fresh (hs : SharedOk s) (hg : Facts s g) (ho : Owns s n g)
    (h : getStep ttl s n g .fresh = some (s', g')) : Kept s n s' g' := by
  rw [getStep] at h
  split at h
  · rename_i hcall
    obtain ⟨rfl, rfl⟩ := Prod.mk.inj (Option.some.inj h)
    have hholds : (Call.start : Call K T).Holds ↔ g.call.Holds := by rw [hcall]
    exact .look hs hg ho (fun d hd => nomatch hcall.symm.trans hd) (fun r hr => nomatch hcall.symm.trans hr)
      (fun v hv => hs.of_fresh hv) rfl (fun _ => rfl) (fun d hd => nomatch hd) (fun _ d hd => nomatch hd) hholds
      fun _ => hholds
  · exact nomatch h

theorem kept_stale (hs : SharedOk s) (hg : Facts s g) (ho : Owns s n g)
    (h : getStep ttl s n g .stale = some (s', g')) : Kept s n s' g' := by
  rw [getStep] at h
  split at h
  · rename_i hcall
    obtain ⟨rfl, rfl⟩ := Prod.mk.inj (Option.some.inj h)
    have hholds : (Call.missed : Call K T).Holds ↔ g.call.Holds := by rw [hcall]
    exact .look hs hg ho (fun d hd => nomatch hcall.symm.trans hd) (fun r hr => nomatch hcall.symm.trans hr)
      (fun v hv => hs.of_stale hv) rfl (fun _ => rfl) (fun d hd => nomatch hd) (fun _ d hd => nomatch hd) hholds
      fun _ => hholds
  · exact nomatch h

theorem kept_tryLock (hs : SharedOk s) (hg : Facts s g) (ho : Owns s n g)
    (h : getStep ttl s n g .tryLock = some (s', g')) : Kept s n s' g' := by
  rw [getStep] at h
  split at h
  · rename_i v hcall
    have hload : ∀ d, g.call ≠ .load d := fun d hd => nomatch hcall.symm.trans hd
    have hdone : ∀ r, g.call ≠ .done r := fun r hr => nomatch hcall.symm.trans hr
    have hfound : ∀ w, some v = some w → w.key = g.key ∧ g.floor ≤ w.began := by
      intro w hw
      apply hg.found w
      rw [hcall]
      exact hw
    split at h
    · rename_i hfree
      obtain ⟨rfl, rfl⟩ := Prod.mk.inj (Option.some.inj h)
      exact .lock hs hg hload hdone hfound (fun d hd => (nomatch hd)) (ho.take hfree trivial)
    · obtain ⟨rfl, rfl⟩ := Prod.mk.inj (Option.some.inj h)
      refine .goto hs hg ho hload hdone hfound (fun d hd => (nomatch hd)) ?_
      rw [hcall]
      exact Iff.rfl
  · exact nomatch h

theorem kept_acquire (hs : SharedOk s) (hg : Facts s g) (ho : Owns s n g)
    (h : getStep ttl s n g .acquire = some (s', g')) : Kept s n s' g' := by
  rw [getStep] at h
  split at h
  · rename_i hcall
    split at h
    · rename_i hfree
      obtain ⟨rfl, rfl⟩ := Prod.mk.inj (Option.some.inj h)
      exact .lock hs hg (fun d hd => (nomatch hcall.symm.trans hd)) (fun r hr => (nomatch hcall.symm.trans hr))
        (fun v hv => (nomatch hv)) (fun d hd => (nomatch hd)) (ho.take hfree trivial)
    · exact nomatch h
  · exact nomatch h

theorem kept_recheck (hs : SharedOk s) (hg : Facts s g) (ho : Owns s n g)
    (h : getStep ttl s n g .recheck = some (s', g')) : Kept s n s' g' := by
  rw [getStep] at h
  split at h
  · rename_i hcall
    obtain ⟨rfl, rfl⟩ := Prod.mk.inj (Option.some.inj h)
    have hholds : (Call.guarded : Call K T).Holds ↔ g.call.Holds := by rw [hcall]
    exact .look hs hg ho (fun d hd => nomatch hcall.symm.trans hd) (fun r hr => nomatch hcall.symm.trans hr)
      (fun v hv => hs.of_fresh hv) rfl (fun _ => rfl) (fun d hd => nomatch hd) (fun _ d hd => nomatch hd) hholds
      fun _ => hholds
  · exact nomatch h

theorem kept_leave (hs : SharedOk s) (hg : Facts s g) (ho : Owns s n g)
    (h : getStep ttl s n g .leave = some (s', g')) : Kept s n s' g' := by
  rw [getStep] at h
  split at h
  · rename_i r hcall
    obtain ⟨rfl, rfl⟩ := Prod.mk.inj (Option.some.inj h)
    have hheld : g.call.Holds := by
      rw [hcall]
      trivial
    refine .lock hs hg (fun d hd => (nomatch hcall.symm.trans hd)) (fun r' hr => nomatch hcall.symm.trans hr)
      (fun v hv => ?_) (fun d hd => (nomatch hd)) (ho.drop hheld id)
    apply hg.found v
    rw [hcall]
    exact hv
  · exact nomatch h

theorem kept_spawnRefresh (hs : SharedOk s) (hg : Facts s g) (ho : Owns s n g)
    (h : getStep ttl s n g .spawnRefresh = some (s', g')) : Kept s n s' g' := by
  rw [getStep] at h
  split at h
  · rename_i v hcall
    obtain ⟨rfl, rfl⟩ := Prod.mk.inj (Option.some.inj h)
    have hmine : s.holder = some (.call n) := ho.call.mp (by rw [hcall]; trivial)
    refine ⟨⟨hs.generation, hs.cleared, hs.slot⟩, ⟨rfl, rfl, rfl, rfl⟩, ⟨hg.floor, fun w hw => ?_,
      fun c hc => (nomatch hc), fun c hc => ?_, fun _ => .inr ⟨_, rfl⟩, fun _ => ⟨_, rfl⟩⟩,
      ⟨iff_of_false id (fun heq => nomatch heq), iff_of_true trivial rfl⟩, fun m hm => ⟨?_, ?_⟩⟩
    · apply hg.found w
      rw [hcall]
      exact hw
    · rw [← Task.load.inj hc]
      exact ⟨(captureOk_capture hs).congr ⟨rfl, rfl, rfl, rfl⟩, trivial⟩
    · rw [hmine]
      exact iff_of_false (fun heq => nomatch heq) (fun heq => hm (Owner.call.inj (Option.some.inj heq)).symm)
    · rw [hmine]
      exact iff_of_false (fun heq => hm (Owner.task.inj (Option.some.inj heq)).symm) (fun heq => nomatch heq)
  · exact nomatch h

theorem kept_spawnLoad (hs : SharedOk s) (hg : Facts s g) (ho : Owns s n g)
    (h : getStep ttl s n g .spawnLoad = some (s', g')) : Kept s n s' g' := by
  rw [getStep] at h
  split at h
  · rename_i hcall
    obtain ⟨rfl, rfl⟩ := Prod.mk.inj (Option.some.inj h)
    have hidle := hg.task_idle fun r hr => nomatch hcall.symm.trans hr
    have hmine : g.call.Holds := by
      rw [hcall]
      trivial
    refine ⟨hs, .refl, ⟨hg.floor, fun v hv => (nomatch hv), fun c hc => ?_, fun c hc => (nomatch hidle.symm.trans hc),
      fun _ => .inl ⟨_, rfl⟩, fun htask => absurd hidle htask⟩, ⟨iff_of_true trivial (ho.call.mp hmine), ho.task⟩, .refl⟩
    rw [← Call.load.inj hc]
    exact ⟨captureOk_capture hs, hg.floor.trans hs.cleared, trivial⟩
  · exact nomatch h

theorem kept_beginLoad (hs : SharedOk s) (hg : Facts s g) (ho : Owns s n g)
    (h : getStep ttl s n g .beginLoad = some (s', g')) : Kept s n s' g' := by
  rw [getStep] at h
  split at h
  · rename_i hload
    obtain ⟨rfl, rfl⟩ := Prod.mk.inj (Option.some.inj h)
    refine ⟨hs, .refl, hg.proceed ?_ fun time htime _ => htime, ⟨ho.call, ho.task⟩, .refl⟩
    rw [hload]
    trivial
  · exact nomatch h

theorem kept_endLoad {r : Option T} (hs : SharedOk s) (hg : Facts s g) (ho : Owns s n g)
    (h : getStep ttl s n g (.endLoad r) = some (s', g')) : Kept s n s' g' := by
  rw [getStep] at h
  split at h
  · rename_i began hload
    obtain ⟨rfl, rfl⟩ := Prod.mk.inj (Option.some.inj h)
    refine ⟨hs, .refl, hg.proceed ?_ fun time _ htime v hv => ?_, ⟨ho.call, ho.task⟩, .refl⟩
    · rw [hload]
      trivial
    · rw [hload] at htime
      obtain ⟨value, -, rfl⟩ := Option.map_eq_some_iff.mp hv
      exact ⟨rfl, htime⟩
  · exact nomatch h

theorem kept_finish (hs : SharedOk s) (hg : Facts s g) (ho : Owns s n g)
    (h : getStep ttl s n g .finish = some (s', g')) : Kept s n s' g' := by
  rw [getStep] at h
  split at h
  · rename_i c r hcall hload
    obtain ⟨rfl, rfl⟩ := Prod.mk.inj (Option.some.inj h)
    obtain ⟨hcapture, hfloor, hfor⟩ := hg.call c hcall
    rw [hload] at hfor
    have hidle := hg.task_idle fun r hr => nomatch hcall.symm.trans hr
    obtain ⟨hmarks, hholder⟩ := sameMarks_storeIfCurrent s c g.key r
    have hmine : g.call.Holds := by
      rw [hcall]
      trivial
    refine ⟨hs.storeIfCurrent hcapture hfor, hmarks, Facts.congr ⟨hg.floor, fun v hv => ?_, fun d hd => (nomatch hd),
      fun d hd => (nomatch hidle.symm.trans hd), fun hactive => ?_, fun htask => absurd hidle htask⟩ hmarks,
      ⟨?_, ?_⟩, fun m _ => ?_⟩
    · obtain ⟨hkey, hbegan⟩ := hfor v hv
      exact ⟨hkey, hfloor.trans hbegan⟩
    · rw [Get.goto, hload] at hactive
      exact absurd hactive id
    · rw [hholder]
      exact iff_of_true trivial (ho.call.mp hmine)
    · rw [hholder]
      exact ho.task
    · rw [hholder]
      exact ⟨Iff.rfl, Iff.rfl⟩
  · exact nomatch h

theorem kept_finishRefresh (hs : SharedOk s) (hg : Facts s g) (ho : Owns s n g)
    (h : getStep ttl s n g .finishRefresh = some (s', g')) : Kept s n s' g' := by
  rw [getStep] at h
  split at h
  · rename_i c r htask hload
    obtain ⟨rfl, rfl⟩ := Prod.mk.inj (Option.some.inj h)
    obtain ⟨hcapture, hfor⟩ := hg.task c htask
    rw [hload] at hfor
    obtain ⟨q, hq⟩ := hg.idle (by rw [htask]; exact fun heq => nomatch heq)
    obtain ⟨hmarks, hholder⟩ := sameMarks_storeIfCurrent s c g.key r
    have hmine : g.task.Holds := by
      rw [htask]
      trivial
    refine ⟨hs.storeIfCurrent hcapture hfor, hmarks, Facts.congr ⟨hg.floor, hg.found, hg.call, fun d hd => (nomatch hd),
      fun hactive => ?_, fun _ => ⟨q, hq⟩⟩ hmarks, ⟨?_, ?_⟩, fun m _ => ?_⟩
    · rw [hload] at hactive
      exact absurd hactive id
    · rw [hholder]
      exact ho.call
    · rw [hholder]
      exact iff_of_true trivial (ho.task.mp hmine)
    · rw [hholder]
      exact ⟨Iff.rfl, Iff.rfl⟩
  · exact nomatch h

theorem kept_leaveRefresh (hs : SharedOk s) (hg : Facts s g) (ho : Owns s n g)
    (h : getStep ttl s n g .leaveRefresh = some (s', g')) : Kept s n s' g' := by
  rw [getStep] at h
  split at h
  · rename_i htask
    obtain ⟨rfl, rfl⟩ := Prod.mk.inj (Option.some.inj h)
    obtain ⟨q, hq⟩ := hg.idle (by rw [htask]; exact fun heq => nomatch heq)
    have hmine : s.holder = some (.task n) := ho.task.mp (by rw [htask]; trivial)
    have hquiet : ¬ g.load.Active := by
      intro hactive
      rcases hg.active hactive with ⟨c, hc⟩ | ⟨c, hc⟩
      · exact nomatch hq.symm.trans hc
      · exact nomatch htask.symm.trans hc
    refine ⟨⟨hs.generation, hs.cleared, hs.slot⟩, ⟨rfl, rfl, rfl, rfl⟩, ⟨hg.floor, hg.found,
      fun c hc => (nomatch hq.symm.trans hc), fun c hc => (nomatch hc), fun hactive => absurd hactive hquiet,
      fun _ => ⟨q, hq⟩⟩, ⟨?_, iff_of_false id (fun heq => nomatch heq)⟩, fun m hm => ⟨?_, ?_⟩⟩
    · rw [hq]
      exact iff_of_false id (fun heq => nomatch heq)
    · rw [hmine]
      exact iff_of_false (fun heq => nomatch heq) (fun heq => nomatch heq)
    · rw [hmine]
      exact iff_of_false (fun heq => nomatch heq) (fun heq => hm (Owner.task.inj (Option.some.inj heq)).symm)
  · exact nomatch h

/-- **A caller is dropped.** Where its load has ended, or not begun, nothing goes on without the lock. -/
theorem kept_cancel (hs : SharedOk s) (hg : Facts s g) (ho : Owns s n g) (hquiet : ¬ g.load.Active)
    (h : getStep ttl s n g .cancel = some (s', g')) : Kept s n s' g' := by
  rw [getStep] at h
  split at h
  · rename_i hcall
    obtain ⟨rfl, rfl⟩ := Prod.mk.inj (Option.some.inj h)
    refine .goto hs hg ho (fun d hd => (nomatch hcall.symm.trans hd)) (fun r hr => (nomatch hcall.symm.trans hr))
      (fun v hv => (nomatch hv)) (fun d hd => (nomatch hd)) ?_
    rw [hcall]
    exact Iff.rfl
  · rename_i hcall
    obtain ⟨rfl, rfl⟩ := Prod.mk.inj (Option.some.inj h)
    refine .goto hs hg ho (fun d hd => (nomatch hcall.symm.trans hd)) (fun r hr => (nomatch hcall.symm.trans hr))
      (fun v hv => (nomatch hv)) (fun d hd => (nomatch hd)) ?_
    rw [hcall]
    exact Iff.rfl
  · rename_i c hcall
    obtain ⟨rfl, rfl⟩ := Prod.mk.inj (Option.some.inj h)
    have hidle := hg.task_idle fun r hr => nomatch hcall.symm.trans hr
    obtain ⟨howns, hothers⟩ := ho.drop (c := .gone) (by rw [hcall]; trivial) id
    exact ⟨⟨hs.generation, hs.cleared, hs.slot⟩, ⟨rfl, rfl, rfl, rfl⟩, ⟨hg.floor, fun v hv => (nomatch hv),
      fun d hd => (nomatch hd), fun d hd => (nomatch hidle.symm.trans hd), fun hactive => absurd hactive hquiet,
      fun htask => absurd hidle htask⟩,
      howns, hothers⟩
  · exact nomatch h

/-- **One step of a call keeps the invariant**, for it and for the others. -/
theorem kept_getStep {a : GetAction T} (hs : SharedOk s) (hg : Facts s g) (ho : Owns s n g)
    (hcareful : a = .cancel → ¬ g.load.Active) (h : getStep ttl s n g a = some (s', g')) : Kept s n s' g' := by
  cases a with
  | fresh => exact kept_fresh hs hg ho h
  | stale => exact kept_stale hs hg ho h
  | tryLock => exact kept_tryLock hs hg ho h
  | spawnRefresh => exact kept_spawnRefresh hs hg ho h
  | acquire => exact kept_acquire hs hg ho h
  | recheck => exact kept_recheck hs hg ho h
  | spawnLoad => exact kept_spawnLoad hs hg ho h
  | beginLoad => exact kept_beginLoad hs hg ho h
  | endLoad r => exact kept_endLoad hs hg ho h
  | finish => exact kept_finish hs hg ho h
  | finishRefresh => exact kept_finishRefresh hs hg ho h
  | leave => exact kept_leave hs hg ho h
  | leaveRefresh => exact kept_leaveRefresh hs hg ho h
  | cancel => exact kept_cancel hs hg ho (hcareful rfl) h

/-! ## One step of the whole -/

/-- **Every careful step keeps the invariant.** -/
theorem inv_step {sys t : System K T} {a : Action K T} (hinv : Inv sys) (hcareful : Careful sys a)
    (h : step ttl sys a = some t) : Inv t := by
  cases a with
  | tick d =>
    obtain rfl := Option.some.inj h
    have htick : SameMarks sys.shared { sys.shared with now := sys.shared.now + d } := ⟨rfl, rfl, rfl, rfl⟩
    refine ⟨SharedOk.tock ⟨hinv.shared.generation, hinv.shared.cleared, hinv.shared.slot⟩,
      fun g hg => ((hinv.facts g hg).congr htick).tock, fun n g hg => ?_, hinv.later⟩
    exact ⟨(hinv.owns n g hg).call, (hinv.owns n g hg).task⟩
  | clear =>
    obtain rfl := Option.some.inj h
    refine ⟨hinv.shared.clear, fun g hg => (hinv.facts g hg).clear hinv.shared (hcareful g hg), fun n g hg => ?_,
      hinv.later⟩
    exact ⟨(hinv.owns n g hg).call, (hinv.owns n g hg).task⟩
  | get key =>
    obtain rfl := Option.some.inj h
    refine ⟨hinv.shared.tock, fun g hg => ?_, fun n g hg => ?_, fun n hn => ?_⟩
    · rcases List.mem_append.mp hg with hold | hnew
      · exact (hinv.facts g hold).tock
      · rw [List.mem_singleton.mp hnew]
        exact ⟨le_rfl, fun v hv => (nomatch hv), fun c hc => (nomatch hc), fun c hc => (nomatch hc),
          fun hactive => absurd hactive id, fun htask => absurd rfl htask⟩
    · dsimp only at hg
      rcases Nat.lt_trichotomy n sys.gets.length with hlt | rfl | hgt
      · rw [List.getElem?_append_left hlt] at hg
        exact ⟨(hinv.owns n g hg).call, (hinv.owns n g hg).task⟩
      · rw [List.getElem?_concat_length] at hg
        obtain ⟨hcall, htask⟩ := hinv.later sys.gets.length le_rfl
        rw [← Option.some.inj hg]
        exact ⟨iff_of_false id hcall, iff_of_false id htask⟩
      · rw [List.getElem?_eq_none (by rw [List.length_append, List.length_singleton]; omega)] at hg
        exact nomatch hg
    · dsimp only at hn
      rw [List.length_append] at hn
      exact hinv.later n (Nat.le_of_add_right_le hn)
  | act n a =>
    obtain ⟨g, hget, hstep⟩ := Option.bind_eq_some_iff.mp h
    obtain ⟨⟨s', g'⟩, hgetStep, rfl⟩ := Option.map_eq_some_iff.mp hstep
    have hmem := List.mem_of_getElem? hget
    have hlt := (List.getElem?_eq_some_iff.mp hget).1
    have hquiet : a = .cancel → ¬ g.load.Active := by
      rintro rfl
      exact hcareful g hget
    obtain ⟨hshared, hmarks, hfacts, howns, hothers⟩ :=
      kept_getStep hinv.shared (hinv.facts g hmem) (hinv.owns n g hget) hquiet hgetStep
    refine ⟨hshared.tock, fun g₁ hg₁ => ?_, fun m g₁ hg₁ => ?_, fun m hm => ?_⟩
    · rcases List.mem_or_eq_of_mem_set hg₁ with hold | rfl
      · exact ((hinv.facts g₁ hold).congr hmarks).tock
      · exact hfacts.tock
    · dsimp only at hg₁
      by_cases hsame : m = n
      · rw [hsame, List.getElem?_set_self hlt] at hg₁
        rw [hsame, ← Option.some.inj hg₁]
        exact ⟨howns.call, howns.task⟩
      · rw [List.getElem?_set_ne (Ne.symm hsame)] at hg₁
        obtain ⟨hcall, htask⟩ := hothers m hsame
        exact ⟨(hinv.owns m g₁ hg₁).call.trans hcall.symm, (hinv.owns m g₁ hg₁).task.trans htask.symm⟩
    · dsimp only at hm
      rw [List.length_set] at hm
      obtain ⟨hcall, htask⟩ := hothers m (by omega)
      obtain ⟨hnotCall, hnotTask⟩ := hinv.later m hm
      exact ⟨fun heq => hnotCall (hcall.mp heq), fun heq => hnotTask (htask.mp heq)⟩

/-! ## What is served -/

/-- **What the cache promises.** A call returns what was loaded for its key by a load that began after the last clear
before the call; one load goes on at a time; and what is stored changes only by a clear or a load that brought a value. -/
structure Correct (ttl : Nat) (sys : System K T) : Prop where
  returned : ∀ g ∈ sys.gets, ∀ v, g.call = .done (some v) → v.key = g.key ∧ g.floor ≤ v.began
  single : ∀ (m n : Nat) (g h : Get K T), sys.gets[m]? = some g → sys.gets[n]? = some h →
    g.load.Active → h.load.Active → m = n
  stored : ∀ a t, step ttl sys a = some t → t.shared.slot ≠ sys.shared.slot →
    a = .clear ∨ ∃ g ∈ sys.gets, ∃ v, g.load = .ended (some v) ∧ t.shared.slot = some ⟨g.key, sys.shared.now, v⟩

/-- **Only a value that was loaded is stored.** -/
theorem slot_getStep {a : GetAction T} (h : getStep ttl s n g a = some (s', g')) (hslot : s'.slot ≠ s.slot) :
    ∃ v, g.load = .ended (some v) ∧ s'.slot = some ⟨g.key, s.now, v⟩ := by
  have hstore : ∀ {c r}, g.load = .ended r → s.storeIfCurrent c g.key r = s' →
      ∃ v, g.load = .ended (some v) ∧ s'.slot = some ⟨g.key, s.now, v⟩ := by
    rintro c r hload rfl
    obtain ⟨v, rfl, hnew⟩ := slot_storeIfCurrent hslot
    exact ⟨v, hload, hnew⟩
  cases a with
  | finish =>
    rw [getStep] at h
    split at h
    · rename_i c r _ hload
      exact hstore hload (Prod.mk.inj (Option.some.inj h)).1
    · exact nomatch h
  | finishRefresh =>
    rw [getStep] at h
    split at h
    · rename_i c r _ hload
      exact hstore hload (Prod.mk.inj (Option.some.inj h)).1
    · exact nomatch h
  | _ =>
    -- no other step touches the slot
    exfalso
    rw [getStep] at h
    grind

theorem slot_step {sys t : System K T} {a : Action K T} (h : step ttl sys a = some t)
    (hslot : t.shared.slot ≠ sys.shared.slot) :
    a = .clear ∨ ∃ g ∈ sys.gets, ∃ v, g.load = .ended (some v) ∧ t.shared.slot = some ⟨g.key, sys.shared.now, v⟩ := by
  cases a with
  | tick d =>
    obtain rfl := Option.some.inj h
    exact absurd rfl hslot
  | clear => exact .inl rfl
  | get key =>
    obtain rfl := Option.some.inj h
    exact absurd rfl hslot
  | act n a =>
    obtain ⟨g, hget, hstep⟩ := Option.bind_eq_some_iff.mp h
    obtain ⟨⟨s', g'⟩, hgetStep, rfl⟩ := Option.map_eq_some_iff.mp hstep
    have hnew : s'.slot ≠ sys.shared.slot := hslot
    obtain ⟨v, hload, hstored⟩ := slot_getStep hgetStep hnew
    exact .inr ⟨g, List.mem_of_getElem? hget, v, hload, hstored⟩

theorem Inv.correct {sys : System K T} (hinv : Inv sys) : Correct ttl sys where
  returned g hg v hv := (hinv.facts g hg).found v (by rw [hv]; rfl)
  single m n g h hm hn hg hh := by
    rcases hinv.holder_of_active hm hg with hm | hm
    · rcases hinv.holder_of_active hn hh with hn | hn
      · exact Owner.call.inj (Option.some.inj (hm.symm.trans hn))
      · exact nomatch hm.symm.trans hn
    · rcases hinv.holder_of_active hn hh with hn | hn
      · exact nomatch hm.symm.trans hn
      · exact Owner.task.inj (Option.some.inj (hm.symm.trans hn))
  stored _ _ := slot_step

/-- **The cache keeps its promises** in every run in which no caller is dropped while its load goes on, and the generation
does not come round while one does. -/
theorem cache_correct {sys : System K T} (h : Reaches (step ttl) Careful System.init sys) : Correct ttl sys :=
  (h.invariant inv_init fun _ _ _ hinv hcareful hstep => inv_step hinv hcareful hstep).correct

/-! ## Two runs -/

instance (sys : System K T) (a : Action K T) : Decidable (Careful sys a) := by
  cases a with
  | tick d => exact isTrue trivial
  | clear => exact inferInstanceAs (Decidable (∀ g ∈ sys.gets, ∀ c ∈ g.captures, _))
  | get key => exact isTrue trivial
  | act n a =>
    cases a with
    | cancel => exact inferInstanceAs (Decidable (∀ g ∈ sys.gets[n]?, ¬ g.load.Active))
    | _ => exact isTrue trivial

/-- A call that finds nothing waits for the lock and queues its load. -/
def coldStart (n : Nat) : List (Action Unit Nat) :=
  [.get (), .act n .fresh, .act n .stale, .act n .acquire, .act n .recheck, .act n .spawnLoad, .act n .beginLoad]

/-- A run in which a call loads its value, returns it, and the cache is cleared. -/
def servedRun : List (Action Unit Nat) :=
  coldStart 0 ++ [.act 0 (.endLoad (some 7)), .act 0 .finish, .act 0 .leave, .clear, .get ()]

/-- The cache after that run serves what was loaded. -/
theorem served_correct : ∃ sys, run (step 60) System.init servedRun = some sys ∧ Correct 60 sys := by
  have hrun : (run (guarded (step 60) Careful) System.init servedRun).isSome = true := by decide
  obtain ⟨sys, hsys⟩ := Option.isSome_iff_exists.mp hrun
  refine ⟨sys, ?_, cache_correct (reaches_of_run_guarded hsys)⟩
  have hsame : run (step 60) System.init servedRun = run (guarded (step 60) Careful) System.init servedRun := by decide
  exact hsame.trans hsys

/-- **Two loads at once.** A caller is dropped while its load runs: the lock is free, and the next call starts another. -/
theorem two_loads_run : ∃ sys : System Unit Nat,
    run (step 60) System.init (coldStart 0 ++ [.act 0 .cancel] ++ coldStart 1) = some sys ∧ ¬ Correct 60 sys := by
  obtain ⟨sys, hsys⟩ : ∃ sys : System Unit Nat,
      run (step 60) System.init (coldStart 0 ++ [.act 0 .cancel] ++ coldStart 1) = some sys :=
    Option.isSome_iff_exists.mp (by decide)
  refine ⟨sys, hsys, fun hcorrect => ?_⟩
  have hboth : (run (step 60) System.init (coldStart 0 ++ [.act 0 .cancel] ++ coldStart 1)).any (fun sys =>
      (sys.gets[0]?.any fun g => decide g.load.Active) && (sys.gets[1]?.any fun g => decide g.load.Active)) = true := by
    decide
  rw [hsys, Option.any_some, Bool.and_eq_true] at hboth
  obtain ⟨g, hg, hactive⟩ := (Option.any_eq_true _ _).mp hboth.1
  obtain ⟨h, hh, hactive'⟩ := (Option.any_eq_true _ _).mp hboth.2
  exact absurd (hcorrect.single 0 1 g h hg hh (of_decide_eq_true hactive) (of_decide_eq_true hactive')) Nat.zero_ne_one

end SentryUsb.Api.TtlCache
