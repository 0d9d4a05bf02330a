import SentryUsb.Library.SortedMap
import SentryUsb.Library.TransitionSystem

/-! # Sessions that survive a restart

A log-in adds a token to a map, a log-out removes it, and a task drops what has expired. Each then saves the map: it copies it
under the lock and writes the file after that, in no order with other calls. A start of the service reads the file (`auth.rs`).

* **`load`**, **`stored`** — reading and writing the file (`load_from_disk`, `save_to_disk`);
* **`step`** — the calls, with the copy and the write as two steps;
* **`Agrees`** — the file lists the sessions in memory; **`Kept`** — so it does whenever no call is in progress;
* **`Ordered`** — no write leaves an old copy behind;
* **`sessions_kept`** — sessions are kept in every run of such writes, and a file loads as it was written when no entry of it is
negative. -/

namespace SentryUsb.Api.AuthSessions

open Library

/-! ## Time -/

/-- Nanoseconds in a second. -/
def second : Nat := 1000000000

theorem second_pos : 0 < second := by decide

/-- The end of the system's clock: its seconds are a signed word of 64 bits. -/
def endOfTime : Nat := 2 ^ 63 * second

theorem endOfTime_pos : 0 < endOfTime := by decide

/-- A time of the system's clock, in nanoseconds since the epoch. -/
abbrev SystemTime := Fin endOfTime

/-- `SystemTime + Duration`; what the clock cannot show panics. -/
def SystemTime.plus (t : SystemTime) (d : Nat) : Option SystemTime :=
  if h : t.val + d < endOfTime then some ⟨t.val + d, h⟩ else none

/-- `UNIX_EPOCH + Duration::from_secs(secs)`. -/
def fromSecs (secs : UInt64) : Option SystemTime := SystemTime.plus ⟨0, endOfTime_pos⟩ (secs.toNat * second)

/-- `SESSION_TTL`, a day. -/
def sessionTtl : Nat := 24 * 60 * 60 * second

/-! ## The file -/

/-- The map in memory, by token (`sessions`). A token is only compared, so its type is left open. -/
abbrev Sessions (T : Type) [LinearOrder T] := SortedMap T SystemTime

/-- The entries of the file. -/
abbrev Stored (T : Type) [LinearOrder T] := SortedMap T Int64

variable {T : Type} [LinearOrder T]

/-- The seconds since the epoch, as the file has them. -/
def unixSeconds (expiry : SystemTime) : Int64 := Int64.ofNat (expiry.val / second)

/-- The copy of the map that is written (`save_to_disk`). -/
def stored (sessions : Sessions T) : Stored T := sessions.filterMapValues fun expiry => some (unixSeconds expiry)

/-- The expiry of an entry; a negative number is cast to a large one (`unix as u64`). -/
def expiryOf (unix : Int64) : Option SystemTime := fromSecs unix.toUInt64

/-- The sessions of a file that have not expired; an expiry beyond the clock's end panics (`load_from_disk`). A file that is not
there or cannot be read has none. -/
def load (now : SystemTime) (file : Option (Stored T)) : Option (Sessions T) :=
  match file with
  | none => some .empty
  | some entries =>
    if entries.entries.all fun e => (expiryOf e.2).isSome then
      some (entries.filterMapValues fun unix => (expiryOf unix).filter fun expiry => decide (now < expiry))
    else none

/-! ## The service -/

/-- A call that has changed the map and saves it. -/
inductive Call (T : Type) [LinearOrder T] where
  /-- It has not copied the map yet. -/
  | saving
  /-- It holds its copy and will write it. -/
  | writing (snapshot : Stored T)

/-- The service and its file. -/
structure Service (T : Type) [LinearOrder T] where
  now : SystemTime
  sessions : Sessions T
  file : Option (Stored T)
  calls : List (Call T)

inductive Action (T : Type) where
  /-- Time goes on. -/
  | tick (now : SystemTime)
  /-- `create_session`, which read the clock at `began`. -/
  | create (token : T) (began : SystemTime)
  /-- `remove_session`. -/
  | remove (token : T)
  /-- A pass of the clean-up task. -/
  | cleanup
  /-- A call copies the map. -/
  | snapshot (i : Nat)
  /-- A call writes its copy and returns. -/
  | write (i : Nat)
  /-- The service stops and starts again. -/
  | restart

/-- The sessions that have not expired. -/
def unexpired (now : SystemTime) (sessions : Sessions T) : Sessions T :=
  sessions.filterValues fun expiry => decide (now < expiry)

/-- One more call that has changed the map. -/
def Service.changed (s : Service T) (sessions : Sessions T) : Service T :=
  { s with sessions := sessions, calls := s.calls ++ [.saving] }

/-- A pass of the clean-up task saves only when it removed something (`start_cleanup_task`). -/
def Service.cleanup (s : Service T) : Service T :=
  if (unexpired s.now s.sessions).entries.length < s.sessions.entries.length then s.changed (unexpired s.now s.sessions)
  else s

/-- The start of the service: what was in memory is gone, the calls with it (`init_auth`). -/
def Service.restart (s : Service T) : Option (Service T) :=
  (load s.now s.file).map fun sessions => { s with sessions := sessions, calls := [] }

def step (s : Service T) : Action T → Option (Service T)
  | .tick now => if s.now ≤ now then some { s with now := now } else none
  | .create token began =>
    if began ≤ s.now then (began.plus sessionTtl).map fun expiry => s.changed (s.sessions.insert token expiry) else none
  | .remove token => some (s.changed (s.sessions.remove token))
  | .cleanup => some s.cleanup
  | .snapshot i =>
    match s.calls[i]? with
    | some .saving => some { s with calls := s.calls.set i (.writing (stored s.sessions)) }
    | _ => none
  | .write i =>
    match s.calls[i]? with
    | some (.writing snapshot) => some { s with file := some snapshot, calls := s.calls.eraseIdx i }
    | _ => none
  | .restart => s.restart

/-- `validate_session`. -/
def Service.validates (s : Service T) (token : T) : Prop := ∃ expiry, s.sessions.get token = some expiry ∧ s.now < expiry

/-! ## What is kept -/

/-- An expiry in whole seconds, as the file keeps it. -/
def wholeSeconds (expiry : SystemTime) : SystemTime :=
  ⟨expiry.val / second * second, lt_of_le_of_lt (Nat.div_mul_le_self _ _) expiry.isLt⟩

/-- The expiry the file has for a token, while it lasts. -/
def listed (now : SystemTime) (file : Option (Stored T)) (token : T) : Option SystemTime :=
  ((file.bind fun entries => entries.get token).bind expiryOf).filter fun expiry => decide (now < expiry)

/-- The expiry memory has for a token, in whole seconds, while it lasts. -/
def known (now : SystemTime) (sessions : Sessions T) (token : T) : Option SystemTime :=
  ((sessions.get token).map wholeSeconds).filter fun expiry => decide (now < expiry)

/-- The file lists exactly the sessions in memory. What has expired is no session. -/
def Agrees (now : SystemTime) (file : Option (Stored T)) (sessions : Sessions T) : Prop :=
  ∀ token, listed now file token = known now sessions token

/-- What the sessions of a service are promised. -/
structure Kept (s : Service T) : Prop where
  /-- With no call in progress the file lists exactly the sessions in memory. -/
  mirrored : s.calls = [] → Agrees s.now s.file s.sessions
  /-- A restart then leaves the same sessions valid: no removed one comes back, and no other is lost. -/
  restarted : s.calls = [] → ∃ t, s.restart = some t ∧
    ∀ token, t.validates token ↔ ∃ expiry, s.sessions.get token = some expiry ∧ s.now < wholeSeconds expiry

/-- A call will leave the file in agreement with memory, unless the map changes again. -/
def Call.Current (now : SystemTime) (sessions : Sessions T) : Call T → Prop
  | .saving => True
  | .writing snapshot => Agrees now (some snapshot) sessions

/-- A write whose copy is out of date is made only while another call in progress saves a newer one. -/
def Ordered (s : Service T) : Action T → Prop
  | .write i => ∀ snapshot, s.calls[i]? = some (.writing snapshot) →
      Agrees s.now (some snapshot) s.sessions ∨ ∃ c ∈ s.calls.eraseIdx i, c.Current s.now s.sessions
  | _ => True

/-- Loading a file does not panic, and every session that it gives has the expiry written. -/
def LoadsAsWritten (now : SystemTime) (entries : Stored T) : Prop :=
  ∃ sessions, load now (some entries) = some sessions ∧ ∀ token expiry, sessions.get token = some expiry →
    ∃ unix, entries.get token = some unix ∧ (expiry.val : Int) = unix.toInt * second

/-! ## Seconds -/

section Seconds

variable {unix : Int64} {expiry now now' : SystemTime}

/-- The unsigned word of a number, and its value. -/
theorem toInt_eq (unix : Int64) : unix.toInt =
    if unix.toUInt64.toNat < 2 ^ 63 then (unix.toUInt64.toNat : Int) else (unix.toUInt64.toNat : Int) - 2 ^ 64 := by
  have hcases := BitVec.toInt_eq_toNat_cond unix.toBitVec
  have hint : unix.toInt = unix.toBitVec.toInt := rfl
  have hnat : unix.toUInt64.toNat = unix.toBitVec.toNat := rfl
  rw [hint, hnat, hcases]
  split <;> split <;> omega

theorem fromSecs_eq_some {secs : UInt64} :
    fromSecs secs = some expiry ↔ secs.toNat < 2 ^ 63 ∧ expiry.val = secs.toNat * second := by
  have hbound : 0 + secs.toNat * second < endOfTime ↔ secs.toNat < 2 ^ 63 := by
    rw [endOfTime, Nat.zero_add]
    exact Nat.mul_lt_mul_right second_pos
  rw [fromSecs, SystemTime.plus]
  split
  · rename_i h
    rw [Option.some_inj, Fin.ext_iff, and_iff_right (hbound.mp h)]
    show 0 + secs.toNat * second = expiry.val ↔ _
    rw [Nat.zero_add, eq_comm]
  · rename_i h
    exact iff_of_false nofun fun hsecs => h (hbound.mpr hsecs.1)

/-- An entry has an expiry when it is not negative: the one written. -/
theorem expiryOf_eq_some : expiryOf unix = some expiry ↔ 0 ≤ unix.toInt ∧ (expiry.val : Int) = unix.toInt * second := by
  have hlt := unix.toUInt64.toNat_lt
  rw [expiryOf, fromSecs_eq_some, toInt_eq]
  split
  · rename_i h
    rw [and_iff_right h, and_iff_right (Int.natCast_nonneg _), ← Nat.cast_mul, Int.natCast_inj]
  · rename_i h
    exact iff_of_false (fun hsecs => h hsecs.1) fun hneg => by omega

theorem expiryOf_isSome : (expiryOf unix).isSome = true ↔ 0 ≤ unix.toInt := by
  rw [Option.isSome_iff_exists]
  constructor
  · rintro ⟨expiry, h⟩
    exact (expiryOf_eq_some.mp h).1
  · intro h
    have hsecs : unix.toUInt64.toNat < 2 ^ 63 := by
      rw [toInt_eq] at h
      have := unix.toUInt64.toNat_lt
      split at h <;> omega
    have hend : unix.toUInt64.toNat * second < endOfTime := Nat.mul_lt_mul_of_pos_right hsecs second_pos
    exact ⟨⟨_, hend⟩, fromSecs_eq_some.mpr ⟨hsecs, rfl⟩⟩

/-- What is written is read back in whole seconds. -/
theorem expiryOf_unixSeconds (expiry : SystemTime) : expiryOf (unixSeconds expiry) = some (wholeSeconds expiry) := by
  have hsecs : expiry.val / second < 2 ^ 63 := Nat.div_lt_of_lt_mul (by rw [Nat.mul_comm]; exact expiry.isLt)
  have hword : (unixSeconds expiry).toUInt64.toNat = expiry.val / second := by
    show (expiry.val / second) % 2 ^ 64 = _
    exact Nat.mod_eq_of_lt (by omega)
  rw [expiryOf, fromSecs_eq_some, hword]
  exact ⟨hsecs, rfl⟩

theorem wholeSeconds_of_expiryOf (h : expiryOf unix = some expiry) : wholeSeconds expiry = expiry := by
  have hsecs := (fromSecs_eq_some.mp h).2
  apply Fin.ext
  show expiry.val / second * second = expiry.val
  rw [hsecs, Nat.mul_div_cancel _ second_pos]

/-- What lasts later lasts now. -/
theorem filter_later {o : Option SystemTime} (h : now ≤ now') :
    (o.filter fun expiry => decide (now < expiry)).filter (fun expiry => decide (now' < expiry))
      = o.filter fun expiry => decide (now' < expiry) := by
  rw [Option.filter_filter]
  congr 1
  funext expiry
  rw [← Bool.decide_and]
  exact decide_eq_decide.mpr ⟨And.right, fun hlt => ⟨lt_of_le_of_lt h hlt, hlt⟩⟩

end Seconds

/-! ## The file and memory -/

section Files

variable {now now' : SystemTime} {file : Option (Stored T)} {entries : Stored T} {sessions : Sessions T} {token : T}

/-- No entry of the file is negative. -/
def Readable (file : Option (Stored T)) : Prop :=
  ∀ entries ∈ file, ∀ token unix, entries.get token = some unix → 0 ≤ unix.toInt

theorem get_stored (sessions : Sessions T) (token : T) :
    (stored sessions).get token = (sessions.get token).map unixSeconds := by
  rw [stored, SortedMap.get_filterMapValues, Option.map_eq_bind]
  rfl

theorem readable_stored (sessions : Sessions T) : Readable (some (stored sessions)) := by
  rintro entries hentries token unix hunix
  obtain rfl := Option.some.inj hentries
  rw [get_stored, Option.map_eq_some_iff] at hunix
  obtain ⟨expiry, -, rfl⟩ := hunix
  exact (expiryOf_eq_some.mp (expiryOf_unixSeconds expiry)).1

/-- A copy of the map agrees with it. -/
theorem agrees_stored (now : SystemTime) (sessions : Sessions T) : Agrees now (some (stored sessions)) sessions := by
  intro token
  rw [listed, known, Option.bind_some, get_stored]
  cases sessions.get token with
  | none => rfl
  | some expiry => rw [Option.map_some, Option.map_some, Option.bind_some, expiryOf_unixSeconds]

theorem Agrees.later (h : Agrees now file sessions) (hnow : now ≤ now') : Agrees now' file sessions := by
  intro token
  have htoken := congrArg (fun o => o.filter fun expiry => decide (now' < expiry)) (h token)
  rw [listed, known] at htoken ⊢
  rwa [filter_later hnow, filter_later hnow] at htoken

/-- **A file loads** when no entry is negative. -/
theorem load_isSome_iff (now : SystemTime) : (load now file).isSome = true ↔ Readable file := by
  cases file with
  | none => exact iff_of_true rfl fun _ h => nomatch h
  | some entries =>
    have hall : (entries.entries.all fun e => (expiryOf e.2).isSome) = true ↔ Readable (some entries) := by
      rw [List.all_eq_true]
      constructor
      · intro h other hother token unix hunix
        obtain rfl := Option.some.inj hother
        exact expiryOf_isSome.mp (h (token, unix) (SortedMap.mem_entries.mpr hunix))
      · intro h e he
        exact expiryOf_isSome.mpr (h entries rfl e.1 e.2 (SortedMap.mem_entries.mp he))
    rw [load, ← hall]
    split
    · rename_i h
      exact iff_of_true rfl h
    · rename_i h
      exact iff_of_false nofun h

/-- A load gives what the file lists. -/
theorem get_load (h : load now file = some sessions) (token : T) : sessions.get token = listed now file token := by
  cases file with
  | none =>
    obtain rfl := Option.some.inj h
    rfl
  | some entries =>
    rw [load] at h
    split at h
    · obtain rfl := Option.some.inj h
      rw [SortedMap.get_filterMapValues, listed, Option.bind_some]
      cases entries.get token with
      | none => rfl
      | some unix => rw [Option.bind_some, Option.bind_some]
    · exact nomatch h

/-- What is loaded agrees with the file. -/
theorem agrees_load (h : load now file = some sessions) : Agrees now file sessions := by
  intro token
  rw [known, get_load h, listed]
  cases hentry : (file.bind fun entries => entries.get token).bind expiryOf with
  | none => rfl
  | some expiry =>
    obtain ⟨unix, -, hunix⟩ := Option.bind_eq_some_iff.mp hentry
    by_cases hlive : now < expiry
    · rw [Option.filter_some, if_pos (decide_eq_true hlive), Option.map_some, wholeSeconds_of_expiryOf hunix,
        Option.filter_some, if_pos (decide_eq_true hlive)]
    · rw [Option.filter_some, if_neg (by simpa using hlive)]
      rfl

/-- **A file loads as it was written** when no entry of it is negative, and only then. -/
theorem loadsAsWritten_iff : LoadsAsWritten now entries ↔ ∀ token unix, entries.get token = some unix → 0 ≤ unix.toInt := by
  have hreadable : Readable (some entries) ↔ ∀ token unix, entries.get token = some unix → 0 ≤ unix.toInt :=
    ⟨fun h => h entries rfl, fun h other hother => Option.some.inj hother ▸ h⟩
  rw [← hreadable]
  constructor
  · rintro ⟨sessions, hload, -⟩
    exact (load_isSome_iff now).mp (by rw [hload]; rfl)
  · intro h
    obtain ⟨sessions, hload⟩ := Option.isSome_iff_exists.mp ((load_isSome_iff now).mpr h)
    refine ⟨sessions, hload, fun token expiry hexpiry => ?_⟩
    rw [get_load hload, listed, Option.filter_eq_some_iff, Option.bind_some] at hexpiry
    obtain ⟨unix, hunix, hvalue⟩ := Option.bind_eq_some_iff.mp hexpiry.1
    exact ⟨unix, hunix, (expiryOf_eq_some.mp hvalue).2⟩

end Files

/-! ## One step -/

section OneStep

variable {s t : Service T} {sessions : Sessions T} {i : Nat}

/-- The file agrees with memory, or a call in progress will see to it. -/
structure Inv (s : Service T) : Prop where
  readable : Readable s.file
  copies : ∀ snapshot, Call.writing snapshot ∈ s.calls → Readable (some snapshot)
  current : Agrees s.now s.file s.sessions ∨ ∃ c ∈ s.calls, c.Current s.now s.sessions

theorem Call.Current.later {c : Call T} {now now' : SystemTime} (h : c.Current now sessions) (hnow : now ≤ now') :
    c.Current now' sessions := by
  cases c with
  | saving => trivial
  | writing snapshot => exact Agrees.later h hnow

/-- A call that has changed the map saves it. -/
theorem Inv.changed (h : Inv s) : Inv (s.changed sessions) where
  readable := h.readable
  copies snapshot hmem := by
    rcases List.mem_append.mp hmem with hold | hnew
    · exact h.copies snapshot hold
    · exact nomatch List.mem_singleton.mp hnew
  current := .inr ⟨.saving, List.mem_append_right _ (List.mem_singleton_self _), trivial⟩

theorem Inv.tick {now : SystemTime} (h : Inv s) (hnow : s.now ≤ now) : Inv { s with now := now } where
  readable := h.readable
  copies := h.copies
  current := by
    rcases h.current with hagrees | ⟨c, hc, hcurrent⟩
    · exact .inl (hagrees.later hnow)
    · exact .inr ⟨c, hc, hcurrent.later hnow⟩

/-- A copy taken now is up to date. -/
theorem Inv.snapshot (h : Inv s) (hi : s.calls[i]? = some .saving) :
    Inv { s with calls := s.calls.set i (.writing (stored s.sessions)) } where
  readable := h.readable
  copies snapshot hmem := by
    rcases List.mem_or_eq_of_mem_set hmem with hold | hnew
    · exact h.copies snapshot hold
    · rw [Call.writing.inj hnew]
      exact readable_stored s.sessions
  current := by
    have hlt : i < s.calls.length := (List.getElem?_eq_some_iff.mp hi).1
    exact .inr ⟨_, List.mem_set hlt _, agrees_stored s.now s.sessions⟩

/-- A write leaves the file in agreement, or to a call that is still to write. -/
theorem Inv.write {snapshot : Stored T} (h : Inv s) (hi : s.calls[i]? = some (.writing snapshot))
    (hordered : Agrees s.now (some snapshot) s.sessions ∨ ∃ c ∈ s.calls.eraseIdx i, c.Current s.now s.sessions) :
    Inv { s with file := some snapshot, calls := s.calls.eraseIdx i } where
  readable := h.copies snapshot (List.mem_of_getElem? hi)
  copies other hmem := h.copies other (List.mem_of_mem_eraseIdx hmem)
  current := hordered

theorem Inv.restart (h : Inv s) (ht : s.restart = some t) : Inv t := by
  obtain ⟨sessions, hload, rfl⟩ := Option.map_eq_some_iff.mp ht
  exact ⟨h.readable, fun _ hmem => (nomatch hmem), .inl (agrees_load hload)⟩

theorem inv_step {a : Action T} (h : Inv s) (hordered : Ordered s a) (hstep : step s a = some t) : Inv t := by
  cases a with
  | tick now =>
    rw [step] at hstep
    split at hstep
    · rename_i hnow
      obtain rfl := Option.some.inj hstep
      exact h.tick hnow
    · exact nomatch hstep
  | create token began =>
    rw [step] at hstep
    split at hstep
    · obtain ⟨expiry, -, rfl⟩ := Option.map_eq_some_iff.mp hstep
      exact h.changed
    · exact nomatch hstep
  | remove token =>
    obtain rfl := Option.some.inj hstep
    exact h.changed
  | cleanup =>
    obtain rfl := Option.some.inj hstep
    rw [Service.cleanup]
    split
    · exact h.changed
    · exact h
  | snapshot i =>
    rw [step] at hstep
    split at hstep
    · rename_i hi
      obtain rfl := Option.some.inj hstep
      exact h.snapshot hi
    · exact nomatch hstep
  | write i =>
    rw [step] at hstep
    split at hstep
    · rename_i snapshot hi
      obtain rfl := Option.some.inj hstep
      exact h.write hi (hordered snapshot hi)
    · exact nomatch hstep
  | restart => exact h.restart hstep

/-- Without calls in progress the file agrees with memory, and a restart brings back what is in memory. -/
theorem Inv.kept (h : Inv s) : Kept s := by
  have hagrees : s.calls = [] → Agrees s.now s.file s.sessions := by
    intro hcalls
    rcases h.current with hagrees | ⟨c, hc, -⟩
    · exact hagrees
    · rw [hcalls] at hc
      exact nomatch hc
  refine ⟨hagrees, fun hcalls => ?_⟩
  obtain ⟨sessions, hload⟩ := Option.isSome_iff_exists.mp ((load_isSome_iff s.now).mpr h.readable)
  refine ⟨{ s with sessions := sessions, calls := [] }, by rw [Service.restart, hload]; rfl, fun token => ?_⟩
  have htoken : sessions.get token = known s.now s.sessions token := (get_load hload token).trans (hagrees hcalls token)
  show (∃ expiry, sessions.get token = some expiry ∧ s.now < expiry) ↔ _
  rw [htoken, known]
  constructor
  · rintro ⟨expiry, hexpiry, hlive⟩
    obtain ⟨hexpiry, -⟩ := Option.filter_eq_some_iff.mp hexpiry
    obtain ⟨whole, hwhole, rfl⟩ := Option.map_eq_some_iff.mp hexpiry
    exact ⟨whole, hwhole, hlive⟩
  · rintro ⟨expiry, hexpiry, hlive⟩
    refine ⟨wholeSeconds expiry, ?_, hlive⟩
    rw [hexpiry, Option.map_some, Option.filter_some, if_pos (decide_eq_true hlive)]

end OneStep

/-! ## Every run -/

/-- The service as it starts, on a file that it can read. -/
def Started (s : Service T) : Prop := s.calls = [] ∧ load s.now s.file = some s.sessions

theorem Started.inv {s : Service T} (h : Started s) : Inv s where
  readable := (load_isSome_iff s.now).mp (by rw [h.2]; rfl)
  copies _ hmem := by
    rw [h.1] at hmem
    exact nomatch hmem
  current := .inl (agrees_load h.2)

/-- **Sessions are kept** in every run in which a write whose copy is out of date is made only while another call saves a newer
one; and a file loads as it was written when no entry of it is negative, and only then. -/
theorem sessions_kept :
    (∀ {start s : Service T}, Started start → Reaches step Ordered start s → Kept s) ∧
      ∀ now (entries : Stored T), LoadsAsWritten now entries ↔
        ∀ token unix, entries.get token = some unix → 0 ≤ unix.toInt :=
  ⟨fun hstart h => (h.invariant hstart.inv fun _ _ _ hinv hordered hstep => inv_step hinv hordered hstep).kept,
    fun _ _ => loadsAsWritten_iff⟩

/-! ## Two runs -/

/-- A call that saves while no other does is in order. -/
theorem reaches_saved {start s : Service T} (h : Reaches step Ordered start s) (hcalls : s.calls = [.saving]) :
    Reaches step Ordered start { s with file := some (stored s.sessions), calls := [] } := by
  obtain ⟨now, sessions, file, calls⟩ := s
  obtain rfl : calls = [.saving] := hcalls
  refine .tail (.write 0) (.tail (.snapshot 0) h trivial rfl) (fun snapshot hsnapshot => ?_) rfl
  obtain rfl := Call.writing.inj (Option.some.inj hsnapshot)
  exact .inl (agrees_stored now sessions)

theorem step_create {s : Service T} {token : T} {began : SystemTime} (hbegan : began ≤ s.now)
    (hend : began.val + sessionTtl < endOfTime) :
    step s (.create token began) = some (s.changed (s.sessions.insert token ⟨began.val + sessionTtl, hend⟩)) := by
  rw [step, if_pos hbegan, SystemTime.plus, dif_pos hend, Option.map_some]

/-- The service before anybody logged in. -/
def fresh : Service Nat := ⟨⟨0, endOfTime_pos⟩, .empty, none, []⟩

theorem started_fresh : Started fresh := ⟨rfl, rfl⟩

/-- A log-in and a log-out, each saved. -/
theorem sessions_kept_loggedOut : ∃ s : Service Nat, (s.calls = [] ∧ ¬ s.validates 7) ∧ Kept s := by
  have hcreate := reaches_saved (.tail (.create 7 fresh.now) .refl trivial (step_create le_rfl (by decide +kernel))) rfl
  have hremove := reaches_saved (.tail (.remove 7) hcreate trivial rfl) rfl
  refine ⟨_, ⟨rfl, ?_⟩, sessions_kept.1 started_fresh hremove⟩
  rintro ⟨expiry, hexpiry, -⟩
  exact nomatch hexpiry

/-- A log-out overtakes a log-in that has copied the map but not written it. -/
def overtaken : List (Action Nat) :=
  [.create 7 fresh.now, .snapshot 0, .write 0, .create 8 fresh.now, .snapshot 0, .remove 7, .snapshot 1, .write 1, .write 0]

theorem overtaken_isSome : (run step fresh overtaken).isSome = true := by decide +kernel

/-- **A session that was removed is back in the file**, and a file with a negative entry does not load. -/
theorem not_sessions_kept :
    (∃ s, Reachable step fresh s ∧ ¬ Kept s) ∧ ¬ LoadsAsWritten fresh.now (SortedMap.empty.insert 7 (-1)) := by
  refine ⟨⟨_, reachable_of_run (Option.some_get overtaken_isSome).symm, fun hkept => ?_⟩, fun hloads => ?_⟩
  · have hlisted : ((run step fresh overtaken).any fun s => s.calls.isEmpty && (listed s.now s.file 7).isSome &&
        (known s.now s.sessions 7).isNone) = true := by decide +kernel
    rw [← Option.some_get overtaken_isSome, Option.any_some, Bool.and_eq_true, Bool.and_eq_true] at hlisted
    obtain ⟨⟨hcalls, hfile⟩, hmemory⟩ := hlisted
    rw [hkept.mirrored (List.isEmpty_iff.mp hcalls) 7, Option.isNone_iff_eq_none.mp hmemory] at hfile
    exact nomatch hfile
  · obtain ⟨sessions, hload, -⟩ := hloads
    have hnone : (load fresh.now (some (SortedMap.empty.insert 7 (-1)))).isSome = false := by decide +kernel
    rw [hload] at hnone
    exact nomatch hnone

end SentryUsb.Api.AuthSessions
