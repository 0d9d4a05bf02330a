import SentryUsb.Library.TransitionSystem

/-! # The pairing lifecycle

A device is paired while it holds credentials, in memory and in a file. Pairing attempts, the removal of a pairing by the
user or by the Cloud, a new key and restarts change them. Each call holds the lock of the credentials, or that of the
active attempt, over everything it changes of the two, so a call is one step; an `unpair` gives up the attempt first and
deletes the file then, and nothing that may come in between does anything.

* **`beginPairing`** … **`handleRemoteRevoke`** — the calls (`state.rs`);
* **`Paired`** — an attempt runs only while nothing is paired, and what is in memory is in the file;
* **`Over`** — attempts that are not active any more stay so;
* **`SignedOff`** — no restart finds credentials;
* **`pairing_safe`** — what holds in every run whose removals remove the file. -/

namespace SentryUsb.Sync.Pairing

open Library

variable {κ : Type}

/-! ## State -/

/-- Phase of the pairing shown to the user. -/
inductive PairingState where
  | idle
  | handshaking
  | polling
  | complete
  | error
  deriving DecidableEq, Repr

structure PairingProgress where
  state : PairingState
  error : Option String
  deriving DecidableEq, Repr

/-- The credentials file. -/
inductive CredentialsFile (κ : Type) where
  | absent
  /-- A file that no version of the program reads. -/
  | garbled
  | holds (creds : κ)
  deriving DecidableEq, Repr

/-- What `load` returns; a read may fail for other reasons than the file. -/
def CredentialsFile.load (reads : Bool) : CredentialsFile κ → Option κ
  | .holds creds => if reads then some creds else none
  | .absent | .garbled => none

/-- The state of the uploader. An attempt is known by its number: the pointer of its cancellation notice, which is no
other attempt's while its task holds it. -/
structure CloudState (κ : Type) where
  file : CredentialsFile κ
  creds : Option κ
  /-- The active attempt (`pairing_cancel`). -/
  active : Option Nat
  /-- Attempts made so far. -/
  begun : Nat
  pairing : PairingProgress
  deriving DecidableEq, Repr

/-- Why a call fails: it is refused, or the file system fails it. -/
inductive CallError where
  | refused (text : String)
  | storage
  deriving DecidableEq, Repr

/-! ## Calls -/

/-- A start of the process (`bootstrap_load_credentials`): memory is empty but for what the file yields. -/
def bootstrapLoadCredentials (reads : Bool) (s : CloudState κ) : CloudState κ :=
  { s with creds := s.file.load reads, active := none, pairing := ⟨.idle, none⟩ }

/-- `begin_pairing`, with the number of the new attempt. -/
def beginPairing (s : CloudState κ) : Except CallError (CloudState κ × Nat) :=
  if s.creds.isSome then .error (.refused "already paired; unpair first")
  else if s.active.isSome then .error (.refused "pairing is already in progress")
  else .ok ({ s with active := some s.begun, begun := s.begun + 1, pairing := ⟨.handshaking, none⟩ }, s.begun)

/-- `pairing_progress`. -/
def pairingProgress (attempt : Nat) (phase : PairingState) (s : CloudState κ) : Except CallError (CloudState κ) :=
  if s.creds.isSome then .error (.refused "pairing has already completed")
  else if s.active ≠ some attempt then .error (.refused "pairing cancelled or replaced")
  else if phase ≠ .handshaking ∧ phase ≠ .polling then .error (.refused "invalid active pairing phase")
  else if s.pairing.state ≠ phase ∨ s.pairing.error.isSome then .ok { s with pairing := ⟨phase, none⟩ }
  else .ok s

/-- `complete_pairing`. -/
def completePairing (attempt : Nat) (creds : κ) (saves : Bool) (s : CloudState κ) : Except CallError (CloudState κ) :=
  if s.creds.isSome ∨ s.active ≠ some attempt then
    .error (.refused "pairing cancelled, replaced or already completed")
  else if saves then
    .ok { s with file := .holds creds, creds := some creds, active := none, pairing := ⟨.complete, none⟩ }
  else .error .storage

/-- `fail_pairing`. -/
def failPairing (attempt : Nat) (s : CloudState κ) : CloudState κ :=
  if s.active ≠ some attempt then s
  else { s with active := none, pairing := ⟨.error, some "Pairing failed. Try a new code."⟩ }

/-- `cancel_pairing`. -/
def cancelPairing (s : CloudState κ) : CloudState κ :=
  if s.active.isSome then { s with active := none, pairing := ⟨.idle, some "cancelled"⟩ } else s

/-- The file after `secure_delete`, which fails only if there is something to remove. -/
def secureDelete (removes : Bool) : CredentialsFile κ → Option (CredentialsFile κ)
  | .absent => some .absent
  | .garbled | .holds _ => if removes then some .absent else none

/-- `unpair`. The file is deleted only if credentials are in memory. -/
def unpair (removes : Bool) (s : CloudState κ) : CloudState κ × Except CallError Unit :=
  let t := cancelPairing s
  if t.creds.isSome then
    match secureDelete removes t.file with
    | none => (t, .error .storage)
    | some file => ({ t with file, creds := none }, .ok ())
  else ({ t with creds := none }, .ok ())

variable [DecidableEq κ]

/-- `replace_credentials_if_current`: the answer of a rekey to a request sent under `expected`. -/
def replaceCredentialsIfCurrent (expected updated : κ) (saves : Bool) (s : CloudState κ) :
    Except CallError (CloudState κ × Bool) :=
  if s.creds ≠ some expected then .ok (s, false)
  else if saves then .ok ({ s with file := .holds updated, creds := some updated }, true)
  else .error .storage

/-- `handle_remote_revoke`: the answer that the pairing of a request sent under `expected` is revoked. A file that
cannot be removed is only reported. -/
def handleRemoteRevoke (expected : κ) (removes : Bool) (s : CloudState κ) : CloudState κ × Bool :=
  if s.creds ≠ some expected then (s, false)
  else ({ s with file := (secureDelete removes s.file).getD s.file, creds := none }, true)

/-! ## Runs -/

/-- A call, with what the file system does. -/
inductive Act (κ : Type) where
  | beginPairing
  | progress (attempt : Nat) (phase : PairingState)
  | complete (attempt : Nat) (creds : κ) (saves : Bool)
  | failed (attempt : Nat)
  | cancel
  | unpair (removes : Bool)
  | rekey (expected updated : κ) (saves : Bool)
  | revoke (expected : κ) (removes : Bool)
  | restart (reads : Bool)
  deriving DecidableEq, Repr

/-- The state after a call that may fail. -/
def settle (s : CloudState κ) : Except CallError (CloudState κ) → CloudState κ
  | .ok t => t
  | .error _ => s

/-- The state after a call. -/
def perform (s : CloudState κ) : Act κ → CloudState κ
  | .beginPairing => settle s ((beginPairing s).map Prod.fst)
  | .progress attempt phase => settle s (pairingProgress attempt phase s)
  | .complete attempt creds saves => settle s (completePairing attempt creds saves s)
  | .failed attempt => failPairing attempt s
  | .cancel => cancelPairing s
  | .unpair removes => (unpair removes s).1
  | .rekey expected updated saves => settle s ((replaceCredentialsIfCurrent expected updated saves s).map Prod.fst)
  | .revoke expected removes => (handleRemoteRevoke expected removes s).1
  | .restart reads => bootstrapLoadCredentials reads s

def step (s : CloudState κ) (a : Act κ) : Option (CloudState κ) := some (perform s a)

/-- The first start on a device with some file. -/
def boot (file : CredentialsFile κ) (reads : Bool) : CloudState κ :=
  bootstrapLoadCredentials reads ⟨file, none, none, 0, ⟨.idle, none⟩⟩

/-- An unpair or a revocation that completes. -/
def SignsOff (s : CloudState κ) : Act κ → Prop
  | .unpair removes => (unpair removes s).2.isOk = true
  | .revoke expected removes => (handleRemoteRevoke expected removes s).2 = true
  | _ => False

/-- A pairing that completes. -/
def Pairs (s : CloudState κ) : Act κ → Prop
  | .complete attempt creds saves => (completePairing attempt creds saves s).isOk = true
  | _ => False

/-- **The removal removes the file**: an unpair is not asked for while the start could not read credentials that are
there, and the file of a revoked pairing can be deleted. -/
def Careful (s : CloudState κ) : Act κ → Prop
  | .unpair _ => s.creds = none → ∀ creds, s.file ≠ .holds creds
  | .revoke expected removes => s.creds = some expected → removes = true
  | _ => True

/-! ## What a call can do -/

/-- What a call makes of the attempts. -/
inductive Attempts (s t : CloudState κ) : Prop where
  | same (active : t.active = s.active) (begun : t.begun = s.begun)
  | over (active : t.active = none) (begun : t.begun = s.begun)
  | fresh (active : t.active = some s.begun) (begun : t.begun = s.begun + 1) (creds : t.creds = none)

/-- What a call makes of the credentials. -/
inductive Credentials (s : CloudState κ) (a : Act κ) (t : CloudState κ) : Prop where
  | same (creds : t.creds = s.creds) (file : t.file = s.file)
  | paired (pairs : Pairs s a) (creds : κ) (memory : t.creds = some creds) (file : t.file = .holds creds)
      (active : t.active = none)
  | rekeyed (old new : κ) (before : s.creds = some old) (memory : t.creds = some new) (file : t.file = .holds new)
  | removed (before : s.creds.isSome = true) (memory : t.creds = none) (file : t.file = .absent)
  | forgotten (expected : κ) (removal : a = .revoke expected false) (before : s.creds = some expected)
      (memory : t.creds = none) (file : t.file = s.file)
  | loaded (reads : Bool) (memory : t.creds = s.file.load reads) (file : t.file = s.file) (active : t.active = none)

omit [DecidableEq κ] in
theorem secureDelete_eq_some {removes : Bool} {file file' : CredentialsFile κ}
    (h : secureDelete removes file = some file') : file' = .absent := by
  unfold secureDelete at h
  split at h
  · exact (Option.some.inj h).symm
  all_goals
    split_ifs at h
    exact (Option.some.inj h).symm

omit [DecidableEq κ] in
theorem secureDelete_eq_none {removes : Bool} {file : CredentialsFile κ} (h : secureDelete removes file = none) :
    removes = false := by
  cases removes with
  | false => rfl
  | true => cases file <;> exact absurd h (by simp [secureDelete])

omit [DecidableEq κ] in
theorem cancelPairing_creds (s : CloudState κ) :
    (cancelPairing s).creds = s.creds ∧ (cancelPairing s).file = s.file := by
  unfold cancelPairing
  split <;> exact ⟨rfl, rfl⟩

omit [DecidableEq κ] in
theorem cancelPairing_attempts (s : CloudState κ) :
    (cancelPairing s).active = none ∧ (cancelPairing s).begun = s.begun := by
  unfold cancelPairing
  split
  · exact ⟨rfl, rfl⟩
  · rename_i hactive
    exact ⟨Option.not_isSome_iff_eq_none.mp hactive, rfl⟩

theorem attempts_perform (s : CloudState κ) (a : Act κ) : Attempts s (perform s a) := by
  cases a with
  | beginPairing =>
    simp only [perform, beginPairing]
    split_ifs with hcreds
    · exact .same rfl rfl
    · exact .same rfl rfl
    · exact .fresh rfl rfl (Option.not_isSome_iff_eq_none.mp hcreds)
  | progress attempt phase =>
    simp only [perform, pairingProgress]
    split_ifs <;> exact .same rfl rfl
  | complete attempt creds saves =>
    simp only [perform, completePairing]
    split_ifs
    · exact .same rfl rfl
    · exact .over rfl rfl
    · exact .same rfl rfl
  | failed attempt =>
    simp only [perform, failPairing]
    split_ifs
    · exact .same rfl rfl
    · exact .over rfl rfl
  | cancel => exact .over (cancelPairing_attempts s).1 (cancelPairing_attempts s).2
  | unpair removes =>
    obtain ⟨hactive, hbegun⟩ := cancelPairing_attempts s
    simp only [perform, unpair]
    split
    · split <;> exact .over hactive hbegun
    · exact .over hactive hbegun
  | rekey expected updated saves =>
    simp only [perform, replaceCredentialsIfCurrent]
    split_ifs <;> exact .same rfl rfl
  | revoke expected removes =>
    simp only [perform, handleRemoteRevoke]
    split_ifs <;> exact .same rfl rfl
  | restart reads => exact .over rfl rfl

theorem credentials_perform (s : CloudState κ) (a : Act κ) : Credentials s a (perform s a) := by
  cases a with
  | beginPairing =>
    simp only [perform, beginPairing]
    split_ifs <;> exact .same rfl rfl
  | progress attempt phase =>
    simp only [perform, pairingProgress]
    split_ifs <;> exact .same rfl rfl
  | complete attempt creds saves =>
    simp only [perform]
    cases hcomplete : completePairing attempt creds saves s with
    | error e => exact .same rfl rfl
    | ok t =>
      have hpairs : Pairs s (.complete attempt creds saves) := by
        rw [Pairs, hcomplete]
        rfl
      unfold completePairing at hcomplete
      split_ifs at hcomplete
      obtain rfl := Except.ok.inj hcomplete
      exact .paired hpairs creds rfl rfl rfl
  | failed attempt =>
    simp only [perform, failPairing]
    split_ifs <;> exact .same rfl rfl
  | cancel => exact .same (cancelPairing_creds s).1 (cancelPairing_creds s).2
  | unpair removes =>
    obtain ⟨hcreds, hfile⟩ := cancelPairing_creds s
    simp only [perform, unpair]
    split
    · rename_i hsome
      split
      · exact .same hcreds hfile
      · rename_i file hdelete
        exact .removed (hcreds ▸ hsome) rfl (secureDelete_eq_some hdelete)
    · rename_i hnone
      rw [hcreds] at hnone
      exact .same (Option.not_isSome_iff_eq_none.mp hnone).symm hfile
  | rekey expected updated saves =>
    simp only [perform, replaceCredentialsIfCurrent]
    split_ifs with hexpected hsaves
    · exact .same rfl rfl
    · exact .rekeyed expected updated (not_not.mp hexpected) rfl rfl
    · exact .same rfl rfl
  | revoke expected removes =>
    simp only [perform, handleRemoteRevoke]
    split_ifs with hexpected
    · exact .same rfl rfl
    · have hbefore : s.creds = some expected := not_not.mp hexpected
      cases hdelete : secureDelete removes s.file with
      | none =>
        rw [secureDelete_eq_none hdelete]
        exact .forgotten expected rfl hbefore rfl rfl
      | some file => exact .removed (by rw [hbefore]; rfl) rfl (secureDelete_eq_some hdelete)
  | restart reads => exact .loaded reads rfl rfl rfl

/-! ## What every run keeps -/

/-- **The invariant.** An attempt runs only while nothing is paired, and the file has what is in memory. -/
structure Paired (s : CloudState κ) : Prop where
  number : ∀ a ∈ s.active, a < s.begun
  alone : ∀ c ∈ s.creds, s.active = none
  stored : ∀ c ∈ s.creds, s.file = .holds c

omit [DecidableEq κ] in
theorem load_eq_some {reads : Bool} {file : CredentialsFile κ} {c : κ} (h : file.load reads = some c) :
    file = .holds c := by
  unfold CredentialsFile.load at h
  split at h
  · split_ifs at h
    rw [Option.some.inj h]
  all_goals exact absurd h (by simp)

omit [DecidableEq κ] in
theorem load_eq_none {file : CredentialsFile κ} (h : ∀ c, file ≠ .holds c) (reads : Bool) : file.load reads = none := by
  cases hload : file.load reads with
  | none => rfl
  | some c => exact absurd (load_eq_some hload) (h c)

omit [DecidableEq κ] in
theorem paired_boot (file : CredentialsFile κ) (reads : Bool) : Paired (boot file reads) :=
  ⟨fun a ha => absurd ha (by simp [boot, bootstrapLoadCredentials]), fun _ _ => rfl, fun _ hc => load_eq_some hc⟩

/-- One call. -/
theorem Paired.perform {s : CloudState κ} (hs : Paired s) (a : Act κ) : Paired (perform s a) := by
  have hattempts := attempts_perform s a
  have hcredentials := credentials_perform s a
  refine ⟨?_, ?_, ?_⟩
  · intro n hn
    rcases hattempts with ⟨hactive, hbegun⟩ | ⟨hactive, -⟩ | ⟨hactive, hbegun, -⟩
    · rw [hbegun]
      exact hs.number n (hactive ▸ hn)
    · rw [hactive] at hn
      exact absurd hn (by simp)
    · rw [hactive] at hn
      rw [hbegun, ← Option.some.inj hn]
      exact Nat.lt_succ_self s.begun
  · intro c hc
    rcases hattempts with ⟨hactive, -⟩ | ⟨hactive, -⟩ | ⟨-, -, hnone⟩
    · -- the attempts stay as they are, so only a pairing could have brought credentials to an active one
      cases hcredentials with
      | same hcreds _ => rw [hactive, hs.alone c (hcreds ▸ hc)]
      | paired _ _ _ _ hover => exact hover
      | rekeyed old _ hold _ _ => rw [hactive, hs.alone old hold]
      | removed _ hnone _ => exact absurd (hnone ▸ hc) (by simp)
      | forgotten _ _ _ hnone _ => exact absurd (hnone ▸ hc) (by simp)
      | loaded _ _ _ hover => exact hover
    · exact hactive
    · exact absurd (hnone ▸ hc) (by simp)
  · intro c hc
    cases hcredentials with
    | same hcreds hfile => rw [hfile, hs.stored c (hcreds ▸ hc)]
    | paired _ _ hmemory hfile _ => rw [hfile, Option.some.inj (hmemory.symm.trans hc)]
    | rekeyed _ _ _ hmemory hfile => rw [hfile, Option.some.inj (hmemory.symm.trans hc)]
    | removed _ hnone _ => exact absurd (hnone ▸ hc) (by simp)
    | forgotten _ _ _ hnone _ => exact absurd (hnone ▸ hc) (by simp)
    | loaded reads hmemory hfile _ => rw [hfile, load_eq_some (hmemory.symm.trans hc)]

theorem paired_of_reaches {ok : CloudState κ → Act κ → Prop} {s t : CloudState κ} (hs : Paired s)
    (h : Reaches step ok s t) : Paired t := by
  refine h.invariant hs fun t a u ht _ hstep => ?_
  rw [← Option.some.inj hstep]
  exact ht.perform a

/-! ## Attempts that are over -/

/-- **An attempt that is over**: it was cancelled, it failed, it completed or the process started anew. -/
def Over (s : CloudState κ) (attempt : Nat) : Prop := attempt < s.begun ∧ s.active ≠ some attempt

theorem Over.perform {s : CloudState κ} {attempt : Nat} (h : Over s attempt) (a : Act κ) :
    Over (perform s a) attempt := by
  rcases attempts_perform s a with ⟨hactive, hbegun⟩ | ⟨hactive, hbegun⟩ | ⟨hactive, hbegun, -⟩
  · exact ⟨hbegun ▸ h.1, hactive ▸ h.2⟩
  · exact ⟨hbegun ▸ h.1, by rw [hactive]; simp⟩
  · refine ⟨by rw [hbegun]; exact Nat.lt_succ_of_lt h.1, ?_⟩
    rw [hactive]
    exact fun heq => absurd (Option.some.inj heq) (by have := h.1; omega)

theorem over_of_reaches {ok : CloudState κ → Act κ → Prop} {s t : CloudState κ} {attempt : Nat} (hs : Over s attempt)
    (h : Reaches step ok s t) : Over t attempt := by
  refine @Reaches.invariant _ _ step ok s t (fun t => Over t attempt) h hs fun t a u ht _ hstep => ?_
  rw [← Option.some.inj hstep]
  exact ht.perform a

omit [DecidableEq κ] in
theorem completePairing_of_ne {s : CloudState κ} {attempt : Nat} (h : s.active ≠ some attempt) (creds : κ)
    (saves : Bool) : ∃ e, completePairing attempt creds saves s = .error e :=
  ⟨_, if_pos (Or.inr h)⟩

/-! ## Signed off -/

/-- **Signed off**: no credentials in memory, and none that a start could load. -/
def SignedOff (s : CloudState κ) : Prop := s.creds = none ∧ ∀ c, s.file ≠ .holds c

/-- Only a pairing ends it. -/
theorem SignedOff.perform {s : CloudState κ} (h : SignedOff s) {a : Act κ} (ha : ¬ Pairs s a) :
    SignedOff (perform s a) := by
  obtain ⟨hnone, hfile⟩ := h
  cases credentials_perform s a with
  | same hcreds hsame => exact ⟨hcreds.trans hnone, by rw [hsame]; exact hfile⟩
  | paired hpairs _ _ _ _ => exact absurd hpairs ha
  | rekeyed _ _ hbefore _ _ => exact absurd (hnone ▸ hbefore) (by simp)
  | removed hbefore _ _ => exact absurd hbefore (by simp [hnone])
  | forgotten _ _ hbefore _ _ => exact absurd (hnone ▸ hbefore) (by simp)
  | loaded reads hmemory hsame _ => exact ⟨hmemory.trans (load_eq_none hfile reads), by rw [hsame]; exact hfile⟩

/-- A removal that removes the file signs off. -/
theorem signedOff_of_signsOff {s : CloudState κ} {a : Act κ} (hcareful : Careful s a) (ha : SignsOff s a) :
    SignedOff (perform s a) := by
  cases a with
  | unpair removes =>
    obtain ⟨hcreds, hfile⟩ := cancelPairing_creds s
    simp only [SignsOff, unpair] at ha
    simp only [Pairing.perform, unpair]
    split
    · rename_i hsome
      rw [if_pos hsome] at ha
      split
      · rename_i hdelete
        simp only [hdelete] at ha
        exact absurd ha Bool.false_ne_true
      · rename_i file hdelete
        refine ⟨rfl, fun c => ?_⟩
        rw [secureDelete_eq_some hdelete]
        simp
    · -- nothing in memory: there was nothing to load either
      rename_i hnone
      refine ⟨rfl, fun c => ?_⟩
      rw [hcreds] at hnone
      dsimp only
      rw [hfile]
      exact hcareful (Option.not_isSome_iff_eq_none.mp hnone) c
  | revoke expected removes =>
    have hbefore : s.creds = some expected := by
      by_contra hne
      simp [SignsOff, handleRemoteRevoke, hne] at ha
    have hremoves : removes = true := hcareful hbefore
    simp only [Pairing.perform, handleRemoteRevoke, if_neg (not_not.mpr hbefore), hremoves]
    refine ⟨rfl, fun c => ?_⟩
    cases s.file <;> simp [secureDelete]
  | beginPairing | progress _ _ | complete _ _ _ | failed _ | cancel | rekey _ _ _ | restart _ => exact absurd ha id

theorem signedOff_of_reaches {ok : CloudState κ → Act κ → Prop} {s t : CloudState κ} (hs : SignedOff s)
    (h : Reaches step (fun s a => ok s a ∧ ¬ Pairs s a) s t) : SignedOff t := by
  refine h.invariant hs fun t a u ht hok hstep => ?_
  rw [← Option.some.inj hstep]
  exact ht.perform hok.2

/-! ## Safety -/

/-- **The pairing lifecycle is safe** where removals remove the file. While an attempt is active no other can begin,
progress or complete; an attempt that is over never installs credentials; an answer to a request sent under other
credentials than those in memory changes nothing; and after an unpair or a revocation nothing but a new pairing brings
credentials back, a restart included. -/
theorem pairing_safe (file : CredentialsFile κ) (reads : Bool) {s : CloudState κ}
    (h : Reaches step Careful (boot file reads) s) :
    (∀ attempt, s.active = some attempt → (∃ e, beginPairing s = .error e) ∧ ∀ other ≠ attempt, ∀ phase creds saves,
        (∃ e, pairingProgress other phase s = .error e) ∧ ∃ e, completePairing other creds saves s = .error e)
      ∧ (∀ attempt, Over s attempt → ∀ t, Reaches step Careful s t → ∀ creds saves,
        ∃ e, completePairing attempt creds saves t = .error e)
      ∧ (∀ sent, s.creds ≠ some sent → ∀ updated saves removes,
        perform s (.rekey sent updated saves) = s ∧ perform s (.revoke sent removes) = s)
      ∧ ∀ a, Careful s a → SignsOff s a → ∀ t, Reaches step (fun s a => Careful s a ∧ ¬ Pairs s a) (perform s a) t →
        t.creds = none := by
  have hs := paired_of_reaches (paired_boot file reads) h
  refine ⟨fun attempt hactive => ⟨?_, fun other hother phase creds saves => ⟨?_, ?_⟩⟩, ?_, ?_, ?_⟩
  · have hsome : s.active.isSome = true := by rw [hactive]; rfl
    by_cases hcreds : s.creds.isSome
    · exact ⟨_, if_pos hcreds⟩
    · exact ⟨_, (if_neg hcreds).trans (if_pos hsome)⟩
  · have hne : s.active ≠ some other := by
      rw [hactive]
      exact fun heq => hother (Option.some.inj heq).symm
    by_cases hcreds : s.creds.isSome
    · exact ⟨_, if_pos hcreds⟩
    · exact ⟨_, (if_neg hcreds).trans (if_pos hne)⟩
  · refine completePairing_of_ne ?_ creds saves
    rw [hactive]
    exact fun heq => hother (Option.some.inj heq).symm
  · intro attempt hover t ht creds saves
    exact completePairing_of_ne (over_of_reaches hover ht).2 creds saves
  · intro sent hsent updated saves removes
    simp only [perform, replaceCredentialsIfCurrent, handleRemoteRevoke, if_pos hsent]
    exact ⟨rfl, trivial⟩
  · intro a hcareful ha t ht
    exact (signedOff_of_reaches (signedOff_of_signsOff hcareful ha) ht).1

/-- A device paired with the credentials 7, and unpaired. -/
theorem unpaired_device_stays_unpaired :
    (perform (perform (perform (boot (.holds 7) true) (.unpair true)) (.restart true)) .beginPairing).creds = none := by
  have hsafe := (pairing_safe (.holds 7) true .refl).2.2.2 (.unpair true)
    (fun hnone => absurd hnone (by decide)) rfl
  have hrestart : Reaches step (fun s a => Careful s a ∧ ¬ Pairs s a) (perform (boot (.holds 7) true) (.unpair true))
      (perform (perform (boot (.holds 7) true) (.unpair true)) (.restart true)) :=
    .tail (.restart true) .refl ⟨trivial, id⟩ rfl
  exact hsafe _ (hrestart.tail .beginPairing ⟨trivial, id⟩ rfl)

/-- **A restart comes back paired**: after an unpair that was asked for while the credentials could not be read, and
after a revocation whose file could not be removed. -/
theorem restart_comes_back_paired :
    (SignsOff (boot (.holds 7) false) (.unpair true)
        ∧ (perform (perform (boot (.holds 7) false) (.unpair true)) (.restart true)).creds = some 7)
      ∧ SignsOff (boot (.holds 7) true) (.revoke 7 false)
        ∧ (perform (perform (boot (.holds 7) true) (.revoke 7 false)) (.restart true)).creds = some 7 := by
  exact ⟨⟨rfl, rfl⟩, rfl, rfl⟩

end SentryUsb.Sync.Pairing
