import SentryUsb.Library.Chronicle
import SentryUsb.Library.TextLines
import SentryUsb.Library.TransitionSystem

/-! # Skipping a backup that changes nothing

A backup of the settings is skipped when its digest is the one kept from the last backup. The digest is taken over the
settings one after another, with nothing between them (`backup.rs`).

* **`BackupData.stream`** — the bytes that are digested; **`backupHash`** — their hash (`compute_backup_hash`);
* **`createBackup`** — one request (`create_backup`), and what requests leave in the file with the last hash;
* **`BackupData.pieces_eq_iff`** — the pieces of the stream determine the settings;
* **`skips_only_unchanged`** — the hash tells settings apart unless text moves from one piece to the next, and in runs without
such a move a backup that is skipped holds what the last one holds. -/

namespace SentryUsb.Api.ConfigBackup

open Library

/-- A string: the bytes of its UTF-8 form, by which it is compared and digested. -/
abbrev Utf8 := List UInt8

/-! ## Settings -/

/-- What a backup holds (`BackupData`). The preferences are listed in the order of the hash map, whatever that is. -/
structure BackupData where
  version : Nat
  date : Utf8
  timestamp : Utf8
  hostname : Utf8
  config : Utf8
  preferences : AList fun _ : Utf8 => Utf8
  driveDataIncluded : Bool
  sshPrivateKey : Utf8
  sshPublicKey : Utf8
  rcloneConfig : Utf8
  blePrivateKey : Utf8
  blePublicKey : Utf8
  notificationCredentials : Utf8

/-- The keys in order (`keys.sort()`). -/
def sortedKeys (p : AList fun _ : Utf8 => Utf8) : List Utf8 := p.keys.insertionSort (· ≤ ·)

/-- Keys and values, one after another. -/
def keyed (p : AList fun _ : Utf8 => Utf8) (keys : List Utf8) : List Utf8 :=
  keys.flatMap fun k => k :: (p.lookup k).toList

/-- What is fed into the digest behind the preferences. -/
def BackupData.secrets (d : BackupData) : List Utf8 :=
  [d.sshPrivateKey, d.sshPublicKey, d.rcloneConfig, d.blePrivateKey, d.blePublicKey, d.notificationCredentials]

/-- What is fed into the digest, piece by piece. -/
def BackupData.pieces (d : BackupData) : List Utf8 :=
  d.config :: (keyed d.preferences (sortedKeys d.preferences) ++ d.secrets)

/-- The bytes that are digested. -/
def BackupData.stream (d : BackupData) : Utf8 := d.pieces.flatten

/-- Where the stream is cut into pieces. -/
def BackupData.cuts (d : BackupData) : List Nat := d.pieces.map List.length

/-- A byte in two lower-case hexadecimal digits. -/
def hexByte (b : UInt8) : List Char := [Nat.digitChar (b.toNat / 16), Nat.digitChar (b.toNat % 16)]

/-- The hash of the settings, given the digest of a byte string (`compute_backup_hash`). -/
def backupHash (sha256 : Utf8 → Utf8) (d : BackupData) : List Char := (sha256 d.stream).flatMap hexByte

/-- The settings are the same. The date, the host and whether drive data were shipped are none of them. -/
structure BackupData.Same (d e : BackupData) : Prop where
  config : d.config = e.config
  preferences : ∀ k, d.preferences.lookup k = e.preferences.lookup k
  secrets : d.secrets = e.secrets

/-! ## Requests -/

/-- What became of a request. -/
inductive Outcome where
  /-- The configuration could not be read. -/
  | unreadable
  | skipped (data : BackupData)
  | failed (data : BackupData)
  | written (data : BackupData)

/-- The service: the file with the last hash, and what became of the requests, the newest first. -/
structure Service where
  lastHash : Option (List Char)
  log : List Outcome

/-- A request: whether it is forced, the settings it reads, whether the primary copy is written, and what an error at writing
the file with the hash leaves in it. -/
structure Request where
  force : Bool
  data : Option BackupData
  primaryWritten : Bool
  hashError : Option (Option (List Char))

/-- The hash of the last backup; empty when there is none to read (`read_last_hash`). -/
def readLastHash (file : Option (List Char)) : List Char := (file.map trim).getD []

/-- The file with the hash, after it was written (`write_last_hash`); errors are not looked at. -/
def writeLastHash (hash : List Char) (error : Option (Option (List Char))) : Option (List Char) :=
  error.getD (some (hash ++ ['\n']))

/-- One request (`create_backup`). Without a primary copy the hash stays. -/
def createBackup (sha256 : Utf8 → Utf8) (s : Service) (r : Request) : Service :=
  match r.data with
  | none => { s with log := .unreadable :: s.log }
  | some data =>
    let hash := backupHash sha256 data
    if r.force = false ∧ hash = readLastHash s.lastHash ∧ hash ≠ [] then { s with log := .skipped data :: s.log }
    else if r.primaryWritten = false then { s with log := .failed data :: s.log }
    else { lastHash := writeLastHash hash r.hashError, log := .written data :: s.log }

/-- Requests, one after another. -/
def step (sha256 : Utf8 → Utf8) (s : Service) (r : Request) : Option Service := some (createBackup sha256 s r)

/-- Before the first backup. -/
def start : Service := ⟨none, []⟩

/-- The settings of the last backup that was written. -/
def lastWritten : List Outcome → Option BackupData
  | [] => none
  | .written data :: _ => some data
  | _ :: log => lastWritten log

/-- A request is skipped only if the last backup holds the same settings. -/
def Unchanged : Outcome → List Outcome → Prop
  | .skipped data, past => ∃ last, lastWritten past = some last ∧ last.Same data
  | _, _ => True

/-- A request whose settings do not run together to the stream of the last backup with other cuts, and whose hash is
written. -/
def Clean (s : Service) (r : Request) : Prop :=
  (∀ data last, r.data = some data → lastWritten s.log = some last → last.stream = data.stream → last.cuts = data.cuts) ∧
    r.hashError = none

variable {sha256 : Utf8 → Utf8} {a b d : BackupData} {p q : AList fun _ : Utf8 => Utf8}

/-! ## Pieces -/

/-- The keys of two maps with the same entries come in the same order. -/
theorem sortedKeys_congr (h : ∀ k, p.lookup k = q.lookup k) : sortedKeys p = sortedKeys q := by
  have hperm : p.keys.Perm q.keys := (List.perm_ext_iff_of_nodup p.keys_nodup q.keys_nodup).mpr fun k => by
    rw [← AList.mem_keys, ← AList.mem_keys, ← AList.lookup_isSome, ← AList.lookup_isSome, h k]
  have hanti : ∀ k l : Utf8, k ∈ sortedKeys p → l ∈ sortedKeys q → k ≤ l → l ≤ k → k = l := fun k l _ _ => Std.Antisymm.antisymm k l
  refine List.Perm.eq_of_pairwise hanti
    (List.pairwise_insertionSort _ _) (List.pairwise_insertionSort _ _) ?_
  exact (List.perm_insertionSort _ _).trans (hperm.trans (List.perm_insertionSort _ _).symm)

theorem mem_sortedKeys {k : Utf8} : k ∈ sortedKeys p ↔ k ∈ p := by
  rw [sortedKeys, List.mem_insertionSort, AList.mem_keys]

/-- Lists of present keys with the same keys and values are the same lists of keys, with the same values. -/
theorem keyed_inj : ∀ {ks ls : List Utf8}, (∀ k ∈ ks, k ∈ p) → (∀ l ∈ ls, l ∈ q) → keyed p ks = keyed q ls →
    ks = ls ∧ ∀ k ∈ ks, p.lookup k = q.lookup k
  | [], [], _, _, _ => ⟨rfl, fun _ hk => by cases hk⟩
  | [], l :: ls, _, _, h => by simp [keyed] at h
  | k :: ks, [], _, _, h => by simp [keyed] at h
  | k :: ks, l :: ls, hks, hls, h => by
    obtain ⟨v, hv⟩ := Option.isSome_iff_exists.mp (AList.lookup_isSome.mpr (hks k (by simp)))
    obtain ⟨w, hw⟩ := Option.isSome_iff_exists.mp (AList.lookup_isSome.mpr (hls l (by simp)))
    have hsplit : k :: v :: keyed p ks = l :: w :: keyed q ls := by
      simpa only [keyed, List.flatMap_cons, hv, hw, Option.toList_some, List.cons_append, List.nil_append] using h
    obtain ⟨rfl, hbehind⟩ := List.cons.inj hsplit
    obtain ⟨hvalue, hrest⟩ := List.cons.inj hbehind
    obtain ⟨rfl, hsame⟩ := keyed_inj (fun m hm => hks m (List.mem_cons_of_mem _ hm))
      (fun m hm => hls m (List.mem_cons_of_mem _ hm)) hrest
    refine ⟨rfl, fun m hm => ?_⟩
    rcases List.mem_cons.mp hm with rfl | hm
    · rw [hv, hw, hvalue]
    · exact hsame m hm

/-- The pieces of the stream are the settings. -/
theorem BackupData.pieces_eq_iff : a.pieces = b.pieces ↔ a.Same b := by
  constructor
  · intro h
    obtain ⟨hconfig, hrest⟩ := List.cons.inj h
    obtain ⟨hkeyed, hsecrets⟩ := List.append_inj' hrest rfl
    obtain ⟨hkeys, hvalues⟩ := keyed_inj (fun _ => mem_sortedKeys.mp) (fun _ => mem_sortedKeys.mp) hkeyed
    refine ⟨hconfig, fun k => ?_, hsecrets⟩
    by_cases hk : k ∈ sortedKeys a.preferences
    · exact hvalues k hk
    · -- a key of neither map
      have hk' : k ∉ sortedKeys b.preferences := hkeys ▸ hk
      rw [mem_sortedKeys, ← AList.lookup_eq_none] at hk hk'
      rw [hk, hk']
  · intro h
    have hkeyed : keyed a.preferences (sortedKeys a.preferences) = keyed b.preferences (sortedKeys b.preferences) := by
      rw [sortedKeys_congr h.preferences, keyed, keyed]
      exact congrArg (List.flatMap · _) (funext fun k => by rw [h.preferences k])
    rw [pieces, pieces, h.config, hkeyed, h.secrets]

theorem BackupData.stream_cuts_iff : a.stream = b.stream ∧ a.cuts = b.cuts ↔ a.Same b :=
  List.eq_iff_flatten_eq.symm.trans pieces_eq_iff

/-! ## Hashes -/

theorem digitChar_inj : ∀ m < 16, ∀ n < 16, Nat.digitChar m = Nat.digitChar n → m = n := by decide

theorem isWhitespace_digitChar : ∀ n < 16, isWhitespace (Nat.digitChar n) = false := by decide

theorem hexByte_injective : Function.Injective hexByte := by
  intro x y h
  obtain ⟨hhigh, hrest⟩ := List.cons.inj h
  have hx := x.toNat_lt
  have hy := y.toNat_lt
  have hdiv := digitChar_inj _ (by omega) _ (by omega) hhigh
  have hmod := digitChar_inj _ (by omega) _ (by omega) (List.cons.inj hrest).1
  exact UInt8.toNat_inj.mp (by omega)

/-- Digests are read off their hexadecimal digits, two digits for each byte. -/
theorem hex_injective : Function.Injective fun bytes : Utf8 => bytes.flatMap hexByte := by
  intro x
  induction x with
  | nil =>
    intro y h
    cases y with
    | nil => rfl
    | cons c y => exact nomatch h
  | cons c x ih =>
    intro y h
    cases y with
    | nil => exact nomatch h
    | cons e y =>
      have happend : hexByte c ++ x.flatMap hexByte = hexByte e ++ y.flatMap hexByte := h
      obtain ⟨hbyte, hrest⟩ := List.append_inj happend rfl
      rw [hexByte_injective hbyte, ih hrest]

theorem backupHash_eq_iff (hsha : Function.Injective sha256) :
    backupHash sha256 a = backupHash sha256 b ↔ a.stream = b.stream :=
  (hex_injective.comp hsha).eq_iff

theorem BackupData.Same.backupHash_eq (h : a.Same b) (sha256 : Utf8 → Utf8) : backupHash sha256 a = backupHash sha256 b := by
  rw [backupHash, backupHash, (stream_cuts_iff.mpr h).1]

theorem same_of_hash_iff (hsha : Function.Injective sha256) :
    (backupHash sha256 a = backupHash sha256 b → a.Same b) ↔ (a.stream = b.stream → a.cuts = b.cuts) := by
  rw [backupHash_eq_iff hsha, ← BackupData.stream_cuts_iff]
  exact ⟨fun h hstream => (h hstream).2, fun h hstream => ⟨hstream, h hstream⟩⟩

theorem isWhitespace_backupHash {c : Char} (hc : c ∈ backupHash sha256 d) : isWhitespace c = false := by
  obtain ⟨byte, -, hbyte⟩ := List.mem_flatMap.mp hc
  have hlt := byte.toNat_lt
  rcases List.mem_pair.mp hbyte with rfl | rfl
  · exact isWhitespace_digitChar _ (by omega)
  · exact isWhitespace_digitChar _ (by omega)

theorem readLastHash_written (sha256 : Utf8 → Utf8) (d : BackupData) :
    readLastHash (writeLastHash (backupHash sha256 d) none) = backupHash sha256 d := by
  have hnewline : isWhitespace '\n' = true := by decide
  rw [readLastHash, writeLastHash, Option.getD_none, Option.map_some, Option.getD_some, trim_concat_blank hnewline]
  exact trim_eq_self fun c => isWhitespace_backupHash

/-! ## Runs -/

/-- The file holds the hash of the last backup. -/
structure Inv (sha256 : Utf8 → Utf8) (s : Service) : Prop where
  kept : s.lastHash = (lastWritten s.log).map fun last => backupHash sha256 last ++ ['\n']
  chronicle : Chronicle Unchanged s.log

/-- A hash that is not empty is in the file only if it is the one of the last backup. -/
theorem Inv.exists_lastWritten {s : Service} (h : Inv sha256 s) (hhash : backupHash sha256 d = readLastHash s.lastHash)
    (hne : backupHash sha256 d ≠ []) :
    ∃ last, lastWritten s.log = some last ∧ backupHash sha256 last = backupHash sha256 d := by
  cases hlast : lastWritten s.log with
  | none =>
    rw [h.kept, hlast] at hhash
    exact absurd hhash hne
  | some last =>
    rw [h.kept, hlast, Option.map_some] at hhash
    exact ⟨last, rfl, ((readLastHash_written sha256 last).symm.trans hhash.symm)⟩

/-- A request keeps the hash in step with the last backup, and is skipped only over the same settings. -/
theorem Inv.createBackup (hsha : Function.Injective sha256) {s : Service} {r : Request} (h : Inv sha256 s)
    (hclean : Clean s r) : Inv sha256 (createBackup sha256 s r) := by
  obtain ⟨hcuts, herror⟩ := hclean
  rw [ConfigBackup.createBackup]
  cases hdata : r.data with
  | none => exact ⟨h.kept, trivial, h.chronicle⟩
  | some data =>
    dsimp only
    split
    · next hskip =>
      obtain ⟨-, hhash, hne⟩ := hskip
      obtain ⟨last, hlast, heq⟩ := h.exists_lastWritten hhash hne
      refine ⟨h.kept, ⟨last, hlast, ?_⟩, h.chronicle⟩
      exact (same_of_hash_iff hsha).mpr (hcuts data last hdata hlast) heq
    · split
      · exact ⟨h.kept, trivial, h.chronicle⟩
      · refine ⟨?_, trivial, h.chronicle⟩
        rw [herror]
        rfl

theorem Inv.reaches (hsha : Function.Injective sha256) {s : Service} (h : Reaches (step sha256) Clean start s) :
    Inv sha256 s :=
  h.invariant ⟨rfl, chronicle_nil⟩ fun _ _ _ hinv hclean htaken => Option.some.inj htaken ▸ hinv.createBackup hsha hclean

/-- Without collisions of the digest: the hash tells two settings apart exactly if their streams are not the same bytes cut in
two ways, the same settings have one hash, and in runs whose requests have no such settings and write their hash, a request
is skipped only if the last backup holds the same settings. -/
theorem skips_only_unchanged (hsha : Function.Injective sha256) :
    (∀ a b, (backupHash sha256 a = backupHash sha256 b → a.Same b) ↔ (a.stream = b.stream → a.cuts = b.cuts)) ∧
      (∀ a b, a.Same b → backupHash sha256 a = backupHash sha256 b) ∧
        ∀ s, Reaches (step sha256) Clean start s → Chronicle Unchanged s.log :=
  ⟨fun _ _ => same_of_hash_iff hsha, fun _ _ h => h.backupHash_eq sha256, fun _ h => (Inv.reaches hsha h).chronicle⟩

/-- Settings with some preferences and nothing else. -/
def withPreferences (p : AList fun _ : Utf8 => Utf8) : BackupData where
  version := 1
  date := []
  timestamp := []
  hostname := []
  config := [35]
  preferences := p
  driveDataIncluded := false
  sshPrivateKey := []
  sshPublicKey := []
  rcloneConfig := []
  blePrivateKey := []
  blePublicKey := []
  notificationCredentials := []

/-- A request that is not forced, and what it writes is written. -/
def unforced (p : AList fun _ : Utf8 => Utf8) : Request := ⟨false, some (withPreferences p), true, none⟩

/-- Two preferences, in the two orders a map may list them. -/
def aThenB : AList fun _ : Utf8 => Utf8 := (AList.singleton [98] [50]).insert [97] [49]

def bThenA : AList fun _ : Utf8 => Utf8 := (AList.singleton [97] [49]).insert [98] [50]

/-- A backup that is skipped because the map only lists the same preferences in another order. -/
theorem skips_only_unchanged_reordered :
    backupHash id (withPreferences aThenB) = backupHash id (withPreferences bThenA) ∧
      createBackup id (createBackup id start (unforced aThenB)) (unforced bThenA) =
        ⟨some (backupHash id (withPreferences aThenB) ++ ['\n']),
          [.skipped (withPreferences bThenA), .written (withPreferences aThenB)]⟩ ∧
      Chronicle Unchanged [.skipped (withPreferences bThenA), .written (withPreferences aThenB)] := by
  have hfirst : Clean start (unforced aThenB) := ⟨fun _ _ _ hlast => (nomatch hlast), rfl⟩
  have hsecond : Clean (createBackup id start (unforced aThenB)) (unforced bThenA) := by
    refine ⟨fun data last hdata hlast _ => ?_, rfl⟩
    obtain rfl := Option.some.inj hdata
    obtain rfl := Option.some.inj hlast
    rfl
  have hmain := skips_only_unchanged Function.injective_id
  refine ⟨hmain.2.1 _ _ ⟨rfl, fun k => AList.perm_lookup (List.Perm.swap _ _ _), rfl⟩, rfl, ?_⟩
  exact hmain.2.2 _ (.tail (unforced bThenA) (.tail (unforced aThenB) .refl hfirst rfl) hsecond rfl)

/-- The preference `ab = c` and the preference `a = bc`. -/
def abIsC : AList fun _ : Utf8 => Utf8 := AList.singleton [97, 98] [99]

def aIsBc : AList fun _ : Utf8 => Utf8 := AList.singleton [97] [98, 99]

/-- The two preferences have one hash, so the backup of the second is skipped. -/
theorem not_skips_only_unchanged :
    ¬ ∀ sha256 : Utf8 → Utf8, Function.Injective sha256 →
      (∀ a b, backupHash sha256 a = backupHash sha256 b → a.Same b) ∧
        ∀ requests s, run (step sha256) start requests = some s → Chronicle Unchanged s.log := by
  intro h
  obtain ⟨-, hruns⟩ := h id Function.injective_id
  obtain ⟨⟨last, hlast, hsame⟩, -⟩ := hruns [unforced abIsC, unforced aIsBc] _ rfl
  obtain rfl := Option.some.inj hlast
  exact absurd (hsame.preferences [97]) (by decide)

end SentryUsb.Api.ConfigBackup
