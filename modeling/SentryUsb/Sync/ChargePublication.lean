import SentryUsb.Sync.ConditionalCharge

/-! # No charge edit is lost

What every interleaving of the publication of one charging session keeps.

* **`Facts`**, **`Proc.Sound`** — the invariant: what the durable state says, and what the sweep
  knows at each of its points;
* **`Facts.settle`** — a confirmation loses no edit: what it retires was in the confirmed snapshot;
* **`Facts.deliver`** — the server applies an attempt at most once, and a ciphertext seen in the Cloud
  was applied;
* **`charge_edits_kept`** — every edit is queued, or in a proposal the Cloud applied, or was confirmed
  by a merge that changed nothing; nothing is applied twice; a confirmation keeps newer edits; a
  receipt goes with its own attempt only;
* **`charge_edit_retired_unpublished`** — an edit the Cloud already shows leaves without a proposal. -/

namespace SentryUsb.Sync.Charge

open Library

/-! ## Invariant -/

/-- The document of an attempt is the merge of its operations into the document it expects. -/
def Attempt.Merged (a : Attempt) : Prop :=
  mergeCharge a.edits (plaintext a.proposal.expected) = some a.proposal.ciphertext.doc

/-- A merge that leaves the record's document as it is. -/
def Unchanged (u : Snapshot × Record) : Prop :=
  u.1.merged (plaintext u.2.ciphertext) = some (plaintext u.2.ciphertext)

/-- An edit the Cloud has: merged into a proposal it applied, or part of a merge that changed nothing
in a record it returned. -/
def System.Published (s : System) (e : Int × ChargeEdit) : Prop :=
  (∃ a ∈ s.attempts, a.proposal ∈ s.writes ∧ a.Merged ∧ e ∈ a.edits)
    ∨ ∃ u ∈ s.unchanged, (u.1.upload.id, u.2) ∈ s.reads ∧ Unchanged u ∧ e ∈ u.1.edits

/-- An attempt that holds every queued operation of its generation. -/
def System.Owns (s : System) (a : Attempt) : Prop :=
  a ∈ s.attempts ∧ a.proposal.changedAt ≤ s.queue.clock
    ∧ s.queue.Covers a.proposal.changedAt a.edits

/-- What holds of the durable state, the Cloud and the messages. -/
structure Facts (s : System) : Prop where
  history : WriteHistory s.log s.writes
  responses : ∀ r ∈ s.responses, r ∈ s.log.outcomes
  requests : ∀ p ∈ s.requests, ∃ a ∈ s.attempts, a.proposal = p
  receipt : ∀ a, s.receipt = some a → s.Owns a
  merged : ∀ a ∈ s.attempts, a.Merged
  fresh : ∀ a ∈ s.attempts, a.proposal.ciphertext.nonce < s.nextNonce
  distinct : ∀ a ∈ s.attempts, ∀ b ∈ s.attempts,
    a.proposal.ciphertext.nonce = b.proposal.ciphertext.nonce → a = b
  cloudFresh : ∀ id r c, s.cloud id = some r → r.ciphertext = some c → c.nonce < s.nextNonce
  published : ∀ id r, ∀ a ∈ s.attempts, s.cloud id = some r →
    r.ciphertext = some a.proposal.ciphertext → a.proposal ∈ s.writes
  kept : ∀ e ∈ s.made, e ∈ s.queue.events ∨ s.Published e

/-- What the sweep knows at each point. -/
def Proc.Sound (s : System) : Proc → Prop
  | .idle | .listed _ | .vacant _ => True
  | .snapped through snap => through ≤ s.queue.clock ∧ s.queue.Covers through snap.edits
  | .fetched through snap remote =>
    through ≤ s.queue.clock ∧ s.queue.Covers through snap.edits
      ∧ ∀ r, remote = some r → (snap.upload.id, r) ∈ s.reads
  | .reserved a | .posted a | .recovering a | .reposted a => a ∈ s.attempts
  | .answered a applied | .reanswered a applied =>
    a ∈ s.attempts ∧ (a.proposal, applied) ∈ s.log.outcomes
  | .readBack a remote =>
    a ∈ s.attempts
      ∧ ∀ r, remote = some r → r.ciphertext = some a.proposal.ciphertext → a.proposal ∈ s.writes
  | .reread a _ => a ∈ s.attempts ∧ a.proposal ∈ s.writes

/-- The invariant. -/
def Inv (s : System) : Prop := Facts s ∧ s.proc.Sound s

/-- The generation a confirmation from this point retires. -/
def Proc.generation : Proc → Option Int
  | .fetched through _ _ => some through
  | .answered a _ | .readBack a _ | .reread a _ => some a.proposal.changedAt
  | _ => none

/-- The attempt this point is about. -/
def Proc.attempt : Proc → Option Attempt
  | .reserved a | .posted a | .answered a _ | .recovering a | .readBack a _ | .reposted a
  | .reanswered a _ | .reread a _ => some a
  | _ => none

/-- What a step does to the queue and the receipt. -/
inductive Effect (s t : System) : Prop where
  | quiet (events : ∀ e ∈ s.queue.events, e ∈ t.queue.events)
      (receipt : s.receipt = none ∨ t.receipt = s.receipt)
  /-- A confirmation of a merge that changed nothing. -/
  | unchanged (g : Int) (generation : s.proc.generation = some g)
      (queue : t.queue = s.queue.settle g) (receipt : t.receipt = s.receipt)
  | confirmed (a : Attempt) (attempt : s.proc.attempt = some a)
      (generation : s.proc.generation = some a.proposal.changedAt) (written : a.proposal ∈ s.writes)
      (before : s.receipt = some a) (queue : t.queue = s.queue.settle a.proposal.changedAt)
      (after : t.receipt = none)
  | rejected (a : Attempt) (attempt : s.proc.attempt = some a) (refused : s.log.Rejected a.proposal)
      (before : s.receipt = some a) (queue : t.queue = s.queue) (after : t.receipt = none)

/-- What is proved of every step. -/
structure Safe (s t : System) : Prop where
  inv : Inv t
  effect : Effect s t

/-! ## What only grows -/

/-- History is kept, and snapshots stay complete. -/
structure Grows (s t : System) : Prop where
  attempts : s.attempts ⊆ t.attempts
  writes : s.writes ⊆ t.writes
  outcomes : s.log.outcomes ⊆ t.log.outcomes
  reads : s.reads ⊆ t.reads
  unchanged : s.unchanged ⊆ t.unchanged
  clock : s.queue.clock ≤ t.queue.clock
  covers : ∀ g edits, g ≤ s.queue.clock → s.queue.Covers g edits → t.queue.Covers g edits

theorem System.Published.mono {s t : System} {e : Int × ChargeEdit} (h : s.Published e)
    (hgrows : Grows s t) : t.Published e := by
  rcases h with ⟨a, ha, hwritten, hrest⟩ | ⟨u, hu, hread, hrest⟩
  · exact .inl ⟨a, hgrows.attempts ha, hgrows.writes hwritten, hrest⟩
  · exact .inr ⟨u, hgrows.unchanged hu, hgrows.reads hread, hrest⟩

theorem System.Owns.mono {s t : System} {a : Attempt} (h : s.Owns a) (hgrows : Grows s t) :
    t.Owns a :=
  ⟨hgrows.attempts h.1, le_trans h.2.1 hgrows.clock, hgrows.covers _ _ h.2.1 h.2.2⟩

/-- What the sweep knows stays true while the rest of the system moves. -/
theorem Proc.Sound.mono {s t : System} {p : Proc} (h : p.Sound s) (hgrows : Grows s t) :
    p.Sound t := by
  cases p with
  | idle | listed _ | vacant _ => trivial
  | snapped g snap => exact ⟨le_trans h.1 hgrows.clock, hgrows.covers _ _ h.1 h.2⟩
  | fetched g snap remote =>
    exact ⟨le_trans h.1 hgrows.clock, hgrows.covers _ _ h.1 h.2.1,
      fun r hr => hgrows.reads (h.2.2 r hr)⟩
  | reserved a | posted a | recovering a | reposted a => exact hgrows.attempts h
  | answered a b | reanswered a b => exact ⟨hgrows.attempts h.1, hgrows.outcomes h.2⟩
  | readBack a remote =>
    exact ⟨hgrows.attempts h.1, fun r hr hc => hgrows.writes (h.2 r hr hc)⟩
  | reread a remote => exact ⟨hgrows.attempts h.1, hgrows.writes h.2⟩

/-- A step that leaves queue and history alone. -/
theorem Grows.of_eq {s t : System} (hattempts : t.attempts = s.attempts) (hwrites : t.writes = s.writes)
    (hlog : t.log = s.log) (hreads : t.reads = s.reads) (hunchanged : t.unchanged = s.unchanged)
    (hqueue : t.queue = s.queue) : Grows s t := by
  refine ⟨?_, ?_, ?_, ?_, ?_, ?_, ?_⟩
  · rw [hattempts]
    exact List.Subset.refl _
  · rw [hwrites]
    exact List.Subset.refl _
  · rw [hlog]
    exact List.Subset.refl _
  · rw [hreads]
    exact List.Subset.refl _
  · rw [hunchanged]
    exact List.Subset.refl _
  · rw [hqueue]
  · rw [hqueue]
    exact fun _ _ _ h => h

/-! ## Local transactions -/

/-- Local values, upload identity and the point of the sweep are not part of the facts. -/
theorem Facts.withLocal {s : System} (h : Facts s) (tags : List Text) (cost : Option Cost)
    (upload : Option Upload) (proc : Proc) :
    Facts { s with tags := tags, cost := cost, upload := upload, proc := proc } :=
  ⟨h.history, h.responses, h.requests, h.receipt,
    h.merged, h.fresh, h.distinct, h.cloudFresh, h.published, h.kept⟩

theorem Grows.edit (s : System) (now : Int) (e : ChargeEdit) : Grows s (s.edit now e) where
  attempts := List.Subset.refl _
  writes := List.Subset.refl _
  outcomes := List.Subset.refl _
  reads := List.Subset.refl _
  unchanged := List.Subset.refl _
  clock := le_of_lt (s.queue.clock_lt_nextGeneration now)
  covers := fun _ _ hg hcovers => Queue.covers_record hcovers hg now e

/-- An edit is queued in its own transaction. -/
theorem Facts.edit {s : System} (h : Facts s) (now : Int) (e : ChargeEdit) : Facts (s.edit now e) := by
  have hgrows := Grows.edit s now e
  refine ⟨h.history, h.responses, h.requests, fun a ha => (h.receipt a ha).mono hgrows, h.merged,
    h.fresh, h.distinct, h.cloudFresh, h.published, fun f hf => ?_⟩
  show f ∈ s.queue.events ++ [(s.queue.nextGeneration now, e)] ∨ _
  rcases List.mem_append.mp hf with hf | hf
  · rcases h.kept f hf with hqueued | hpub
    · exact .inl (List.mem_append_left _ hqueued)
    · exact .inr (hpub.mono hgrows)
  · exact .inl (List.mem_append_right _ hf)

/-- A local edit, with the values it sets. -/
theorem Safe.edit {s : System} (h : Facts s) (hsound : s.proc.Sound s) (now : Int) (e : ChargeEdit)
    (tags : List Text) (cost : Option Cost) :
    Safe s { (s.edit now e) with tags := tags, cost := cost } := by
  have hgrows := Grows.edit s now e
  have hgrows' : Grows s { (s.edit now e) with tags := tags, cost := cost } :=
    ⟨hgrows.1, hgrows.2, hgrows.3, hgrows.4, hgrows.5, hgrows.6, hgrows.7⟩
  exact ⟨⟨(h.edit now e).withLocal _ _ _ _, hsound.mono hgrows'⟩,
    .quiet (fun _ he => List.mem_append_left _ he) (.inr rfl)⟩

/-- **A confirmation loses no edit**: what it retires was in the snapshot, and the Cloud has that. -/
theorem Facts.settle {s : System} (h : Facts s) {g : Int} {edits : List (Int × ChargeEdit)}
    (hcovers : s.queue.Covers g edits) (hpublished : ∀ e ∈ edits, s.Published e) (tags : List Text)
    (cost : Option Cost) (receipt : Option Attempt) (hreceipt : receipt = none ∨ receipt = s.receipt) :
    Facts { s with tags := tags, cost := cost, queue := s.queue.settle g, receipt := receipt } := by
  refine ⟨h.history, h.responses, h.requests, fun a ha => ?_, h.merged, h.fresh, h.distinct,
    h.cloudFresh, h.published, fun e he => ?_⟩
  · rcases hreceipt with rfl | rfl
    · exact absurd ha (by simp)
    · obtain ⟨hreserved, hticked, hown⟩ := h.receipt a ha
      exact ⟨hreserved, hticked, Queue.covers_settle hown g⟩
  · rcases h.kept e he with hqueued | hpub
    · by_cases hstays : e ∈ (s.queue.settle g).events
      · exact .inl hstays
      · exact .inr (hpublished e (Queue.mem_of_settled hcovers hqueued hstays))
    · exact .inr hpub

/-- What a confirmation that goes through did. -/
theorem System.confirm_eq {s t : System} {g : Int} {upload : Upload} {doc : ChargeDoc}
    {receipt : Option Attempt} (h : s.confirm g upload doc receipt = some t) :
    (∀ a, receipt = some a → s.receipt = some a) ∧
    ∃ tags cost, t = { s with
      tags := tags
      cost := cost
      queue := s.queue.settle g
      receipt := if receipt.isSome then none else s.receipt } := by
  unfold System.confirm at h
  split at h
  · exact absurd h (by simp)
  · rename_i hsame
    split at h
    · exact absurd h (by simp)
    · refine ⟨fun a ha => ?_, _, _, (Option.some.inj h).symm⟩
      subst ha
      simpa using hsame

theorem Facts.dropReceipt {s : System} (h : Facts s) : Facts { s with receipt := none } :=
  ⟨h.history, h.responses, h.requests, fun a ha => absurd ha (by simp), h.merged, h.fresh, h.distinct,
    h.cloudFresh, h.published, h.kept⟩

theorem Safe.goto {s : System} (h : Facts s) {p : Proc} (hp : p.Sound s) :
    Safe s { s with proc := p } :=
  ⟨⟨h.withLocal _ _ _ _, hp.mono (.of_eq rfl rfl rfl rfl rfl rfl)⟩, .quiet (fun _ he => he) (.inr rfl)⟩

/-- A rejected attempt gives up its own receipt. -/
theorem Safe.retireAttempt {s : System} (h : Facts s) {a : Attempt} (hproc : s.proc.attempt = some a)
    (hrejected : s.log.Rejected a.proposal) : Safe s { (s.retireAttempt a) with proc := .idle } := by
  unfold System.retireAttempt
  split
  · rename_i hreceipt
    exact ⟨⟨h.dropReceipt.withLocal _ _ _ _, trivial⟩, .rejected a hproc hrejected hreceipt rfl rfl⟩
  · exact Safe.goto h trivial

/-- Confirming an attempt the Cloud applied. -/
theorem Safe.confirmAttempt {s : System} (h : Facts s) {a : Attempt}
    (hproc : s.proc.attempt = some a) (hgeneration : s.proc.generation = some a.proposal.changedAt)
    (hwritten : a.proposal ∈ s.writes) (doc : ChargeDoc) : Safe s (s.confirmAttempt a doc) := by
  unfold System.confirmAttempt
  split
  · rename_i t ht
    obtain ⟨hreceipt, tags, cost, rfl⟩ := System.confirm_eq ht
    obtain ⟨hreserved, -, hcovers⟩ := h.receipt a (hreceipt a rfl)
    have hpub : ∀ e ∈ a.edits, s.Published e := fun e he =>
      .inl ⟨a, hreserved, hwritten, h.merged a hreserved, he⟩
    exact ⟨⟨(h.settle hcovers hpub tags cost none (.inl rfl)).withLocal _ _ _ _, trivial⟩,
      .confirmed a hproc hgeneration hwritten (hreceipt a rfl) rfl rfl⟩
  · exact Safe.goto h trivial

/-- Reading a record, and noting a merge that changed nothing. -/
theorem Facts.note {s : System} (h : Facts s) {reads : List (Text × Record)}
    {unchanged : List (Snapshot × Record)} (hreads : s.reads ⊆ reads)
    (hunchanged : s.unchanged ⊆ unchanged) :
    Facts { s with reads := reads, unchanged := unchanged } := by
  have hgrows : Grows s { s with reads := reads, unchanged := unchanged } :=
    { Grows.of_eq (s := s) (t := s) rfl rfl rfl rfl rfl rfl with
      reads := hreads
      unchanged := hunchanged }
  exact ⟨h.history, h.responses, h.requests, h.receipt, h.merged, h.fresh, h.distinct, h.cloudFresh,
    h.published, fun e he => (h.kept e he).imp id fun hpub => hpub.mono hgrows⟩

/-- **A reservation** seals its document under a new nonce, so no attempt or Cloud record shares its
ciphertext. -/
theorem Safe.reserve {s t : System} (h : Facts s) {a : Attempt}
    (hnonce : a.proposal.ciphertext.nonce = s.nextNonce) (hmerged : a.Merged)
    (hticked : a.proposal.changedAt ≤ s.queue.clock)
    (hcovers : s.queue.Covers a.proposal.changedAt a.edits)
    (ht : { s with nextNonce := s.nextNonce + 1 }.reserve a = some t) :
    Safe s t := by
  unfold System.reserve at ht
  split at ht
  swap
  · exact absurd ht (by simp)
  rename_i hguard
  obtain rfl := Option.some.inj ht
  have hgrows : Grows s { s with
      nextNonce := s.nextNonce + 1, receipt := some a, attempts := a :: s.attempts, proc := .reserved a } :=
    { Grows.of_eq (s := s) (t := s) rfl rfl rfl rfl rfl rfl with
      attempts := List.subset_cons_of_subset _ (List.Subset.refl _) }
  refine ⟨⟨⟨h.history, h.responses, fun p hp => ?_, fun b hb => ?_, fun b hb => ?_, fun b hb => ?_,
    fun b hb c hc heq => ?_, fun id r c hr hc => ?_, fun id r b hb hr hc => ?_, fun e he => ?_⟩,
    List.mem_cons_self⟩, .quiet (fun _ he => he) (.inl hguard.1)⟩
  · obtain ⟨b, hb, hbp⟩ := h.requests p hp
    exact ⟨b, List.mem_cons_of_mem _ hb, hbp⟩
  · obtain rfl := Option.some.inj hb
    exact ⟨List.mem_cons_self, hticked, hcovers⟩
  · rcases List.mem_cons.mp hb with rfl | hb
    · exact hmerged
    · exact h.merged b hb
  · rcases List.mem_cons.mp hb with rfl | hb
    · exact hnonce ▸ Nat.lt_succ_self _
    · exact Nat.lt_succ_of_lt (h.fresh b hb)
  · rcases List.mem_cons.mp hb with rfl | hold <;> rcases List.mem_cons.mp hc with rfl | hold'
    · rfl
    · exact absurd (heq.symm.trans hnonce) (Nat.ne_of_lt (h.fresh c hold'))
    · exact absurd (heq.trans hnonce) (Nat.ne_of_lt (h.fresh b hold))
    · exact h.distinct b hold c hold' heq
  · exact Nat.lt_succ_of_lt (h.cloudFresh id r c hr hc)
  · rcases List.mem_cons.mp hb with rfl | hb
    · exact absurd hnonce (Nat.ne_of_lt (h.cloudFresh id r _ hr hc))
    · exact h.published id r b hb hr hc
  · exact (h.kept e he).imp id fun hpub => hpub.mono hgrows

/-- The attempt of a merged snapshot is the merge of its operations; a queue without history never
gets here. -/
theorem attemptOf_merged {g : Int} {snap : Snapshot} {r : Record} {doc : ChargeDoc} {n : Nat}
    (h : snap.merged (plaintext r.ciphertext) = some doc) (hne : doc ≠ plaintext r.ciphertext) :
    (attemptOf g snap r ⟨n, doc⟩).Merged := by
  unfold Snapshot.merged at h
  split at h
  · split at h
    · exact absurd (Option.some.inj h).symm hne
    · exact absurd h (by simp)
  · exact h

/-- Preparing a fetched session. -/
theorem Safe.prepare {s : System} (h : Facts s) {g : Int} {snap : Snapshot} {r : Record}
    (hgeneration : s.proc.generation = some g) (hticked : g ≤ s.queue.clock)
    (hcovers : s.queue.Covers g snap.edits) (hread : (snap.upload.id, r) ∈ s.reads) :
    Safe s (s.prepare g snap r) := by
  unfold System.prepare
  have hidle : Safe s { s with proc := .idle } := Safe.goto h trivial
  dsimp only
  split
  · exact hidle
  split
  · exact hidle
  rename_i doc hdoc
  split
  · rename_i hsame
    split
    · rename_i t ht
      obtain ⟨-, tags, cost, rfl⟩ := System.confirm_eq ht
      have hnoted : Facts { s with unchanged := (snap, r) :: s.unchanged } :=
        h.note (List.Subset.refl _) (List.subset_cons_of_subset _ (List.Subset.refl _))
      have hpub : ∀ e ∈ snap.edits, { s with unchanged := (snap, r) :: s.unchanged }.Published e :=
        fun e he => .inr ⟨(snap, r), List.mem_cons_self, hread, by rw [Unchanged, hdoc, hsame], he⟩
      exact ⟨⟨(hnoted.settle hcovers hpub tags cost s.receipt (.inr rfl)).withLocal _ _ _ _, trivial⟩,
        .unchanged g hgeneration rfl rfl⟩
    · exact hidle
  · rename_i hne
    split
    · rename_i t ht
      exact Safe.reserve h rfl (attemptOf_merged hdoc hne) hticked hcovers ht
    · exact hidle

/-- Installing a key changes the upload identity only. -/
theorem System.backfill_eq {s t : System} {snap : Snapshot} {key : Text}
    (h : s.backfill snap key = some t) : ∃ upload, t = { s with upload := upload } := by
  unfold System.backfill at h
  split at h
  · split at h
    · exact ⟨_, (Option.some.inj h).symm⟩
    · exact absurd h (by simp)
  · exact absurd h (by simp)

/-! ## Cloud and messages -/

/-- Posting an attempt. -/
theorem Safe.post {s : System} (h : Facts s) {a : Attempt} (ha : a ∈ s.attempts) {p : Proc}
    (hp : p.Sound s) : Safe s { s with requests := a.proposal :: s.requests, proc := p } := by
  refine ⟨⟨?_, hp.mono (.of_eq rfl rfl rfl rfl rfl rfl)⟩, .quiet (fun _ he => he) (.inr rfl)⟩
  refine ⟨h.history, h.responses, fun p hp => ?_, h.receipt, h.merged, h.fresh,
    h.distinct, h.cloudFresh, h.published, h.kept⟩
  rcases List.mem_cons.mp hp with rfl | hp
  · exact ⟨a, ha, rfl⟩
  · exact h.requests p hp

theorem Facts.loseRequest {s : System} (h : Facts s) (i : Nat) :
    Facts { s with requests := s.requests.eraseIdx i } :=
  ⟨h.history, h.responses, fun p hp => h.requests p (List.mem_of_mem_eraseIdx hp),
    h.receipt, h.merged, h.fresh, h.distinct, h.cloudFresh, h.published, h.kept⟩

/-- A Cloud that differs at one session, in a record that holds no attempt's ciphertext. -/
theorem Facts.updateCloud {s : System} (h : Facts s) (id : Text) (record : Option Record) (n : Nat)
    (hn : s.nextNonce ≤ n)
    (hfresh : ∀ r c, record = some r → r.ciphertext = some c → s.nextNonce ≤ c.nonce ∧ c.nonce < n) :
    Facts { s with cloud := Function.update s.cloud id record, nextNonce := n } := by
  refine ⟨h.history, h.responses, h.requests, h.receipt, h.merged,
    fun a ha => lt_of_lt_of_le (h.fresh a ha) hn, h.distinct, fun i r c hr hc => ?_,
    fun i r a ha hr hc => ?_, h.kept⟩
  · by_cases hid : i = id
    · subst hid
      exact (hfresh r c (by simpa using hr) hc).2
    · exact lt_of_lt_of_le (h.cloudFresh i r c (by simpa [hid] using hr) hc) hn
  · by_cases hid : i = id
    · subst hid
      have hge := (hfresh r _ (by simpa using hr) hc).1
      exact absurd (h.fresh a ha) (not_lt.mpr hge)
    · exact h.published i r a ha (by simpa [hid] using hr) hc

/-- A record after a write holds the written ciphertext, or is an old one elsewhere. -/
theorem write_cases {cloud : Text → Option Record} {p : Proposal} {id : Text} {r : Record}
    (h : write cloud p id = some r) : r.ciphertext = some p.ciphertext ∨ cloud id = some r := by
  unfold write at h
  by_cases hid : id = p.id
  · subst hid
    rw [Function.update_self, Option.map_eq_some_iff] at h
    obtain ⟨old, -, rfl⟩ := h
    exact .inl rfl
  · rw [Function.update_of_ne hid] at h
    exact .inr h

theorem Grows.deliver {s t : System} {i : Nat} {lost : Bool} (ht : s.deliver i lost = some t) :
    Grows s t := by
  obtain ⟨p, -, rfl⟩ := Option.map_eq_some_iff.mp ht
  refine { Grows.of_eq (s := s) (t := s) rfl rfl rfl rfl rfl rfl with
    writes := ?_
    outcomes := fun r hr => OperationLog.mem_outcomes_answer hr }
  dsimp only
  split
  · exact List.subset_cons_of_subset _ (List.Subset.refl _)
  · exact List.Subset.refl _

/-- **The server handles a request**: an operation takes effect at most once, and a ciphertext comes
into the Cloud with its own write. -/
theorem Facts.deliver {s t : System} (h : Facts s) {i : Nat} {lost : Bool}
    (ht : s.deliver i lost = some t) : Facts t := by
  have hgrows := Grows.deliver ht
  obtain ⟨p, hp, rfl⟩ := Option.map_eq_some_iff.mp ht
  obtain ⟨b, hb, rfl⟩ := h.requests p (List.mem_of_getElem? hp)
  refine ⟨h.history.answer _ _, fun r hr => ?_,
    fun q hq => h.requests q (List.mem_of_mem_eraseIdx hq), fun a ha => h.receipt a ha, h.merged,
    h.fresh, h.distinct, fun id r c hr hc => ?_, fun id r a ha hr hc => ?_,
    fun e he => (h.kept e he).imp id fun hpub => hpub.mono hgrows⟩
  · dsimp only at hr
    split at hr
    · exact hgrows.outcomes (h.responses r hr)
    · rcases List.mem_cons.mp hr with rfl | hr
      · exact OperationLog.answer_mem_outcomes _ _ _
      · exact hgrows.outcomes (h.responses r hr)
  · dsimp only at hr
    split at hr
    · rcases write_cases hr with hnew | hold
      · obtain rfl := Option.some.inj (hc.symm.trans hnew)
        exact h.fresh b hb
      · exact h.cloudFresh id r c hold hc
    · exact h.cloudFresh id r c hr hc
  · dsimp only at hr ⊢
    split at hr
    · rename_i heff
      rw [if_pos heff]
      rcases write_cases hr with hnew | hold
      · have hsame : a.proposal.ciphertext = b.proposal.ciphertext :=
          Option.some.inj (hc.symm.trans hnew)
        rw [h.distinct a ha b hb (congrArg Cipher.nonce hsame)]
        exact List.mem_cons_self
      · exact List.mem_cons_of_mem _ (h.published id r a ha hold hc)
    · rename_i heff
      rw [if_neg heff]
      exact h.published id r a ha hr hc

/-! ## Steps -/

/-- Every step of the sweep is safe. -/
theorem safe_sweep {s t : System} {act : Act} (h : Inv s) (hstep : s.sweep act = some t) : Safe s t := by
  obtain ⟨hfacts, hsound⟩ := h
  cases act with
  | list =>
    simp only [System.sweep] at hstep
    split at hstep
    · obtain rfl := Option.some.inj hstep
      exact Safe.goto hfacts trivial
    · exact absurd hstep (by simp)
  | lookup =>
    simp only [System.sweep] at hstep
    split at hstep
    · rename_i a _ hreceipt
      obtain rfl := Option.some.inj hstep
      exact Safe.goto hfacts (hfacts.receipt a hreceipt).1
    · obtain rfl := Option.some.inj hstep
      exact Safe.goto hfacts trivial
    · exact absurd hstep (by simp)
  | snapshot =>
    simp only [System.sweep] at hstep
    split at hstep
    · split at hstep
      · rename_i hcond
        obtain rfl := Option.some.inj hstep
        exact Safe.goto hfacts ⟨s.queue.ticked _ hcond.1, s.queue.covers_self _⟩
      · obtain rfl := Option.some.inj hstep
        exact Safe.goto hfacts trivial
    · obtain rfl := Option.some.inj hstep
      exact Safe.goto hfacts trivial
    · exact absurd hstep (by simp)
  | fetch =>
    simp only [System.sweep] at hstep
    split at hstep
    · rename_i g snap hproc
      rw [hproc] at hsound
      obtain rfl := Option.some.inj hstep
      have hnoted := hfacts.note (List.subset_append_right
        ((s.cloud snap.upload.id).toList.map (Prod.mk snap.upload.id)) s.reads) (List.Subset.refl _)
      refine ⟨⟨hnoted.withLocal _ _ _ _, hsound.1, hsound.2, fun r hr => ?_⟩,
        .quiet (fun _ he => he) (.inr rfl)⟩
      exact List.mem_append_left _ (by simp [hr])
    · exact absurd hstep (by simp)
  | backfill =>
    simp only [System.sweep] at hstep
    split at hstep
    · rename_i g snap r hproc
      rw [hproc] at hsound
      split at hstep
      · obtain ⟨t, ht, rfl⟩ := Option.map_eq_some_iff.mp hstep
        obtain ⟨upload, rfl⟩ := System.backfill_eq ht
        exact ⟨⟨hfacts.withLocal _ _ _ _, hsound⟩, .quiet (fun _ he => he) (.inr rfl)⟩
      · exact absurd hstep (by simp)
    · exact absurd hstep (by simp)
  | prepare =>
    simp only [System.sweep] at hstep
    split at hstep
    · rename_i g snap r hproc
      rw [hproc] at hsound
      obtain rfl := Option.some.inj hstep
      exact Safe.prepare hfacts (by rw [hproc]; rfl) hsound.1 hsound.2.1 (hsound.2.2 r rfl)
    · obtain rfl := Option.some.inj hstep
      exact Safe.goto hfacts trivial
    · exact absurd hstep (by simp)
  | post =>
    simp only [System.sweep] at hstep
    split at hstep
    · rename_i a hproc
      rw [hproc] at hsound
      obtain rfl := Option.some.inj hstep
      exact Safe.post hfacts hsound hsound
    · exact absurd hstep (by simp)
  | receive applied =>
    -- first post and repeated post alike: the answer is one the log holds
    simp only [System.sweep] at hstep
    split at hstep
    all_goals first | cases hstep | skip
    all_goals
      rename_i a hproc
      rw [hproc] at hsound
      split at hstep
      · rename_i hmem
        obtain rfl := Option.some.inj hstep
        exact Safe.goto hfacts ⟨hsound, hfacts.responses _ hmem⟩
      · exact absurd hstep (by simp)
  | giveUp =>
    simp only [System.sweep] at hstep
    split at hstep
    · rename_i a hproc
      rw [hproc] at hsound
      obtain rfl := Option.some.inj hstep
      exact Safe.goto hfacts hsound
    · obtain rfl := Option.some.inj hstep
      exact Safe.goto hfacts trivial
    · exact absurd hstep (by simp)
  | finish =>
    simp only [System.sweep] at hstep
    split at hstep
    · rename_i a hproc
      rw [hproc] at hsound
      obtain rfl := Option.some.inj hstep
      exact Safe.confirmAttempt hfacts (by rw [hproc]; rfl) (by rw [hproc]; rfl)
        ((hfacts.history.mem_iff _).mpr hsound.2) _
    · rename_i a hproc
      rw [hproc] at hsound
      obtain rfl := Option.some.inj hstep
      exact Safe.retireAttempt hfacts (by rw [hproc]; rfl) hsound.2
    · rename_i a hproc
      rw [hproc] at hsound
      obtain rfl := Option.some.inj hstep
      exact Safe.retireAttempt hfacts (by rw [hproc]; rfl) hsound.2
    · exact absurd hstep (by simp)
  | readBack =>
    simp only [System.sweep] at hstep
    split at hstep
    · rename_i a hproc
      rw [hproc] at hsound
      obtain rfl := Option.some.inj hstep
      exact Safe.goto hfacts ⟨hsound, fun r hr hc => hfacts.published _ r a hsound hr hc⟩
    · exact absurd hstep (by simp)
  | decide =>
    simp only [System.sweep] at hstep
    split at hstep
    · rename_i a remote hproc
      rw [hproc] at hsound
      split at hstep
      · rename_i r hr
        obtain ⟨hremote, hexact⟩ := Option.filter_eq_some_iff.mp hr
        obtain rfl := Option.some.inj hstep
        simp only [Bool.and_eq_true, decide_eq_true_eq] at hexact
        exact Safe.confirmAttempt hfacts (by rw [hproc]; rfl) (by rw [hproc]; rfl)
          (hsound.2 r hremote hexact.2) _
      · obtain rfl := Option.some.inj hstep
        exact Safe.post hfacts hsound.1 hsound.1
    · exact absurd hstep (by simp)
  | refetch =>
    simp only [System.sweep] at hstep
    split at hstep
    · rename_i a hproc
      rw [hproc] at hsound
      obtain rfl := Option.some.inj hstep
      exact Safe.goto hfacts ⟨hsound.1, (hfacts.history.mem_iff _).mpr hsound.2⟩
    · exact absurd hstep (by simp)
  | adopt =>
    simp only [System.sweep] at hstep
    split at hstep
    · rename_i a remote hproc
      rw [hproc] at hsound
      split at hstep
      · obtain rfl := Option.some.inj hstep
        exact Safe.confirmAttempt hfacts (by rw [hproc]; rfl) (by rw [hproc]; rfl) hsound.2 _
      · obtain rfl := Option.some.inj hstep
        exact Safe.goto hfacts trivial
    · exact absurd hstep (by simp)
  | _ => exact absurd hstep (by simp [System.sweep])

/-- **Every step is safe.** -/
theorem safe_step {s t : System} {act : Act} (h : Inv s) (hstep : step s act = some t) : Safe s t := by
  obtain ⟨hfacts, hsound⟩ := h
  cases act with
  | setTags now tags =>
    obtain rfl := Option.some.inj hstep
    exact Safe.edit hfacts hsound now _ _ _
  | setCost now cost =>
    obtain rfl := Option.some.inj hstep
    exact Safe.edit hfacts hsound now _ _ _
  | replaceUpload upload =>
    obtain rfl := Option.some.inj hstep
    exact ⟨⟨hfacts.withLocal _ _ _ _, hsound.mono (.of_eq rfl rfl rfl rfl rfl rfl)⟩,
      .quiet (fun _ he => he) (.inr rfl)⟩
  | otherWrite id recordVersion wrappedKey doc =>
    obtain rfl := Option.some.inj hstep
    refine ⟨⟨hfacts.updateCloud id _ _ (Nat.le_succ _) fun r c hr hc => ?_,
      hsound.mono (.of_eq rfl rfl rfl rfl rfl rfl)⟩, .quiet (fun _ he => he) (.inr rfl)⟩
    obtain rfl := Option.some.inj hr
    obtain ⟨d, -, rfl⟩ := Option.map_eq_some_iff.mp hc
    exact ⟨le_refl _, Nat.lt_succ_self _⟩
  | removeRecord id =>
    obtain rfl := Option.some.inj hstep
    exact ⟨⟨hfacts.updateCloud id none s.nextNonce (le_refl _) (by simp),
      hsound.mono (.of_eq rfl rfl rfl rfl rfl rfl)⟩, .quiet (fun _ he => he) (.inr rfl)⟩
  | deliver i lost =>
    have hkept : t.proc = s.proc ∧ t.queue = s.queue ∧ t.receipt = s.receipt := by
      obtain ⟨p, -, rfl⟩ := Option.map_eq_some_iff.mp hstep
      exact ⟨rfl, rfl, rfl⟩
    refine ⟨⟨hfacts.deliver hstep, ?_⟩, .quiet (by rw [hkept.2.1]; exact fun _ he => he) (.inr hkept.2.2)⟩
    rw [hkept.1]
    exact hsound.mono (Grows.deliver hstep)
  | loseRequest i =>
    obtain rfl := Option.some.inj hstep
    exact ⟨⟨hfacts.loseRequest i, hsound.mono (.of_eq rfl rfl rfl rfl rfl rfl)⟩,
      .quiet (fun _ he => he) (.inr rfl)⟩
  | restart =>
    obtain rfl := Option.some.inj hstep
    exact Safe.goto hfacts trivial
  | _ =>
    simp only [step] at hstep
    exact safe_sweep ⟨hfacts, hsound⟩ hstep

/-! ## Runs -/

/-- A device before its first publication: nothing reserved, nothing sent, nothing decided. Queued
edits, local values, upload and Cloud are arbitrary. -/
structure Start (s : System) : Prop where
  receipt : s.receipt = none
  log : s.log = OperationLog.empty
  requests : s.requests = []
  responses : s.responses = []
  proc : s.proc = .idle
  made : s.made = s.queue.events
  attempts : s.attempts = []
  writes : s.writes = []
  nonces : ∀ id r c, s.cloud id = some r → r.ciphertext = some c → c.nonce < s.nextNonce

theorem Start.inv {s : System} (h : Start s) : Inv s := by
  refine ⟨⟨?_, ?_, ?_, ?_, ?_, ?_, ?_, h.nonces, ?_, ?_⟩, ?_⟩
  · rw [h.log, h.writes]
    exact WriteHistory.empty
  · simp [h.responses]
  · simp [h.requests]
  · simp [h.receipt]
  · simp [h.attempts]
  · simp [h.attempts]
  · simp [h.attempts]
  · simp [h.attempts]
  · rw [h.made]
    exact fun e he => .inl he
  · rw [h.proc]
    trivial

/-- A step takes an edit from the queue only as part of the generation it confirms. -/
theorem Effect.retires {s t : System} (h : Effect s t) {e : Int × ChargeEdit}
    (he : e ∈ s.queue.events) (hgone : e ∉ t.queue.events) :
    ∃ g, s.proc.generation = some g ∧ t.queue = s.queue.settle g ∧ e.1 ≤ g := by
  have hle : ∀ g, t.queue = s.queue.settle g → e.1 ≤ g := by
    intro g hqueue
    by_contra hlt
    rw [hqueue] at hgone
    exact hgone (Queue.mem_newer.mpr ⟨he, not_le.mp hlt⟩)
  cases h with
  | quiet hevents _ => exact absurd (hevents e he) hgone
  | unchanged g hgeneration hqueue _ => exact ⟨g, hgeneration, hqueue, hle g hqueue⟩
  | confirmed a _ hgeneration _ _ hqueue _ => exact ⟨_, hgeneration, hqueue, hle _ hqueue⟩
  | rejected a _ _ _ hqueue _ => exact absurd (hqueue ▸ he) hgone

/-- A step takes a receipt only with the confirmation or the rejection of its attempt. -/
theorem Effect.drops {s t : System} (h : Effect s t) {a : Attempt} (hbefore : s.receipt = some a)
    (hafter : t.receipt ≠ some a) :
    s.proc.attempt = some a ∧ t.receipt = none
      ∧ (a.proposal ∈ s.writes ∧ t.queue = s.queue.settle a.proposal.changedAt
        ∨ s.log.Rejected a.proposal ∧ t.queue = s.queue) := by
  cases h with
  | quiet _ hreceipt =>
    rcases hreceipt with hnone | hsame
    · exact absurd (hnone.symm.trans hbefore) (by simp)
    · exact absurd (hsame.trans hbefore) hafter
  | unchanged _ _ _ hreceipt => exact absurd (hreceipt.trans hbefore) hafter
  | confirmed b hattempt _ hwritten hb hqueue hnone =>
    obtain rfl := Option.some.inj (hb.symm.trans hbefore)
    exact ⟨hattempt, hnone, .inl ⟨hwritten, hqueue⟩⟩
  | rejected b hattempt hrejected hb hqueue hnone =>
    obtain rfl := Option.some.inj (hb.symm.trans hbefore)
    exact ⟨hattempt, hnone, .inr ⟨hrejected, hqueue⟩⟩

/-- **No charge edit is lost.** In every state any interleaving reaches, every edit made is still
queued, or was merged into a proposal the Cloud applied, or was confirmed by a merge that changed
nothing in the record the Cloud returned; no proposal is applied twice; a step retires only edits of the
generation it confirms; and a receipt goes only with the confirmation of its applied attempt or with
that attempt's rejection. -/
theorem charge_edits_kept {s t : System} (hstart : Start s) (hreach : Reachable step s t) :
    (∀ e ∈ t.made, e ∈ t.queue.events ∨ t.Published e)
      ∧ t.writes.Nodup
      ∧ ∀ act u, step t act = some u →
          (∀ e ∈ t.queue.events, e ∉ u.queue.events →
            ∃ g, t.proc.generation = some g ∧ u.queue = t.queue.settle g ∧ e.1 ≤ g)
          ∧ ∀ a, t.receipt = some a → u.receipt ≠ some a →
              t.proc.attempt = some a ∧ u.receipt = none
                ∧ (a.proposal ∈ t.writes ∧ u.queue = t.queue.settle a.proposal.changedAt
                  ∨ t.log.Rejected a.proposal ∧ u.queue = t.queue) := by
  have hinv : Inv t := hreach.invariant hstart.inv fun _ _ _ h _ htaken => (safe_step h htaken).inv
  refine ⟨hinv.1.kept, hinv.1.history.nodup, fun act u hstep => ?_⟩
  have heffect := (safe_step hinv hstep).effect
  exact ⟨fun e he hgone => heffect.retires he hgone, fun a hbefore hafter => heffect.drops hbefore hafter⟩

/-- A session without edits, uploaded under key `k`, whose Cloud document another writer gave
the tag `x`. -/
def tagged : System where
  tags := []
  cost := none
  queue := .empty
  upload := some ⟨['i'], some ['k'], 0⟩
  receipt := none
  cloud := fun id => if id = ['i'] then some ⟨['v'], ['k'], some ⟨0, ⟨[['x']], none, []⟩⟩⟩ else none
  log := OperationLog.empty
  requests := []
  responses := []
  nextNonce := 1
  proc := .idle
  made := []
  attempts := []
  writes := []
  reads := []
  unchanged := []

theorem tagged_start : Start tagged := by
  refine ⟨rfl, rfl, rfl, rfl, rfl, rfl, rfl, rfl, fun id r c hr hc => ?_⟩
  simp only [tagged] at hr
  split at hr
  · obtain rfl := Option.some.inj hr
    obtain rfl := Option.some.inj hc
    decide
  · exact absurd hr (by simp)

/-- A tag is added, its write is applied, the answer is lost and the device restarts; meanwhile the
cost is set. -/
def lostAnswer : List Act :=
  [.setTags 5 [['x'], ['y']], .list, .lookup, .snapshot, .fetch, .prepare, .post, .deliver 0 true,
    .restart, .setCost 6 (some ⟨4, ['C']⟩), .list, .lookup, .readBack, .decide]

theorem charge_edits_kept_lostAnswer :
    ∃ t, run step tagged lostAnswer = some t ∧ t.made.length = 2 ∧ t.queue.events.length = 1
      ∧ t.writes.length = 1 ∧ ∀ e ∈ t.made, e ∈ t.queue.events ∨ t.Published e := by
  have hrun : run step tagged lostAnswer = some _ := rfl
  exact ⟨_, hrun, rfl, rfl, rfl, (charge_edits_kept tagged_start (reachable_of_run hrun)).1⟩

/-- An edit the Cloud document already shows is confirmed without any write. -/
theorem charge_edit_retired_unpublished :
    Start tagged ∧ ∃ t, run step tagged
        [.setTags 5 [['x']], .list, .lookup, .snapshot, .fetch, .prepare] = some t
      ∧ t.made = [(5, .tags ⟨[['x']], []⟩)] ∧ t.queue.events = []
      ∧ ¬ ∀ e ∈ t.made, e ∈ t.queue.events ∨ ∃ a ∈ t.attempts, a.proposal ∈ t.writes ∧ e ∈ a.edits := by
  refine ⟨tagged_start, _, rfl, rfl, rfl, fun hall => ?_⟩
  rcases hall _ List.mem_cons_self with hqueued | ⟨a, ha, -⟩
  · exact absurd hqueued List.not_mem_nil
  · exact absurd ha List.not_mem_nil

end SentryUsb.Sync.Charge
