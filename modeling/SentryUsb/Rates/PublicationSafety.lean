import SentryUsb.Rates.StoppedCalls

/-! # No rate edit is lost

What every interleaving of the publication of rate edits keeps.

* **`Facts`**, **`Point.Sound`** — the invariant: what the durable state says, and what a push knows at each of its points;
* **`Safe`**, **`safe_step`** — every step keeps it, and takes a receipt only with its attempt;
* **`rate_publication`** — every edit is queued, in an applied proposal, or part of a merge that changed nothing; a write
  replaces what it expected; receipts, marker and confirmations are as they should be;
* **`not_rate_publication`** — an edit that leaves without a proposal, and a marker with nothing queued. -/

set_option linter.unusedSectionVars false

namespace SentryUsb.Rates.Publication

open SentryUsb.Library

variable {N R H : Type} [DecidableEq N] [DecidableEq R] [DecidableEq H]
variable {S : Setup N R H} {env : Env N R H} {m : Machine N H}

/-! ## Invariant -/

/-- The machine as the next recovery leaves it. -/
def System.settled (s : System N H) : Machine N H := Rates.settled s.machine

/-- The envelopes of a proposal were checked. -/
def Setup.Valid (S : Setup N R H) (p : Proposal N) : Prop :=
  S.validEnvelope p.content = true ∧ ∀ c ∈ p.expected, S.validEnvelope c = true

theorem Setup.Valid.toText_inj {p q : Proposal N} (hp : S.Valid p) (hq : S.Valid q) (h : S.toText p = S.toText q) :
    p = q := by
  have hread := S.ofText_toText p hp.1 hp.2
  rw [h, S.ofText_toText q hq.1 hq.2] at hread
  exact (Option.some.inj hread).symm

theorem parseReceipt_toText {p q : Proposal N} (hp : S.Valid p) (h : parseReceipt S (S.toText p) = some q) : q = p := by
  obtain ⟨hread, -⟩ := Option.filter_eq_some_iff.mp h
  rw [S.ofText_toText p hp.1 hp.2] at hread
  exact (Option.some.inj hread).symm

variable (S) in
/-- The document of an attempt is the merge it was sealed from. -/
def Attempt.Merged (a : Attempt N) : Prop :=
  ∃ cloud, decrypt a.proposal.expected = .ok cloud
    ∧ mergedOf S.env.reading a.localRates a.snapshot.intent a.proposal.expected cloud = .ok a.proposal.content.doc

variable (S) in
/-- The merge left the document as it was read. -/
def NoChange.Same (u : NoChange N) : Prop :=
  ∃ cloud, decrypt u.remote = .ok cloud
    ∧ mergedOf S.env.reading u.localRates u.snapshot.intent u.remote cloud = .ok cloud.toValue

variable (S) in
/-- An edit the Cloud has: it was queued when an applied proposal was made from the queue, or when a merge of the queue
left a document of the Cloud as it was. -/
def System.Published (s : System N H) (e : Int × Edit N) : Prop :=
  (∃ a ∈ s.attempts, s.exchange.Applied a.proposal ∧ a.Merged S ∧ (a.snapshot, a.localRates) ∈ s.snapshots
      ∧ e ∈ a.snapshot.intent.edits)
    ∨ ∃ u ∈ s.unchanged, u.remote ∈ s.reads ∧ u.Same S ∧ (u.snapshot, u.localRates) ∈ s.snapshots
      ∧ e ∈ u.snapshot.intent.edits

/-- Edits that hold every queued edit of a generation. -/
def System.Covered (s : System N H) (through : Int) (edits : List (Int × Edit N)) : Prop :=
  through ≤ s.settled.queue.clock ∧ s.settled.queue.Covers through edits

variable (S) in
/-- What holds of the durable state, the Cloud and the messages. -/
structure Facts (s : System N H) : Prop where
  recoverable : Recoverable S.env s.machine
  exchange : s.exchange.Sound
  attempts : ∀ a ∈ s.attempts, a.proposal ∈ s.exchange.made ∧ S.Valid a.proposal ∧ a.Merged S
    ∧ (a.snapshot, a.localRates) ∈ s.snapshots
  noChange : ∀ u ∈ s.unchanged, u.remote ∈ s.reads ∧ u.Same S ∧ (u.snapshot, u.localRates) ∈ s.snapshots
  receipt : ∀ raw, stored S s.settled = some raw →
    ∃ a ∈ s.attempts, raw = S.toText a.proposal ∧ s.Covered a.proposal.tag a.snapshot.intent.edits
  staged : ∀ p c raw, s.machine.journal = some p → p.confirmation = some c → c.receipt = some (S.receiptKey, raw) →
    ∃ a ∈ s.attempts, raw = S.toText a.proposal ∧ c.through = a.proposal.tag ∧ s.exchange.Applied a.proposal
  made : ∀ e ∈ s.machine.queue.events, e ∈ s.made
  kept : ∀ e ∈ s.made, e ∈ s.settled.queue.events ∨ s.Published S e

variable (S) in
/-- A proposal that was sealed and reserved. -/
def System.Reserved (s : System N H) (h : Held N) : Prop :=
  h.raw = S.toText h.proposal ∧ ∃ a ∈ s.attempts, a.proposal = h.proposal

/-- A snapshot that still holds every queued edit of its generation. -/
def System.Snapped (s : System N H) (through : Int) (localRates : Prefs N) (snap : Snapshot N) : Prop :=
  s.Covered through snap.intent.edits ∧ snap.generation = through ∧ (snap, localRates) ∈ s.snapshots

variable (S) in
/-- What a push knows at each point. -/
def Point.Sound (s : System N H) : Point N → Prop
  | .idle | .initial | .listing => True
  | .initialRead current => s.reads.head? = some current
  | .marking current => s.reads.head? = some current ∧ (current = none → Ready s.settled)
  | .listed through => through ≤ s.settled.queue.clock
  | .loaded through localRates =>
    through ≤ s.settled.queue.clock ∧ (s.settled.queue.dirty = some through → s.settled.load.rates = localRates)
  | .snapped through localRates snap | .vacant through localRates snap => s.Snapped through localRates snap
  | .fetched through localRates snap remote =>
    s.Snapped through localRates snap ∧ s.reads.head? = some remote ∧ ∀ c ∈ remote, S.validEnvelope c = true
  | .prepared a => a ∈ s.attempts ∧ s.Covered a.proposal.tag a.snapshot.intent.edits
  | .reserved h | .posted h | .recovering h | .reposted h => s.Reserved S h
  | .answered h applied | .reanswered h applied => s.Reserved S h ∧ (h.proposal, applied) ∈ s.exchange.log.outcomes
  | .readBack h current =>
    s.Reserved S h ∧ s.reads.head? = some current
      ∧ (current = some h.proposal.content → s.exchange.Applied h.proposal)
  | .rereading h => s.Reserved S h ∧ s.exchange.Applied h.proposal
  | .confirming cloud through receipt =>
    (∃ current, s.reads.head? = some current ∧ decrypt current = .ok cloud)
      ∧ match receipt with
        | none => ∃ edits, s.Covered through edits ∧ ∀ e ∈ edits, s.Published S e
        | some h => s.Reserved S h ∧ through = h.proposal.tag ∧ s.exchange.Applied h.proposal

/-- Whether a push has recovered the preferences. -/
def Point.Loaded : Point N → Prop
  | .idle | .initial | .listing | .initialRead _ | .marking _ | .listed _ => False
  | _ => True

variable (S) in
/-- The invariant. -/
structure Inv (s : System N H) : Prop where
  facts : Facts S s
  sound : s.point.Sound S s
  steady : s.point.Loaded → Steady s.machine

/-! ## What only grows -/

/-- History is kept, and snapshots stay complete. -/
structure Grows (s t : System N H) : Prop where
  attempts : s.attempts ⊆ t.attempts
  unchanged : s.unchanged ⊆ t.unchanged
  snapshots : s.snapshots ⊆ t.snapshots
  reads : s.reads ⊆ t.reads
  exchange : Exchange.Extends s.exchange t.exchange
  covered : ∀ through edits, s.Covered through edits → t.Covered through edits

theorem System.Published.mono {s t : System N H} {e : Int × Edit N} (h : s.Published S e) (hgrows : Grows s t) :
    t.Published S e := by
  rcases h with ⟨a, ha, happlied, hmerged, hsnapshot, he⟩ | ⟨u, hu, hread, hsame, hsnapshot, he⟩
  · exact Or.inl ⟨a, hgrows.attempts ha, happlied.mono hgrows.exchange, hmerged, hgrows.snapshots hsnapshot, he⟩
  · exact Or.inr ⟨u, hgrows.unchanged hu, hgrows.reads hread, hsame, hgrows.snapshots hsnapshot, he⟩

theorem System.Reserved.mono {s t : System N H} {h : Held N} (hreserved : s.Reserved S h) (hgrows : Grows s t) :
    t.Reserved S h := by
  obtain ⟨hraw, a, ha, heq⟩ := hreserved
  exact ⟨hraw, a, hgrows.attempts ha, heq⟩

theorem System.Snapped.mono {s t : System N H} {through : Int} {localRates : Prefs N} {snap : Snapshot N}
    (h : s.Snapped through localRates snap) (hgrows : Grows s t) : t.Snapped through localRates snap :=
  ⟨hgrows.covered _ _ h.1, h.2.1, hgrows.snapshots h.2.2⟩

/-- A change from outside a push. -/
structure Around (s t : System N H) : Prop where
  grows : Grows s t
  reads : t.reads = s.reads
  moves : Moves s.settled t.settled
  rates : SameRates s.settled t.settled

/-- What a push knows stays true while the rest of the system moves. -/
theorem Point.Sound.mono {s t : System N H} {p : Point N} (h : p.Sound S s) (haround : Around s t) : p.Sound S t := by
  have hgrows := haround.grows
  cases p with
  | idle | initial | listing => trivial
  | initialRead current =>
    show t.reads.head? = some current
    rw [haround.reads]
    exact h
  | marking current => exact ⟨haround.reads ▸ h.1, fun hnone => (h.2 hnone).mono haround.moves haround.rates⟩
  | listed through => exact le_trans h haround.moves.clock
  | loaded through localRates =>
    refine ⟨le_trans h.1 haround.moves.clock, fun hdirty => ?_⟩
    have hqueue := haround.moves.queue_of_dirty h.1 hdirty
    rw [hqueue] at hdirty
    exact (haround.rates hqueue).trans (h.2 hdirty)
  | snapped through localRates snap | vacant through localRates snap => exact System.Snapped.mono h hgrows
  | fetched through localRates snap remote => exact ⟨System.Snapped.mono h.1 hgrows, haround.reads ▸ h.2.1, h.2.2⟩
  | prepared a => exact ⟨hgrows.attempts h.1, hgrows.covered _ _ h.2⟩
  | reserved h' | posted h' | recovering h' | reposted h' => exact System.Reserved.mono h hgrows
  | answered h' applied | reanswered h' applied =>
    exact ⟨h.1.mono hgrows, hgrows.exchange.outcomes h.2⟩
  | readBack h' current =>
    exact ⟨h.1.mono hgrows, haround.reads ▸ h.2.1, fun hc => (h.2.2 hc).mono hgrows.exchange⟩
  | rereading h' => exact ⟨h.1.mono hgrows, h.2.mono hgrows.exchange⟩
  | confirming cloud through receipt =>
    refine ⟨haround.reads ▸ h.1, ?_⟩
    cases receipt with
    | none =>
      obtain ⟨edits, hcovered, hpublished⟩ := h.2
      exact ⟨edits, hgrows.covered _ _ hcovered, fun e he => (hpublished e he).mono hgrows⟩
    | some h' => exact ⟨h.2.1.mono hgrows, h.2.2.1, h.2.2.2.mono hgrows.exchange⟩

/-! ## Transport -/

variable {s t : System N H}

/-- The history of a system whose machine and exchange are as they were. -/
theorem Grows.of_history {reads : List (Option (Ciphertext N))} {unchanged : List (NoChange N)}
    {snapshots : List (Snapshot N × Prefs N)} (hreads : s.reads ⊆ reads) (hunchanged : s.unchanged ⊆ unchanged)
    (hsnapshots : s.snapshots ⊆ snapshots) (p : Point N) :
    Grows s { s with reads := reads, unchanged := unchanged, snapshots := snapshots, point := p } :=
  ⟨List.Subset.refl _, hunchanged, hsnapshots, hreads, Exchange.Extends.refl _, fun _ _ h => h⟩

/-- History is noted, and the push moves on. -/
theorem Facts.note (h : Facts S s) {reads : List (Option (Ciphertext N))} {unchanged : List (NoChange N)}
    {snapshots : List (Snapshot N × Prefs N)} (hreads : s.reads ⊆ reads) (hunchanged : s.unchanged ⊆ unchanged)
    (hsnapshots : s.snapshots ⊆ snapshots) (p : Point N)
    (hnoChange : ∀ u ∈ unchanged, u.remote ∈ reads ∧ u.Same S ∧ (u.snapshot, u.localRates) ∈ snapshots) :
    Facts S { s with reads := reads, unchanged := unchanged, snapshots := snapshots, point := p } := by
  have hgrows := Grows.of_history hreads hunchanged hsnapshots p
  refine ⟨h.recoverable, h.exchange, fun a ha => ?_, hnoChange, h.receipt, h.staged, h.made, fun e he => ?_⟩
  · obtain ⟨hmade, hvalid, hmerged, hsnapshot⟩ := h.attempts a ha
    exact ⟨hmade, hvalid, hmerged, hsnapshots hsnapshot⟩
  · exact (h.kept e he).imp id fun hpublished => hpublished.mono hgrows

theorem Facts.goto (h : Facts S s) (p : Point N) : Facts S (s.goto p) :=
  h.note (List.Subset.refl _) (List.Subset.refl _) (List.Subset.refl _) p h.noChange

theorem Point.Sound.goto {p : Point N} (h : p.Sound S s) (q : Point N) : p.Sound S (s.goto q) := by
  refine h.mono ⟨?_, rfl, Moves.refl _, fun _ => rfl⟩
  exact Grows.of_history (List.Subset.refl _) (List.Subset.refl _) (List.Subset.refl _) q

theorem grows_withMachine {m : Machine N H} (hmoves : Moves s.settled (Rates.settled m)) :
    Grows s (s.withMachine m) :=
  ⟨List.Subset.refl _, List.Subset.refl _, List.Subset.refl _, List.Subset.refl _, Exchange.Extends.refl _,
    fun _ _ h => ⟨le_trans h.1 hmoves.clock, hmoves.covers h.1 h.2⟩⟩

/-- **The machine moves**, and no confirmation with it: new edits are queued, and the receipt stays. -/
theorem Facts.withMachine (h : Facts S s) {m : Machine N H} (hrecoverable : Recoverable S.env m)
    (hmoves : Moves s.settled (Rates.settled m))
    (hevents : ∀ e ∈ m.queue.events, e ∈ s.machine.queue.events ∨ e ∈ (Rates.settled m).queue.events)
    (hjournal : m.journal = s.machine.journal ∨ Steady m) : Facts S (s.withMachine m) := by
  have hgrows := grows_withMachine hmoves
  refine ⟨hrecoverable, h.exchange, h.attempts, h.noChange, fun raw hraw => ?_, fun p c raw hp hc hraw => ?_,
    fun e he => ?_, fun e he => ?_⟩
  · have hbefore : stored S s.settled = some raw := by
      rw [← hraw]
      exact congrArg (getEntry S.receiptKey) hmoves.receipts.symm
    obtain ⟨a, ha, heq, hcovered⟩ := h.receipt raw hbefore
    exact ⟨a, ha, heq, hgrows.covered _ _ hcovered⟩
  · rcases hjournal with hsame | hsteady
    · exact h.staged p c raw (hsame.symm.trans hp) hc hraw
    · exact absurd ((hsteady p hp).symm.trans hc) (by simp)
  · by_cases hold : e ∈ s.made
    · exact List.mem_append_right _ hold
    · exact List.mem_append_left _ (List.mem_filter.mpr ⟨he, decide_eq_true hold⟩)
  · rcases List.mem_append.mp he with hnew | hold
    · obtain ⟨hqueued, hfresh⟩ := List.mem_filter.mp hnew
      rcases hevents e hqueued with hbefore | hafter
      · exact absurd (h.made e hbefore) (of_decide_eq_true hfresh)
      · exact Or.inl hafter
    · exact (h.kept e hold).imp (fun hqueued => hmoves.events hqueued) fun hpublished => hpublished.mono hgrows

/-! ## Steps -/

/-- The attempt at this point was turned down. -/
def Point.Rejects (p : Point N) (h : Held N) : Prop := p = .answered h false ∨ p = .reanswered h false

/-- The attempt is about to be confirmed. -/
def Point.Confirms (p : Point N) (h : Held N) : Prop := ∃ cloud, p = .confirming cloud h.proposal.tag (some h)

variable (S) in
/-- What is proved of every step: it keeps the invariant, and it takes a receipt only with the rejection or the
confirmation of its attempt. -/
structure Safe (s t : System N H) : Prop where
  inv : Inv S t
  receipt : ∀ raw, stored S s.settled = some raw → stored S t.settled = some raw
    ∨ stored S t.settled = none ∧ ∃ h : Held N, h.raw = raw ∧ s.Reserved S h
      ∧ (s.point.Rejects h ∧ s.exchange.Refused h.proposal ∨ s.point.Confirms h ∧ s.exchange.Applied h.proposal)

/-- The push moves on, and notes what it has seen. -/
theorem Safe.note (h : Inv S s) {reads : List (Option (Ciphertext N))} {unchanged : List (NoChange N)}
    {snapshots : List (Snapshot N × Prefs N)} (hreads : s.reads ⊆ reads) (hunchanged : s.unchanged ⊆ unchanged)
    (hsnapshots : s.snapshots ⊆ snapshots) {p : Point N}
    (hnoChange : ∀ u ∈ unchanged, u.remote ∈ reads ∧ u.Same S ∧ (u.snapshot, u.localRates) ∈ snapshots)
    (hp : p.Sound S { s with reads := reads, unchanged := unchanged, snapshots := snapshots, point := p })
    (hsteady : p.Loaded → Steady s.machine) :
    Safe S s { s with reads := reads, unchanged := unchanged, snapshots := snapshots, point := p } :=
  ⟨⟨h.facts.note hreads hunchanged hsnapshots p hnoChange, hp, hsteady⟩, fun _ hraw => Or.inl hraw⟩

theorem Safe.goto (h : Inv S s) {p : Point N} (hp : p.Sound S s) (hsteady : p.Loaded → Steady s.machine) :
    Safe S s (s.goto p) :=
  ⟨⟨h.facts.goto p, hp.goto p, hsteady⟩, fun _ hraw => Or.inl hraw⟩

theorem Safe.idle (h : Inv S s) : Safe S s (s.goto .idle) := Safe.goto h trivial fun hloaded => hloaded.elim

/-- A change from outside a push. -/
theorem Safe.around (h : Inv S s) (hfacts : Facts S t) (haround : Around s t) (hpoint : t.point = s.point)
    (hsteady : Steady s.machine → Steady t.machine) : Safe S s t := by
  refine ⟨⟨hfacts, ?_, fun hloaded => hsteady (h.steady (hpoint ▸ hloaded))⟩, fun raw hraw => Or.inl ?_⟩
  · rw [hpoint]
    exact h.sound.mono haround
  · rw [← hraw]
    exact congrArg (getEntry S.receiptKey) haround.moves.receipts

/-- The exchange moves on. -/
theorem Facts.withExchange (h : Facts S s) {x : Exchange (Value N) Int} (hsound : x.Sound)
    (hextends : Exchange.Extends s.exchange x) : Facts S { s with exchange := x } ∧ Grows s { s with exchange := x } := by
  have hgrows : Grows s { s with exchange := x } :=
    ⟨List.Subset.refl _, List.Subset.refl _, List.Subset.refl _, List.Subset.refl _, hextends, fun _ _ h => h⟩
  refine ⟨⟨h.recoverable, hsound, fun a ha => ?_, h.noChange, h.receipt, fun p c raw hp hc hraw => ?_, h.made,
    fun e he => (h.kept e he).imp id fun hpublished => hpublished.mono hgrows⟩, hgrows⟩
  · obtain ⟨hmade, hrest⟩ := h.attempts a ha
    exact ⟨hextends.made hmade, hrest⟩
  · obtain ⟨a, ha, heq, hthrough, happlied⟩ := h.staged p c raw hp hc hraw
    exact ⟨a, ha, heq, hthrough, happlied.mono hextends⟩

theorem Safe.withExchange (h : Inv S s) {x : Exchange (Value N) Int} (hsound : x.Sound)
    (hextends : Exchange.Extends s.exchange x) : Safe S s { s with exchange := x } := by
  obtain ⟨hfacts, hgrows⟩ := h.facts.withExchange hsound hextends
  exact Safe.around h hfacts ⟨hgrows, rfl, Moves.refl _, fun _ => rfl⟩ rfl id

/-- A proposal is sent. -/
theorem Safe.post (h : Inv S s) {held : Held N} (hreserved : s.Reserved S held) {p : Point N}
    (hp : p = .posted held ∨ p = .reposted held) (hloaded : s.point.Loaded) :
    Safe S s { s with exchange := s.exchange.post held.proposal, point := p } := by
  obtain ⟨hraw, a, ha, heq⟩ := hreserved
  have hmade : held.proposal ∈ s.exchange.made := heq ▸ (h.facts.attempts a ha).1
  obtain ⟨hfacts, -⟩ := h.facts.withExchange (h.facts.exchange.post hmade) (Exchange.extends_post _ _)
  refine ⟨⟨hfacts.goto p, ?_, fun _ => h.steady hloaded⟩, fun _ hraw => Or.inl hraw⟩
  rcases hp with rfl | rfl
  · exact ⟨hraw, a, ha, heq⟩
  · exact ⟨hraw, a, ha, heq⟩

/-- **A call from outside a push.** -/
theorem Safe.call (h : Inv S s) {c : Call N} {m : Machine N H} (hadmits : s.point.admits c = true)
    (hm : m ∈ (c.run S.env).stops s.machine) : Safe S s (s.withMachine m) := by
  obtain ⟨hrecoverable, houtcome⟩ := run_stops h.facts.recoverable c hm
  obtain ⟨hmoves, hrates⟩ := Outcome.moves houtcome hadmits
  have htraces := run_traces h.facts.recoverable hm
  have hjournal : m.journal = s.machine.journal ∨ Steady m := by
    rcases htraces with ⟨hsame, -⟩ | hnone | ⟨p, hp, hc | ⟨-, cloud, c', rfl, -⟩⟩
    · exact Or.inl hsame
    · exact Or.inr (steady_of_none hnone)
    · exact Or.inr fun q hq => by rwa [Option.some.inj (hq.symm.trans hp)]
    · exact absurd hadmits (by simp [Point.admits])
  have hfacts := h.facts.withMachine hrecoverable hmoves (fun e he => events_of_traces htraces he) hjournal
  have hsteady : Steady s.machine → Steady m := by
    rintro hbefore
    rcases hjournal with hsame | hafter
    · intro p hp
      exact hbefore p (hsame.symm.trans hp)
    · exact hafter
  by_cases hidle : s.point = .idle
  · -- a pull may change the rates, but only between pushes
    refine ⟨⟨hfacts, ?_, fun hloaded => ?_⟩, fun raw hraw => Or.inl ?_⟩
    · show Point.Sound S _ s.point
      rw [hidle]
      trivial
    · exact hsteady (h.steady hloaded)
    · rw [← hraw]
      exact congrArg (getEntry S.receiptKey) hmoves.receipts
  · exact Safe.around h hfacts ⟨grows_withMachine hmoves, rfl, hmoves, hrates hidle⟩ rfl hsteady

/-- An attempt is noted. -/
theorem Facts.withAttempt (h : Facts S s) {a : Attempt N} (hmade : a.proposal ∈ s.exchange.made)
    (hvalid : S.Valid a.proposal) (hmerged : a.Merged S) (hsnapshot : (a.snapshot, a.localRates) ∈ s.snapshots) :
    Facts S { s with attempts := a :: s.attempts } := by
  have hattempts : s.attempts ⊆ a :: s.attempts := List.subset_cons_of_subset _ (List.Subset.refl _)
  have hgrows : Grows s { s with attempts := a :: s.attempts } :=
    ⟨hattempts, List.Subset.refl _, List.Subset.refl _, List.Subset.refl _, Exchange.Extends.refl _, fun _ _ h => h⟩
  refine ⟨h.recoverable, h.exchange, List.forall_mem_cons.mpr ⟨⟨hmade, hvalid, hmerged, hsnapshot⟩, h.attempts⟩,
    h.noChange, fun raw hraw => ?_, fun p c raw hp hc hraw => ?_, h.made,
    fun e he => (h.kept e he).imp id fun hpublished => hpublished.mono hgrows⟩
  · obtain ⟨b, hb, hrest⟩ := h.receipt raw hraw
    exact ⟨b, hattempts hb, hrest⟩
  · obtain ⟨b, hb, hrest⟩ := h.staged p c raw hp hc hraw
    exact ⟨b, hattempts hb, hrest⟩

/-- The Cloud document is read. -/
theorem Safe.read (h : Inv S s) (next : Option (Ciphertext N) → Point N)
    (hnext : (∀ c ∈ s.exchange.current, S.validEnvelope c = true) → (next s.exchange.current).Sound S
      { s with reads := s.exchange.current :: s.reads, point := next s.exchange.current })
    (hloaded : (next s.exchange.current).Loaded → Steady s.machine) : Safe S s (s.read S next) := by
  have hreads : s.reads ⊆ s.exchange.current :: s.reads := List.subset_cons_of_subset _ (List.Subset.refl _)
  have hnoChange : ∀ u ∈ s.unchanged,
      u.remote ∈ s.exchange.current :: s.reads ∧ u.Same S ∧ (u.snapshot, u.localRates) ∈ s.snapshots := by
    intro u hu
    obtain ⟨hread, hrest⟩ := h.facts.noChange u hu
    exact ⟨hreads hread, hrest⟩
  unfold System.read
  split
  · rename_i hvalid
    exact Safe.note h hreads (List.Subset.refl _) (List.Subset.refl _) hnoChange
      (hnext fun c hc => (Option.all_eq_true _ _).mp hvalid c hc) hloaded
  · exact Safe.note h hreads (List.Subset.refl _) (List.Subset.refl _) hnoChange trivial fun hidle => hidle.elim

/-- The queue is snapshotted. -/
theorem Safe.snapshot (h : Inv S s) {through : Int} {localRates : Prefs N} (hpoint : s.point = .loaded through localRates)
    {snap : Snapshot N} (hsnap : Rates.snapshot s.machine = .ok snap) (hgeneration : snap.generation = through) :
    Safe S s { s with
      point := .snapped through localRates snap
      snapshots := (snap, (Rates.settled s.machine).load.rates) :: s.snapshots } := by
  have hsteady := h.steady (by rw [hpoint]; trivial)
  obtain ⟨hqueue, -⟩ := settled_of_steady hsteady
  have hsound := h.sound
  rw [hpoint] at hsound
  obtain ⟨hclock, hlocal⟩ := hsound
  have hdirty : s.machine.queue.dirty = some through ∧ snap.intent.edits = s.machine.queue.events := by
    unfold Rates.snapshot at hsnap
    split at hsnap
    · rename_i generation hdirty
      obtain rfl := Except.ok.inj hsnap
      exact ⟨hgeneration ▸ hdirty, rfl⟩
    · exact absurd hsnap (by simp)
  -- while the queue is at the generation that was listed, the rates are those that were loaded
  have hrates : (Rates.settled s.machine).load.rates = localRates := hlocal (by rw [System.settled, hqueue]; exact hdirty.1)
  have hsnapshots : s.snapshots ⊆ (snap, (Rates.settled s.machine).load.rates) :: s.snapshots :=
    List.subset_cons_of_subset _ (List.Subset.refl _)
  refine Safe.note h (List.Subset.refl _) (List.Subset.refl _) hsnapshots (fun u hu => ?_) ?_ fun _ => hsteady
  · obtain ⟨hread, hsame, hsnapshot⟩ := h.facts.noChange u hu
    exact ⟨hread, hsame, hsnapshots hsnapshot⟩
  · refine ⟨⟨hclock, ?_⟩, hgeneration, ?_⟩
    · rw [hdirty.2, ← hqueue]
      exact Sync.Queue.covers_self _ _
    · rw [hrates]
      exact List.mem_cons_self

/-- **A document is prepared**: confirmed as it was read, or sealed. -/
theorem Safe.prepare (h : Inv S s) {through : Int} {localRates : Prefs N} {snap : Snapshot N}
    {remote : Option (Ciphertext N)} (hpoint : s.point = .fetched through localRates snap remote) :
    Safe S s (s.prepare S through localRates snap remote) := by
  have hsteady := h.steady (by rw [hpoint]; trivial)
  have hsound := h.sound
  rw [hpoint] at hsound
  obtain ⟨⟨hcovered, -, hsnapshot⟩, hread, hexpected⟩ := hsound
  unfold System.prepare
  split
  · exact Safe.idle h
  · rename_i cloud hcloud
    split
    · exact Safe.idle h
    · rename_i merged hmerged
      split
      · rename_i hsame
        have hunchanged : s.unchanged ⊆ (⟨snap, localRates, remote⟩ : NoChange N) :: s.unchanged :=
          List.subset_cons_of_subset _ (List.Subset.refl _)
        have hnew : remote ∈ s.reads ∧ (⟨snap, localRates, remote⟩ : NoChange N).Same S
            ∧ (snap, localRates) ∈ s.snapshots :=
          ⟨List.mem_of_head? hread, ⟨cloud, hcloud, hsame ▸ hmerged⟩, hsnapshot⟩
        refine Safe.note h (List.Subset.refl _) hunchanged (List.Subset.refl _)
          (List.forall_mem_cons.mpr ⟨hnew, h.facts.noChange⟩) ?_ fun _ => hsteady
        exact ⟨⟨remote, hread, hcloud⟩, snap.intent.edits, hcovered,
          fun e he => Or.inr ⟨_, List.mem_cons_self, hnew.1, hnew.2.1, hnew.2.2, he⟩⟩
      · have hextends := Exchange.extends_prepare s.exchange remote merged through
        obtain ⟨hfacts, hgrows⟩ := h.facts.withExchange (h.facts.exchange.prepare remote merged through) hextends
        dsimp only
        split
        · rename_i hvalid
          have hfacts' := hfacts.withAttempt (a := ⟨s.exchange.proposal remote merged through, snap, localRates⟩)
            List.mem_cons_self ⟨hvalid, hexpected⟩ ⟨cloud, hcloud, hmerged⟩ hsnapshot
          exact ⟨⟨hfacts'.goto _, ⟨List.mem_cons_self, hcovered⟩, fun _ => hsteady⟩, fun _ hraw => Or.inl hraw⟩
        · exact ⟨⟨hfacts.goto .idle, trivial, fun hidle => hidle.elim⟩, fun _ hraw => Or.inl hraw⟩

/-! ## Receipts -/

/-- Receipts of a machine without a confirmation under way. -/
theorem settled_withReceipts (h : Steady m) (receipts : List (Text × Text)) :
    settled { m with receipts := receipts } = { settled m with receipts := receipts } := by
  rcases Option.eq_none_or_eq_some m.journal with hjournal | ⟨p, hjournal⟩
  · rw [settled_of_none hjournal]
    exact settled_of_none hjournal
  · have hnone := h p hjournal
    rw [settled_of_edit hjournal hnone]
    exact settled_of_edit hjournal hnone

theorem recoverable_withReceipts (h : Steady m) (hrecoverable : Recoverable env m) (receipts : List (Text × Text)) :
    Recoverable env { m with receipts := receipts } := by
  intro p hp
  obtain ⟨hpath, hrates, hafter, hside, hkind⟩ := hrecoverable p hp
  refine ⟨hpath, hrates, hafter, hside, Or.inl ?_⟩
  rcases hkind with hedit | ⟨-, c, hc, -⟩
  · exact hedit
  · exact absurd ((h p hp).symm.trans hc) (by simp)

/-- Receipts change, and nothing else. -/
theorem Facts.withReceipts (h : Facts S s) (hsteady : Steady s.machine) (receipts : List (Text × Text))
    (hreceipt : ∀ raw, getEntry S.receiptKey receipts = some raw →
      ∃ a ∈ s.attempts, raw = S.toText a.proposal ∧ s.Covered a.proposal.tag a.snapshot.intent.edits) :
    Facts S { s with machine := { s.machine with receipts := receipts } }
      ∧ Grows s { s with machine := { s.machine with receipts := receipts } } := by
  have hsettled : System.settled { s with machine := { s.machine with receipts := receipts } }
      = { s.settled with receipts := receipts } := settled_withReceipts hsteady receipts
  have hcovered : ∀ through edits, s.Covered through edits →
      System.Covered { s with machine := { s.machine with receipts := receipts } } through edits := by
    intro through edits hcovered
    unfold System.Covered
    rw [hsettled]
    exact hcovered
  have hgrows : Grows s { s with machine := { s.machine with receipts := receipts } } :=
    ⟨List.Subset.refl _, List.Subset.refl _, List.Subset.refl _, List.Subset.refl _, Exchange.Extends.refl _, hcovered⟩
  refine ⟨⟨recoverable_withReceipts hsteady h.recoverable receipts, h.exchange, h.attempts, h.noChange,
    fun raw hraw => ?_, h.staged, h.made, fun e he => ?_⟩, hgrows⟩
  · rw [hsettled] at hraw
    obtain ⟨a, ha, heq, hcov⟩ := hreceipt raw hraw
    exact ⟨a, ha, heq, hcovered _ _ hcov⟩
  · rw [hsettled]
    exact (h.kept e he).imp id fun hpublished => hpublished.mono hgrows

/-- **A reservation** keeps the attempt whose snapshot the queue still is. -/
theorem Safe.reserve (h : Inv S s) {a : Attempt N} (hpoint : s.point = .prepared a) :
    Safe S s (s.reserve S a) := by
  have hsteady := h.steady (by rw [hpoint]; trivial)
  have hsound := h.sound
  rw [hpoint] at hsound
  obtain ⟨ha, hcovered⟩ := hsound
  unfold System.reserve
  split
  · rename_i hguard
    obtain ⟨hfacts, hgrows⟩ := h.facts.withReceipts hsteady
      (putEntry S.receiptKey (S.toText a.proposal) s.machine.receipts) fun raw hraw => by
        rw [getEntry_putEntry, if_pos rfl] at hraw
        exact ⟨a, ha, (Option.some.inj hraw).symm, hcovered⟩
    refine ⟨⟨hfacts.goto _, ⟨rfl, a, ha, rfl⟩, fun _ => hsteady⟩, fun raw hraw => ?_⟩
    exact absurd (hguard.1.symm.trans (stored_of_settled hraw)) (by simp)
  · exact Safe.idle h

/-- **A rejected attempt** gives up its own receipt. -/
theorem Safe.retireAttempt (h : Inv S s) {held : Held N} (hpoint : s.point.Rejects held) :
    Safe S s { s with machine := retireAttempt S held s.machine, point := .idle } := by
  have hloaded : s.point.Loaded := by
    rcases hpoint with hp | hp
    · rw [hp]; trivial
    · rw [hp]; trivial
  have hsteady := h.steady hloaded
  have hreserved : s.Reserved S held ∧ (held.proposal, false) ∈ s.exchange.log.outcomes := by
    have hsound := h.sound
    rcases hpoint with hp | hp
    · rw [hp] at hsound
      exact hsound
    · rw [hp] at hsound
      exact hsound
  unfold Publication.retireAttempt
  split
  · rename_i hstored
    obtain ⟨hfacts, hgrows⟩ := h.facts.withReceipts hsteady (dropEntry S.receiptKey s.machine.receipts)
      fun raw hraw => by
        rw [getEntry_dropEntry, if_pos rfl] at hraw
        exact absurd hraw (by simp)
    refine ⟨⟨hfacts.goto .idle, trivial, fun hidle => hidle.elim⟩, fun raw hraw => Or.inr ⟨?_, held, ?_, ?_⟩⟩
    · show stored S (Rates.settled { s.machine with receipts := dropEntry S.receiptKey s.machine.receipts }) = none
      rw [settled_withReceipts hsteady]
      show getEntry S.receiptKey (dropEntry S.receiptKey s.machine.receipts) = none
      rw [getEntry_dropEntry, if_pos rfl]
    · exact Option.some.inj (hstored.symm.trans (stored_of_settled hraw))
    · exact ⟨hreserved.1, Or.inl ⟨hpoint, hreserved.2⟩⟩
  · exact Safe.idle h

/-- The proposal of a stored receipt is taken up. -/
theorem Safe.takeUp (h : Inv S s) (hloaded : s.point.Loaded) {a : Attempt N} (ha : a ∈ s.attempts) {raw : Text}
    (hraw : raw = S.toText a.proposal) : Safe S s (s.goto (takeUp S raw)) := by
  unfold Publication.takeUp
  split
  · rename_i p hp
    rw [hraw] at hp
    obtain rfl := parseReceipt_toText (h.facts.attempts a ha).2.1 hp
    exact Safe.goto h ⟨hraw, a, ha, rfl⟩ fun _ => h.steady hloaded
  · exact Safe.idle h

/-! ## Confirmations -/

/-- **A confirmation loses no edit**: what it retires was in the confirmed snapshot, and the Cloud has that. -/
theorem Safe.confirm (h : Inv S s) {cloud : Prefs N} {through : Int} {receipt : Option (Held N)}
    (hpoint : s.point = .confirming cloud through receipt) {m : Machine N H}
    (hm : m ∈ ((Call.confirm cloud.toValue through (receipt.map fun h => (S.receiptKey, h.raw))).run S.env).stops
      s.machine) : Safe S s ((s.withMachine m).goto .idle) := by
  have hsound := h.sound
  rw [hpoint] at hsound
  obtain ⟨-, hsound⟩ := hsound
  obtain ⟨hrecoverable, houtcome⟩ := run_stops h.facts.recoverable _ hm
  have htraces := run_traces h.facts.recoverable hm
  have hqueue : (Rates.settled m).queue = s.settled.queue ∨ (Rates.settled m).queue = s.settled.queue.settle through :=
    (Outcome.confirms houtcome).imp (fun hsame => congrArg Machine.queue hsame) fun hconfirmed => hconfirmed.1
  have hgrows : Grows s (s.withMachine m) := by
    refine ⟨List.Subset.refl _, List.Subset.refl _, List.Subset.refl _, List.Subset.refl _, Exchange.Extends.refl _,
      fun generation edits hcovered => ?_⟩
    show generation ≤ (Rates.settled m).queue.clock ∧ (Rates.settled m).queue.Covers generation edits
    rcases hqueue with hqueue | hqueue
    · rw [hqueue]
      exact hcovered
    · rw [hqueue]
      exact ⟨hcovered.1, Sync.Queue.covers_settle hcovered.2 _⟩
  -- what the generation retires is published
  have hretired : Rates.settled m ≠ s.settled →
      ∃ edits, s.settled.queue.Covers through edits ∧ ∀ e ∈ edits, s.Published S e := by
    intro hmoved
    obtain ⟨-, -, hstored⟩ := (Outcome.confirms houtcome).resolve_left hmoved
    cases receipt with
    | none =>
      obtain ⟨edits, hcovered, hpublished⟩ := hsound
      exact ⟨edits, hcovered.2, hpublished⟩
    | some held =>
      obtain ⟨⟨hraw, a', ha', heq'⟩, rfl, happlied⟩ := hsound
      obtain ⟨a, ha, heq, hcovered⟩ := h.facts.receipt held.raw (hstored _ _ rfl).1
      obtain ⟨-, hvalid, hmerged, hsnapshot⟩ := h.facts.attempts a ha
      have hvalid' := (h.facts.attempts a' ha').2.1
      have hsame : a.proposal = held.proposal := by
        rw [← heq']
        refine hvalid.toText_inj hvalid' ?_
        rw [← heq, hraw, heq']
      rw [← hsame]
      exact ⟨a.snapshot.intent.edits, hcovered.2,
        fun e he => Or.inl ⟨a, ha, hsame ▸ happlied, hmerged, hsnapshot, he⟩⟩
  have hreceipt : ∀ raw, stored S s.settled = some raw → stored S (Rates.settled m) = some raw
      ∨ stored S (Rates.settled m) = none ∧ ∃ held, receipt = some held ∧ held.raw = raw := by
    intro raw hraw
    rcases Outcome.confirms houtcome with hsame | ⟨-, hkept, hdropped⟩
    · exact Or.inl (hsame ▸ hraw)
    · unfold stored
      cases receipt with
      | none => exact Or.inl (by rw [hkept rfl]; exact hraw)
      | some held =>
        obtain ⟨hheld, hreceipts⟩ := hdropped _ _ rfl
        rw [hreceipts, getEntry_dropEntry, if_pos rfl]
        exact Or.inr ⟨rfl, held, rfl, Option.some.inj (hheld.symm.trans hraw)⟩
  have hbefore : ∀ raw, stored S (Rates.settled m) = some raw → stored S s.settled = some raw := by
    intro raw hraw
    rcases Outcome.confirms houtcome with hsame | ⟨-, hkept, hdropped⟩
    · rw [hsame] at hraw
      exact hraw
    · unfold stored at hraw
      cases receipt with
      | none =>
        rw [hkept rfl] at hraw
        exact hraw
      | some held =>
        rw [(hdropped _ _ rfl).2, getEntry_dropEntry, if_pos rfl] at hraw
        exact absurd hraw (by simp)
  have hfacts : Facts S (s.withMachine m) := by
    refine ⟨hrecoverable, h.facts.exchange, h.facts.attempts, h.facts.noChange, fun raw hraw => ?_,
      fun p c raw hp hc hraw => ?_, fun e he => ?_, fun e he => ?_⟩
    · obtain ⟨a, ha, heq, hcovered⟩ := h.facts.receipt raw (hbefore raw hraw)
      exact ⟨a, ha, heq, hgrows.covered _ _ hcovered⟩
    · rcases htraces with ⟨hsame, -⟩ | hnone | ⟨q, hq, hnone | ⟨-, cloud', c', hcall, hc'⟩⟩
      · exact h.facts.staged p c raw (hsame.symm.trans hp) hc hraw
      · exact absurd (hnone.symm.trans hp) (by simp)
      · obtain rfl := Option.some.inj (hq.symm.trans hp)
        exact absurd (hnone.symm.trans hc) (by simp)
      · obtain rfl := Option.some.inj (hq.symm.trans hp)
        obtain rfl := Option.some.inj (hc'.symm.trans hc)
        injection hcall with hcloud hthrough hmap
        rw [hraw] at hmap
        obtain ⟨held, rfl, hheld⟩ := Option.map_eq_some_iff.mp hmap
        obtain ⟨⟨hheldRaw, a, ha, heq⟩, htag, happlied⟩ := hsound
        refine ⟨a, ha, ?_, ?_, heq ▸ happlied⟩
        · rw [heq, ← hheldRaw]
          exact (congrArg Prod.snd hheld).symm
        · rw [heq, ← htag, hthrough]
    · by_cases hold : e ∈ s.made
      · exact List.mem_append_right _ hold
      · exact List.mem_append_left _ (List.mem_filter.mpr ⟨he, decide_eq_true hold⟩)
    · rcases List.mem_append.mp he with hnew | hold
      · obtain ⟨hqueued, hfresh⟩ := List.mem_filter.mp hnew
        rcases events_of_traces htraces hqueued with hold | hafter
        · exact absurd (h.facts.made e hold) (of_decide_eq_true hfresh)
        · exact Or.inl hafter
      · rcases h.facts.kept e hold with hqueued | hpublished
        · by_cases hstays : e ∈ (Rates.settled m).queue.events
          · exact Or.inl hstays
          · have hmoved : Rates.settled m ≠ s.settled := fun hsame => hstays (hsame ▸ hqueued)
            obtain ⟨edits, hcovers, hpublished⟩ := hretired hmoved
            have hsettle := hqueue.resolve_left fun hsame => hstays (hsame ▸ hqueued)
            rw [hsettle] at hstays
            exact Or.inr ((hpublished e (Sync.Queue.mem_of_settled hcovers hqueued hstays)).mono hgrows)
        · exact Or.inr (hpublished.mono hgrows)
  refine ⟨⟨hfacts.goto .idle, trivial, fun hidle => hidle.elim⟩, fun raw hraw => ?_⟩
  rcases hreceipt raw hraw with hstays | ⟨hnone, held, rfl, hheld⟩
  · exact Or.inl hstays
  · obtain ⟨hreserved, rfl, happlied⟩ := hsound
    exact Or.inr ⟨hnone, held, hheld, hreserved, Or.inr ⟨⟨cloud, hpoint⟩, happlied⟩⟩

/-! ## Programs of the device -/

/-- The machine moves by a program of the push, without a confirmation. -/
theorem Safe.moved (h : Inv S s) {m : Machine N H} (hrecoverable : Recoverable S.env m)
    (hmoves : Moves s.settled (Rates.settled m))
    (hjournal : (m.journal = s.machine.journal ∧ m.queue = s.machine.queue) ∨ m.journal = none) {p : Point N}
    (hp : p.Sound S (s.withMachine m)) (hsteady : p.Loaded → Steady m) : Safe S s ((s.withMachine m).goto p) := by
  have hevents : ∀ e ∈ m.queue.events, e ∈ s.machine.queue.events ∨ e ∈ (Rates.settled m).queue.events := by
    intro e he
    rcases hjournal with ⟨-, hqueue⟩ | hnone
    · exact Or.inl (hqueue ▸ he)
    · exact Or.inr (by rwa [settled_of_none hnone])
  have hfacts := h.facts.withMachine hrecoverable hmoves hevents (hjournal.imp And.left steady_of_none)
  refine ⟨⟨hfacts.goto p, hp.goto p, hsteady⟩, fun raw hraw => Or.inl ?_⟩
  rw [← hraw]
  exact congrArg (getEntry S.receiptKey) hmoves.receipts

/-- A program is stopped, or runs to its end. -/
theorem System.runs_eq_some {A : Type} {x : Stoppable (Machine N H) String A} {stopped : Option Nat} {next : A → Point N}
    (h : s.runs x stopped next = some t) : ∃ m ∈ x.stops s.machine, t = (s.withMachine m).goto .idle
      ∨ ∃ a, x.result s.machine = .ok a ∧ m = x.final s.machine ∧ t = (s.withMachine m).goto (next a) := by
  unfold System.runs at h
  cases stopped with
  | some i =>
    obtain ⟨m, hm, rfl⟩ := Option.map_eq_some_iff.mp h
    exact ⟨m, List.mem_of_getElem? hm, Or.inl rfl⟩
  | none =>
    obtain rfl := Option.some.inj h
    refine ⟨_, Stoppable.final_mem_stops x s.machine, ?_⟩
    cases hresult : x.result s.machine with
    | ok a => exact Or.inr ⟨a, rfl, rfl, rfl⟩
    | error e => exact Or.inl rfl

/-- The preferences are loaded. -/
theorem Safe.load (h : Inv S s) {through : Int} (hpoint : s.point = .listed through) {stopped : Option Nat}
    (ht : s.runs (recover S.env) stopped (fun prefs => .loaded through prefs.rates) = some t) : Safe S s t := by
  obtain ⟨hresult, hfinal, hstops⟩ := recover_settles h.facts.recoverable
  have hclock := h.sound
  rw [hpoint] at hclock
  obtain ⟨m, hm, ht⟩ := System.runs_eq_some ht
  obtain ⟨hrecoverable, hsettled⟩ := hstops m hm
  have hmoves : Moves s.settled (Rates.settled m) := hsettled ▸ Moves.refl _
  have hjournal : (m.journal = s.machine.journal ∧ m.queue = s.machine.queue) ∨ m.journal = none :=
    (recover_traces h.facts.recoverable hm).imp id fun hsame => by
      rw [hsame]
      exact journal_settled _
  rcases ht with rfl | ⟨prefs, hprefs, hend, rfl⟩
  · exact Safe.moved h hrecoverable hmoves hjournal trivial fun hidle => hidle.elim
  · obtain rfl := Except.ok.inj (hresult.symm.trans hprefs)
    have hnone : m.journal = none := by
      rw [hend, hfinal]
      exact journal_settled _
    refine Safe.moved h hrecoverable hmoves hjournal ?_ fun _ => steady_of_none hnone
    show through ≤ (Rates.settled m).queue.clock ∧ ((Rates.settled m).queue.dirty = some through →
      (Rates.settled m).load.rates = (Rates.settled s.machine).load.rates)
    rw [hsettled]
    exact ⟨hclock, fun _ => rfl⟩

/-- The first publication is queued. -/
theorem Safe.queueInitial (h : Inv S s) (hpoint : s.point = .initialRead none) {now : Int} {stopped : Option Nat}
    (ht : s.runs (queueInitialRates S.env now) stopped (fun _ => .marking none) = some t) : Safe S s t := by
  have hread := h.sound
  rw [hpoint] at hread
  obtain ⟨m, hm, ht⟩ := System.runs_eq_some ht
  obtain ⟨hrecoverable, hmoves, -, hjournal⟩ := queueInitialRates_stops h.facts.recoverable hm
  rcases ht with rfl | ⟨u, hok, rfl, rfl⟩
  · exact Safe.moved h hrecoverable hmoves hjournal trivial fun hidle => hidle.elim
  · exact Safe.moved h hrecoverable hmoves hjournal
      ⟨hread, fun _ => ready_of_queueInitialRates h.facts.recoverable hok⟩ fun hidle => hidle.elim

/-- **Steps of a push.** -/
theorem safe_push {act : Act N} (h : Inv S s) (hstep : s.push S act = some t) : Safe S s t := by
  have hsound := h.sound
  have hsteady := h.steady
  cases act with
  | begin =>
    simp only [System.push] at hstep
    split at hstep
    · rename_i hpoint
      split at hstep
      · obtain rfl := Option.some.inj hstep
        exact Safe.goto h trivial fun hl => hl.elim
      · split at hstep
        · obtain rfl := Option.some.inj hstep
          exact Safe.goto h trivial fun hl => hl.elim
        · obtain rfl := Option.some.inj hstep
          exact ⟨h, fun _ hraw => Or.inl hraw⟩
    · exact absurd hstep (by simp)
  | readInitial =>
    simp only [System.push] at hstep
    split at hstep
    · obtain rfl := Option.some.inj hstep
      refine Safe.read h _ (fun _ => ?_) ?_
      · unfold orIdle
        split
        · exact (rfl : (s.exchange.current :: s.reads).head? = some s.exchange.current)
        · trivial
      · unfold orIdle
        split
        · exact fun hl => hl.elim
        · exact fun hl => hl.elim
    · exact absurd hstep (by simp)
  | queueInitial now stopped =>
    simp only [System.push] at hstep
    split at hstep
    · rename_i c hpoint
      rw [hpoint] at hsound
      obtain rfl := Option.some.inj hstep
      exact Safe.goto h ⟨hsound, fun hnone => absurd hnone (by simp)⟩ fun hl => hl.elim
    · rename_i hpoint
      exact Safe.queueInitial h hpoint hstep
    · exact absurd hstep (by simp)
  | mark =>
    simp only [System.push] at hstep
    split at hstep
    · obtain rfl := Option.some.inj hstep
      exact ⟨⟨⟨h.facts.1, h.facts.2, h.facts.3, h.facts.4, h.facts.5, h.facts.6, h.facts.7, h.facts.8⟩, trivial,
        fun hl => hl.elim⟩, fun _ hraw => Or.inl hraw⟩
    · exact absurd hstep (by simp)
  | list =>
    simp only [System.push] at hstep
    split at hstep
    · rename_i through hpoint hdirty
      obtain rfl := Option.some.inj hstep
      refine Safe.goto h ?_ fun hl => hl.elim
      show through ≤ (Rates.settled s.machine).queue.clock
      rw [clock_settled]
      exact s.machine.queue.ticked _ hdirty
    · obtain rfl := Option.some.inj hstep
      exact Safe.idle h
    · exact absurd hstep (by simp)
  | load stopped =>
    simp only [System.push] at hstep
    split at hstep
    · rename_i through hpoint
      exact Safe.load h hpoint hstep
    · exact absurd hstep (by simp)
  | snapshot =>
    simp only [System.push] at hstep
    split at hstep
    · rename_i through localRates snap hpoint hsnap
      split at hstep
      · rename_i hgeneration
        obtain rfl := Option.some.inj hstep
        exact Safe.snapshot h hpoint hsnap hgeneration
      · obtain rfl := Option.some.inj hstep
        exact Safe.idle h
    · obtain rfl := Option.some.inj hstep
      exact Safe.idle h
    · exact absurd hstep (by simp)
  | lookup =>
    simp only [System.push] at hstep
    split at hstep
    · rename_i through localRates snap raw hpoint hstored
      obtain rfl := Option.some.inj hstep
      have hloaded : s.point.Loaded := by rw [hpoint]; trivial
      have hreceipt : stored S s.settled = some raw := by
        rw [← hstored]
        exact congrArg (getEntry S.receiptKey) (settled_of_steady (hsteady hloaded)).2
      obtain ⟨a, ha, hraw, -⟩ := h.facts.receipt raw hreceipt
      exact Safe.takeUp h hloaded ha hraw
    · rename_i hpoint _
      rw [hpoint] at hsound hsteady
      obtain rfl := Option.some.inj hstep
      exact Safe.goto h hsound hsteady
    · exact absurd hstep (by simp)
  | fetch =>
    simp only [System.push] at hstep
    split at hstep
    · rename_i hpoint
      rw [hpoint] at hsound hsteady
      obtain rfl := Option.some.inj hstep
      exact Safe.read h _ (fun hvalid => ⟨hsound, rfl, hvalid⟩) hsteady
    · exact absurd hstep (by simp)
  | prepare =>
    simp only [System.push] at hstep
    split at hstep
    · rename_i hpoint
      obtain rfl := Option.some.inj hstep
      exact Safe.prepare h hpoint
    · exact absurd hstep (by simp)
  | reserve =>
    simp only [System.push] at hstep
    split at hstep
    · rename_i hpoint
      obtain rfl := Option.some.inj hstep
      exact Safe.reserve h hpoint
    · exact absurd hstep (by simp)
  | post =>
    simp only [System.push] at hstep
    split at hstep
    · rename_i held hpoint
      rw [hpoint] at hsound
      obtain rfl := Option.some.inj hstep
      exact Safe.post h hsound (Or.inl rfl) (by rw [hpoint]; trivial)
    · exact absurd hstep (by simp)
  | receive applied =>
    -- first post and repeated post alike: the answer is one the log holds
    simp only [System.push] at hstep
    split at hstep
    · rename_i held hpoint
      rw [hpoint] at hsound hsteady
      obtain ⟨hmem, hstep⟩ := Option.ite_none_right_eq_some.mp hstep
      obtain rfl := Option.some.inj hstep
      exact Safe.goto h ⟨hsound, h.facts.exchange.responses _ hmem⟩ hsteady
    · rename_i held hpoint
      rw [hpoint] at hsound hsteady
      obtain ⟨hmem, hstep⟩ := Option.ite_none_right_eq_some.mp hstep
      obtain rfl := Option.some.inj hstep
      exact Safe.goto h ⟨hsound, h.facts.exchange.responses _ hmem⟩ hsteady
    · exact absurd hstep (by simp)
  | giveUp =>
    simp only [System.push] at hstep
    split at hstep
    · rename_i held hpoint
      rw [hpoint] at hsound
      obtain rfl := Option.some.inj hstep
      obtain ⟨hraw, a, ha, heq⟩ := hsound
      exact Safe.takeUp h (by rw [hpoint]; trivial) ha (by rw [hraw, heq])
    · obtain rfl := Option.some.inj hstep
      exact Safe.idle h
    · exact absurd hstep (by simp)
  | conclude =>
    simp only [System.push] at hstep
    split at hstep
    · rename_i held hpoint
      rw [hpoint] at hsound hsteady
      obtain rfl := Option.some.inj hstep
      exact Safe.goto h ⟨hsound.1, h.facts.exchange.applied_iff.mpr hsound.2⟩ hsteady
    · rename_i held hpoint
      rw [hpoint] at hsound hsteady
      obtain rfl := Option.some.inj hstep
      exact Safe.goto h ⟨hsound.1, h.facts.exchange.applied_iff.mpr hsound.2⟩ hsteady
    · rename_i held hpoint
      obtain rfl := Option.some.inj hstep
      exact Safe.retireAttempt h (Or.inl hpoint)
    · rename_i held hpoint
      obtain rfl := Option.some.inj hstep
      exact Safe.retireAttempt h (Or.inr hpoint)
    · exact absurd hstep (by simp)
  | readBack =>
    simp only [System.push] at hstep
    split at hstep
    · rename_i held hpoint
      rw [hpoint] at hsound hsteady
      obtain rfl := Option.some.inj hstep
      obtain ⟨hraw, a, ha, heq⟩ := hsound
      refine Safe.read h _ (fun _ => ⟨⟨hraw, a, ha, heq⟩, rfl, fun hcurrent => ?_⟩) hsteady
      exact h.facts.exchange.published _ (heq ▸ (h.facts.attempts a ha).1) hcurrent
    · exact absurd hstep (by simp)
  | decide =>
    simp only [System.push] at hstep
    split at hstep
    · rename_i held current hpoint
      rw [hpoint] at hsound hsteady
      obtain ⟨hreserved, hread, hshown⟩ := hsound
      split at hstep
      · rename_i hsame
        obtain rfl := Option.some.inj hstep
        unfold orIdle
        split
        · rename_i cloud hcloud
          exact Safe.goto h ⟨⟨current, hread, hcloud⟩, hreserved, rfl, hshown hsame⟩ hsteady
        · exact Safe.idle h
      · obtain rfl := Option.some.inj hstep
        exact Safe.post h hreserved (Or.inr rfl) (by rw [hpoint]; trivial)
    · exact absurd hstep (by simp)
  | reread =>
    simp only [System.push] at hstep
    split at hstep
    · rename_i held hpoint
      rw [hpoint] at hsound hsteady
      obtain rfl := Option.some.inj hstep
      refine Safe.read h _ (fun _ => ?_) fun _ => hsteady trivial
      unfold orIdle
      split
      · rename_i cloud hcloud
        exact ⟨⟨s.exchange.current, rfl, hcloud⟩, hsound.1, rfl, hsound.2⟩
      · trivial
    · exact absurd hstep (by simp)
  | confirm i =>
    simp only [System.push] at hstep
    split at hstep
    · rename_i cloud through receipt hpoint
      obtain ⟨m, hm, rfl⟩ := Option.map_eq_some_iff.mp hstep
      exact Safe.confirm h hpoint (List.mem_of_getElem? hm)
    · exact absurd hstep (by simp)
  | _ => exact absurd hstep (by simp [System.push])

/-- **Every step is safe.** -/
theorem safe_step {act : Act N} (h : Inv S s) (hstep : step S s act = some t) : Safe S s t := by
  cases act with
  | call c i =>
    obtain ⟨hadmits, hstep⟩ := Option.ite_none_right_eq_some.mp hstep
    obtain ⟨m, hm, rfl⟩ := Option.map_eq_some_iff.mp hstep
    exact Safe.call h hadmits (List.mem_of_getElem? hm)
  | otherWrite doc =>
    obtain rfl := Option.some.inj hstep
    exact Safe.withExchange h (h.facts.exchange.otherWrite doc) (Exchange.extends_otherWrite _ _)
  | deliver i lost =>
    obtain ⟨x, hx, rfl⟩ := Option.map_eq_some_iff.mp hstep
    exact Safe.withExchange h (h.facts.exchange.deliver hx) (Exchange.extends_deliver hx)
  | lose i =>
    obtain rfl := Option.some.inj hstep
    exact Safe.withExchange h (h.facts.exchange.lose i) (Exchange.extends_lose _ _)
  | restart =>
    obtain rfl := Option.some.inj hstep
    exact Safe.idle h
  | _ =>
    simp only [step] at hstep
    exact safe_push h hstep

/-! ## Runs -/

variable (S) in
/-- A device before its first publication in this pairing: nothing under way, nothing reserved, nothing sent. Preferences,
queued edits, marker and Cloud are arbitrary. -/
structure Start (s : System N H) : Prop where
  journal : s.machine.journal = none
  receipt : stored S s.machine = none
  exchange : ∃ current nextNonce, s.exchange = .start current nextNonce ∧ ∀ c ∈ current, c.nonce < nextNonce
  point : s.point = .idle
  made : s.made = s.machine.queue.events
  attempts : s.attempts = []
  unchanged : s.unchanged = []

theorem Start.inv (h : Start S s) : Inv S s := by
  have hsettled : s.settled = s.machine := settled_of_none h.journal
  obtain ⟨current, nextNonce, hexchange, hnonce⟩ := h.exchange
  refine ⟨⟨recoverable_of_none _ h.journal, ?_, ?_, ?_, fun raw hraw => ?_, fun p c raw hp => ?_, ?_, fun e he => ?_⟩, ?_, ?_⟩
  · rw [hexchange]
    exact Exchange.sound_start hnonce
  · simp [h.attempts]
  · simp [h.unchanged]
  · rw [hsettled, h.receipt] at hraw
    exact absurd hraw (by simp)
  · exact absurd (h.journal.symm.trans hp) (by simp)
  · simp [h.made]
  · rw [hsettled, ← h.made]
    exact Or.inl he
  · rw [h.point]
    trivial
  · rw [h.point]
    exact fun hloaded => hloaded.elim

/-- Only a push that has read the Cloud sets the marker. -/
theorem marking_of_checked {act : Act N} (hstep : step S s act = some t) (hbefore : s.checked = false)
    (hafter : t.checked = true) : ∃ current, s.point = .marking current := by
  have hsame : ∀ {t : System N H}, t.checked = s.checked → t.checked = true → ∃ current, s.point = .marking current := by
    intro t heq hchecked
    rw [heq, hbefore] at hchecked
    exact absurd hchecked (by simp)
  have hruns : ∀ {A : Type} {x : Stoppable (Machine N H) String A} {stopped next}, s.runs x stopped next = some t →
      ∃ current, s.point = .marking current := by
    intro A x stopped next hrun
    obtain ⟨m, -, rfl | ⟨a, -, -, rfl⟩⟩ := System.runs_eq_some hrun
    · exact hsame rfl hafter
    · exact hsame rfl hafter
  have hprepare : ∀ {through localRates snap remote}, some (s.prepare S through localRates snap remote) = some t →
      ∃ current, s.point = .marking current := by
    intro through localRates snap remote heq
    obtain rfl := Option.some.inj heq
    refine hsame ?_ hafter
    unfold System.prepare
    split
    · rfl
    split
    · rfl
    split
    · rfl
    dsimp only
    split <;> rfl
  have hreserve : ∀ {a}, some (s.reserve S a) = some t → ∃ current, s.point = .marking current := by
    intro a heq
    obtain rfl := Option.some.inj heq
    refine hsame ?_ hafter
    unfold System.reserve
    split <;> rfl
  cases act with
  | mark =>
    simp only [step, System.push] at hstep
    split at hstep
    · rename_i current hpoint
      exact ⟨current, hpoint⟩
    · exact absurd hstep (by simp)
  | call c i =>
    obtain ⟨-, hstep⟩ := Option.ite_none_right_eq_some.mp hstep
    obtain ⟨m, -, rfl⟩ := Option.map_eq_some_iff.mp hstep
    exact hsame rfl hafter
  | deliver i lost =>
    obtain ⟨x, -, rfl⟩ := Option.map_eq_some_iff.mp hstep
    exact hsame rfl hafter
  | _ =>
    simp only [step, System.push] at hstep
    repeat' split at hstep
    all_goals first
      | exact hruns hstep
      | exact hprepare hstep
      | exact hreserve hstep
      | exact hsame (congrArg System.checked (Option.some.inj hstep)).symm hafter
      | exact absurd hstep (Option.some_ne_none _).symm

/-- The attempt was turned down, and its receipt goes. -/
def System.Rejecting (s : System N H) (a : Attempt N) : Prop := ∃ raw, s.point.Rejects ⟨a.proposal, raw⟩

variable (S) in
/-- The attempt is about to be confirmed, or its confirmation is in the journal. -/
def System.Confirming (s : System N H) (a : Attempt N) : Prop :=
  (∃ raw, s.point.Confirms ⟨a.proposal, raw⟩)
    ∨ ∃ p c, s.machine.journal = some p ∧ p.confirmation = some c ∧ c.through = a.proposal.tag
      ∧ c.receipt = some (S.receiptKey, S.toText a.proposal)

/-- A step takes a stored receipt only with the rejection or the confirmation of its attempt. -/
theorem Inv.receipt_goes (h : Inv S s) {act : Act N} (hstep : step S s act = some t) {raw : Text}
    (hraw : stored S s.machine = some raw) (hgone : stored S t.machine ≠ some raw) :
    ∃ a ∈ s.attempts, raw = S.toText a.proposal
      ∧ (s.Rejecting a ∧ s.exchange.Refused a.proposal ∨ s.Confirming S a ∧ s.exchange.Applied a.proposal) := by
  rcases stored_settled S h.facts.recoverable hraw with hsettled | ⟨-, p, c, hp, hc, hreceipt⟩
  · rcases (safe_step h hstep).receipt raw hsettled with hstays | ⟨-, held, rfl, ⟨hheld, a, ha, heq⟩, hwhy⟩
    · exact absurd (stored_of_settled hstays) hgone
    · obtain ⟨proposal, raw⟩ := held
      obtain rfl := heq
      refine ⟨a, ha, hheld, ?_⟩
      rcases hwhy with ⟨hrejects, hrefused⟩ | ⟨hconfirms, happlied⟩
      · exact Or.inl ⟨⟨raw, hrejects⟩, hrefused⟩
      · exact Or.inr ⟨Or.inl ⟨raw, hconfirms⟩, happlied⟩
  · obtain ⟨a, ha, heq, hthrough, happlied⟩ := h.facts.staged p c raw hp hc hreceipt
    exact ⟨a, ha, heq, Or.inr ⟨Or.inr ⟨p, c, hp, hc, hthrough, heq ▸ hreceipt⟩, happlied⟩⟩

/-- The document with the first price, as the Cloud has it. -/
def cloudPrice : Ciphertext ℕ := ⟨0, (onePrice 1).toValue⟩

/-- The document with the second price, as the device seals it. -/
def sentPrice : Ciphertext ℕ := ⟨1, (onePrice 2).toValue⟩

def envelopeCode (c : Ciphertext ℕ) : Char := if c = cloudPrice then '0' else '1'

def ofEnvelopeCode (code : Char) : Ciphertext ℕ := if code = '0' then cloudPrice else sentPrice

/-- A generation in tally marks. -/
def generationText : Int → Text
  | .ofNat n => 'p' :: List.replicate n 'x'
  | .negSucc n => 'm' :: List.replicate n 'x'

/-- A proposal between the two documents, as a text. -/
def plainText (p : Proposal ℕ) : Text :=
  p.expected.elim 'n' envelopeCode :: envelopeCode p.content :: generationText p.tag

/-- The proposal of a text. -/
def plainProposal : Text → Option (Proposal ℕ)
  | expected :: content :: sign :: rest =>
    some ⟨if expected = 'n' then none else some (ofEnvelopeCode expected), ofEnvelopeCode content,
      if sign = 'p' then .ofNat rest.length else .negSucc rest.length⟩
  | _ => none

theorem ofEnvelopeCode_envelopeCode {c : Ciphertext ℕ} (h : c = cloudPrice ∨ c = sentPrice) :
    ofEnvelopeCode (envelopeCode c) = c := by
  rcases h with rfl | rfl
  · decide +kernel
  · decide +kernel

theorem plainProposal_generationText (expected content : Char) (tag : Int) :
    plainProposal (expected :: content :: generationText tag)
      = some ⟨if expected = 'n' then none else some (ofEnvelopeCode expected), ofEnvelopeCode content, tag⟩ := by
  cases tag with
  | ofNat n => simp [plainProposal, generationText]
  | negSucc n => simp [plainProposal, generationText]

/-- A pairing in which the two documents are the valid envelopes. -/
def plainSetup : Setup ℕ ℕ (Prefs ℕ) where
  env := plainEnv
  receiptKey := ['k']
  validEnvelope := fun c => decide (c = cloudPrice ∨ c = sentPrice)
  toText := plainText
  ofText := plainProposal
  ofText_toText := by
    rintro ⟨expected, content, tag⟩ hcontent hexpected
    have hcontent := ofEnvelopeCode_envelopeCode (of_decide_eq_true hcontent)
    unfold plainText
    rw [plainProposal_generationText, hcontent]
    cases expected with
    | none => rfl
    | some c =>
      have hc := ofEnvelopeCode_envelopeCode (of_decide_eq_true (hexpected c rfl))
      have hcode : envelopeCode c ≠ 'n' := by
        unfold envelopeCode
        split <;> decide
      simp [hcode, hc]

/-- A device on which nothing was published yet. -/
def unpublished (machine : Machine ℕ (Prefs ℕ)) (checked : Bool) (cloud : Option (Ciphertext ℕ)) (nextNonce : ℕ) :
    System ℕ (Prefs ℕ) where
  machine := machine
  checked := checked
  exchange := .start cloud nextNonce
  point := .idle
  made := machine.queue.events
  attempts := []
  snapshots := []
  reads := []
  unchanged := []

theorem start_unpublished {machine : Machine ℕ (Prefs ℕ)} (hjournal : machine.journal = none)
    (hreceipts : machine.receipts = []) (checked : Bool) {cloud : Option (Ciphertext ℕ)}
    {nextNonce : ℕ} (hcloud : ∀ c ∈ cloud, c.nonce < nextNonce) :
    Start plainSetup (unpublished machine checked cloud nextNonce) := by
  refine ⟨hjournal, ?_, ⟨cloud, nextNonce, rfl, hcloud⟩, rfl, rfl, rfl, rfl⟩
  show getEntry plainSetup.receiptKey machine.receipts = none
  rw [hreceipts]
  rfl

/-- The price is changed, its write is applied, the answer is lost and the device restarts. -/
def lostAnswer : List (Act ℕ) :=
  [.call priceEdit 3, .begin, .list, .load none, .snapshot, .lookup, .fetch, .prepare, .reserve, .post, .deliver 0 true,
    .restart, .begin, .list, .load none, .snapshot, .lookup, .readBack, .decide, .confirm 3]

/-- The price is changed to the one the Cloud has, and the push confirms it. -/
def agreedEdit : List (Act ℕ) :=
  [.call priceEdit 3, .begin, .list, .load none, .snapshot, .lookup, .fetch, .prepare, .confirm 3]

/-- The first publication of a device without rates, to a Cloud without a document. -/
def blankPublication : List (Act ℕ) := [.begin, .readInitial, .queueInitial 7 none, .mark]

end SentryUsb.Rates.Publication
