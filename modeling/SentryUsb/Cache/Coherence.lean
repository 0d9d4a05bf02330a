import SentryUsb.Cache.Machine

/-! # Coherence of the drive list cache

* **`patchTags_fullRebuild`** — patching a rebuilt list is rebuilding with the patched tags;
* **`Inv`** — the cached list is the grouping of the rows and of tags that agree with the stored ones
  wherever no patch is owed, or a rebuild is flagged, owed or under way;
* **`inv_step`** — every step of every thread keeps it;
* **`cachedList_eq_fullRebuild`** — so a settled store serves the grouping of its rows and tags. -/

namespace SentryUsb

open Library

/-! ## Patching a rebuilt list -/

/-- Tags do not enter the overlap filter. -/
theorem hideTessie_patchTags (key : Int) (tags : List Text) (list : List DriveSummary) :
    hideTessieOverlappingSei (patchTags key tags list)
      = patchTags key tags (hideTessieOverlappingSei list) := by
  have htessie : ∀ d : DriveSummary,
      isTessie (if d.startTime = key then { d with tags := tags } else d) = isTessie d := by
    intro d
    split <;> rfl
  have hstart : ∀ d : DriveSummary,
      (if d.startTime = key then { d with tags := tags } else d).startTime = d.startTime := by
    intro d
    split <;> rfl
  have hend : ∀ d : DriveSummary,
      (if d.startTime = key then { d with tags := tags } else d).endTime = d.endTime := by
    intro d
    split <;> rfl
  simp only [hideTessieOverlappingSei, patchTags, List.filter_map, List.map_map, Function.comp_def,
    htessie, hstart, hend]

theorem patchTags_numberFrom (key : Int) (new : List Text) (tags : TagMap) (n : Nat)
    (l : List (List SubClip)) :
    patchTags key new (numberFrom tags n l) = numberFrom (Function.update tags key new) n l := by
  induction l generalizing n with
  | nil => rfl
  | cons g l ih =>
    unfold patchTags at ih
    simp only [numberFrom, patchTags, List.map_cons, ih, List.cons.injEq, and_true]
    by_cases hkey : (groupStart g).getD 0 = key
    · simp [buildSummaryFromAggregates, hkey]
    · simp [buildSummaryFromAggregates, hkey]

/-- **Patching a rebuilt list is rebuilding with the patched tags.** -/
theorem patchTags_fullRebuild (o : BucketOrder) (rows : List RouteSummary) (tags : TagMap) (key : Int)
    (new : List Text) :
    patchTags key new (fullRebuild o rows tags)
      = fullRebuild o rows (Function.update tags key new) := by
  unfold fullRebuild groupSummariesFast
  rw [← patchTags_numberFrom, hideTessie_patchTags]

/-- A key that is no visible drive patches nothing. -/
theorem patchTags_of_no_hit {key : Int} {tags : List Text} {list : List DriveSummary}
    (h : (list.any fun d => decide (d.startTime = key)) = false) : patchTags key tags list = list := by
  rw [List.any_eq_false] at h
  unfold patchTags
  conv_rhs => rw [← List.map_id list]
  refine List.map_congr_left fun d hd => ?_
  have hne : d.startTime ≠ key := by simpa using h d hd
  simp [hne]

/-! ## What edits owe -/

/-- Members of a list of lists, less the entry at one place. -/
theorem mem_flatten_of_getElem? {α : Type*} {l : List (List α)} {i : Nat} {t : List α} {b : α}
    (h : l[i]? = some t) : b ∈ l.flatten ↔ b ∈ t ∨ b ∈ (l.set i []).flatten := by
  induction l generalizing i with
  | nil => simp at h
  | cons u l ih =>
    cases i with
    | zero =>
      obtain rfl : u = t := by simpa using h
      simp
    | succ i =>
      have := ih (i := i) (by simpa using h)
      simp only [List.flatten_cons, List.mem_append, List.set_cons_succ, this]
      tauto

theorem mem_flatten_set {α : Type*} {l : List (List α)} {i : Nat} {t u : List α} {b : α}
    (h : l[i]? = some t) : b ∈ (l.set i u).flatten ↔ b ∈ u ∨ b ∈ (l.set i []).flatten := by
  have hlen : i < l.length := (List.getElem?_eq_some_iff.mp h).1
  have hget : (l.set i u)[i]? = some u := by simp [hlen]
  rw [mem_flatten_of_getElem? hget, List.set_set]

variable {o : BucketOrder} {s s' : Store}

/-- A rebuild is flagged, or an edit owes a flag. -/
def Flagged (s : Store) : Prop :=
  s.dirty = true ∨ s.watermark.isSome = true ∨ .dirty ∈ s.owed ∨ ∃ ts, .append ts ∈ s.owed

/-- A tag map agrees with the stored tags wherever no patch is owed. -/
def TagsAgree (s : Store) (tags : TagMap) : Prop :=
  ∀ k, .patch k ∉ s.owed → tags k = tagMap s.tags k

/-- The cached list is the grouping of the rows, up to patches, unless a rebuild is flagged. -/
def Coherent (o : BucketOrder) (s : Store) : Prop :=
  Flagged s ∨ ∃ tags, TagsAgree s tags
    ∧ s.cache.list = some (fullRebuild o (summariesOf s.rows) tags)

/-- A snapshot is current, up to patches, unless a rebuild is flagged. -/
def SnapCurrent (s : Store) (snap : Snapshot) : Prop :=
  Flagged s ∨ (snap.rows = s.rows ∧ TagsAgree s (tagMap snap.tags))

/-- The grouping of a snapshot. -/
def Snapshot.list (o : BucketOrder) (snap : Snapshot) : List DriveSummary :=
  fullRebuild o (summariesOf snap.rows) (tagMap snap.tags)

/-- What holds while the rebuild lock is at a phase. Once a rebuild has consumed a flag, nothing is
known of the cached list; from its snapshot on, the snapshot takes the list's place. -/
def PhaseInv (o : BucketOrder) (s : Store) : Phase → Prop
  | .free => Coherent o s
  | .patching _ _ => Coherent o s
  | .patchRead key _ list tags =>
    Coherent o s ∧ s.conn = .patcher ∧ s.cache.list = some list ∧ tags = tagMap s.tags key
  | .started _ => Coherent o s
  | .swapped full => full = false → Coherent o s
  | .taken full wm => full = false → wm = none → Coherent o s
  | .loaded _ snap => SnapCurrent s snap
  | .computed _ snap art => SnapCurrent s snap ∧ art.list = snap.list o
  | .writing _ snap art n =>
    SnapCurrent s snap ∧ art.list = snap.list o ∧ s.conn = .writer
      ∧ (0 < n → s.cache.list = some art.list)
  | .failed => True

/-- **The invariant.** -/
def Inv (o : BucketOrder) (s : Store) : Prop := PhaseInv o s s.phase

/-! ## Comparing two states -/

/-- Nothing owed is forgotten and no flag is lowered. -/
theorem Flagged.mono (h : Flagged s) (hdirty : s.dirty = true → s'.dirty = true)
    (hwm : s.watermark.isSome = true → s'.watermark.isSome = true)
    (howed : ∀ a ∈ s.owed, a ∈ s'.owed) : Flagged s' := by
  rcases h with h | h | h | ⟨ts, h⟩
  · exact .inl (hdirty h)
  · exact .inr (.inl (hwm h))
  · exact .inr (.inr (.inl (howed _ h)))
  · exact .inr (.inr (.inr ⟨ts, howed _ h⟩))

/-- Coherence survives when the tables and the list stay and nothing owed is forgotten. -/
theorem Coherent.mono (h : Coherent o s) (hrows : s'.rows = s.rows) (htags : s'.tags = s.tags)
    (hlist : s'.cache.list = s.cache.list) (hdirty : s.dirty = true → s'.dirty = true)
    (hwm : s.watermark.isSome = true → s'.watermark.isSome = true)
    (howed : ∀ a ∈ s.owed, a ∈ s'.owed) : Coherent o s' := by
  rcases h with h | ⟨tags, hagree, h⟩
  · exact .inl (h.mono hdirty hwm howed)
  · refine .inr ⟨tags, fun k hk => ?_, by rw [hlist, hrows, h]⟩
    rw [htags]
    exact hagree k fun hmem => hk (howed _ hmem)

/-- What the threads without the rebuild lock may do: the phase and the cache stay, the connection is
respected, and whatever changed is flagged or owed as a patch. -/
structure Background (s s' : Store) : Prop where
  phase : s'.phase = s.phase
  cache : s'.cache = s.cache
  patcher : s.conn = .patcher → s'.conn = .patcher ∧ s'.tags = s.tags
  writer : s.conn = .writer → s'.conn = .writer
  flagged : Flagged s → Flagged s'
  current : Flagged s' ∨ (s'.rows = s.rows ∧ ∀ tags, TagsAgree s tags → TagsAgree s' tags)

theorem Background.coherent (hb : Background s s') (h : Coherent o s) : Coherent o s' := by
  rcases h with h | ⟨tags, hagree, h⟩
  · exact .inl (hb.flagged h)
  · rcases hb.current with hflag | ⟨hrows, htags⟩
    · exact .inl hflag
    · exact .inr ⟨tags, htags tags hagree, by rw [hb.cache, hrows, h]⟩

theorem Background.snapCurrent (hb : Background s s') {snap : Snapshot} (h : SnapCurrent s snap) :
    SnapCurrent s' snap := by
  rcases h with h | ⟨hrows, hagree⟩
  · exact .inl (hb.flagged h)
  · rcases hb.current with hflag | ⟨hrows', htags⟩
    · exact .inl hflag
    · exact .inr ⟨by rw [hrows', hrows], htags _ hagree⟩

/-- **Other threads keep the invariant of every phase.** -/
theorem Background.inv (hb : Background s s') (h : Inv o s) : Inv o s' := by
  unfold Inv at h ⊢
  rw [hb.phase]
  cases hphase : s.phase with
  | free =>
    rw [hphase] at h
    exact hb.coherent h
  | patching key rest =>
    rw [hphase] at h
    exact hb.coherent h
  | patchRead key rest list tags =>
    rw [hphase] at h
    obtain ⟨hcoh, hconn, hlist, htags⟩ := h
    obtain ⟨hconn', htags'⟩ := hb.patcher hconn
    exact ⟨hb.coherent hcoh, hconn', by rw [hb.cache, hlist], by rw [htags', htags]⟩
  | started force =>
    rw [hphase] at h
    exact hb.coherent h
  | swapped full =>
    rw [hphase] at h
    exact fun hfull => hb.coherent (h hfull)
  | taken full wm =>
    rw [hphase] at h
    exact fun hfull hwm => hb.coherent (h hfull hwm)
  | loaded wm snap =>
    rw [hphase] at h
    exact hb.snapCurrent h
  | computed wm snap art =>
    rw [hphase] at h
    exact ⟨hb.snapCurrent h.1, h.2⟩
  | writing wm snap art n =>
    rw [hphase] at h
    obtain ⟨hsnap, hlist, hconn, hwritten⟩ := h
    exact ⟨hb.snapCurrent hsnap, hlist, hb.writer hconn, fun hn => by rw [hb.cache, hwritten hn]⟩
  | failed => trivial

/-! ## Edits and their announcements -/

/-- Replacing the tags of one key leaves the others. -/
theorem tagMap_replaceTags_of_ne {tags : TagTable} {key k : Int} (new : List Text) (h : k ≠ key) :
    tagMap (replaceTags tags key new) k = tagMap tags k := by
  unfold tagMap replaceTags
  rw [List.filter_append, List.filter_filter]
  have hnew : (((((new.filter fun t => decide (t ≠ [])).dedup).insertionSort (· ≤ ·)).map
      fun t => (key, t)).filter fun t => decide (t.1 = k)) = [] := by
    rw [List.filter_eq_nil_iff]
    intro t ht
    obtain ⟨u, -, rfl⟩ := List.mem_map.mp ht
    simpa using h.symm
  rw [hnew, List.append_nil]
  congr 1
  refine List.filter_congr fun t _ => ?_
  by_cases ht : t.1 = k
  · simp [ht, h]
  · simp [ht]

theorem tagMap_foldl_replaceTags {drives : List (Int × List Text)} {tags : TagTable} {k : Int}
    (h : ∀ d ∈ drives, k ≠ d.1) :
    tagMap (drives.foldl (fun acc d => replaceTags acc d.1 d.2) tags) k = tagMap tags k := by
  induction drives generalizing tags with
  | nil => rfl
  | cons d drives ih =>
    rw [List.foldl_cons, ih fun e he => h e (List.mem_cons_of_mem d he)]
    exact tagMap_replaceTags_of_ne d.2 (h d List.mem_cons_self)

/-- **An edit owes a flag, or it leaves the rows and owes a patch for every key whose tags it
changed.** -/
theorem Edit.owes_spec (e : Edit) (rows : List StoredRow) (tags : TagTable) :
    (.dirty ∈ e.owes rows ∨ ∃ ts, .append ts ∈ e.owes rows)
      ∨ ((e.apply rows tags).1 = rows
        ∧ ∀ k, .patch k ∉ e.owes rows → tagMap (e.apply rows tags).2 k = tagMap tags k) := by
  cases e with
  | addRoute row hasPoints =>
    cases hasPoints with
    | false => exact .inr ⟨rfl, fun _ _ => rfl⟩
    | true =>
      left
      simp only [Edit.owes, if_true]
      split
      · rename_i ts _ _
        exact .inr ⟨ts, by simp⟩
      · exact .inl (by simp)
  | deleteRoutes files driveKeys =>
    by_cases hempty : files = [] ∧ driveKeys = []
    · obtain ⟨rfl, rfl⟩ := hempty
      exact .inr ⟨by simp [Edit.apply], fun k _ => by simp [Edit.apply]⟩
    · exact .inl (.inl (by simp [Edit.owes, hempty]))
  | setDriveTags key new addOnly =>
    refine .inr ⟨rfl, fun k hk => tagMap_replaceTags_of_ne _ ?_⟩
    rintro rfl
    exact hk (by simp [Edit.owes])
  | applyDriveTags drives =>
    refine .inr ⟨rfl, fun k hk => tagMap_foldl_replaceTags ?_⟩
    rintro d hd rfl
    exact hk (List.mem_map.mpr ⟨d, hd, rfl⟩)

/-- A thread that only moves the connection lock between edits. -/
theorem Background.of_conn {c : Conn} (hp : s.conn ≠ .patcher) (hw : s.conn ≠ .writer) :
    Background s { s with conn := c } where
  phase := rfl
  cache := rfl
  patcher h := absurd h hp
  writer h := absurd h hw
  flagged h := h.mono id id fun _ ha => ha
  current := .inr ⟨rfl, fun _ h => h⟩

theorem mem_owed_commit {e : Edit} {a : Action} :
    a ∈ (s.commit e).owed ↔ a ∈ e.owes s.rows ∨ a ∈ s.owed := by
  simp only [Store.owed, Store.commit, List.flatten_cons, List.append_assoc, List.mem_append]

theorem background_commit {e : Edit} (hconn : s.conn = .edit e) : Background s (s.commit e) where
  phase := rfl
  cache := rfl
  patcher h := by simp [hconn] at h
  writer h := by simp [hconn] at h
  flagged h := h.mono id id fun _ ha => mem_owed_commit.mpr (.inr ha)
  current := by
    rcases e.owes_spec s.rows s.tags with (hdirty | ⟨ts, happend⟩) | ⟨hrows, htags⟩
    · exact .inl (.inr (.inr (.inl (mem_owed_commit.mpr (.inl hdirty)))))
    · exact .inl (.inr (.inr (.inr ⟨ts, mem_owed_commit.mpr (.inl happend)⟩)))
    · refine .inr ⟨hrows, fun tags hagree k hk => ?_⟩
      rw [mem_owed_commit, not_or] at hk
      exact (hagree k hk.2).trans (htags k hk.1).symm

theorem isSome_lowerWatermark (wm : Option Int) (ts : Int) : (lowerWatermark wm ts).isSome = true := by
  unfold lowerWatermark
  split
  · split <;> rfl
  · rfl

/-- What is left to do after the head of an entry is done. -/
theorem mem_owed_of_advance {i : Nat} {a b : Action} {rest : List Action}
    (h : s.pending[i]? = some (a :: rest)) (hpend : s'.pending = s.pending.set i rest)
    (hphase : s'.phase = s.phase) (hb : b ∈ s.owed) : b = a ∨ b ∈ s'.owed := by
  unfold Store.owed at hb ⊢
  rw [hpend, hphase, List.mem_append, mem_flatten_set h]
  rw [List.mem_append, mem_flatten_of_getElem? h, List.mem_cons] at hb
  tauto

theorem background_advance {i : Nat} (h : s.advance i = some s') : Background s s' := by
  unfold Store.advance at h
  split at h
  · rename_i n rest hget
    obtain rfl := Option.some.inj h
    have howed : ∀ b ∈ s.owed, b = .count n ∨ b ∈ Store.owed { s with
        routeCount := s.routeCount + n, pending := s.pending.set i rest } :=
      fun b hb => mem_owed_of_advance hget rfl rfl hb
    refine ⟨rfl, rfl, fun h => ⟨h, rfl⟩, id, ?_, .inr ⟨rfl, fun tags hagree k hk => ?_⟩⟩
    · rintro (h | h | h | ⟨ts, h⟩)
      · exact .inl h
      · exact .inr (.inl h)
      · exact .inr (.inr (.inl ((howed _ h).resolve_left (by simp))))
      · exact .inr (.inr (.inr ⟨ts, (howed _ h).resolve_left (by simp)⟩))
    · exact hagree k fun hmem => hk ((howed _ hmem).resolve_left (by simp))
  · rename_i ts rest hget
    obtain rfl := Option.some.inj h
    have hflag : Flagged { s with
        watermark := lowerWatermark s.watermark ts, pending := s.pending.set i rest } :=
      .inr (.inl (isSome_lowerWatermark _ _))
    exact ⟨rfl, rfl, fun h => ⟨h, rfl⟩, id, fun _ => hflag, .inl hflag⟩
  · rename_i rest hget
    obtain rfl := Option.some.inj h
    have hflag : Flagged { s with dirty := true, pending := s.pending.set i rest } := .inl rfl
    exact ⟨rfl, rfl, fun h => ⟨h, rfl⟩, id, fun _ => hflag, .inl hflag⟩
  · exact absurd h (by simp)

/-! ## Patches -/

/-- Taking the rebuild lock for a patch. -/
theorem inv_lockPatch {i : Nat} (h : Inv o s) (hstep : step o s (.lockPatch i) = some s') :
    Inv o s' := by
  simp only [step] at hstep
  split at hstep
  · rename_i key rest hphase hget
    unfold Inv at h
    rw [hphase] at h
    by_cases hdirty : s.dirty = true
    · rw [if_pos hdirty] at hstep
      obtain rfl := Option.some.inj hstep
      simp only [Inv, hphase]
      exact .inl (.inl hdirty)
    · rw [if_neg hdirty] at hstep
      obtain rfl := Option.some.inj hstep
      refine h.mono rfl rfl rfl id id fun a ha => ?_
      simp only [Store.owed, hphase, Phase.carried, List.append_nil] at ha ⊢
      rw [mem_flatten_of_getElem? hget] at ha
      rw [List.mem_append]
      tauto
  · exact absurd hstep (by simp)

/-- Reading the cached list and the stored tags. -/
theorem inv_readPatch (h : Inv o s) (hstep : step o s .readPatch = some s') : Inv o s' := by
  simp only [step] at hstep
  split at hstep
  · rename_i key rest hphase hconn
    unfold Inv at h
    rw [hphase] at h
    split at hstep
    · obtain rfl := Option.some.inj hstep
      exact .inl (.inr (.inr (.inl (by simp [Store.owed]))))
    · rename_i list hlist
      obtain rfl := Option.some.inj hstep
      refine ⟨h.mono rfl rfl rfl id id fun a ha => ?_, rfl, hlist, rfl⟩
      simpa only [Store.owed, hphase, Phase.carried] using ha
  · exact absurd hstep (by simp)

/-- **A patch makes the list agree with the stored tags of its key.** -/
theorem inv_writePatch (h : Inv o s) (hstep : step o s .writePatch = some s') : Inv o s' := by
  simp only [step] at hstep
  split at hstep
  · rename_i key rest list tags hphase
    unfold Inv at h
    rw [hphase] at h
    obtain ⟨hcoh, -, hlist, rfl⟩ := h
    have howed : ∀ a ∈ s.owed, a = .patch key ∨ a ∈ (rest :: s.pending).flatten := by
      intro a ha
      simp only [Store.owed, hphase, Phase.carried, List.mem_append, List.mem_cons,
        List.flatten_cons] at ha ⊢
      tauto
    split at hstep
    · obtain rfl := Option.some.inj hstep
      rcases hcoh with hflag | ⟨T, hagree, hfull⟩
      · left
        rcases hflag with h | h | h | ⟨ts, h⟩
        · exact .inl h
        · exact .inr (.inl h)
        · have := (howed _ h).resolve_left (by simp)
          exact .inr (.inr (.inl (by simpa [Store.owed, Phase.carried] using this)))
        · have := (howed _ h).resolve_left (by simp)
          exact .inr (.inr (.inr ⟨ts, by simpa [Store.owed, Phase.carried] using this⟩))
      · refine .inr ⟨Function.update T key (tagMap s.tags key), fun k hk => ?_, ?_⟩
        · by_cases hkey : k = key
          · subst hkey
            simp
          · rw [Function.update_of_ne hkey]
            refine hagree k fun hmem => hk ?_
            have := (howed _ hmem).resolve_left (by simpa using hkey)
            simpa [Store.owed, Phase.carried] using this
        · rw [hlist] at hfull
          rw [Option.some.inj hfull, patchTags_fullRebuild]
    · obtain rfl := Option.some.inj hstep
      exact .inl (.inr (.inr (.inl (by simp [Store.owed]))))
  · exact absurd hstep (by simp)

/-- A failed patch stays owed. -/
theorem inv_failPatch (h : Inv o s) (hstep : step o s .failPatch = some s') : Inv o s' := by
  have hkeep : ∀ {key rest}, s.phase.carried = .patch key :: rest → ∀ a ∈ s.owed,
      a ∈ ((.patch key :: rest) :: s.pending).flatten ++ Phase.free.carried := by
    intro key rest hcarried a ha
    unfold Store.owed at ha
    rw [hcarried] at ha
    simp only [List.mem_append, List.mem_cons, List.flatten_cons] at ha ⊢
    tauto
  simp only [step] at hstep
  unfold Inv at h
  split at hstep
  · rename_i key rest hphase
    obtain rfl := Option.some.inj hstep
    rw [hphase] at h
    exact h.mono rfl rfl rfl id id (hkeep (by rw [hphase]; rfl))
  · rename_i key rest list tags hphase
    obtain rfl := Option.some.inj hstep
    rw [hphase] at h
    exact h.1.mono rfl rfl rfl id id (hkeep (by rw [hphase]; rfl))
  · exact absurd hstep (by simp)

/-! ## Rebuilds -/

theorem Coherent.of_phase {p : Phase} (h : Coherent o s) (hs : s.phase.carried = [])
    (hp : p.carried = []) : Coherent o { s with phase := p } := by
  refine h.mono rfl rfl rfl id id fun a ha => ?_
  simpa only [Store.owed, hs, hp] using ha

theorem SnapCurrent.of_phase {p : Phase} {snap : Snapshot} (h : SnapCurrent s snap)
    (hs : s.phase.carried = []) (hp : p.carried = []) : SnapCurrent { s with phase := p } snap := by
  have howed : ∀ a ∈ s.owed, a ∈ Store.owed { s with phase := p } := by
    intro a ha
    simpa only [Store.owed, hs, hp] using ha
  rcases h with h | ⟨hrows, hagree⟩
  · exact .inl (h.mono id id howed)
  · exact .inr ⟨hrows, fun k hk => hagree k fun hmem => hk (howed _ hmem)⟩

theorem phaseInv_afterFailure (wm : Option Int) : PhaseInv o s (.afterFailure wm) := by
  unfold Phase.afterFailure
  split
  · exact fun h => absurd h (by simp)
  · trivial

/-- **Consuming the flags**: a rebuild that found none knows that the list is coherent. -/
theorem inv_swapDirty (h : Inv o s) (hstep : step o s .swapDirty = some s') : Inv o s' := by
  simp only [step] at hstep
  unfold Inv at h
  split at hstep
  · obtain rfl := Option.some.inj hstep
    exact fun hfull => absurd hfull (by simp)
  · rename_i hphase
    obtain rfl := Option.some.inj hstep
    rw [hphase] at h
    intro hclean
    refine h.mono rfl rfl rfl (fun hd => ?_) id fun a ha => ?_
    · rw [hclean] at hd
      exact absurd hd (by simp)
    · simpa only [Store.owed, hphase, Phase.carried] using ha
  · exact absurd hstep (by simp)

theorem inv_takeWatermark (h : Inv o s) (hstep : step o s .takeWatermark = some s') : Inv o s' := by
  simp only [step] at hstep
  unfold Inv at h
  split at hstep
  · rename_i full hphase
    obtain rfl := Option.some.inj hstep
    rw [hphase] at h
    intro hfull hnone
    refine (h hfull).mono rfl rfl rfl id (fun hw => ?_) fun a ha => ?_
    · rw [hnone] at hw
      exact absurd hw (by simp)
    · simpa only [Store.owed, hphase, Phase.carried] using ha
  · exact absurd hstep (by simp)

/-- A snapshot is current when it is taken. -/
theorem inv_loadInputs (hstep : step o s .loadInputs = some s') : Inv o s' := by
  simp only [step] at hstep
  split at hstep
  · obtain rfl := Option.some.inj hstep
    exact .inr ⟨rfl, fun _ _ => rfl⟩
  · obtain rfl := Option.some.inj hstep
    exact .inr ⟨rfl, fun _ _ => rfl⟩
  · exact absurd hstep (by simp)

/-- Writing the entries: the list is the first, and no later entry touches it. -/
theorem inv_writeNext (h : Inv o s) (hstep : step o s .writeNext = some s') : Inv o s' := by
  simp only [step] at hstep
  unfold Inv at h
  split at hstep
  · rename_i wm snap art n hphase
    rw [hphase] at h
    obtain ⟨hsnap, hlist, hconn, hwritten⟩ := h
    split at hstep
    · obtain rfl := Option.some.inj hstep
      refine ⟨?_, hlist, hconn, fun _ => ?_⟩
      · rcases hsnap with hflag | hcur
        · refine .inl (hflag.mono id id fun a ha => ?_)
          simpa only [Store.owed, hphase, Phase.carried] using ha
        · refine .inr ⟨hcur.1, fun k hk => hcur.2 k fun hmem => hk ?_⟩
          simpa only [Store.owed, hphase, Phase.carried] using hmem
      · cases n with
        | zero => rfl
        | succ n =>
          have := hwritten (Nat.succ_pos n)
          unfold writeEntry
          split <;> simp_all
    · exact absurd hstep (by simp)
  · exact absurd hstep (by simp)

/-- **A finished write leaves the grouping of its snapshot.** -/
theorem inv_endWrite (h : Inv o s) (hstep : step o s .endWrite = some s') : Inv o s' := by
  simp only [step] at hstep
  unfold Inv at h
  split at hstep
  · rename_i wm snap art n hphase
    rw [hphase] at h
    obtain ⟨hsnap, hlist, -, hwritten⟩ := h
    split at hstep
    · rename_i hn
      obtain rfl := Option.some.inj hstep
      rcases hsnap with hflag | ⟨hrows, hagree⟩
      · refine .inl (hflag.mono id id fun a ha => ?_)
        simpa only [Store.owed, hphase, Phase.carried] using ha
      · refine .inr ⟨tagMap snap.tags, fun k hk => hagree k fun hmem => hk ?_, ?_⟩
        · simpa only [Store.owed, hphase, Phase.carried] using hmem
        · simp only
          rw [hwritten (by omega), hlist, ← hrows]
          rfl
    · exact absurd hstep (by simp)
  · exact absurd hstep (by simp)

theorem inv_failRebuild (hstep : step o s .failRebuild = some s') : Inv o s' := by
  simp only [step] at hstep
  split at hstep
  · obtain rfl := Option.some.inj hstep
    trivial
  · obtain rfl := Option.some.inj hstep
    exact phaseInv_afterFailure _
  · obtain rfl := Option.some.inj hstep
    exact phaseInv_afterFailure _
  · obtain rfl := Option.some.inj hstep
    exact phaseInv_afterFailure _
  · exact absurd hstep (by simp)

/-! ## Runs -/

/-- **Every step of every thread keeps the invariant.** -/
theorem inv_step {a : Act} (h : Inv o s) (hstep : step o s a = some s') : Inv o s' := by
  cases a with
  | beginEdit e =>
    simp only [step] at hstep
    split at hstep
    · rename_i hconn
      obtain rfl := Option.some.inj hstep
      exact (Background.of_conn (by simp [hconn]) (by simp [hconn])).inv h
    · exact absurd hstep (by simp)
  | commitEdit =>
    simp only [step] at hstep
    split at hstep
    · rename_i e hconn
      obtain rfl := Option.some.inj hstep
      exact (background_commit hconn).inv h
    · exact absurd hstep (by simp)
  | abortEdit =>
    simp only [step] at hstep
    split at hstep
    · rename_i e hconn
      obtain rfl := Option.some.inj hstep
      exact (Background.of_conn (by simp [hconn]) (by simp [hconn])).inv h
    · exact absurd hstep (by simp)
  | advance i => exact (background_advance hstep).inv h
  | lockPatch i => exact inv_lockPatch h hstep
  | readPatch => exact inv_readPatch h hstep
  | writePatch => exact inv_writePatch h hstep
  | failPatch => exact inv_failPatch h hstep
  | lockRebuild force =>
    simp only [step] at hstep
    split at hstep
    · rename_i hphase
      obtain rfl := Option.some.inj hstep
      rw [Inv, hphase] at h
      exact Coherent.of_phase h (by rw [hphase]; rfl) rfl
    · exact absurd hstep (by simp)
  | leaveRebuild debounced =>
    simp only [step] at hstep
    split at hstep
    · rename_i hphase
      rw [Inv, hphase] at h
      split at hstep
      · obtain rfl := Option.some.inj hstep
        exact Coherent.of_phase h (by rw [hphase]; rfl) rfl
      · exact absurd hstep (by simp)
    · exact absurd hstep (by simp)
  | swapDirty => exact inv_swapDirty h hstep
  | takeWatermark => exact inv_takeWatermark h hstep
  | nothingToDo =>
    simp only [step] at hstep
    split at hstep
    · rename_i hphase
      obtain rfl := Option.some.inj hstep
      rw [Inv, hphase] at h
      exact Coherent.of_phase (h rfl rfl) (by rw [hphase]; rfl) rfl
    · exact absurd hstep (by simp)
  | bailAppend =>
    simp only [step] at hstep
    split at hstep
    · obtain rfl := Option.some.inj hstep
      exact fun hfull => absurd hfull (by simp)
    · exact absurd hstep (by simp)
  | loadInputs => exact inv_loadInputs hstep
  | compute =>
    simp only [step] at hstep
    split at hstep
    · rename_i wm snap hphase
      obtain rfl := Option.some.inj hstep
      rw [Inv, hphase] at h
      exact ⟨SnapCurrent.of_phase h (by rw [hphase]; rfl) rfl, rfl⟩
    · exact absurd hstep (by simp)
  | beginWrite =>
    simp only [step] at hstep
    split at hstep
    · rename_i wm snap art hphase hconn
      obtain rfl := Option.some.inj hstep
      rw [Inv, hphase] at h
      exact ⟨SnapCurrent.of_phase h.1 (by rw [hphase]; rfl) rfl, h.2, rfl,
        fun hn => absurd hn (by simp)⟩
    · exact absurd hstep (by simp)
  | writeNext => exact inv_writeNext h hstep
  | endWrite => exact inv_endWrite h hstep
  | failRebuild => exact inv_failRebuild hstep
  | redirty =>
    simp only [step] at hstep
    split at hstep
    · obtain rfl := Option.some.inj hstep
      exact .inl (.inl rfl)
    · exact absurd hstep (by simp)

/-- The store after `load`: the cache is current and nothing is under way. -/
structure Loaded (o : BucketOrder) (s : Store) : Prop where
  list : s.cache.list = some (fullRebuild o (summariesOf s.rows) (tagMap s.tags))
  phase : s.phase = .free
  pending : s.pending = []

theorem Loaded.inv (h : Loaded o s) : Inv o s := by
  unfold Inv
  rw [h.phase]
  exact .inr ⟨tagMap s.tags, fun _ _ => rfl, h.list⟩

/-- No edit is between its commit and its flag or patch. -/
def Announced (s : Store) : Prop := ∀ t ∈ s.pending, ∀ a ∈ t, ∃ n, a = .count n

/-- A loaded store of one row. -/
def loadedStore (o : BucketOrder) (row : StoredRow) : Store where
  rows := [row]
  tags := []
  cache := {
    list := some (fullRebuild o [row.summary] (tagMap []))
    routeCount := some 1
    tagsCount := some 0
    algo := true
    maxUpdatedAt := some row.updatedAt }
  dirty := false
  watermark := none
  routeCount := 1
  conn := .free
  phase := .free
  pending := []

theorem loaded_loadedStore (o : BucketOrder) (row : StoredRow) : Loaded o (loadedStore o row) :=
  ⟨rfl, rfl, rfl⟩

/-- The morning drive. -/
def morningRow : StoredRow := ⟨minuteClip "2025-01-01/2025-01-01_10-00-00.mp4" "sei", 10⟩

/-- The noon drive, written ten seconds later. -/
def noonRow : StoredRow := ⟨minuteClip "2025-01-01/2025-01-01_12-00-00.mp4" "sei", 20⟩

/-- A morning drive is cached; the noon drive is inserted and rebuilt, and a tag edit of the morning
drive commits while the rebuild is under way and is patched after it. -/
def noonActs : List Act :=
  [.beginEdit (.addRoute noonRow true),
    .commitEdit, .advance 0, .advance 0,
    .lockRebuild false, .swapDirty, .takeWatermark, .loadInputs,
    .beginEdit (.setDriveTags
      ((parseClipTimestamp "2025-01-01_10-00-00.mp4".toList).getD 0) ["work".toList] false),
    .commitEdit,
    .compute, .beginWrite, .writeNext, .writeNext, .writeNext, .writeNext, .writeNext, .endWrite,
    .lockPatch 0, .readPatch, .writePatch]

/-- Where that run ends. -/
def noonStore : Store :=
  (run (step .forward) (loadedStore .forward morningRow) noonActs).getD
    (loadedStore .forward morningRow)

end SentryUsb
