import SentryUsb.Cache.Coherence

/-! # Validity of the cache after a crash

A crash loses the flags, so the next open decides from three markers whether the stored list may be
served: the row count, the tag count and the latest write stamp, in whole seconds.

* **`isDriveCacheValid`** — the startup check (`db.rs`, `is_drive_cache_valid`);
* **`Careful`** — the steps under which the markers can be trusted: a row write is stamped later than
  whatever the markers account for, a tag edit finds the dirty flag clear, a deletion that drops tags
  also drops an accounted row, the append path's counter covers its snapshot, and the entries of a
  cache write are written together;
* **`Backed`** — the rows not newer than a marker are some of the rows the list was built from;
* **`isDriveCacheValid_sound`** — after a careful run, a valid cache is the full rebuild;
* **`isDriveCacheValid_same_second`** — an update in the second of the marker goes unnoticed. -/

namespace SentryUsb

open Library

/-- The durable part of the store, as the next open finds it: flags, counter, locks and whatever
edits still owed are gone. -/
def Store.crash (s : Store) : Store :=
  { s with
    dirty := true, watermark := none, routeCount := 0, conn := .free, phase := .free, pending := [] }

/-- Whether the next open keeps the stored list. -/
def isDriveCacheValid (s : Store) : Bool :=
  s.cache.list.isSome
    && decide (s.cache.routeCount = some (s.rows.length : Int))
    && decide (s.cache.tagsCount = some (s.tags.length : Int))
    && s.cache.algo
    && decide (s.cache.maxUpdatedAt = some (maxUpdatedAt s.rows))

/-! ## Careful steps -/

/-- The greatest of zero and a list of stamps. -/
def latestOf (stamps : List Int) : Int := stamps.foldr max 0

/-- The stamps a rebuild that read `snap` may write as its marker. -/
def accounted (s : Store) (snap : Snapshot) : List Int :=
  snap.rows.map StoredRow.updatedAt ++ s.cache.maxUpdatedAt.toList

/-- The stamp up to which a running rebuild accounts for the rows. -/
def Phase.marker (s : Store) : Phase → Option Int
  | .loaded _ snap => some (latestOf (accounted s snap))
  | .computed _ _ art => some art.maxUpdatedAt
  | .writing _ _ art _ => some art.maxUpdatedAt
  | _ => none

/-- The stamps up to which the stored list and a running rebuild account for the rows. -/
def Store.markers (s : Store) : List Int :=
  s.cache.maxUpdatedAt.toList ++ (s.phase.marker s).toList

/-- An edit the markers notice. -/
def CarefulEdit (s : Store) : Edit → Prop
  | .addRoute row hasPoints => hasPoints = true → ∀ m ∈ s.markers, m < row.updatedAt
  | .deleteRoutes files driveKeys => (∃ t ∈ s.tags, t.1 ∈ driveKeys) →
      ∃ r ∈ s.rows, r.summary.file ∈ files ∧ ∀ m ∈ s.markers, r.updatedAt ≤ m
  | _ => True

instance (s : Store) : (e : Edit) → Decidable (CarefulEdit s e)
  | .addRoute row hasPoints =>
    inferInstanceAs (Decidable (hasPoints = true → ∀ m ∈ s.markers, m < row.updatedAt))
  | .deleteRoutes files driveKeys =>
    inferInstanceAs (Decidable ((∃ t ∈ s.tags, t.1 ∈ driveKeys) →
      ∃ r ∈ s.rows, r.summary.file ∈ files ∧ ∀ m ∈ s.markers, r.updatedAt ≤ m))
  | .setDriveTags _ _ _ => .isTrue trivial
  | .applyDriveTags _ => .isTrue trivial

/-- The transaction that is about to commit is careful. -/
def CarefulCommit (s : Store) : Conn → Prop
  | .edit e => CarefulEdit s e
  | _ => True

instance (s : Store) : (c : Conn) → Decidable (CarefulCommit s c)
  | .edit e => inferInstanceAs (Decidable (CarefulEdit s e))
  | .free => .isTrue trivial
  | .patcher => .isTrue trivial
  | .writer => .isTrue trivial

/-- The counter the append path is about to store covers the rows of its snapshot. -/
def CounterCovers (s : Store) : Phase → Prop
  | .loaded (some _) snap => (snap.rows.length : Int) ≤ s.routeCount
  | _ => True

instance (s : Store) (p : Phase) : Decidable (CounterCovers s p) := by
  unfold CounterCovers
  split <;> infer_instance

/-- No cache entry of an unfinished write is stored yet. -/
def NothingWritten : Phase → Prop
  | .writing _ _ _ n => n = 0
  | _ => True

instance (p : Phase) : Decidable (NothingWritten p) := by
  unfold NothingWritten
  split <;> infer_instance

/-- **The condition on a step.** -/
def Careful (s : Store) : Act → Prop
  | .commitEdit => CarefulCommit s s.conn
  | .lockPatch _ => s.dirty = false
  | .compute => CounterCovers s s.phase
  | .failRebuild => NothingWritten s.phase
  | _ => True

instance (s : Store) (a : Act) : Decidable (Careful s a) := by
  unfold Careful
  split <;> infer_instance

/-- A crash that does not fall between a tag edit and its patch, nor inside a cache write. -/
structure CrashSafe (s : Store) : Prop where
  patched : ∀ k, .patch k ∉ s.owed
  whole : ∀ wm snap art n, s.phase = .writing wm snap art n → n = 0 ∨ 5 ≤ n

theorem le_latestOf {l : List Int} {t : Int} (h : t ∈ l) : t ≤ latestOf l := by
  induction l with
  | nil => simp at h
  | cons u l ih =>
    simp only [latestOf, List.foldr_cons] at ih ⊢
    rcases List.mem_cons.mp h with rfl | h
    · exact le_max_left _ _
    · exact le_trans (ih h) (le_max_right _ _)

theorem latestOf_nonneg (l : List Int) : 0 ≤ latestOf l := by
  induction l with
  | nil => exact le_refl _
  | cons u l ih => exact le_trans ih (le_max_right _ _)

/-- No row is newer than the stored maximum. -/
theorem le_maxUpdatedAt {rows : List StoredRow} {r : StoredRow} (h : r ∈ rows) :
    r.updatedAt ≤ maxUpdatedAt rows := by
  have hmem : r.updatedAt ∈ rows.map StoredRow.updatedAt := List.mem_map_of_mem h
  unfold maxUpdatedAt
  cases hmax : (rows.map StoredRow.updatedAt).max? with
  | none =>
    rw [List.max?_eq_none_iff] at hmax
    rw [hmax] at hmem
    exact absurd hmem (by simp)
  | some m => exact (List.max?_le_iff hmax).mp (le_refl m) _ hmem

theorem maxUpdatedAt_le_latestOf (s : Store) (snap : Snapshot) :
    maxUpdatedAt snap.rows ≤ latestOf (accounted s snap) := by
  unfold maxUpdatedAt
  cases hmax : (snap.rows.map StoredRow.updatedAt).max? with
  | none => exact latestOf_nonneg _
  | some m => exact le_latestOf (List.mem_append_left _ (List.max?_mem hmax))

theorem foldl_max_le {l : List Int} {a b : Int} (ha : a ≤ b) (h : ∀ t ∈ l, t ≤ b) :
    l.foldl max a ≤ b := by
  induction l generalizing a with
  | nil => exact ha
  | cons t l ih =>
    exact ih (max_le ha (h t List.mem_cons_self)) fun u hu => h u (List.mem_cons_of_mem t hu)

/-- A rebuild writes no later marker than what it accounts for. -/
theorem artifactsOf_maxUpdatedAt_le (o : BucketOrder) (s : Store) (wm : Option Int)
    (snap : Snapshot) :
    (artifactsOf o s wm snap).maxUpdatedAt ≤ latestOf (accounted s snap) := by
  cases wm with
  | none => exact maxUpdatedAt_le_latestOf s snap
  | some wm =>
    refine max_le ?_ (foldl_max_le (latestOf_nonneg _) fun t ht => ?_)
    · cases hmark : s.cache.maxUpdatedAt with
      | none => exact latestOf_nonneg _
      | some m => exact le_latestOf (List.mem_append_right _ (by simp [hmark]))
    · obtain ⟨r, hr, rfl⟩ := List.mem_map.mp ht
      exact le_latestOf (List.mem_append_left _
        (List.mem_map_of_mem (List.mem_of_mem_filter hr)))

/-! ## What the markers vouch for -/

/-- The stored rows up to a stamp. -/
def upTo (b : Int) (rows : List StoredRow) : List StoredRow :=
  rows.filter fun r => decide (r.updatedAt ≤ b)

/-- A list built from `rows` and `tags` and marked `b` is backed by the store: the stored rows up to
`b` are some of `rows`, and the tags agree unless one of `rows` is gone. -/
structure Backed (s : Store) (rows : List StoredRow) (tags : TagMap) (b : Int) : Prop where
  sublist : (upTo b s.rows).Sublist rows
  tags : TagsAgree s tags ∨ (upTo b s.rows).length < rows.length

/-- The persisted list is the grouping of rows and tags that the store backs. -/
def Persisted (o : BucketOrder) (s : Store) : Prop :=
  ∀ list c b, s.cache.list = some list → s.cache.routeCount = some c →
    s.cache.maxUpdatedAt = some b → ∃ rows tags, list = fullRebuild o (summariesOf rows) tags
      ∧ (rows.length : Int) ≤ c ∧ Backed s rows tags b

/-- The artifacts of a running rebuild are the grouping of its snapshot, which the store backs. -/
structure Vouched (o : BucketOrder) (s : Store) (snap : Snapshot) (art : Artifacts) : Prop where
  list : art.list = snap.list o
  count : (snap.rows.length : Int) ≤ art.routeCount
  backed : Backed s snap.rows (tagMap snap.tags) art.maxUpdatedAt

/-- The first `n` entries are written. -/
structure Written (cache : CacheMeta) (art : Artifacts) (n : Nat) : Prop where
  list : 0 < n → cache.list = some art.list
  count : 1 < n → cache.routeCount = some art.routeCount
  marker : 4 < n → cache.maxUpdatedAt = some art.maxUpdatedAt

/-- What holds of the durable state while the rebuild lock is at a phase. -/
def DurableAt (o : BucketOrder) (s : Store) : Phase → Prop
  | .patchRead key _ list tags =>
    Persisted o s ∧ s.conn = .patcher ∧ s.cache.list = some list ∧ tags = tagMap s.tags key
  | .loaded _ snap =>
    Persisted o s ∧ Backed s snap.rows (tagMap snap.tags) (latestOf (accounted s snap))
  | .computed _ snap art => Persisted o s ∧ Vouched o s snap art
  | .writing _ snap art n =>
    (n = 0 → Persisted o s) ∧ Vouched o s snap art ∧ s.conn = .writer ∧ Written s.cache art n
  | _ => Persisted o s

/-- **The invariant of the durable state.** -/
def Durable (o : BucketOrder) (s : Store) : Prop := DurableAt o s s.phase

variable {o : BucketOrder} {s s' : Store}

theorem upTo_sublist_upTo {b c : Int} (h : b ≤ c) (rows : List StoredRow) :
    (upTo b rows).Sublist (upTo c rows) := by
  have : upTo b rows = upTo b (upTo c rows) := by
    unfold upTo
    rw [List.filter_filter]
    refine List.filter_congr fun r _ => ?_
    grind
  rw [this]
  exact List.filter_sublist

/-- An earlier marker vouches for less. -/
theorem Backed.mono {rows : List StoredRow} {tags : TagMap} {b c : Int} (h : Backed s rows tags c)
    (hbc : b ≤ c) : Backed s rows tags b := by
  refine ⟨(upTo_sublist_upTo hbc s.rows).trans h.sublist, ?_⟩
  rcases h.tags with hagree | hlt
  · exact .inl hagree
  · exact .inr (lt_of_le_of_lt (upTo_sublist_upTo hbc s.rows).length_le hlt)

/-- What the store backs depends on its tables and on the patches owed. -/
theorem Backed.congr {rows : List StoredRow} {tags : TagMap} {b : Int} (h : Backed s rows tags b)
    (hrows : s'.rows = s.rows) (htags : s'.tags = s.tags)
    (howed : ∀ k, .patch k ∈ s.owed → .patch k ∈ s'.owed) : Backed s' rows tags b := by
  refine ⟨by rw [hrows]; exact h.sublist, ?_⟩
  rw [hrows]
  refine h.tags.imp_left fun hagree k hk => ?_
  rw [htags]
  exact hagree k fun hmem => hk (howed k hmem)

theorem Persisted.congr (h : Persisted o s) (hcache : s'.cache = s.cache) (hrows : s'.rows = s.rows)
    (htags : s'.tags = s.tags) (howed : ∀ k, .patch k ∈ s.owed → .patch k ∈ s'.owed) :
    Persisted o s' := by
  intro list c b hlist hcount hmarker
  rw [hcache] at hlist hcount hmarker
  obtain ⟨rows, tags, heq, hle, hbacked⟩ := h list c b hlist hcount hmarker
  exact ⟨rows, tags, heq, hle, hbacked.congr hrows htags howed⟩

theorem Vouched.congr {snap : Snapshot} {art : Artifacts} (h : Vouched o s snap art)
    (hrows : s'.rows = s.rows) (htags : s'.tags = s.tags)
    (howed : ∀ k, .patch k ∈ s.owed → .patch k ∈ s'.owed) : Vouched o s' snap art :=
  ⟨h.list, h.count, h.backed.congr hrows htags howed⟩

/-- **A persisted list that the markers accept is the full rebuild.** The rows are all within the
marker, so they are some of the rows the list was built from, and by their number all of them. -/
theorem Persisted.sound (h : Persisted o s) (hpatched : ∀ k, .patch k ∉ s.owed)
    (hvalid : isDriveCacheValid s = true) :
    s.cache.list = some (fullRebuild o (summariesOf s.rows) (tagMap s.tags)) := by
  simp only [isDriveCacheValid, Bool.and_eq_true, decide_eq_true_eq] at hvalid
  obtain ⟨⟨⟨⟨hsome, hcount⟩, -⟩, -⟩, hmarker⟩ := hvalid
  obtain ⟨list, hlist⟩ := Option.isSome_iff_exists.mp hsome
  obtain ⟨rows, tags, rfl, hle, hbacked⟩ := h _ _ _ hlist hcount hmarker
  have hall : upTo (maxUpdatedAt s.rows) s.rows = s.rows := by
    unfold upTo
    rw [List.filter_eq_self]
    exact fun r hr => decide_eq_true (le_maxUpdatedAt hr)
  have hsub := hbacked.sublist
  have htags := hbacked.tags
  rw [hall] at hsub htags
  have hlen : s.rows.length = rows.length := le_antisymm hsub.length_le (by omega)
  have hrows := hsub.eq_of_length hlen
  have hagree : tags = tagMap s.tags := by
    funext k
    exact (htags.resolve_right (by omega)) k (hpatched k)
  rw [hlist, hrows, hagree]

/-! ## Edits -/

/-- A row written later than `b` adds nothing up to `b`. -/
theorem upTo_upsertRow {b : Int} {row : StoredRow} (h : b < row.updatedAt) (rows : List StoredRow) :
    (upTo b (upsertRow rows row)).Sublist (upTo b rows) := by
  have hnew : decide (row.updatedAt ≤ b) = false := decide_eq_false (not_le.mpr h)
  unfold upsertRow upTo
  rw [List.orderedInsert_eq_take_drop, List.filter_append, List.filter_cons, hnew,
    if_neg Bool.false_ne_true, ← List.filter_append, List.takeWhile_append_dropWhile]
  exact List.filter_sublist.filter _

/-- Deleting a row up to `b` leaves fewer of them. -/
theorem length_upTo_filter_lt {b : Int} {rows : List StoredRow} {p : StoredRow → Bool}
    {r : StoredRow} (hr : r ∈ rows) (hp : p r = false) (hb : r.updatedAt ≤ b) :
    (upTo b (rows.filter p)).length < (upTo b rows).length := by
  have hsub : (upTo b (rows.filter p)).Sublist (upTo b rows) := List.filter_sublist.filter _
  refine lt_of_le_of_ne hsub.length_le fun hlen => ?_
  have hmem : r ∈ upTo b rows := List.mem_filter.mpr ⟨hr, decide_eq_true hb⟩
  rw [← hsub.eq_of_length hlen] at hmem
  have := (List.mem_filter.mp (List.mem_of_mem_filter hmem)).2
  rw [hp] at this
  exact absurd this (by simp)

/-- **A careful edit leaves the store backing what it backed.** -/
theorem Backed.commit {e : Edit} {rows : List StoredRow} {tags : TagMap} {b : Int}
    (h : Backed s rows tags b) (hcareful : CarefulEdit s e) (hb : b ∈ s.markers) :
    Backed (s.commit e) rows tags b := by
  have howed : ∀ k, .patch k ∈ s.owed → .patch k ∈ (s.commit e).owed :=
    fun k hk => mem_owed_commit.mpr (.inr hk)
  have hagreeOf : (s.commit e).tags = s.tags → TagsAgree s tags → TagsAgree (s.commit e) tags := by
    intro htags hagree k hk
    rw [htags]
    exact hagree k fun hmem => hk (howed k hmem)
  have hcase : (s.commit e).rows = s.rows ∧ (s.commit e).tags = s.tags →
      Backed (s.commit e) rows tags b := fun heq => h.congr heq.1 heq.2 howed
  cases e with
  | addRoute row hasPoints =>
    cases hasPoints with
    | false => exact hcase ⟨rfl, rfl⟩
    | true =>
      have hsub := upTo_upsertRow (hcareful rfl b hb) s.rows
      refine ⟨hsub.trans h.sublist, ?_⟩
      rcases h.tags with hagree | hlt
      · exact .inl (hagreeOf rfl hagree)
      · exact .inr (lt_of_le_of_lt hsub.length_le hlt)
  | deleteRoutes files driveKeys =>
    have hsub : (upTo b (s.rows.filter fun r => decide (r.summary.file ∉ files))).Sublist
        (upTo b s.rows) := List.filter_sublist.filter _
    refine ⟨hsub.trans h.sublist, ?_⟩
    by_cases hdrop : ∃ t ∈ s.tags, t.1 ∈ driveKeys
    · obtain ⟨r, hr, hfile, hmark⟩ := hcareful hdrop
      exact .inr (lt_of_lt_of_le
        (length_upTo_filter_lt hr (by simpa using hfile) (hmark b hb)) h.sublist.length_le)
    · rcases h.tags with hagree | hlt
      · refine .inl (hagreeOf ?_ hagree)
        refine List.filter_eq_self.mpr fun t ht => ?_
        exact decide_eq_true fun hkey => hdrop ⟨t, ht, hkey⟩
      · exact .inr (lt_of_le_of_lt hsub.length_le hlt)
  | setDriveTags key new addOnly =>
    refine ⟨h.sublist, h.tags.imp_left fun hagree k hk => ?_⟩
    rw [mem_owed_commit, not_or] at hk
    rw [hagree k hk.2]
    refine (tagMap_replaceTags_of_ne _ ?_).symm
    rintro rfl
    exact hk.1 (by simp [Edit.owes])
  | applyDriveTags drives =>
    refine ⟨h.sublist, h.tags.imp_left fun hagree k hk => ?_⟩
    rw [mem_owed_commit, not_or] at hk
    rw [hagree k hk.2]
    refine (tagMap_foldl_replaceTags ?_).symm
    rintro d hd rfl
    exact hk.1 (List.mem_map.mpr ⟨d, hd, rfl⟩)

/-- What the threads without the rebuild lock do to the durable state. -/
structure KeepsBacking (s s' : Store) : Prop where
  phase : s'.phase = s.phase
  cache : s'.cache = s.cache
  patcher : s.conn = .patcher → s'.conn = .patcher ∧ s'.tags = s.tags
  writer : s.conn = .writer → s'.conn = .writer
  backed : ∀ {rows tags b}, b ∈ s.markers → Backed s rows tags b → Backed s' rows tags b

theorem KeepsBacking.persisted (hk : KeepsBacking s s') (h : Persisted o s) : Persisted o s' := by
  intro list c b hlist hcount hmarker
  rw [hk.cache] at hlist hcount hmarker
  obtain ⟨rows, tags, heq, hle, hbacked⟩ := h list c b hlist hcount hmarker
  exact ⟨rows, tags, heq, hle, hk.backed (by simp [Store.markers, hmarker]) hbacked⟩

/-- **Other threads keep the durable state of every phase.** -/
theorem KeepsBacking.durable (hk : KeepsBacking s s') (h : Durable o s) : Durable o s' := by
  unfold Durable at h ⊢
  rw [hk.phase]
  have hmarker : ∀ {b}, s.phase.marker s = some b → b ∈ s.markers := by
    intro b hb
    simp [Store.markers, hb]
  cases hphase : s.phase with
  | patchRead key rest list tags =>
    rw [hphase] at h
    obtain ⟨hpers, hconn, hlist, htags⟩ := h
    obtain ⟨hconn', htags'⟩ := hk.patcher hconn
    exact ⟨hk.persisted hpers, hconn', by rw [hk.cache, hlist], by rw [htags', htags]⟩
  | loaded wm snap =>
    rw [hphase] at h
    have haccounted : accounted s' snap = accounted s snap := by simp only [accounted, hk.cache]
    refine ⟨hk.persisted h.1, ?_⟩
    rw [haccounted]
    exact hk.backed (hmarker (by rw [hphase]; rfl)) h.2
  | computed wm snap art =>
    rw [hphase] at h
    exact ⟨hk.persisted h.1, h.2.list, h.2.count,
      hk.backed (hmarker (by rw [hphase]; rfl)) h.2.backed⟩
  | writing wm snap art n =>
    rw [hphase] at h
    obtain ⟨hpers, hvouched, hconn, hwritten⟩ := h
    refine ⟨fun hn => hk.persisted (hpers hn), ⟨hvouched.list, hvouched.count, ?_⟩,
      hk.writer hconn, by rw [hk.cache]; exact hwritten⟩
    exact hk.backed (hmarker (by rw [hphase]; rfl)) hvouched.backed
  | free => rw [hphase] at h; exact hk.persisted h
  | patching key rest => rw [hphase] at h; exact hk.persisted h
  | started force => rw [hphase] at h; exact hk.persisted h
  | swapped full => rw [hphase] at h; exact hk.persisted h
  | taken full wm => rw [hphase] at h; exact hk.persisted h
  | failed => rw [hphase] at h; exact hk.persisted h

theorem keepsBacking_of_conn {c : Conn} (hp : s.conn ≠ .patcher) (hw : s.conn ≠ .writer) :
    KeepsBacking s { s with conn := c } where
  phase := rfl
  cache := rfl
  patcher h := absurd h hp
  writer h := absurd h hw
  backed _ h := h.congr rfl rfl fun _ hk => hk

theorem keepsBacking_commit {e : Edit} (hconn : s.conn = .edit e) (hcareful : CarefulEdit s e) :
    KeepsBacking s (s.commit e) where
  phase := rfl
  cache := rfl
  patcher h := by simp [hconn] at h
  writer h := by simp [hconn] at h
  backed hb h := h.commit hcareful hb

/-- Announcing an edit touches neither table, and no patch is dropped. -/
theorem keepsBacking_advance {i : Nat} (h : s.advance i = some s') : KeepsBacking s s' := by
  have hkeep : ∀ {u : Store} {a : Action} {rest : List Action}, s.pending[i]? = some (a :: rest) →
      (∀ k, a ≠ .patch k) → u.pending = s.pending.set i rest → u.phase = s.phase →
        ∀ k, .patch k ∈ s.owed → .patch k ∈ u.owed := by
    intro u a rest hget hne hpending hphase k hk
    exact (mem_owed_of_advance hget hpending hphase hk).resolve_left fun h => hne k h.symm
  unfold Store.advance at h
  split at h
  · rename_i n rest hget
    obtain rfl := Option.some.inj h
    exact ⟨rfl, rfl, fun h => ⟨h, rfl⟩, id,
      fun _ hb => hb.congr rfl rfl (hkeep hget (by simp) rfl rfl)⟩
  · rename_i ts rest hget
    obtain rfl := Option.some.inj h
    exact ⟨rfl, rfl, fun h => ⟨h, rfl⟩, id,
      fun _ hb => hb.congr rfl rfl (hkeep hget (by simp) rfl rfl)⟩
  · rename_i rest hget
    obtain rfl := Option.some.inj h
    exact ⟨rfl, rfl, fun h => ⟨h, rfl⟩, id,
      fun _ hb => hb.congr rfl rfl (hkeep hget (by simp) rfl rfl)⟩
  · exact absurd h (by simp)

/-! ## Patches and rebuilds -/

/-- Outside a cache write that has begun, the persisted entries belong together. -/
theorem Durable.persisted (h : Durable o s) (hwhole : NothingWritten s.phase) : Persisted o s := by
  unfold Durable at h
  cases hphase : s.phase with
  | patchRead key rest list tags => rw [hphase] at h; exact h.1
  | loaded wm snap => rw [hphase] at h; exact h.1
  | computed wm snap art => rw [hphase] at h; exact h.1
  | writing wm snap art n => rw [hphase] at h hwhole; exact h.1 hwhole
  | free => rw [hphase] at h; exact h
  | patching key rest => rw [hphase] at h; exact h
  | started force => rw [hphase] at h; exact h
  | swapped full => rw [hphase] at h; exact h
  | taken full wm => rw [hphase] at h; exact h
  | failed => rw [hphase] at h; exact h

/-- A step that changes only the phase, the locks and the flags. -/
theorem Persisted.of_phase (h : Persisted o s) (hcache : s'.cache = s.cache)
    (hrows : s'.rows = s.rows) (htags : s'.tags = s.tags) (hpending : s'.pending = s.pending)
    (hcarried : s.phase.carried = s'.phase.carried) : Persisted o s' :=
  h.congr hcache hrows htags fun k hk => by
    unfold Store.owed at hk ⊢
    rwa [hpending, ← hcarried]

theorem durable_lockPatch {i : Nat} (h : Durable o s) (hclean : s.dirty = false)
    (hstep : step o s (.lockPatch i) = some s') : Durable o s' := by
  simp only [step] at hstep
  split at hstep
  · rename_i key rest hphase hget
    rw [hclean, if_neg Bool.false_ne_true] at hstep
    obtain rfl := Option.some.inj hstep
    refine (h.persisted (by rw [hphase]; trivial)).congr rfl rfl rfl fun k hk => ?_
    simp only [Store.owed, hphase, Phase.carried, List.append_nil] at hk ⊢
    rw [mem_flatten_of_getElem? hget] at hk
    rw [List.mem_append]
    tauto
  · exact absurd hstep (by simp)

theorem durable_readPatch (h : Durable o s) (hstep : step o s .readPatch = some s') :
    Durable o s' := by
  simp only [step] at hstep
  split at hstep
  · rename_i key rest hphase hconn
    split at hstep
    · rename_i hnone
      obtain rfl := Option.some.inj hstep
      intro list c b hlist
      exact absurd (hnone.symm.trans hlist) (by simp)
    · rename_i list hlist
      obtain rfl := Option.some.inj hstep
      exact ⟨(h.persisted (by rw [hphase]; trivial)).of_phase rfl rfl rfl rfl (by rw [hphase]; rfl), rfl,
        hlist, rfl⟩
  · exact absurd hstep (by simp)

/-- **A patch moves the persisted list to the stored tags of its key**; a key without a visible drive
needs no change. -/
theorem persisted_patch {key : Int} {list : List DriveSummary} (h : Persisted o s)
    (hlist : s.cache.list = some list) (hrows : s'.rows = s.rows) (htags : s'.tags = s.tags)
    (hcache : s'.cache = { s.cache with list := some (patchTags key (tagMap s.tags key) list) })
    (howed : ∀ k, k ≠ key → .patch k ∈ s.owed → .patch k ∈ s'.owed) : Persisted o s' := by
  intro list' c b hlist' hcount hmarker
  rw [hcache] at hlist' hcount hmarker
  obtain rfl := Option.some.inj hlist'
  obtain ⟨rows, tags, rfl, hle, hbacked⟩ := h list c b hlist hcount hmarker
  refine ⟨rows, Function.update tags key (tagMap s.tags key), patchTags_fullRebuild .., hle, ?_, ?_⟩
  · rw [hrows]
    exact hbacked.sublist
  · rw [hrows]
    refine hbacked.tags.imp_left fun hagree k hk => ?_
    rw [htags]
    by_cases hkey : k = key
    · subst hkey
      simp
    · rw [Function.update_of_ne hkey]
      exact hagree k fun hmem => hk (howed k hkey hmem)

theorem durable_writePatch (h : Durable o s) (hstep : step o s .writePatch = some s') :
    Durable o s' := by
  simp only [step] at hstep
  split at hstep
  · rename_i key rest list tags hphase
    have hpers := h.persisted (by rw [hphase]; trivial)
    rw [Durable, hphase] at h
    obtain ⟨-, -, hlist, rfl⟩ := h
    have howed : ∀ k, k ≠ key → .patch k ∈ s.owed → .patch k ∈ (rest :: s.pending).flatten := by
      intro k hne hk
      simp only [Store.owed, hphase, Phase.carried, List.mem_append, List.mem_cons,
        List.flatten_cons, Action.patch.injEq] at hk ⊢
      tauto
    split at hstep
    · obtain rfl := Option.some.inj hstep
      exact persisted_patch hpers hlist rfl rfl rfl fun k hne hk =>
        List.mem_append_left _ (howed k hne hk)
    · rename_i hmiss
      obtain rfl := Option.some.inj hstep
      have hsame : patchTags key (tagMap s.tags key) list = list :=
        patchTags_of_no_hit (by simpa using hmiss)
      refine persisted_patch hpers hlist rfl rfl (by rw [hsame, ← hlist]) fun k hne hk => ?_
      have := howed k hne hk
      simp only [Store.owed, List.flatten_cons, List.mem_append, List.mem_cons] at this ⊢
      tauto
  · exact absurd hstep (by simp)

theorem durable_failPatch (h : Durable o s) (hstep : step o s .failPatch = some s') :
    Durable o s' := by
  simp only [step] at hstep
  split at hstep
  · rename_i key rest hphase
    obtain rfl := Option.some.inj hstep
    refine (h.persisted (by rw [hphase]; trivial)).congr rfl rfl rfl fun k hk => ?_
    simp only [Store.owed, hphase, Phase.carried, List.mem_append, List.mem_cons,
      List.flatten_cons] at hk ⊢
    tauto
  · rename_i key rest list tags hphase
    obtain rfl := Option.some.inj hstep
    refine (h.persisted (by rw [hphase]; trivial)).congr rfl rfl rfl fun k hk => ?_
    simp only [Store.owed, hphase, Phase.carried, List.mem_append, List.mem_cons,
      List.flatten_cons] at hk ⊢
    tauto
  · exact absurd hstep (by simp)

/-- A snapshot backs itself when it is taken. -/
theorem durable_loadInputs (h : Durable o s) (hstep : step o s .loadInputs = some s') :
    Durable o s' := by
  simp only [step] at hstep
  split at hstep
  · rename_i wm hphase
    obtain rfl := Option.some.inj hstep
    exact ⟨(h.persisted (by rw [hphase]; trivial)).of_phase rfl rfl rfl rfl (by rw [hphase]; rfl),
      List.filter_sublist, .inl fun _ _ => rfl⟩
  · rename_i wm hphase
    obtain rfl := Option.some.inj hstep
    exact ⟨(h.persisted (by rw [hphase]; trivial)).of_phase rfl rfl rfl rfl (by rw [hphase]; rfl),
      List.filter_sublist, .inl fun _ _ => rfl⟩
  · exact absurd hstep (by simp)

theorem durable_compute (h : Durable o s) (hcareful : CounterCovers s s.phase)
    (hstep : step o s .compute = some s') : Durable o s' := by
  simp only [step] at hstep
  split at hstep
  · rename_i wm snap hphase
    obtain rfl := Option.some.inj hstep
    rw [Durable, hphase] at h
    rw [hphase] at hcareful
    refine ⟨h.1.of_phase rfl rfl rfl rfl (by rw [hphase]; rfl), rfl, ?_, ?_⟩
    · cases wm with
      | none => exact le_refl _
      | some wm => exact hcareful
    · refine (h.2.mono (artifactsOf_maxUpdatedAt_le o s wm snap)).congr rfl rfl fun k hk => ?_
      simpa only [Store.owed, hphase, Phase.carried] using hk
  · exact absurd hstep (by simp)

theorem durable_beginWrite (h : Durable o s) (hstep : step o s .beginWrite = some s') :
    Durable o s' := by
  simp only [step] at hstep
  split at hstep
  · rename_i wm snap art hphase hconn
    obtain rfl := Option.some.inj hstep
    rw [Durable, hphase] at h
    refine ⟨fun _ => h.1.of_phase rfl rfl rfl rfl (by rw [hphase]; rfl), ?_, rfl, ?_⟩
    · refine h.2.congr rfl rfl fun k hk => ?_
      simpa only [Store.owed, hphase, Phase.carried] using hk
    · exact ⟨fun h => absurd h (by simp), fun h => absurd h (by simp), fun h => absurd h (by simp)⟩
  · exact absurd hstep (by simp)

/-- Each entry is written once, in order. -/
theorem Written.next {cache : CacheMeta} {art : Artifacts} {n : Nat} (h : Written cache art n)
    (hn : n < 5) : Written (writeEntry art n cache) art (n + 1) := by
  obtain rfl | rfl | rfl | rfl | rfl : n = 0 ∨ n = 1 ∨ n = 2 ∨ n = 3 ∨ n = 4 := by omega
  · exact ⟨fun _ => rfl, fun h => absurd h (by omega), fun h => absurd h (by omega)⟩
  · exact ⟨fun _ => h.list (by omega), fun _ => rfl, fun h => absurd h (by omega)⟩
  · exact ⟨fun _ => h.list (by omega), fun _ => h.count (by omega), fun h => absurd h (by omega)⟩
  · exact ⟨fun _ => h.list (by omega), fun _ => h.count (by omega), fun h => absurd h (by omega)⟩
  · exact ⟨fun _ => h.list (by omega), fun _ => h.count (by omega), fun _ => rfl⟩

theorem durable_writeNext (h : Durable o s) (hstep : step o s .writeNext = some s') :
    Durable o s' := by
  simp only [step] at hstep
  split at hstep
  · rename_i wm snap art n hphase
    rw [Durable, hphase] at h
    obtain ⟨-, hvouched, hconn, hwritten⟩ := h
    split at hstep
    · rename_i hn
      obtain rfl := Option.some.inj hstep
      refine ⟨fun h => absurd h (by omega), hvouched.congr rfl rfl fun k hk => ?_, hconn,
        hwritten.next hn⟩
      simpa only [Store.owed, hphase, Phase.carried] using hk
    · exact absurd hstep (by simp)
  · exact absurd hstep (by simp)

/-- All entries of a vouched rebuild belong together. -/
theorem persisted_of_written {snap : Snapshot} {art : Artifacts} {n : Nat} (hn : 5 ≤ n)
    (hvouched : Vouched o s snap art) (hwritten : Written s.cache art n) : Persisted o s := by
  intro list c b hlist hcount hmarker
  rw [hwritten.list (by omega)] at hlist
  rw [hwritten.count (by omega)] at hcount
  rw [hwritten.marker (by omega)] at hmarker
  obtain rfl := Option.some.inj hlist
  obtain rfl := Option.some.inj hcount
  obtain rfl := Option.some.inj hmarker
  exact ⟨snap.rows, tagMap snap.tags, hvouched.list, hvouched.count, hvouched.backed⟩

theorem durable_endWrite (h : Durable o s) (hstep : step o s .endWrite = some s') :
    Durable o s' := by
  simp only [step] at hstep
  split at hstep
  · rename_i wm snap art n hphase
    rw [Durable, hphase] at h
    split at hstep
    · rename_i hn
      obtain rfl := Option.some.inj hstep
      exact (persisted_of_written hn h.2.1 h.2.2.2).of_phase rfl rfl rfl rfl (by rw [hphase]; rfl)
    · exact absurd hstep (by simp)
  · exact absurd hstep (by simp)

theorem durable_afterFailure {wm : Option Int} (h : Persisted o s) (hcarried : s.phase.carried = [])
    (hphase : s'.phase = .afterFailure wm) (hcache : s'.cache = s.cache) (hrows : s'.rows = s.rows)
    (htags : s'.tags = s.tags) (hpending : s'.pending = s.pending) : Durable o s' := by
  have hpers : Persisted o s' := h.of_phase hcache hrows htags hpending (by
    rw [hcarried, hphase, Phase.afterFailure]
    split <;> rfl)
  rw [Durable, hphase, Phase.afterFailure]
  split <;> exact hpers

/-! ## Runs -/

/-- **Every careful step keeps the durable state trustworthy.** -/
theorem durable_step {a : Act} (h : Durable o s) (hcareful : Careful s a)
    (hstep : step o s a = some s') : Durable o s' := by
  cases a with
  | beginEdit e =>
    simp only [step] at hstep
    split at hstep
    · rename_i hconn
      obtain rfl := Option.some.inj hstep
      exact (keepsBacking_of_conn (by simp [hconn]) (by simp [hconn])).durable h
    · exact absurd hstep (by simp)
  | commitEdit =>
    simp only [step] at hstep
    split at hstep
    · rename_i e hconn
      obtain rfl := Option.some.inj hstep
      rw [Careful, hconn] at hcareful
      exact (keepsBacking_commit hconn hcareful).durable h
    · exact absurd hstep (by simp)
  | abortEdit =>
    simp only [step] at hstep
    split at hstep
    · rename_i e hconn
      obtain rfl := Option.some.inj hstep
      exact (keepsBacking_of_conn (by simp [hconn]) (by simp [hconn])).durable h
    · exact absurd hstep (by simp)
  | advance i => exact (keepsBacking_advance hstep).durable h
  | lockPatch i => exact durable_lockPatch h hcareful hstep
  | readPatch => exact durable_readPatch h hstep
  | writePatch => exact durable_writePatch h hstep
  | failPatch => exact durable_failPatch h hstep
  | lockRebuild force =>
    simp only [step] at hstep
    split at hstep
    · rename_i hphase
      obtain rfl := Option.some.inj hstep
      exact (h.persisted (by rw [hphase]; trivial)).of_phase rfl rfl rfl rfl (by rw [hphase]; rfl)
    · exact absurd hstep (by simp)
  | leaveRebuild debounced =>
    simp only [step] at hstep
    split at hstep
    · rename_i hphase
      split at hstep
      · obtain rfl := Option.some.inj hstep
        exact (h.persisted (by rw [hphase]; trivial)).of_phase rfl rfl rfl rfl (by rw [hphase]; rfl)
      · exact absurd hstep (by simp)
    · exact absurd hstep (by simp)
  | swapDirty =>
    simp only [step] at hstep
    split at hstep
    · rename_i hphase
      obtain rfl := Option.some.inj hstep
      exact (h.persisted (by rw [hphase]; trivial)).of_phase rfl rfl rfl rfl (by rw [hphase]; rfl)
    · rename_i hphase
      obtain rfl := Option.some.inj hstep
      exact (h.persisted (by rw [hphase]; trivial)).of_phase rfl rfl rfl rfl (by rw [hphase]; rfl)
    · exact absurd hstep (by simp)
  | takeWatermark =>
    simp only [step] at hstep
    split at hstep
    · rename_i full hphase
      obtain rfl := Option.some.inj hstep
      exact (h.persisted (by rw [hphase]; trivial)).of_phase rfl rfl rfl rfl (by rw [hphase]; rfl)
    · exact absurd hstep (by simp)
  | nothingToDo =>
    simp only [step] at hstep
    split at hstep
    · rename_i hphase
      obtain rfl := Option.some.inj hstep
      exact (h.persisted (by rw [hphase]; trivial)).of_phase rfl rfl rfl rfl (by rw [hphase]; rfl)
    · exact absurd hstep (by simp)
  | bailAppend =>
    simp only [step] at hstep
    split at hstep
    · rename_i wm hphase
      obtain rfl := Option.some.inj hstep
      exact (h.persisted (by rw [hphase]; trivial)).of_phase rfl rfl rfl rfl (by rw [hphase]; rfl)
    · exact absurd hstep (by simp)
  | loadInputs => exact durable_loadInputs h hstep
  | compute => exact durable_compute h hcareful hstep
  | beginWrite => exact durable_beginWrite h hstep
  | writeNext => exact durable_writeNext h hstep
  | endWrite => exact durable_endWrite h hstep
  | failRebuild =>
    have hpers := h.persisted hcareful
    simp only [step] at hstep
    split at hstep
    · rename_i wm hphase
      obtain rfl := Option.some.inj hstep
      exact hpers.of_phase rfl rfl rfl rfl (by rw [hphase]; rfl)
    · rename_i wm snap hphase
      obtain rfl := Option.some.inj hstep
      exact durable_afterFailure hpers (by rw [hphase]; rfl) rfl rfl rfl rfl rfl
    · rename_i wm snap art hphase
      obtain rfl := Option.some.inj hstep
      exact durable_afterFailure hpers (by rw [hphase]; rfl) rfl rfl rfl rfl rfl
    · rename_i wm snap art n hphase
      obtain rfl := Option.some.inj hstep
      exact durable_afterFailure hpers (by rw [hphase]; rfl) rfl rfl rfl rfl rfl
    · exact absurd hstep (by simp)
  | redirty =>
    simp only [step] at hstep
    split at hstep
    · rename_i hphase
      obtain rfl := Option.some.inj hstep
      exact (h.persisted (by rw [hphase]; trivial)).of_phase rfl rfl rfl rfl (by rw [hphase]; rfl)
    · exact absurd hstep (by simp)

/-- The store after `load`, with the markers `load` accepted or wrote. -/
structure Opened (o : BucketOrder) (s : Store) : Prop extends Loaded o s where
  count : s.cache.routeCount = some (s.rows.length : Int)
  marker : s.cache.maxUpdatedAt = some (maxUpdatedAt s.rows)

theorem Opened.durable (h : Opened o s) : Durable o s := by
  rw [Durable, h.phase]
  intro list c b hlist hcount hmarker
  rw [h.list] at hlist
  rw [h.count] at hcount
  obtain rfl := Option.some.inj hlist
  obtain rfl := Option.some.inj hcount
  exact ⟨s.rows, tagMap s.tags, rfl, le_refl _, List.filter_sublist, .inl fun _ _ => rfl⟩

theorem opened_loadedStore (o : BucketOrder) (row : StoredRow) : Opened o (loadedStore o row) where
  toLoaded := loaded_loadedStore o row
  count := rfl
  marker := rfl

/-- The noon drive is inserted ten seconds after the morning drive and rebuilt. -/
def appendActs : List Act :=
  [.beginEdit (.addRoute noonRow true), .commitEdit, .advance 0, .advance 0, .lockRebuild false,
    .swapDirty, .takeWatermark, .loadInputs, .compute, .beginWrite, .writeNext, .writeNext,
    .writeNext, .writeNext, .writeNext, .endWrite]

/-- Where that run ends. -/
def appendedStore : Store :=
  (run (guarded (step .forward) Careful) (loadedStore .forward morningRow) appendActs).getD
    (loadedStore .forward morningRow)

/-- The morning clip, found to be parked all along, written in the second of its first version. -/
def parkedRow : StoredRow :=
  ⟨{ minuteClip "2025-01-01/2025-01-01_10-00-00.mp4" "sei" with
    rawParkCount := 1800, gearRuns := [⟨gearPark, 1800⟩] }, 10⟩

end SentryUsb
