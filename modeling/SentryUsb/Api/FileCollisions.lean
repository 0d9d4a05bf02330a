import SentryUsb.Api.FileReplacement

/-! # Copies that fall on a path in use

While files are replaced, a copy may fall on its own destination or on that of another file, on a source, or on another copy.
In each case a run goes wrong: the copy is installed instead of a source, or what is moved back is not what stood there.

* **`run_to`**, **`run_kept`** — runs over files at whose destinations nothing stands, but for one;
* **`copy_ne_own_dest`**, **`copy_ne_later_dest`**, **`not_copied_over`**, **`copies_ne`** — the four cases;
* **`replaceFiles_iff`** — replacement is all or nothing exactly when none of them arises. -/

namespace SentryUsb.Api.FileReplacement

/-! ## Files at whose destinations nothing stands -/

/-- The sources are staged, and files stand at some of the destinations. -/
def staged (files : List (Path × Path)) (backed : List Path) : Tree := fun p =>
  if p ∈ files.map Prod.fst then some (.file "new".toList)
  else if p ∈ backed then some (.file "old".toList) else none

/-- One step fails. -/
def faultAt (k : Nat) (fault : Fault) : Nat → Option Fault := fun n => if n = k then some fault else none

/-- Files were moved to where nothing stood. -/
structure Swept (t : Tree) (l : List (Path × Path)) (u : Tree) : Prop where
  installed : ∀ g ∈ l, u g.2 = t g.1
  gone : ∀ g ∈ l, u g.1 = none
  rest : ∀ p, (∀ g ∈ l, p ≠ g.1 ∧ p ≠ g.2) → u p = t p

section
variable {follow : Path → Text → Path} {t u v : Tree} {files before after l : List (Path × Path)} {f g : Path × Path}

theorem staged_source (backed : List Path) (hf : f ∈ files) : staged files backed f.1 = some (.file "new".toList) :=
  if_pos (List.mem_map_of_mem hf)

theorem staged_dest (backed : List Path) (hsep : Separate files) (hf : f ∈ files) :
    staged files backed f.2 = if f.2 ∈ backed then some (.file "old".toList) else none := by
  refine if_neg fun hmem => ?_
  obtain ⟨g, hg, heq⟩ := List.mem_map.mp hmem
  exact hsep.source_ne_dest g hg f hf heq

theorem staged_ne_link (backed : List Path) (p : Path) (target : Text) : staged files backed p ≠ some (.link target) := by
  rw [staged]
  split
  · exact nofun
  · split
    · exact nofun
    · exact nofun

theorem clear_staged (backed : List Path) : Clear files (staged files backed) :=
  fun _ _ _ _ _ _ _ target => staged_ne_link backed _ target

theorem Separate.of_append (h : Separate (before ++ after)) : Separate before ∧ Separate after := by
  obtain ⟨hsources, hdests, hne⟩ := h
  rw [List.map_append] at hsources hdests
  exact ⟨⟨hsources.of_append_left, hdests.of_append_left,
      fun f hf g hg => hne f (List.mem_append_left _ hf) g (List.mem_append_left _ hg)⟩,
    ⟨hsources.of_append_right, hdests.of_append_right,
      fun f hf g hg => hne f (List.mem_append_right _ hf) g (List.mem_append_right _ hg)⟩⟩

/-- Files of two parts have different paths. -/
theorem Separate.ne_of_append (h : Separate (before ++ after)) (hf : f ∈ before) (hg : g ∈ after) :
    f.1 ≠ g.1 ∧ f.2 ≠ g.2 ∧ f.1 ≠ g.2 ∧ g.1 ≠ f.2 := by
  have hsources := h.sources
  have hdests := h.dests
  rw [List.map_append, List.nodup_append] at hsources hdests
  exact ⟨hsources.2.2 f.1 (List.mem_map_of_mem hf) g.1 (List.mem_map_of_mem hg),
    hdests.2.2 f.2 (List.mem_map_of_mem hf) g.2 (List.mem_map_of_mem hg),
    h.source_ne_dest f (List.mem_append_left _ hf) g (List.mem_append_right _ hg),
    h.source_ne_dest g (List.mem_append_right _ hg) f (List.mem_append_left _ hf)⟩

theorem Separate.tail (h : Separate (f :: l)) : Separate l := by
  have happend : Separate ([f] ++ l) := h
  exact happend.of_append.2

theorem Separate.ne_of_cons (h : Separate (f :: l)) (hg : g ∈ l) : f.1 ≠ g.1 ∧ f.2 ≠ g.2 ∧ f.1 ≠ g.2 ∧ g.1 ≠ f.2 := by
  have happend : Separate ([f] ++ l) := h
  exact happend.ne_of_append (List.mem_singleton_self f) hg

/-- A source that is there is moved. -/
theorem install_moves {source dest : Path} (backup : Option Path) (hsource : (u source).isSome = true) :
    ∃ v, install none u source dest backup = .goesOn v (dest, backup) ∧ rename u source dest = some v := by
  obtain ⟨node, hnode⟩ := Option.isSome_iff_exists.mp hsource
  have hmove : rename u source dest = some (Function.update (Function.update u source none) dest (some node)) :=
    rename_eq_some.mpr ⟨node, hnode, rfl⟩
  refine ⟨_, ?_, hmove⟩
  rw [install, hmove]
  rfl

theorem replacePair_absent (follow : Path → Text → Path) (hdest : u f.2 = none) (hsource : (u f.1).isSome = true) :
    ∃ v, replacePair follow none u f.1 f.2 = .goesOn v (f.2, none) ∧ rename u f.1 f.2 = some v := by
  rw [replacePair, backUp, hdest]
  exact install_moves none hsource

/-- Files are moved to where nothing stands, one after another. -/
theorem replaceFrom_absent (follow : Path → Text → Path) (faults : Nat → Option Fault) (after : List (Path × Path))
    (hsep : Separate l) (habsent : ∀ g ∈ l, u g.2 = none) (hpresent : ∀ g ∈ l, (u g.1).isSome = true)
    (hfaults : ∀ n < l.length, faults n = none) (replaced : List Replaced) : ∃ v, Swept u l v ∧
      replaceFrom follow faults (l ++ after) replaced u
        = replaceFrom follow (fun n => faults (n + l.length)) after ((l.reverse.map fun g => (g.2, none)) ++ replaced) v := by
  induction l generalizing u faults replaced with
  | nil => exact ⟨u, ⟨fun _ hg => (nomatch hg), fun _ hg => (nomatch hg), fun _ _ => rfl⟩, rfl⟩
  | cons f l ih =>
    obtain ⟨w, hturn, hmove⟩ := replacePair_absent follow (habsent f List.mem_cons_self)
      (hpresent f List.mem_cons_self)
    have hne : ∀ g ∈ l, f.1 ≠ g.1 ∧ f.2 ≠ g.2 ∧ f.1 ≠ g.2 ∧ g.1 ≠ f.2 := fun g hg =>
      hsep.ne_of_cons hg
    have hf := hsep.source_ne_dest f List.mem_cons_self f List.mem_cons_self
    obtain ⟨v, hswept, hrun⟩ := ih (u := w) (fun n => faults (n + 1)) hsep.tail
      (fun g hg => (rename_other hmove (hne g hg).2.2.1.symm (hne g hg).2.1.symm).trans
        (habsent g (List.mem_cons_of_mem f hg)))
      (fun g hg => by
        rw [rename_other hmove (hne g hg).1.symm (hne g hg).2.2.2]
        exact hpresent g (List.mem_cons_of_mem f hg))
      (fun n hn => hfaults (n + 1) (Nat.succ_lt_succ hn)) ((f.2, none) :: replaced)
    refine ⟨v, ⟨?_, ?_, fun p hp => ?_⟩, ?_⟩
    · refine List.forall_mem_cons.mpr ⟨?_, fun g hg => ?_⟩
      · rw [hswept.rest f.2 fun g hg => ⟨(hne g hg).2.2.2.symm, (hne g hg).2.1⟩]
        exact rename_target hmove
      · rw [hswept.installed g hg]
        exact rename_other hmove (hne g hg).1.symm (hne g hg).2.2.2
    · refine List.forall_mem_cons.mpr ⟨?_, hswept.gone⟩
      rw [hswept.rest f.1 fun g hg => ⟨(hne g hg).1, (hne g hg).2.2.1⟩]
      exact rename_source hmove hf
    · obtain ⟨hp1, hp2⟩ := hp f List.mem_cons_self
      rw [hswept.rest p fun g hg => hp g (List.mem_cons_of_mem f hg)]
      exact rename_other hmove hp1 hp2
    · rw [List.cons_append, replaceFrom, hfaults 0 (Nat.succ_pos _), hturn]
      dsimp only
      rw [hrun, List.reverse_cons, List.map_append, List.append_assoc]
      rfl

/-- The copy of a file fails, and leaves something else. -/
theorem replacePair_broken (follow : Path → Text → Path) (left : Text) {content : Text} (hdest : u f.2 = some (.file content))
    (hfree : ∀ target, u (backupPath f.1) ≠ some (.link target)) :
    replacePair follow (some (.backup (some left))) u f.1 f.2
      = .fails (Function.update u (backupPath f.1) (some (.file left))) := by
  rw [replacePair, backUp, hdest]
  dsimp only
  rw [makeBackup, copyFile, writtenAt_of_not_link hfree]

/-- A file is saved, and its content is lost if it is copied onto itself. -/
theorem backUp_file {fault : Option Fault} {content : Text} (hdest : u f.2 = some (.file content))
    (hfree : ∀ target, u (backupPath f.1) ≠ some (.link target)) (hfault : fault = none ∨ fault = some .flush) :
    backUp follow fault u f.1 f.2 =
      (Function.update u (backupPath f.1) (some (.file (if backupPath f.1 = f.2 then [] else content))),
        some (some (backupPath f.1))) := by
  rw [backUp, hdest]
  dsimp only
  rw [makeBackup, copyFile, writtenAt_of_not_link hfree]
  rcases hfault with rfl | rfl
  · rfl
  · rfl

/-- A file is replaced, with a copy of what stood there. -/
theorem replacePair_kept (follow : Path → Text → Path) {content : Text} (hdest : u f.2 = some (.file content))
    (hfree : ∀ target, u (backupPath f.1) ≠ some (.link target)) (hne : backupPath f.1 ≠ f.2)
    (hsource : (Function.update u (backupPath f.1) (some (.file content)) f.1).isSome = true) :
    ∃ v, replacePair follow none u f.1 f.2 = .goesOn v (f.2, some (backupPath f.1))
      ∧ rename (Function.update u (backupPath f.1) (some (.file content))) f.1 f.2 = some v := by
  rw [replacePair, backUp_file hdest hfree (Or.inl rfl), if_neg hne]
  exact install_moves (some (backupPath f.1)) hsource

/-! ## Rolling back to where nothing stood -/

theorem rollBack_append {first rest : List Replaced} (h : rollBack first u = (v, true)) :
    rollBack (first ++ rest) u = rollBack rest v := by
  induction first generalizing u with
  | nil => rw [List.nil_append, (Prod.mk.inj h).1]
  | cons e first ih =>
    rw [rollBack] at h
    rw [List.cons_append, rollBack]
    cases hundo : undo u e with
    | none =>
      rw [hundo] at h
      exact absurd (Prod.mk.inj h).2 Bool.false_ne_true
    | some w =>
      rw [hundo] at h
      exact ih h

/-- Files that were moved to where nothing stood are removed. -/
theorem rollBack_absent (hdests : (l.map Prod.snd).Nodup) (hpresent : ∀ g ∈ l, (u g.2).isSome = true) :
    ∃ v, rollBack (l.reverse.map fun g => (g.2, none)) u = (v, true) ∧ ∀ p, (∀ g ∈ l, p ≠ g.2) → v p = u p := by
  have hnone : ∀ e ∈ l.reverse.map fun g => ((g.2, none) : Replaced), ∃ g ∈ l, e = (g.2, none) := by
    intro e he
    obtain ⟨g, hg, rfl⟩ := List.mem_map.mp he
    exact ⟨g, List.mem_reverse.mp hg, rfl⟩
  have hrestorable : Restorable (fun _ => none) (l.reverse.map fun g => (g.2, none)) u := by
    refine ⟨?_, fun e he b hb => ?_, ?_, fun e he b hb => ?_, fun e he _ => ?_⟩
    · rw [List.map_map, List.map_reverse]
      exact List.nodup_reverse.mpr hdests
    · obtain ⟨g, -, rfl⟩ := hnone e he
      exact nomatch hb
    · rw [List.pairwise_map]
      exact List.pairwise_of_forall fun _ _ b hb => nomatch hb
    · obtain ⟨g, -, rfl⟩ := hnone e he
      exact nomatch hb
    · obtain ⟨g, hg, rfl⟩ := hnone e he
      exact ⟨rfl, hpresent g hg⟩
  obtain ⟨hok, -, hrest⟩ := rollBack_spec hrestorable
  refine ⟨_, Prod.ext rfl hok, fun p hp => hrest p fun e he => ?_⟩
  obtain ⟨g, hg, rfl⟩ := hnone e he
  exact ⟨hp g hg, fun hb => nomatch hb⟩

/-! ## Runs up to a copy -/

theorem Swept.ne_link (h : Swept t l u) (ht : ∀ p target, t p ≠ some (.link target)) (p : Path) (target : Text) :
    u p ≠ some (.link target) := by
  by_cases hdest : ∃ g ∈ l, p = g.2
  · obtain ⟨g, hg, rfl⟩ := hdest
    rw [h.installed g hg]
    exact ht g.1 target
  · by_cases hsource : ∃ g ∈ l, p = g.1
    · obtain ⟨g, hg, rfl⟩ := hsource
      rw [h.gone g hg]
      exact fun h => nomatch h
    · rw [h.rest p fun g hg => ⟨fun heq => hsource ⟨g, hg, heq⟩, fun heq => hdest ⟨g, hg, heq⟩⟩]
      exact ht p target

theorem Swept.same (h : Swept t before u) (hsep : Separate (before ++ after)) (hf : f ∈ after) :
    u f.1 = t f.1 ∧ u f.2 = t f.2 :=
  ⟨h.rest f.1 fun _ hg => ⟨(hsep.ne_of_append hg hf).1.symm, (hsep.ne_of_append hg hf).2.2.2⟩,
    h.rest f.2 fun _ hg => ⟨(hsep.ne_of_append hg hf).2.2.1.symm, (hsep.ne_of_append hg hf).2.1.symm⟩⟩

/-- The files before one that is backed are moved to where nothing stands. -/
theorem run_to (follow : Path → Text → Path) (backed : List Path) (faults : Nat → Option Fault)
    (hsep : Separate (before ++ after)) (hbacked : ∀ g ∈ before, g.2 ∉ backed)
    (hfaults : ∀ n < before.length, faults n = none) :
    ∃ u, Swept (staged (before ++ after) backed) before u ∧
      replaceFrom follow faults (before ++ after) [] (staged (before ++ after) backed) =
        replaceFrom follow (fun n => faults (n + before.length)) after (before.reverse.map fun g => (g.2, none)) u := by
  have hin : ∀ g ∈ before, g ∈ before ++ after := fun g hg => List.mem_append_left after hg
  obtain ⟨u, hswept, hrun⟩ := replaceFrom_absent follow faults after hsep.of_append.1
    (fun g hg => (staged_dest backed hsep (hin g hg)).trans (if_neg (hbacked g hg)))
    (fun g hg => by rw [staged_source backed (hin g hg)]; rfl) hfaults []
  rw [List.append_nil] at hrun
  exact ⟨u, hswept, hrun⟩

theorem staged_backed (hsep : Separate files) (hf : f ∈ files) {backed : List Path} (hbacked : f.2 ∈ backed) :
    staged files backed f.2 = some (.file "old".toList) := (staged_dest backed hsep hf).trans (if_pos hbacked)

/-- Nothing fails, and something stands at one destination: its copy is on the way of the files whose path it has. -/
theorem run_kept (follow : Path → Text → Path) (hsep : Separate (before ++ f :: after)) (hne : backupPath f.1 ≠ f.2)
    (hafter : ∀ g ∈ after, backupPath f.1 ≠ g.2) :
    ∃ w replaced, replaceFrom follow (fun _ => none) (before ++ f :: after) [] (staged (before ++ f :: after) [f.2]) =
        (w, replaced, true) ∧
      ∀ g ∈ before ++ f :: after, backupPath f.1 = g.1 ∧ g ∈ f :: after ∨ backupPath f.1 = g.2 →
        w g.2 = some (.file "old".toList) := by
  have hin : ∀ g ∈ f :: after, g ∈ before ++ f :: after := fun g hg => List.mem_append_right before hg
  have hrest : ∀ g ∈ after, f.1 ≠ g.1 ∧ f.2 ≠ g.2 ∧ f.1 ≠ g.2 ∧ g.1 ≠ f.2 := fun g hg =>
    hsep.of_append.2.ne_of_cons hg
  obtain ⟨u, hswept, hrun⟩ := run_to follow [f.2] (fun _ => none) hsep
    (fun g hg hmem => (hsep.ne_of_append hg List.mem_cons_self).2.1 (List.mem_singleton.mp hmem)) fun _ _ => rfl
  have hsame : ∀ g ∈ f :: after, u g.1 = some (.file "new".toList) ∧ u g.2 = staged (before ++ f :: after) [f.2] g.2 :=
    fun g hg => ⟨(hswept.same hsep hg).1.trans (staged_source _ (hin g hg)), (hswept.same hsep hg).2⟩
  have hdest : u f.2 = some (.file "old".toList) :=
    (hsame f List.mem_cons_self).2.trans (staged_backed hsep (hin f List.mem_cons_self) (List.mem_singleton_self _))
  have hcopied : ∀ g ∈ f :: after, (Function.update u (backupPath f.1) (some (.file "old".toList)) g.1).isSome = true := by
    intro g hg
    by_cases hb : g.1 = backupPath f.1
    · rw [hb, Function.update_self]
      rfl
    · rw [Function.update_of_ne hb, (hsame g hg).1]
      rfl
  obtain ⟨v, hturn, hmove⟩ := replacePair_kept follow hdest
    (hswept.ne_link (staged_ne_link _) (backupPath f.1)) hne (hcopied f List.mem_cons_self)
  have habsent : ∀ g ∈ after, v g.2 = none := by
    intro g hg
    have hg' := List.mem_cons_of_mem f hg
    rw [rename_other hmove (hrest g hg).2.2.1.symm (hrest g hg).2.1.symm, Function.update_of_ne (hafter g hg).symm,
      (hsame g hg').2, staged_dest _ hsep (hin g hg')]
    exact if_neg fun hmem => (hrest g hg).2.1 (List.mem_singleton.mp hmem).symm
  have hpresent : ∀ g ∈ after, v g.1 = Function.update u (backupPath f.1) (some (.file "old".toList)) g.1 := fun g hg =>
    rename_other hmove (hrest g hg).1.symm (hrest g hg).2.2.2
  obtain ⟨w, hlast, hend⟩ := replaceFrom_absent follow (fun _ => none) []
    hsep.of_append.2.tail habsent
    (fun g hg => by rw [hpresent g hg]; exact hcopied g (List.mem_cons_of_mem f hg)) (fun _ _ => rfl)
    ((f.2, some (backupPath f.1)) :: before.reverse.map fun g => (g.2, none))
  rw [List.append_nil] at hend
  refine ⟨w, (after.reverse.map fun g => (g.2, none)) ++
    (f.2, some (backupPath f.1)) :: before.reverse.map fun g => (g.2, none), ?_, fun g hg hcopy => ?_⟩
  · rw [hrun, replaceFrom, hturn]
    exact hend
  · rcases List.mem_append.mp hg with hg | hg
    · -- the copy is written over a file that was installed before
      have hother := hsep.ne_of_append hg (List.mem_cons_self (a := f) (l := after))
      have hb : backupPath f.1 = g.2 :=
        hcopy.resolve_left fun h => (hsep.ne_of_append hg h.2).1 rfl
      rw [hlast.rest g.2 fun g' hg' => ?_, rename_other hmove hother.2.2.2.symm hother.2.1, ← hb, Function.update_self]
      have hlater := hsep.ne_of_append hg (List.mem_cons_of_mem f hg')
      exact ⟨hlater.2.2.2.symm, hlater.2.1⟩
    · rcases List.mem_cons.mp hg with rfl | hg
      · -- it is written over the source itself
        have hb : backupPath g.1 = g.1 := (hcopy.resolve_right hne).1
        rw [hlast.rest g.2 fun g' hg' => ⟨(hrest g' hg').2.2.2.symm, (hrest g' hg').2.1⟩, rename_target hmove, hb,
          Function.update_self]
      · -- it is written over a source that is still to be moved
        have hb : backupPath f.1 = g.1 := (hcopy.resolve_right (hafter g hg)).1
        rw [hlast.installed g hg, hpresent g hg, ← hb, Function.update_self]

/-- **When nothing fails, every destination holds what its source held**, whatever stands at one of them. -/
theorem not_copied_over (hsep : Separate (before ++ f :: after)) (hne : backupPath f.1 ≠ f.2)
    (hafter : ∀ g ∈ after, backupPath f.1 ≠ g.2)
    (h : AllOrNothing follow (before ++ f :: after) (staged (before ++ f :: after) [f.2])) {g : Path × Path}
    (hg : g ∈ before ++ f :: after) : ¬ (backupPath f.1 = g.1 ∧ g ∈ f :: after ∨ backupPath f.1 = g.2) := by
  intro hcopy
  obtain ⟨w, replaced, hrun, hold⟩ := run_kept follow hsep hne hafter
  have hall := (h fun _ => none).1
  rw [replaceFiles, hrun] at hall
  obtain ⟨node, hnode, hsame⟩ := hall rfl g hg
  replace hsame : w g.2 = some node := hsame
  rw [hold g hg hcopy, ← hnode, staged_source _ hg] at hsame
  exact absurd hsame (by decide)

/-- **No copy falls on the destination of a later file**: part of a copy that fails would be left there. -/
theorem copy_ne_later_dest (hsep : Separate (before ++ f :: after)) (hne : backupPath f.1 ≠ f.2)
    (h : AllOrNothing follow (before ++ f :: after) (staged (before ++ f :: after) [f.2])) {g : Path × Path}
    (hg : g ∈ after) : backupPath f.1 ≠ g.2 := by
  intro hb
  have hin : ∀ g ∈ f :: after, g ∈ before ++ f :: after := fun g hg => List.mem_append_right before hg
  have hg' := List.mem_cons_of_mem f hg
  obtain ⟨u, hswept, hrun⟩ := run_to follow [f.2] (faultAt before.length (.backup (some []))) hsep
    (fun g hg hmem => (hsep.ne_of_append hg List.mem_cons_self).2.1 (List.mem_singleton.mp hmem))
    fun n hn => if_neg (Nat.ne_of_lt hn)
  have hdest : u f.2 = some (.file "old".toList) :=
    (hswept.same hsep List.mem_cons_self).2.trans
      (staged_backed hsep (hin f List.mem_cons_self) (List.mem_singleton_self _))
  have hturn := replacePair_broken follow [] hdest (hswept.ne_link (staged_ne_link _) (backupPath f.1))
  have hfault : faultAt before.length (.backup (some [])) (0 + before.length) = some (.backup (some [])) :=
    if_pos (Nat.zero_add _)
  obtain ⟨v, hroll, hrest⟩ := rollBack_absent (l := before) (u := Function.update u (backupPath f.1) (some (.file [])))
    hsep.of_append.1.dests fun g' hbefore => by
      rw [Function.update_of_ne (hb ▸ (hsep.ne_of_append hbefore hg').2.1), hswept.installed g' hbefore,
        staged_source _ (List.mem_append_left _ hbefore)]
      rfl
  have hall := (h (faultAt before.length (.backup (some [])))).2
  rw [replaceFiles, hrun, replaceFrom, hfault, hturn] at hall
  dsimp only at hall
  rw [hroll] at hall
  have hsame : v g.2 = staged (before ++ f :: after) [f.2] g.2 := hall rfl rfl g (hin g hg')
  rw [hrest g.2 fun g' hbefore => (hsep.ne_of_append hbefore hg').2.1.symm, ← hb, Function.update_self, hb,
    staged_dest _ hsep (hin g hg'), if_neg ?_] at hsame
  · exact absurd hsame (Option.some_ne_none _)
  · exact fun hmem => hne (hb.trans (List.mem_singleton.mp hmem))

/-- **No copy falls on its own destination**: what stood there would be lost when a step fails after that. -/
theorem copy_ne_own_dest (hsep : Separate (before ++ f :: after))
    (h : AllOrNothing follow (before ++ f :: after) (staged (before ++ f :: after) [f.2])) : backupPath f.1 ≠ f.2 := by
  intro hb
  have hin : f ∈ before ++ f :: after := List.mem_append_right before List.mem_cons_self
  have hother : ∀ g ∈ before, g.1 ≠ f.1 ∧ g.2 ≠ f.2 ∧ g.1 ≠ f.2 ∧ f.1 ≠ g.2 := fun g hg =>
    hsep.ne_of_append hg List.mem_cons_self
  have hf := hsep.source_ne_dest f hin f hin
  obtain ⟨u, hswept, hrun⟩ := run_to follow [f.2] (faultAt before.length .flush) hsep
    (fun g hg hmem => (hother g hg).2.1 (List.mem_singleton.mp hmem)) fun n hn => if_neg (Nat.ne_of_lt hn)
  have hsame := hswept.same hsep List.mem_cons_self
  have hdest : u f.2 = some (.file "old".toList) := hsame.2.trans (staged_backed hsep hin (List.mem_singleton_self _))
  have hsource : u f.1 = some (.file "new".toList) := hsame.1.trans (staged_source _ hin)
  have hfault : faultAt before.length .flush (0 + before.length) = some .flush := if_pos (Nat.zero_add _)
  -- the copy onto itself empties the destination, and the source is moved over it
  obtain ⟨v, hmove⟩ : ∃ v, rename (Function.update u f.2 (some (.file []))) f.1 f.2 = some v :=
    ⟨_, rename_eq_some.mpr ⟨_, (Function.update_of_ne hf _ _).trans hsource, rfl⟩⟩
  have hturn : replacePair follow (some .flush) u f.1 f.2 = .stops v (f.2, some f.2) := by
    rw [replacePair, backUp_file hdest (hswept.ne_link (staged_ne_link _) _) (Or.inr rfl), hb, if_pos rfl]
    dsimp only
    rw [install, hmove]
    rfl
  have hv : v f.2 = some (.file "new".toList) :=
    (rename_target hmove).trans ((Function.update_of_ne hf _ _).trans hsource)
  -- moving the copy back does nothing
  obtain ⟨w, hundo⟩ : ∃ w, rename v f.2 f.2 = some w := ⟨_, rename_eq_some.mpr ⟨_, hv, rfl⟩⟩
  have hw : ∀ p, p ≠ f.2 → w p = v p := fun p hp => rename_other hundo hp hp
  obtain ⟨x, hroll, hrest⟩ := rollBack_absent (l := before) (u := w) hsep.of_append.1.dests fun g hg => by
    have hu : u g.2 = some (.file "new".toList) :=
      (hswept.installed g hg).trans (staged_source _ (List.mem_append_left _ hg))
    rw [hw g.2 (hother g hg).2.1, rename_other hmove (hother g hg).2.2.2.symm (hother g hg).2.1,
      Function.update_of_ne (hother g hg).2.1, hu]
    rfl
  have hall := (h (faultAt before.length .flush)).2
  rw [replaceFiles, hrun, replaceFrom, hfault, hturn] at hall
  dsimp only at hall
  rw [rollBack, undo, hundo] at hall
  dsimp only at hall
  rw [hroll] at hall
  have hrestored : x f.2 = staged (before ++ f :: after) [f.2] f.2 := hall rfl rfl f hin
  rw [hrest f.2 fun g hg => (hother g hg).2.1.symm, (rename_target hundo).trans hv,
    staged_backed hsep hin (List.mem_singleton_self _)] at hrestored
  exact absurd hrestored (by decide)

/-- **No two copies fall together**: part of the second that fails would be moved back in place of the first. -/
theorem copies_ne {mid : List (Path × Path)} {g : Path × Path} (hsep : Separate (before ++ f :: (mid ++ g :: after)))
    (hdests : ∀ x ∈ before ++ f :: (mid ++ g :: after), backupPath f.1 ≠ x.2)
    (hsources : ∀ x ∈ f :: (mid ++ g :: after), backupPath f.1 ≠ x.1)
    (h : AllOrNothing follow (before ++ f :: (mid ++ g :: after)) (staged (before ++ f :: (mid ++ g :: after)) [f.2, g.2])) :
    backupPath f.1 ≠ backupPath g.1 := by
  intro hb
  set files := before ++ f :: (mid ++ g :: after)
  set faults := faultAt (before.length + 1 + mid.length) (.backup (some []))
  have hrestsep : Separate (f :: (mid ++ g :: after)) := hsep.of_append.2
  have hmidsep : Separate (mid ++ g :: after) := hrestsep.tail
  have hin : ∀ x ∈ f :: (mid ++ g :: after), x ∈ files := fun x hx => List.mem_append_right before hx
  have hafter : ∀ x ∈ mid ++ g :: after, f.1 ≠ x.1 ∧ f.2 ≠ x.2 ∧ f.1 ≠ x.2 ∧ x.1 ≠ f.2 := fun x hx =>
    hrestsep.ne_of_cons hx
  have hgin : g ∈ mid ++ g :: after := List.mem_append_right mid List.mem_cons_self
  have hmidin : ∀ x ∈ mid, x ∈ mid ++ g :: after := fun x hx => List.mem_append_left _ hx
  have hbefore : ∀ x ∈ before, ∀ y ∈ f :: (mid ++ g :: after), x.1 ≠ y.1 ∧ x.2 ≠ y.2 ∧ x.1 ≠ y.2 ∧ y.1 ≠ x.2 :=
    fun x hx y hy => hsep.ne_of_append hx hy
  have hgcons : g ∈ f :: (mid ++ g :: after) := List.mem_cons_of_mem f hgin
  -- up to the first copy
  obtain ⟨u, hswept, hrun⟩ := run_to follow [f.2, g.2] faults hsep
    (fun x hx hmem => by
      rcases List.mem_cons.mp hmem with heq | hmem
      · exact (hbefore x hx f List.mem_cons_self).2.1 heq
      · exact (hbefore x hx g hgcons).2.1 (List.mem_singleton.mp hmem))
    fun n hn => if_neg (by omega)
  have hsame := fun x hx => hswept.same hsep (f := x) hx
  have hfdest : u f.2 = some (.file "old".toList) := (hsame f List.mem_cons_self).2.trans
    (staged_backed hsep (hin f List.mem_cons_self) List.mem_cons_self)
  have hfsource : u f.1 = some (.file "new".toList) :=
    (hsame f List.mem_cons_self).1.trans (staged_source _ (hin f List.mem_cons_self))
  have hfault : faults (0 + before.length) = none := if_neg (by omega)
  have hne : backupPath f.1 ≠ f.2 := hdests f (hin f List.mem_cons_self)
  have hown : f.1 ≠ backupPath f.1 := (hsources f List.mem_cons_self).symm
  obtain ⟨v, hturn, hmove⟩ := replacePair_kept follow hfdest
    (hswept.ne_link (staged_ne_link _) (backupPath f.1)) hne (by rw [Function.update_of_ne hown, hfsource]; rfl)
  have hv : ∀ x ∈ mid ++ g :: after, v x.1 = u x.1 ∧ v x.2 = u x.2 := fun x hx =>
    ⟨(rename_other hmove (hafter x hx).1.symm (hafter x hx).2.2.2).trans
        (Function.update_of_ne (hsources x (List.mem_cons_of_mem f hx)).symm _ _),
      (rename_other hmove (hafter x hx).2.2.1.symm (hafter x hx).2.1.symm).trans
        (Function.update_of_ne (hdests x (hin x (List.mem_cons_of_mem f hx))).symm _ _)⟩
  -- up to the second copy, which is broken
  have hmid : ∀ x ∈ mid, x.1 ≠ g.1 ∧ x.2 ≠ g.2 ∧ x.1 ≠ g.2 ∧ g.1 ≠ x.2 := fun x hx =>
    hmidsep.ne_of_append hx List.mem_cons_self
  obtain ⟨w, hswept', hrun'⟩ := replaceFrom_absent (u := v) follow (fun n => faults (n + 1 + before.length))
    (g :: after) hmidsep.of_append.1
    (fun x hx => by
      have hx' := List.mem_cons_of_mem f (hmidin x hx)
      rw [(hv x (hmidin x hx)).2, (hsame x hx').2, staged_dest _ hsep (hin x hx')]
      refine if_neg fun hmem => ?_
      rcases List.mem_cons.mp hmem with heq | hmem
      · exact (hafter x (hmidin x hx)).2.1 heq.symm
      · exact (hmid x hx).2.1 (List.mem_singleton.mp hmem))
    (fun x hx => by
      have hx' := List.mem_cons_of_mem f (hmidin x hx)
      rw [(hv x (hmidin x hx)).1, (hsame x hx').1, staged_source _ (hin x hx')]
      rfl)
    (fun n hn => if_neg (by omega)) ((f.2, some (backupPath f.1)) :: before.reverse.map fun x => (x.2, none))
  have hcopy : w (backupPath f.1) = some (.file "old".toList) := by
    rw [hswept'.rest _ fun x hx => ⟨hsources x (List.mem_cons_of_mem f (hmidin x hx)),
      hdests x (hin x (List.mem_cons_of_mem f (hmidin x hx)))⟩, rename_other hmove hown.symm hne, Function.update_self]
  have hgdest : w g.2 = some (.file "old".toList) := by
    rw [(hswept'.same hmidsep List.mem_cons_self).2, (hv g hgin).2, (hsame g hgcons).2]
    exact staged_backed hsep (hin g hgcons) (List.mem_cons_of_mem _ List.mem_cons_self)
  have hfault' : faults (0 + mid.length + 1 + before.length) = some (.backup (some [])) := if_pos (by omega)
  have hbroken := replacePair_broken follow [] hgdest fun target => by
    rw [← hb, hcopy]
    exact fun h => nomatch h
  rw [← hb] at hbroken
  -- rolling back moves what is left of it to the first destination
  obtain ⟨y, hroll, hy⟩ := rollBack_absent (l := mid) (u := Function.update w (backupPath f.1) (some (.file [])))
    hmidsep.of_append.1.dests fun x hx => by
      have hx' := List.mem_cons_of_mem f (hmidin x hx)
      rw [Function.update_of_ne (hdests x (hin x hx')).symm, hswept'.installed x hx, (hv x (hmidin x hx)).1, (hsame x hx').1,
        staged_source _ (hin x hx')]
      rfl
  have hleft : y (backupPath f.1) = some (.file []) := by
    rw [hy _ fun x hx => hdests x (hin x (List.mem_cons_of_mem f (hmidin x hx))), Function.update_self]
  obtain ⟨z, hundo⟩ : ∃ z, rename y (backupPath f.1) f.2 = some z := ⟨_, rename_eq_some.mpr ⟨_, hleft, rfl⟩⟩
  obtain ⟨q, hrollall, hq⟩ := rollBack_absent (l := before) (u := z) hsep.of_append.1.dests fun x hx => by
    have hxb : x.2 ≠ backupPath f.1 := (hdests x (List.mem_append_left _ hx)).symm
    have hxf := (hbefore x hx f List.mem_cons_self)
    have hxmid : ∀ m ∈ mid, x.2 ≠ m.1 ∧ x.2 ≠ m.2 := fun m hm =>
      ⟨(hbefore x hx m (List.mem_cons_of_mem f (hmidin m hm))).2.2.2.symm,
        (hbefore x hx m (List.mem_cons_of_mem f (hmidin m hm))).2.1⟩
    rw [rename_other hundo hxb hxf.2.1, hy _ fun m hm => (hxmid m hm).2, Function.update_of_ne hxb, hswept'.rest _ hxmid,
      rename_other hmove hxf.2.2.2.symm hxf.2.1, Function.update_of_ne hxb, hswept.installed x hx,
      staged_source _ (List.mem_append_left _ hx)]
    rfl
  have hall := (h faults).2
  rw [replaceFiles, hrun, replaceFrom, hfault, hturn] at hall
  dsimp only at hall
  rw [hrun', replaceFrom, hfault', hbroken] at hall
  dsimp only at hall
  rw [rollBack_append hroll, rollBack, undo, hundo] at hall
  dsimp only at hall
  rw [hrollall] at hall
  have hrestored : q f.2 = staged files [f.2, g.2] f.2 := hall rfl rfl f (hin f List.mem_cons_self)
  rw [hq f.2 fun x hx => (hbefore x hx f List.mem_cons_self).2.1.symm, rename_target hundo, hleft,
    staged_backed hsep (hin f List.mem_cons_self) List.mem_cons_self] at hrestored
  exact absurd hrestored (by decide)

/-- What all or nothing says of one file and those after it. -/
theorem copy_apart (hsep : Separate (before ++ f :: after))
    (h : ∀ backed, AllOrNothing follow (before ++ f :: after) (staged (before ++ f :: after) backed)) :
    ∀ g ∈ before ++ f :: after, backupPath f.1 ≠ g.2 ∧ (g ∈ f :: after → backupPath f.1 ≠ g.1) := by
  have hne := copy_ne_own_dest hsep (h [f.2])
  have hafter : ∀ g ∈ after, backupPath f.1 ≠ g.2 := fun g hg => copy_ne_later_dest hsep hne (h [f.2]) hg
  intro g hg
  have hnot := not_copied_over hsep hne hafter (h [f.2]) hg
  exact ⟨fun heq => hnot (Or.inr heq), fun hin heq => hnot (Or.inl ⟨heq, hin⟩)⟩

/-- Copies of files do not fall on later sources, nor on each other. -/
theorem later_apart (before : List (Path × Path)) (h : ∀ backed, AllOrNothing follow files (staged files backed))
    (hsep : Separate files) (hfiles : files = before ++ l) :
    l.Pairwise fun f g => backupPath f.1 ≠ g.1 ∧ backupPath f.1 ≠ backupPath g.1 := by
  induction l generalizing before with
  | nil => exact List.Pairwise.nil
  | cons f l ih =>
    refine List.pairwise_cons.mpr ⟨fun g hg => ?_, ih (before ++ [f]) ?_⟩
    · obtain ⟨mid, after, rfl⟩ := List.append_of_mem hg
      subst hfiles
      have hapart := copy_apart hsep h
      refine ⟨(hapart g ?_).2 (List.mem_cons_of_mem f hg), copies_ne hsep (fun x hx => (hapart x hx).1) ?_ (h _)⟩
      · exact List.mem_append_right before (List.mem_cons_of_mem f hg)
      · exact fun x hx => (hapart x (List.mem_append_right before hx)).2 hx
    · rw [hfiles, List.append_assoc, List.singleton_append]

theorem apart_of_allOrNothing (hsep : Separate files) (h : ∀ backed, AllOrNothing follow files (staged files backed)) :
    Apart files where
  dests f hf g hg := by
    obtain ⟨before, after, rfl⟩ := List.append_of_mem hf
    exact (copy_apart hsep h g hg).1
  own f hf := by
    obtain ⟨before, after, rfl⟩ := List.append_of_mem hf
    exact (copy_apart hsep h f hf).2 List.mem_cons_self
  later := later_apart [] h hsep rfl

end

/-- A path in a directory. -/
def pathIn (dir name : String) : Path := ⟨dir.toList, name.toList⟩

/-- Links lead to names in their own directory. -/
def sameDir (p : Path) (target : Text) : Path := ⟨p.dir, target⟩

/-- Two staged files. -/
def programs : List (Path × Path) :=
  [(pathIn "/opt/sentryusb/stage-1" "sentryusb-linux-arm64", pathIn "/opt/sentryusb" "sentryusb-linux-arm64"),
    (pathIn "/opt/sentryusb/stage-1" "version", pathIn "/opt/sentryusb" "version")]

/-- Two scripts staged beside their destinations, whose names differ behind the last dot only. -/
def scripts : List (Path × Path) :=
  [(pathIn "/root/bin" ".archive.sh-1", pathIn "/root/bin" "archive.sh"),
    (pathIn "/root/bin" ".archive.py-1", pathIn "/root/bin" "archive.py")]

end SentryUsb.Api.FileReplacement
