import Mathlib

/-! # Cutting a stream at its markers

A loop that appends items to a current group and, at a marker, closes the group if it holds anything,
computes `cut` of its input stream: `some a` is an item, `none` a marker.

* **`cut`** — the groups the loop leaves behind;
* **`forall₂_cut`** — streams that match are cut into groups that match;
* **`flatten_cut`** — no item is lost, added or moved;
* **`exists_head_cut`**, **`exists_head_cutFrom_of_marker`** — which items head a group;
* **`groupShape_of_mem_cut`** — where the items of a group come from. -/

namespace SentryUsb.Library

variable {α β : Type*}

/-- The groups closed so far are emitted; `cur` is the group being filled. -/
def cutFrom : List α → List (Option α) → List (List α)
  | cur, [] => if cur.isEmpty then [] else [cur]
  | cur, some a :: es => cutFrom (cur ++ [a]) es
  | cur, none :: es => if cur.isEmpty then cutFrom [] es else cur :: cutFrom [] es

/-- The non-empty groups of items between markers. -/
def cut (es : List (Option α)) : List (List α) := cutFrom [] es

section Relational

variable {R : α → β → Prop}

theorem forall₂_cutFrom {cur : List α} {cur' : List β} {es : List (Option α)} {fs : List (Option β)}
    (hcur : List.Forall₂ R cur cur') (h : List.Forall₂ (Option.Rel R) es fs) :
    List.Forall₂ (List.Forall₂ R) (cutFrom cur es) (cutFrom cur' fs) := by
  induction h generalizing cur cur' with
  | nil =>
    cases hcur with
    | nil => exact .nil
    | cons ha hl => exact .cons (.cons ha hl) .nil
  | cons he _ ih =>
    cases he with
    | some hab => exact ih (List.rel_append hcur (.cons hab .nil))
    | none =>
      cases hcur with
      | nil => exact ih .nil
      | cons ha hl => exact .cons (.cons ha hl) (ih .nil)

/-- Streams that match item by item and marker by marker are cut into matching groups. -/
theorem forall₂_cut {es : List (Option α)} {fs : List (Option β)}
    (h : List.Forall₂ (Option.Rel R) es fs) :
    List.Forall₂ (List.Forall₂ R) (cut es) (cut fs) :=
  forall₂_cutFrom .nil h

end Relational

theorem flatten_cutFrom (cur : List α) (es : List (Option α)) :
    (cutFrom cur es).flatten = cur ++ es.filterMap id := by
  induction es generalizing cur with
  | nil => cases cur <;> simp [cutFrom]
  | cons e es ih =>
    cases e with
    | some a => simp [cutFrom, ih]
    | none => cases cur <;> simp [cutFrom, ih]

/-- The groups, in order, hold exactly the items. -/
theorem flatten_cut (es : List (Option α)) : (cut es).flatten = es.filterMap id :=
  flatten_cutFrom [] es

theorem nil_notMem_cutFrom (cur : List α) (es : List (Option α)) : [] ∉ cutFrom cur es := by
  induction es generalizing cur with
  | nil => cases cur <;> simp [cutFrom]
  | cons e es ih =>
    cases e with
    | some a => exact ih _
    | none => cases cur <;> simp [cutFrom, ih]

/-- No group is empty. -/
theorem nil_notMem_cut (es : List (Option α)) : [] ∉ cut es := nil_notMem_cutFrom [] es

/-- An item of a group is an item of the stream. -/
theorem mem_of_mem_cut {es : List (Option α)} {g : List α} {a : α} (hg : g ∈ cut es) (ha : a ∈ g) :
    some a ∈ es := by
  have h : a ∈ (cut es).flatten := List.mem_flatten.mpr ⟨g, hg, ha⟩
  rw [flatten_cut] at h
  simpa using h

/-! ## Heads of groups -/

theorem exists_head_cutFrom {cur : List α} (hcur : cur ≠ []) (es : List (Option α)) :
    ∃ g ∈ cutFrom cur es, g.head? = cur.head? := by
  induction es generalizing cur with
  | nil => exact ⟨cur, by simp [cutFrom, hcur], rfl⟩
  | cons e es ih =>
    cases e with
    | some a =>
      have hne : cur ++ [a] ≠ [] := by simp
      obtain ⟨g, hg, hhead⟩ := ih hne
      refine ⟨g, hg, hhead.trans ?_⟩
      cases cur with
      | nil => exact absurd rfl hcur
      | cons c cur => rfl
    | none => exact ⟨cur, by simp [cutFrom, hcur], rfl⟩

/-- The first item of a stream heads a group. -/
theorem exists_head_cut {es : List (Option α)} {a : α} {as : List α}
    (h : es.filterMap id = a :: as) : ∃ g ∈ cut es, g.head? = some a := by
  induction es with
  | nil => simp at h
  | cons e es ih =>
    cases e with
    | some b =>
      obtain rfl : b = a := by simpa using (List.cons.inj h).1
      exact exists_head_cutFrom (List.cons_ne_nil b []) es
    | none => exact ih (by simpa using h)

/-- An item right after a marker heads a group. -/
theorem exists_head_cutFrom_of_marker (cur : List α) (pre post : List (Option α)) (a : α) :
    ∃ g ∈ cutFrom cur (pre ++ none :: some a :: post), g.head? = some a := by
  induction pre generalizing cur with
  | nil =>
    obtain ⟨g, hg, hhead⟩ := exists_head_cutFrom (List.cons_ne_nil a []) post
    refine ⟨g, ?_, hhead⟩
    cases cur with
    | nil => simpa [cutFrom] using hg
    | cons c cur => simpa [cutFrom] using Or.inr hg
  | cons e pre ih =>
    cases e with
    | some b => exact ih _
    | none =>
      obtain ⟨g, hg, hhead⟩ := ih []
      refine ⟨g, ?_, hhead⟩
      cases cur with
      | nil => simpa [cutFrom] using hg
      | cons c cur => simpa [cutFrom] using Or.inr hg

/-! ## Streams made of blocks

Each element of `l` contributes a block of events in which two items never stand side by side. A
group then takes at most one item from each block: the first item of every block but the one it
starts in. -/

section Blocks

variable {ev : α → List (Option β)}

/-- The block of `t` opens with `c`. -/
def Opens (ev : α → List (Option β)) (t : α) (c : β) : Prop := (ev t).head? = some (some c)

/-- In the block of `t`, `c` comes right after a marker. -/
def Resumes (ev : α → List (Option β)) (t : α) (c : β) : Prop :=
  ∃ pre post, ev t = pre ++ none :: some c :: post

/-- **Shape of a group of a stream of blocks**: it starts with an item that opens its block or
follows a marker in it, and goes on with the opening items of later blocks. -/
def GroupShape (ev : α → List (Option β)) (l : List α) (g : List β) : Prop :=
  ∃ t c, ∃ rest : List (α × β), g = c :: rest.map Prod.snd ∧ (t :: rest.map Prod.fst).Sublist l
    ∧ (Opens ev t c ∨ Resumes ev t c) ∧ ∀ p ∈ rest, Opens ev p.1 p.2

theorem GroupShape.mono {l m : List α} {g : List β} (h : GroupShape ev l g) (hs : l.Sublist m) :
    GroupShape ev m g := by
  obtain ⟨t, c, rest, hg, hsub, hstart, hrest⟩ := h
  exact ⟨t, c, rest, hg, hsub.trans hs, hstart, hrest⟩

/-- The shape may be read with other blocks, if they open and resume the same way. -/
theorem GroupShape.imp {ev' : α → List (Option β)} {l : List α} {g : List β}
    (h : GroupShape ev l g) (hopen : ∀ t ∈ l, ∀ c, Opens ev t c → Opens ev' t c)
    (hres : ∀ t ∈ l, ∀ c, Resumes ev t c → Opens ev' t c ∨ Resumes ev' t c) :
    GroupShape ev' l g := by
  obtain ⟨t, c, rest, hg, hsub, hstart, hrest⟩ := h
  have ht : t ∈ l := hsub.subset List.mem_cons_self
  refine ⟨t, c, rest, hg, hsub, ?_, fun p hp => ?_⟩
  · rcases hstart with h | h
    · exact Or.inl (hopen t ht c h)
    · exact hres t ht c h
  · have hp' : p.1 ∈ l := hsub.subset (List.mem_cons_of_mem t (List.mem_map_of_mem hp))
    exact hopen p.1 hp' p.2 (hrest p hp)

/-- A group goes on with the opening item of the next block. -/
theorem GroupShape.concat {l : List α} {g : List β} (h : GroupShape ev l g) {t : α} {c : β}
    (hc : Opens ev t c) : GroupShape ev (l ++ [t]) (g ++ [c]) := by
  obtain ⟨t₀, c₀, rest, rfl, hsub, hstart, hrest⟩ := h
  refine ⟨t₀, c₀, rest ++ [(t, c)], by simp, ?_, hstart, ?_⟩
  · simpa using hsub.append (List.Sublist.refl [t])
  · intro p hp
    rcases List.mem_append.mp hp with hp | hp
    · exact hrest p hp
    · obtain rfl := List.mem_singleton.mp hp
      exact hc

theorem GroupShape.single (l : List α) {t : α} {c : β} (h : Opens ev t c ∨ Resumes ev t c) :
    GroupShape ev (l ++ [t]) [c] :=
  ⟨t, c, [], rfl, by simp, h, by simp⟩

/-- Dropping items keeps the shape: a group that loses its start begins with an opening item. -/
theorem GroupShape.filter {l : List α} {g : List β} (h : GroupShape ev l g) (p : β → Bool)
    (hne : g.filter p ≠ []) : GroupShape ev l (g.filter p) := by
  obtain ⟨t, c, rest, rfl, hsub, hstart, hrest⟩ := h
  have hmap : (rest.map Prod.snd).filter p = (rest.filter fun q => p q.2).map Prod.snd :=
    List.filter_map
  have hfst : ((rest.filter fun q => p q.2).map Prod.fst).Sublist (rest.map Prod.fst) :=
    List.filter_sublist.map Prod.fst
  cases hp : p c with
  | true =>
    refine ⟨t, c, rest.filter fun q => p q.2, by simp [hp, hmap], ?_, hstart, ?_⟩
    · exact (hfst.cons_cons t).trans hsub
    · exact fun q hq => hrest q (List.mem_of_mem_filter hq)
  | false =>
    rw [List.filter_cons_of_neg (by simp [hp]), hmap] at hne ⊢
    cases hr : rest.filter fun q => p q.2 with
    | nil => simp [hr] at hne
    | cons q qs =>
      have hall : ∀ q' ∈ q :: qs, Opens ev q'.1 q'.2 := fun q' hq' =>
        hrest q' (List.mem_of_mem_filter (hr ▸ hq'))
      refine ⟨q.1, q.2, qs, by simp, ?_, Or.inl (hall q (by simp)), fun q' hq' =>
        hall q' (List.mem_cons_of_mem q hq')⟩
      rw [hr] at hfst
      exact (hfst.trans (List.sublist_cons_self t _)).trans hsub

/-- One block: the group under construction keeps its shape. -/
theorem groupShape_cutFrom_block {t : α} (done : List α) {l : List α} {tail : List (Option β)}
    (htail : ∀ cur, (cur = [] ∨ GroupShape ev (done ++ [t]) cur) →
      ∀ g ∈ cutFrom cur tail, GroupShape ev l g)
    (hl : (done ++ [t]).Sublist l) (es pre : List (Option β)) (hev : ev t = pre ++ es)
    (hchain : (ev t).IsChain fun a b => a = none ∨ b = none) (cur : List β)
    (hcur : cur = [] ∨ (pre = [] ∧ GroupShape ev done cur)
      ∨ (GroupShape ev (done ++ [t]) cur ∧ ∃ c, pre.getLast? = some (some c))) :
    ∀ g ∈ cutFrom cur (es ++ tail), GroupShape ev l g := by
  have hdone : done.Sublist (done ++ [t]) := List.sublist_append_left done [t]
  have hshape : cur = [] ∨ GroupShape ev (done ++ [t]) cur := by
    rcases hcur with h | ⟨-, h⟩ | ⟨h, -⟩
    · exact Or.inl h
    · exact Or.inr (h.mono hdone)
    · exact Or.inr h
  induction es generalizing pre cur with
  | nil => exact htail cur hshape
  | cons e es ih =>
    have hev' : ev t = (pre ++ [e]) ++ es := by simp [hev]
    cases e with
    | none =>
      intro g hg
      rw [List.cons_append, cutFrom] at hg
      have hrest := ih (pre ++ [none]) hev' [] (Or.inl rfl) (Or.inl rfl)
      split at hg
      · exact hrest g hg
      · next hne =>
          rcases List.mem_cons.mp hg with rfl | hg
          · rcases hshape with rfl | h
            · simp at hne
            · exact h.mono hl
          · exact hrest g hg
    | some c =>
      have hnew : GroupShape ev (done ++ [t]) (cur ++ [c]) := by
        rcases List.eq_nil_or_concat pre with rfl | ⟨pre', b, rfl⟩
        · have hopen : Opens ev t c := by simp [Opens, hev]
          rcases hcur with rfl | ⟨-, h⟩ | ⟨-, c', hc'⟩
          · exact GroupShape.single done (Or.inl hopen)
          · exact h.concat hopen
          · simp at hc'
        · -- an item inside a block follows a marker, so the group starts here
          have hb : b = none := by
            rw [hev, List.concat_eq_append, List.append_assoc, List.singleton_append] at hchain
            rcases (List.isChain_append_cons_cons.mp hchain).2.1 with h | h
            · exact h
            · simp at h
          subst hb
          have hres : Resumes ev t c := ⟨pre', es, by simp [hev]⟩
          rcases hcur with rfl | ⟨h, -⟩ | ⟨-, c', hc'⟩
          · exact GroupShape.single done (Or.inr hres)
          · simp at h
          · simp at hc'
      exact ih (pre ++ [some c]) hev' (cur ++ [c]) (Or.inr (Or.inr ⟨hnew, c, by simp⟩))
        (Or.inr hnew)

theorem groupShape_cutFrom (l : List α)
    (hchain : ∀ t ∈ l, (ev t).IsChain fun a b => a = none ∨ b = none) (done : List α)
    (cur : List β) (hcur : cur = [] ∨ GroupShape ev done cur) :
    ∀ g ∈ cutFrom cur (l.flatMap ev), GroupShape ev (done ++ l) g := by
  induction l generalizing done cur with
  | nil =>
    intro g hg
    rcases hcur with rfl | h
    · simp [cutFrom] at hg
    · obtain rfl : g = cur := by
        have : cur ≠ [] := by obtain ⟨_, _, _, rfl, _⟩ := h; simp
        simpa [cutFrom, this] using hg
      simpa using h
  | cons t l ih =>
    have hassoc : done ++ [t] ++ l = done ++ t :: l := by simp
    rw [List.flatMap_cons]
    refine groupShape_cutFrom_block done (fun cur' hcur' => ?_) ?_ (ev t) []
      (List.nil_append (ev t)).symm (hchain t (by simp)) cur ?_
    · rw [← hassoc]
      exact ih (fun t' ht' => hchain t' (List.mem_cons_of_mem t ht')) (done ++ [t]) cur' hcur'
    · rw [← hassoc]
      exact List.sublist_append_left _ _
    · rcases hcur with h | h
      · exact Or.inl h
      · exact Or.inr (Or.inl ⟨rfl, h⟩)

/-- Every group of a stream of blocks has the shape. -/
theorem groupShape_of_mem_cut {l : List α}
    (hchain : ∀ t ∈ l, (ev t).IsChain fun a b => a = none ∨ b = none) {g : List β}
    (hg : g ∈ cut (l.flatMap ev)) : GroupShape ev l g := by
  simpa using groupShape_cutFrom l hchain [] [] (Or.inl rfl) g hg

end Blocks

end SentryUsb.Library
