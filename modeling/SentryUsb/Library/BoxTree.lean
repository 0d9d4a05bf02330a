import SentryUsb.Library.FixedStride

/-! # Boxes within boxes

A byte string is a row of boxes, each with its size and its kind in front. Boxes of some kinds hold boxes again. A walk
visits the boxes that do not, in order, and may change what they hold in place.

* **`boxHeader`**, **`firstBox`** — the box at the front of some bytes;
* **`Boxes`**, **`parse`** — the boxes of a byte string as a tree, and reading them;
* **`walk`** — the walk; **`walk_eq`** — it is a traversal of the tree;
* **`parse_bytes_of_alike`** — a change in place keeps the boxes. -/

namespace SentryUsb.Library

/-! ## Big-endian numbers -/

/-- The number big-endian bytes spell. -/
def beValue (b : List UInt8) : ℕ := leValue b.reverse

/-- The `w` low bytes of a number, highest first. -/
def beBytes (w n : ℕ) : List UInt8 := (leBytes w n).reverse

@[simp] theorem length_beBytes (w n : ℕ) : (beBytes w n).length = w := by
  rw [beBytes, List.length_reverse, length_leBytes]

theorem beValue_beBytes_of_lt {w n : ℕ} (h : n < 256 ^ w) : beValue (beBytes w n) = n := by
  rw [beValue, beBytes, List.reverse_reverse, leValue_leBytes_of_lt h]

/-! ## The box at the front -/

/-- Kind of a box, length of its header, and its size. -/
structure BoxHeader where
  kind : List UInt8
  length : ℕ
  size : ℕ
  deriving DecidableEq

/-- The size that the first four bytes give. -/
def sizeWord (buf : List UInt8) : ℕ := beValue (buf.take 4)

/-- Length of the header and size of the box: the size 0 reaches to the end, and 1 stands for one of 64 bits that follows. -/
def boxExtent (buf : List UInt8) (remaining : ℕ) : Option (ℕ × ℕ) :=
  if sizeWord buf = 0 then some (8, remaining)
  else if sizeWord buf = 1 then
    if buf.length < 16 then none else some (16, beValue ((buf.take 16).drop 8))
  else some (8, sizeWord buf)

/-- The header at the front of some bytes, where so many are left. -/
def boxHeader (buf : List UInt8) (remaining : ℕ) : Option BoxHeader :=
  if buf.length < 8 then none
  else (boxExtent buf remaining).bind fun e =>
    if e.1 ≤ e.2 ∧ e.2 ≤ remaining then some ⟨(buf.take 8).drop 4, e.1, e.2⟩ else none

theorem boxHeader_eq_some_iff {buf : List UInt8} {remaining : ℕ} {h : BoxHeader} :
    boxHeader buf remaining = some h
      ↔ 8 ≤ buf.length ∧ boxExtent buf remaining = some (h.length, h.size) ∧ h.length ≤ h.size ∧ h.size ≤ remaining
        ∧ h.kind = (buf.take 8).drop 4 := by
  obtain ⟨kind, length, size⟩ := h
  rw [boxHeader, Option.ite_none_left_eq_some, Option.bind_eq_some_iff]
  constructor
  · rintro ⟨hlong, ⟨l, s⟩, he, hh⟩
    obtain ⟨hle, hh⟩ := Option.ite_none_right_eq_some.mp hh
    obtain ⟨rfl, rfl, rfl⟩ := BoxHeader.mk.inj (Option.some.inj hh)
    exact ⟨by omega, he, hle.1, hle.2, rfl⟩
  · rintro ⟨hlong, he, hle, hin, rfl⟩
    exact ⟨by omega, (length, size), he, if_pos ⟨hle, hin⟩⟩

/-- A header has 8 bytes or 16. -/
theorem boxExtent_length {buf : List UInt8} {remaining l s : ℕ} (h : boxExtent buf remaining = some (l, s)) :
    8 ≤ l ∧ l ≤ 16 ∧ (8 ≤ buf.length → l ≤ buf.length) := by
  rw [boxExtent] at h
  split at h
  · obtain ⟨rfl, -⟩ := Prod.mk.inj (Option.some.inj h)
    omega
  · split at h
    · obtain ⟨hlong, h⟩ := Option.ite_none_left_eq_some.mp h
      obtain ⟨rfl, -⟩ := Prod.mk.inj (Option.some.inj h)
      omega
    · obtain ⟨rfl, -⟩ := Prod.mk.inj (Option.some.inj h)
      omega

theorem take_of_take_eq {buf buf' : List UInt8} {k l : ℕ} (h : buf'.take l = buf.take l) (hk : k ≤ l) :
    buf'.take k = buf.take k := by
  have htake := congrArg (List.take k) h
  rwa [List.take_take, List.take_take, min_eq_left hk] at htake

theorem length_le_of_take_eq {buf buf' : List UInt8} {l : ℕ} (h : buf'.take l = buf.take l) (hl : l ≤ buf.length) :
    l ≤ buf'.length := by
  have hlength := congrArg List.length h
  rw [List.length_take, List.length_take] at hlength
  omega

/-- **A header means the same elsewhere**, in other bytes that begin with it: either as many are left, or the size does not
reach to the end and there is room for it. -/
theorem boxHeader_congr {buf buf' : List UInt8} {remaining remaining' : ℕ} {h : BoxHeader}
    (hheader : boxHeader buf remaining = some h) (hsame : buf'.take h.length = buf.take h.length)
    (hroom : remaining' = remaining ∨ sizeWord buf ≠ 0 ∧ h.size ≤ remaining') : boxHeader buf' remaining' = some h := by
  obtain ⟨hlong, hextent, hle, hin, hkind⟩ := boxHeader_eq_some_iff.mp hheader
  obtain ⟨hlow, -, hfits⟩ := boxExtent_length hextent
  have hlong' := length_le_of_take_eq hsame (hfits hlong)
  have hword : sizeWord buf' = sizeWord buf := congrArg beValue (take_of_take_eq hsame (by omega))
  refine boxHeader_eq_some_iff.mpr ⟨by omega, ?_, hle, ?_, ?_⟩
  · rw [boxExtent] at hextent ⊢
    rw [hword]
    by_cases hzero : sizeWord buf = 0
    · rw [if_pos hzero] at hextent ⊢
      rcases hroom with heq | ⟨hne, -⟩
      · rw [heq, hextent]
      · exact absurd hzero hne
    · rw [if_neg hzero] at hextent ⊢
      by_cases hone : sizeWord buf = 1
      · rw [if_pos hone] at hextent ⊢
        obtain ⟨-, hlarge⟩ := Option.ite_none_left_eq_some.mp hextent
        have hsixteen : h.length = 16 := (Prod.mk.inj (Option.some.inj hlarge)).1.symm
        rw [hsixteen] at hsame hlong'
        rw [if_neg (by omega), hsame, hlarge]
      · rw [if_neg hone] at hextent ⊢
        exact hextent
  · rcases hroom with heq | ⟨-, hroom⟩
    · omega
    · exact hroom
  · rw [hkind, take_of_take_eq hsame hlow]

/-- Header, content and what follows of the first box. -/
def firstBox (buf : List UInt8) : Option (List UInt8 × List UInt8 × List UInt8) :=
  (boxHeader buf buf.length).map fun h => (buf.take h.length, (buf.take h.size).drop h.length, buf.drop h.size)

/-- The kind of a box by its header. -/
def kindOf (header : List UInt8) : List UInt8 := (header.take 8).drop 4

theorem firstBox_spec {buf header body rest : List UInt8} (h : firstBox buf = some (header, body, rest)) :
    header ++ body ++ rest = buf ∧ 8 ≤ header.length
      ∧ boxHeader buf buf.length = some ⟨kindOf header, header.length, header.length + body.length⟩ := by
  obtain ⟨hd, hhd, hparts⟩ := Option.map_eq_some_iff.mp h
  obtain ⟨rfl, hbehind⟩ := Prod.mk.inj hparts
  obtain ⟨rfl, rfl⟩ := Prod.mk.inj hbehind
  obtain ⟨hlong, hextent, hle, hin, hkind⟩ := boxHeader_eq_some_iff.mp hhd
  obtain ⟨hlow, -, -⟩ := boxExtent_length hextent
  have hheader : (buf.take hd.length).length = hd.length := by
    rw [List.length_take]
    omega
  have hbody : ((buf.take hd.size).drop hd.length).length = hd.size - hd.length := by
    rw [List.length_drop, List.length_take]
    omega
  refine ⟨?_, by omega, ?_⟩
  · have htake : buf.take hd.length ++ (buf.take hd.size).drop hd.length = buf.take hd.size := by
      conv_rhs => rw [← List.take_append_drop hd.length (buf.take hd.size), List.take_take, min_eq_left hle]
    rw [htake, List.take_append_drop]
  · have hsame : kindOf (buf.take hd.length) = hd.kind := by
      rw [kindOf, List.take_take, min_eq_left hlow, hkind]
    rw [hhd, hsame, hheader, hbody, Nat.add_sub_cancel' hle]

theorem firstBox_of_boxHeader {header body rest : List UInt8}
    (h : boxHeader (header ++ body ++ rest) (header ++ body ++ rest).length
      = some ⟨kindOf header, header.length, header.length + body.length⟩) :
    firstBox (header ++ body ++ rest) = some (header, body, rest) := by
  have hsize : header.length + body.length = (header ++ body).length := List.length_append.symm
  rw [firstBox, h, Option.map_some]
  dsimp only
  rw [hsize, List.take_left, List.drop_left, List.drop_left, List.append_assoc, List.take_left]

/-- **The first box stays** when what it holds and what follows change in place. -/
theorem firstBox_congr {header body rest body' rest' : List UInt8}
    (h : firstBox (header ++ body ++ rest) = some (header, body, rest)) (hbody : body'.length = body.length)
    (hrest : rest'.length = rest.length) : firstBox (header ++ body' ++ rest') = some (header, body', rest') := by
  obtain ⟨-, -, hheader⟩ := firstBox_spec h
  apply firstBox_of_boxHeader
  rw [hbody]
  apply boxHeader_congr hheader
  · rw [List.append_assoc, List.append_assoc, List.take_left, List.take_left]
  · refine .inl ?_
    rw [List.length_append, List.length_append, List.length_append, List.length_append, hbody, hrest]

/-! ## Trees of boxes -/

/-- A row of boxes: each holds bytes, or boxes again. -/
inductive Boxes where
  | nil
  | leaf (header body : List UInt8) (rest : Boxes)
  | node (header : List UInt8) (children rest : Boxes)
  deriving DecidableEq

/-- What a box that holds no boxes holds, and where. -/
structure Leaf where
  kind : List UInt8
  start : ℕ
  body : List UInt8

namespace Boxes

def bytes : Boxes → List UInt8
  | nil => []
  | leaf header body rest => header ++ body ++ rest.bytes
  | node header children rest => header ++ children.bytes ++ rest.bytes

/-- The leaves in order, from an offset on. -/
def leaves : ℕ → Boxes → List Leaf
  | _, nil => []
  | base, leaf header body rest =>
    ⟨kindOf header, base + header.length, body⟩ :: leaves (base + header.length + body.length) rest
  | base, node header children rest =>
    leaves (base + header.length) children ++ leaves (base + header.length + children.bytes.length) rest

/-- **The same boxes**, with leaves of the same lengths. -/
inductive Alike : Boxes → Boxes → Prop
  | nil : Alike nil nil
  | leaf {header body body' : List UInt8} {rest rest' : Boxes} (hbody : body'.length = body.length)
      (hrest : Alike rest rest') : Alike (leaf header body rest) (leaf header body' rest')
  | node {header : List UInt8} {children children' rest rest' : Boxes} (hchildren : Alike children children')
      (hrest : Alike rest rest') : Alike (node header children rest) (node header children' rest')

theorem Alike.length_bytes {f f' : Boxes} (h : f.Alike f') : f'.bytes.length = f.bytes.length := by
  induction h with
  | nil => rfl
  | leaf hbody hrest ih =>
    rw [bytes, bytes, List.length_append, List.length_append, List.length_append, List.length_append, hbody, ih]
  | node hchildren hrest ihChildren ihRest =>
    rw [bytes, bytes, List.length_append, List.length_append, List.length_append, List.length_append, ihChildren, ihRest]

end Boxes

section Walk

variable (container : List UInt8 → Bool)

/-- The boxes of a byte string; each takes one of the passes that are left, on either side of it. -/
def parse : ℕ → List UInt8 → Option Boxes
  | 0, buf => if buf = [] then some .nil else none
  | passes + 1, buf =>
    if buf = [] then some .nil
    else (firstBox buf).bind fun b =>
      if container (kindOf b.1) then
        (parse passes b.2.1).bind fun children => (parse passes b.2.2).map fun rest => .node b.1 children rest
      else (parse passes b.2.2).map fun rest => .leaf b.1 b.2.1 rest

variable {σ : Type} (visit : σ → List UInt8 → List UInt8 → Option (σ × List UInt8))

/-- The walk: the visitor gets kind and content of each leaf, and gives the content that replaces it. -/
def walk : ℕ → σ → List UInt8 → Option (σ × List UInt8)
  | 0, s, buf => if buf = [] then some (s, []) else none
  | passes + 1, s, buf =>
    if buf = [] then some (s, [])
    else (firstBox buf).bind fun b =>
      (if container (kindOf b.1) then walk passes s b.2.1 else visit s (kindOf b.1) b.2.1).bind fun inner =>
        (walk passes inner.1 b.2.2).map fun outer => (outer.1, b.1 ++ inner.2 ++ outer.2)

/-- The walk over the tree. -/
def Boxes.traverse : σ → Boxes → Option (σ × Boxes)
  | s, .nil => some (s, .nil)
  | s, .leaf header body rest =>
    (visit s (kindOf header) body).bind fun inner =>
      (traverse inner.1 rest).map fun outer => (outer.1, .leaf header inner.2 outer.2)
  | s, .node header children rest =>
    (traverse s children).bind fun inner =>
      (traverse inner.1 rest).map fun outer => (outer.1, .node header inner.2 outer.2)

variable {container}

theorem parse_nil (passes : ℕ) : parse container passes [] = some .nil := by
  cases passes with
  | zero => rfl
  | succ passes => rfl

/-- A pass over bytes that are left. -/
theorem parse_succ {passes : ℕ} {buf : List UInt8} (hne : buf ≠ []) :
    parse container (passes + 1) buf = (firstBox buf).bind fun b =>
      if container (kindOf b.1) then
        (parse container passes b.2.1).bind fun children =>
          (parse container passes b.2.2).map fun rest => .node b.1 children rest
      else (parse container passes b.2.2).map fun rest => .leaf b.1 b.2.1 rest := by
  rw [parse, if_neg hne]

theorem walk_succ {passes : ℕ} {s : σ} {buf : List UInt8} (hne : buf ≠ []) :
    walk container visit (passes + 1) s buf = (firstBox buf).bind fun b =>
      (if container (kindOf b.1) then walk container visit passes s b.2.1 else visit s (kindOf b.1) b.2.1).bind fun inner =>
        (walk container visit passes inner.1 b.2.2).map fun outer => (outer.1, b.1 ++ inner.2 ++ outer.2) := by
  rw [walk, if_neg hne]

/-- **The boxes that are read** are those of the bytes. -/
theorem bytes_of_parse {passes : ℕ} {buf : List UInt8} {f : Boxes} (h : parse container passes buf = some f) :
    f.bytes = buf := by
  induction passes generalizing buf f with
  | zero =>
    obtain ⟨rfl, hf⟩ := Option.ite_none_right_eq_some.mp h
    rw [← Option.some.inj hf]
    rfl
  | succ passes ih =>
    by_cases hnil : buf = []
    · rw [hnil, parse_nil] at h
      rw [hnil, ← Option.some.inj h]
      rfl
    · rw [parse_succ hnil] at h
      obtain ⟨⟨header, body, rest⟩, hfirst, h⟩ := Option.bind_eq_some_iff.mp h
      obtain ⟨hbytes, -, -⟩ := firstBox_spec hfirst
      split at h
      · obtain ⟨children, hchildren, h⟩ := Option.bind_eq_some_iff.mp h
        obtain ⟨rest', hrest, rfl⟩ := Option.map_eq_some_iff.mp h
        rw [Boxes.bytes, ih hchildren, ih hrest, hbytes]
      · obtain ⟨rest', hrest, rfl⟩ := Option.map_eq_some_iff.mp h
        rw [Boxes.bytes, ih hrest, hbytes]

theorem ne_nil_of_firstBox {buf : List UInt8} {b : List UInt8 × List UInt8 × List UInt8} (h : firstBox buf = some b) :
    buf ≠ [] := by
  rintro rfl
  exact nomatch h

/-- A leaf is read in front of the other boxes. -/
theorem parse_eq_leaf_iff {passes : ℕ} {buf header body : List UInt8} {rest : Boxes} :
    parse container passes buf = some (.leaf header body rest)
      ↔ ∃ n, passes = n + 1 ∧ firstBox buf = some (header, body, rest.bytes) ∧ container (kindOf header) = false
        ∧ parse container n rest.bytes = some rest := by
  constructor
  · intro h
    cases passes with
    | zero =>
      obtain ⟨-, hf⟩ := Option.ite_none_right_eq_some.mp h
      exact nomatch hf
    | succ passes =>
      have hne : buf ≠ [] := by
        rintro rfl
        exact nomatch h
      rw [parse_succ hne] at h
      obtain ⟨⟨header', body', rest'⟩, hfirst, h⟩ := Option.bind_eq_some_iff.mp h
      split at h
      · obtain ⟨children, -, h⟩ := Option.bind_eq_some_iff.mp h
        obtain ⟨more, -, h⟩ := Option.map_eq_some_iff.mp h
        exact nomatch h
      · next hleaf =>
          obtain ⟨more, hmore, h⟩ := Option.map_eq_some_iff.mp h
          obtain ⟨rfl, rfl, rfl⟩ := Boxes.leaf.inj h
          rw [bytes_of_parse hmore]
          exact ⟨passes, rfl, hfirst, Bool.eq_false_iff.mpr hleaf, hmore⟩
  · rintro ⟨n, rfl, hfirst, hleaf, hrest⟩
    rw [parse_succ (ne_nil_of_firstBox hfirst), hfirst, Option.bind_some, hleaf, if_neg Bool.false_ne_true, hrest]
    rfl

/-- A box of boxes is read in front of the other boxes. -/
theorem parse_eq_node_iff {passes : ℕ} {buf header : List UInt8} {children rest : Boxes} :
    parse container passes buf = some (.node header children rest)
      ↔ ∃ n, passes = n + 1 ∧ firstBox buf = some (header, children.bytes, rest.bytes) ∧ container (kindOf header) = true
        ∧ parse container n children.bytes = some children ∧ parse container n rest.bytes = some rest := by
  constructor
  · intro h
    cases passes with
    | zero =>
      obtain ⟨-, hf⟩ := Option.ite_none_right_eq_some.mp h
      exact nomatch hf
    | succ passes =>
      have hne : buf ≠ [] := by
        rintro rfl
        exact nomatch h
      rw [parse_succ hne] at h
      obtain ⟨⟨header', body', rest'⟩, hfirst, h⟩ := Option.bind_eq_some_iff.mp h
      split at h
      · next hnode =>
          obtain ⟨inner, hinner, h⟩ := Option.bind_eq_some_iff.mp h
          obtain ⟨more, hmore, h⟩ := Option.map_eq_some_iff.mp h
          obtain ⟨rfl, rfl, rfl⟩ := Boxes.node.inj h
          rw [bytes_of_parse hinner, bytes_of_parse hmore]
          exact ⟨passes, rfl, hfirst, hnode, hinner, hmore⟩
      · obtain ⟨more, -, h⟩ := Option.map_eq_some_iff.mp h
        exact nomatch h
  · rintro ⟨n, rfl, hfirst, hnode, hchildren, hrest⟩
    rw [parse_succ (ne_nil_of_firstBox hfirst), hfirst, Option.bind_some, hnode, if_pos rfl, hchildren, hrest]
    rfl

/-- **A change in place keeps the boxes**: they are read again with the new contents. -/
theorem parse_bytes_of_alike {passes : ℕ} {f f' : Boxes} (h : parse container passes f.bytes = some f) (halike : f.Alike f') :
    parse container passes f'.bytes = some f' := by
  induction halike generalizing passes with
  | nil => exact parse_nil passes
  | leaf hbody hrest ih =>
    obtain ⟨n, rfl, hfirst, hleaf, htail⟩ := parse_eq_leaf_iff.mp h
    exact parse_eq_leaf_iff.mpr ⟨n, rfl, firstBox_congr hfirst hbody hrest.length_bytes, hleaf, ih htail⟩
  | node hchildren hrest ihChildren ihRest =>
    obtain ⟨n, rfl, hfirst, hnode, hinner, htail⟩ := parse_eq_node_iff.mp h
    exact parse_eq_node_iff.mpr ⟨n, rfl, firstBox_congr hfirst hchildren.length_bytes hrest.length_bytes, hnode,
      ihChildren hinner, ihRest htail⟩

/-- The header of the first box stays, too. -/
theorem take_header_of_alike {passes : ℕ} {f f' : Boxes} {h : BoxHeader} (hparse : parse container passes f.bytes = some f)
    (halike : f.Alike f') (hheader : boxHeader f.bytes f.bytes.length = some h) :
    f'.bytes.take h.length = f.bytes.take h.length := by
  have htake : ∀ header rest rest' : List UInt8, (∃ rest, firstBox f.bytes = some (header, rest)) →
      (header ++ rest').take h.length = (header ++ rest).take h.length := by
    rintro header rest rest' ⟨⟨body, behind⟩, hfirst⟩
    obtain ⟨-, -, hspec⟩ := firstBox_spec hfirst
    have hlength : h.length = header.length := congrArg BoxHeader.length (Option.some.inj (hheader.symm.trans hspec))
    rw [hlength, List.take_left, List.take_left]
  cases halike with
  | nil => rfl
  | leaf hbody hrest =>
    obtain ⟨n, -, hfirst, -⟩ := parse_eq_leaf_iff.mp hparse
    rw [Boxes.bytes, Boxes.bytes, List.append_assoc, List.append_assoc]
    exact htake _ _ _ ⟨_, hfirst⟩
  | node hchildren hrest =>
    obtain ⟨n, -, hfirst, -⟩ := parse_eq_node_iff.mp hparse
    rw [Boxes.bytes, Boxes.bytes, List.append_assoc, List.append_assoc]
    exact htake _ _ _ ⟨_, hfirst⟩

variable {visit}

/-- **The walk is a traversal** of the boxes that are read. -/
theorem walk_eq (passes : ℕ) (s : σ) (buf : List UInt8) :
    walk container visit passes s buf
      = (parse container passes buf).bind fun f => (f.traverse visit s).map fun r => (r.1, r.2.bytes) := by
  induction passes generalizing s buf with
  | zero =>
    rw [walk, parse]
    split
    · rfl
    · rfl
  | succ passes ih =>
    by_cases hnil : buf = []
    · rw [hnil, parse_nil]
      rfl
    · rw [walk_succ visit hnil, parse_succ hnil]
      rcases firstBox buf with _ | ⟨header, body, rest⟩
      · rfl
      · rw [Option.bind_some, Option.bind_some]
        by_cases hnode : container (kindOf header) = true
        · rw [if_pos hnode, if_pos hnode, ih]
          rcases parse container passes body with _ | children
          · rfl
          · rw [Option.bind_some, Option.bind_some]
            rcases htraverse : children.traverse visit s with _ | inner
            · rcases parse container passes rest with _ | more
              · rfl
              · rw [Option.map_some, Option.bind_some, Boxes.traverse, htraverse]
                rfl
            · rw [Option.map_some, Option.bind_some, ih]
              rcases parse container passes rest with _ | more
              · rfl
              · rw [Option.map_some, Option.bind_some, Option.bind_some, Boxes.traverse, htraverse, Option.bind_some,
                  Option.map_map, Option.map_map]
                rfl
        · rw [if_neg hnode, if_neg hnode]
          rcases hvisit : visit s (kindOf header) body with _ | inner
          · rcases parse container passes rest with _ | more
            · rfl
            · rw [Option.map_some, Option.bind_some, Boxes.traverse, hvisit]
              rfl
          · rw [Option.bind_some, ih]
            rcases parse container passes rest with _ | more
            · rfl
            · rw [Option.map_some, Option.bind_some, Option.bind_some, Boxes.traverse, hvisit, Option.bind_some,
                Option.map_map, Option.map_map]
              rfl

end Walk

/-! ## Traversals in place -/

section InPlace

variable {σ : Type} {visit : σ → List UInt8 → List UInt8 → Option (σ × List UInt8)}

/-- A visitor that changes contents in place. -/
def InPlace (visit : σ → List UInt8 → List UInt8 → Option (σ × List UInt8)) : Prop :=
  ∀ s kind body r, visit s kind body = some r → r.2.length = body.length

/-- A traversal in place keeps the boxes. -/
theorem alike_of_traverse (hvisit : InPlace visit) {f : Boxes} {s : σ} {r : σ × Boxes} (h : f.traverse visit s = some r) :
    f.Alike r.2 := by
  induction f generalizing s r with
  | nil =>
    rw [← Option.some.inj h]
    exact .nil
  | leaf header body rest ih =>
    obtain ⟨inner, hinner, h⟩ := Option.bind_eq_some_iff.mp h
    obtain ⟨outer, houter, rfl⟩ := Option.map_eq_some_iff.mp h
    exact .leaf (hvisit _ _ _ _ hinner) (ih houter)
  | node header children rest ihChildren ihRest =>
    obtain ⟨inner, hinner, h⟩ := Option.bind_eq_some_iff.mp h
    obtain ⟨outer, houter, rfl⟩ := Option.map_eq_some_iff.mp h
    exact .node (ihChildren hinner) (ihRest houter)

/-- What a visitor made of a leaf. -/
def Visited (visit : σ → List UInt8 → List UInt8 → Option (σ × List UInt8)) (l l' : Leaf) : Prop :=
  l'.kind = l.kind ∧ l'.start = l.start ∧ ∃ s r, visit s l.kind l.body = some r ∧ l'.body = r.2

/-- **The leaves of a traversal** are what the visitor made of them, at the same places. -/
theorem forall₂_leaves_of_traverse (hvisit : InPlace visit) {f : Boxes} {s : σ} {r : σ × Boxes} {base : ℕ}
    (h : f.traverse visit s = some r) : List.Forall₂ (Visited visit) (f.leaves base) (r.2.leaves base) := by
  induction f generalizing s r base with
  | nil =>
    rw [← Option.some.inj h]
    exact .nil
  | leaf header body rest ih =>
    obtain ⟨inner, hinner, h⟩ := Option.bind_eq_some_iff.mp h
    obtain ⟨outer, houter, rfl⟩ := Option.map_eq_some_iff.mp h
    rw [Boxes.leaves, Boxes.leaves, hvisit _ _ _ _ hinner]
    exact .cons ⟨rfl, rfl, s, inner, hinner, rfl⟩ (ih houter)
  | node header children rest ihChildren ihRest =>
    obtain ⟨inner, hinner, h⟩ := Option.bind_eq_some_iff.mp h
    obtain ⟨outer, houter, rfl⟩ := Option.map_eq_some_iff.mp h
    rw [Boxes.leaves, Boxes.leaves, (alike_of_traverse hvisit hinner).length_bytes]
    exact List.rel_append (ihChildren hinner) (ihRest houter)

/-- A byte of three pieces, when the two behind the first change in place. -/
theorem getElem?_append_append {header body body' rest rest' : List UInt8} {i : ℕ} (hbody : body'.length = body.length)
    (hin : ∀ j, i = header.length + j → j < body.length → body'[j]? = body[j]?)
    (hout : ∀ j, i = header.length + body.length + j → rest'[j]? = rest[j]?) :
    (header ++ body' ++ rest')[i]? = (header ++ body ++ rest)[i]? := by
  rw [List.append_assoc, List.append_assoc]
  rcases Nat.lt_or_ge i header.length with hlt | hge
  · rw [List.getElem?_append_left hlt, List.getElem?_append_left hlt]
  · obtain ⟨j, rfl⟩ := Nat.exists_eq_add_of_le hge
    rw [List.getElem?_append_right hge, List.getElem?_append_right hge, Nat.add_sub_cancel_left]
    rcases Nat.lt_or_ge j body.length with hlt | hge
    · rw [List.getElem?_append_left (hbody ▸ hlt), List.getElem?_append_left hlt]
      exact hin j rfl hlt
    · obtain ⟨k, rfl⟩ := Nat.exists_eq_add_of_le hge
      rw [List.getElem?_append_right (hbody ▸ hge), List.getElem?_append_right hge, hbody, Nat.add_sub_cancel_left]
      exact hout k (Nat.add_assoc _ _ _).symm

/-- **Bytes that no leaf changes** stay. -/
theorem getElem?_of_traverse (hvisit : InPlace visit) (changed : Leaf → ℕ → Prop)
    (hchanged : ∀ s l r, visit s l.kind l.body = some r → ∀ j, ¬changed l (l.start + j) → r.2[j]? = l.body[j]?)
    {f : Boxes} {s : σ} {r : σ × Boxes} {base i : ℕ} (h : f.traverse visit s = some r)
    (hi : ∀ l ∈ f.leaves base, ¬changed l (base + i)) : r.2.bytes[i]? = f.bytes[i]? := by
  induction f generalizing s r base i with
  | nil => rw [← Option.some.inj h]
  | leaf header body rest ih =>
    obtain ⟨inner, hinner, h⟩ := Option.bind_eq_some_iff.mp h
    obtain ⟨outer, houter, rfl⟩ := Option.map_eq_some_iff.mp h
    obtain ⟨hfirst, hrest⟩ := List.forall_mem_cons.mp hi
    apply getElem?_append_append (hvisit _ _ _ _ hinner)
    · rintro j rfl -
      rw [← Nat.add_assoc] at hfirst
      exact hchanged s _ inner hinner j hfirst
    · rintro j rfl
      apply ih houter
      rwa [← Nat.add_assoc, ← Nat.add_assoc] at hrest
  | node header children rest ihChildren ihRest =>
    obtain ⟨inner, hinner, h⟩ := Option.bind_eq_some_iff.mp h
    obtain ⟨outer, houter, rfl⟩ := Option.map_eq_some_iff.mp h
    obtain ⟨hchildren, hrest⟩ := List.forall_mem_append.mp hi
    apply getElem?_append_append (alike_of_traverse hvisit hinner).length_bytes
    · rintro j rfl -
      apply ihChildren hinner
      rwa [← Nat.add_assoc] at hchildren
    · rintro j rfl
      apply ihRest houter
      rwa [← Nat.add_assoc, ← Nat.add_assoc] at hrest

end InPlace

end SentryUsb.Library
