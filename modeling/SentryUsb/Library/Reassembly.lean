import Mathlib

/-! # Reassembling frames from a stream

Items are sent as frames, one after another, and arrive in pieces that are cut without regard to the frames. The receiver
appends each piece to a buffer and takes frames off its front.

* **`Unframed`** — what the front of a buffer is;
* **`Frames`** — a frame is taken off, and its beginning is waited on;
* **`feed`** — the receiver, **`feed_of_frames`** — it gives the items in order however the stream is cut. -/

namespace SentryUsb.Library

variable {α β ε : Type*}

/-- What the front of a buffer is. -/
inductive Unframed (α β ε : Type*) where
  /-- No complete frame yet. -/
  | wait
  /-- An item, and what stands behind its frame. -/
  | item (a : α) (rest : List β)
  | garbage (e : ε)

/-- The items a buffer holds, and what is left of it. Each item takes a pass. -/
def drain (next : List β → Unframed α β ε) : Nat → List β → Option (List α × List β)
  | 0, _ => none
  | passes + 1, buf =>
    match next buf with
    | .wait => some ([], buf)
    | .item a rest => (drain next passes rest).map fun r => (a :: r.1, r.2)
    | .garbage _ => none

/-- The receiver: each piece is appended, and the buffer is drained. -/
def feed (next : List β → Unframed α β ε) : List (List β) → List β → Option (List α × List β)
  | [], buf => some ([], buf)
  | piece :: pieces, buf =>
    (drain next ((buf ++ piece).length + 1) (buf ++ piece)).bind fun r =>
      (feed next pieces r.2).map fun r' => (r.1 ++ r'.1, r'.2)

/-- **Frames of some items**: a whole one is taken off, and a part of one is waited on. -/
structure Frames (next : List β → Unframed α β ε) (frame : α → List β) (P : α → Prop) : Prop where
  empty : next [] = .wait
  ne_nil : ∀ a, frame a ≠ []
  item : ∀ a, P a → ∀ rest, next (frame a ++ rest) = .item a rest
  wait : ∀ a, P a → ∀ buf rest, buf ++ rest = frame a → rest ≠ [] → next buf = .wait

variable {next : List β → Unframed α β ε} {frame : α → List β} {P : α → Prop}

/-- **The front of a buffer** that begins a stream of frames: a frame, or a part of one. -/
theorem Frames.front (h : Frames next frame P) {l : List α} (hl : ∀ a ∈ l, P a) {buf rest : List β}
    (hstream : buf ++ rest = l.flatMap frame) :
    next buf = .wait ∨ ∃ a l' buf', l = a :: l' ∧ next buf = .item a buf' ∧ buf' ++ rest = l'.flatMap frame
      ∧ buf'.length < buf.length := by
  cases l with
  | nil =>
    rw [(List.append_eq_nil_iff.mp hstream).1]
    exact .inl h.empty
  | cons a l =>
    have ha := hl a List.mem_cons_self
    rw [List.flatMap_cons] at hstream
    rcases List.append_eq_append_iff.mp hstream with ⟨left, hframe, -⟩ | ⟨left, rfl, hleft⟩
    · -- the buffer ends within the first frame
      by_cases hnil : left = []
      · rw [hnil, List.append_nil] at hframe
        have hitem := h.item a ha []
        rw [hframe, List.append_nil] at hitem
        rw [← hframe] at hstream
        refine .inr ⟨a, l, [], rfl, hitem, List.append_cancel_left hstream, ?_⟩
        rw [← hframe]
        exact List.length_pos_of_ne_nil (h.ne_nil a)
      · exact .inl (h.wait a ha buf left hframe.symm hnil)
    · refine .inr ⟨a, l, left, rfl, h.item a ha left, hleft.symm, ?_⟩
      have hpos := List.length_pos_of_ne_nil (h.ne_nil a)
      rw [List.length_append]
      omega

/-- **Draining** takes off the items whose frames are complete. -/
theorem Frames.drain (h : Frames next frame P) {passes : Nat} {l : List α} (hl : ∀ a ∈ l, P a) {buf rest : List β}
    (hstream : buf ++ rest = l.flatMap frame) (hpasses : buf.length < passes) :
    ∃ taken left buf', l = taken ++ left ∧ drain next passes buf = some (taken, buf') ∧ next buf' = .wait
      ∧ buf' ++ rest = left.flatMap frame := by
  induction passes generalizing l buf with
  | zero => omega
  | succ passes ih =>
    rcases h.front hl hstream with hwait | ⟨a, l', buf', rfl, hitem, hrest, hshort⟩
    · exact ⟨[], l, buf, rfl, by rw [Library.drain, hwait], hwait, hstream⟩
    · obtain ⟨taken, left, buf'', rfl, hdrain, hwait, hleft⟩ :=
        ih (fun b hb => hl b (List.mem_cons_of_mem a hb)) hrest (by omega)
      refine ⟨a :: taken, left, buf'', rfl, ?_, hwait, hleft⟩
      simp only [Library.drain, hitem, hdrain, Option.map_some]

/-- **However the stream is cut, the items arrive in order** and nothing is left. -/
theorem Frames.feed (h : Frames next frame P) {pieces : List (List β)} {l : List α} (hl : ∀ a ∈ l, P a)
    {buf : List β} (hwait : next buf = .wait) (hstream : buf ++ pieces.flatten = l.flatMap frame) :
    feed next pieces buf = some (l, []) := by
  induction pieces generalizing l buf with
  | nil =>
    rw [List.flatten_nil] at hstream
    rcases h.front hl hstream with - | ⟨a, l', buf', -, hitem, -⟩
    · cases l with
      | nil =>
        rw [List.append_nil] at hstream
        rw [Library.feed, hstream, List.flatMap_nil]
      | cons a l =>
        -- a whole frame is not waited on
        rw [List.append_nil, List.flatMap_cons] at hstream
        rw [hstream, h.item a (hl a List.mem_cons_self)] at hwait
        exact nomatch hwait
    · rw [hwait] at hitem
      exact nomatch hitem
  | cons piece pieces ih =>
    rw [List.flatten_cons, ← List.append_assoc] at hstream
    obtain ⟨taken, left, buf', rfl, hdrain, hwait', hleft⟩ := h.drain hl hstream (Nat.lt_succ_self _)
    rw [Library.feed, hdrain, Option.bind_some,
      ih (fun a ha => hl a (List.mem_append_right taken ha)) hwait' hleft, Option.map_some]

end SentryUsb.Library
