import Mathlib

/-! # Lines and blanks of a text

Texts are lists of characters. Line splitting and trimming follow the conventions of most standard
libraries: a line ends with `\n`, one `\r` before it belongs to the line end, the last line may lack its
end, and blanks are the characters with the Unicode property `White_Space`.

* **`lines`**, **`unlines`** — split a text into lines, and put lines together;
* **`lines_unlines`** — reading back what was put together gives the lines without a trailing `\r`;
* **`unlines_injective`** — lines without `\n` are determined by their text;
* **`trim`** — a text without the blanks at its ends. -/

namespace SentryUsb.Library

/-! ## Blanks -/

/-- The Unicode property `White_Space`. -/
def isWhitespace (c : Char) : Bool :=
  decide (9 ≤ c.toNat ∧ c.toNat ≤ 13) || decide (0x2000 ≤ c.toNat ∧ c.toNat ≤ 0x200A)
    || decide (c.toNat ∈ [0x20, 0x85, 0xA0, 0x1680, 0x2028, 0x2029, 0x202F, 0x205F, 0x3000])

/-- The text without blanks at its start. -/
def trimStart (t : List Char) : List Char := t.dropWhile isWhitespace

/-- The text without blanks at its end. -/
def trimEnd (t : List Char) : List Char := t.rdropWhile isWhitespace

/-- The text without blanks at its ends. -/
def trim (t : List Char) : List Char := trimEnd (trimStart t)

theorem trimStart_cons {c : Char} {t : List Char} (hc : isWhitespace c = false) :
    trimStart (c :: t) = c :: t := by
  rw [trimStart, List.dropWhile_cons_of_neg (by simp [hc])]

theorem trimEnd_concat {c : Char} {t : List Char} (hc : isWhitespace c = false) :
    trimEnd (t ++ [c]) = t ++ [c] :=
  List.rdropWhile_concat_neg _ _ _ (by simp [hc])

theorem trimEnd_concat_blank {c : Char} {t : List Char} (hc : isWhitespace c = true) :
    trimEnd (t ++ [c]) = trimEnd t :=
  List.rdropWhile_concat_pos _ _ _ hc

/-- Appending a blank changes the start only of a text of blanks. -/
theorem trimStart_concat {c : Char} {t : List Char} (hc : isWhitespace c = true) :
    trimStart (t ++ [c]) = trimStart t ∧ trimStart t = [] ∨ trimStart (t ++ [c]) = trimStart t ++ [c] := by
  induction t with
  | nil => exact .inl ⟨by simp [trimStart, hc], rfl⟩
  | cons a t ih =>
    by_cases ha : isWhitespace a = true
    · simpa [trimStart, ha] using ih
    · exact .inr (by simp [trimStart, ha])

/-- A blank at the end does not matter. -/
theorem trim_concat_blank {c : Char} {t : List Char} (hc : isWhitespace c = true) :
    trim (t ++ [c]) = trim t := by
  unfold trim
  rcases trimStart_concat (t := t) hc with ⟨heq, -⟩ | heq
  · rw [heq]
  · rw [heq, trimEnd_concat_blank hc]

/-- A visible character of ASCII is not blank. -/
theorem isWhitespace_of_visible {c : Char} (h : 33 ≤ c.toNat ∧ c.toNat ≤ 126) : isWhitespace c = false := by
  simp only [isWhitespace, Bool.or_eq_false_iff, decide_eq_false_iff_not, List.mem_cons, List.not_mem_nil, or_false]
  refine ⟨⟨?_, ?_⟩, ?_⟩
  all_goals omega

/-- A text without blanks is trimmed. -/
theorem trim_eq_self {t : List Char} (h : ∀ c ∈ t, isWhitespace c = false) : trim t = t := by
  have hstart : t.dropWhile isWhitespace = t := by
    rw [List.dropWhile_eq_self_iff]
    intro hlen
    simp [h _ (List.getElem_mem hlen)]
  rw [trim, trimStart, trimEnd, hstart, List.rdropWhile_eq_self_iff]
  intro hne
  simp [h _ (List.getLast_mem hne)]

/-- A text between two characters that are not blank is trimmed. -/
theorem trim_enclosed {a b : Char} (t : List Char) (ha : isWhitespace a = false)
    (hb : isWhitespace b = false) : trim (a :: t ++ [b]) = a :: t ++ [b] := by
  unfold trim
  rw [List.cons_append, trimStart_cons ha, ← List.cons_append, trimEnd_concat hb]

theorem trim_subset (t : List Char) : trim t ⊆ t := by
  intro c hc
  have hstart : c ∈ trimStart t := (List.rdropWhile_prefix isWhitespace (trimStart t)).subset hc
  exact (List.dropWhile_sublist isWhitespace).subset hstart

/-! ## Lines -/

/-- A line without the `\r` of its end. -/
def stripCr (line : List Char) : List Char :=
  if line.getLast? = some '\r' then line.dropLast else line

/-- The lines of a text, the line read so far in front. -/
def linesFrom (line : List Char) : List Char → List (List Char)
  | [] => if line = [] then [] else [line]
  | c :: t => if c = '\n' then stripCr line :: linesFrom [] t else linesFrom (line ++ [c]) t

/-- The lines of a text. -/
def lines (t : List Char) : List (List Char) := linesFrom [] t

/-- Lines, each with its end. -/
def unlines (ls : List (List Char)) : List Char := ls.flatMap fun line => line ++ ['\n']

theorem linesFrom_append {line : List Char} (h : '\n' ∉ line) (before t : List Char) :
    linesFrom before (line ++ '\n' :: t) = stripCr (before ++ line) :: linesFrom [] t := by
  induction line generalizing before with
  | nil => simp [linesFrom]
  | cons c line ih =>
    have hc : c ≠ '\n' := fun heq => h (by simp [heq])
    rw [List.cons_append, linesFrom, if_neg hc, ih fun hmem => h (List.mem_cons_of_mem _ hmem)]
    simp

/-- **Reading lines back** gives them without a trailing `\r`. -/
theorem lines_unlines {ls : List (List Char)} (h : ∀ line ∈ ls, '\n' ∉ line) :
    lines (unlines ls) = ls.map stripCr := by
  unfold lines
  induction ls with
  | nil => rfl
  | cons line ls ih =>
    have hrest := ih fun l hl => h l (List.mem_cons_of_mem _ hl)
    have hline := h line List.mem_cons_self
    rw [unlines, List.flatMap_cons, List.append_assoc, List.singleton_append,
      linesFrom_append hline [] _, List.nil_append, List.map_cons]
    exact congrArg _ hrest

theorem notMem_of_mem_linesFrom {line t l : List Char} (hline : '\n' ∉ line) (h : l ∈ linesFrom line t) :
    '\n' ∉ l := by
  induction t generalizing line with
  | nil =>
    rw [linesFrom] at h
    split at h
    · exact absurd h List.not_mem_nil
    · rwa [List.mem_singleton.mp h]
  | cons c t ih =>
    rw [linesFrom] at h
    split at h
    · rcases List.mem_cons.mp h with rfl | h
      · unfold stripCr
        split
        · exact fun hmem => hline (List.dropLast_subset _ hmem)
        · exact hline
      · exact ih List.not_mem_nil h
    · rename_i hc
      refine ih ?_ h
      simp [hline, Ne.symm hc]

/-- Text added at the end of a text, without a line end of its own, adds at most one line. -/
theorem length_linesFrom_append {w : List Char} (hw : '\n' ∉ w) (line t : List Char) :
    (linesFrom line (t ++ w)).length ≤ (linesFrom line t).length + 1 := by
  induction t generalizing line with
  | nil =>
    have hall : linesFrom line w = linesFrom (line ++ w) [] := by
      induction w generalizing line with
      | nil => rw [List.append_nil]
      | cons c w ih =>
        have hc : c ≠ '\n' := fun heq => hw (by simp [heq])
        have hstep : linesFrom line (c :: w) = linesFrom (line ++ [c]) w := by rw [linesFrom, if_neg hc]
        rw [hstep, ih (fun hmem => hw (List.mem_cons_of_mem _ hmem)), List.append_assoc, List.singleton_append]
    rw [List.nil_append, hall, linesFrom]
    split
    · simp
    · simp
  | cons c t ih =>
    rw [List.cons_append, linesFrom, linesFrom]
    split
    · rw [List.length_cons, List.length_cons]
      exact Nat.succ_le_succ (ih [])
    · exact ih _

/-- One line added at the end of a text, with its line end, adds at most one. -/
theorem length_linesFrom_append_line {w : List Char} (hw : '\n' ∉ w) (line t : List Char) :
    (linesFrom line (t ++ (w ++ ['\n']))).length ≤ (linesFrom line t).length + 1 := by
  induction t generalizing line with
  | nil =>
    rw [List.nil_append, linesFrom_append hw]
    simp [linesFrom]
  | cons c t ih =>
    rw [List.cons_append, linesFrom, linesFrom]
    split
    · rw [List.length_cons, List.length_cons]
      exact Nat.succ_le_succ (ih [])
    · exact ih _

/-- No line has a `\n`. -/
theorem notMem_of_mem_lines {t l : List Char} (h : l ∈ lines t) : '\n' ∉ l :=
  notMem_of_mem_linesFrom List.not_mem_nil h

/-- Lines without `\n` are determined by their text. -/
theorem unlines_injective {ls ls' : List (List Char)} (h : ∀ line ∈ ls, '\n' ∉ line)
    (h' : ∀ line ∈ ls', '\n' ∉ line) (heq : unlines ls = unlines ls') : ls = ls' := by
  induction ls generalizing ls' with
  | nil =>
    cases ls' with
    | nil => rfl
    | cons line ls' => simp [unlines] at heq
  | cons line ls ih =>
    cases ls' with
    | nil => simp [unlines] at heq
    | cons line' ls' =>
      simp only [unlines, List.flatMap_cons, List.append_assoc, List.singleton_append] at heq
      have hline := h line List.mem_cons_self
      have hline' := h' line' List.mem_cons_self
      -- both lines are what stands before the first `\n`
      have htake := congrArg (List.takeWhile (· ≠ '\n')) heq
      have hsame : line = line' := by
        rw [List.takeWhile_append_of_pos, List.takeWhile_append_of_pos] at htake
        · simpa using htake
        · exact fun c hc => decide_eq_true fun hn => hline' (hn ▸ hc)
        · exact fun c hc => decide_eq_true fun hn => hline (hn ▸ hc)
      subst hsame
      have hrest := List.append_cancel_left heq
      rw [ih (fun l hl => h l (List.mem_cons_of_mem _ hl)) (fun l hl => h' l (List.mem_cons_of_mem _ hl))
        (List.cons.inj hrest).2]

theorem stripCr_eq_self_iff {line : List Char} : stripCr line = line ↔ line.getLast? ≠ some '\r' := by
  unfold stripCr
  split
  · rename_i hlast
    have hne : line ≠ [] := by
      rintro rfl
      simp at hlast
    have hlen : line.dropLast.length < line.length := by
      have := List.length_pos_of_ne_nil hne
      simp only [List.length_dropLast]
      omega
    constructor
    · intro heq
      rw [heq] at hlen
      exact absurd hlen (lt_irrefl _)
    · exact fun hne => absurd hlast hne
  · rename_i hlast
    simp [hlast]

end SentryUsb.Library
