import SentryUsb.Library.TextLines
import SentryUsb.Grouper.Clip

/-! # The configuration file

`sentryusb.conf` is a shell file of `export KEY=VALUE` lines. It is read line by line into the active and
the commented-out variables, and written back line by line, with comments and structure kept
(`crates/config`).

* **`parseFile`**, **`writeFile`** — the reader and the writer;
* **`quote`**, **`unquote`** — how values are written and read;
* **`unquote_quote`** — which values survive;
* **`RoundTrips`** — what a write is expected to do;
* **`writeFile_roundTrips_iff`** — when it does;
* **`writeFile_corrupts_apostrophe`** — a value with an apostrophe comes back longer. -/

namespace SentryUsb.Config

open Library

/-! ## Variables -/

/-- Variables and their values, in the order an iteration visits them. -/
structure SetupConfig where
  entries : List (Text × Text)
  nodup : (entries.map Prod.fst).Nodup

namespace SetupConfig

/-- No variables. -/
def empty : SetupConfig := ⟨[], List.nodup_nil⟩

/-- The value of a variable. -/
def get (m : SetupConfig) (key : Text) : Option Text := m.entries.lookup key

/-- Set a variable. -/
def insert (m : SetupConfig) (key val : Text) : SetupConfig where
  entries := m.entries.filter (fun e => decide (e.1 ≠ key)) ++ [(key, val)]
  nodup := by
    rw [List.map_append, List.nodup_append]
    refine ⟨m.nodup.sublist (List.filter_sublist.map _), List.nodup_singleton _, ?_⟩
    intro a ha b hb
    obtain ⟨e, he, rfl⟩ := List.mem_map.mp ha
    obtain rfl := List.mem_singleton.mp hb
    exact of_decide_eq_true (List.mem_filter.mp he).2

end SetupConfig

/-! ## Lines -/

/-- A plain shell identifier. -/
def isValidKey : Text → Bool
  | [] => false
  | c :: key => (c.isAlpha || decide (c = '_')) && key.all fun c => c.isAlphanum || decide (c = '_')

/-- The text before a comment: a `#` after a blank, less that blank. -/
def beforeComment : Text → Option Text
  | a :: b :: t =>
    if b = '#' ∧ (a = ' ' ∨ a = '\t') then some [] else (beforeComment (b :: t)).map (a :: ·)
  | _ => none

/-- A value without its quotes, or without its inline comment. -/
def unquote (s : Text) : Text :=
  let s := trim s
  if 2 ≤ s.length ∧ (s.head? = some '\'' ∧ s.getLast? = some '\''
      ∨ s.head? = some '"' ∧ s.getLast? = some '"') then
    (s.drop 1).dropLast
  else if ['$', '\''].isPrefixOf s ∧ s.getLast? = some '\'' ∧ 3 ≤ s.length then (s.drop 2).dropLast
  else match beforeComment s with
    | some value => trim value
    | none => s

/-- Characters that need quotes. -/
def special : Text :=
  [' ', '\t', '\n', '\r', '\'', '"', '\\', '$', '!', '#', '&', '|', ';', '(', ')', '\x7b', '\x7d', '[', ']',
    '<', '>', '?', '*', '~', '\x60']

/-- A value as it is written; an apostrophe closes the quotes, stands escaped, and opens them again. -/
def quote (s : Text) : Text :=
  if s = [] then ['\'', '\'']
  else if !(s.any fun c => decide (c ∈ special)) then s
  else '\'' :: (s.flatMap fun c => if c = '\'' then ['\'', '\\', '\'', '\''] else [c]) ++ ['\'']

/-- Parse `KEY=VALUE`. -/
def parseKeyValue (s : Text) : Option (Text × Text) :=
  if '=' ∈ s then
    let key := s.takeWhile fun c => decide (c ≠ '=')
    if isValidKey key then some (key, unquote (s.drop (key.length + 1))) else none
  else none

/-- The word a variable's line begins with. -/
def exportWord : Text := ['e', 'x', 'p', 'o', 'r', 't', ' ']

/-- The text after a prefix. -/
def stripPrefix (pre s : Text) : Option Text := if pre.isPrefixOf s then some (s.drop pre.length) else none

/-- Parse `export KEY=VALUE`. -/
def parseExportLine (line : Text) : Option (Text × Text) :=
  (stripPrefix exportWord (trimStart line)).bind parseKeyValue

/-- Parse `# export KEY=VALUE`. -/
def parseCommentedExportLine (line : Text) : Option (Text × Text) :=
  (stripPrefix ['#'] (trimStart line)).bind fun rest =>
    (stripPrefix exportWord (trimStart rest)).bind parseKeyValue

/-- An active line. -/
def exportLine (key val : Text) : Text := exportWord ++ key ++ '=' :: quote val

/-! ## Reading and writing -/

/-- The active and the commented-out variables of a list of lines. -/
def parseLines (ls : List Text) : SetupConfig × SetupConfig :=
  ls.foldl (fun maps line =>
    match parseExportLine line with
    | some (key, val) => (maps.1.insert key val, maps.2)
    | none =>
      match parseCommentedExportLine line with
      | some (key, val) => (maps.1, maps.2.insert key val)
      | none => maps) (.empty, .empty)

/-- Read a file; `none` is a file that cannot be read as text. -/
def parseFile (file : Option Text) : Option (SetupConfig × SetupConfig) :=
  file.map fun content => parseLines (lines content)

/-- The variable of a line, active or not. -/
def lineKey (line : Text) : Option Text :=
  ((parseExportLine line).or (parseCommentedExportLine line)).map Prod.fst

/-- The line that replaces a line. -/
def rewriteLine (newConfig : SetupConfig) (line : Text) : Text :=
  match parseExportLine line with
  | some (key, _) =>
    match newConfig.get key with
    | some val => exportLine key val
    | none => '#' :: line
  | none =>
    match parseCommentedExportLine line with
    | some (key, _) =>
      match newConfig.get key with
      | some val => exportLine key val
      | none => line
    | none => line

/-- The lines of the new file: the old ones rewritten, then the variables it did not have. -/
def rewriteLines (newConfig : SetupConfig) (ls : List Text) : List Text :=
  ls.map (rewriteLine newConfig)
    ++ (newConfig.entries.filter fun e => decide (e.1 ∉ ls.filterMap lineKey)).map
      fun e => exportLine e.1 e.2

/-- Write variables to a file; `none` is an error, which leaves the file as it is. -/
def writeFile (file : Option Text) (newConfig : SetupConfig) : Option Text :=
  if newConfig.entries.any fun e => !isValidKey e.1 then none
  else if newConfig.entries.any fun e => decide ('\n' ∈ e.2 ∨ '\r' ∈ e.2) then none
  else file.map fun content => unlines (rewriteLines newConfig (lines content))

/-! ## Variables as maps -/

theorem SetupConfig.get_insert (m : SetupConfig) (key val k : Text) :
    (m.insert key val).get k = if k = key then some val else m.get k := by
  have hfilter : ∀ l : List (Text × Text), k ≠ key →
      (l.filter fun e => decide (e.1 ≠ key)).lookup k = l.lookup k := by
    intro l hk
    induction l with
    | nil => rfl
    | cons e l ih => grind
  have hgone : ∀ l : List (Text × Text), (l.filter fun e => decide (e.1 ≠ key)).lookup key = none := by
    intro l
    rw [List.lookup_eq_none_iff]
    intro e he
    exact bne_iff_ne.mpr (Ne.symm (of_decide_eq_true (List.mem_filter.mp he).2))
  unfold SetupConfig.get SetupConfig.insert
  dsimp only
  rw [List.lookup_append]
  by_cases hk : k = key
  · subst hk
    rw [hgone, if_pos rfl]
    simp
  · rw [hfilter _ hk, if_neg hk]
    simp [hk]

theorem SetupConfig.mem_entries_iff {m : SetupConfig} {key val : Text} :
    (key, val) ∈ m.entries ↔ m.get key = some val := by
  have hnodup := m.nodup
  unfold SetupConfig.get
  generalize m.entries = l at hnodup ⊢
  induction l with
  | nil => simp
  | cons e l ih => grind

/-! ## What is read -/

/-- Reading one more line. -/
theorem parseLines_concat (ls : List Text) (line : Text) :
    parseLines (ls ++ [line]) = match parseExportLine line with
      | some (key, val) => ((parseLines ls).1.insert key val, (parseLines ls).2)
      | none => match parseCommentedExportLine line with
        | some (key, val) => ((parseLines ls).1, (parseLines ls).2.insert key val)
        | none => parseLines ls := by
  unfold parseLines
  rw [List.foldl_concat]

/-- An active variable has the value of one of its lines. -/
theorem exists_of_active {ls : List Text} {key val : Text} (h : (parseLines ls).1.get key = some val) :
    ∃ line ∈ ls, parseExportLine line = some (key, val) := by
  induction ls using List.reverseRecOn with
  | nil => simp [parseLines, SetupConfig.get, SetupConfig.empty] at h
  | append_singleton ls line ih =>
    rw [parseLines_concat] at h
    split at h
    · rename_i k v hline
      rw [SetupConfig.get_insert] at h
      split at h
      · rename_i hk
        obtain rfl := Option.some.inj h
        exact ⟨line, by simp, hk ▸ hline⟩
      · obtain ⟨l, hl, hparse⟩ := ih h
        exact ⟨l, List.mem_append_left _ hl, hparse⟩
    · obtain ⟨l, hl, hparse⟩ := ih (by split at h <;> exact h)
      exact ⟨l, List.mem_append_left _ hl, hparse⟩

/-- A variable with an active line is active. -/
theorem active_of_mem {ls : List Text} {line key val : Text} (hmem : line ∈ ls)
    (hline : parseExportLine line = some (key, val)) : ((parseLines ls).1.get key).isSome := by
  induction ls using List.reverseRecOn with
  | nil => exact absurd hmem List.not_mem_nil
  | append_singleton ls l ih =>
    rw [parseLines_concat]
    rcases List.mem_append.mp hmem with hmem | hmem
    · split
      · rw [SetupConfig.get_insert]
        split
        · rfl
        · exact ih hmem
      · split <;> exact ih hmem
    · obtain rfl := List.mem_singleton.mp hmem
      simp only [hline, SetupConfig.get_insert]
      simp

/-- A variable with a commented-out line is commented out. -/
theorem commented_of_mem {ls : List Text} {line key val : Text} (hmem : line ∈ ls)
    (hexport : parseExportLine line = none) (hline : parseCommentedExportLine line = some (key, val)) :
    ((parseLines ls).2.get key).isSome := by
  induction ls using List.reverseRecOn with
  | nil => exact absurd hmem List.not_mem_nil
  | append_singleton ls l ih =>
    rw [parseLines_concat]
    rcases List.mem_append.mp hmem with hmem | hmem
    · split
      · exact ih hmem
      · split
        · rw [SetupConfig.get_insert]
          split
          · rfl
          · exact ih hmem
        · exact ih hmem
    · obtain rfl := List.mem_singleton.mp hmem
      simp only [hexport, hline, SetupConfig.get_insert]
      simp

/-! ## Values -/

theorem beforeComment_eq_none {s : Text} (h : '#' ∉ s) : beforeComment s = none := by
  induction s with
  | nil => rfl
  | cons a s ih =>
    cases s with
    | nil => rfl
    | cons b s =>
      have hb : b ≠ '#' := fun heq => h (by simp [heq])
      rw [beforeComment, if_neg fun hab => hb hab.1, ih fun hmem => h (List.mem_cons_of_mem _ hmem)]
      rfl

theorem not_any_special {s : Text} :
    (!(s.any fun c => decide (c ∈ special))) = true ↔ ∀ c ∈ s, c ∉ special := by
  simp

/-- A quoted text loses its quotes and nothing else. -/
theorem unquote_quoted (t : Text) : unquote ('\'' :: t ++ ['\'']) = t := by
  unfold unquote
  rw [trim_enclosed t (by decide) (by decide)]
  dsimp only
  rw [if_pos ⟨by simp, .inl ⟨rfl, List.getLast?_concat⟩⟩]
  simp

/-- A text without special characters loses its blanks and nothing else. -/
theorem unquote_plain {s : Text} (h : ∀ c ∈ s, c ∉ special) : unquote s = trim s := by
  have hnot : ∀ c ∈ special, c ∉ trim s := fun c hc hmem => h c (trim_subset s hmem) hc
  have hhead : ∀ c ∈ special, (trim s).head? ≠ some c := fun c hc heq => hnot c hc (List.mem_of_mem_head? heq)
  unfold unquote
  dsimp only
  rw [if_neg, if_neg, beforeComment_eq_none (hnot '#' (by decide))]
  · rintro ⟨hleads, -, -⟩
    obtain ⟨rest, hrest⟩ := List.isPrefixOf_iff_prefix.mp hleads
    exact hnot '$' (by decide) (by simp [← hrest])
  · rintro ⟨-, ⟨hquote, -⟩ | ⟨hquote, -⟩⟩
    · exact hhead '\'' (by decide) hquote
    · exact hhead '"' (by decide) hquote

theorem length_escape (s : Text) :
    s.length + 3 * s.count '\''
      = (s.flatMap fun c => if c = '\'' then ['\'', '\\', '\'', '\''] else [c]).length := by
  induction s with
  | nil => rfl
  | cons c s ih =>
    rw [List.flatMap_cons, List.length_append, ← ih, List.length_cons, List.count_cons]
    by_cases hc : c = '\''
    · simp [hc]
      omega
    · simp [hc]
      omega

/-- **Which values survive**: those without an apostrophe that need quotes or have no blanks at their
ends. -/
theorem unquote_quote (s : Text) :
    unquote (quote s) = s ↔ '\'' ∉ s ∧ ((∃ c ∈ s, c ∈ special) ∨ trim s = s) := by
  unfold quote
  split
  · rename_i hempty
    subst hempty
    exact iff_of_true (unquote_quoted []) ⟨List.not_mem_nil, .inr rfl⟩
  split
  · rename_i hplain
    rw [not_any_special] at hplain
    rw [unquote_plain hplain]
    have happ : '\'' ∉ s := fun hmem => hplain _ hmem (by decide)
    have hnone : ¬ ∃ c ∈ s, c ∈ special := fun ⟨c, hc, hspecial⟩ => hplain c hc hspecial
    simp [happ, hnone]
  · rename_i hspecial
    rw [unquote_quoted]
    have hexists : ∃ c ∈ s, c ∈ special := by
      rw [not_any_special] at hspecial
      push Not at hspecial
      exact hspecial
    constructor
    · intro heq
      have hlen := length_escape s
      rw [heq] at hlen
      refine ⟨fun hmem => ?_, .inl hexists⟩
      have := List.count_pos_iff.mpr hmem
      omega
    · rintro ⟨happ, -⟩
      have hid : ∀ c ∈ s, (if c = '\'' then ['\'', '\\', '\'', '\''] else [c]) = [c] := by
        intro c hc
        rw [if_neg fun heq : c = '\'' => happ (heq ▸ hc)]
      rw [List.flatMap_congr hid]
      simp

/-! ## Lines that are written -/

theorem notMem_quote {c : Char} {s : Text} (hc : c ∉ s) (hquote : c ≠ '\'') (hslash : c ≠ '\\') :
    c ∉ quote s := by
  unfold quote
  split
  · simp [hquote]
  split
  · exact hc
  · simp only [List.cons_append, List.mem_cons, List.mem_append, List.mem_flatMap, List.not_mem_nil, or_false,
      not_or, not_exists, not_and]
    refine ⟨hquote, fun d hd => ?_, hquote⟩
    split
    · simp [hquote, hslash]
    · simp only [List.mem_singleton]
      rintro rfl
      exact hc hd

theorem notMem_of_isValidKey {key : Text} {c : Char} (h : isValidKey key = true)
    (hc : c.isAlphanum = false) (hunder : c ≠ '_') : c ∉ key := by
  cases key with
  | nil => exact List.not_mem_nil
  | cons d key =>
    simp only [isValidKey, Bool.and_eq_true, Bool.or_eq_true, decide_eq_true_eq, List.all_eq_true] at h
    simp only [Char.isAlphanum, Bool.or_eq_false_iff] at hc
    rw [List.mem_cons, not_or]
    constructor
    · rintro rfl
      simp [hc.1, hunder] at h
    · intro hmem
      have := h.2 c hmem
      simp [Char.isAlphanum, hc, hunder] at this

/-- Characters that neither the key nor the value has are not in the line. -/
theorem notMem_exportLine {key val : Text} {c : Char} (hkey : isValidKey key = true)
    (hc : c.isAlphanum = false) (hval : c ∉ val) (hexport : c ∉ exportWord)
    (hother : c ∉ ['_', '=', '\'', '\\']) : c ∉ exportLine key val := by
  simp only [List.mem_cons, List.not_mem_nil, or_false, not_or] at hother
  obtain ⟨hunder, heq, hquote, hslash⟩ := hother
  simp only [exportLine, List.mem_append, List.mem_cons, not_or]
  exact ⟨⟨hexport, notMem_of_isValidKey hkey hc hunder⟩, heq, notMem_quote hval hquote hslash⟩

/-- The key is what stands before the first `=`. -/
theorem parseKeyValue_split {key : Text} (val : Text) (h : '=' ∉ key) :
    parseKeyValue (key ++ '=' :: val) = if isValidKey key then some (key, unquote val) else none := by
  have htake : (key ++ '=' :: val).takeWhile (fun c => decide (c ≠ '=')) = key := by
    rw [List.takeWhile_append_of_pos]
    · simp
    · exact fun c hc => decide_eq_true fun heq => h (heq ▸ hc)
  unfold parseKeyValue
  rw [if_pos (by simp)]
  simp only [htake]
  simp

/-- An active line is read as its key and what unquoting makes of the written value. -/
theorem parseExportLine_exportLine {key : Text} (val : Text) (hkey : isValidKey key = true) :
    parseExportLine (exportLine key val) = some (key, unquote (quote val)) := by
  have hequal : '=' ∉ key := notMem_of_isValidKey hkey (by decide) (by decide)
  have hstart : trimStart (exportLine key val) = exportLine key val := trimStart_cons (by decide)
  have hstrip : stripPrefix exportWord (exportLine key val) = some (key ++ '=' :: quote val) := by
    unfold stripPrefix exportLine
    rw [List.append_assoc, if_pos (List.isPrefixOf_iff_prefix.mpr (List.prefix_append _ _)), List.drop_left]
  unfold parseExportLine
  rw [hstart, hstrip, Option.bind_some, parseKeyValue_split _ hequal, if_pos hkey]

/-- A line that is commented out is not active, and commented out it says what it said. -/
theorem parse_hash (line : Text) :
    parseExportLine ('#' :: line) = none ∧ parseCommentedExportLine ('#' :: line) = parseExportLine line := by
  have hstart : trimStart ('#' :: line) = '#' :: line := trimStart_cons (by decide)
  unfold parseExportLine parseCommentedExportLine
  rw [hstart]
  exact ⟨rfl, rfl⟩

/-! ## A carriage return at the end of a line -/

section CarriageReturn

theorem parseKeyValue_concat (t : Text) : parseKeyValue (t ++ ['\r']) = parseKeyValue t := by
  by_cases heq : '=' ∈ t
  · obtain ⟨key, val, rfl, hkey⟩ := List.eq_append_cons_of_mem heq
    rw [List.append_assoc, List.cons_append, parseKeyValue_split _ hkey, parseKeyValue_split _ hkey]
    unfold unquote
    rw [trim_concat_blank (by decide)]
  · unfold parseKeyValue
    rw [if_neg heq, if_neg (by simpa using heq)]

theorem stripPrefix_concat {pre : Text} (hpre : '\r' ∉ pre) (t : Text) :
    stripPrefix pre (t ++ ['\r']) = (stripPrefix pre t).map (· ++ ['\r']) := by
  unfold stripPrefix
  by_cases h : pre.isPrefixOf t = true
  · obtain ⟨rest, rfl⟩ := List.isPrefixOf_iff_prefix.mp h
    rw [if_pos h, if_pos (List.isPrefixOf_iff_prefix.mpr ⟨rest ++ ['\r'], by simp⟩)]
    simp
  · rw [if_neg h, if_neg]
    · rfl
    · intro h'
      refine h (List.isPrefixOf_iff_prefix.mpr ?_)
      rcases List.prefix_concat_iff.mp (List.isPrefixOf_iff_prefix.mp h') with heq | hleads
      · exact absurd (by simp [heq]) hpre
      · exact hleads

/-- A parser that does not see the return behind a prefix does not see it behind blanks and the prefix. -/
theorem stripPrefix_trimStart_concat {β : Type} {pre : Text} (hpre : '\r' ∉ pre) {f : Text → Option β}
    (hf : ∀ t, f (t ++ ['\r']) = f t) (t : Text) :
    (stripPrefix pre (trimStart (t ++ ['\r']))).bind f = (stripPrefix pre (trimStart t)).bind f := by
  have hreturn : isWhitespace '\r' = true := by decide
  rcases trimStart_concat (t := t) hreturn with ⟨heq, -⟩ | heq
  · rw [heq]
  · rw [heq, stripPrefix_concat hpre]
    cases stripPrefix pre (trimStart t) with
    | none => rfl
    | some rest => exact hf rest

theorem parseExportLine_concat (t : Text) : parseExportLine (t ++ ['\r']) = parseExportLine t :=
  stripPrefix_trimStart_concat (by decide) parseKeyValue_concat t

theorem parseCommentedExportLine_concat (t : Text) :
    parseCommentedExportLine (t ++ ['\r']) = parseCommentedExportLine t :=
  stripPrefix_trimStart_concat (by decide) (fun rest => parseExportLine_concat rest) t

/-- What a line says does not depend on a return at its end. -/
theorem parse_stripCr (line : Text) : parseExportLine (stripCr line) = parseExportLine line
    ∧ parseCommentedExportLine (stripCr line) = parseCommentedExportLine line := by
  unfold stripCr
  split
  · rename_i hlast
    have hline : line = line.dropLast ++ ['\r'] := (List.dropLast_append_getLast? _ hlast).symm
    generalize line.dropLast = t at hline ⊢
    rw [hline]
    exact ⟨(parseExportLine_concat _).symm, (parseCommentedExportLine_concat _).symm⟩
  · exact ⟨rfl, rfl⟩

end CarriageReturn

/-! ## What is written -/

/-- A line becomes the active line of its variable, or stays, commented out if it was active. -/
theorem rewriteLine_cases (newConfig : SetupConfig) (line : Text) :
    (∃ key val, lineKey line = some key ∧ newConfig.get key = some val
        ∧ rewriteLine newConfig line = exportLine key val)
      ∨ ((∀ key, lineKey line = some key → newConfig.get key = none)
        ∧ parseExportLine (rewriteLine newConfig line) = none
        ∧ parseCommentedExportLine (rewriteLine newConfig line)
          = (parseExportLine line).or (parseCommentedExportLine line)
        ∧ (rewriteLine newConfig line = line ∨ rewriteLine newConfig line = '#' :: line)) := by
  unfold rewriteLine lineKey
  cases hexport : parseExportLine line with
  | some e =>
    dsimp only
    cases hget : newConfig.get e.1 with
    | some val => exact .inl ⟨e.1, val, rfl, hget, rfl⟩
    | none =>
      obtain ⟨hactive, hcommented⟩ := parse_hash line
      refine .inr ⟨fun key hkey => ?_, hactive, hcommented.trans hexport, .inr rfl⟩
      obtain rfl := Option.some.inj hkey
      exact hget
  | none =>
    dsimp only
    cases hcommented : parseCommentedExportLine line with
    | some e =>
      dsimp only
      cases hget : newConfig.get e.1 with
      | some val => exact .inl ⟨e.1, val, rfl, hget, rfl⟩
      | none =>
        refine .inr ⟨fun key hkey => ?_, hexport, hcommented, .inl rfl⟩
        obtain rfl := Option.some.inj hkey
        exact hget
    | none => exact .inr ⟨fun key hkey => by simp at hkey, hexport, hcommented, .inl rfl⟩

/-- A line of the new file: the active line of a variable, or a line without active or new variable. -/
def Written (newConfig : SetupConfig) (line : Text) : Prop :=
  (∃ key val, newConfig.get key = some val ∧ line = exportLine key val)
    ∨ (parseExportLine line = none
      ∧ ∀ e, parseCommentedExportLine line = some e → newConfig.get e.1 = none)

section Write

variable {newConfig : SetupConfig} {ls : List Text}

theorem written_of_mem {line : Text} (h : line ∈ rewriteLines newConfig ls) : Written newConfig line := by
  rcases List.mem_append.mp h with h | h
  · obtain ⟨l, -, rfl⟩ := List.mem_map.mp h
    rcases rewriteLine_cases newConfig l with ⟨key, val, -, hget, heq⟩ | ⟨hnone, hactive, hcommented, -⟩
    · exact .inl ⟨key, val, hget, heq⟩
    · refine .inr ⟨hactive, fun e he => hnone e.1 ?_⟩
      unfold lineKey
      rw [← hcommented, he]
      rfl
  · obtain ⟨e, he, rfl⟩ := List.mem_map.mp h
    exact .inl ⟨e.1, e.2, SetupConfig.mem_entries_iff.mp (List.mem_filter.mp he).1, rfl⟩

/-- Every variable gets its line. -/
theorem exportLine_mem {key val : Text} (hget : newConfig.get key = some val) :
    exportLine key val ∈ rewriteLines newConfig ls := by
  by_cases hseen : key ∈ ls.filterMap lineKey
  · obtain ⟨line, hline, hkey⟩ := List.mem_filterMap.mp hseen
    refine List.mem_append_left _ (List.mem_map.mpr ⟨line, hline, ?_⟩)
    rcases rewriteLine_cases newConfig line with ⟨key', val', hkey', hget', heq⟩ | ⟨hnone, -⟩
    · obtain rfl := Option.some.inj (hkey.symm.trans hkey')
      obtain rfl := Option.some.inj (hget.symm.trans hget')
      exact heq
    · exact absurd (hnone key hkey) (by simp [hget])
  · refine List.mem_append_right _ (List.mem_map.mpr ⟨(key, val), List.mem_filter.mpr ⟨?_, ?_⟩, rfl⟩)
    · exact SetupConfig.mem_entries_iff.mpr hget
    · exact decide_eq_true hseen

variable (hkeys : ∀ e ∈ newConfig.entries, isValidKey e.1 = true)
  (hvals : ∀ e ∈ newConfig.entries, '\n' ∉ e.2 ∧ '\r' ∉ e.2)

include hkeys in
theorem isValidKey_of_get {key val : Text} (hget : newConfig.get key = some val) : isValidKey key = true :=
  hkeys (key, val) (SetupConfig.mem_entries_iff.mpr hget)

include hkeys hvals in
/-- Active lines have no line end inside. -/
theorem notMem_exportLine_of_get {key val : Text} (hget : newConfig.get key = some val) :
    '\n' ∉ exportLine key val ∧ '\r' ∉ exportLine key val := by
  have hvalid := isValidKey_of_get hkeys hget
  obtain ⟨hn, hr⟩ := hvals (key, val) (SetupConfig.mem_entries_iff.mpr hget)
  constructor
  · exact notMem_exportLine hvalid (by decide) hn (by decide) (by decide)
  · exact notMem_exportLine hvalid (by decide) hr (by decide) (by decide)

include hkeys hvals in
theorem notMem_of_mem_rewriteLines {line : Text} (hls : ∀ l ∈ ls, '\n' ∉ l)
    (h : line ∈ rewriteLines newConfig ls) : '\n' ∉ line := by
  rcases List.mem_append.mp h with h | h
  · obtain ⟨l, hl, rfl⟩ := List.mem_map.mp h
    rcases rewriteLine_cases newConfig l with ⟨key, val, -, hget, heq⟩ | ⟨-, -, -, heq | heq⟩
    · rw [heq]
      exact (notMem_exportLine_of_get hkeys hvals hget).1
    · rw [heq]
      exact hls l hl
    · rw [heq]
      simp [hls l hl]
  · obtain ⟨e, he, rfl⟩ := List.mem_map.mp h
    exact (notMem_exportLine_of_get hkeys hvals
      (SetupConfig.mem_entries_iff.mp (List.mem_filter.mp he).1)).1

include hkeys hvals in
/-- A written line that ends with a return is a line that stayed. -/
theorem exists_of_return {line : Text} (h : line ∈ rewriteLines newConfig ls)
    (hlast : line.getLast? = some '\r') :
    ∃ l ∈ ls, l.getLast? = some '\r' ∧ ∀ key, lineKey l = some key → newConfig.get key = none := by
  have hno : ∀ {key val : Text}, newConfig.get key = some val → line ≠ exportLine key val := by
    rintro key val hget rfl
    exact (notMem_exportLine_of_get hkeys hvals hget).2 (List.mem_of_getLast? hlast)
  rcases List.mem_append.mp h with h | h
  · obtain ⟨l, hl, rfl⟩ := List.mem_map.mp h
    rcases rewriteLine_cases newConfig l with ⟨key, val, -, hget, heq⟩ | ⟨hnone, -, -, heq | heq⟩
    · exact absurd heq (hno hget)
    · exact ⟨l, hl, heq ▸ hlast, hnone⟩
    · refine ⟨l, hl, ?_, hnone⟩
      rw [heq] at hlast
      cases l with
      | nil => simp at hlast
      | cons c l => simpa using hlast
  · obtain ⟨e, he, rfl⟩ := List.mem_map.mp h
    exact absurd rfl (hno (SetupConfig.mem_entries_iff.mp (List.mem_filter.mp he).1))

/-- A line that stays and ends with a return is written with it. -/
theorem exists_return_of_mem {l : Text} (hl : l ∈ ls) (hlast : l.getLast? = some '\r')
    (hnone : ∀ key, lineKey l = some key → newConfig.get key = none) :
    ∃ line ∈ rewriteLines newConfig ls, line.getLast? = some '\r' := by
  refine ⟨_, List.mem_append_left _ (List.mem_map_of_mem hl), ?_⟩
  rcases rewriteLine_cases newConfig l with ⟨key, val, hkey, hget, -⟩ | ⟨-, -, -, heq | heq⟩
  · exact absurd (hnone key hkey) (by simp [hget])
  · rw [heq]
    exact hlast
  · rw [heq]
    cases l with
    | nil => simp at hlast
    | cons c l => simpa using hlast

include hkeys in
/-- **What is active after a write**: the new variables, with their values quoted and unquoted. -/
theorem get_active_written (key : Text) :
    (parseLines ((rewriteLines newConfig ls).map stripCr)).1.get key
      = (newConfig.get key).map fun val => unquote (quote val) := by
  have hread : ∀ {line : Text}, line ∈ rewriteLines newConfig ls → ∀ {k w : Text},
      parseExportLine line = some (k, w) → ∃ val, newConfig.get k = some val ∧ w = unquote (quote val) := by
    intro line hline k w hparse
    rcases written_of_mem hline with ⟨key, val, hget, rfl⟩ | ⟨hnone, -⟩
    · rw [parseExportLine_exportLine val (isValidKey_of_get hkeys hget)] at hparse
      obtain ⟨rfl, rfl⟩ := Prod.mk.inj (Option.some.inj hparse)
      exact ⟨val, hget, rfl⟩
    · simp [hnone] at hparse
  cases hactive : (parseLines ((rewriteLines newConfig ls).map stripCr)).1.get key with
  | some w =>
    obtain ⟨line, hline, hparse⟩ := exists_of_active hactive
    obtain ⟨l, hl, rfl⟩ := List.mem_map.mp hline
    obtain ⟨val, hget, rfl⟩ := hread hl ((parse_stripCr l).1.symm.trans hparse)
    rw [hget]
    rfl
  | none =>
    cases hget : newConfig.get key with
    | none => rfl
    | some val =>
      have hparse : parseExportLine (stripCr (exportLine key val)) = some (key, unquote (quote val)) := by
        rw [(parse_stripCr _).1, parseExportLine_exportLine val (isValidKey_of_get hkeys hget)]
      have hmem : exportLine key val ∈ rewriteLines newConfig ls := exportLine_mem hget
      have hsome := active_of_mem (List.mem_map_of_mem hmem) hparse
      simp [hactive] at hsome

/-- A variable that was active and is not written again is commented out. -/
theorem commented_written {key : Text} (hold : ((parseLines ls).1.get key).isSome)
    (hget : newConfig.get key = none) :
    ((parseLines ((rewriteLines newConfig ls).map stripCr)).2.get key).isSome := by
  obtain ⟨val, hval⟩ := Option.isSome_iff_exists.mp hold
  obtain ⟨line, hline, hparse⟩ := exists_of_active hval
  have hmem : rewriteLine newConfig line ∈ rewriteLines newConfig ls :=
    List.mem_append_left _ (List.mem_map_of_mem hline)
  rcases rewriteLine_cases newConfig line with ⟨key', val', hkey', hget', -⟩ | ⟨-, hactive, hcommented, -⟩
  · simp only [lineKey, hparse, Option.some_or, Option.map_some, Option.some.injEq] at hkey'
    exact absurd hget (by simp [hkey', hget'])
  · have hwritten : parseCommentedExportLine (stripCr (rewriteLine newConfig line)) = some (key, val) := by
      rw [(parse_stripCr _).2, hcommented, hparse]
      rfl
    exact commented_of_mem (List.mem_map_of_mem hmem) ((parse_stripCr _).1.trans hactive) hwritten

include hkeys hvals in
/-- **Writing what was read** only takes returns off the ends of lines. -/
theorem rewriteLines_again {again : SetupConfig} (hsame : ∀ key, again.get key = newConfig.get key) :
    rewriteLines again ((rewriteLines newConfig ls).map stripCr) = (rewriteLines newConfig ls).map stripCr := by
  have hline : ∀ line ∈ rewriteLines newConfig ls, rewriteLine again (stripCr line) = stripCr line := by
    intro line hline
    obtain ⟨hexport, hcommented⟩ := parse_stripCr line
    rcases written_of_mem hline with ⟨key, val, hget, rfl⟩ | ⟨hnone, hother⟩
    · have hstrip : stripCr (exportLine key val) = exportLine key val :=
        stripCr_eq_self_iff.mpr fun hlast =>
          (notMem_exportLine_of_get hkeys hvals hget).2 (List.mem_of_getLast? hlast)
      rw [hstrip]
      unfold rewriteLine
      rw [parseExportLine_exportLine val (isValidKey_of_get hkeys hget)]
      dsimp only
      rw [hsame, hget]
    · unfold rewriteLine
      rw [hexport, hnone, hcommented]
      cases hcase : parseCommentedExportLine line with
      | none => rfl
      | some e =>
        dsimp only
        rw [hsame, hother e hcase]
  have hseen : ∀ e ∈ again.entries, e.1 ∈ ((rewriteLines newConfig ls).map stripCr).filterMap lineKey := by
    intro e he
    have hget : newConfig.get e.1 = some e.2 := by
      rw [← hsame]
      exact SetupConfig.mem_entries_iff.mp he
    refine List.mem_filterMap.mpr ⟨_, List.mem_map_of_mem (exportLine_mem hget), ?_⟩
    unfold lineKey
    rw [(parse_stripCr _).1, parseExportLine_exportLine _ (isValidKey_of_get hkeys hget)]
    rfl
  have hmap : ((rewriteLines newConfig ls).map stripCr).map (rewriteLine again)
      = (rewriteLines newConfig ls).map stripCr := by
    rw [List.map_map]
    exact List.map_congr_left hline
  have hnew : (again.entries.filter fun e =>
      decide (e.1 ∉ ((rewriteLines newConfig ls).map stripCr).filterMap lineKey)) = [] :=
    List.filter_eq_nil_iff.mpr fun e he => by simpa using hseen e he
  calc rewriteLines again ((rewriteLines newConfig ls).map stripCr)
      = (rewriteLines newConfig ls).map stripCr ++ [].map fun e : Text × Text => exportLine e.1 e.2 := by
        rw [rewriteLines, hmap, hnew]
    _ = (rewriteLines newConfig ls).map stripCr := List.append_nil _

end Write

/-! ## Main result -/

/-- A write does what is expected of it: it succeeds, reading gives the new variables, variables that were
active and are not written again are commented out, and writing what was read changes nothing. -/
def RoundTrips (file : Option Text) (newConfig : SetupConfig) : Prop :=
  ∃ written active commented, writeFile file newConfig = some written
    ∧ parseFile (some written) = some (active, commented)
    ∧ (∀ key, active.get key = newConfig.get key)
    ∧ (∀ old, parseFile file = some old → ∀ key, (old.1.get key).isSome → newConfig.get key = none →
      active.get key = none ∧ (commented.get key).isSome)
    ∧ ∀ again : SetupConfig, (∀ key, again.get key = active.get key) →
      writeFile (some written) again = some written

/-- The writer accepts identifiers and values without line ends. -/
theorem writeFile_eq {newConfig : SetupConfig} (file : Option Text)
    (hkeys : ∀ e ∈ newConfig.entries, isValidKey e.1 = true)
    (hvals : ∀ e ∈ newConfig.entries, '\n' ∉ e.2 ∧ '\r' ∉ e.2) :
    writeFile file newConfig = file.map fun content => unlines (rewriteLines newConfig (lines content)) := by
  unfold writeFile
  rw [if_neg, if_neg]
  · simp only [List.any_eq_true, decide_eq_true_eq, not_exists, not_and, not_or]
    exact fun e he => hvals e he
  · simp only [List.any_eq_true, Bool.not_eq_true', not_exists, not_and, Bool.not_eq_false]
    exact fun e he => hkeys e he

/-- A write does what is expected of it if values survive and no written line ends with a return. -/
theorem roundTrips_iff_stripCr {content : Text} {newConfig : SetupConfig}
    (hkeys : ∀ e ∈ newConfig.entries, isValidKey e.1 = true)
    (hvals : ∀ e ∈ newConfig.entries, '\n' ∉ e.2 ∧ '\r' ∉ e.2) :
    RoundTrips (some content) newConfig ↔ (∀ e ∈ newConfig.entries, unquote (quote e.2) = e.2)
      ∧ (rewriteLines newConfig (lines content)).map stripCr = rewriteLines newConfig (lines content) := by
  have hwrite : writeFile (some content) newConfig
      = some (unlines (rewriteLines newConfig (lines content))) := writeFile_eq (some content) hkeys hvals
  have hread : ∀ key, (parseLines ((rewriteLines newConfig (lines content)).map stripCr)).1.get key
      = (newConfig.get key).map fun val => unquote (quote val) := get_active_written hkeys
  have hcommented : ∀ key, ((parseLines (lines content)).1.get key).isSome → newConfig.get key = none →
      ((parseLines ((rewriteLines newConfig (lines content)).map stripCr)).2.get key).isSome :=
    fun key => commented_written
  have hagain : ∀ again : SetupConfig, (∀ key, again.get key = newConfig.get key) →
      rewriteLines again ((rewriteLines newConfig (lines content)).map stripCr)
        = (rewriteLines newConfig (lines content)).map stripCr := fun again =>
    rewriteLines_again hkeys hvals
  have hout : ∀ line ∈ rewriteLines newConfig (lines content), '\n' ∉ line := fun line =>
    notMem_of_mem_rewriteLines hkeys hvals fun l hl => notMem_of_mem_lines hl
  generalize rewriteLines newConfig (lines content) = out at hwrite hread hcommented hagain hout ⊢
  have hlines : lines (unlines out) = out.map stripCr := lines_unlines hout
  have hout' : ∀ line ∈ out.map stripCr, '\n' ∉ line := by
    intro line hline
    rw [← hlines] at hline
    exact notMem_of_mem_lines hline
  -- the second write, once the values are known to survive
  have hrewrite : ∀ again : SetupConfig, (∀ key, again.get key = newConfig.get key) →
      writeFile (some (unlines out)) again = some (unlines (out.map stripCr)) := by
    intro again hsame
    have hmem : ∀ e ∈ again.entries, e ∈ newConfig.entries := fun e he =>
      SetupConfig.mem_entries_iff.mpr ((hsame e.1).symm.trans (SetupConfig.mem_entries_iff.mp he))
    rw [writeFile_eq _ (fun e he => hkeys e (hmem e he)) fun e he => hvals e (hmem e he), Option.map_some,
      hlines, hagain again hsame]
  constructor
  · rintro ⟨written, active, commented, hwritten, hparsed, hsame, -, htwice⟩
    obtain rfl := Option.some.inj (hwrite.symm.trans hwritten)
    rw [parseFile, Option.map_some, hlines] at hparsed
    have hactive : active = (parseLines (out.map stripCr)).1 := by rw [Option.some.inj hparsed]
    subst hactive
    refine ⟨fun e he => ?_, ?_⟩
    · have hget := SetupConfig.mem_entries_iff.mp he
      have := hsame e.1
      rw [hread, hget] at this
      exact Option.some.inj this
    · have hsecond := htwice _ fun key => rfl
      rw [hrewrite _ hsame] at hsecond
      exact unlines_injective hout' hout (Option.some.inj hsecond)
  · rintro ⟨hvalues, hreturns⟩
    have hsame : ∀ key, (parseLines (out.map stripCr)).1.get key = newConfig.get key := by
      intro key
      rw [hread]
      cases hget : newConfig.get key with
      | none => rfl
      | some val => rw [Option.map_some, hvalues (key, val) (SetupConfig.mem_entries_iff.mpr hget)]
    refine ⟨unlines out, _, _, hwrite, by rw [parseFile, Option.map_some, hlines], hsame, ?_, ?_⟩
    · intro old hold key hactive hget
      obtain rfl := Option.some.inj hold
      exact ⟨(hsame key).trans hget, hcommented key hactive hget⟩
    · intro again hagree
      rw [hrewrite again fun key => (hagree key).trans (hsame key), hreturns]

/-- **When a write does what is expected of it**: the file is text, no value has an apostrophe or blanks at
its ends that are not quoted, and a line that ends with a carriage return of its own is one that is
replaced. -/
theorem writeFile_roundTrips_iff (file : Option Text) (newConfig : SetupConfig)
    (hkeys : ∀ e ∈ newConfig.entries, isValidKey e.1 = true)
    (hvals : ∀ e ∈ newConfig.entries, '\n' ∉ e.2 ∧ '\r' ∉ e.2) :
    RoundTrips file newConfig ↔ ∃ content, file = some content
      ∧ (∀ e ∈ newConfig.entries, '\'' ∉ e.2 ∧ ((∃ c ∈ e.2, c ∈ special) ∨ trim e.2 = e.2))
      ∧ ∀ line ∈ lines content, line.getLast? = some '\r' →
        ∃ key, lineKey line = some key ∧ (newConfig.get key).isSome := by
  cases file with
  | none =>
    constructor
    · rintro ⟨written, _, _, hwrite, -⟩
      rw [writeFile_eq none hkeys hvals] at hwrite
      exact absurd hwrite (by simp)
    · rintro ⟨content, hcontent, -⟩
      exact absurd hcontent (by simp)
  | some content =>
    have hreturns : (rewriteLines newConfig (lines content)).map stripCr
          = rewriteLines newConfig (lines content)
        ↔ ∀ line ∈ lines content, line.getLast? = some '\r' →
          ∃ key, lineKey line = some key ∧ (newConfig.get key).isSome := by
      have hmap : ∀ l : List Text, l.map stripCr = l ↔ ∀ line ∈ l, stripCr line = line := fun l => by
        simpa using List.map_inj_left (l := l) (f := stripCr) (g := id)
      rw [hmap]
      constructor
      · intro hsame line hline hlast
        by_contra hnone
        push Not at hnone
        obtain ⟨l, hl, hreturn⟩ := exists_return_of_mem hline hlast fun key hkey => by
          simpa using hnone key hkey
        exact stripCr_eq_self_iff.mp (hsame l hl) hreturn
      · intro hreplaced line hline
        refine stripCr_eq_self_iff.mpr fun hlast => ?_
        obtain ⟨l, hl, hreturn, hnone⟩ := exists_of_return hkeys hvals hline hlast
        obtain ⟨key, hkey, hsome⟩ := hreplaced l hl hreturn
        simp [hnone key hkey] at hsome
    rw [roundTrips_iff_stripCr hkeys hvals, hreturns]
    simp only [unquote_quote, Option.some.injEq, exists_eq_left']

/-- A file with an active variable `A`, a commented-out `B` and an active `C`. -/
def threeLines : Text :=
  unlines [exportLine ['A'] ['1'] ++ ['\r'], '#' :: exportLine ['B'] ['2'], exportLine ['C'] ['3']]

/-- `A` gets a value with a blank, `C` is dropped and `D` is new. -/
theorem writeFile_roundTrips_threeLines :
    RoundTrips (some threeLines) ⟨[(['A'], ['x', ' ', 'y']), (['D'], ['4'])], by decide⟩ := by
  refine (writeFile_roundTrips_iff _ _ (by decide) (by decide)).mpr ⟨_, rfl, ?_, ?_⟩
  · simp only [List.forall_mem_cons, List.not_mem_nil, false_implies, implies_true, and_true]
    exact ⟨⟨by decide, .inl ⟨' ', by decide, by decide⟩⟩, by decide, .inr (by decide)⟩
  · decide +kernel

/-- **A value with an apostrophe comes back longer.** -/
theorem writeFile_corrupts_apostrophe :
    (∀ written active commented,
        writeFile (some []) ⟨[(['P'], ['i', '\'', 's'])], by decide⟩ = some written →
        parseFile (some written) = some (active, commented) →
        active.get ['P'] = some ['i', '\'', '\\', '\'', '\'', 's'])
      ∧ ¬ RoundTrips (some []) ⟨[(['P'], ['i', '\'', 's'])], by decide⟩ := by
  have hread : ∀ written active commented,
      writeFile (some []) ⟨[(['P'], ['i', '\'', 's'])], by decide⟩ = some written →
      parseFile (some written) = some (active, commented) →
      active.get ['P'] = some ['i', '\'', '\\', '\'', '\'', 's'] := by
    intro written active commented hwrite hparse
    obtain rfl := Option.some.inj hwrite
    have hactive : _ = active := congrArg Prod.fst (Option.some.inj hparse)
    rw [← hactive]
    decide +kernel
  refine ⟨hread, ?_⟩
  rintro ⟨written, active, commented, hwrite, hparse, hsame, -⟩
  have hvalue := hread written active commented hwrite hparse
  rw [hsame] at hvalue
  exact absurd hvalue (by decide)

end SentryUsb.Config
